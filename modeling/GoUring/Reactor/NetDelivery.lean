import GoUring.Reactor.NetDispatch

/-!
# Completions that miss their callback, and requests that get lost

`consistent_step` says that the registry and the requests on their way fit
together after every step but one: a publisher that handles a timed request with
exactly one free slot in its submission queue.  This module turns that into
statements about whole runs, in both directions.  A run in which no publisher ever
takes that step never dispatches to a missing callback, and a run in which one
does leaves an SQE on its way whose callback is gone.  Likewise, no request is
lost along a run exactly if the publishers find room for every request of
`Queue`.
-/

namespace GoUring.Reactor

open Uring Correlation

namespace NetReactor

variable {n : ℕ} {s s' : NetReactor} {e : NetEvent}

/-! ## The start -/

theorem consistent_start (some_loop : 0 < n) (rings : ℕ → ReactorRing true) :
    ((start n some_loop rings).ledger n).Consistent where
  sound := (base_start some_loop rings).sound
  launched_of_ended := fun k ended => by cases ended
  complete := fun k id _ registered => by cases registered
  owned := by
    intro id travels
    have held : id ∈ (start n some_loop rings).held n := (mem_requestIDs.mp travels).1
    rw [held_start] at held
    cases held
  once := fun k id _ launched => by cases launched

/-! ## Completions that miss their callback -/

/-- **Every completion finds its callback.**  A request identifier in the
submission queue, in the kernel or in the completion queue has the callback of the
`Queue` call that returned it registered; the pop of a consumer that takes a
completion gives that callback; and no nil callback has been called. -/
structure NoMissingCallback (n : ℕ) (s : NetReactor) : Prop where
  registered : ∀ l < n, ∀ ud ∈ (s.loops l).engine.carried, ¬ Reserved ud →
    ∃ k, (s.calls k).HasReturned ud ∧ s.registry.lookup ud = some k
  dispatched : ∀ l < n, ∀ cqe e, (s.loops l).engine.take = some (cqe, e) →
    ¬ Reserved cqe.userData →
      ∃ k, (s.calls k).HasReturned cqe.userData ∧ (s.registry.pop cqe.userData).1 = some k
  calm : s.panicked ≠ some .nilCallback

/-- What a run without split requests keeps. -/
structure Sane (n : ℕ) (s : NetReactor) : Prop where
  base : Base n s
  consistent : (s.ledger n).Consistent
  callbacks : ∀ k, (s.calls k).isNil = false
  calm : s.panicked ≠ some .nilCallback

theorem sane_start (some_loop : 0 < n) (rings : ℕ → ReactorRing true) :
    Sane n (start n some_loop rings) :=
  ⟨base_start some_loop rings, consistent_start some_loop rings, fun _ => rfl, nofun⟩

theorem Sane.step (sane : Sane n s) (some_loop : 0 < n) (life : s.LifeBound n)
    (life' : s'.LifeBound n) (gives : e.GivesCallback) (fits : s.LinkTimeoutFits e)
    (stepped : s.step n e = some s') : Sane n s' := by
  have callbacks := callbacks_step sane.callbacks gives stepped
  obtain ⟨consistent, calm⟩ := consistent_step some_loop sane.base sane.consistent
    ⟨life, sane.callbacks⟩ ⟨life', callbacks⟩ fits stepped
  exact ⟨sane.base.step some_loop stepped, consistent, callbacks, calm⟩

theorem mem_flight {l : ℕ} (lt : l < n) {ud : UInt64} (carried : ud ∈ (s.loops l).engine.carried)
    (request : ¬ Reserved ud) : ud ∈ (s.ledger n).flight :=
  mem_inFlight lt (Multiset.mem_add.mpr (Or.inr carried)) request

theorem Sane.noMissingCallback (sane : Sane n s) (life : s.LifeBound n) :
    s.NoMissingCallback n := by
  have registered : ∀ l < n, ∀ ud ∈ (s.loops l).engine.carried, ¬ Reserved ud →
      ∃ k, (s.calls k).HasReturned ud ∧ s.registry.lookup ud = some k := by
    intro l lt ud carried request
    obtain ⟨k, live, launched, found⟩ := lookup_of_travels sane.consistent
      ⟨life, sane.callbacks⟩ (mem_flight lt carried request)
    exact ⟨k, hasReturned_iff.mpr ⟨launched, live.1⟩, found⟩
  refine ⟨registered, ?_, sane.calm⟩
  intro l lt cqe e taken request
  have carried : cqe.userData ∈ (s.loops l).engine.carried := by
    rw [(Engine.take_spec taken).1]
    exact Multiset.mem_cons_self _ _
  obtain ⟨k, returned, found⟩ := registered l lt cqe.userData carried request
  exact ⟨k, returned, (s.registry.pop_spec cqe.userData).1.trans found⟩

/-- A split request leaves an SQE whose callback is gone. -/
theorem missing_of_split (some_loop : 0 < n) (base : Base n s) (split : ¬ s.LinkTimeoutFits e)
    (stepped : s.step n e = some s') : ¬ s'.NoMissingCallback n := by
  intro good
  cases step_effect some_loop base.sound stepped with
  | @half l _ _ req _ _ lt _ request _ _ _ _ carried _ ledger =>
      obtain ⟨k, -, found⟩ := good.registered l lt req.userData carried request
      have gone : (s'.ledger n).table req.userData = none := by
        rw [ledger]
        exact Ledger.table_pop _ _
      cases gone.symm.trans found
  | idle numbering ledger quiet room =>
      cases e with
      | request l spec reads =>
          refine split fun req rest head timed last => ?_
          have request : ¬ Reserved req.userData := fun reserved => timed (req.untimed reserved)
          exact (room req rest head request).2 timed last
      | _ => exact split trivial
  | @drop l reads spec req rest _ head request full =>
      refine split fun req' rest' head' timed last => ?_
      omega
  | _ => exact split trivial

/-- **A completion always finds its callback exactly if no timed request is ever
split.**  Along any run with callbacks that are not nil and fewer than `2 ^ 32`
requests for a descriptor during the life of a request, every state is free of
missing callbacks if and only if no publisher handled a timed request with exactly
one free slot in its submission queue. -/
theorem net_callback_never_missing_iff (n : ℕ) (some_loop : 0 < n)
    (rings : ℕ → ReactorRing true) {p : List (NetReactor × NetEvent)} {s : NetReactor}
    (path : Runs.Path (step n) (start n some_loop rings) p s)
    (gives : ∀ x ∈ p, x.2.GivesCallback) (life : ∀ t ∈ Runs.visited p s, t.LifeBound n) :
    (∀ t ∈ Runs.visited p s, t.NoMissingCallback n) ↔ ∀ x ∈ p, x.1.LinkTimeoutFits x.2 :=
  path.exact (Sane n) (LifeBound n) (NoMissingCallback n) (fun _ e => e.GivesCallback)
    LinkTimeoutFits (sane_start some_loop rings)
    (fun _ sane life => sane.noMissingCallback life)
    (fun _ _ _ sane life life' gives fits stepped =>
      sane.step some_loop life life' gives fits stepped)
    (fun _ _ _ sane _ _ _ split stepped => missing_of_split some_loop sane.base split stepped)
    life gives

theorem givesCallback_of_record {s₀ : NetReactor} {es : List NetEvent}
    (gives : ∀ e ∈ es, e.GivesCallback) : ∀ x ∈ Runs.record (step n) s₀ es, x.2.GivesCallback :=
  fun _ mem => gives _ (Runs.mem_of_mem_record es mem)

theorem lifeBound_of_record (some_loop : 0 < n) {rings : ℕ → ReactorRing true}
    {es : List NetEvent}
    (done : Runs.replay (step n) (start n some_loop rings) es = some s)
    (short : es.length < 2 ^ 32) :
    ∀ t ∈ Runs.visited (Runs.record (step n) (start n some_loop rings) es) s, t.LifeBound n :=
  lifeBound_of_short some_loop (Runs.path_record es done)
    ((Runs.length_record_le es _).trans_lt short)

/-- The equivalence at a run with an untimed request. -/
theorem net_callback_never_missing_iff_served :
    ∃ p s, Runs.Path (step 1) (start 1 Nat.one_pos oneSlot) p s ∧
      s.invoked = [(0, ⟨packRequestID 3 1, 5, 0⟩)] ∧
      ((∀ t ∈ Runs.visited p s, t.NoMissingCallback 1) ↔
        ∀ x ∈ p, x.1.LinkTimeoutFits x.2) :=
  ⟨_, _, Runs.path_record served rfl, rfl,
    net_callback_never_missing_iff 1 Nat.one_pos oneSlot (Runs.path_record served rfl)
      (givesCallback_of_record (by simp [served, NetEvent.GivesCallback, pingArgs]))
      (lifeBound_of_record Nat.one_pos rfl (by decide))⟩

/-- The same request with a timeout, on the same ring of one slot. -/
def split : List NetEvent :=
  [.queue 0 (pingArgs 1000000), .draw 0, .store 0, .send 0, .request 0 0 0,
    .signal 0 (.consumed 1), .kernel 0 (.complete 0 5 0), .consumer 0 .wait,
    .signal 0 (.consumed 0), .consumer 0 .peek, .dispatch 0]

/-- **The operation is queued, its link timeout is not, and the completion of the
operation calls a nil callback.** -/
theorem net_split_request_calls_nil :
    ∃ p s, Runs.Path (step 1) (start 1 Nat.one_pos oneSlot) p s ∧
      (∀ x ∈ p, x.2.GivesCallback) ∧ (∀ t ∈ Runs.visited p s, t.LifeBound 1) ∧
      s.panicked = some .nilCallback :=
  ⟨_, _, Runs.path_record split rfl,
    givesCallback_of_record (by simp [split, NetEvent.GivesCallback, pingArgs]),
    lifeBound_of_record Nat.one_pos rfl (by decide), rfl⟩

/-! ## Requests that get lost -/

/-- **No request is lost.**  The callback of a request whose `Queue` has returned
was invoked, or it is registered and the request is in exactly one place: in one
channel, submission queue, kernel or completion queue. -/
def NoRequestLost (n : ℕ) (s : NetReactor) : Prop :=
  ∀ k id, (s.calls k).HasReturned id → k ∈ s.invoked.map Prod.fst ∨
    (s.registry.lookup id = some k ∧ (s.held n).count id = 1)

/-- What a run in which the publishers find room keeps. -/
structure Lossless (n : ℕ) (s : NetReactor) : Prop extends Sane n s where
  dropped : s.dropped = []

theorem RoomFor.linkTimeoutFits (room : s.RoomFor e) : s.LinkTimeoutFits e := by
  cases e with
  | request l spec reads =>
      intro req rest head timed last
      have request : ¬ Reserved req.userData := fun reserved => timed (req.untimed reserved)
      exact (room req rest head request).2 timed last
  | _ => trivial

theorem dropped_step (some_loop : 0 < n) (base : Base n s) (room : s.RoomFor e)
    (stepped : s.step n e = some s') : s'.dropped = s.dropped := by
  cases step_effect some_loop base.sound stepped with
  | idle _ _ quiet => exact quiet.dropped
  | draw _ _ _ _ _ quiet => exact quiet.dropped
  | add _ _ _ _ _ quiet => exact quiet.dropped
  | addNil _ _ _ _ _ quiet => exact quiet.dropped
  | store _ _ _ _ quiet => exact quiet.dropped
  | storeNil _ _ _ quiet => exact quiet.dropped
  | send _ _ _ _ quiet => exact quiet.dropped
  | deliver _ _ _ _ _ dropped => exact dropped
  | missing => rfl
  | drop head request full =>
      have := (room _ _ head request).1
      omega
  | half _ head request timed last unread =>
      exact absurd unread ((room _ _ head request).2 timed last)

theorem Lossless.step (lossless : Lossless n s) (some_loop : 0 < n) (life : s.LifeBound n)
    (life' : s'.LifeBound n) (gives : e.GivesCallback) (room : s.RoomFor e)
    (stepped : s.step n e = some s') : Lossless n s' where
  toSane := lossless.toSane.step some_loop life life' gives room.linkTimeoutFits stepped
  dropped := (dropped_step some_loop lossless.base room stepped).trans lossless.dropped

theorem Lossless.noRequestLost (lossless : Lossless n s) (life : s.LifeBound n) :
    s.NoRequestLost n := by
  intro k id returned
  obtain ⟨launched, key⟩ := hasReturned_iff.mp returned
  cases finished : s.ended k with
  | true =>
      rw [ended, lossless.dropped] at finished
      refine Or.inl ?_
      simpa using finished
  | false =>
      have live : (s.row k).Live id := ⟨key, finished⟩
      have ordinary : s.Ordinary n := ⟨life, lossless.callbacks⟩
      refine Or.inr ⟨?_, ?_⟩
      · exact lossless.consistent.complete k id live (ordinary.registered launched)
      · obtain ⟨t, -, rfl⟩ := Option.map_eq_some_iff.mp key
        have once := lossless.consistent.once k t.id live launched
        rwa [show ((s.ledger n).flight).count t.id = (s.held n).count t.id from
          Multiset.count_filter_of_pos t.not_reserved] at once

/-- A request whose callback the publisher took out is lost. -/
theorem lost_of_pop (sane : Sane n s) (life : s.LifeBound n) {id : RequestID}
    (travels : id ∈ (s.ledger n).flight)
    (rows : s'.row = ((s.ledger n).pop id).row)
    (table : s'.registry.lookup = ((s.ledger n).pop id).table)
    (invoked : s'.invoked = s.invoked) : ¬ s'.NoRequestLost n := by
  intro good
  obtain ⟨k, live, launched, found⟩ :=
    lookup_of_travels sane.consistent ⟨life, sane.callbacks⟩ travels
  have closed : (s.ledger n).pop id = (s.ledger n).close k id := by
    simp only [Ledger.pop, show (s.ledger n).table id = some k from found]
  have row : s'.row k = { s.row k with ended := true } := by
    rw [rows, closed]
    exact Function.update_self _ _ _
  have returned : (s'.calls k).HasReturned id := by
    refine hasReturned_iff.mpr ?_
    rw [row]
    exact ⟨launched, live.1⟩
  rcases good k id returned with called | ⟨registered, -⟩
  · rw [invoked] at called
    exact notMem_invoked live.2 called
  · rw [table, Ledger.table_pop] at registered
    cases registered

theorem lost_of_full (some_loop : 0 < n) (sane : Sane n s) (life : s.LifeBound n)
    (full : ¬ s.RoomFor e) (stepped : s.step n e = some s') : ¬ s'.NoRequestLost n := by
  cases step_effect some_loop sane.base.sound stepped with
  | idle _ _ _ room => exact absurd room full
  | drop _ _ _ travels _ ledger invoked =>
      refine lost_of_pop sane life travels ?_ ?_ invoked
      · exact congrArg Ledger.row ledger
      · exact congrArg Ledger.table ledger
  | half _ _ _ _ _ _ travels _ _ ledger invoked =>
      refine lost_of_pop sane life travels ?_ ?_ invoked
      · exact congrArg Ledger.row ledger
      · exact congrArg Ledger.table ledger
  | _ => exact absurd trivial full

/-- **No request is lost exactly if the publishers always find room.**  Along any
run with callbacks that are not nil and fewer than `2 ^ 32` requests for a
descriptor during the life of a request, no state has lost a request if and only
if no publisher handled a request of `Queue` for which its submission queue had
too few free slots. -/
theorem net_no_request_lost_iff (n : ℕ) (some_loop : 0 < n) (rings : ℕ → ReactorRing true)
    {p : List (NetReactor × NetEvent)} {s : NetReactor}
    (path : Runs.Path (step n) (start n some_loop rings) p s)
    (gives : ∀ x ∈ p, x.2.GivesCallback) (life : ∀ t ∈ Runs.visited p s, t.LifeBound n) :
    (∀ t ∈ Runs.visited p s, t.NoRequestLost n) ↔ ∀ x ∈ p, x.1.RoomFor x.2 :=
  path.exact (Lossless n) (LifeBound n) (NoRequestLost n) (fun _ e => e.GivesCallback)
    RoomFor ⟨sane_start some_loop rings, rfl⟩
    (fun _ lossless life => lossless.noRequestLost life)
    (fun _ _ _ lossless life life' gives room stepped =>
      lossless.step some_loop life life' gives room stepped)
    (fun _ _ _ lossless life _ _ full stepped =>
      lost_of_full some_loop lossless.toSane life full stepped)
    life gives

/-- The equivalence at a run with one request. -/
theorem net_no_request_lost_iff_served :
    ∃ p s, Runs.Path (step 1) (start 1 Nat.one_pos oneSlot) p s ∧
      s.invoked = [(0, ⟨packRequestID 3 1, 5, 0⟩)] ∧
      ((∀ t ∈ Runs.visited p s, t.NoRequestLost 1) ↔ ∀ x ∈ p, x.1.RoomFor x.2) :=
  ⟨_, _, Runs.path_record served rfl, rfl,
    net_no_request_lost_iff 1 Nat.one_pos oneSlot (Runs.path_record served rfl)
      (givesCallback_of_record (by simp [served, NetEvent.GivesCallback, pingArgs]))
      (lifeBound_of_record Nat.one_pos rfl (by decide))⟩

/-- Two requests for a ring of one slot. -/
def overfull : List NetEvent :=
  [.queue 0 (pingArgs 0), .draw 0, .store 0, .send 0, .queue 1 (pingArgs 0), .draw 1, .store 1,
    .send 1, .request 0 0 0, .request 0 0 0]

/-- **The second request finds the queue full and vanishes**: `Queue` has returned
its identifier, the callback was not invoked, it is not registered, and the
request is nowhere. -/
theorem net_full_queue_loses_request :
    ∃ p s, Runs.Path (step 1) (start 1 Nat.one_pos oneSlot) p s ∧
      (∀ x ∈ p, x.2.GivesCallback) ∧ (∀ t ∈ Runs.visited p s, t.LifeBound 1) ∧
      s.run = .running ∧ (s.calls 1).HasReturned (packRequestID 3 2) ∧ s.invoked = [] ∧
      s.registry.lookup (packRequestID 3 2) = none ∧
      (s.held 1).count (packRequestID 3 2) = 0 :=
  ⟨_, _, Runs.path_record overfull rfl,
    givesCallback_of_record (by simp [overfull, NetEvent.GivesCallback, pingArgs]),
    lifeBound_of_record Nat.one_pos rfl (by decide), rfl, ⟨_, _, _, rfl, rfl⟩, rfl, rfl, rfl⟩

end NetReactor

end GoUring.Reactor
