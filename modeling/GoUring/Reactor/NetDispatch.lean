import GoUring.Reactor.NetEffect

/-!
# Dispatching in a network reactor

What a caller of `Queue` can rely on, in the order of what it needs.

* Whatever happens, a callback is only ever invoked with the completion that
  carries its own identifier, and at most once; identifiers are never reserved
  user data, and those of outstanding requests are distinct.
* A completion always finds its callback exactly if no publisher ever handles a
  timed request with exactly one free slot in the submission queue: then the
  operation is queued, its link timeout is not, and the error branch takes the
  callback of a request that is on its way out of the registry.
* No request is ever lost exactly if the publishers always find room: the error
  branch takes the callback of a request out of the registry and tells nobody.

The last two are about runs in which callbacks are not nil and identifiers are
not used up: fewer than `2 ^ 32` requests for one descriptor are made during the
life of a request.
-/

namespace GoUring.Reactor

open Uring Correlation

namespace NetReactor

variable {n : ℕ} {s s' : NetReactor} {e : NetEvent}

/-! ## What holds in every run -/

/-- **What holds in every run.** -/
structure Base (n : ℕ) (s : NetReactor) : Prop where
  numbering : s.numbering.WF
  sound : (s.ledger n).Sound
  regular : (s.ledger n).Regular
  /-- A callback is invoked with the completion of its own request. -/
  own : ∀ x ∈ s.invoked, ∃ t, s.numbering.ticket x.1 = some t ∧ x.2.userData = t.id
  /-- No callback is invoked twice. -/
  once : (s.invoked.map Prod.fst).Nodup

theorem base_start (some_loop : 0 < n) (rings : ℕ → ReactorRing true) :
    Base n (start n some_loop rings) where
  numbering :=
    { nonce := fun _ _ drawn => by cases drawn
      serial_le := fun _ _ drawn => by cases drawn
      serial_inj := fun _ _ _ _ drawn => by cases drawn
      counter := CallbackRegistry.counter_new n fdPerGranule some_loop (by decide) }
  sound := by
    intro ud k found
    have nothing : (ledger n (start n some_loop rings)).table ud = none :=
      CallbackRegistry.lookup_new n fdPerGranule some_loop (by decide) ud
    rw [nothing] at found
    cases found
  regular := fun k ended => by cases ended
  own := fun x mem => by cases mem
  once := List.nodup_nil

/-- Nothing is on its way at the start. -/
theorem held_start (some_loop : 0 < n) (rings : ℕ → ReactorRing true) :
    (start n some_loop rings).held n = 0 := by
  refine Finset.sum_eq_zero fun l _ => ?_
  show Multiset.ofList [] + (Engine.start (rings l)).carried = 0
  rw [Engine.carried_start]
  rfl

/-- A request found in the registry was not invoked. -/
theorem notMem_invoked {k : ℕ} (running : s.ended k = false) : k ∉ s.invoked.map Prod.fst := by
  intro mem
  simp only [ended, mem, decide_true, Bool.true_or] at running
  cases running

/-- Nothing happens to the callbacks that were invoked. -/
theorem Base.of_quiet (base : Base n s) (numbering : s'.numbering.WF)
    (sound : (s'.ledger n).Sound) (regular : (s'.ledger n).Regular)
    (invoked : s'.invoked = s.invoked)
    (kept : ∀ k t, s.numbering.ticket k = some t → s'.numbering.ticket k = some t) :
    Base n s' where
  numbering := numbering
  sound := sound
  regular := regular
  own := by
    intro x mem
    rw [invoked] at mem
    obtain ⟨t, ticket, same⟩ := base.own x mem
    exact ⟨t, kept x.1 t ticket, same⟩
  once := by
    rw [invoked]
    exact base.once

theorem kept_draw {k : ℕ} {op : NetOperation} (fresh : s.numbering.ticket k = none) (j : ℕ)
    (t : Ticket) (ticket : s.numbering.ticket j = some t) :
    (s.numbering.draw k op).ticket j = some t := by
  have other : j ≠ k := by
    rintro rfl
    rw [fresh] at ticket
    cases ticket
  exact (Function.update_of_ne other _ _).trans ticket

/-- Call `k` is invoked with a completion that was looked up for it. -/
theorem Base.deliver (base : Base n s) {k : ℕ} {cqe : CQEvent}
    (found : (s.ledger n).table cqe.userData = some k)
    (numbering : s'.numbering = s.numbering)
    (ledger : s'.ledger n = (s.ledger n).land k cqe.userData)
    (invoked : s'.invoked = s.invoked ++ [(k, cqe)]) : Base n s' := by
  obtain ⟨live, registered⟩ := base.sound cqe.userData k found
  refine ⟨numbering ▸ base.numbering, ?_, ?_, ?_, ?_⟩
  · rw [ledger]
    exact base.sound.close live
  · rw [ledger]
    exact base.regular.close registered cqe.userData
  · intro x mem
    rw [numbering]
    rw [invoked] at mem
    rcases List.mem_append.mp mem with old | new
    · exact base.own x old
    · obtain rfl := List.mem_singleton.mp new
      obtain ⟨t, ticket, eq⟩ := Option.map_eq_some_iff.mp live.1
      exact ⟨t, ticket, eq.symm⟩
  · rw [invoked, List.map_append]
    refine List.nodup_append.mpr ⟨base.once, List.nodup_singleton _, ?_⟩
    rintro j old _ new rfl
    obtain rfl := List.mem_singleton.mp new
    exact notMem_invoked live.2 old

/-- **Every step keeps what holds in every run.** -/
theorem Base.step (base : Base n s) (some_loop : 0 < n) (stepped : s.step n e = some s') :
    Base n s' := by
  have same : s'.numbering = s.numbering → ∀ k t, s.numbering.ticket k = some t →
      s'.numbering.ticket k = some t := fun eq k t ticket => eq ▸ ticket
  have wf : s'.numbering = s.numbering → s'.numbering.WF := fun eq => eq ▸ base.numbering
  cases step_effect some_loop base.sound stepped with
  | idle numbering ledger quiet room =>
      exact base.of_quiet (wf numbering) (ledger ▸ base.sound) (ledger ▸ base.regular)
        quiet.invoked (same numbering)
  | draw fresh unregistered grounded numbering ledger quiet =>
      refine base.of_quiet (numbering ▸ base.numbering.draw _ _) ?_ ?_ quiet.invoked
        (numbering ▸ kept_draw fresh)
      · rw [ledger]
        exact base.sound.draw unregistered
      · rw [ledger]
        exact base.regular.draw _ _
  | @add k op _ fresh unregistered grounded numbering ledger quiet =>
      have regular := base.regular.draw k (s.numbering.next op).id
      have drawn : (((s.ledger n).draw k (s.numbering.next op).id).row k).registered = false := by
        simp only [Ledger.draw, Function.update_self]
        exact unregistered
      refine base.of_quiet (numbering ▸ base.numbering.draw _ _) ?_ ?_ quiet.invoked
        (numbering ▸ kept_draw fresh)
      · rw [ledger]
        refine (base.sound.draw unregistered).register (regular.live ?_ drawn) drawn
        simp only [Ledger.draw, Function.update_self]
      · rw [ledger]
        exact regular.register _ _
  | addNil fresh unregistered isNil numbering ledger quiet =>
      refine base.of_quiet (numbering ▸ base.numbering.draw _ _) ?_ ?_ quiet.invoked
        (numbering ▸ kept_draw fresh)
      · rw [ledger]
        exact (base.sound.draw unregistered).clear _
      · rw [ledger]
        exact base.regular.draw _ _
  | store key unregistered numbering ledger quiet =>
      refine base.of_quiet (wf numbering) ?_ ?_ quiet.invoked (same numbering)
      · rw [ledger]
        exact base.sound.register (base.regular.live key unregistered) unregistered
      · rw [ledger]
        exact base.regular.register _ _
  | storeNil isNil numbering ledger quiet =>
      refine base.of_quiet (wf numbering) ?_ ?_ quiet.invoked (same numbering)
      · rw [ledger]
        exact base.sound.clear _
      · rw [ledger]
        exact base.regular
  | send key grounded numbering ledger quiet =>
      refine base.of_quiet (wf numbering) ?_ ?_ quiet.invoked (same numbering)
      · rw [ledger]
        exact base.sound.launch _ _
      · rw [ledger]
        exact base.regular.launch _ _
  | @deliver l k cqe _ found travels numbering ledger invoked dropped calm =>
      exact base.deliver found numbering ledger invoked
  | missing found travels =>
      exact base.of_quiet base.numbering base.sound base.regular rfl fun _ _ ticket => ticket
  | @drop l reads spec req rest _ head request full travels numbering ledger invoked =>
      refine base.of_quiet (wf numbering) ?_ ?_ invoked (same numbering)
      · rw [ledger]
        exact base.sound.pop req.userData
      · rw [ledger]
        exact base.regular.pop base.sound req.userData
  | half lt head request timed last unread travels carried numbering ledger invoked =>
      refine base.of_quiet (wf numbering) ?_ ?_ invoked (same numbering)
      · rw [ledger]
        exact base.sound.pop _
      · rw [ledger]
        exact base.regular.pop base.sound _

/-- What holds in every run, in every state of it. -/
theorem base_of_path (some_loop : 0 < n) {rings : ℕ → ReactorRing true}
    {p : List (NetReactor × NetEvent)}
    (path : Runs.Path (step n) (start n some_loop rings) p s) : Base n s :=
  path.invariant_of_step (Base n) (base_start some_loop rings)
    fun _ _ _ base stepped => base.step some_loop stepped

theorem adds_draw_le (N : Numbering) (k : ℕ) (op : NetOperation) (fd : ℕ) :
    (N.draw k op).adds fd ≤ N.adds fd + 1 := by
  by_cases this : fd = op.fd
  · subst this
    simp [Numbering.draw]
  · simp [Numbering.draw, Function.update_of_ne this]

/-- A step draws at most one nonce. -/
theorem adds_step (some_loop : 0 < n) (base : Base n s) (stepped : s.step n e = some s')
    (fd : ℕ) : s'.adds fd ≤ s.adds fd + 1 := by
  have same : s'.numbering = s.numbering → s'.adds fd ≤ s.adds fd + 1 := by
    intro eq
    have := congrFun (congrArg Numbering.adds eq) fd
    exact this.trans_le (Nat.le_succ _)
  have drawn : ∀ {k : ℕ} {op : NetOperation}, s'.numbering = s.numbering.draw k op →
      s'.adds fd ≤ s.adds fd + 1 := by
    intro k op eq
    have := congrFun (congrArg Numbering.adds eq) fd
    exact this.trans_le (adds_draw_le s.numbering k op fd)
  cases step_effect some_loop base.sound stepped with
  | idle numbering => exact same numbering
  | draw _ _ _ numbering => exact drawn numbering
  | add _ _ _ numbering => exact drawn numbering
  | addNil _ _ _ numbering => exact drawn numbering
  | store _ _ numbering => exact same numbering
  | storeNil _ numbering => exact same numbering
  | send _ _ numbering => exact same numbering
  | deliver _ _ numbering => exact same numbering
  | missing => exact Nat.le_succ _
  | drop _ _ _ _ numbering => exact same numbering
  | half _ _ _ _ _ _ _ _ numbering => exact same numbering

/-- Callbacks are invoked with the completions of their own requests, each at most
once, and no identifier is reserved user data. -/
structure Matching (s : NetReactor) : Prop where
  own : ∀ k cqe, (k, cqe) ∈ s.invoked → ∃ t, (s.calls k).ticket = some t ∧
    cqe.userData = t.id ∧ ∀ id, (s.calls k).HasReturned id → cqe.userData = id
  once : (s.invoked.map Prod.fst).Nodup
  unreserved : ∀ k t, (s.calls k).ticket = some t →
    t.id ≠ timeoutNonce ∧ t.id ≠ cancelNonce

/-- Outstanding requests have different identifiers. -/
def DistinctIDs (n : ℕ) (s : NetReactor) : Prop :=
  ∀ j k t u, s.Outstanding n j t → s.Outstanding n k u → t.id = u.id → j = k

theorem Base.matching (base : Base n s) : s.Matching where
  own := by
    intro k cqe mem
    obtain ⟨t, ticket, same⟩ := base.own (k, cqe) mem
    refine ⟨t, ticket, same, ?_⟩
    rintro id ⟨args, nonce, serial, returned, rfl⟩
    have drawn : (s.calls k).ticket = some (args.op.ticket nonce serial) := by
      rw [returned]
      rfl
    rw [same, Option.some.inj (ticket.symm.trans drawn)]
  once := base.once
  unreserved := fun _ t _ =>
    ⟨fun eq => t.not_reserved (Or.inl eq), fun eq => t.not_reserved (Or.inr eq)⟩

theorem Base.distinctIDs (base : Base n s) (life : s.LifeBound n) : s.DistinctIDs n := by
  intro j k t u hj hk same
  exact base.numbering.eq_of_id_eq hj.1 hk.1 same (life j t hj) (life k u hk)

/-- **A run of fewer than `2 ^ 32` steps uses up no identifiers.** -/
theorem lifeBound_of_short (some_loop : 0 < n) {rings : ℕ → ReactorRing true}
    {p : List (NetReactor × NetEvent)}
    (path : Runs.Path (step n) (start n some_loop rings) p s) (short : p.length < 2 ^ 32) :
    ∀ t ∈ Runs.visited p s, t.LifeBound n := by
  have few : ∀ {q : List (NetReactor × NetEvent)} {t : NetReactor},
      Runs.Path (step n) (start n some_loop rings) q t → ∀ fd, t.adds fd ≤ q.length := by
    intro q t run
    induction run with
    | nil => exact fun fd => le_refl 0
    | snoc before stepped ih =>
        intro fd
        rw [List.length_append, List.length_singleton]
        exact (adds_step some_loop (base_of_path some_loop before) stepped fd).trans
          (Nat.succ_le_succ (ih fd))
  intro t mem k ticket _
  obtain ⟨q, part, run⟩ := path.exists_of_visited mem
  have bound := few run ticket.fd
  have := part.length_le
  omega

/-- **Matching and at-most-once dispatch.**  In every run, with any number of
loops, a callback is invoked only with the completion that carries the identifier
its own `Queue` call returned, and at most once; no identifier is reserved user
data; and as long as fewer than `2 ^ 32` requests are made for a descriptor during
the life of a request, outstanding requests have different identifiers. -/
theorem net_matching_at_most_once (n : ℕ) (some_loop : 0 < n) (rings : ℕ → ReactorRing true)
    {p : List (NetReactor × NetEvent)} {s : NetReactor}
    (path : Runs.Path (step n) (start n some_loop rings) p s) :
    s.Matching ∧ (s.LifeBound n → s.DistinctIDs n) := by
  have base := base_of_path some_loop path
  exact ⟨base.matching, base.distinctIDs⟩

/-- Rings with a single submission slot. -/
def oneSlot : ℕ → ReactorRing true := fun _ => freshRing true 1 ⟨⟨0, rfl⟩, rfl⟩ (by decide)

/-- A request for descriptor 3. -/
def pingArgs (timeout : Int64) : QueueArgs where
  op := { op := nopOp, fd := 3, fd_lt := by decide }
  timeout := timeout
  nilCallback := false

/-- A request from its `Queue` to its callback. -/
def served : List NetEvent :=
  [.queue 0 (pingArgs 0), .draw 0, .store 0, .send 0, .request 0 0 0, .signal 0 (.consumed 1),
    .kernel 0 (.complete 0 5 0), .consumer 0 .wait, .signal 0 (.consumed 0), .consumer 0 .peek,
    .dispatch 0]

/-- One request is served, and two more for the same descriptor are on their way. -/
def servedAndOutstanding : List NetEvent :=
  served ++ [.queue 1 (pingArgs 0), .draw 1, .store 1, .send 1, .queue 2 (pingArgs 0), .draw 2,
    .store 2, .send 2, .request 0 0 0]

/-- The callback of the first request is invoked with its completion, and the two requests
that are outstanding have different identifiers. -/
theorem net_matching_at_most_once_outstanding :
    ∃ p s t u, Runs.Path (step 1) (start 1 Nat.one_pos oneSlot) p s ∧
      s.invoked = [(0, ⟨packRequestID 3 1, 5, 0⟩)] ∧ s.Outstanding 1 1 t ∧ s.Outstanding 1 2 u ∧
      s.Matching ∧ s.DistinctIDs 1 := by
  have path : Runs.Path (step 1) (start 1 Nat.one_pos oneSlot)
      (Runs.record (step 1) (start 1 Nat.one_pos oneSlot) servedAndOutstanding) _ :=
    Runs.path_record servedAndOutstanding rfl
  obtain ⟨matching, distinct⟩ := net_matching_at_most_once 1 Nat.one_pos oneSlot path
  refine ⟨_, _, _, _, path, rfl, ⟨rfl, by decide, nofun⟩, ⟨rfl, by decide, nofun⟩, matching,
    distinct ?_⟩
  exact lifeBound_of_short Nat.one_pos path
    ((Runs.length_record_le servedAndOutstanding _).trans_lt (by decide)) _
    (Runs.mem_visited_last _ _)

/-! ## The registry and the requests on their way -/

/-- Callbacks are not nil, and identifiers are not used up. -/
structure Ordinary (n : ℕ) (s : NetReactor) : Prop where
  life : s.LifeBound n
  callbacks : ∀ k, (s.calls k).isNil = false

/-- Only a `Queue` with a nil callback makes a call that passed one. -/
theorem isNil_setCall {calls : ℕ → NetCall} {k : ℕ} {call : NetCall}
    (given : ∀ j, (calls j).isNil = false) (new : call.isNil = false) (j : ℕ) :
    (Function.update calls k call j).isNil = false := by
  by_cases this : j = k
  · subst this
    rw [Function.update_self]
    exact new
  · rw [Function.update_of_ne this]
    exact given j

theorem callbacks_step (given : ∀ k, (s.calls k).isNil = false) (gives : e.GivesCallback)
    (stepped : s.step n e = some s') : ∀ k, (s'.calls k).isNil = false := by
  obtain ⟨-, transition⟩ := step_transition stepped
  cases transition with
  | queue here => exact isNil_setCall given gives
  | cancel here => exact isNil_setCall given rfl
  | @draw k args here =>
      have nonNil : args.nilCallback = false := by
        have := given k
        rwa [here] at this
      intro j
      unfold drawNonce
      dsimp only
      split
      · refine isNil_setCall given ?_ j
        exact nonNil
      · refine isNil_setCall given ?_ j
        exact nonNil
  | @store k _ _ _ here =>
      refine isNil_setCall given ?_
      have := given k
      rwa [here] at this
  | @send k _ _ _ here =>
      refine isNil_setCall given ?_
      have := given k
      rwa [here] at this
  | sendCancel here => exact isNil_setCall given rfl
  | request lt done =>
      obtain ⟨-, -, -, -, -, -, -, ⟨-, calls, -⟩, -⟩ := requestCase_cases done
      rw [calls]
      exact given
  | signal lt done =>
      obtain ⟨-, -, ⟨-, rfl⟩ | ⟨-, -, -, -, -, -, -, -, rfl⟩⟩ := signalCase_cases done
      · exact given
      · exact given
  | dispatch lt done =>
      obtain ⟨cqe, e, -, ⟨-, rfl⟩ | ⟨-, k, -, rfl⟩ | ⟨-, -, rfl⟩⟩ := dispatchOne_cases done
      · exact given
      · exact given
      · exact given
  | _ => exact given

/-- A row of the ledger that is not over is an outstanding request. -/
theorem outstanding_of_live {k : ℕ} {id : RequestID} (live : (s.row k).Live id) :
    ∃ t, s.Outstanding n k t ∧ t.id = id := by
  obtain ⟨t, ticket, same⟩ := Option.map_eq_some_iff.mp live.1
  refine ⟨t, ⟨ticket, notMem_invoked live.2, fun mem => ?_⟩, same⟩
  have finished : s.ended k = true := by simp [ended, mem]
  rw [show s.ended k = false from live.2] at finished
  cases finished

theorem Base.distinct (base : Base n s) (life : s.LifeBound n) : (s.ledger n).Distinct := by
  intro j k id hj hk
  obtain ⟨t, outstanding, same⟩ := outstanding_of_live hj
  obtain ⟨u, outstanding', same'⟩ := outstanding_of_live hk
  exact base.distinctIDs life j k t u outstanding outstanding' (same.trans same'.symm)

theorem hasReturned_iff {k : ℕ} {id : RequestID} :
    (s.calls k).HasReturned id ↔ (s.row k).launched = true ∧ (s.row k).key = some id := by
  constructor
  · rintro ⟨args, nonce, serial, returned, rfl⟩
    rw [row, returned]
    exact ⟨rfl, rfl⟩
  · rintro ⟨launched, key⟩
    cases here : s.calls k with
    | returned args nonce serial =>
        rw [row, here] at key
        exact ⟨args, nonce, serial, rfl, (Option.some.inj key).symm⟩
    | _ =>
        rw [row, here] at launched
        cases launched

/-- A call that has sent its request has registered its callback. -/
theorem Ordinary.registered (ordinary : s.Ordinary n) {k : ℕ}
    (launched : (s.row k).launched = true) : (s.row k).registered = true := by
  have given := ordinary.callbacks k
  cases here : s.calls k with
  | returned args nonce serial =>
      rw [here] at given
      rw [row, here]
      show (!args.nilCallback) = true
      rw [show args.nilCallback = false from given]
      rfl
  | _ =>
      rw [row, here] at launched
      cases launched

/-- **In a consistent reactor an identifier on its way has its callback
registered.** -/
theorem lookup_of_travels (con : (s.ledger n).Consistent) (ordinary : s.Ordinary n)
    {id : RequestID} (travels : id ∈ (s.ledger n).flight) :
    ∃ k, (s.row k).Live id ∧ (s.row k).launched = true ∧ s.registry.lookup id = some k := by
  obtain ⟨k, live, launched⟩ := con.owned id travels
  exact ⟨k, live, launched, con.complete k id live (ordinary.registered launched)⟩

/-- An identifier taken out of the registry and off its way. -/
theorem pop_eq_land {k : ℕ} {id : RequestID} (found : s.registry.lookup id = some k) :
    { (s.ledger n).pop id with flight := (s.ledger n).flight.erase id } =
      (s.ledger n).land k id := by
  have closed : (s.ledger n).pop id = (s.ledger n).close k id := by
    simp only [Ledger.pop, show (s.ledger n).table id = some k from found]
  rw [closed]
  rfl

/-- **A step that does not split a timed request keeps the ledger consistent**,
and no completion misses its callback. -/
theorem consistent_step (some_loop : 0 < n) (base : Base n s) (con : (s.ledger n).Consistent)
    (ordinary : s.Ordinary n) (ordinary' : s'.Ordinary n) (fits : s.LinkTimeoutFits e)
    (stepped : s.step n e = some s') :
    (s'.ledger n).Consistent ∧ s'.panicked ≠ some .nilCallback := by
  have distinct := base.distinct ordinary.life
  have given : ∀ {k : ℕ}, (s.calls k).isNil = true → False := by
    intro k isNil
    rw [ordinary.callbacks k] at isNil
    cases isNil
  have base' := base.step some_loop stepped
  cases step_effect some_loop base.sound stepped with
  | idle numbering ledger quiet room => exact ⟨ledger ▸ con, quiet.calm⟩
  | draw fresh unregistered grounded numbering ledger quiet =>
      exact ⟨ledger ▸ con.draw unregistered grounded, quiet.calm⟩
  | @add k op _ fresh unregistered grounded numbering ledger quiet =>
      have drawn : (((s.ledger n).draw k (s.numbering.next op).id).row k).registered = false := by
        simp only [Ledger.draw, Function.update_self]
        exact unregistered
      have live : (((s.ledger n).draw k (s.numbering.next op).id).row k).Live
          (s.numbering.next op).id :=
        (base.regular.draw k _).live (by simp only [Ledger.draw, Function.update_self]) drawn
      refine ⟨?_, quiet.calm⟩
      rw [ledger]
      refine (con.draw unregistered grounded).register live drawn ?_
      -- Registering changes neither keys nor ends, so this is about the new state.
      have distinct' := base'.distinct ordinary'.life
      rw [ledger] at distinct'
      intro i j id hi hj
      refine distinct' i j id ?_ ?_
      · exact Ledger.live_register.mpr hi
      · exact Ledger.live_register.mpr hj
  | addNil fresh unregistered isNil => exact (given isNil).elim
  | store key unregistered numbering ledger quiet =>
      refine ⟨?_, quiet.calm⟩
      rw [ledger]
      exact con.register (base.regular.live key unregistered) unregistered distinct
  | storeNil isNil => exact (given isNil).elim
  | @send k id _ key grounded numbering ledger quiet =>
      refine ⟨?_, quiet.calm⟩
      rw [ledger]
      refine con.launch ⟨key, Bool.eq_false_iff.mpr fun ended => ?_⟩ grounded distinct
      have launched := con.launched_of_ended k ended
      rw [show ((s.ledger n).row k).launched = false from grounded] at launched
      cases launched
  | deliver found travels numbering ledger invoked dropped calm =>
      refine ⟨?_, calm⟩
      obtain ⟨k, live, launched, found'⟩ := lookup_of_travels con ordinary travels
      obtain rfl := Option.some.inj (found'.symm.trans found)
      rw [ledger]
      exact con.land live launched distinct
  | missing found travels =>
      obtain ⟨k, -, -, found'⟩ := lookup_of_travels con ordinary travels
      rw [found] at found'
      cases found'
  | drop head request full travels numbering ledger invoked dropped calm =>
      refine ⟨?_, calm⟩
      obtain ⟨k, live, launched, found⟩ := lookup_of_travels con ordinary travels
      rw [ledger, pop_eq_land found]
      exact con.land live launched distinct
  | half lt head request timed last unread => exact absurd unread (fits _ _ head timed last)

end NetReactor

end GoUring.Reactor
