import GoUring.Reactor.EventEffect
import GoUring.Reactor.EventSubmit

/-!
# Dispatching in a generic reactor

What a caller of `Queue` can rely on: a completion always finds its callback, a
callback is invoked with the completion of its own request and at most once, and
it stays registered until then.

The callback is registered after the SQE was written, under another lock than the
one the consumer takes, so a completion could come first.  It cannot, and the
reason is in the locks: the call still holds `queueSQELock` when it registers, the
SQE becomes visible to the kernel only in a `Submit`, and that is made under the
same lock.  In terms of the ledger, the key of a call that has launched and not
registered travels exactly once, and where it travels is behind the tail of its
submission queue (`LoopView.Hidden`); so it is not what the consumer takes.

All of this needs nonces to tell requests apart: fewer than `2 ^ 64 - 2` of them
are drawn during the life of a request.  And it needs that what is queued is a request: a
`PrepSQE` that panics leaves a slot behind that is submitted with the user data of an
earlier one, and its completion finds no callback (`reactor_abandoned_slot_calls_nil`).
-/

namespace GoUring.Reactor

open Uring Correlation

namespace EventReactor

variable {n : ℕ} {s s' : EventReactor} {e : ReactorEvent}

/-- **What carries the argument.** -/
structure Sane (n : ℕ) (s : EventReactor) : Prop where
  nonces : s.nonces.WF
  locked : ∀ l, (s.view n l).Locked
  routed : ∀ l, (s.view n l).Routed n l
  hidden : ∀ l, (s.view n l).Hidden
  regular : (s.ledger n).Regular
  con : (s.ledger n).Consistent
  /-- A callback is invoked with the completion of its own request. -/
  own : ∀ x ∈ s.invoked, ∃ draw, s.nonces.drawn x.1 = some (x.2.userData, draw)
  /-- No callback is invoked twice. -/
  once : (s.invoked.map Prod.fst).Nodup
  calm : s.panicked ≠ some .nilCallback

/-! ## The start -/

/-- Nothing travels at the start. -/
theorem flight_start (n : ℕ) (rings : ℕ → ReactorRing false) :
    ((start rings).ledger n).flight = 0 := by
  have empty : ∀ l ∈ Finset.range n, ((start rings).loops l).engine.carried = 0 :=
    fun l _ => Engine.carried_start (rings l)
  show requestIDs (∑ l ∈ Finset.range n, ((start rings).loops l).engine.carried) = 0
  rw [Finset.sum_eq_zero empty]
  rfl

theorem sane_start (n : ℕ) (rings : ℕ → ReactorRing false) : Sane n (start rings) where
  nonces :=
    { current := fun _ => rfl
      reserved := fun large => absurd large (Nat.not_le.mpr (by decide : 0 < nonceCount))
      nonce := fun _ _ _ drawn => by cases drawn
      draw_le := fun _ _ _ drawn => by cases drawn
      draw_inj := fun _ _ _ _ _ drawn => by cases drawn }
  locked := locked_start rings n
  routed := fun l =>
    { callbacks := fun _ _ found => by cases found
      carried := fun ud mem => by
        have nothing : ((start rings).view n l).loop.engine.carried = 0 :=
          Engine.carried_start (rings l)
        rw [nothing] at mem
        cases mem }
  hidden := fun l k job stage nonce here => by cases here
  regular := fun k ended => by cases ended
  con :=
    { sound := fun nonce k found => by cases found
      launched_of_ended := fun k ended => by cases ended
      complete := fun k nonce _ registered => by cases registered
      owned := fun nonce travels => by
        rw [flight_start] at travels
        cases travels
      once := fun k nonce _ launched => by cases launched }
  own := fun x mem => by cases mem
  once := List.nodup_nil
  calm := ne_nilCallback_of_alive rfl

/-! ## Completions find their callbacks -/

theorem drawn_of_key {call : Call} {nonce : UInt64} (key : call.key = some nonce) :
    (∃ draw, call.drawn = some (nonce, draw)) ∧ call.refused = false := by
  rw [Call.key, Option.ite_none_left_eq_some] at key
  obtain ⟨accepted, drawn⟩ := key
  obtain ⟨⟨x, draw⟩, found, rfl⟩ := Option.map_eq_some_iff.mp drawn
  exact ⟨⟨draw, found⟩, Bool.eq_false_iff.mpr accepted⟩

theorem notMem_invoked {k : ℕ} (running : s.ended k = false) : k ∉ s.invoked.map Prod.fst :=
  of_decide_eq_false running

/-- **Requests that are not over have different nonces.** -/
theorem distinct_of_life (nonces : s.nonces.WF) (life : s.LifeBound) :
    (s.ledger n).Distinct := by
  intro j k nonce hj hk
  obtain ⟨⟨draw, drawn⟩, accepted⟩ := drawn_of_key hj.1
  obtain ⟨⟨draw', drawn'⟩, accepted'⟩ := drawn_of_key hk.1
  refine nonces.eq_of_nonce_eq drawn drawn' ?_ ?_
  · exact life j nonce draw drawn accepted (notMem_invoked hj.2)
  · exact life k nonce draw' drawn' accepted' (notMem_invoked hk.2)

/-- A call that has launched its key and not registered it is between its two
steps. -/
theorem stage_of_launched {k : ℕ} {nonce : UInt64} (key : (s.row k).key = some nonce)
    (launched : (s.row k).launched = true) (unregistered : (s.row k).registered = false) :
    ∃ job stage, s.calls k = .active job stage ∧ stage.unregistered = true ∧
      job.nonce = some nonce ∧ job.loop n = loopForNonce n nonce := by
  have shape : ∀ {job : Job}, job.drawn.map Prod.fst = some nonce →
      job.nonce = some nonce ∧ job.loop n = loopForNonce n nonce := by
    intro job drawn
    cases job with
    | queue op timeout nonce' small draw =>
        cases drawn
        exact ⟨rfl, rfl⟩
    | cancel target => cases drawn
  cases here : s.calls k with
  | active job stage =>
      rw [row, here] at key launched unregistered
      cases stage with
      | linking => exact ⟨job, .linking, rfl, rfl, shape key⟩
      | queued => exact ⟨job, .queued, rfl, rfl, shape key⟩
      | registered =>
          rw [show Call.registered (.active job .registered) = true from launched] at unregistered
          cases unregistered
      | _ => cases launched
  | returned job err =>
      rw [row, here] at launched unregistered
      cases err with
      | none =>
          rw [show Call.registered (.returned job none) = true from launched] at unregistered
          cases unregistered
      | some err => cases launched
  | _ =>
      rw [row, here] at launched
      cases launched

/-- **A completion that the consumer takes has its callback registered.** -/
theorem Sane.found (sane : Sane n s) {l : ℕ} {cqe : CQEvent} {e : Engine} (lt : l < n)
    (taken : (s.loops l).engine.take = some (cqe, e)) (request : ¬ Reserved cqe.userData) :
    ∃ k, (s.row k).Live cqe.userData ∧ (s.row k).launched = true ∧
      (s.loops l).callbacks cqe.userData = some k := by
  obtain ⟨carried, sq, -, -, -⟩ := Engine.take_spec taken
  have here : cqe.userData ∈ (s.loops l).engine.carried := by
    rw [carried]
    exact Multiset.mem_cons_self _ _
  have home : loopForNonce n cqe.userData = l := (sane.routed l).carried _ here request
  obtain ⟨k, live, launched⟩ := sane.con.owned _ (mem_inFlight lt here request)
  refine ⟨k, live, launched, ?_⟩
  cases registered : (s.row k).registered with
  | true =>
      have found : (s.loops (loopForNonce n cqe.userData)).callbacks cqe.userData = some k :=
        sane.con.complete k _ live registered
      rwa [home] at found
  | false =>
      -- The nonce is still behind the tail of the submission queue, and it is here a second time.
      obtain ⟨job, stage, active, between, nonce, loop⟩ :=
        stage_of_launched (n := n) live.1 launched registered
      obtain ⟨sqe, behind, same⟩ := sane.hidden l k job stage _
        (active_eq_some.mpr ⟨active, loop.trans home⟩) between nonce
      have again : cqe.userData ∈ e.carried := by
        have queued : sqe.userData ∈ (s.loops l).engine.inSQ :=
          Engine.mem_inSQ_of_unflushed behind
        have kept : e.inSQ = (s.loops l).engine.inSQ := by rw [Engine.inSQ, sq]; rfl
        rw [← same, Engine.carried, kept]
        exact Multiset.mem_add.mpr (Or.inl (Multiset.mem_add.mpr (Or.inl queued)))
      have twice : 2 ≤ (requestIDs (s.loops l).engine.carried).count cqe.userData := by
        rw [carried, requestIDs_cons request, Multiset.count_cons_self]
        exact Nat.succ_le_succ
          (Multiset.one_le_count_iff_mem.mpr (mem_requestIDs.mpr ⟨again, request⟩))
      have total := Multiset.count_le_of_le cqe.userData
        (requestIDs_le_inFlight lt fun l => (s.loops l).engine.carried)
      have once : (inFlight n fun l => (s.loops l).engine.carried).count cqe.userData = 1 :=
        sane.con.once k _ live launched
      omega

/-! ## Every step -/

/-- What holds of the single loops is kept by every step. -/
theorem Sane.of_step (sane : Sane n s) (prepares : s.Prepares n e)
    (stepped : s.step n e = some s') (nonces : s'.nonces.WF) (regular : (s'.ledger n).Regular)
    (con : (s'.ledger n).Consistent)
    (own : ∀ x ∈ s'.invoked, ∃ draw, s'.nonces.drawn x.1 = some (x.2.userData, draw))
    (once : (s'.invoked.map Prod.fst).Nodup) (calm : s'.panicked ≠ some .nilCallback) :
    Sane n s' where
  nonces := nonces
  locked := views_step sane.locked (fun l _ move => (sane.locked l).move move) stepped
  routed := views_step sane.routed
    (fun l _ move => (sane.routed l).move (prepares.view l) move) stepped
  hidden := views_step sane.hidden
    (fun l _ move => LoopView.Hidden.move (sane.hidden l) (sane.locked l) move) stepped
  regular := regular
  con := con
  own := own
  once := once
  calm := calm

/-- A step that invokes no callback. -/
theorem Sane.of_quiet (sane : Sane n s) (prepares : s.Prepares n e)
    (stepped : s.step n e = some s') (nonces : s'.nonces.WF) (regular : (s'.ledger n).Regular)
    (con : (s'.ledger n).Consistent) (quiet : Quiet s s')
    (kept : ∀ k x, s.nonces.drawn k = some x → s'.nonces.drawn k = some x) : Sane n s' := by
  refine sane.of_step prepares stepped nonces regular con ?_ ?_ quiet.calm
  · intro x mem
    rw [quiet.invoked] at mem
    obtain ⟨draw, drawn⟩ := sane.own x mem
    exact ⟨draw, kept x.1 _ drawn⟩
  · rw [quiet.invoked]
    exact sane.once

/-- **Every step keeps what carries the argument**, as long as nonces tell requests
apart and no `PrepSQE` panics. -/
theorem Sane.step (sane : Sane n s) (life : s.LifeBound) (prepares : s.Prepares n e)
    (stepped : s.step n e = some s') : Sane n s' := by
  have distinct : (s.ledger n).Distinct := distinct_of_life sane.nonces life
  have same : s'.nonces = s.nonces → ∀ k x, s.nonces.drawn k = some x →
      s'.nonces.drawn k = some x := fun eq k x drawn => eq ▸ drawn
  have wf : s'.nonces = s.nonces → s'.nonces.WF := fun eq => eq ▸ sane.nonces
  cases step_effect sane.routed prepares stepped with
  | idle nonces ledger quiet =>
      exact sane.of_quiet prepares stepped (wf nonces) (ledger ▸ sane.regular)
        (ledger ▸ sane.con) quiet (same nonces)
  | skip reserved nonces ledger quiet =>
      refine sane.of_quiet prepares stepped ?_ (ledger ▸ sane.regular) (ledger ▸ sane.con) quiet ?_
      · rw [nonces]
        exact sane.nonces.skip reserved
      · rw [nonces]
        exact fun _ _ drawn => drawn
  | @draw k small fresh unregistered grounded nonces ledger quiet =>
      refine sane.of_quiet prepares stepped ?_ ?_ ?_ quiet ?_
      · rw [nonces]
        exact sane.nonces.draw small k
      · rw [ledger]
        exact sane.regular.draw k _
      · rw [ledger]
        exact sane.con.draw unregistered grounded
      · intro j x drawn
        have other : j ≠ k := by
          rintro rfl
          rw [fresh] at drawn
          cases drawn
        rw [nonces]
        exact (Function.update_of_ne other _ _).trans drawn
  | @launch k nonce key grounded nonces ledger quiet =>
      refine sane.of_quiet prepares stepped (wf nonces) ?_ ?_ quiet (same nonces)
      · rw [ledger]
        exact sane.regular.launch k nonce
      · rw [ledger]
        refine sane.con.launch ⟨key, Bool.eq_false_iff.mpr fun ended => ?_⟩ grounded distinct
        have launched := sane.con.launched_of_ended k ended
        rw [show ((s.ledger n).row k).launched = false from grounded] at launched
        cases launched
  | @refuse k unregistered grounded nonces ledger quiet =>
      refine sane.of_quiet prepares stepped (wf nonces) ?_ ?_ quiet (same nonces)
      · rw [ledger]
        exact sane.regular.abandon k
      · rw [ledger]
        exact sane.con.abandon unregistered grounded
  | @register k nonce key unregistered nonces ledger quiet =>
      refine sane.of_quiet prepares stepped (wf nonces) ?_ ?_ quiet (same nonces)
      · rw [ledger]
        exact sane.regular.register k nonce
      · rw [ledger]
        exact sane.con.register (sane.regular.live key unregistered) unregistered distinct
  | @deliver k cqe found travels nonces ledger invoked calm =>
      obtain ⟨live, registered⟩ := sane.con.sound cqe.userData k found
      have launched : ((s.ledger n).row k).launched = true := by
        obtain ⟨j, live', launched⟩ := sane.con.owned cqe.userData travels
        rwa [distinct j k _ live' live] at launched
      refine sane.of_step prepares stepped (wf nonces) ?_ ?_ ?_ ?_ calm
      · rw [ledger]
        exact sane.regular.close registered cqe.userData
      · rw [ledger]
        exact sane.con.land live launched distinct
      · intro x mem
        rw [invoked] at mem
        rcases List.mem_append.mp mem with old | new
        · obtain ⟨draw, drawn⟩ := sane.own x old
          exact ⟨draw, same nonces x.1 _ drawn⟩
        · obtain rfl := List.mem_singleton.mp new
          obtain ⟨⟨draw, drawn⟩, -⟩ := drawn_of_key live.1
          exact ⟨draw, same nonces k _ drawn⟩
      · rw [invoked, List.map_append]
        refine List.nodup_append.mpr ⟨sane.once, List.nodup_singleton _, ?_⟩
        rintro j old _ new rfl
        obtain rfl := List.mem_singleton.mp new
        exact notMem_invoked live.2 old
  | missing lt taken request found =>
      obtain ⟨k, -, -, found'⟩ := sane.found lt taken request
      rw [found] at found'
      cases found'

/-- Registering a callback takes no other one out: nothing is stored under the nonce
of a request that is not over. -/
theorem Sane.register_fresh (sane : Sane n s) (life : s.LifeBound) {j k : ℕ} {job : Job}
    (here : s.calls k = .active job .queued)
    (found : (s.loops (job.loop n)).callbacks job.req.userData = some j) : False := by
  obtain ⟨home, request⟩ := (sane.routed _).callbacks _ _ found
  cases job with
  | queue op timeout nonce small draw =>
      obtain ⟨live, registered⟩ := sane.con.sound nonce j found
      have mine := row_of_call here
      have unregistered : (s.row k).registered = false := by rw [mine]; rfl
      have key : (s.row k).key = some nonce := by rw [mine]; rfl
      have same : j = k := distinct_of_life (n := n) sane.nonces life j k nonce live
        (sane.regular.live key unregistered)
      subst same
      rw [show (s.row j).registered = true from registered] at unregistered
      cases unregistered
  | cancel target => exact request (Or.inr rfl)

/-- **A callback leaves `callbacks` only in the step that invokes it.** -/
def LeavesByDispatch (n : ℕ) (s : EventReactor) : Prop :=
  ∀ e s', s.step n e = some s' → ∀ l nonce k, (s.loops l).callbacks nonce = some k →
    (s'.loops l).callbacks nonce = some k ∨
      ∃ cqe, e = .dispatch l ∧ cqe.userData = nonce ∧ s'.invoked = s.invoked ++ [(k, cqe)]

theorem Sane.leavesByDispatch (sane : Sane n s) (life : s.LifeBound) :
    s.LeavesByDispatch n := by
  intro e s' stepped l nonce k found
  have kept : ∀ {l' : ℕ} {loop : EventLoop}, s'.loops = Function.update s.loops l' loop →
      loop.callbacks = (s.loops l').callbacks → (s'.loops l).callbacks nonce = some k := by
    intro l' loop loops callbacks
    rw [loops]
    by_cases this : l = l'
    · subst this
      rw [Function.update_self, callbacks]
      exact found
    · rw [Function.update_of_ne this]
      exact found
  obtain ⟨-, transition⟩ := step_transition stepped
  cases transition with
  | @register k' spec job some_loop here =>
      refine Or.inl ?_
      show (Function.update s.loops (job.loop n) _ l).callbacks nonce = some k
      by_cases this : l = job.loop n
      · subst this
        rw [Function.update_self]
        have other : nonce ≠ job.req.userData := by
          rintro rfl
          exact sane.register_fresh life here found
        exact (Function.update_of_ne other _ _).trans found
      · rw [Function.update_of_ne this]
        exact found
  | @deliver l' k' cqe e lt taken request found' =>
      by_cases this : l = l' ∧ nonce = cqe.userData
      · obtain ⟨rfl, rfl⟩ := this
        obtain rfl := Option.some.inj (found.symm.trans found')
        exact Or.inr ⟨cqe, rfl, rfl, rfl⟩
      · refine Or.inl ?_
        show (Function.update s.loops l' _ l).callbacks nonce = some k
        by_cases home : l = l'
        · subst home
          rw [Function.update_self]
          have other : nonce ≠ cqe.userData := fun same => this ⟨rfl, same⟩
          exact (Function.update_of_ne other _ _).trans found
        · rw [Function.update_of_ne home]
          exact found
  | _ => first | exact Or.inl found | exact Or.inl (kept rfl rfl)

/-! ## What a caller can rely on -/

/-- **What a caller of `Queue` can rely on.** -/
structure Dispatching (n : ℕ) (s : EventReactor) : Prop where
  /-- A completion the consumer takes has the callback of the call it belongs to. -/
  found : ∀ l < n, ∀ cqe e, (s.loops l).engine.take = some (cqe, e) → ¬ Reserved cqe.userData →
    ∃ k, (s.loops l).callbacks cqe.userData = some k ∧ (s.calls k).nonce = some cqe.userData
  /-- No nil callback was called. -/
  calm : s.panicked ≠ some .nilCallback
  /-- A callback is invoked with the completion of the nonce its `Queue` returns. -/
  own : ∀ k cqe, (k, cqe) ∈ s.invoked → (s.calls k).nonce = some cqe.userData
  once : (s.invoked.map Prod.fst).Nodup
  /-- A call that returned an error has no callback registered. -/
  refused : ∀ k job err, s.calls k = .returned job (some err) →
    ∀ l nonce, (s.loops l).callbacks nonce ≠ some k
  unreserved : ∀ k nonce, (s.calls k).nonce = some nonce →
    nonce ≠ timeoutNonce ∧ nonce ≠ cancelNonce

theorem not_reserved_of_nonce {call : Call} {nonce : UInt64} (given : call.nonce = some nonce) :
    ¬ Reserved nonce := by
  have shape : ∀ {job : Job}, job.drawn.map Prod.fst = some nonce → ¬ Reserved nonce := by
    intro job drawn
    cases job with
    | queue op timeout nonce' small draw =>
        cases drawn
        exact Job.not_reserved small
    | cancel target => cases drawn
  cases call with
  | active job stage => exact shape given
  | returned job err => exact shape given
  | recovered job => exact shape given
  | _ => cases given

theorem Sane.dispatching (sane : Sane n s) : s.Dispatching n where
  found := by
    intro l lt cqe e taken request
    obtain ⟨k, live, -, found⟩ := sane.found lt taken request
    obtain ⟨⟨draw, drawn⟩, -⟩ := drawn_of_key live.1
    exact ⟨k, found, by rw [Call.nonce, drawn]; rfl⟩
  calm := sane.calm
  own := by
    intro k cqe mem
    obtain ⟨draw, drawn⟩ := sane.own (k, cqe) mem
    rw [Call.nonce, show (s.calls k).drawn = _ from drawn]
    rfl
  once := sane.once
  refused := by
    intro k job err here l nonce found
    have home := ((sane.routed l).callbacks nonce k found).1
    have stored : (s.ledger n).table nonce = some k := by
      show (s.loops (loopForNonce n nonce)).callbacks nonce = some k
      rw [home]
      exact found
    obtain ⟨-, registered⟩ := sane.con.sound nonce k stored
    change (s.calls k).registered = true at registered
    rw [here] at registered
    cases registered
  unreserved := by
    intro k nonce given
    have request := not_reserved_of_nonce given
    exact ⟨fun eq => request (Or.inl eq), fun eq => request (Or.inr eq)⟩

/-- **Exactly-once dispatch, as long as no `PrepSQE` panics.**  In every run, with any number
of loops and of concurrent calls, in which fewer than `2 ^ 64 - 2` nonces are drawn during the
life of a request and no call has a free slot for an operation whose `PrepSQE` panics in it:
every completion finds its callback, every callback is invoked with
the completion of its own request and at most once, a refused call has no callback,
no nonce is reserved, and a callback leaves `callbacks` only when it is invoked. -/
theorem reactor_exactly_once_dispatch (n : ℕ) (rings : ℕ → ReactorRing false)
    {p : List (EventReactor × ReactorEvent)} {s : EventReactor}
    (path : Runs.Path (step n) (start rings) p s)
    (life : ∀ t ∈ Runs.visited p s, t.LifeBound) (prepared : ∀ x ∈ p, x.1.Prepares n x.2) :
    s.Dispatching n ∧ s.LeavesByDispatch n := by
  have sane : Sane n s :=
    path.invariant_within (Sane n) LifeBound (Prepares n) (sane_start n rings)
      (fun _ _ _ sane life _ prepares stepped => sane.step life prepares stepped) life prepared
  exact ⟨sane.dispatching, sane.leavesByDispatch (life s (Runs.mem_visited_last p s))⟩

/-- A step draws at most one nonce. -/
theorem draws_step (stepped : s.step n e = some s') : s'.draws ≤ s.draws + 1 := by
  obtain ⟨-, transition⟩ := step_transition stepped
  cases transition with
  | draw => exact le_rfl
  | _ => exact Nat.le_succ _

/-- **A run of fewer than `2 ^ 64 - 2` steps uses up no nonces.** -/
theorem lifeBound_of_short {rings : ℕ → ReactorRing false}
    {p : List (EventReactor × ReactorEvent)} (path : Runs.Path (step n) (start rings) p s)
    (short : p.length < 2 ^ 64 - 2) : ∀ t ∈ Runs.visited p s, t.LifeBound := by
  have few : ∀ {q : List (EventReactor × ReactorEvent)} {t : EventReactor},
      Runs.Path (step n) (start rings) q t → t.draws ≤ q.length := by
    intro q t run
    induction run with
    | nil => exact le_rfl
    | snoc before stepped ih =>
        rw [List.length_append, List.length_singleton]
        exact (draws_step stepped).trans (Nat.succ_le_succ ih)
  intro t mem k nonce draw _ _ _
  obtain ⟨q, part, run⟩ := path.exists_of_visited mem
  have bound := few run
  have := part.length_le
  omega

/-- A request from its `Queue` to its callback. -/
def served : List ReactorEvent :=
  queueNop 0 ++ [.signal 0, .publish 0 (.consumed 1), .publish 0 (.consumed 1),
    .publish 0 (.consumed 1), .publish 0 (.consumed 1), .kernel 0 (.complete 0 5 0),
    .consumer 0 .wait, .consumer 0 .peek, .dispatch 0]

/-- The callback of the one request is invoked with its completion. -/
theorem reactor_exactly_once_dispatch_served :
    ∃ p s, Runs.Path (step 1) (start (twoSlots false)) p s ∧ s.invoked = [(0, ⟨1, 5, 0⟩)] ∧
      s.Dispatching 1 ∧ s.LeavesByDispatch 1 :=
  ⟨_, _, Runs.path_record served rfl, rfl,
    reactor_exactly_once_dispatch 1 (twoSlots false) (Runs.path_record served rfl)
      (lifeBound_of_short (Runs.path_record served rfl)
        ((Runs.length_record_le served _).trans_lt (by decide))) (by decide)⟩

/-- A `Recv` into an empty slice panics in its slot, and its caller recovers; what is in the slot
is submitted and completes. -/
def recoveredRecv : List ReactorEvent :=
  [.queue 0 (recvOp 3 ⟨0, 0⟩ 0) 0, .draw 0, .call 0 0, .call 0 0, .call 0 0, .call 0 0, .signal 0,
    .publish 0 (.consumed 1), .publish 0 (.consumed 1), .publish 0 (.consumed 1),
    .publish 0 (.consumed 1), .kernel 0 (.complete 0 5 0), .consumer 0 .wait, .consumer 0 .peek,
    .dispatch 0]

/-- **A nil callback is called**: the completion is one that no call has asked for. -/
theorem reactor_abandoned_slot_calls_nil :
    ∃ p s, Runs.Path (step 1) (start (twoSlots false)) p s ∧
      (∀ t ∈ Runs.visited p s, t.LifeBound) ∧ (∃ job, s.calls 0 = .recovered job) ∧
      s.panicked = some .nilCallback :=
  ⟨_, _, Runs.path_record recoveredRecv rfl,
    lifeBound_of_short (Runs.path_record recoveredRecv rfl)
      ((Runs.length_record_le recoveredRecv _).trans_lt (by decide)), ⟨_, rfl⟩, rfl⟩

end EventReactor

end GoUring.Reactor
