import GoUring.Reactor.EventLedger

/-!
# What the steps of a generic reactor do to its ledger

`Effect` says once what a step can do to the nonces and to the ledger of a generic
reactor, and `step_effect` that every step has one of these effects, unless a `PrepSQE`
panics in it.  What the dispatching of the reactor rests on is derived from `Effect`,
without another look at the step function.
-/

namespace GoUring.Reactor

open Uring Correlation

namespace EventReactor

/-- No callback is invoked, and none is missed. -/
structure Quiet (s s' : EventReactor) : Prop where
  invoked : s'.invoked = s.invoked
  calm : s'.panicked ≠ some .nilCallback

/-- What a step does to the nonces and to the ledger. -/
inductive Effect (n : ℕ) (s s' : EventReactor) : Prop
  | idle (nonces : s'.nonces = s.nonces) (ledger : s'.ledger n = s.ledger n)
      (quiet : Quiet s s') : Effect n s s'
  /-- `nextNonce` passes over a reserved value. -/
  | skip (reserved : cancelNonce ≤ s.currentNonce + 1) (nonces : s'.nonces = s.nonces.skip)
      (ledger : s'.ledger n = s.ledger n) (quiet : Quiet s s') : Effect n s s'
  | draw {k : ℕ} (small : s.currentNonce + 1 < cancelNonce)
      (fresh : s.nonces.drawn k = none) (unregistered : (s.row k).registered = false)
      (grounded : (s.row k).launched = false) (nonces : s'.nonces = s.nonces.draw k)
      (ledger : s'.ledger n = (s.ledger n).draw k (s.currentNonce + 1))
      (quiet : Quiet s s') : Effect n s s'
  /-- The SQE of a call is queued. -/
  | launch {k : ℕ} {nonce : UInt64} (key : (s.row k).key = some nonce)
      (grounded : (s.row k).launched = false) (nonces : s'.nonces = s.nonces)
      (ledger : s'.ledger n = (s.ledger n).launch k nonce) (quiet : Quiet s s') :
      Effect n s s'
  /-- There was no room for the SQE of a call. -/
  | refuse {k : ℕ} (unregistered : (s.row k).registered = false)
      (grounded : (s.row k).launched = false) (nonces : s'.nonces = s.nonces)
      (ledger : s'.ledger n = (s.ledger n).abandon k) (quiet : Quiet s s') : Effect n s s'
  /-- A call stores its callback. -/
  | register {k : ℕ} {nonce : UInt64} (key : (s.row k).key = some nonce)
      (unregistered : (s.row k).registered = false) (nonces : s'.nonces = s.nonces)
      (ledger : s'.ledger n = (s.ledger n).register k nonce) (quiet : Quiet s s') :
      Effect n s s'
  /-- A completion is handed to its callback. -/
  | deliver {k : ℕ} {cqe : CQEvent} (found : (s.ledger n).table cqe.userData = some k)
      (travels : cqe.userData ∈ (s.ledger n).flight) (nonces : s'.nonces = s.nonces)
      (ledger : s'.ledger n = (s.ledger n).land k cqe.userData)
      (invoked : s'.invoked = s.invoked ++ [(k, cqe)])
      (calm : s'.panicked ≠ some .nilCallback) : Effect n s s'
  /-- A completion has no callback. -/
  | missing {l : ℕ} {cqe : CQEvent} {e : Engine} (lt : l < n)
      (taken : (s.loops l).engine.take = some (cqe, e)) (request : ¬ Reserved cqe.userData)
      (found : (s.loops l).callbacks cqe.userData = none) : Effect n s s'

/-- What the nonces and the ledger read of a call. -/
def summary (call : Call) : Option (UInt64 × ℕ) × Option UInt64 × Bool × Bool :=
  (call.drawn, call.key, call.registered, call.launched)

theorem summary_update {calls : ℕ → Call} {k : ℕ} {call : Call}
    (same : summary call = summary (calls k)) (j : ℕ) :
    summary (Function.update calls k call j) = summary (calls j) := by
  by_cases this : j = k
  · subst this
    rw [Function.update_self, same]
  · rw [Function.update_of_ne this]

/-- A call that ends is what it was at its unlock. -/
theorem summary_ending {job : Job} {stage : QueueStage} {call : Call}
    (last : stage.ending job = some call) : summary call = summary (.active job stage) := by
  cases stage with
  | failed | registered | panicking =>
      cases last
      rfl
  | _ => cases last

/-- What goes for the calls goes for those of each loop. -/
theorem Prepares.view {n : ℕ} {s : EventReactor} {e : ReactorEvent} (prepares : s.Prepares n e)
    (l : ℕ) : (s.view n l).Prepares e := by
  cases e with
  | call k spec =>
      intro job here
      obtain ⟨active, rfl⟩ := active_eq_some.mp here
      exact prepares job (by rw [active]; rfl)
  | _ => trivial

section Steps

variable {n l k : ℕ} {s s' : EventReactor} {e : ReactorEvent} {loop : EventLoop} {job : Job}

/-- A step that leaves alone all that the nonces and the ledger read. -/
theorem Effect.of_same (calls : ∀ j, summary (s'.calls j) = summary (s.calls j))
    (current : s'.currentNonce = s.currentNonce) (draws : s'.draws = s.draws)
    (table : (s'.ledger n).table = (s.ledger n).table)
    (flight : (s'.ledger n).flight = (s.ledger n).flight) (quiet : Quiet s s') :
    Effect n s s' := by
  have drawn : ∀ j, (s'.calls j).drawn = (s.calls j).drawn :=
    fun j => congrArg Prod.fst (calls j)
  have key : ∀ j, (s'.calls j).key = (s.calls j).key :=
    fun j => congrArg (fun x => x.2.1) (calls j)
  have registered : ∀ j, (s'.calls j).registered = (s.calls j).registered :=
    fun j => congrArg (fun x => x.2.2.1) (calls j)
  have launched : ∀ j, (s'.calls j).launched = (s.calls j).launched :=
    fun j => congrArg (fun x => x.2.2.2) (calls j)
  have rows : s'.row = s.row := by
    funext j
    simp only [row, ended, key, registered, launched, quiet.invoked]
  exact .idle (Nonces.ext current draws (funext drawn)) (Ledger.ext rows table flight) quiet

/-- A step inside one loop. -/
theorem Effect.of_loop (loops : s'.loops = Function.update s.loops l loop)
    (callbacks : loop.callbacks = (s.loops l).callbacks)
    (carried : requestIDs loop.engine.carried = requestIDs (s.loops l).engine.carried)
    (calls : s'.calls = s.calls) (current : s'.currentNonce = s.currentNonce)
    (draws : s'.draws = s.draws) (quiet : Quiet s s') : Effect n s s' :=
  .of_same (fun j => by rw [calls]) current draws (table_same loops callbacks)
    (flight_same loops carried) quiet

/-- A step of a call that changes nothing about its request. -/
theorem Effect.of_call {call : Call} (calls : s'.calls = Function.update s.calls k call)
    (same : summary call = summary (s.calls k))
    (loops : s'.loops = Function.update s.loops l loop)
    (callbacks : loop.callbacks = (s.loops l).callbacks)
    (carried : requestIDs loop.engine.carried = requestIDs (s.loops l).engine.carried)
    (current : s'.currentNonce = s.currentNonce) (draws : s'.draws = s.draws)
    (quiet : Quiet s s') : Effect n s s' :=
  .of_same (fun j => by rw [calls]; exact summary_update same j) current draws
    (table_same loops callbacks) (flight_same loops carried) quiet

/-- The row of a call before its SQE is queued, or after it was refused. -/
theorem row_of_call {call : Call} (here : s.calls k = call) :
    s.row k =
      { key := call.key
        registered := call.registered
        launched := call.launched
        ended := s.ended k } := by
  rw [row, here]

theorem effect_draw {op : Operation} {timeout : Int64} (here : s.calls k = .drawing op timeout)
    (small : s.currentNonce + 1 < cancelNonce) (calm : s.panicked ≠ some .nilCallback) :
    Effect n s
      { s.setCall k (.active (.queue op timeout (s.currentNonce + 1) small (s.draws + 1))
          .want) with
        currentNonce := s.currentNonce + 1
        draws := s.draws + 1 } := by
  have blank := row_of_call here
  refine .draw (k := k) small ?_ ?_ ?_ ?_ ?_ ⟨rfl, calm⟩
  · show (s.calls k).drawn = none
    rw [here]
    rfl
  · rw [blank]
    rfl
  · rw [blank]
    rfl
  · refine Nonces.ext rfl rfl ?_
    funext j
    show (Function.update s.calls k _ j).drawn = Function.update s.nonces.drawn k _ j
    by_cases this : j = k
    · subst this
      rw [Function.update_self, Function.update_self]
      rfl
    · rw [Function.update_of_ne this, Function.update_of_ne this]
      rfl
  · refine Ledger.ext ?_ rfl rfl
    refine Eq.trans (row_setCall (s := s) rfl rfl) ?_
    simp only [ledger, Ledger.draw, blank]
    rfl

/-- The `QueueSQE` of the operation: a request is launched or refused, a cancel is
neither. -/
theorem effect_queueOp {err : Option RingError} {e : Engine} (some_loop : 0 < n)
    (here : s.calls k = .active job .flagged)
    (done : (s.loops (job.loop n)).engine.queueSQE job.req.op (opFlags job.req)
      job.req.userData = some (err, e))
    (calm : s.panicked ≠ some .nilCallback) :
    Effect n s
      ((s.setLoop (job.loop n) ((s.loops (job.loop n)).withEngine e)).setCall k
        (.active job (afterQueueSQE job.req err))) := by
  have before := row_of_call here
  rcases Engine.queueSQE_spec done with
    ⟨-, rfl, rfl⟩ | ⟨-, rfl, sqe, sq, rfl, ud, pending, -, -⟩
  · cases job with
    | queue op timeout nonce small draw =>
        refine .refuse (k := k) ?_ ?_ (nonces_setCall rfl (by rw [here]; rfl) rfl rfl) ?_
          ⟨rfl, calm⟩
        · rw [before]
          rfl
        · rw [before]
          rfl
        · refine Ledger.ext ?_ (table_same rfl rfl) (flight_same rfl rfl)
          refine Eq.trans (row_setCall (s := s) rfl rfl) ?_
          simp only [ledger, Ledger.abandon, before]
          rfl
    | cancel target =>
        refine .of_call rfl ?_ rfl rfl rfl rfl rfl ⟨rfl, calm⟩
        rw [here]
        rfl
  · have carried := Engine.carried_withSQ_append pending
    rw [ud] at carried
    cases job with
    | queue op timeout nonce small draw =>
        refine @Effect.launch n s _ k nonce ?_ ?_
          (nonces_setCall rfl (by rw [here]; rfl) rfl rfl) ?_ ⟨rfl, calm⟩
        · rw [before]
          rfl
        · rw [before]
          rfl
        · refine Ledger.ext ?_ (table_same rfl rfl) ?_
          · refine Eq.trans (row_setCall (s := s) rfl rfl) ?_
            simp only [ledger, Ledger.launch, before]
            unfold afterQueueSQE
            dsimp only
            split
            · rfl
            · rfl
          · refine flight_cons (Nat.mod_lt _ some_loop) rfl ?_
            show requestIDs (Engine.withSQ _ sq).carried = _
            rw [carried]
            exact requestIDs_cons (Job.not_reserved small) _
    | cancel target =>
        refine .of_call rfl ?_ rfl rfl ?_ rfl rfl ⟨rfl, calm⟩
        · rw [here]
          rfl
        · show requestIDs (Engine.withSQ _ sq).carried = _
          rw [carried]
          exact requestIDs_cons_of_reserved (Or.inr rfl) _

/-- The `QueueSQE` of the link timeout adds reserved user data, or nothing. -/
theorem requestIDs_link {e e' : Engine} {spec : UInt64} {err : Option RingError}
    (done : e.queueSQE (linkTimeoutOp spec) 0 timeoutNonce = some (err, e')) :
    requestIDs e'.carried = requestIDs e.carried := by
  rcases Engine.queueSQE_spec done with ⟨-, -, rfl⟩ | ⟨-, -, sqe, sq, rfl, ud, pending, -, -⟩
  · rfl
  · rw [Engine.carried_withSQ_append pending, ud]
    exact requestIDs_cons_of_reserved (Or.inl rfl) _

/-- A request stores its callback; a cancel stores nil where nothing is. -/
theorem effect_register (routed : (s.view n (job.loop n)).Routed n (job.loop n))
    (here : s.calls k = .active job .queued) (calm : s.panicked ≠ some .nilCallback) :
    Effect n s
      ((s.setLoop (job.loop n)
        { s.loops (job.loop n) with
          callbacks := Function.update (s.loops (job.loop n)).callbacks job.req.userData
            (job.cb k) }).setCall k (.active job .registered)) := by
  have before := row_of_call here
  cases job with
  | queue op timeout nonce small draw =>
      refine @Effect.register n s _ k nonce ?_ ?_
        (nonces_setCall rfl (by rw [here]; rfl) rfl rfl) ?_ ⟨rfl, calm⟩
      · rw [before]
        rfl
      · rw [before]
        rfl
      · refine Ledger.ext ?_ (table_update rfl rfl rfl) (flight_same rfl rfl)
        refine Eq.trans (row_setCall (s := s) rfl rfl) ?_
        simp only [ledger, Ledger.register, before]
        rfl
  | cancel target =>
      refine .of_call rfl ?_ rfl ?_ rfl rfl rfl ⟨rfl, calm⟩
      · rw [here]
        rfl
      · -- Nothing is stored under a reserved nonce.
        refine Function.update_eq_self_iff.mpr ?_
        cases found : (s.loops (Job.loop n (.cancel target))).callbacks cancelNonce with
        | none => exact found.symm
        | some j => exact absurd (Or.inr rfl) (routed.callbacks cancelNonce j found).2

/-- A completion is handed to its callback. -/
theorem effect_deliver {cqe : CQEvent} {e : Engine} (routed : (s.view n l).Routed n l)
    (lt : l < n) (taken : (s.loops l).engine.take = some (cqe, e))
    (request : ¬ Reserved cqe.userData)
    (found : (s.loops l).callbacks cqe.userData = some k)
    (loops : s'.loops = Function.update s.loops l
      { (s.loops l).withEngine e with
        callbacks := Function.update (s.loops l).callbacks cqe.userData none })
    (calls : s'.calls = s.calls) (nonces : s'.nonces = s.nonces)
    (invoked : s'.invoked = s.invoked ++ [(k, cqe)])
    (calm : s'.panicked ≠ some .nilCallback) : Effect n s s' := by
  have home : loopForNonce n cqe.userData = l := (routed.callbacks cqe.userData k found).1
  have less : requestIDs (s.loops l).engine.carried = cqe.userData ::ₘ requestIDs e.carried :=
    (Engine.take_spec taken).1 ▸ requestIDs_cons request _
  obtain ⟨travels, flight⟩ := flight_erase lt loops less
  refine .deliver ?_ travels nonces
    (Ledger.ext (row_invoked calls invoked) (table_update home loops rfl) flight) invoked calm
  show (s.loops (loopForNonce n cqe.userData)).callbacks cqe.userData = some k
  rw [home]
  exact found

/-- **Every step has one of the effects**, but for a panic. -/
theorem step_effect (routed : ∀ l, (s.view n l).Routed n l) (prepares : s.Prepares n e)
    (stepped : s.step n e = some s') : Effect n s s' := by
  obtain ⟨alive, transition⟩ := step_transition stepped
  have calm := ne_nilCallback_of_alive alive
  cases transition with
  | queue here =>
      refine .of_same (summary_update ?_) rfl rfl rfl rfl ⟨rfl, calm⟩
      rw [here]
      rfl
  | cancel here =>
      refine .of_same (summary_update ?_) rfl rfl rfl rfl ⟨rfl, calm⟩
      rw [here]
      rfl
  | skip here reserved => exact .skip reserved rfl rfl ⟨rfl, calm⟩
  | draw here small => exact effect_draw here small calm
  | noLoop => exact .idle rfl rfl ⟨rfl, nofun⟩
  | lock _ here free =>
      refine .of_call rfl ?_ rfl rfl rfl rfl rfl ⟨rfl, calm⟩
      rw [here]
      rfl
  | flag _ here =>
      refine .of_call rfl ?_ rfl rfl rfl rfl rfl ⟨rfl, calm⟩
      rw [here]
      rfl
  | queueOp some_loop here done => exact effect_queueOp some_loop here done calm
  | link _ here done =>
      refine .of_call rfl ?_ rfl rfl (requestIDs_link done) rfl rfl ⟨rfl, calm⟩
      rw [here]
      rfl
  | register _ here => exact effect_register (routed _) here calm
  | abandon _ here panics => exact (Prepares.not_panics prepares here panics).elim
  | leave _ here last =>
      refine .of_call rfl ?_ rfl rfl rfl rfl rfl ⟨rfl, calm⟩
      rw [here]
      exact summary_ending last
  | signalClosed => exact .idle rfl rfl ⟨rfl, channel_ne_nilCallback (some _)⟩
  | signal lt here publisher =>
      refine .of_loop rfl rfl (congrArg requestIDs (Engine.carried_goto ?_ _ rfl)) rfl rfl rfl
        ⟨rfl, calm⟩
      rw [here]
      rfl
  | swap => exact .of_loop rfl rfl rfl rfl rfl rfl ⟨rfl, calm⟩
  | noSwap => exact .of_loop rfl rfl rfl rfl rfl rfl ⟨rfl, calm⟩
  | lockSubmit => exact .of_loop rfl rfl rfl rfl rfl rfl ⟨rfl, calm⟩
  | submit lt here done =>
      obtain ⟨-, -, -, -, -, -, -, carried⟩ := Engine.submit_spec done
      exact .of_loop rfl rfl (congrArg requestIDs carried) rfl rfl rfl ⟨rfl, calm⟩
  | unlockSubmit => exact .of_loop rfl rfl rfl rfl rfl rfl ⟨rfl, calm⟩
  | consumer lt done =>
      exact .of_loop rfl rfl (congrArg requestIDs (Engine.consumerStep_spec done).1) rfl rfl rfl
        ⟨rfl, calm⟩
  | @passOver l cqe e lt taken reserved =>
      refine .of_loop rfl rfl ?_ rfl rfl rfl ⟨rfl, calm⟩
      rw [(Engine.take_spec taken).1, requestIDs_cons_of_reserved reserved]
      rfl
  | deliver lt taken request found =>
      exact effect_deliver (routed _) lt taken request found rfl rfl rfl rfl calm
  | missing lt taken request found => exact .missing lt taken request found
  | kernel lt done =>
      exact .of_loop rfl rfl (congrArg requestIDs (Engine.kernelStep_spec done).1) rfl rfl rfl
        ⟨rfl, calm⟩
  | @stop event o done =>
      exact .of_loop rfl rfl (congrArg requestIDs (stopStep_frame done).1) rfl rfl rfl
        ⟨rfl, channel_ne_nilCallback o.panic⟩

end Steps

end EventReactor

end GoUring.Reactor
