import GoUring.Reactor.EventMoves
import GoUring.Reactor.NetLoops

/-!
# The stop handshake

`Run` of either reactor stops its loops through channels that serve both as the
request (a send) and as the acknowledgement (a close), while the consumer also waits
for the publisher at `submitSignal`.  `Stoppable` is what the two reactors have in
common as far as the stop goes, and `Stoppable.Safe` what is wanted of a state: no
channel was misused by `Run`, a consumer or a publisher; as long as `Run` has not
returned, `Run` or the loop it is stopping has a step; so has every loop whose
consumer was not told to stop; and after `Run` has returned no consumer and no
publisher works any more.

`stop_handshake` says that every state a reactor can reach is safe.  A publisher of
the generic reactor takes `queueSQELock`, so there a loop gets on only while no call
of `Queue` is inside that lock (`undisturbed`).
-/

namespace GoUring.Reactor

open Uring

/-- What the stop of a reactor is about. -/
structure Stoppable (S E : Type) where
  step : S → E → Option S
  run : S → RunPC
  panicked : S → Option ReactorPanic
  /-- No caller is inside a lock that a loop may need. -/
  undisturbed : S → Prop
  actor : E → Actor
  /-- The event is an operation on a ring, or a callback, of a consumer or a
  publisher. -/
  works : E → Bool

/-- **A state in which the stop cannot go wrong.** -/
structure Stoppable.Safe {S E : Type} (R : Stoppable S E) (n : ℕ) (s : S) : Prop where
  /-- Only a caller that comes too late misuses a channel. -/
  channels : ∀ panic, R.panicked s = some (.channel panic) → panic = .sendOnClosed .reqBuss
  /-- `Run` is not stuck. -/
  run_moves : R.panicked s = none → R.undisturbed s → R.run s ≠ .returned →
    ∃ e, (R.step s e).isSome = true ∧ (R.run s).Concerned (R.actor e)
  /-- No loop is stuck whose consumer was not told to stop. -/
  loop_moves : R.panicked s = none → R.undisturbed s → ∀ l < n,
    (R.run s).progress n ≤ 4 * l + 1 →
    ∃ e, (R.step s e).isSome = true ∧ R.actor e = .loop l
  /-- Nothing happens after `Run` has returned. -/
  silent : R.run s = .returned → ∀ e, R.works e = true → R.step s e = none

/-! ## The generic reactor -/

/-- Who takes the step. -/
def ReactorEvent.actor : ReactorEvent → Actor
  | .signal l => .loop l
  | .publish l _ => .loop l
  | .consumer l _ => .loop l
  | .dispatch l => .loop l
  | .stop event => event.actor
  | _ => .outside

/-- The event is work of a consumer or a publisher. -/
def ReactorEvent.works : ReactorEvent → Bool
  | .signal _ => true
  | .publish _ _ => true
  | .consumer _ _ => true
  | .dispatch _ => true
  | _ => false

namespace EventReactor

variable {n : ℕ} {s s' : EventReactor} {e : ReactorEvent}

/-- No call of `Queue` is inside a `queueSQELock`. -/
def Undisturbed (s : EventReactor) : Prop := ∀ l k, (s.loops l).queueSQELock ≠ some (.caller k)

/-- The generic reactor as something to be stopped. -/
def stoppable (n : ℕ) : Stoppable EventReactor ReactorEvent where
  step := step n
  run := run
  panicked := panicked
  undisturbed := Undisturbed
  actor := ReactorEvent.actor
  works := ReactorEvent.works

/-- What carries the argument about the stop. -/
structure Stopping (n : ℕ) (s : EventReactor) : Prop where
  orderly : Orderly n reactorExits s.run (EventLoop.shell ∘ s.loops)
  /-- The consumers signal once in a round. -/
  once : ∀ l, (s.loops l).engine.pc ≠ .resignal
  inside : ∀ l, (s.view n l).Inside
  channels : ∀ panic, s.panicked ≠ some (.channel panic)

theorem stopping_start (rings : ℕ → ReactorRing false) : (start rings).Stopping n where
  orderly := by
    refine ⟨trivial, fun l _ => ⟨⟨fun stopped => ?_, fun far => ?_⟩, fun far => ?_,
      ⟨fun closed => ?_, fun done => ?_⟩, ⟨fun stopped => ?_, fun far => ?_⟩, fun _ _ => rfl⟩⟩
    · cases stopped
    · simp only [start, RunPC.progress] at far
      omega
    · simp only [start, RunPC.progress] at far
      omega
    · cases closed
    · cases done
    · cases stopped
    · simp only [start, RunPC.progress] at far
      omega
  once := fun l again => by cases again
  inside := inside_start rings n
  channels := fun _ misused => by cases misused

/-- A step inside a loop that neither stops anybody nor closes anything. -/
theorem orderly_setLoop (orderly : Orderly n reactorExits s.run (EventLoop.shell ∘ s.loops))
    {l : ℕ} {loop : EventLoop}
    (consumer : loop.engine.pc = (s.loops l).engine.pc ∨
      (s.loops l).engine.pc.stopped = false ∧ loop.engine.pc.stopped = false)
    (publisher : loop.shell.publisher = (s.loops l).shell.publisher ∨
      (s.loops l).shell.publisher.stopped = false ∧ loop.shell.publisher.stopped = false)
    (closed : loop.shell.closed = (s.loops l).shell.closed) :
    Orderly n reactorExits s.run (EventLoop.shell ∘ Function.update s.loops l loop) := by
  rw [Function.comp_update]
  exact orderly.internal consumer publisher closed

/-- The consumers' places after a step inside a loop. -/
theorem once_setLoop (once : ∀ l, (s.loops l).engine.pc ≠ .resignal) {l : ℕ} {loop : EventLoop}
    (this : loop.engine.pc ≠ .resignal) (l' : ℕ) :
    (Function.update s.loops l loop l').engine.pc ≠ .resignal := by
  by_cases same : l' = l
  · subst same
    rw [Function.update_self]
    exact this
  · rw [Function.update_of_ne same]
    exact once l'

/-- What the stop of the loops and their places come to. -/
def Calm (n : ℕ) (s : EventReactor) : Prop :=
  Orderly n reactorExits s.run (EventLoop.shell ∘ s.loops) ∧
    (∀ l, (s.loops l).engine.pc ≠ .resignal) ∧ ∀ panic, s.panicked ≠ some (.channel panic)

/-- A step of a loop, with nobody stopped and nothing closed. -/
theorem calm_setLoop (inv : s.Stopping n) (alive : s.panicked = none) {l : ℕ}
    {loop : EventLoop} (loops : s'.loops = Function.update s.loops l loop)
    (run : s'.run = s.run) (panicked : s'.panicked = s.panicked)
    (consumer : loop.engine.pc = (s.loops l).engine.pc ∨
      (s.loops l).engine.pc.stopped = false ∧ loop.engine.pc.stopped = false ∧
        loop.engine.pc ≠ .resignal)
    (publisher : loop.shell.publisher = (s.loops l).shell.publisher ∨
      (s.loops l).shell.publisher.stopped = false ∧ loop.shell.publisher.stopped = false)
    (closed : loop.shell.closed = (s.loops l).shell.closed) : s'.Calm n := by
  refine ⟨?_, ?_, ?_⟩
  · rw [loops, run]
    refine orderly_setLoop inv.orderly ?_ publisher closed
    exact consumer.imp_right fun both => ⟨both.1, both.2.1⟩
  · rw [loops]
    refine once_setLoop inv.once ?_
    rcases consumer with same | ⟨-, -, once⟩
    · rw [same]
      exact inv.once l
    · exact once
  · intro panic misused
    rw [panicked, alive] at misused
    cases misused

theorem calm_step (inv : s.Stopping n) (stepped : s.step n e = some s') : s'.Calm n := by
  obtain ⟨alive, transition⟩ := step_transition stepped
  cases transition with
  | queue here => exact ⟨inv.orderly, inv.once, inv.channels⟩
  | cancel here => exact ⟨inv.orderly, inv.once, inv.channels⟩
  | skip here reserved => exact ⟨inv.orderly, inv.once, inv.channels⟩
  | draw here small => exact ⟨inv.orderly, inv.once, inv.channels⟩
  | noLoop none => exact ⟨inv.orderly, inv.once, fun _ misused => by cases misused⟩
  | lock some_loop here free =>
      exact calm_setLoop inv alive rfl rfl rfl (Or.inl rfl) (Or.inl rfl) rfl
  | flag some_loop here =>
      exact calm_setLoop inv alive rfl rfl rfl (Or.inl rfl) (Or.inl rfl) rfl
  | queueOp some_loop here done =>
      exact calm_setLoop inv alive rfl rfl rfl (Or.inl (Engine.pc_queueSQE done)) (Or.inl rfl)
        rfl
  | abandon some_loop here panics =>
      exact calm_setLoop inv alive rfl rfl rfl (Or.inl rfl) (Or.inl rfl) rfl
  | link some_loop here done =>
      exact calm_setLoop inv alive rfl rfl rfl (Or.inl (Engine.pc_queueSQE done)) (Or.inl rfl)
        rfl
  | register some_loop here =>
      exact calm_setLoop inv alive rfl rfl rfl (Or.inl rfl) (Or.inl rfl) rfl
  | leave some_loop here last =>
      exact calm_setLoop inv alive rfl rfl rfl (Or.inl rfl) (Or.inl rfl) rfl
  | @signalClosed l lt here closed =>
      -- The consumer was not told to stop, so the publisher was not either.
      have opened := (inv.orderly.loops l lt).submitSignal_open (by decide)
        (show (s.loops l).engine.pc.stopped = false by rw [here]; rfl)
      change (s.loops l).shell.closed .submitSignal = false at opened
      rw [closed] at opened
      cases opened
  | signal lt here publisher =>
      refine calm_setLoop inv alive rfl rfl rfl (Or.inr ⟨?_, rfl, ?_⟩) (Or.inr ⟨?_, rfl⟩) rfl
      · rw [here]
        rfl
      · rintro ⟨⟩
      · rw [publisher]
        rfl
  | swap lt here set =>
      exact calm_setLoop inv alive rfl rfl rfl (Or.inl rfl) (Or.inr ⟨by rw [here]; rfl, rfl⟩) rfl
  | noSwap lt here unset =>
      exact calm_setLoop inv alive rfl rfl rfl (Or.inl rfl) (Or.inr ⟨by rw [here]; rfl, rfl⟩) rfl
  | lockSubmit lt here free =>
      exact calm_setLoop inv alive rfl rfl rfl (Or.inl rfl) (Or.inr ⟨by rw [here]; rfl, rfl⟩) rfl
  | submit lt here done =>
      exact calm_setLoop inv alive rfl rfl rfl (Or.inl (Engine.pc_submit done))
        (Or.inr ⟨by rw [here]; rfl, rfl⟩) rfl
  | unlockSubmit lt here =>
      exact calm_setLoop inv alive rfl rfl rfl (Or.inl rfl) (Or.inr ⟨by rw [here]; rfl, rfl⟩) rfl
  | consumer lt done =>
      obtain ⟨-, -, -, active, active'⟩ := Engine.consumerStep_spec done
      exact calm_setLoop inv alive rfl rfl rfl
        (Or.inr ⟨active, active', Engine.ne_resignal_of_consumerStep done⟩) (Or.inl rfl) rfl
  | passOver lt taken reserved =>
      obtain ⟨-, -, -, active, active'⟩ := Engine.take_spec taken
      exact calm_setLoop inv alive rfl rfl rfl
        (Or.inr ⟨active, active', Engine.ne_resignal_of_take taken⟩) (Or.inl rfl) rfl
  | deliver lt taken request found =>
      obtain ⟨-, -, -, active, active'⟩ := Engine.take_spec taken
      exact calm_setLoop inv alive rfl rfl rfl
        (Or.inr ⟨active, active', Engine.ne_resignal_of_take taken⟩) (Or.inl rfl) rfl
  | missing lt taken request found =>
      exact ⟨inv.orderly, inv.once, fun _ misused => by cases misused⟩
  | kernel lt done =>
      obtain ⟨-, pc, -⟩ := Engine.kernelStep_spec done
      exact calm_setLoop inv alive rfl rfl rfl (Or.inl pc) (Or.inl rfl) rfl
  | @stop event o done =>
      obtain ⟨quiet, after⟩ := Orderly.stop inv.orderly (by decide) (by decide) (by decide) done
      refine ⟨?_, once_setLoop inv.once ?_, ?_⟩
      · show Orderly n reactorExits o.run (EventLoop.shell ∘ Function.update s.loops o.loop _)
        rw [Function.comp_update]
        exact after
      · exact stopStep_ne_resignal done (inv.once o.loop)
      · intro panic misused
        change o.panic.map ReactorPanic.channel = _ at misused
        rw [quiet] at misused
        cases misused

/-- **What carries the argument survives a step.** -/
theorem Stopping.step (inv : s.Stopping n) (stepped : s.step n e = some s') :
    s'.Stopping n := by
  obtain ⟨orderly, once, channels⟩ := calm_step inv stepped
  exact ⟨orderly, once,
    views_step inv.inside (fun l _ move => (inv.inside l).move move) stepped, channels⟩

/-- A publisher that is busy can move. -/
theorem publisher_moves (inv : s.Stopping n) (alive : s.panicked = none)
    (undisturbed : s.Undisturbed) {l : ℕ} (lt : l < n) {stage : PublishStage}
    (busy : (s.loops l).shell.publisher = .busy stage) :
    ∃ e, (s.step n e).isSome = true ∧ e.actor = .loop l := by
  obtain ⟨result, ends⟩ := (s.loops l).engine.exists_submit
  refine ⟨.publish l result, ?_, rfl⟩
  simp only [EventReactor.step, alive, stepLive, lt, busy, if_true]
  cases stage with
  | cas =>
      simp only [publishStep]
      split
      · rfl
      · rfl
  | wantLock =>
      -- Nobody can be inside the lock: no caller is, and the publisher is here.
      have free : (s.loops l).queueSQELock = none := by
        rw [Option.eq_none_iff_forall_ne_some]
        intro holder held
        cases holder with
        | caller k => exact undisturbed l k held
        | publisher =>
            obtain ⟨stage, elsewhere, holds⟩ := (inv.inside l).publisher held
            change (s.loops l).shell.publisher = _ at elsewhere
            rw [busy] at elsewhere
            cases elsewhere
            cases holds
      simp only [publishStep, free, if_true]
      rfl
  | locked =>
      simp only [publishStep, Option.isSome_map]
      exact ends
  | unlock => rfl

/-- A consumer that was not told to stop can move, or its publisher can. -/
theorem consumer_moves (inv : s.Stopping n) (alive : s.panicked = none)
    (undisturbed : s.Undisturbed) {l : ℕ} (lt : l < n)
    (active : (s.loops l).engine.pc.stopped = false) :
    ∃ e, (s.step n e).isSome = true ∧ e.actor = .loop l := by
  rcases (s.loops l).engine.exists_move false active with
    (signal | again) | poll | ⟨c, moves⟩ | takes
  · cases here : (s.loops l).shell.publisher with
    | select =>
        refine ⟨.signal l, ?_, rfl⟩
        simp only [EventReactor.step, alive, stepLive, lt, signalStep, signal, here, if_true]
        split
        · rfl
        · rfl
    | busy stage => exact publisher_moves inv alive undisturbed lt here
    | closing rest =>
        -- A publisher is told to stop after its consumer.
        have this := inv.orderly.loops l lt
        have far := this.publisher.mp
          (show (s.loops l).shell.publisher.stopped = true by rw [here]; rfl)
        have stopped := this.consumer.mpr (by omega)
        change (s.loops l).engine.pc.stopped = true at stopped
        rw [active] at stopped
        cases stopped
  · exact absurd again (inv.once l)
  · refine ⟨.stop (.proceed l), ?_, rfl⟩
    simp only [EventReactor.step, alive, stepLive, stopStep, lt]
    have poll : (s.loops l).shell.engine.pc = .poll := poll
    simp only [poll, and_self, if_true]
    rfl
  · refine ⟨.consumer l c, ?_, rfl⟩
    simp only [EventReactor.step, alive, stepLive, lt, Option.isSome_map, if_true]
    exact moves
  · refine ⟨.dispatch l, ?_, rfl⟩
    simp only [EventReactor.step, alive, stepLive, lt, dispatchOne, Option.isSome_map, if_true]
    exact takes

/-- After `Run` has returned there is no work. -/
theorem silent (inv : s.Stopping n) (isOver : s.run = .returned) (work : e.works = true) :
    s.step n e = none := by
  have orderly := inv.orderly
  rw [isOver] at orderly
  have done : ∀ l < n, (s.loops l).engine.pc = .returned ∧
      ∃ rest, (s.loops l).shell.publisher = .closing rest := fun l lt =>
    orderly.over_of_returned lt
  rw [Option.eq_none_iff_forall_ne_some]
  intro s' stepped
  obtain ⟨-, transition⟩ := step_transition stepped
  cases transition with
  | signalClosed lt here closed =>
      rw [(done _ lt).1] at here
      cases here
  | signal lt here publisher =>
      rw [(done _ lt).1] at here
      cases here
  | swap lt here set =>
      obtain ⟨-, rest, closing⟩ := done _ lt
      rw [closing] at here
      cases here
  | noSwap lt here unset =>
      obtain ⟨-, rest, closing⟩ := done _ lt
      rw [closing] at here
      cases here
  | lockSubmit lt here free =>
      obtain ⟨-, rest, closing⟩ := done _ lt
      rw [closing] at here
      cases here
  | submit lt here submitted =>
      obtain ⟨-, rest, closing⟩ := done _ lt
      rw [closing] at here
      cases here
  | unlockSubmit lt here =>
      obtain ⟨-, rest, closing⟩ := done _ lt
      rw [closing] at here
      cases here
  | consumer lt moved =>
      have active := (Engine.consumerStep_spec moved).2.2.2.1
      rw [(done _ lt).1] at active
      cases active
  | passOver lt taken reserved =>
      have active := (Engine.take_spec taken).2.2.2.1
      rw [(done _ lt).1] at active
      cases active
  | deliver lt taken request found =>
      have active := (Engine.take_spec taken).2.2.2.1
      rw [(done _ lt).1] at active
      cases active
  | missing lt taken request found =>
      have active := (Engine.take_spec taken).2.2.2.1
      rw [(done _ lt).1] at active
      cases active
  | _ => cases work

theorem safe_of_stopping (inv : s.Stopping n) : (stoppable n).Safe n s where
  channels := fun panic misused => absurd misused (inv.channels panic)
  run_moves := by
    intro alive undisturbed going
    change s.panicked = none at alive
    rcases inv.orderly.run_moves (by decide)
      (fun l lt active => consumer_moves inv alive undisturbed lt active)
      (fun l lt stage busy => publisher_moves inv alive undisturbed lt busy) going with
      ⟨e, moves, concerned⟩ | ⟨l, this, e, moves, actor⟩
    · refine ⟨.stop e, ?_, concerned⟩
      show (s.step n (.stop e)).isSome = true
      simp only [EventReactor.step, alive, stepLive, if_true, Option.isSome_map]
      exact moves
    · exact ⟨e, moves, Or.inr ⟨l, this, actor⟩⟩
  loop_moves := by
    intro alive undisturbed l lt early
    refine consumer_moves inv alive undisturbed lt ?_
    rw [Bool.eq_false_iff]
    intro stopped
    have far := (inv.orderly.loops l lt).consumer.mp stopped
    change s.run.progress n ≤ _ at early
    omega
  silent := fun isOver _ work => silent inv isOver work

end EventReactor

/-! ## The network reactor -/

/-- Who takes the step. -/
def NetEvent.actor : NetEvent → Actor
  | .request l _ _ => .loop l
  | .signal l _ => .loop l
  | .consumer l _ => .loop l
  | .dispatch l => .loop l
  | .stop event => event.actor
  | _ => .outside

/-- The event is work of a consumer or a publisher. -/
def NetEvent.works : NetEvent → Bool
  | .request _ _ _ => true
  | .signal _ _ => true
  | .consumer _ _ => true
  | .dispatch _ => true
  | _ => false

namespace NetReactor

variable {n : ℕ} {s s' : NetReactor} {e : NetEvent}

/-- The network reactor as something to be stopped: its publishers take no lock. -/
def stoppable (n : ℕ) : Stoppable NetReactor NetEvent where
  step := step n
  run := run
  panicked := panicked
  undisturbed := fun _ => True
  actor := NetEvent.actor
  works := NetEvent.works

/-- The signal case comes to an end. -/
theorem exists_submitCase (flag : UInt32) (e : Engine) :
    ∃ result, (NetLoop.submitCase flag e result).isSome = true := by
  obtain ⟨result, ends⟩ := e.exists_submit
  refine ⟨result, ?_⟩
  unfold NetLoop.submitCase
  split
  · rw [Option.isSome_map]
    exact ends
  · rfl

/-- A consumer at one of its sends finds the publisher at its `select`. -/
theorem signal_moves (orderly : s.StopOrderly n) (alive : s.panicked = none) {l : ℕ}
    (lt : l < n) {pc : ConsumerPC} (next : afterSignal (s.loops l).engine.pc = some pc) :
    ∃ e, (s.step n e).isSome = true ∧ e.actor = .loop l := by
  obtain ⟨-, active, -⟩ := afterSignal_spec next
  have this := orderly.loops l lt
  have opened : (s.loops l).shell.closed .submitSignal = false :=
    this.submitSignal_open (by decide) active
  cases here : (s.loops l).shell.publisher with
  | select =>
      obtain ⟨result, ends⟩ := exists_submitCase (s.loops l).submitAllowed
        ((s.loops l).engine.goto pc (taken_afterSignal next))
      refine ⟨.signal l result, ?_, rfl⟩
      simp only [NetReactor.step, alive, stepLive, lt, signalCase, if_true]
      split
      · next none =>
        rw [next] at none
        cases none
      · next pc' next' =>
        cases next.symm.trans next'
        simp only [opened, here, Bool.false_eq_true, if_false, Option.isSome_map]
        exact ends
  | busy stage => exact stage.elim
  | closing rest =>
      have far := this.publisher.mp
        (show (s.loops l).shell.publisher.stopped = true by rw [here]; rfl)
      have stopped := this.consumer.mpr (by omega)
      change (s.loops l).engine.pc.stopped = true at stopped
      rw [active] at stopped
      cases stopped

/-- A consumer that was not told to stop can move. -/
theorem consumer_moves (orderly : s.StopOrderly n) (alive : s.panicked = none) {l : ℕ}
    (lt : l < n) (active : (s.loops l).engine.pc.stopped = false) :
    ∃ e, (s.step n e).isSome = true ∧ e.actor = .loop l := by
  rcases (s.loops l).engine.exists_move true active with
    (signal | again) | poll | ⟨c, moves⟩ | takes
  · exact signal_moves orderly alive lt (by rw [signal]; rfl)
  · exact signal_moves orderly alive lt (by rw [again]; rfl)
  · refine ⟨.stop (.proceed l), ?_, rfl⟩
    have poll : (s.loops l).shell.engine.pc = .poll := poll
    simp only [NetReactor.step, alive, stepLive, stopStep, lt, poll, and_self, if_true]
    rfl
  · refine ⟨.consumer l c, ?_, rfl⟩
    simp only [NetReactor.step, alive, stepLive, lt, Option.isSome_map, if_true]
    exact moves
  · refine ⟨.dispatch l, ?_, rfl⟩
    simp only [NetReactor.step, alive, stepLive, lt, dispatchOne, Option.isSome_map, if_true]
    exact takes

/-- After `Run` has returned there is no work. -/
theorem silent (orderly : s.StopOrderly n) (isOver : s.run = .returned) (work : e.works = true) :
    s.step n e = none := by
  unfold StopOrderly at orderly
  rw [isOver] at orderly
  have done : ∀ l < n, (s.loops l).engine.pc = .returned ∧
      ∃ rest, (s.loops l).shell.publisher = .closing rest := fun l lt =>
    orderly.over_of_returned lt
  rw [Option.eq_none_iff_forall_ne_some]
  intro s' stepped
  obtain ⟨-, transition⟩ := step_transition stepped
  cases transition with
  | request lt handled =>
      obtain ⟨-, -, -, -, select, -⟩ := requestCase_cases handled
      obtain ⟨-, rest, closing⟩ := done _ lt
      rw [closing] at select
      cases select
  | signal lt handled =>
      have active := (signalCase_cases handled).2.1
      rw [(done _ lt).1] at active
      cases active
  | consumer lt moved =>
      have active := (Engine.consumerStep_spec moved).2.2.2.1
      rw [(done _ lt).1] at active
      cases active
  | dispatch lt handled =>
      obtain ⟨cqe, e, taken, -⟩ := dispatchOne_cases handled
      have active := (Engine.take_spec taken).2.2.2.1
      rw [(done _ lt).1] at active
      cases active
  | _ => cases work

theorem safe_of_stopOrderly (orderly : s.StopOrderly n)
    (channels : ∀ panic, s.panicked = some (.channel panic) → panic = .sendOnClosed .reqBuss) :
    (stoppable n).Safe n s where
  channels := channels
  run_moves := by
    intro alive _ going
    change s.panicked = none at alive
    rcases orderly.run_moves (by decide)
      (fun l lt active => consumer_moves orderly alive lt active)
      (fun l lt stage busy => stage.elim) going with
      ⟨e, moves, concerned⟩ | ⟨l, this, e, moves, actor⟩
    · refine ⟨.stop e, ?_, concerned⟩
      show (s.step n (.stop e)).isSome = true
      simp only [NetReactor.step, alive, stepLive, if_true, Option.isSome_map]
      exact moves
    · exact ⟨e, moves, Or.inr ⟨l, this, actor⟩⟩
  loop_moves := by
    intro alive _ l lt early
    refine consumer_moves orderly alive lt ?_
    rw [Bool.eq_false_iff]
    intro stopped
    have far := (orderly.loops l lt).consumer.mp stopped
    change s.run.progress n ≤ _ at early
    omega
  silent := fun isOver _ work => silent orderly isOver work

end NetReactor

/-! ## Both reactors -/

/-- **The stop handshake.**  In every state that a reactor of either kind can reach,
with any number of loops: `Run`, the consumers and the publishers have misused no
channel; until `Run` has returned, `Run` or the loop it is stopping can move, and so can
every loop whose consumer was not told to stop; and then no consumer and no publisher
works on its ring or calls a callback. -/
theorem stop_handshake :
    (∀ (n : ℕ) (rings : ℕ → ReactorRing false) (p : List (EventReactor × ReactorEvent))
      (s : EventReactor),
      Runs.Path (EventReactor.step n) (EventReactor.start rings) p s →
        (EventReactor.stoppable n).Safe n s) ∧
    (∀ (n : ℕ) (some_loop : 0 < n) (rings : ℕ → ReactorRing true)
      (p : List (NetReactor × NetEvent)) (s : NetReactor),
      Runs.Path (NetReactor.step n) (NetReactor.start n some_loop rings) p s →
        (NetReactor.stoppable n).Safe n s) := by
  constructor
  · intro n rings p s path
    exact EventReactor.safe_of_stopping (path.invariant_of_step (EventReactor.Stopping n)
      (EventReactor.stopping_start rings) fun _ _ _ inv stepped => inv.step stepped)
  · intro n some_loop rings p s path
    have inv := path.invariant_of_step
      (fun s => s.StopOrderly n ∧
        ∀ panic, s.panicked = some (.channel panic) → panic = .sendOnClosed .reqBuss)
      ⟨NetReactor.stopOrderly_start some_loop rings, fun _ misused => by cases misused⟩
      fun t e t' inv stepped => by
        obtain ⟨orderly, misuse⟩ := NetReactor.stopOrderly_step inv.1 stepped
        exact ⟨orderly, fun panic misused => (misuse panic misused).1⟩
    exact NetReactor.safe_of_stopOrderly inv.1 inv.2

/-- A stop of the generic reactor with one loop. -/
def eventStopping : List ReactorEvent :=
  [.signal 0, .publish 0 (.consumed 0), .consumer 0 .wait, .consumer 0 (.entered (some .etime)),
    .stop .ctxDone, .stop .stopConsumer, .stop (.closeConsumer 0), .stop .awaitConsumer,
    .stop .stopPublisher, .stop (.closePublisher 0), .stop .awaitPublisher]

/-- The handshake at a reactor of each kind with one loop, stopped: the loop has a step
at the start, and at the end there is no work. -/
theorem stop_handshake_one_loop :
    (∃ p s, Runs.Path (EventReactor.step 1) (EventReactor.start (twoSlots false)) p s ∧
      s.run = .returned ∧ ∀ e, e.works = true → s.step 1 e = none) ∧
    (∃ p s, Runs.Path (NetReactor.step 1) (NetReactor.start 1 Nat.one_pos (twoSlots true)) p s ∧
      s.run = .returned ∧ ∀ e, e.works = true → s.step 1 e = none) := by
  constructor
  · have path : Runs.Path (EventReactor.step 1) (EventReactor.start (twoSlots false))
        (Runs.record (EventReactor.step 1) (EventReactor.start (twoSlots false))
          eventStopping) _ :=
      Runs.path_record eventStopping rfl
    exact ⟨_, _, path, rfl, (stop_handshake.1 1 (twoSlots false) _ _ path).silent rfl⟩
  · have path : Runs.Path (NetReactor.step 1) (NetReactor.start 1 Nat.one_pos (twoSlots true))
        (Runs.record (NetReactor.step 1) (NetReactor.start 1 Nat.one_pos (twoSlots true))
          (NetReactor.stopping [] [])) _ :=
      Runs.path_record (NetReactor.stopping [] []) rfl
    exact ⟨_, _, path, rfl, (stop_handshake.2 1 Nat.one_pos (twoSlots true) _ _ path).silent rfl⟩

end GoUring.Reactor
