import GoUring.Reactor.EventReactor

/-!
# The generic reactor with callbacks that call it

`runConsumer` of `reactor/reactor.go` calls a callback with the `callbacksLock` of its
loop held, and the callback is any code: it may call `Queue`, `QueueWithDeadline` or
`Cancel` of the same reactor, and the consumer then waits wherever the call waits.
In `EventReactor` finding, calling and deleting a callback is one step.  Here the
step is taken apart: the consumer takes the lock and enters the callback, the
callback makes one call after the other and waits until each is over, be it with a panic
from which the callback recovers, and then it returns itself, is deleted, and the lock is
released.  In the meantime no `Queue` gets past the `callbacksLock` of the loop.

A call that a callback makes is a call as any other, only that the goroutine it runs
on is the consumer.  So the reactor itself takes the steps it always took, and its
runs are those of an `EventReactor` (`path_reactor`); the step that ends a callback is
the reactor's own one, and calls the callback that was entered (`leave_invoked`).
-/

namespace GoUring.Reactor

open Uring

/-- A callback that a consumer is in. -/
structure CallbackFrame where
  /-- The `Queue` call that passed the callback. -/
  cb : ℕ
  /-- What the callback is called with. -/
  cqe : CQEvent
  /-- The call the callback has made, until it is back. -/
  inner : Option ℕ

/-- A reactor, the callbacks its consumers are in, and the calls callbacks made. -/
structure ReentrantReactor where
  reactor : EventReactor
  /-- The callback the consumer of a loop is in, with the loop's `callbacksLock`. -/
  frame : ℕ → Option CallbackFrame
  /-- The loop whose consumer made a call, from a callback; `none` for the calls of
  other goroutines. -/
  maker : ℕ → Option ℕ

/-- The call is over. -/
def Call.isOver : Call → Bool
  | .returned _ _ => true
  | .recovered _ => true
  | _ => false

/-- The call that the event begins. -/
def ReactorEvent.newCall : ReactorEvent → Option ℕ
  | .queue k _ _ => some k
  | .cancel k _ => some k
  | _ => none

/-- What can happen to a reactor with such callbacks. -/
inductive ReentrantEvent
  /-- A step of the reactor; the calls that begin this way are made by goroutines of
  their own. -/
  | base (e : ReactorEvent)
  /-- The consumer of loop `l` takes `callbacksLock` and calls a callback. -/
  | enter (l : ℕ)
  /-- The callback that the consumer of loop `l` is in makes a call. -/
  | make (l : ℕ) (e : ReactorEvent)
  /-- The call is back in the callback. -/
  | back (l : ℕ)
  /-- The callback returns; it is deleted and `callbacksLock` released. -/
  | leave (l : ℕ)

/-- The completion the consumer is about to dispatch. -/
def Engine.head (e : Engine) : Option CQEvent :=
  match e.pc with
  | .dispatch i => e.consumer.events[i]?
  | _ => none

/-- The callback that the consumer of loop `l` is about to call, and what with. -/
def EventReactor.found (s : EventReactor) (l : ℕ) : Option (ℕ × CQEvent) :=
  (s.loops l).engine.head.bind fun cqe =>
    if Reserved cqe.userData then none
    else ((s.loops l).callbacks cqe.userData).map fun k => (k, cqe)

namespace ReentrantReactor

/-- The consumer of loop `l` in another callback, or in none. -/
def setFrame (s : ReentrantReactor) (l : ℕ) (f : Option CallbackFrame) : ReentrantReactor :=
  { s with frame := Function.update s.frame l f }

/-- The same, with a reactor that took a step. -/
def withReactor (s : ReentrantReactor) (r : EventReactor) : ReentrantReactor :=
  { s with reactor := r }

/-- Call `k` was made by the consumer of loop `l`. -/
def setMaker (s : ReentrantReactor) (k l : ℕ) : ReentrantReactor :=
  { s with maker := Function.update s.maker k (some l) }

/-- The reactor can take the step: no consumer takes one while it is in a callback,
a callback is called by `enter` only, and a `Queue` that registers its callback
needs a `callbacksLock` that is free. -/
def admits (n : ℕ) (s : ReentrantReactor) : ReactorEvent → Bool
  | .consumer l _ => (s.frame l).isNone
  | .signal l => (s.frame l).isNone
  | .dispatch l => (s.frame l).isNone && (s.reactor.found l).isNone
  | .call k _ =>
      match s.reactor.calls k with
      | .active job .queued => (s.frame (job.loop n)).isNone
      | _ => true
  | _ => true

/-- One step of a reactor that has not panicked. -/
def stepLive (n : ℕ) (s : ReentrantReactor) : ReentrantEvent → Option ReentrantReactor
  | .base e =>
      if s.admits n e then (s.reactor.step n e).map s.withReactor else none
  | .enter l =>
      if l < n then
        match s.frame l, s.reactor.found l with
        | none, some (k, cqe) =>
            some (s.setFrame l (some ⟨k, cqe, none⟩))
        | _, _ => none
      else none
  | .make l e =>
      match s.frame l, e.newCall with
      | some ⟨cb, cqe, none⟩, some k =>
          (s.reactor.step n e).map fun r =>
            ((s.withReactor r).setFrame l (some ⟨cb, cqe, some k⟩)).setMaker k l
      | _, _ => none
  | .back l =>
      match s.frame l with
      | some ⟨cb, cqe, some k⟩ =>
          if (s.reactor.calls k).isOver then some (s.setFrame l (some ⟨cb, cqe, none⟩)) else none
      | _ => none
  | .leave l =>
      match s.frame l with
      | some ⟨_, _, none⟩ =>
          (s.reactor.step n (.dispatch l)).map fun r =>
            (s.withReactor r).setFrame l none
      | _ => none

/-- One step; a panic ends the program. -/
def step (n : ℕ) (s : ReentrantReactor) (e : ReentrantEvent) : Option ReentrantReactor :=
  if s.reactor.panicked = none then s.stepLive n e else none

/-- `New(rings)` before the first step of its goroutines. -/
def start (rings : ℕ → ReactorRing false) : ReentrantReactor where
  reactor := EventReactor.start rings
  frame _ := none
  maker _ := none

/-- The transitions, one for each way an event can happen. -/
inductive Transition (n : ℕ) (s : ReentrantReactor) : ReentrantEvent → ReentrantReactor → Prop
  | base {e : ReactorEvent} {r : EventReactor} (admitted : s.admits n e = true)
      (stepped : s.reactor.step n e = some r) :
      Transition n s (.base e) (s.withReactor r)
  | enter {l k : ℕ} {cqe : CQEvent} (lt : l < n) (outside : s.frame l = none)
      (found : s.reactor.found l = some (k, cqe)) :
      Transition n s (.enter l) (s.setFrame l (some ⟨k, cqe, none⟩))
  | make {l cb k : ℕ} {cqe : CQEvent} {e : ReactorEvent} {r : EventReactor}
      (inside : s.frame l = some ⟨cb, cqe, none⟩) (new : e.newCall = some k)
      (stepped : s.reactor.step n e = some r) :
      Transition n s (.make l e)
        (((s.withReactor r).setFrame l (some ⟨cb, cqe, some k⟩)).setMaker k l)
  | back {l cb k : ℕ} {cqe : CQEvent} (inside : s.frame l = some ⟨cb, cqe, some k⟩)
      (isOver : (s.reactor.calls k).isOver = true) :
      Transition n s (.back l) (s.setFrame l (some ⟨cb, cqe, none⟩))
  | leave {l cb : ℕ} {cqe : CQEvent} {r : EventReactor}
      (inside : s.frame l = some ⟨cb, cqe, none⟩)
      (stepped : s.reactor.step n (.dispatch l) = some r) :
      Transition n s (.leave l) ((s.withReactor r).setFrame l none)

section Inversion

variable {n : ℕ} {s s' : ReentrantReactor} {e : ReentrantEvent}

theorem frame_setFrame {l l' : ℕ} {f : Option CallbackFrame} {g : CallbackFrame}
    (inside : (s.setFrame l f).frame l' = some g) :
    (l' = l ∧ f = some g) ∨ (l' ≠ l ∧ s.frame l' = some g) := by
  change Function.update s.frame l f l' = some g at inside
  rwa [Function.update_apply, ite_eq_iff] at inside

theorem maker_setMaker {k k' l l' : ℕ} (made : (s.setMaker k l).maker k' = some l') :
    (k' = k ∧ l' = l) ∨ (k' ≠ k ∧ s.maker k' = some l') := by
  change Function.update s.maker k (some l) k' = some l' at made
  rwa [Function.update_apply, ite_eq_iff, Option.some.injEq, eq_comm (a := l)] at made

/-- **Every step is a transition.** -/
theorem step_transition (stepped : s.step n e = some s') : Transition n s e s' := by
  unfold step at stepped
  split at stepped
  · cases e with
    | base e =>
        simp only [stepLive] at stepped
        split at stepped
        · next admitted =>
          obtain ⟨r, done, rfl⟩ := Option.map_eq_some_iff.mp stepped
          exact .base admitted done
        · cases stepped
    | enter l =>
        simp only [stepLive] at stepped
        split at stepped
        · next lt =>
          split at stepped
          · next outside found =>
            cases stepped
            exact .enter lt outside found
          · cases stepped
        · cases stepped
    | make l e =>
        simp only [stepLive] at stepped
        split at stepped
        · next inside new =>
          obtain ⟨r, done, rfl⟩ := Option.map_eq_some_iff.mp stepped
          exact .make inside new done
        · cases stepped
    | back l =>
        simp only [stepLive] at stepped
        split at stepped
        · next inside =>
          split at stepped
          · next isOver =>
            cases stepped
            exact .back inside isOver
          · cases stepped
        · cases stepped
    | leave l =>
        simp only [stepLive] at stepped
        split at stepped
        · next inside =>
          obtain ⟨r, done, rfl⟩ := Option.map_eq_some_iff.mp stepped
          exact .leave inside done
        · cases stepped
  · cases stepped

/-- **The reactor takes the steps it always took**, or none. -/
theorem step_reactor (stepped : s.step n e = some s') :
    s'.reactor = s.reactor ∨ ∃ e', s.reactor.step n e' = some s'.reactor := by
  cases step_transition stepped with
  | base _ done => exact Or.inr ⟨_, done⟩
  | enter => exact Or.inl rfl
  | make _ _ done => exact Or.inr ⟨_, done⟩
  | back => exact Or.inl rfl
  | leave _ done => exact Or.inr ⟨_, done⟩

/-- **With callbacks that call it, a reactor runs as it does without**: what holds in
every run of a reactor holds of the one here. -/
theorem path_reactor {rings : ℕ → ReactorRing false}
    {p : List (ReentrantReactor × ReentrantEvent)} (path : Runs.Path (step n) (start rings) p s) :
    ∃ q, Runs.Path (EventReactor.step n) (EventReactor.start rings) q s.reactor := by
  refine path.invariant_of_step
    (fun s => ∃ q, Runs.Path (EventReactor.step n) (EventReactor.start rings) q s.reactor)
    ⟨[], .nil⟩ ?_
  rintro s e s' ⟨q, run⟩ stepped
  rcases step_reactor stepped with same | ⟨e', next⟩
  · rw [same]
    exact ⟨q, run⟩
  · exact ⟨_, run.snoc next⟩

end Inversion

end ReentrantReactor

/-! ## The callback that is entered is the one that leaves -/

namespace Engine

theorem head_of_take {e e' : Engine} {cqe : CQEvent} (taken : e.take = some (cqe, e')) :
    e.head = some cqe := by
  unfold take at taken
  split at taken
  · next i here =>
    split at taken
    · next found =>
      cases taken
      rw [head, here]
      exact found
    · cases taken
  · cases taken

/-- Only the consumer moves on to another completion. -/
theorem head_congr {e e' : Engine} (pc : e'.pc = e.pc)
    (events : e'.consumer.events = e.consumer.events) : e'.head = e.head := by
  rw [head, head, pc, events]

theorem head_queueSQE {e e' : Engine} {op : Operation} {flags : UInt8} {userData : UInt64}
    {err : Option RingError} (done : e.queueSQE op flags userData = some (err, e')) :
    e'.head = e.head := by
  obtain ⟨⟨err, sq⟩, -, eq⟩ := Option.map_eq_some_iff.mp done
  cases eq
  exact head_congr rfl rfl

theorem head_submit {e e' : Engine} {result : EnterResult} {ret : Except RingError ℕ}
    (done : e.submit result = some (ret, e')) : e'.head = e.head := by
  obtain ⟨⟨ret, sqes, sq⟩, -, eq⟩ := Option.map_eq_some_iff.mp done
  cases eq
  exact head_congr rfl rfl

/-- The kernel posts behind what the consumer was given. -/
theorem head_kernelStep {e e' : Engine} {k : KernelEvent} (done : e.kernelStep k = some e') :
    e'.head = e.head := by
  cases k with
  | consume =>
      simp only [kernelStep] at done
      split at done
      · obtain ⟨⟨sqe, sq⟩, -, rfl⟩ := Option.map_eq_some_iff.mp done
        exact head_congr rfl rfl
      · cases done
  | complete i res flags =>
      obtain ⟨sqe, -, done⟩ := Option.bind_eq_some_iff.mp done
      obtain ⟨mid, posted, rfl⟩ := Option.map_eq_some_iff.mp done
      obtain ⟨ready, buff, -, -, -, pc⟩ := kernelPost_spec posted
      refine head_congr pc ?_
      show mid.consumer.events = e.consumer.events
      rw [Consumer.events_eq_take, Consumer.events_eq_take, ready, buff]
      exact List.take_append_of_le_length e.consumer.held.2
  | flags flags =>
      cases done
      exact head_congr rfl rfl

/-- In a batch a consumer does not poll for the stop. -/
theorem engine_stopStep {β : Type} {n : ℕ} {exits : List Chan} {run : RunPC}
    {shell : ℕ → Shell β} {event : StopEvent} {o : StopOutcome β}
    (stepped : stopStep n exits run shell event = some o) {cqe : CQEvent}
    (inBatch : (shell o.loop).engine.head = some cqe) :
    o.shell.engine = (shell o.loop).engine := by
  unfold head at inBatch
  cases stopStep_transition stepped with
  | stopConsumer _ poll =>
      rw [poll] at inBatch
      cases inBatch
  | proceed _ poll =>
      rw [poll] at inBatch
      cases inBatch
  | closeConsumer _ closing =>
      rw [closing] at inBatch
      cases inBatch
  | _ => rfl

end Engine

namespace EventReactor

variable {n l : ℕ} {s s' : EventReactor} {e : ReactorEvent}

theorem found_update {l' : ℕ} {loop : EventLoop}
    (loops : s'.loops = Function.update s.loops l' loop)
    (kept : l = l' → loop.engine.head = (s.loops l').engine.head ∧
      loop.callbacks = (s.loops l').callbacks) : s'.found l = s.found l := by
  rw [found, found, loops]
  by_cases this : l = l'
  · obtain ⟨head, callbacks⟩ := kept this
    rw [this, Function.update_self, head, callbacks]
  · rw [Function.update_of_ne this]

/-- The step is not one of the consumer of loop `l`, and registers no callback there. -/
def LeavesConsumer (n : ℕ) (s : EventReactor) (l : ℕ) : ReactorEvent → Prop
  | .consumer l' _ => l' ≠ l
  | .signal l' => l' ≠ l
  | .dispatch l' => l' ≠ l
  | .call k _ => ∀ job, s.calls k = .active job .queued → job.loop n ≠ l
  | _ => True

/-- **Without its consumer, a loop calls no other callback next.** -/
theorem found_step (stepped : s.step n e = some s') (leaves : s.LeavesConsumer n l e)
    {x : ℕ × CQEvent} (found : s.found l = some x) : s'.found l = some x := by
  have away : ∀ {l' : ℕ} {loop : EventLoop}, l' ≠ l →
      l = l' → loop.engine.head = (s.loops l').engine.head ∧
        loop.callbacks = (s.loops l').callbacks := fun other this => absurd this.symm other
  obtain ⟨-, transition⟩ := step_transition stepped
  cases transition with
  | queue | cancel | skip | draw | noLoop | signalClosed | missing => exact found
  | lock | flag | abandon | leave | swap | noSwap | lockSubmit | unlockSubmit =>
      refine (found_update rfl fun _ => ?_).trans found
      exact ⟨rfl, rfl⟩
  | queueOp _ _ done | link _ _ done =>
      refine (found_update rfl fun _ => ?_).trans found
      exact ⟨Engine.head_queueSQE done, rfl⟩
  | register _ here => exact (found_update rfl (away (leaves _ here))).trans found
  | signal | consumer | passOver | deliver =>
      exact (found_update rfl (away leaves)).trans found
  | submit _ _ done =>
      refine (found_update rfl fun _ => ?_).trans found
      exact ⟨Engine.head_submit done, rfl⟩
  | kernel _ done =>
      refine (found_update rfl fun _ => ?_).trans found
      exact ⟨Engine.head_kernelStep done, rfl⟩
  | @stop event o done =>
      refine (found_update rfl fun this => ?_).trans found
      rw [EventReactor.found, this] at found
      obtain ⟨cqe, inBatch, -⟩ := Option.bind_eq_some_iff.mp found
      refine ⟨?_, rfl⟩
      show o.shell.engine.head = _
      rw [Engine.engine_stopStep done inBatch]
      rfl

/-- The step that finds a callback calls it. -/
theorem invoked_dispatch (stepped : s.step n (.dispatch l) = some s') {x : ℕ × CQEvent}
    (found : s.found l = some x) : s'.invoked = s.invoked ++ [x] := by
  obtain ⟨-, transition⟩ := step_transition stepped
  cases transition with
  | passOver _ taken reserved =>
      simp [EventReactor.found, Engine.head_of_take taken, reserved] at found
  | deliver _ taken request callback =>
      simp only [EventReactor.found, Engine.head_of_take taken, Option.bind_some,
        if_neg request, callback, Option.map_some, Option.some.injEq] at found
      rw [found]
  | missing _ taken request callback =>
      simp [EventReactor.found, Engine.head_of_take taken, request, callback] at found

end EventReactor

namespace ReentrantReactor

variable {n : ℕ} {s s' : ReentrantReactor} {e : ReentrantEvent}

/-- A consumer in a callback is where it was when it called it. -/
def StaysFound (s : ReentrantReactor) : Prop :=
  ∀ l f, s.frame l = some f → s.reactor.found l = some (f.cb, f.cqe)

theorem leavesConsumer_of_admits {e : ReactorEvent} (admitted : s.admits n e = true) {l : ℕ}
    {f : CallbackFrame} (inside : s.frame l = some f) : s.reactor.LeavesConsumer n l e := by
  have other : ∀ {l'}, (s.frame l').isNone = true → l' ≠ l := by
    rintro l' none rfl
    rw [inside] at none
    cases none
  cases e with
  | consumer => exact other admitted
  | signal => exact other admitted
  | dispatch => exact other (Bool.and_eq_true_iff.mp admitted).1
  | call k spec =>
      intro job here
      rw [admits, here] at admitted
      exact other admitted
  | _ => trivial

theorem leavesConsumer_of_newCall {e : ReactorEvent} {k : ℕ} (new : e.newCall = some k)
    (r : EventReactor) (l : ℕ) : r.LeavesConsumer n l e := by
  cases e with
  | queue | cancel => trivial
  | _ => cases new

/-- One consumer enters or leaves a callback. -/
theorem StaysFound.setFrame (stays : s.StaysFound) {l : ℕ} {f : Option CallbackFrame}
    (found : ∀ g, f = some g → s.reactor.found l = some (g.cb, g.cqe)) :
    (s.setFrame l f).StaysFound := by
  intro l' g inside
  rcases frame_setFrame inside with ⟨rfl, new⟩ | ⟨-, old⟩
  · exact found g new
  · exact stays l' g old

/-- The reactor takes a step, and the consumers in callbacks take none. -/
theorem StaysFound.withReactor (stays : s.StaysFound) {e : ReactorEvent} {r : EventReactor}
    (stepped : s.reactor.step n e = some r)
    (leaves : ∀ l f, s.frame l = some f → s.reactor.LeavesConsumer n l e) :
    (s.withReactor r).StaysFound := by
  intro l f inside
  exact EventReactor.found_step stepped (leaves l f inside) (stays l f inside)

theorem StaysFound.step (stays : s.StaysFound) (stepped : s.step n e = some s') :
    s'.StaysFound := by
  cases step_transition stepped with
  | base admitted done =>
      exact stays.withReactor done fun l f inside => leavesConsumer_of_admits admitted inside
  | enter _ _ found =>
      refine stays.setFrame ?_
      rintro g ⟨⟩
      exact found
  | @make l cb k cqe e r inside new done =>
      have moved : (s.withReactor r).StaysFound :=
        stays.withReactor done fun l _ _ => leavesConsumer_of_newCall new s.reactor l
      have here := moved l _ inside
      show ((s.withReactor r).setFrame l _).StaysFound
      refine moved.setFrame ?_
      rintro g ⟨⟩
      exact here
  | back inside =>
      have here := stays _ _ inside
      refine stays.setFrame ?_
      rintro g ⟨⟩
      exact here
  | @leave l cb cqe r inside done =>
      intro l' f there
      rcases frame_setFrame there with ⟨-, ⟨⟩⟩ | ⟨other, old⟩
      exact EventReactor.found_step done (Ne.symm other) (stays l' f old)

/-- **The callback that leaves is the one that was entered**: what the reactor notes down
as called is what the consumer was in. -/
theorem leave_invoked {rings : ℕ → ReactorRing false} {p : List (ReentrantReactor × ReentrantEvent)}
    (path : Runs.Path (step n) (start rings) p s) {l : ℕ} {f : CallbackFrame}
    (inside : s.frame l = some f) (stepped : s.step n (.leave l) = some s') :
    s'.reactor.invoked = s.reactor.invoked ++ [(f.cb, f.cqe)] := by
  have stays : s.StaysFound := by
    refine path.invariant_of_step StaysFound ?_ fun _ _ _ stays stepped => stays.step stepped
    rintro l f ⟨⟩
  cases step_transition stepped with
  | leave _ done => exact EventReactor.invoked_dispatch done (stays l f inside)

end ReentrantReactor

end GoUring.Reactor
