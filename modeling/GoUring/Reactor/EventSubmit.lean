import GoUring.Reactor.EventMoves

/-!
# Submitting in a generic reactor

A call of `Queue` sets `needSubmit` under `queueSQELock`, before it queues.  The
publisher swaps the flag from 1 to 0 outside the lock and takes the lock to
submit.  No order of these steps loses a submit: a call that is past its store
has the flag set, or the publisher has just swapped it and is waiting for the
lock that the call holds (`LoopView.Flagged`).

What loses a submit is an error.  The network reactor sets its flag again when
`Submit` fails with `EBUSY` or `EAGAIN`; the generic reactor logs the error and
goes back to its `select`, with the SQEs in the queue and the flag at 0, where it
stays until some other call of `Queue` happens to set it.
-/

namespace GoUring.Reactor

open Uring

/-- Somebody will submit what is in the queue: the flag is set, a call of `Queue`
holds the lock, or the publisher has taken the flag and not finished its
`Submit`. -/
def EventLoop.SubmitPending (loop : EventLoop) : Prop :=
  loop.needSubmit = 1 ∨ (∃ k, loop.queueSQELock = some (.caller k)) ∨
    loop.shell.publisher = .busy .wantLock ∨ loop.shell.publisher = .busy .locked

/-- If the ring has no SQ thread and holds SQEs that the kernel has not read,
somebody will submit them. -/
def EventLoop.NoLostSubmit (loop : EventLoop) : Prop :=
  loop.engine.sqPoll = false → loop.engine.sq.pending ≠ [] → loop.SubmitPending

/-- The kernel's answer to a `Submit` on a ring without an SQ thread: it reads all
that is queued, or fails for lack of resources. -/
def EventLoop.AllOrBusy (loop : EventLoop) (result : EnterResult) : Prop :=
  loop.shell.publisher = .busy .locked → loop.engine.sqPoll = false →
    match result with
    | .consumed k => k = loop.engine.sq.pending.length
    | .failed errno => errno = .ebusy ∨ errno = .eagain

/-- A `Submit` on a ring without an SQ thread fails only if the flag is set again
already, or there is nothing to submit. -/
def EventLoop.FailsHarmlessly (loop : EventLoop) (result : EnterResult) : Prop :=
  loop.shell.publisher = .busy .locked → loop.engine.sqPoll = false →
    (∃ errno, result = .failed errno) →
      loop.needSubmit = 1 ∨ loop.engine.sq.pending = []

/-- A call that is past its store to `needSubmit`. -/
def QueueStage.stored : QueueStage → Bool
  | .want => false
  | .locked => false
  | _ => true

theorem QueueStage.holds_of_stored {stage : QueueStage} (stored : stage.stored = true) :
    stage.holds = true := by
  cases stage with
  | want => cases stored
  | _ => rfl

theorem QueueStage.stored_of_ending {job : Job} {stage : QueueStage} {call : Call}
    (last : stage.ending job = some call) : stage.stored = true := by
  cases stage with
  | want | locked => cases last
  | _ => rfl

namespace LoopView

variable {v v' : LoopView} {n l k : ℕ} {e : ReactorEvent}

/-- **Why no order of steps loses a submit.** -/
structure Flagged (v : LoopView) : Prop where
  /-- The store of a call inside the lock is only undone by a publisher that then
  waits for the lock. -/
  stored : ∀ k job stage, v.active k = some (job, stage) → stage.stored = true →
    v.loop.needSubmit = 1 ∨ v.loop.shell.publisher = .busy .wantLock
  noLost : v.loop.NoLostSubmit

/-- A call moves on, and neither the flag nor the publisher does. -/
theorem Flagged.call (flagged : v.Flagged) {loop : EventLoop} {a : Option (Job × QueueStage)}
    (flag : loop.needSubmit = v.loop.needSubmit)
    (publisher : loop.shell.publisher = v.loop.shell.publisher)
    (mine : ∀ job stage, a = some (job, stage) → stage.stored = true →
      v.loop.needSubmit = 1 ∨ v.loop.shell.publisher = .busy .wantLock)
    (noLost : loop.NoLostSubmit) :
    Flagged { loop := loop, active := Function.update v.active k a } where
  stored := by
    intro j job stage here stored
    show loop.needSubmit = 1 ∨ loop.shell.publisher = .busy .wantLock
    rw [flag, publisher]
    rcases active_update here with ⟨-, new⟩ | ⟨-, old⟩
    · exact mine job stage new stored
    · exact flagged.stored j job stage old stored
  noLost := noLost

/-- While somebody else has the lock, no call is past its store. -/
theorem Locked.no_stored (locked : v.Locked)
    (elsewhere : ∀ k, v.loop.queueSQELock ≠ some (.caller k)) {job : Job} {stage : QueueStage}
    (here : v.active k = some (job, stage)) (stored : stage.stored = true) : False :=
  elsewhere k (locked.callers k job stage here (QueueStage.holds_of_stored stored))

/-- While the publisher is inside the lock, no call is. -/
theorem Locked.publisher_alone (locked : v.Locked) {stage : PublishStage}
    (busy : v.loop.shell.publisher = .busy stage) (holds : stage.holds = true) (k : ℕ) :
    v.loop.queueSQELock ≠ some (.caller k) := by
  rw [locked.publisher stage busy holds]
  rintro ⟨⟩

/-- A call inside the lock will submit, or have somebody submit. -/
theorem Locked.submitPending (locked : v.Locked) {job : Job} {stage : QueueStage}
    (here : v.active k = some (job, stage)) (holds : stage.holds = true) {loop : EventLoop}
    (lock : loop.queueSQELock = v.loop.queueSQELock) : loop.SubmitPending :=
  Or.inr (Or.inl ⟨k, lock.trans (locked.callers k job stage here holds)⟩)

/-- A quiet step keeps whoever will submit. -/
theorem Quiet.noLostSubmit (quiet : v.Quiet v') (noLost : v.loop.NoLostSubmit) :
    v'.loop.NoLostSubmit := by
  intro noThread waiting
  have before : v.loop.engine.sqPoll = false := quiet.ring.thread.symm.trans noThread
  rw [quiet.ring.pending before] at waiting
  unfold EventLoop.SubmitPending
  rw [quiet.flag, quiet.lock, quiet.publisher .wantLock (by rintro ⟨⟩),
    quiet.publisher .locked (by rintro ⟨⟩)]
  exact noLost before waiting

/-- What is left in the queue after a submit that reads everything or fails
harmlessly. -/
theorem noLostSubmit_submit {loop : EventLoop} {result : EnterResult}
    {ret : Except RingError ℕ} {e : Engine} (here : loop.shell.publisher = .busy .locked)
    (fair : loop.AllOrBusy result) (harmless : loop.FailsHarmlessly result)
    (done : loop.engine.submit result = some (ret, e)) :
    ((loop.withEngine e).publish (.busy .unlock)).NoLostSubmit := by
  intro noThread waiting
  have thread : e.sqPoll = loop.engine.sqPoll := by
    obtain ⟨_, _, -, rfl, -⟩ := Engine.submit_spec done
    rfl
  have before : loop.engine.sqPoll = false := thread.symm.trans noThread
  rcases Engine.submit_noThread before done with ⟨k, rfl, -, length⟩ | ⟨errno, rfl, -, same⟩
  · -- All were read, so none is waiting.
    have all : k = loop.engine.sq.pending.length := fair here before
    have empty : e.sq.pending.length = 0 := by omega
    exact absurd (List.length_eq_zero_iff.mp empty) waiting
  · rcases harmless here before ⟨errno, rfl⟩ with set | empty
    · exact Or.inl set
    · exact absurd (same.trans empty) waiting

/-- **Every move keeps a submit from being lost**, except for a submit that fails
with the flag at 0. -/
theorem Flagged.move (flagged : v.Flagged) (locked : v.Locked) (move : Move n l v e v')
    (fair : ∀ result, e = .publish l result → v.loop.AllOrBusy result)
    (harmless : ∀ result, e = .publish l result → v.loop.FailsHarmlessly result) :
    v'.Flagged := by
  cases move with
  | quiet quiet =>
      refine ⟨fun k job stage here stored => ?_, quiet.noLostSubmit flagged.noLost⟩
      rw [quiet.active] at here
      rw [quiet.flag, quiet.publisher .wantLock (by rintro ⟨⟩)]
      exact flagged.stored k job stage here stored
  | enter home away =>
      refine flagged.call rfl rfl ?_ flagged.noLost
      rintro job stage ⟨⟩ stored
      cases stored
  | lock home here free =>
      refine flagged.call rfl rfl ?_ fun _ _ => Or.inr (Or.inl ⟨_, rfl⟩)
      rintro job stage ⟨⟩ stored
      cases stored
  | flag home here => exact ⟨fun _ _ _ _ _ => Or.inl rfl, fun _ _ => Or.inl rfl⟩
  | queueOp home here done =>
      exact flagged.call rfl rfl (fun _ _ _ _ => flagged.stored _ _ _ here rfl)
        fun _ _ => locked.submitPending here rfl rfl
  | link home here done =>
      exact flagged.call rfl rfl (fun _ _ _ _ => flagged.stored _ _ _ here rfl)
        fun _ _ => locked.submitPending here rfl rfl
  | register home here =>
      exact flagged.call rfl rfl (fun _ _ _ _ => flagged.stored _ _ _ here rfl)
        fun _ _ => locked.submitPending here rfl rfl
  | abandon home here panics =>
      exact flagged.call rfl rfl (fun _ _ _ _ => flagged.stored _ _ _ here rfl)
        fun _ _ => locked.submitPending here rfl rfl
  | leave home here last =>
      refine flagged.call rfl rfl (fun _ _ gone => by cases gone) fun _ _ => ?_
      rcases flagged.stored _ _ _ here (QueueStage.stored_of_ending last) with set | waits
      · exact Or.inl set
      · exact Or.inr (Or.inr (Or.inl waits))
  | swap here set => exact ⟨fun _ _ _ _ _ => Or.inr rfl, fun _ _ => Or.inr (Or.inr (Or.inl rfl))⟩
  | lockSubmit here free =>
      refine ⟨fun k job stage active stored => ?_, fun _ _ => Or.inr (Or.inr (Or.inr rfl))⟩
      exact (locked.no_stored (fun k => by rw [free]; rintro ⟨⟩) active stored).elim
  | submit here done =>
      refine ⟨fun k job stage active stored => ?_, ?_⟩
      · exact (locked.no_stored (locked.publisher_alone here rfl) active stored).elim
      · exact noLostSubmit_submit here (fair _ rfl) (harmless _ rfl) done
  | unlockSubmit here =>
      refine ⟨fun k job stage active stored => ?_, fun noThread waiting => ?_⟩
      · exact (locked.no_stored (locked.publisher_alone here rfl) active stored).elim
      · rcases flagged.noLost noThread waiting with set | ⟨k, held⟩ | busy | busy
        · exact Or.inl set
        · exact absurd held (locked.publisher_alone here rfl k)
        · rw [here] at busy
          cases busy
        · rw [here] at busy
          cases busy

end LoopView

namespace EventReactor

variable {n : ℕ} {s s' : EventReactor} {e : ReactorEvent}

/-- **No submit is lost**, in any loop. -/
def NoLostSubmit (n : ℕ) (s : EventReactor) : Prop := ∀ l < n, (s.loops l).NoLostSubmit

/-- Each `Submit` reads all that is queued, or fails for lack of resources. -/
def SubmitsAllOrBusy (s : EventReactor) : ReactorEvent → Prop
  | .publish l result => (s.loops l).AllOrBusy result
  | _ => True

/-- Each `Submit` that fails finds the flag set again, or nothing to submit. -/
def SubmitFailsHarmlessly (s : EventReactor) : ReactorEvent → Prop
  | .publish l result => (s.loops l).FailsHarmlessly result
  | _ => True

/-- What carries the argument. -/
structure SubmitSafe (n : ℕ) (s : EventReactor) : Prop where
  locked : ∀ l, (s.view n l).Locked
  flagged : ∀ l, (s.view n l).Flagged

theorem submitSafe_start (rings : ℕ → ReactorRing false) (n : ℕ) :
    SubmitSafe n (start rings) where
  locked := locked_start rings n
  flagged := fun l =>
    { stored := fun _ _ _ here => by cases here
      noLost := fun _ waiting => absurd (rings l).sq_empty waiting }

theorem SubmitSafe.step (safe : SubmitSafe n s) (fair : s.SubmitsAllOrBusy e)
    (harmless : s.SubmitFailsHarmlessly e) (stepped : s.step n e = some s') :
    SubmitSafe n s' where
  locked := views_step safe.locked (fun l _ move => (safe.locked l).move move) stepped
  flagged := by
    refine views_step safe.flagged (fun l _ move => ?_) stepped
    refine (safe.flagged l).move (safe.locked l) move ?_ ?_
    · rintro result rfl
      exact fair
    · rintro result rfl
      exact harmless

/-- A submit that fails with the flag at 0 and SQEs in the queue loses them. -/
theorem lost_of_failure (locked : ∀ l, (s.view n l).Locked)
    (harmful : ¬ s.SubmitFailsHarmlessly e) (stepped : s.step n e = some s') :
    ¬ s'.NoLostSubmit n := by
  cases e with
  | publish l result =>
      simp only [SubmitFailsHarmlessly, EventLoop.FailsHarmlessly, Classical.not_imp,
        not_or] at harmful
      obtain ⟨here, noThread, ⟨errno, rfl⟩, unset, waiting⟩ := harmful
      intro good
      obtain ⟨-, transition⟩ := step_transition stepped
      cases transition with
      | swap lt busy => rw [here] at busy; cases busy
      | noSwap lt busy => rw [here] at busy; cases busy
      | lockSubmit lt busy => rw [here] at busy; cases busy
      | unlockSubmit lt busy => rw [here] at busy; cases busy
      | @submit _ _ ret e lt busy done =>
          have alone := (locked l).publisher_alone here rfl
          have thread : e.sqPoll = (s.loops l).engine.sqPoll := by
            obtain ⟨_, _, -, rfl, -⟩ := Engine.submit_spec done
            rfl
          rcases Engine.submit_noThread noThread done with ⟨k, failed, -⟩ | ⟨-, -, -, same⟩
          · cases failed
          have after := good l lt
          simp only [setLoop, Function.update_self] at after
          rcases after (thread.trans noThread) (fun empty => waiting (same.symm.trans empty)) with
            set | ⟨k, held⟩ | wants | locks
          · exact unset set
          · exact alone k held
          · cases wants
          · cases locks
  | _ => exact absurd trivial harmful

/-- **A submit is lost exactly when it fails with the flag at 0.**  Along any run in
which each `Submit` on a ring without an SQ thread reads all that is queued or
fails with `EBUSY` or `EAGAIN`, no state has SQEs in its queue that nobody is going
to submit if and only if no `Submit` failed with SQEs in the queue and `needSubmit`
not set again. -/
theorem reactor_no_lost_submit_iff (n : ℕ) (rings : ℕ → ReactorRing false)
    {p : List (EventReactor × ReactorEvent)} {s : EventReactor}
    (path : Runs.Path (step n) (start rings) p s)
    (fair : ∀ x ∈ p, x.1.SubmitsAllOrBusy x.2) :
    (∀ t ∈ Runs.visited p s, t.NoLostSubmit n) ↔ ∀ x ∈ p, x.1.SubmitFailsHarmlessly x.2 := by
  refine path.exact (SubmitSafe n) (fun _ => True) (NoLostSubmit n) SubmitsAllOrBusy
    SubmitFailsHarmlessly (submitSafe_start rings n) ?_ ?_ ?_ (fun _ _ => trivial) fair
  · intro s safe _ l _
    exact (safe.flagged l).noLost
  · intro s e s' safe _ _ fair harmless stepped
    exact safe.step fair harmless stepped
  · intro s e s' safe _ _ _ harmful stepped
    exact lost_of_failure safe.locked harmful stepped

/-- Call `k` is `Queue(Nop)`, from its first step to its last. -/
def queueNop (k : ℕ) : List ReactorEvent :=
  [.queue k nopOp 0, .draw k, .call k 0, .call k 0, .call k 0, .call k 0, .call k 0]

/-- The next step of the publisher, if it submits with a kernel that is busy. -/
def publishBusy : ReactorEvent := .publish 0 (.failed .ebusy)

/-- One call, and a submit that fails. -/
def busyOnce : List ReactorEvent :=
  queueNop 0 ++ [.signal 0, publishBusy, publishBusy, publishBusy, publishBusy]

/-- One call; a second one between the publisher's swap and its submit, which
fails. -/
def busyAfterSecond : List ReactorEvent :=
  queueNop 0 ++ [.signal 0, publishBusy] ++ queueNop 1 ++ [publishBusy, publishBusy, publishBusy]

/-- A kernel that is always busy is a fair one. -/
theorem fair_of_busy {s₀ : EventReactor} {es : List ReactorEvent}
    (busy : ∀ l result, .publish l result ∈ es → result = .failed .ebusy) :
    ∀ x ∈ Runs.record (step n) s₀ es, x.1.SubmitsAllOrBusy x.2 := by
  rintro ⟨s, e⟩ mem
  have given := Runs.mem_of_mem_record es mem
  cases e with
  | publish l result =>
      obtain rfl := busy l result given
      exact fun _ _ => Or.inl rfl
  | _ => trivial

/-- The equivalence at a run whose failing submit is made good by a second call. -/
theorem reactor_no_lost_submit_iff_second_call :
    ∃ p s, Runs.Path (step 1) (start (twoSlots false)) p s ∧
      (s.loops 0).engine.sq.pending.length = 2 ∧ (s.loops 0).needSubmit = 1 ∧
      ((∀ t ∈ Runs.visited p s, t.NoLostSubmit 1) ↔
        ∀ x ∈ p, x.1.SubmitFailsHarmlessly x.2) :=
  ⟨_, _, Runs.path_record busyAfterSecond rfl, rfl, rfl,
    reactor_no_lost_submit_iff 1 (twoSlots false) (Runs.path_record busyAfterSecond rfl)
      (fair_of_busy (by simp [busyAfterSecond, queueNop, publishBusy]))⟩

/-- A loop at rest with the flag at 0 submits nothing. -/
theorem lost_at_rest {l : ℕ} (lt : l < n) (noThread : (s.loops l).engine.sqPoll = false)
    (waiting : (s.loops l).engine.sq.pending ≠ []) (unset : (s.loops l).needSubmit = 0)
    (free : (s.loops l).queueSQELock = none)
    (rest : (s.loops l).shell.publisher = .select) : ¬ s.NoLostSubmit n := by
  intro good
  rcases good l lt noThread waiting with set | ⟨k, held⟩ | busy | busy
  · rw [unset] at set
    cases set
  · rw [free] at held
    cases held
  · rw [rest] at busy
    cases busy
  · rw [rest] at busy
    cases busy

/-- **The kernel is busy, and the submit is lost.** -/
theorem reactor_busy_submit_is_lost :
    ∃ p s, Runs.Path (step 1) (start (twoSlots false)) p s ∧
      (∀ x ∈ p, x.1.SubmitsAllOrBusy x.2) ∧ (s.loops 0).engine.sq.pending.length = 1 ∧
      (s.loops 0).needSubmit = 0 ∧ ¬ s.NoLostSubmit 1 :=
  ⟨_, _, Runs.path_record busyOnce rfl,
    fair_of_busy (by simp [busyOnce, queueNop, publishBusy]), rfl, rfl,
    lost_at_rest Nat.one_pos rfl (List.ne_nil_of_length_pos Nat.one_pos) rfl rfl rfl⟩

end EventReactor

end GoUring.Reactor
