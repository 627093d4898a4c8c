import GoUring.Reactor.EventReactor

/-!
# The loops of a generic reactor, one at a time

Every step of a generic reactor is about one of its loops: a call of
`ringEventLoop.Queue` works on the loop of its job, and so do the publisher, the
consumer and the kernel.  `view` is what belongs to one loop, the loop itself and
the calls that are in its `Queue`; `Move` says what a step can do to the loop it
is about, and `step_move` that it does nothing to the others.  An invariant of
the loops is then proved on moves (`views_step`).

The first such invariant is mutual exclusion: whoever is past
`queueSQELock.Lock()` and not past the unlock is the one the lock names, so there
is at most one of them (`LoopView.Locked`).
-/

namespace GoUring.Reactor

open Uring

/-- A loop, and the calls that are in its `Queue`. -/
@[ext]
structure LoopView where
  loop : EventLoop
  active : ℕ → Option (Job × QueueStage)

/-- The call, if it is in the `Queue` of loop `l`. -/
def Call.activeAt (n l : ℕ) : Call → Option (Job × QueueStage)
  | .active job stage => if job.loop n = l then some (job, stage) else none
  | _ => none

/-- A call that has ended is in no `Queue`. -/
theorem QueueStage.activeAt_ending {job : Job} {stage : QueueStage} {call : Call}
    (last : stage.ending job = some call) (n l : ℕ) : call.activeAt n l = none := by
  cases stage with
  | failed | registered | panicking =>
      cases last
      rfl
  | _ => cases last

/-- Whoever is at its unlock has the lock. -/
theorem QueueStage.holds_of_ending {job : Job} {stage : QueueStage} {call : Call}
    (last : stage.ending job = some call) : stage.holds = true := by
  cases stage with
  | want => cases last
  | _ => rfl

/-- From `v` to `v'` nobody takes the lock or lets it go, nothing is queued or
submitted, and no callback is added. -/
structure LoopView.Quiet (v v' : LoopView) : Prop where
  lock : v'.loop.queueSQELock = v.loop.queueSQELock
  flag : v'.loop.needSubmit = v.loop.needSubmit
  active : v'.active = v.active
  callbacks : ∀ nonce k, v'.loop.callbacks nonce = some k → v.loop.callbacks nonce = some k
  /-- The publisher may get to its compare-and-swap, and from there back. -/
  publisher : ∀ stage, stage ≠ .cas →
    (v'.loop.shell.publisher = .busy stage ↔ v.loop.shell.publisher = .busy stage)
  ring : v.loop.engine.Undisturbed v'.loop.engine

/-- What a step can do to the loop it is about. -/
inductive Move (n l : ℕ) (v : LoopView) : ReactorEvent → LoopView → Prop
  | quiet {e : ReactorEvent} {v' : LoopView} (quiet : v.Quiet v') : Move n l v e v'
  /-- A call gets to `ringEventLoop.Queue`. -/
  | enter {e : ReactorEvent} {k : ℕ} {job : Job} (home : job.loop n = l)
      (away : v.active k = none) :
      Move n l v e { v with active := Function.update v.active k (some (job, .want)) }
  | lock {k : ℕ} {spec : UInt64} {job : Job} (home : job.loop n = l)
      (here : v.active k = some (job, .want)) (free : v.loop.queueSQELock = none) :
      Move n l v (.call k spec)
        { loop := { v.loop with queueSQELock := some (.caller k) }
          active := Function.update v.active k (some (job, .locked)) }
  | flag {k : ℕ} {spec : UInt64} {job : Job} (home : job.loop n = l)
      (here : v.active k = some (job, .locked)) :
      Move n l v (.call k spec)
        { loop := { v.loop with needSubmit := 1 }
          active := Function.update v.active k (some (job, .flagged)) }
  | queueOp {k : ℕ} {spec : UInt64} {job : Job} {err : Option RingError} {e : Engine}
      (home : job.loop n = l) (here : v.active k = some (job, .flagged))
      (done : v.loop.engine.queueSQE job.req.op (EventReactor.opFlags job.req)
        job.req.userData = some (err, e)) :
      Move n l v (.call k spec)
        { loop := v.loop.withEngine e
          active := Function.update v.active k
            (some (job, EventReactor.afterQueueSQE job.req err)) }
  /-- A call panics in the slot it was handed. -/
  | abandon {k : ℕ} {spec : UInt64} {job : Job} (home : job.loop n = l)
      (here : v.active k = some (job, .flagged))
      (panics : v.loop.engine.queueSQE job.req.op (EventReactor.opFlags job.req)
        job.req.userData = none) :
      Move n l v (.call k spec)
        { loop := v.loop.withEngine v.loop.engine.abandonSQE
          active := Function.update v.active k (some (job, .panicking)) }
  | link {k : ℕ} {spec : UInt64} {job : Job} {err : Option RingError} {e : Engine}
      (home : job.loop n = l) (here : v.active k = some (job, .linking))
      (done : v.loop.engine.queueSQE (linkTimeoutOp spec) 0 timeoutNonce = some (err, e)) :
      Move n l v (.call k spec)
        { loop := v.loop.withEngine e
          active := Function.update v.active k (some (job, .queued)) }
  | register {k : ℕ} {spec : UInt64} {job : Job} (home : job.loop n = l)
      (here : v.active k = some (job, .queued)) :
      Move n l v (.call k spec)
        { loop :=
            { v.loop with
              callbacks := Function.update v.loop.callbacks job.req.userData (job.cb k) }
          active := Function.update v.active k (some (job, .registered)) }
  /-- A call lets the lock go and ends. -/
  | leave {k : ℕ} {spec : UInt64} {job : Job} {stage : QueueStage} {call : Call}
      (home : job.loop n = l) (here : v.active k = some (job, stage))
      (last : stage.ending job = some call) :
      Move n l v (.call k spec)
        { loop := { v.loop with queueSQELock := none }
          active := Function.update v.active k none }
  | swap {result : EnterResult} (here : v.loop.shell.publisher = .busy .cas)
      (set : v.loop.needSubmit = 1) :
      Move n l v (.publish l result)
        { v with loop := { v.loop.publish (.busy .wantLock) with needSubmit := 0 } }
  | lockSubmit {result : EnterResult} (here : v.loop.shell.publisher = .busy .wantLock)
      (free : v.loop.queueSQELock = none) :
      Move n l v (.publish l result)
        { v with
          loop := { v.loop.publish (.busy .locked) with queueSQELock := some .publisher } }
  | submit {result : EnterResult} {ret : Except RingError ℕ} {e : Engine}
      (here : v.loop.shell.publisher = .busy .locked)
      (done : v.loop.engine.submit result = some (ret, e)) :
      Move n l v (.publish l result)
        { v with loop := (v.loop.withEngine e).publish (.busy .unlock) }
  | unlockSubmit {result : EnterResult} (here : v.loop.shell.publisher = .busy .unlock) :
      Move n l v (.publish l result)
        { v with loop := { v.loop.publish .select with queueSQELock := none } }

namespace EventReactor

/-- What belongs to loop `l` of `n`. -/
def view (n : ℕ) (s : EventReactor) (l : ℕ) : LoopView where
  loop := s.loops l
  active k := (s.calls k).activeAt n l

section Views

variable {n l k : ℕ} {s s' : EventReactor} {loop : EventLoop} {call : Call} {job : Job}
  {stage : QueueStage}

theorem active_eq_some :
    (s.view n l).active k = some (job, stage) ↔
      s.calls k = .active job stage ∧ job.loop n = l := by
  show (s.calls k).activeAt n l = some (job, stage) ↔ _
  cases s.calls k with
  | active job' stage' =>
      simp only [Call.activeAt, Option.ite_none_right_eq_some, Option.some.injEq, Prod.mk.injEq,
        Call.active.injEq]
      constructor
      · rintro ⟨home, rfl, rfl⟩
        exact ⟨⟨rfl, rfl⟩, home⟩
      · rintro ⟨⟨rfl, rfl⟩, home⟩
        exact ⟨home, rfl, rfl⟩
  | _ => simp [Call.activeAt]

theorem activeAt_home (job : Job) (stage : QueueStage) (n : ℕ) :
    (Call.active job stage).activeAt n (job.loop n) = some (job, stage) :=
  if_pos rfl

theorem activeAt_away (other : l ≠ job.loop n) :
    (Call.active job stage).activeAt n l = none :=
  if_neg other.symm

/-- The view of the loop that is replaced. -/
theorem view_loop (calls : s'.calls = s.calls)
    (loops : s'.loops = Function.update s.loops l loop) :
    s'.view n l = { s.view n l with loop := loop } := by
  simp only [view, loops, calls, Function.update_self]

/-- The views of the loops that are not replaced. -/
theorem view_loop_of_ne (calls : s'.calls = s.calls)
    (loops : s'.loops = Function.update s.loops l loop) (l' : ℕ) (other : l' ≠ l) :
    s'.view n l' = s.view n l' := by
  simp only [view, loops, calls, Function.update_of_ne other]

/-- The view of the loop that a call works on. -/
theorem view_call (calls : s'.calls = Function.update s.calls k call)
    (loops : s'.loops = Function.update s.loops l loop) :
    s'.view n l =
      { loop := loop
        active := Function.update (s.view n l).active k (call.activeAt n l) } := by
  refine LoopView.ext ?_ ?_
  · simp only [view, loops, Function.update_self]
  · funext j
    by_cases this : j = k
    · subst this
      simp only [view, calls, Function.update_self]
    · simp only [view, calls, Function.update_of_ne this]

/-- A call is at most in the `Queue` of its own loop. -/
theorem view_call_of_ne (calls : s'.calls = Function.update s.calls k call) {l' : ℕ}
    (loops : s'.loops l' = s.loops l')
    (before : (s.calls k).activeAt n l' = none) (after : call.activeAt n l' = none) :
    s'.view n l' = s.view n l' := by
  refine LoopView.ext loops ?_
  funext j
  by_cases this : j = k
  · subst this
    simp only [view, calls, Function.update_self, before, after]
  · simp only [view, calls, Function.update_of_ne this]

end Views

variable {n : ℕ} {s s' : EventReactor} {e : ReactorEvent}

/-- What a step does, as seen from the loops: nothing, or a move of one of them. -/
def MovesOne (n : ℕ) (s : EventReactor) (e : ReactorEvent) (s' : EventReactor) : Prop :=
  (∀ l, s'.view n l = s.view n l) ∨
    ∃ l, Move n l (s.view n l) e (s'.view n l) ∧ ∀ l', l' ≠ l → s'.view n l' = s.view n l'

/-- A step of a call on the loop of its job. -/
theorem movesOne_call {k : ℕ} {job : Job} {stage : QueueStage} {call : Call} {loop : EventLoop}
    (here : s.calls k = .active job stage)
    (calls : s'.calls = Function.update s.calls k call)
    (loops : s'.loops = Function.update s.loops (job.loop n) loop)
    (away : ∀ l, l ≠ job.loop n → call.activeAt n l = none)
    (move : Move n (job.loop n) (s.view n (job.loop n)) e
      { loop := loop
        active := Function.update (s.view n (job.loop n)).active k
          (call.activeAt n (job.loop n)) }) : MovesOne n s e s' := by
  refine Or.inr ⟨job.loop n, ?_, fun l other => ?_⟩
  · rw [view_call calls loops]
    exact move
  · refine view_call_of_ne calls ?_ ?_ (away l other)
    · rw [loops, Function.update_of_ne other]
    · rw [here]
      exact activeAt_away other

/-- A call that goes from one stage to the next. -/
theorem movesOne_stage {k : ℕ} {job : Job} {stage stage' : QueueStage} {loop : EventLoop}
    (here : s.calls k = .active job stage)
    (calls : s'.calls = Function.update s.calls k (.active job stage'))
    (loops : s'.loops = Function.update s.loops (job.loop n) loop)
    (move : Move n (job.loop n) (s.view n (job.loop n)) e
      { loop := loop
        active := Function.update (s.view n (job.loop n)).active k (some (job, stage')) }) :
    MovesOne n s e s' := by
  refine movesOne_call here calls loops (fun l other => activeAt_away other) ?_
  rw [activeAt_home]
  exact move

/-- A call that was not in a `Queue` before. -/
theorem movesOne_enter {k : ℕ} {job : Job} (away : ∀ l, (s.calls k).activeAt n l = none)
    (calls : s'.calls = Function.update s.calls k (.active job .want))
    (loops : s'.loops = s.loops) : MovesOne n s e s' := by
  refine Or.inr ⟨job.loop n, ?_, fun l other => ?_⟩
  · have same : s'.loops = Function.update s.loops (job.loop n) (s.loops (job.loop n)) := by
      rw [loops, Function.update_eq_self]
    rw [view_call calls same, activeAt_home]
    exact .enter rfl (away _)
  · exact view_call_of_ne calls (by rw [loops]) (away l) (activeAt_away other)

/-- A step of a publisher, a consumer or the kernel. -/
theorem movesOne_loop {l : ℕ} {loop : EventLoop} (calls : s'.calls = s.calls)
    (loops : s'.loops = Function.update s.loops l loop)
    (move : Move n l (s.view n l) e { s.view n l with loop := loop }) : MovesOne n s e s' := by
  refine Or.inr ⟨l, ?_, view_loop_of_ne calls loops⟩
  rw [view_loop calls loops]
  exact move

/-- A step that leaves the lock, the flag and the submission queue alone. -/
theorem movesOne_quiet {l : ℕ} {loop : EventLoop} (calls : s'.calls = s.calls)
    (loops : s'.loops = Function.update s.loops l loop)
    (quiet : (s.view n l).Quiet { s.view n l with loop := loop }) : MovesOne n s e s' :=
  movesOne_loop calls loops (.quiet quiet)

/-- **Every step moves at most one loop.** -/
theorem step_move (stepped : s.step n e = some s') : MovesOne n s e s' := by
  obtain ⟨-, transition⟩ := step_transition stepped
  cases transition with
  | queue here =>
      refine Or.inl fun l => view_call_of_ne rfl rfl ?_ rfl
      rw [here]
      rfl
  | cancel here => exact movesOne_enter (fun l => by rw [here]; rfl) rfl rfl
  | skip => exact Or.inl fun _ => rfl
  | draw here => exact movesOne_enter (fun l => by rw [here]; rfl) rfl rfl
  | noLoop => exact Or.inl fun _ => rfl
  | lock _ here free =>
      exact movesOne_stage here rfl rfl (.lock rfl (active_eq_some.mpr ⟨here, rfl⟩) free)
  | flag _ here =>
      exact movesOne_stage here rfl rfl (.flag rfl (active_eq_some.mpr ⟨here, rfl⟩))
  | queueOp _ here done =>
      exact movesOne_stage here rfl rfl (.queueOp rfl (active_eq_some.mpr ⟨here, rfl⟩) done)
  | link _ here done =>
      exact movesOne_stage here rfl rfl (.link rfl (active_eq_some.mpr ⟨here, rfl⟩) done)
  | register _ here =>
      exact movesOne_stage here rfl rfl (.register rfl (active_eq_some.mpr ⟨here, rfl⟩))
  | abandon _ here panics =>
      exact movesOne_stage here rfl rfl (.abandon rfl (active_eq_some.mpr ⟨here, rfl⟩) panics)
  | @leave k spec job stage call _ here last =>
      have gone := QueueStage.activeAt_ending last
      refine movesOne_call here rfl rfl (fun l _ => gone n l) ?_
      rw [gone]
      exact .leave rfl (active_eq_some.mpr ⟨here, rfl⟩) last
  | signalClosed => exact Or.inl fun _ => rfl
  | signal lt here publisher =>
      refine movesOne_quiet rfl rfl ⟨rfl, rfl, rfl, fun _ _ found => found, ?_, ?_⟩
      · intro stage other
        constructor
        · intro busy
          cases busy
          exact absurd rfl other
        · intro busy
          rw [show (s.view n _).loop.shell.publisher = .select from publisher] at busy
          cases busy
      · refine .of_sq rfl rfl (Engine.carried_goto ?_ _ rfl).le
        show (s.loops _).engine.pc.taken = 0
        rw [here]
        rfl
  | swap lt here set => exact movesOne_loop rfl rfl (.swap here set)
  | noSwap lt here unset =>
      refine movesOne_quiet rfl rfl ⟨rfl, rfl, rfl, fun _ _ found => found, ?_,
        .of_sq rfl rfl le_rfl⟩
      intro stage other
      constructor
      · intro busy
        cases busy
      · intro busy
        rw [show (s.view n _).loop.shell.publisher = .busy .cas from here] at busy
        cases busy
        exact absurd rfl other
  | lockSubmit lt here free => exact movesOne_loop rfl rfl (.lockSubmit here free)
  | submit lt here done => exact movesOne_loop rfl rfl (.submit here done)
  | unlockSubmit lt here => exact movesOne_loop rfl rfl (.unlockSubmit here)
  | consumer lt done =>
      exact movesOne_quiet rfl rfl ⟨rfl, rfl, rfl, fun _ _ found => found, fun _ _ => Iff.rfl,
        Engine.consumerStep_undisturbed done⟩
  | passOver lt taken reserved =>
      exact movesOne_quiet rfl rfl ⟨rfl, rfl, rfl, fun _ _ found => found, fun _ _ => Iff.rfl,
        Engine.take_undisturbed taken⟩
  | @deliver l k cqe e lt taken request found =>
      refine movesOne_quiet rfl rfl ⟨rfl, rfl, rfl, fun nonce j there => ?_, fun _ _ => Iff.rfl,
        Engine.take_undisturbed taken⟩
      change Function.update (s.loops l).callbacks cqe.userData none nonce = some j at there
      by_cases this : nonce = cqe.userData
      · subst this
        rw [Function.update_self] at there
        cases there
      · rw [Function.update_of_ne this] at there
        exact there
  | missing => exact Or.inl fun _ => rfl
  | kernel lt done =>
      exact movesOne_quiet rfl rfl ⟨rfl, rfl, rfl, fun _ _ found => found, fun _ _ => Iff.rfl,
        Engine.kernelStep_undisturbed done⟩
  | stop done =>
      obtain ⟨carried, sq, thread, busy⟩ := stopStep_frame done
      exact movesOne_quiet rfl rfl ⟨rfl, rfl, rfl, fun _ _ found => found,
        fun stage _ => busy stage, .of_sq sq thread carried.le⟩

/-- **What every move keeps, every step keeps.** -/
theorem views_step {I : ℕ → LoopView → Prop} (inv : ∀ l, I l (s.view n l))
    (kept : ∀ l v', Move n l (s.view n l) e v' → I l v')
    (stepped : s.step n e = some s') (l : ℕ) : I l (s'.view n l) := by
  rcases step_move stepped with same | ⟨l', move, others⟩
  · rw [same]
    exact inv l
  · by_cases this : l = l'
    · subst this
      exact kept l _ move
    · rw [others l this]
      exact inv l

end EventReactor

/-! ## Mutual exclusion -/

namespace LoopView

/-- **Whoever is inside `queueSQELock` holds it.** -/
structure Locked (v : LoopView) : Prop where
  callers : ∀ k job stage, v.active k = some (job, stage) → stage.holds = true →
    v.loop.queueSQELock = some (.caller k)
  publisher : ∀ stage, v.loop.shell.publisher = .busy stage → stage.holds = true →
    v.loop.queueSQELock = some .publisher

variable {v : LoopView} {loop : EventLoop} {k : ℕ} {a : Option (Job × QueueStage)}

theorem active_update {j : ℕ} {x : Job × QueueStage}
    (here : Function.update v.active k a j = some x) :
    (j = k ∧ a = some x) ∨ (j ≠ k ∧ v.active j = some x) := by
  by_cases this : j = k
  · subst this
    rw [Function.update_self] at here
    exact Or.inl ⟨rfl, here⟩
  · rw [Function.update_of_ne this] at here
    exact Or.inr ⟨this, here⟩

/-- A call moves on; it may take the lock if it is free, and let it go if it has
it. -/
theorem Locked.call (locked : v.Locked)
    (others : ∀ h, h ≠ .caller k → v.loop.queueSQELock = some h → loop.queueSQELock = some h)
    (publisher : loop.shell.publisher = v.loop.shell.publisher)
    (mine : ∀ job stage, a = some (job, stage) → stage.holds = true →
      loop.queueSQELock = some (.caller k)) :
    Locked { loop := loop, active := Function.update v.active k a } where
  callers := by
    intro j job stage here holds
    rcases active_update here with ⟨rfl, new⟩ | ⟨other, old⟩
    · exact mine job stage new holds
    · refine others (.caller j) ?_ (locked.callers j job stage old holds)
      rintro ⟨⟩
      exact other rfl
  publisher := by
    intro stage busy holds
    rw [publisher] at busy
    exact others .publisher (by rintro ⟨⟩) (locked.publisher stage busy holds)

/-- The publisher moves on. -/
theorem Locked.publish (locked : v.Locked)
    (others : ∀ k, v.loop.queueSQELock = some (.caller k) →
      loop.queueSQELock = some (.caller k))
    (mine : ∀ stage, loop.shell.publisher = .busy stage → stage.holds = true →
      loop.queueSQELock = some .publisher) : Locked { v with loop := loop } where
  callers := fun k job stage here holds => others k (locked.callers k job stage here holds)
  publisher := mine

/-- A call inside the lock keeps all others out. -/
theorem Locked.others_out (locked : v.Locked) {job : Job} {stage : QueueStage}
    (here : v.active k = some (job, stage)) (holds : stage.holds = true) {h : LockHolder}
    (other : h ≠ .caller k) : v.loop.queueSQELock ≠ some h := by
  intro held
  rw [locked.callers k job stage here holds] at held
  exact other (Option.some.inj held).symm

/-- **Every move keeps mutual exclusion.** -/
theorem Locked.move {n l : ℕ} {e : ReactorEvent} {v' : LoopView} (locked : v.Locked)
    (move : Move n l v e v') : v'.Locked := by
  cases move with
  | quiet quiet =>
      refine ⟨fun k job stage here holds => ?_, fun stage busy holds => ?_⟩
      · rw [quiet.active] at here
        rw [quiet.lock]
        exact locked.callers k job stage here holds
      · have inside : stage ≠ .cas := by
          rintro rfl
          cases holds
        rw [quiet.lock]
        exact locked.publisher stage ((quiet.publisher stage inside).mp busy) holds
  | enter home away =>
      refine locked.call (fun _ _ held => held) rfl ?_
      rintro job stage ⟨⟩ holds
      cases holds
  | lock home here free =>
      refine locked.call (fun h _ held => ?_) rfl fun _ _ _ _ => rfl
      rw [free] at held
      cases held
  | flag home here =>
      exact locked.call (fun _ _ held => held) rfl
        fun _ _ _ _ => locked.callers _ _ _ here rfl
  | queueOp home here done =>
      exact locked.call (fun _ _ held => held) rfl
        fun _ _ _ _ => locked.callers _ _ _ here rfl
  | link home here done =>
      exact locked.call (fun _ _ held => held) rfl
        fun _ _ _ _ => locked.callers _ _ _ here rfl
  | register home here =>
      exact locked.call (fun _ _ held => held) rfl
        fun _ _ _ _ => locked.callers _ _ _ here rfl
  | abandon home here panics =>
      exact locked.call (fun _ _ held => held) rfl
        fun _ _ _ _ => locked.callers _ _ _ here rfl
  | leave home here last =>
      refine locked.call (fun h other held => ?_) rfl fun _ _ gone => by cases gone
      exact absurd held (locked.others_out here (QueueStage.holds_of_ending last) other)
  | swap here set =>
      refine locked.publish (fun _ held => held) ?_
      rintro stage ⟨⟩ holds
      cases holds
  | lockSubmit here free =>
      refine locked.publish (fun k held => ?_) fun _ _ _ => rfl
      rw [free] at held
      cases held
  | submit here done =>
      exact locked.publish (fun _ held => held) fun _ _ _ => locked.publisher _ here rfl
  | unlockSubmit here =>
      refine locked.publish (fun k held => ?_) ?_
      · rw [locked.publisher _ here rfl] at held
        cases held
      · rintro stage ⟨⟩

/-- **Who holds `queueSQELock` is inside it.** -/
structure Inside (v : LoopView) : Prop where
  callers : ∀ k, v.loop.queueSQELock = some (.caller k) →
    ∃ job stage, v.active k = some (job, stage) ∧ stage.holds = true
  publisher : v.loop.queueSQELock = some .publisher →
    ∃ stage, v.loop.shell.publisher = .busy stage ∧ stage.holds = true

/-- A call moves on inside the lock, or into it. -/
theorem Inside.call (inside : v.Inside) {job : Job} {stage : QueueStage}
    (lock : ∀ h, loop.queueSQELock = some h → h = .caller k ∨ v.loop.queueSQELock = some h)
    (publisher : loop.shell.publisher = v.loop.shell.publisher) (holds : stage.holds = true) :
    Inside { loop := loop, active := Function.update v.active k (some (job, stage)) } where
  callers := by
    intro j held
    by_cases this : j = k
    · subst this
      exact ⟨job, stage, Function.update_self _ _ _, holds⟩
    · rcases lock _ held with ⟨⟨⟩⟩ | held
      · exact absurd rfl this
      · obtain ⟨job, stage, here, holds⟩ := inside.callers j held
        exact ⟨job, stage, (Function.update_of_ne this _ _).trans here, holds⟩
  publisher := by
    intro held
    rcases lock _ held with ⟨⟨⟩⟩ | held
    rw [publisher]
    exact inside.publisher held

/-- The lock is free. -/
theorem inside_of_free (free : loop.queueSQELock = none) {active : ℕ → Option (Job × QueueStage)} :
    Inside { loop := loop, active := active } where
  callers := fun k held => by
    rw [free] at held
    cases held
  publisher := fun held => by
    rw [free] at held
    cases held

theorem holds_afterQueueSQE (req : SubSqeRequest) (err : Option RingError) :
    (EventReactor.afterQueueSQE req err).holds = true := by
  cases err with
  | some err => rfl
  | none =>
      simp only [EventReactor.afterQueueSQE]
      split
      · rfl
      · rfl

theorem Inside.move {n l : ℕ} {e : ReactorEvent} {v' : LoopView} (inside : v.Inside)
    (move : Move n l v e v') : v'.Inside := by
  have same : ∀ {k : ℕ} (h : LockHolder), v.loop.queueSQELock = some h →
      h = .caller k ∨ v.loop.queueSQELock = some h := fun _ held => Or.inr held
  cases move with
  | quiet quiet =>
      refine ⟨fun k held => ?_, fun held => ?_⟩
      · rw [quiet.lock] at held
        rw [quiet.active]
        exact inside.callers k held
      · rw [quiet.lock] at held
        obtain ⟨stage, busy, holds⟩ := inside.publisher held
        have past : stage ≠ .cas := by
          rintro rfl
          cases holds
        exact ⟨stage, (quiet.publisher stage past).mpr busy, holds⟩
  | @enter _ k job home away =>
      refine ⟨fun j held => ?_, inside.publisher⟩
      obtain ⟨job, stage, here, holds⟩ := inside.callers j held
      have other : j ≠ k := by
        rintro rfl
        rw [away] at here
        cases here
      exact ⟨job, stage, (Function.update_of_ne other _ _).trans here, holds⟩
  | lock home here free =>
      refine inside.call (fun h held => Or.inl ?_) rfl rfl
      exact (Option.some.inj held).symm
  | flag home here => exact inside.call same rfl rfl
  | queueOp home here done => exact inside.call same rfl (holds_afterQueueSQE _ _)
  | abandon home here panics => exact inside.call same rfl rfl
  | link home here done => exact inside.call same rfl rfl
  | register home here => exact inside.call same rfl rfl
  | leave home here last => exact inside_of_free rfl
  | swap here set =>
      refine ⟨inside.callers, fun held => ?_⟩
      obtain ⟨stage, busy, holds⟩ := inside.publisher held
      rw [here] at busy
      cases busy
      cases holds
  | lockSubmit here free =>
      refine ⟨fun k held => ?_, fun _ => ⟨.locked, rfl, rfl⟩⟩
      cases held
  | submit here done => exact ⟨inside.callers, fun _ => ⟨.unlock, rfl, rfl⟩⟩
  | unlockSubmit here => exact inside_of_free rfl

end LoopView

namespace EventReactor

theorem inside_start (rings : ℕ → ReactorRing false) (n l : ℕ) :
    ((start rings).view n l).Inside := LoopView.inside_of_free rfl

theorem locked_start (rings : ℕ → ReactorRing false) (n l : ℕ) :
    ((start rings).view n l).Locked where
  callers := fun _ _ _ here => by cases here
  publisher := fun _ busy => by cases busy

end EventReactor

end GoUring.Reactor
