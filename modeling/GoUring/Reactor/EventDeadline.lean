import GoUring.Reactor.EventMoves

/-!
# Requests with a deadline in a generic reactor

`ringEventLoop.Queue` of a timed request takes two slots of the submission queue one
after the other: the operation, with `SqeIOLinkFlag`, and the link timeout that the flag
ties it to.  It ignores the error of the second `QueueSQE`.  With exactly one free slot
the operation goes in alone, its link flag tied to whatever is queued next, and the call
returns nil.  The network reactor does look at the second error.

* `EventLoop.queue` is the function with nobody in between but the SQ thread, and
  `EventReactor.queue_runs` says that the step function does what it says.
  `EventLoop.queue_allOrNothing_iff`: a timed call is all-or-nothing exactly if its
  `PrepSQE` does not panic and, if just one slot is free, the thread frees another one
  between the two `QueueSQE`.
* Over a run the SQEs queued are noted down (`placed`).  If every link timeout finds
  room and no `PrepSQE` panics, every SQE with the link flag is followed by the link
  timeout of its own call (`Ties.links`).  What holds this together is `queueSQELock`:
  nobody queues between the two.
-/

namespace GoUring.Uring

/-- The SQE is tied to the next one. -/
def SQEntry.IsLinked (sqe : SQEntry) : Prop := sqe.flags &&& sqeIOLinkFlag ≠ 0

instance (sqe : SQEntry) : Decidable sqe.IsLinked :=
  inferInstanceAs (Decidable (sqe.flags &&& sqeIOLinkFlag ≠ 0))

end GoUring.Uring

namespace GoUring.Reactor

open Uring

/-- The SQE is a link timeout of a reactor. -/
def IsLinkTimeout (sqe : SQEntry) : Prop :=
  sqe.opCode = OpCode.linkTimeout.toUInt8 ∧ sqe.userData = timeoutNonce

instance (sqe : SQEntry) : Decidable (IsLinkTimeout sqe) := inferInstanceAs (Decidable (_ ∧ _))

theorem isLinkTimeout_of_encode {spec : UInt64} {old sqe : SQEntry}
    (encoded : (linkTimeoutOp spec).encode 0 timeoutNonce old = some sqe) :
    IsLinkTimeout sqe ∧ ¬ sqe.IsLinked := by
  have flags := Operation.encode_flags encoded
  cases encoded
  refine ⟨⟨rfl, rfl⟩, fun linked => linked ?_⟩
  rw [flags]
  rfl

theorem Job.loop_lt {n : ℕ} (some_loop : 0 < n) (job : Job) : job.loop n < n := by
  cases job with
  | queue op timeout nonce small draw => exact Nat.mod_lt _ some_loop
  | cancel target => exact Nat.mod_lt _ some_loop

/-- No request of a reactor has flags of its own. -/
theorem Job.flags_req (job : Job) : job.req.flags = 0 := by
  cases job with
  | queue op timeout nonce small draw => rfl
  | cancel target => rfl

/-! ## One call -/

/-- How a call of `ringEventLoop.Queue` ends. -/
inductive QueueEnd
  | returned (err : Option RingError)
  /-- With the panic of a `PrepSQE`. -/
  | panicked
  deriving DecidableEq, Repr

/-- The call that has ended so. -/
def QueueEnd.call (job : Job) : QueueEnd → Call
  | .returned err => .returned job err
  | .panicked => .recovered job

namespace EventLoop

/-- The `QueueSQE` of an operation, to its end. -/
def queueOp (e : Engine) (req : SubSqeRequest) : QueueEnd × Engine :=
  match e.queueSQE req.op (EventReactor.opFlags req) req.userData with
  | some (err, e) => (.returned err, e)
  | none => (.panicked, e.abandonSQE)

/-- The `QueueSQE` calls of `ringEventLoop.Queue`; `reads` is how many SQEs the SQ thread
reads before the link timeout is queued. -/
def queueSQEs (e : Engine) (req : SubSqeRequest) (spec : UInt64) (reads : ℕ) :
    Option (QueueEnd × Engine) :=
  match queueOp e req with
  | (.returned none, e) =>
      if req.timeout = 0 then
        some (.returned none, e)
      else
        -- The error of the link timeout is ignored; its `PrepSQE` does not panic.
        (e.threadReads reads).bind fun e =>
          (e.queueSQE (linkTimeoutOp spec) 0 timeoutNonce).map fun (_, e) => (.returned none, e)
  | failed => some failed

/-- `ringEventLoop.Queue(req, cb)` with nobody in between but the SQ thread: how it ends,
and the loop afterwards. -/
def queue (loop : EventLoop) (req : SubSqeRequest) (cb : Option ℕ) (spec : UInt64)
    (reads : ℕ) : Option (QueueEnd × EventLoop) :=
  (queueSQEs loop.engine req spec reads).map fun (ends, e) =>
    let loop := { loop.withEngine e with needSubmit := 1 }
    match ends with
    | .returned none =>
        (.returned none,
          { loop with callbacks := Function.update loop.callbacks req.userData cb })
    | _ => (ends, loop)

/-- What a timed call should have done: return an error, and nothing that is seen outside;
or return nil, and all of it.  `reads` SQEs have left the queue in the meantime. -/
def AllOrNothing (loop loop' : EventLoop) (req : SubSqeRequest) (cb : Option ℕ)
    (reads : ℕ) (ends : QueueEnd) : Prop :=
  (∃ err, ends = .returned (some err) ∧
      loop'.engine.sq.pending = loop.engine.sq.pending ∧ loop'.callbacks = loop.callbacks) ∨
    (ends = .returned none ∧
      (∃ sqe timeout read, read.length = reads ∧
        loop.engine.sq.pending ++ [sqe, timeout] = read ++ loop'.engine.sq.pending ∧
        sqe.IsLinked ∧ sqe.userData = req.userData ∧ IsLinkTimeout timeout) ∧
      loop'.callbacks = Function.update loop.callbacks req.userData cb)

/-- The slots of the submission queue that are free. -/
def freeSlots (loop : EventLoop) : ℕ :=
  loop.engine.sq.entries - loop.engine.sq.pending.length

/-- What the two `QueueSQE` calls of a timed request come to. -/
inductive TimedOutcome (e : Engine) (req : SubSqeRequest) (reads : ℕ) :
    QueueEnd → Engine → Prop
  | full (full : e.sq.pending.length = e.sq.entries) (prepares : e.sq.sq.Prepares req.op) :
      TimedOutcome e req reads (.returned (some .sqOverflow)) e
  | panics (panics : ¬ e.sq.sq.Prepares req.op) :
      TimedOutcome e req reads .panicked e.abandonSQE
  /-- The operation takes the last slot, and the SQ thread frees none. -/
  | half {e' : Engine} {sqe : SQEntry} (prepares : e.sq.sq.Prepares req.op)
      (last : e.sq.pending.length + 1 = e.sq.entries) (idle : reads = 0)
      (pending : e'.sq.pending = e.sq.pending ++ [sqe]) :
      TimedOutcome e req reads (.returned none) e'
  | both {e' : Engine} {sqe timeout : SQEntry} {read : List SQEntry}
      (prepares : e.sq.sq.Prepares req.op)
      (room : e.sq.pending.length < e.sq.entries)
      (fits : e.sq.pending.length + 1 = e.sq.entries → reads ≠ 0)
      (linked : sqe.IsLinked) (userData : sqe.userData = req.userData)
      (own : IsLinkTimeout timeout) (length : read.length = reads)
      (pending : e.sq.pending ++ [sqe, timeout] = read ++ e'.sq.pending) :
      TimedOutcome e req reads (.returned none) e'

theorem queueSQEs_timed {e e' : Engine} {req : SubSqeRequest} {spec : UInt64} {reads : ℕ}
    {ends : QueueEnd} (timed : req.timeout ≠ 0)
    (queued : queueSQEs e req spec reads = some (ends, e')) :
    TimedOutcome e req reads ends e' := by
  rw [queueSQEs, queueOp] at queued
  cases op : e.queueSQE req.op (EventReactor.opFlags req) req.userData with
  | none =>
      rw [op] at queued
      cases queued
      exact .panics (Engine.queueSQE_panics_iff.mp op)
  | some result =>
      obtain ⟨first, mid⟩ := result
      have prepares : e.sq.sq.Prepares req.op := by
        by_contra panics
        rw [Engine.queueSQE_panics_iff.mpr panics] at op
        cases op
      rw [op] at queued
      rcases Engine.queueSQE_encoded op with
        ⟨full, rfl, rfl⟩ | ⟨room, rfl, old, sqe, encoded, pending, entries⟩
      · cases queued
        exact .full full prepares
      · simp only [if_neg timed] at queued
        obtain ⟨free, thread, queued⟩ := Option.bind_eq_some_iff.mp queued
        obtain ⟨⟨second, last⟩, link, queued⟩ := Option.map_eq_some_iff.mp queued
        cases queued
        obtain ⟨-, -, -, entries', read, length, front⟩ := Engine.threadReads_spec reads thread
        have linked : sqe.IsLinked := by
          rw [SQEntry.IsLinked, Operation.encode_flags encoded, EventReactor.opFlags,
            if_neg timed]
          exact isLinked_or req.flags
        have lengths := congrArg List.length (pending.symm.trans front)
        rw [List.length_append, List.length_singleton, List.length_append, length] at lengths
        rcases Engine.queueSQE_encoded link with
          ⟨full, -, rfl⟩ | ⟨more, -, old', timeout, encoded', pending', -⟩
        · -- The operation filled the queue, so the thread has read nothing.
          obtain rfl : reads = 0 := by omega
          obtain rfl := List.length_eq_zero_iff.mp length
          exact .half prepares (by omega) rfl (front.symm.trans pending)
        · refine .both prepares room (by omega) linked (Operation.encode_userData encoded)
            (isLinkTimeout_of_encode encoded').1 length ?_
          rw [pending', ← List.append_assoc, ← front, pending, List.append_assoc]
          rfl

/-- **When a timed call is all-or-nothing**: exactly if `PrepSQE` does not panic in a slot it
is handed, and not just one slot is free while the SQ thread reads nothing. -/
theorem queue_allOrNothing_iff {loop loop' : EventLoop} {req : SubSqeRequest} {cb : Option ℕ}
    {spec : UInt64} {reads : ℕ} {ends : QueueEnd} (timed : req.timeout ≠ 0)
    (queued : loop.queue req cb spec reads = some (ends, loop')) :
    AllOrNothing loop loop' req cb reads ends ↔
      loop.engine.sq.sq.Prepares req.op ∧ (loop.freeSlots = 1 → reads ≠ 0) := by
  obtain ⟨⟨ends', e⟩, sqes, done⟩ := Option.map_eq_some_iff.mp queued
  rw [freeSlots]
  cases queueSQEs_timed timed sqes with
  | full full prepares =>
      cases done
      exact iff_of_true (Or.inl ⟨_, rfl, rfl, rfl⟩) ⟨prepares, by omega⟩
  | panics panics =>
      cases done
      refine iff_of_false ?_ fun holds => panics holds.1
      rintro (⟨err, ⟨⟩, -⟩ | ⟨⟨⟩, -⟩)
  | @half _ sqe prepares last idle pending =>
      cases done
      refine iff_of_false ?_ fun holds => holds.2 (by omega) idle
      rintro (⟨err, ⟨⟩, -⟩ | ⟨-, ⟨op, timeout, read, length, both, -⟩, -⟩)
      -- One SQE was appended, and not two.
      change _ = read ++ e.sq.pending at both
      have lengths := congrArg List.length both
      rw [pending] at lengths
      simp only [List.length_append, List.length_cons, List.length_nil, length, idle] at lengths
      omega
  | @both _ sqe timeout read prepares room fits linked userData own length pending =>
      cases done
      exact iff_of_true
        (Or.inr ⟨rfl, ⟨sqe, timeout, read, length, pending, linked, userData, own⟩, rfl⟩)
        ⟨prepares, fun one => fits (by omega)⟩

/-- The lock and the flag are nothing to the SQEs and the callback. -/
theorem queue_frame {loop loop' : EventLoop} {req : SubSqeRequest} {cb : Option ℕ}
    {spec : UInt64} {reads : ℕ} {ends : QueueEnd}
    (queued : loop.queue req cb spec reads = some (ends, loop')) (lock : Option LockHolder)
    (flag : UInt32) :
    queue { loop with queueSQELock := lock, needSubmit := flag } req cb spec reads =
      some (ends, { loop' with queueSQELock := lock }) ∧
    loop'.queueSQELock = loop.queueSQELock := by
  obtain ⟨⟨ends', e⟩, sqes, done⟩ := Option.map_eq_some_iff.mp queued
  refine ⟨Option.map_eq_some_iff.mpr ⟨(ends', e), sqes, ?_⟩, ?_⟩
  · match ends', done with
    | .returned none, rfl | .returned (some _), rfl | .panicked, rfl => rfl
  · match ends', done with
    | .returned none, rfl | .returned (some _), rfl | .panicked, rfl => rfl

end EventLoop

namespace EventReactor

/-- The reactor with one loop and one call replaced. -/
def place (s : EventReactor) (l : ℕ) (loop : EventLoop) (k : ℕ) (call : Call) : EventReactor :=
  (s.setLoop l loop).setCall k call

theorem place_place (s : EventReactor) (l : ℕ) (loop loop' : EventLoop) (k : ℕ)
    (call call' : Call) :
    (s.place l loop k call).place l loop' k call' = s.place l loop' k call' := by
  simp only [place, setLoop, setCall, Function.update_idem]

@[simp] theorem loops_place (s : EventReactor) (l : ℕ) (loop : EventLoop) (k : ℕ) (call : Call) :
    (s.place l loop k call).loops l = loop := Function.update_self _ _ _

@[simp] theorem calls_place (s : EventReactor) (l : ℕ) (loop : EventLoop) (k : ℕ) (call : Call) :
    (s.place l loop k call).calls k = call := Function.update_self _ _ _

section Run

variable {n : ℕ} {s : EventReactor} {k l : ℕ} {job : Job} {spec : UInt64} {reads : ℕ}

/-- From `s` to `s'` only call `k` takes steps, and the SQ thread of loop `l`. -/
def RunsAlone (n : ℕ) (k l : ℕ) (spec : UInt64) (s s' : EventReactor) : Prop :=
  ∃ p, Runs.Path (step n) s p s' ∧ ∀ x ∈ p, x.2 = .call k spec ∨ x.2 = .kernel l .consume

theorem RunsAlone.refl (s : EventReactor) : RunsAlone n k l spec s s :=
  ⟨[], .nil, fun x mem => by cases mem⟩

theorem RunsAlone.cons {e : ReactorEvent} {s₁ s' : EventReactor}
    (mine : e = .call k spec ∨ e = .kernel l .consume) (first : s.step n e = some s₁)
    (rest : RunsAlone n k l spec s₁ s') : RunsAlone n k l spec s s' := by
  obtain ⟨p, path, alone⟩ := rest
  refine ⟨_, path.cons first, fun x mem => ?_⟩
  rcases List.mem_cons.mp mem with rfl | later
  · exact mine
  · exact alone x later

theorem RunsAlone.call {s₁ s' : EventReactor} (first : s.step n (.call k spec) = some s₁)
    (rest : RunsAlone n k l spec s₁ s') : RunsAlone n k l spec s s' :=
  .cons (Or.inl rfl) first rest

/-- The next step of a call of `Queue`. -/
theorem step_call {stage : QueueStage} (some_loop : 0 < n) (alive : s.panicked = none)
    (here : s.calls k = .active job stage) :
    s.step n (.call k spec) = s.callStep n k job spec stage := by
  simp only [step, alive, stepLive, here, if_true, Nat.ne_of_gt some_loop, if_false]

/-- The step of a call that does not wait and goes from one stage to another. -/
theorem step_place {loop loop' : EventLoop} {stage : QueueStage} {call : Call}
    (some_loop : 0 < n) (alive : s.panicked = none)
    (does : ∀ t : EventReactor, t.loops (job.loop n) = loop →
      t.callStep n k job spec stage = some (t.place (job.loop n) loop' k call)) :
    (s.place (job.loop n) loop k (.active job stage)).step n (.call k spec) =
      some (s.place (job.loop n) loop' k call) := by
  rw [step_call some_loop (show (s.place _ _ _ _).panicked = none from alive)
    (calls_place s (job.loop n) loop k (.active job stage)),
    does _ (loops_place s (job.loop n) loop k (.active job stage)), place_place]

/-- A call at its unlock ends. -/
theorem runsAlone_leave {loop : EventLoop} {stage : QueueStage} {call : Call}
    (some_loop : 0 < n) (alive : s.panicked = none) (last : stage.ending job = some call) :
    RunsAlone n k (job.loop n) spec (s.place (job.loop n) loop k (.active job stage))
      (s.place (job.loop n) { loop with queueSQELock := none } k call) := by
  refine .call (step_place some_loop alive fun t this => ?_) (.refl _)
  subst this
  cases stage with
  | failed | registered | panicking =>
      cases last
      rfl
  | _ => cases last

/-- A call whose SQEs are queued registers its callback and returns. -/
theorem runsAlone_register {loop : EventLoop} (some_loop : 0 < n) (alive : s.panicked = none) :
    RunsAlone n k (job.loop n) spec (s.place (job.loop n) loop k (.active job .queued))
      (s.place (job.loop n)
        { loop with
          callbacks := Function.update loop.callbacks job.req.userData (job.cb k)
          queueSQELock := none } k (.returned job none)) := by
  have register : (s.place (job.loop n) loop k (.active job .queued)).step n (.call k spec) =
      some (s.place (job.loop n)
        { loop with
          callbacks := Function.update loop.callbacks job.req.userData (job.cb k) } k
        (.active job .registered)) :=
    step_place some_loop alive fun t this => by
      subst this
      rfl
  exact .call register (runsAlone_leave some_loop alive rfl)

/-- The SQ thread reads while a call is between two steps. -/
theorem runsAlone_reads {call : Call} {s' : EventReactor} (small : l < n)
    (alive : s.panicked = none) :
    ∀ (reads : ℕ) {loop : EventLoop} {e : Engine}, loop.engine.threadReads reads = some e →
      RunsAlone n k l spec (s.place l (loop.withEngine e) k call) s' →
      RunsAlone n k l spec (s.place l loop k call) s' := by
  intro reads
  induction reads with
  | zero =>
      intro loop e done rest
      cases done
      exact rest
  | succ reads ih =>
      intro loop e done rest
      obtain ⟨mid, first, later⟩ := Option.bind_eq_some_iff.mp done
      have one : (s.place l loop k call).step n (.kernel l .consume) =
          some (s.place l (loop.withEngine mid) k call) := by
        rw [step, if_pos (show (s.place l loop k call).panicked = none from alive)]
        simp only [stepLive, if_pos small, loops_place, first, Option.map_some]
        simp only [place, setLoop, setCall, Function.update_idem]
      exact .cons (Or.inr rfl) one (ih later rest)

/-- A call whose operation is queued queues the link timeout, registers and returns. -/
theorem runsAlone_link {loop : EventLoop} {free last : Engine} {second : Option RingError}
    (some_loop : 0 < n) (alive : s.panicked = none)
    (thread : loop.engine.threadReads reads = some free)
    (link : free.queueSQE (linkTimeoutOp spec) 0 timeoutNonce = some (second, last)) :
    RunsAlone n k (job.loop n) spec (s.place (job.loop n) loop k (.active job .linking))
      (s.place (job.loop n)
        { loop.withEngine last with
          callbacks := Function.update loop.callbacks job.req.userData (job.cb k)
          queueSQELock := none } k (.returned job none)) := by
  have linked : (s.place (job.loop n) (loop.withEngine free) k (.active job .linking)).step n
      (.call k spec) =
      some (s.place (job.loop n) (loop.withEngine last) k (.active job .queued)) := by
    refine step_place some_loop alive fun t this => ?_
    simp only [callStep, this]
    exact Option.map_eq_some_iff.mpr ⟨_, link, rfl⟩
  exact runsAlone_reads (job.loop_lt some_loop) alive reads thread
    (.call linked (runsAlone_register some_loop alive))

/-- A call that has the lock queues its SQEs, registers and returns. -/
theorem runsAlone_queue {ends : QueueEnd} {loop loop' : EventLoop} (some_loop : 0 < n)
    (alive : s.panicked = none) (flag : loop.needSubmit = 1)
    (queued : loop.queue job.req (job.cb k) spec reads = some (ends, loop')) :
    RunsAlone n k (job.loop n) spec (s.place (job.loop n) loop k (.active job .flagged))
      (s.place (job.loop n) { loop' with queueSQELock := none } k (ends.call job)) := by
  obtain ⟨⟨ends', e⟩, sqes, done⟩ := Option.map_eq_some_iff.mp queued
  obtain ⟨shell, callbacks, holder, needSubmit⟩ := loop
  subst flag
  rw [EventLoop.queueSQEs, EventLoop.queueOp] at sqes
  cases op : shell.engine.queueSQE job.req.op (opFlags job.req) job.req.userData with
  | none =>
      have abandon : (s.place (job.loop n) ⟨shell, callbacks, holder, 1⟩ k
          (.active job .flagged)).step n (.call k spec) =
          some (s.place (job.loop n)
            (EventLoop.withEngine ⟨shell, callbacks, holder, 1⟩ shell.engine.abandonSQE) k
            (.active job .panicking)) := by
        refine step_place some_loop alive fun t this => ?_
        simp only [callStep, this, EventLoop.engine, op]
        rfl
      simp only [EventLoop.engine, op] at sqes
      cases sqes
      cases done
      exact .call abandon (runsAlone_leave some_loop alive rfl)
  | some result =>
      obtain ⟨first, mid⟩ := result
      have queueOp : (s.place (job.loop n) ⟨shell, callbacks, holder, 1⟩ k
          (.active job .flagged)).step n (.call k spec) =
          some (s.place (job.loop n) (EventLoop.withEngine ⟨shell, callbacks, holder, 1⟩ mid) k
            (.active job (afterQueueSQE job.req first))) := by
        refine step_place some_loop alive fun t this => ?_
        simp only [callStep, this, EventLoop.engine, op]
        rfl
      simp only [EventLoop.engine, op] at sqes
      refine .call queueOp ?_
      cases first with
      | some failed =>
          cases sqes
          cases done
          exact runsAlone_leave some_loop alive rfl
      | none =>
          by_cases timed : job.req.timeout = 0
          · simp only [if_pos timed] at sqes
            cases sqes
            cases done
            rw [afterQueueSQE, if_pos timed]
            exact runsAlone_register some_loop alive
          · simp only [if_neg timed] at sqes
            obtain ⟨free, thread, sqes⟩ := Option.bind_eq_some_iff.mp sqes
            obtain ⟨⟨second, last⟩, link, sqes⟩ := Option.map_eq_some_iff.mp sqes
            cases sqes
            cases done
            rw [afterQueueSQE, if_neg timed]
            exact runsAlone_link some_loop alive thread link

/-- **The step function runs `EventLoop.queue`**: a call that finds the lock free and is
left alone, but for the SQ thread, does what the function says. -/
theorem queue_runs {ends : QueueEnd} {loop' : EventLoop} (some_loop : 0 < n)
    (alive : s.panicked = none) (here : s.calls k = .active job .want)
    (free : (s.loops (job.loop n)).queueSQELock = none)
    (queued : (s.loops (job.loop n)).queue job.req (job.cb k) spec reads = some (ends, loop')) :
    RunsAlone n k (job.loop n) spec s (s.place (job.loop n) loop' k (ends.call job)) := by
  generalize eq : s.loops (job.loop n) = loop at free queued
  have lock : s.step n (.call k spec) =
      some (s.place (job.loop n) { loop with queueSQELock := some (.caller k) } k
        (.active job .locked)) := by
    rw [step_call some_loop alive here]
    simp only [callStep, eq, free, if_true]
    rfl
  have flag : (s.place (job.loop n) { loop with queueSQELock := some (.caller k) } k
      (.active job .locked)).step n (.call k spec) =
      some (s.place (job.loop n)
        { loop with queueSQELock := some (.caller k), needSubmit := 1 } k
          (.active job .flagged)) := by
    refine step_place some_loop alive fun t this => ?_
    simp only [callStep, this]
    rfl
  refine .call lock (.call flag ?_)
  -- The function leaves the lock as it is, the call lets it go.
  obtain ⟨inside, same⟩ := EventLoop.queue_frame queued (some (.caller k)) 1
  have back : { loop' with queueSQELock := none } = loop' := by
    rw [← free, ← same]
  have run := runsAlone_queue some_loop alive rfl inside
  exact back ▸ run

end Run

/-! ## Over a run -/

/-- An SQE that was queued: by which call, on which loop. -/
structure Placed where
  loop : ℕ
  call : ℕ
  sqe : SQEntry

/-- What a step queues. -/
def placed (n : ℕ) (s : EventReactor) : ReactorEvent → List Placed
  | .call k spec =>
      if n = 0 then []
      else
        match s.calls k with
        | .active job .flagged =>
            ((s.loops (job.loop n)).engine.queuedSQE job.req.op (opFlags job.req)
              job.req.userData).map (Placed.mk (job.loop n) k)
        | .active job .linking =>
            ((s.loops (job.loop n)).engine.queuedSQE (linkTimeoutOp spec) 0
              timeoutNonce).map (Placed.mk (job.loop n) k)
        | _ => []
  | _ => []

/-- The SQEs queued on loop `l`, in order. -/
def onLoop (l : ℕ) (j : List Placed) : List Placed := j.filter fun x => x.loop = l

theorem onLoop_append_self (l k : ℕ) (j : List Placed) (sqe : SQEntry) :
    onLoop l (j ++ [⟨l, k, sqe⟩]) = onLoop l j ++ [⟨l, k, sqe⟩] := by
  simp [onLoop]

theorem onLoop_append_of_ne {l l' : ℕ} (other : l' ≠ l) (k : ℕ) (j : List Placed)
    (sqe : SQEntry) : onLoop l' (j ++ [⟨l, k, sqe⟩]) = onLoop l' j := by
  simp [onLoop, other.symm]

variable {n : ℕ} {s s' : EventReactor} {e : ReactorEvent}

/-- The submission queue of every loop keeps its order and loses at most what the kernel
reads. -/
def KeepsOrder (s s' : EventReactor) : Prop :=
  ∀ l, (s'.loops l).engine.sq.pending <:+ (s.loops l).engine.sq.pending

/-- The calls that are between their two `QueueSQE` are the same. -/
def SameLinking (s s' : EventReactor) : Prop :=
  ∀ k job, s'.calls k = .active job .linking ↔ s.calls k = .active job .linking

/-- What a step does to the SQEs queued. -/
inductive Placing (n : ℕ) (s : EventReactor) : ReactorEvent → EventReactor → Prop
  | nothing {e : ReactorEvent} {s' : EventReactor} (none : placed n s e = [])
      (order : KeepsOrder s s') (linking : SameLinking s s') : Placing n s e s'
  /-- The operation of a call; a timed one is linked. -/
  | op {k : ℕ} {spec : UInt64} {job : Job} {s' : EventReactor} {sqe : SQEntry}
      (here : s.calls k = .active job .flagged)
      (one : placed n s (.call k spec) = [⟨job.loop n, k, sqe⟩])
      (tied : sqe.IsLinked → job.req.timeout ≠ 0)
      (pending : (s'.loops (job.loop n)).engine.sq.pending =
        (s.loops (job.loop n)).engine.sq.pending ++ [sqe])
      (others : ∀ l, l ≠ job.loop n → s'.loops l = s.loops l)
      (calls : s'.calls = Function.update s.calls k
        (.active job (afterQueueSQE job.req none))) :
      Placing n s (.call k spec) s'
  /-- The link timeout of a call. -/
  | timeout {k : ℕ} {spec : UInt64} {job : Job} {s' : EventReactor} {sqe : SQEntry}
      (here : s.calls k = .active job .linking)
      (one : placed n s (.call k spec) = [⟨job.loop n, k, sqe⟩])
      (own : IsLinkTimeout sqe) (last : ¬ sqe.IsLinked)
      (pending : (s'.loops (job.loop n)).engine.sq.pending =
        (s.loops (job.loop n)).engine.sq.pending ++ [sqe])
      (others : ∀ l, l ≠ job.loop n → s'.loops l = s.loops l)
      (calls : s'.calls = Function.update s.calls k (.active job .queued)) :
      Placing n s (.call k spec) s'
  /-- The link timeout finds no room. -/
  | lost {k : ℕ} {spec : UInt64} {job : Job} {s' : EventReactor}
      (here : s.calls k = .active job .linking)
      (full : (s.loops (job.loop n)).engine.sq.pending.length =
        (s.loops (job.loop n)).engine.sq.entries) :
      Placing n s (.call k spec) s'
  /-- `PrepSQE` panics: the slot is queued with what was in it. -/
  | abandoned {k : ℕ} {spec : UInt64} {job : Job} {s' : EventReactor}
      (here : s.calls k = .active job .flagged)
      (panics : (s.loops (job.loop n)).engine.queueSQE job.req.op (opFlags job.req)
        job.req.userData = none) :
      Placing n s (.call k spec) s'

theorem keepsOrder_of_loops (same : s'.loops = s.loops) : KeepsOrder s s' := fun l => by
  rw [same]

/-- One loop changes. -/
theorem keepsOrder_update {l : ℕ} {loop : EventLoop}
    (loops : s'.loops = Function.update s.loops l loop)
    (order : loop.engine.sq.pending <:+ (s.loops l).engine.sq.pending) : KeepsOrder s s' := by
  intro l'
  rw [loops]
  by_cases this : l' = l
  · subst this
    rw [Function.update_self]
    exact order
  · rw [Function.update_of_ne this]

theorem sameLinking_of_calls (same : s'.calls = s.calls) : SameLinking s s' := fun k job => by
  rw [same]

/-- A call moves on, neither from nor to the place between its two `QueueSQE`. -/
theorem sameLinking_update {k : ℕ} {call : Call} (calls : s'.calls = Function.update s.calls k call)
    (before : ∀ job, s.calls k ≠ .active job .linking)
    (after : ∀ job, call ≠ .active job .linking) : SameLinking s s' := by
  intro k' job
  rw [calls]
  by_cases this : k' = k
  · subst this
    rw [Function.update_self]
    exact iff_of_false (after job) (before job)
  · rw [Function.update_of_ne this]

/-- A call that is at another stage queues no link timeout. -/
theorem ne_linking {k : ℕ} {job : Job} {stage : QueueStage} (here : s.calls k = .active job stage)
    (other : stage ≠ .linking) (job' : Job) : s.calls k ≠ .active job' .linking := by
  rw [here]
  rintro ⟨⟩
  exact other rfl

/-- A call at its unlock has queued what it queues. -/
theorem QueueStage.of_ending {job : Job} {stage : QueueStage} {call : Call}
    (last : stage.ending job = some call) :
    stage ≠ .flagged ∧ stage ≠ .linking ∧ ∀ job', call ≠ .active job' .linking := by
  cases stage with
  | failed | registered | panicking =>
      cases last
      exact ⟨nofun, nofun, nofun⟩
  | _ => cases last

/-- The steps of a call that neither queue an SQE nor stand between two. -/
theorem placing_stage {k : ℕ} {spec : UInt64} {job : Job} {stage : QueueStage} {call : Call}
    {loop : EventLoop} (some_loop : 0 < n) (here : s.calls k = .active job stage)
    (op : stage ≠ .flagged) (link : stage ≠ .linking)
    (calls : s'.calls = Function.update s.calls k call)
    (after : ∀ job, call ≠ .active job .linking)
    (loops : s'.loops = Function.update s.loops (job.loop n) loop)
    (ring : loop.shell = (s.loops (job.loop n)).shell) : Placing n s (.call k spec) s' := by
  refine .nothing ?_ (keepsOrder_update loops ?_)
    (sameLinking_update calls (ne_linking here link) after)
  · simp only [placed, here, Nat.ne_of_gt some_loop, if_false]
    cases stage with
    | flagged => exact absurd rfl op
    | linking => exact absurd rfl link
    | _ => rfl
  · rw [EventLoop.engine, ring]
    exact List.suffix_rfl

/-- A step of a loop that queues nothing. -/
theorem placing_loop {l : ℕ} {loop : EventLoop} (none : placed n s e = [])
    (calls : s'.calls = s.calls) (loops : s'.loops = Function.update s.loops l loop)
    (order : loop.engine.sq.pending <:+ (s.loops l).engine.sq.pending) : Placing n s e s' :=
  .nothing none (keepsOrder_update loops order) (sameLinking_of_calls calls)

/-- A step of a loop that leaves the submission queue alone. -/
theorem placing_same {l : ℕ} {loop : EventLoop} (none : placed n s e = [])
    (calls : s'.calls = s.calls) (loops : s'.loops = Function.update s.loops l loop)
    (sq : loop.engine.sq = (s.loops l).engine.sq) : Placing n s e s' :=
  placing_loop none calls loops (by rw [sq])

/-- The `QueueSQE` of an operation. -/
theorem placing_queueOp {k : ℕ} {spec : UInt64} {job : Job} {err : Option RingError} {e : Engine}
    (some_loop : 0 < n) (here : s.calls k = .active job .flagged)
    (done : (s.loops (job.loop n)).engine.queueSQE job.req.op (opFlags job.req)
      job.req.userData = some (err, e)) :
    Placing n s (.call k spec)
      ((s.setLoop (job.loop n) ((s.loops (job.loop n)).withEngine e)).setCall k
        (.active job (afterQueueSQE job.req err))) := by
  have notes : placed n s (.call k spec) = ((s.loops (job.loop n)).engine.queuedSQE job.req.op
      (opFlags job.req) job.req.userData).map (Placed.mk (job.loop n) k) := by
    simp only [placed, here, Nat.ne_of_gt some_loop, if_false]
  rcases Engine.queueSQE_encoded done with
    ⟨-, rfl, rfl⟩ | ⟨-, rfl, old, sqe, encoded, pending, -⟩
  · rw [Engine.queuedSQE_of_error done] at notes
    refine .nothing notes (keepsOrder_update rfl List.suffix_rfl)
      (sameLinking_update rfl (ne_linking here (by rintro ⟨⟩)) ?_)
    rintro job' ⟨⟩
  · rw [Engine.queuedSQE_of_pending done pending] at notes
    refine .op here notes ?_ ?_ ?_ rfl
    · intro linked untimed
      -- The flags of an untimed request are zero.
      rw [SQEntry.IsLinked, Operation.encode_flags encoded, opFlags, if_pos untimed,
        job.flags_req] at linked
      exact linked rfl
    · show (Function.update s.loops (job.loop n) _ (job.loop n)).engine.sq.pending = _
      rw [Function.update_self]
      exact pending
    · exact fun l other => Function.update_of_ne other _ _

/-- The `QueueSQE` of a link timeout. -/
theorem placing_link {k : ℕ} {spec : UInt64} {job : Job} {err : Option RingError} {e : Engine}
    (some_loop : 0 < n) (here : s.calls k = .active job .linking)
    (done : (s.loops (job.loop n)).engine.queueSQE (linkTimeoutOp spec) 0 timeoutNonce =
      some (err, e)) :
    Placing n s (.call k spec)
      ((s.setLoop (job.loop n) ((s.loops (job.loop n)).withEngine e)).setCall k
        (.active job .queued)) := by
  have notes : placed n s (.call k spec) = ((s.loops (job.loop n)).engine.queuedSQE
      (linkTimeoutOp spec) 0 timeoutNonce).map (Placed.mk (job.loop n) k) := by
    simp only [placed, here, Nat.ne_of_gt some_loop, if_false]
  rcases Engine.queueSQE_encoded done with
    ⟨full, -, -⟩ | ⟨-, rfl, old, sqe, encoded, pending, -⟩
  · exact .lost here full
  · obtain ⟨own, last⟩ := isLinkTimeout_of_encode encoded
    rw [Engine.queuedSQE_of_pending done pending] at notes
    refine .timeout here notes own last ?_ ?_ rfl
    · show (Function.update s.loops (job.loop n) _ (job.loop n)).engine.sq.pending = _
      rw [Function.update_self]
      exact pending
    · exact fun l other => Function.update_of_ne other _ _

/-- **What a step does to the SQEs queued.** -/
theorem step_placing (stepped : s.step n e = some s') : Placing n s e s' := by
  obtain ⟨-, transition⟩ := step_transition stepped
  cases transition with
  | queue here =>
      refine .nothing rfl (keepsOrder_of_loops rfl) (sameLinking_update rfl ?_ ?_)
      · rw [here]
        rintro job ⟨⟩
      · rintro job ⟨⟩
  | cancel here =>
      refine .nothing rfl (keepsOrder_of_loops rfl) (sameLinking_update rfl ?_ ?_)
      · rw [here]
        rintro job ⟨⟩
      · rintro job ⟨⟩
  | skip here reserved => exact .nothing rfl (keepsOrder_of_loops rfl) (sameLinking_of_calls rfl)
  | draw here small =>
      refine .nothing rfl (keepsOrder_of_loops rfl) (sameLinking_update rfl ?_ ?_)
      · rw [here]
        rintro job ⟨⟩
      · rintro job ⟨⟩
  | noLoop none =>
      refine .nothing ?_ (keepsOrder_of_loops rfl) (sameLinking_of_calls rfl)
      simp only [placed, none, if_true]
  | lock some_loop here free =>
      exact placing_stage some_loop here (by rintro ⟨⟩) (by rintro ⟨⟩) rfl (by rintro job ⟨⟩)
        rfl rfl
  | flag some_loop here =>
      exact placing_stage some_loop here (by rintro ⟨⟩) (by rintro ⟨⟩) rfl (by rintro job ⟨⟩)
        rfl rfl
  | queueOp some_loop here done => exact placing_queueOp some_loop here done
  | abandon some_loop here panics => exact .abandoned here panics
  | link some_loop here done => exact placing_link some_loop here done
  | register some_loop here =>
      exact placing_stage some_loop here (by rintro ⟨⟩) (by rintro ⟨⟩) rfl (by rintro job ⟨⟩)
        rfl rfl
  | leave some_loop here last =>
      obtain ⟨flagged, linking, after⟩ := QueueStage.of_ending last
      exact placing_stage some_loop here flagged linking rfl after rfl rfl
  | signalClosed lt here closed =>
      exact .nothing rfl (keepsOrder_of_loops rfl) (sameLinking_of_calls rfl)
  | signal lt here publisher => exact placing_same rfl rfl rfl rfl
  | swap lt here set => exact placing_same rfl rfl rfl rfl
  | noSwap lt here unset => exact placing_same rfl rfl rfl rfl
  | lockSubmit lt here free => exact placing_same rfl rfl rfl rfl
  | @submit l result ret e lt here done =>
      refine placing_loop rfl rfl rfl ?_
      obtain ⟨sqes, sq, -, rfl, pending, -⟩ := Engine.submit_spec done
      exact ⟨sqes, pending.symm⟩
  | unlockSubmit lt here => exact placing_same rfl rfl rfl rfl
  | consumer lt done =>
      obtain ⟨-, sq, -⟩ := Engine.consumerStep_spec done
      exact placing_same rfl rfl rfl sq
  | passOver lt taken reserved =>
      obtain ⟨-, sq, -⟩ := Engine.take_spec taken
      exact placing_same rfl rfl rfl sq
  | deliver lt taken request found =>
      obtain ⟨-, sq, -⟩ := Engine.take_spec taken
      exact placing_same rfl rfl rfl sq
  | missing lt taken request found =>
      exact .nothing rfl (keepsOrder_of_loops rfl) (sameLinking_of_calls rfl)
  | kernel lt done =>
      refine placing_loop rfl rfl rfl ?_
      obtain ⟨-, -, -, -, read, pending, -⟩ := Engine.kernelStep_spec done
      exact ⟨read, pending.symm⟩
  | stop done =>
      obtain ⟨-, sq, -⟩ := stopStep_frame done
      exact placing_same rfl rfl rfl sq

/-- **The order of the SQEs queued.**  On every loop the submission queue is the end of
what was queued there, and every SQE with the link flag is followed by the link timeout
of its own call — or is the last one, and its call is about to queue the timeout. -/
structure Ties (n : ℕ) (j : List Placed) (s : EventReactor) : Prop where
  order : ∀ l, (s.loops l).engine.sq.pending <:+ (onLoop l j).map Placed.sqe
  links : ∀ l before x after, onLoop l j = before ++ x :: after → x.sqe.IsLinked →
    (∃ y rest, after = y :: rest ∧ y.call = x.call ∧ IsLinkTimeout y.sqe) ∨
      (after = [] ∧ ∃ job, s.calls x.call = .active job .linking ∧ job.loop n = l)

/-- The job of a call that is about to queue its link timeout. -/
def linkingJob : Call → Option Job
  | .active job .linking => some job
  | _ => none

/-- The link timeout of a call finds a free slot. -/
def LinkFits (n : ℕ) (s : EventReactor) : ReactorEvent → Prop
  | .call k _ => ∀ job ∈ linkingJob (s.calls k), (s.loops (job.loop n)).freeSlots ≠ 0
  | _ => True

instance (n : ℕ) (s : EventReactor) : (e : ReactorEvent) → Decidable (LinkFits n s e)
  | .call k _ => inferInstanceAs (Decidable (∀ job ∈ linkingJob (s.calls k), _))
  | .queue _ _ _ | .cancel _ _ | .draw _ | .signal _ | .publish _ _ | .consumer _ _
  | .dispatch _ | .kernel _ _ | .stop _ => .isTrue trivial

theorem ties_start (rings : ℕ → ReactorRing false) : Ties n [] (start rings) where
  order := fun l => by
    show (rings l).ring.sqRing.pending <:+ _
    rw [(rings l).sq_empty]
    exact List.nil_suffix
  links := fun l before x after split => by
    have lengths := congrArg List.length split
    simp [onLoop] at lengths

/-- Two calls inside the lock of a loop are one. -/
theorem eq_of_inside (locked : ∀ l, (s.view n l).Locked) {k k' : ℕ} {job job' : Job}
    {stage stage' : QueueStage} (here : s.calls k = .active job stage)
    (here' : s.calls k' = .active job' stage') (same : job.loop n = job'.loop n)
    (holds : stage.holds = true) (holds' : stage'.holds = true) : k = k' := by
  have mine := (locked (job.loop n)).callers k job stage
    (active_eq_some.mpr ⟨here, rfl⟩) holds
  have yours := (locked (job.loop n)).callers k' job' stage'
    (active_eq_some.mpr ⟨here', same.symm⟩) holds'
  rw [mine] at yours
  cases yours
  rfl

/-- What is queued on one loop is what was queued there, and one more. -/
theorem order_append {j : List Placed} {l k : ℕ} {sqe : SQEntry}
    (order : ∀ l, (s.loops l).engine.sq.pending <:+ (onLoop l j).map Placed.sqe)
    (pending : (s'.loops l).engine.sq.pending = (s.loops l).engine.sq.pending ++ [sqe])
    (others : ∀ l', l' ≠ l → s'.loops l' = s.loops l') (l' : ℕ) :
    (s'.loops l').engine.sq.pending <:+ (onLoop l' (j ++ [⟨l, k, sqe⟩])).map Placed.sqe := by
  by_cases this : l' = l
  · subst this
    rw [onLoop_append_self, pending, List.map_append]
    exact (List.suffix_append_inj_of_length_eq rfl).mpr ⟨order _, rfl⟩
  · rw [onLoop_append_of_ne this, others l' this]
    exact order l'

/-- A call takes a step on its own loop; what follows an SQE of another loop is as before. -/
theorem Ties.elsewhere {j before after : List Placed} {x : Placed} {k l : ℕ} {job : Job}
    {stage : QueueStage} {call : Call} (ties : Ties n j s) (here : s.calls k = .active job stage)
    (calls : s'.calls = Function.update s.calls k call) (other : l ≠ job.loop n)
    (split : onLoop l j = before ++ x :: after) (linked : x.sqe.IsLinked) :
    (∃ y rest, after = y :: rest ∧ y.call = x.call ∧ IsLinkTimeout y.sqe) ∨
      (after = [] ∧ ∃ job, s'.calls x.call = .active job .linking ∧ job.loop n = l) := by
  refine (ties.links l before x after split linked).imp_right fun last => ?_
  obtain ⟨none, job', there, home⟩ := last
  have ne : x.call ≠ k := by
    rintro rfl
    rw [here] at there
    cases there
    exact other home.symm
  refine ⟨none, job', ?_, home⟩
  rw [calls, Function.update_of_ne ne]
  exact there

/-- **A step keeps the order**, if a link timeout finds room and no `PrepSQE` panics. -/
theorem Ties.step {j : List Placed} (ties : Ties n j s) (locked : ∀ l, (s.view n l).Locked)
    (fits : LinkFits n s e) (prepares : s.Prepares n e) (stepped : s.step n e = some s') :
    Ties n (j ++ placed n s e) s' := by
  cases step_placing stepped with
  | nothing none order linking =>
      rw [none, List.append_nil]
      refine ⟨fun l => (order l).trans (ties.order l), fun l before x after split linked => ?_⟩
      refine (ties.links l before x after split linked).imp_right fun last => ?_
      obtain ⟨none, job, here, home⟩ := last
      exact ⟨none, job, (linking _ _).mpr here, home⟩
  | @op k spec job _ sqe here one tied pending others calls =>
      rw [one]
      refine ⟨order_append ties.order pending others, fun l before x after split linked => ?_⟩
      by_cases this : l = job.loop n
      · subst this
        rw [onLoop_append_self] at split
        rcases Runs.split_snoc split with ⟨rfl, -, rfl⟩ | ⟨rest, rfl, old⟩
        · -- A linked operation is timed, so its call goes on to the link timeout.
          refine Or.inr ⟨rfl, job, ?_, rfl⟩
          rw [calls]
          show Function.update s.calls k _ k = _
          rw [Function.update_self, afterQueueSQE, if_neg (tied linked)]
        · rcases ties.links _ before x rest old linked with
            ⟨y, rest', rfl, own⟩ | ⟨-, job', there, home⟩
          · exact Or.inl ⟨y, rest' ++ [_], rfl, own⟩
          · -- The call that still owes its link timeout would be inside the lock too.
            obtain rfl := eq_of_inside locked here there home.symm rfl rfl
            rw [here] at there
            cases there
      · rw [onLoop_append_of_ne this] at split
        exact ties.elsewhere here calls this split linked
  | @timeout k spec job _ sqe here one own last pending others calls =>
      rw [one]
      refine ⟨order_append ties.order pending others, fun l before x after split linked => ?_⟩
      by_cases this : l = job.loop n
      · subst this
        rw [onLoop_append_self] at split
        rcases Runs.split_snoc split with ⟨rfl, -, rfl⟩ | ⟨rest, rfl, old⟩
        · exact absurd linked last
        · rcases ties.links _ before x rest old linked with
            ⟨y, rest', rfl, own'⟩ | ⟨rfl, job', there, home⟩
          · exact Or.inl ⟨y, rest' ++ [_], rfl, own'⟩
          · -- The call that owed its link timeout is the one that queues it.
            obtain rfl := eq_of_inside locked here there home.symm rfl rfl
            exact Or.inl ⟨_, [], rfl, rfl, own⟩
      · rw [onLoop_append_of_ne this] at split
        exact ties.elsewhere here calls this split linked
  | lost here full =>
      refine absurd ?_ (fits _ (by rw [here]; rfl))
      rw [EventLoop.freeSlots, full, Nat.sub_self]
  | abandoned here panics => exact (Prepares.not_panics prepares here panics).elim

/-- **When `QueueWithDeadline` is all-or-nothing.**  A call with a timeout, in whatever
state the ring is and however many SQEs the SQ thread reads between its two `QueueSQE`,
returns an error and has changed nothing, or returns nil and has queued the operation and
its link timeout next to each other and registered the callback, exactly if the operation's
`PrepSQE` does not panic in a slot it is handed and not just one slot is free while the SQ
thread reads nothing.  In every run in which no `PrepSQE` panics and the link timeouts find
a free slot, every SQE with the link flag is followed by the link timeout of its own
call. -/
theorem queueWithDeadline_all_or_nothing_iff (n : ℕ) (rings : ℕ → ReactorRing false) :
    (∀ (loop loop' : EventLoop) (req : SubSqeRequest) (cb : Option ℕ) (spec : UInt64)
      (reads : ℕ) (ends : QueueEnd), req.timeout ≠ 0 →
        loop.queue req cb spec reads = some (ends, loop') →
        (EventLoop.AllOrNothing loop loop' req cb reads ends ↔
          loop.engine.sq.sq.Prepares req.op ∧ (loop.freeSlots = 1 → reads ≠ 0))) ∧
    (∀ (p : List (EventReactor × ReactorEvent)) (s : EventReactor),
      Runs.Path (step n) (start rings) p s →
        (∀ x ∈ p, LinkFits n x.1 x.2 ∧ x.1.Prepares n x.2) →
          Ties n (Runs.log (placed n) p) s) := by
  refine ⟨fun loop loop' req cb spec reads ends timed queued =>
    EventLoop.queue_allOrNothing_iff timed queued, fun p s path met => ?_⟩
  have inv := path.log_invariant (placed n)
    (fun j s => Ties n j s ∧ ∀ l, (s.view n l).Locked)
    (fun s e => LinkFits n s e ∧ s.Prepares n e) ⟨ties_start rings, locked_start rings n⟩ ?_ met
  · exact inv.1
  · rintro j s e s' ⟨ties, locked⟩ ⟨fits, prepares⟩ stepped
    exact ⟨ties.step locked fits prepares stepped,
      views_step locked (fun l _ move => (locked l).move move) stepped⟩

/-- Call `k` is made, and takes `steps` steps. -/
def wholeCall (k : ℕ) (timeout : Int64) (steps : ℕ) : List ReactorEvent :=
  [.queue k nopOp timeout, .draw k] ++ List.replicate steps (.call k 0)

/-- The publisher of loop 0 is signalled, and its `Submit` hands `count` SQEs over. -/
def wholeSubmit (count : ℕ) : List ReactorEvent :=
  .signal 0 :: List.replicate 4 (.publish 0 (.consumed count))

/-- The law at a loop with two free slots, and at a run in which a timed call fills
both. -/
theorem queueWithDeadline_all_or_nothing_iff_two_free :
    (∃ loop', EventLoop.AllOrNothing ((start (twoSlots false)).loops 0) loop'
      (Job.req (.queue nopOp 5 1 (by decide) 1)) (some 0) 0 (.returned none)) ∧
    ∃ p s, Runs.Path (step 1) (start (twoSlots false)) p s ∧
      (s.loops 0).engine.sq.pending.map SQEntry.userData = [1, timeoutNonce] ∧
      Ties 1 (Runs.log (placed 1) p) s := by
  obtain ⟨whole, run⟩ := queueWithDeadline_all_or_nothing_iff 1 (twoSlots false)
  refine ⟨⟨_, (whole ((start (twoSlots false)).loops 0) _ _ _ 0 0 (.returned none) (by decide)
    rfl).mpr (by decide)⟩, ?_⟩
  have path : Runs.Path (step 1) (start (twoSlots false))
      (Runs.record (step 1) (start (twoSlots false)) (wholeCall 0 5 6)) _ :=
    Runs.path_record (wholeCall 0 5 6) rfl
  refine ⟨_, _, path, rfl, run _ _ path ?_⟩
  decide

/-- **One free slot.**  The timed call 1 returns nil, its operation is queued without a
link timeout, and after the kernel has read the SQE before it the link flag ties it to
the SQE of call 2. -/
theorem queueWithDeadline_links_a_stranger :
    ∃ p s, Runs.Path (step 1) (start (twoSlots false)) p s ∧
      (∃ job, s.calls 1 = .returned job none ∧ job.req.timeout ≠ 0 ∧ job.req.userData = 2) ∧
      (s.loops 0).engine.sq.pending.map (fun sqe => (sqe.userData, decide sqe.IsLinked)) =
        [(2, true), (3, false)] :=
  ⟨_, _, Runs.path_record (wholeCall 0 0 5 ++ wholeCall 1 5 6 ++ wholeSubmit 1 ++
      wholeCall 2 0 5) rfl, ⟨_, rfl, by decide, rfl⟩, rfl⟩

/-- Call 0 has a timeout and its two SQEs are submitted; call 1 has a timeout and panics in its
slot, and its caller recovers; then comes call 2. -/
def linkedLeftover : List ReactorEvent :=
  wholeCall 0 5 6 ++ wholeSubmit 2 ++
    [.queue 1 (recvOp 3 ⟨0, 0⟩ 0) 5, .draw 1, .call 1 0, .call 1 0, .call 1 0, .call 1 0] ++
    wholeCall 2 0 5

/-- **A panic.**  Every link timeout finds a slot.  What call 1 leaves in the queue is the
operation of call 0, once more, and its link flag ties it to the SQE of call 2. -/
theorem queueWithDeadline_panic_links_a_stranger :
    ∃ p s, Runs.Path (step 1) (start (twoSlots false)) p s ∧ (∀ x ∈ p, LinkFits 1 x.1 x.2) ∧
      (∃ job, s.calls 1 = .recovered job ∧ job.req.timeout ≠ 0) ∧
      (s.loops 0).engine.sq.pending.map (fun sqe => (sqe.userData, decide sqe.IsLinked)) =
        [(1, true), (3, false)] :=
  ⟨_, _, Runs.path_record linkedLeftover rfl, by decide, ⟨_, rfl, by decide⟩, rfl⟩

end EventReactor

end GoUring.Reactor
