import GoUring.Foundation.Runs
import GoUring.Reactor.Request
import GoUring.Reactor.Shutdown

/-!
# The generic reactor

`Reactor` of `reactor/reactor.go` as a step function.  Its callers do what the
publisher of the network reactor does: a call of `Queue` draws a nonce, takes the
`queueSQELock` of the nonce's loop, queues its SQE, registers its callback and lets
the lock go.  The publisher takes the same lock to submit.  The steps are the
atomic operations, the acquisition and the release of `queueSQELock`, the
operations on the ring made under it, and the sections under `callbacksLock`, in
each of which nothing else can happen: the one of `Queue` stores a callback, the
one of the consumer finds, calls and deletes one.

`Queue` lets its lock go in a deferred call, so it does that after a panic as well.  A
panic of the operation's `PrepSQE` is on the goroutine of the caller, who may recover
from it; the slot that the operation was to be written to is queued by then, and no
callback goes with it.

A callback is the number of the `Queue` call that passed it, and is not nil; the
nil callback that `cancel` stores is `none`.  Besides the state of the program a
reactor records which callbacks were invoked with which completion and how many
nonces were given out.
-/

namespace GoUring.Reactor

open Uring

/-- `Reactor.loopForNonce`, for `n` loops. -/
def loopForNonce (n : ℕ) (nonce : UInt64) : ℕ := nonce.toNat % n

/-- What a call of `ringEventLoop.Queue` is about: a request of `Queue` with the
nonce `nextNonce` gave it, the `draw`-th one, or a cancel. -/
inductive Job
  | queue (op : Operation) (timeout : Int64) (nonce : UInt64) (small : nonce < cancelNonce)
      (draw : ℕ)
  | cancel (target : UInt64)

namespace Job

theorem not_reserved {nonce : UInt64} (small : nonce < cancelNonce) : ¬ Reserved nonce := by
  rintro (timeout | cancel)
  · subst timeout
    exact absurd small (by decide)
  · subst cancel
    exact absurd small (by decide)

/-- The loop of the job, out of `n`. -/
def loop (n : ℕ) : Job → ℕ
  | .queue _ _ nonce _ _ => loopForNonce n nonce
  | .cancel target => loopForNonce n target

/-- The `subSqeRequest` of the job. -/
def req : Job → SubSqeRequest
  | .queue op timeout nonce small _ =>
      { op := op
        flags := 0
        userData := nonce
        timeout := timeout
        untimed := fun reserved => absurd reserved (not_reserved small) }
  | .cancel target => cancelRequest target

/-- The callback of the job, when call number `k` does it. -/
def cb (k : ℕ) : Job → Option ℕ
  | .queue _ _ _ _ _ => some k
  | .cancel _ => none

/-- The nonce of a request of `Queue`. -/
def nonce : Job → Option UInt64
  | .queue _ _ nonce _ _ => some nonce
  | .cancel _ => none

end Job

/-- Where a call of `ringEventLoop.Queue` is. -/
inductive QueueStage
  /-- At `queueSQELock.Lock()`. -/
  | want
  /-- At the store to `needSubmit`. -/
  | locked
  /-- At the `QueueSQE` of the operation. -/
  | flagged
  /-- At the `QueueSQE` of the link timeout. -/
  | linking
  /-- At the section under `callbacksLock`. -/
  | queued
  /-- At the unlock, with an error. -/
  | failed (err : RingError)
  /-- At the unlock, with a panic of `PrepSQE`. -/
  | panicking
  /-- At the unlock, with the callback registered. -/
  | registered
  deriving DecidableEq, Repr

/-- The call has `queueSQELock`. -/
def QueueStage.holds : QueueStage → Bool
  | .want => false
  | _ => true

/-- Where a call of `Queue`, `QueueWithDeadline` or `Cancel` is. -/
inductive Call
  /-- The call was not made yet. -/
  | free
  /-- In `nextNonce`. -/
  | drawing (op : Operation) (timeout : Int64)
  | active (job : Job) (stage : QueueStage)
  | returned (job : Job) (err : Option RingError)
  /-- The call has panicked, and its caller has recovered. -/
  | recovered (job : Job)

/-- How a call ends that is at its unlock. -/
def QueueStage.ending (job : Job) : QueueStage → Option Call
  | .failed err => some (.returned job (some err))
  | .registered => some (.returned job none)
  | .panicking => some (.recovered job)
  | _ => none

/-- What the publisher does after a signal. -/
inductive PublishStage
  /-- At the compare-and-swap of `needSubmit`. -/
  | cas
  /-- At `queueSQELock.Lock()`. -/
  | wantLock
  /-- At `Submit`. -/
  | locked
  /-- At `queueSQELock.Unlock()`. -/
  | unlock
  deriving DecidableEq, Repr

/-- The publisher has `queueSQELock`. -/
def PublishStage.holds : PublishStage → Bool
  | .locked => true
  | .unlock => true
  | _ => false

/-- Who has a `queueSQELock`. -/
inductive LockHolder
  | caller (k : ℕ)
  | publisher
  deriving DecidableEq, Repr

/-- `ringEventLoop`. -/
structure EventLoop where
  shell : Shell PublishStage
  callbacks : UInt64 → Option ℕ
  queueSQELock : Option LockHolder
  needSubmit : UInt32

namespace EventLoop

/-- The ring of the loop. -/
def engine (loop : EventLoop) : Engine := loop.shell.engine

/-- The loop with another ring. -/
def withEngine (loop : EventLoop) (e : Engine) : EventLoop :=
  { loop with shell := { loop.shell with engine := e } }

/-- The publisher of the loop moves on. -/
def publish (loop : EventLoop) (pc : PublisherPC PublishStage) : EventLoop :=
  { loop with shell := { loop.shell with publisher := pc } }

end EventLoop

/-- `Reactor`, its goroutines and its callers. -/
structure EventReactor where
  currentNonce : UInt64
  loops : ℕ → EventLoop
  calls : ℕ → Call
  run : RunPC
  invoked : List (ℕ × CQEvent)
  draws : ℕ
  panicked : Option ReactorPanic

/-- What can happen to a reactor. -/
inductive ReactorEvent
  /-- Call `k` is `Queue` (`timeout` zero) or `QueueWithDeadline`. -/
  | queue (k : ℕ) (op : Operation) (timeout : Int64)
  /-- Call `k` is `Cancel(nonce)`. -/
  | cancel (k : ℕ) (nonce : UInt64)
  /-- One `atomic.AddUint64` in the `nextNonce` of call `k`. -/
  | draw (k : ℕ)
  /-- The next step of `ringEventLoop.Queue` in call `k`; `spec` is the address of
  the timespec, if the step queues a link timeout. -/
  | call (k : ℕ) (spec : UInt64)
  /-- The consumer of loop `l` sends on `submitSignal`, the publisher receives. -/
  | signal (l : ℕ)
  /-- The next step of the publisher of loop `l` after a signal; `result` is the
  kernel's answer, if the step submits. -/
  | publish (l : ℕ) (result : EnterResult)
  /-- The consumer of loop `l` takes a step of its own. -/
  | consumer (l : ℕ) (event : ConsumerEvent)
  /-- The consumer of loop `l` dispatches a completion. -/
  | dispatch (l : ℕ)
  /-- The kernel takes a step on the ring of loop `l`. -/
  | kernel (l : ℕ) (event : KernelEvent)
  /-- A step of the stop. -/
  | stop (event : StopEvent)

/-- What a publisher of the generic reactor closes when it was told to stop. -/
def reactorExits : List Chan := [.stopPublisherCh, .submitSignal]

namespace EventReactor

/-- The reactor with one loop replaced. -/
def setLoop (s : EventReactor) (l : ℕ) (loop : EventLoop) : EventReactor :=
  { s with loops := Function.update s.loops l loop }

/-- The reactor with one call replaced. -/
def setCall (s : EventReactor) (k : ℕ) (call : Call) : EventReactor :=
  { s with calls := Function.update s.calls k call }

/-- One iteration of `nextNonce`: the values that are reserved are skipped. -/
def nextNonce (s : EventReactor) (k : ℕ) (op : Operation) (timeout : Int64) : EventReactor :=
  let drawn := s.currentNonce + 1
  if reserved : cancelNonce ≤ drawn then
    { s with currentNonce := drawn }
  else
    let job := Job.queue op timeout drawn (UInt64.not_le.mp reserved) (s.draws + 1)
    { s.setCall k (.active job .want) with
      currentNonce := drawn
      draws := s.draws + 1 }

/-- Where `ringEventLoop.Queue` goes after the `QueueSQE` of its operation. -/
def afterQueueSQE (req : SubSqeRequest) : Option RingError → QueueStage
  | some err => .failed err
  | none => if req.timeout = 0 then .queued else .linking

/-- The flags of the operation's SQE: a timed one is linked to its timeout. -/
def opFlags (req : SubSqeRequest) : UInt8 :=
  if req.timeout = 0 then req.flags else req.flags ||| sqeIOLinkFlag

/-- The next step of `ringEventLoop.Queue` in call `k`. -/
def callStep (n : ℕ) (s : EventReactor) (k : ℕ) (job : Job) (spec : UInt64) :
    QueueStage → Option EventReactor
  | .want =>
      let loop := s.loops (job.loop n)
      if loop.queueSQELock = none then
        some ((s.setLoop (job.loop n) { loop with queueSQELock := some (.caller k) }).setCall k
          (.active job .locked))
      else none
  | .locked =>
      let loop := s.loops (job.loop n)
      some ((s.setLoop (job.loop n) { loop with needSubmit := 1 }).setCall k
        (.active job .flagged))
  | .flagged =>
      let loop := s.loops (job.loop n)
      match loop.engine.queueSQE job.req.op (opFlags job.req) job.req.userData with
      | some (err, e) =>
          some ((s.setLoop (job.loop n) (loop.withEngine e)).setCall k
            (.active job (afterQueueSQE job.req err)))
      | none =>
          some ((s.setLoop (job.loop n) (loop.withEngine loop.engine.abandonSQE)).setCall k
            (.active job .panicking))
  | .linking =>
      let loop := s.loops (job.loop n)
      -- The error of the link timeout is ignored; its `PrepSQE` does not panic.
      (loop.engine.queueSQE (linkTimeoutOp spec) 0 timeoutNonce).map fun (_, e) =>
        (s.setLoop (job.loop n) (loop.withEngine e)).setCall k (.active job .queued)
  | .queued =>
      let loop := s.loops (job.loop n)
      let callbacks := Function.update loop.callbacks job.req.userData (job.cb k)
      some ((s.setLoop (job.loop n) { loop with callbacks := callbacks }).setCall k
        (.active job .registered))
  | .failed err =>
      let loop := s.loops (job.loop n)
      some ((s.setLoop (job.loop n) { loop with queueSQELock := none }).setCall k
        (.returned job (some err)))
  | .registered =>
      let loop := s.loops (job.loop n)
      some ((s.setLoop (job.loop n) { loop with queueSQELock := none }).setCall k
        (.returned job none))
  | .panicking =>
      let loop := s.loops (job.loop n)
      some ((s.setLoop (job.loop n) { loop with queueSQELock := none }).setCall k
        (.recovered job))

/-- The next step of the publisher of loop `l` after a signal. -/
def publishStep (s : EventReactor) (l : ℕ) (result : EnterResult) :
    PublishStage → Option EventReactor
  | .cas =>
      if (s.loops l).needSubmit = 1 then
        some (s.setLoop l { (s.loops l).publish (.busy .wantLock) with needSubmit := 0 })
      else
        some (s.setLoop l ((s.loops l).publish .select))
  | .wantLock =>
      if (s.loops l).queueSQELock = none then
        some (s.setLoop l
          { (s.loops l).publish (.busy .locked) with queueSQELock := some .publisher })
      else none
  | .locked =>
      -- An error is logged, and that is all.
      ((s.loops l).engine.submit result).map fun (_, e) =>
        s.setLoop l (((s.loops l).withEngine e).publish (.busy .unlock))
  | .unlock =>
      some (s.setLoop l { (s.loops l).publish .select with queueSQELock := none })

/-- The consumer's send on `submitSignal`, received by the publisher. -/
def signalStep (s : EventReactor) (l : ℕ) : Option EventReactor :=
  if (s.loops l).engine.pc = .signal then
    if (s.loops l).shell.closed .submitSignal then
      some { s with panicked := some (.channel (.sendOnClosed .submitSignal)) }
    else
      match (s.loops l).shell.publisher with
      | .select =>
          let e := (s.loops l).engine.goto (.wait waitParams) rfl
          some (s.setLoop l (((s.loops l).withEngine e).publish (.busy .cas)))
      | _ => none
  else none

/-- One turn of the loop over a batch in `runConsumer`: a callback is found, called
and deleted under `callbacksLock`. -/
def dispatchOne (s : EventReactor) (l : ℕ) : Option EventReactor :=
  (s.loops l).engine.take.map fun (cqe, e) =>
    let loop := (s.loops l).withEngine e
    if Reserved cqe.userData then
      s.setLoop l loop
    else
      match loop.callbacks cqe.userData with
      | some k =>
          let callbacks := Function.update loop.callbacks cqe.userData none
          { s.setLoop l { loop with callbacks := callbacks } with
            invoked := s.invoked ++ [(k, cqe)] }
      | none => { s with panicked := some .nilCallback }

/-- One step of a reactor with `n` loops that has not panicked. -/
def stepLive (n : ℕ) (s : EventReactor) : ReactorEvent → Option EventReactor
  | .queue k op timeout =>
      match s.calls k with
      | .free => some (s.setCall k (.drawing op timeout))
      | _ => none
  | .cancel k nonce =>
      match s.calls k with
      | .free => some (s.setCall k (.active (.cancel nonce) .want))
      | _ => none
  | .draw k =>
      match s.calls k with
      | .drawing op timeout => some (s.nextNonce k op timeout)
      | _ => none
  | .call k spec =>
      match s.calls k with
      | .active job stage =>
          -- `loopForNonce` divides by the number of loops.
          if n = 0 then some { s with panicked := some .divideByZero }
          else s.callStep n k job spec stage
      | _ => none
  | .signal l => if l < n then s.signalStep l else none
  | .publish l result =>
      if l < n then
        match (s.loops l).shell.publisher with
        | .busy stage => s.publishStep l result stage
        | _ => none
      else none
  | .consumer l event =>
      if l < n then
        ((s.loops l).engine.consumerStep false event).map fun e =>
          s.setLoop l ((s.loops l).withEngine e)
      else none
  | .dispatch l => if l < n then s.dispatchOne l else none
  | .kernel l event =>
      if l < n then
        ((s.loops l).engine.kernelStep event).map fun e =>
          s.setLoop l ((s.loops l).withEngine e)
      else none
  | .stop event =>
      (stopStep n reactorExits s.run (fun l => (s.loops l).shell) event).map fun o =>
        { s.setLoop o.loop { s.loops o.loop with shell := o.shell } with
          run := o.run
          panicked := o.panic.map .channel }

/-- One step; a panic ends the program. -/
def step (n : ℕ) (s : EventReactor) (e : ReactorEvent) : Option EventReactor :=
  if s.panicked = none then s.stepLive n e else none

/-- `New(rings)` before the first step of its goroutines. -/
def start (rings : ℕ → ReactorRing false) : EventReactor where
  currentNonce := 0
  loops l :=
    { shell :=
        { engine := Engine.start (rings l)
          publisher := .select
          closed := fun _ => false }
      callbacks := fun _ => none
      queueSQELock := none
      needSubmit := 0 }
  calls _ := .free
  run := .running
  invoked := []
  draws := 0
  panicked := none

/-! ## The step function, taken apart -/

/-- The transitions of a reactor, one for each way an event can happen. -/
inductive Transition (n : ℕ) (s : EventReactor) : ReactorEvent → EventReactor → Prop
  | queue {k : ℕ} {op : Operation} {timeout : Int64} (here : s.calls k = .free) :
      Transition n s (.queue k op timeout) (s.setCall k (.drawing op timeout))
  | cancel {k : ℕ} {nonce : UInt64} (here : s.calls k = .free) :
      Transition n s (.cancel k nonce) (s.setCall k (.active (.cancel nonce) .want))
  /-- `nextNonce` passes over a reserved value. -/
  | skip {k : ℕ} {op : Operation} {timeout : Int64} (here : s.calls k = .drawing op timeout)
      (reserved : cancelNonce ≤ s.currentNonce + 1) :
      Transition n s (.draw k) { s with currentNonce := s.currentNonce + 1 }
  | draw {k : ℕ} {op : Operation} {timeout : Int64} (here : s.calls k = .drawing op timeout)
      (small : s.currentNonce + 1 < cancelNonce) :
      Transition n s (.draw k)
        { s.setCall k (.active (.queue op timeout (s.currentNonce + 1) small (s.draws + 1))
            .want) with
          currentNonce := s.currentNonce + 1
          draws := s.draws + 1 }
  /-- There is no loop to take. -/
  | noLoop {k : ℕ} {spec : UInt64} (none : n = 0) :
      Transition n s (.call k spec) { s with panicked := some .divideByZero }
  | lock {k : ℕ} {spec : UInt64} {job : Job} (some_loop : 0 < n)
      (here : s.calls k = .active job .want)
      (free : (s.loops (job.loop n)).queueSQELock = none) :
      Transition n s (.call k spec)
        ((s.setLoop (job.loop n)
          { s.loops (job.loop n) with queueSQELock := some (.caller k) }).setCall k
            (.active job .locked))
  | flag {k : ℕ} {spec : UInt64} {job : Job} (some_loop : 0 < n)
      (here : s.calls k = .active job .locked) :
      Transition n s (.call k spec)
        ((s.setLoop (job.loop n) { s.loops (job.loop n) with needSubmit := 1 }).setCall k
          (.active job .flagged))
  | queueOp {k : ℕ} {spec : UInt64} {job : Job} {err : Option RingError} {e : Engine}
      (some_loop : 0 < n) (here : s.calls k = .active job .flagged)
      (done : (s.loops (job.loop n)).engine.queueSQE job.req.op (opFlags job.req)
        job.req.userData = some (err, e)) :
      Transition n s (.call k spec)
        ((s.setLoop (job.loop n) ((s.loops (job.loop n)).withEngine e)).setCall k
          (.active job (afterQueueSQE job.req err)))
  /-- `PrepSQE` panics, and the slot is abandoned. -/
  | abandon {k : ℕ} {spec : UInt64} {job : Job} (some_loop : 0 < n)
      (here : s.calls k = .active job .flagged)
      (panics : (s.loops (job.loop n)).engine.queueSQE job.req.op (opFlags job.req)
        job.req.userData = none) :
      Transition n s (.call k spec)
        ((s.setLoop (job.loop n) ((s.loops (job.loop n)).withEngine
          (s.loops (job.loop n)).engine.abandonSQE)).setCall k (.active job .panicking))
  | link {k : ℕ} {spec : UInt64} {job : Job} {err : Option RingError} {e : Engine}
      (some_loop : 0 < n) (here : s.calls k = .active job .linking)
      (done : (s.loops (job.loop n)).engine.queueSQE (linkTimeoutOp spec) 0 timeoutNonce =
        some (err, e)) :
      Transition n s (.call k spec)
        ((s.setLoop (job.loop n) ((s.loops (job.loop n)).withEngine e)).setCall k
          (.active job .queued))
  | register {k : ℕ} {spec : UInt64} {job : Job} (some_loop : 0 < n)
      (here : s.calls k = .active job .queued) :
      Transition n s (.call k spec)
        ((s.setLoop (job.loop n)
          { s.loops (job.loop n) with
            callbacks := Function.update (s.loops (job.loop n)).callbacks job.req.userData
              (job.cb k) }).setCall k (.active job .registered))
  /-- The call lets the lock go and ends. -/
  | leave {k : ℕ} {spec : UInt64} {job : Job} {stage : QueueStage} {call : Call}
      (some_loop : 0 < n) (here : s.calls k = .active job stage)
      (last : stage.ending job = some call) :
      Transition n s (.call k spec)
        ((s.setLoop (job.loop n) { s.loops (job.loop n) with queueSQELock := none }).setCall k
          call)
  /-- A send on a closed channel. -/
  | signalClosed {l : ℕ} (lt : l < n) (here : (s.loops l).engine.pc = .signal)
      (closed : (s.loops l).shell.closed .submitSignal = true) :
      Transition n s (.signal l)
        { s with panicked := some (.channel (.sendOnClosed .submitSignal)) }
  | signal {l : ℕ} (lt : l < n) (here : (s.loops l).engine.pc = .signal)
      (publisher : (s.loops l).shell.publisher = .select) :
      Transition n s (.signal l)
        (s.setLoop l (((s.loops l).withEngine
          ((s.loops l).engine.goto (.wait waitParams) rfl)).publish (.busy .cas)))
  /-- `needSubmit` was set, and is taken. -/
  | swap {l : ℕ} {result : EnterResult} (lt : l < n)
      (here : (s.loops l).shell.publisher = .busy .cas) (set : (s.loops l).needSubmit = 1) :
      Transition n s (.publish l result)
        (s.setLoop l { (s.loops l).publish (.busy .wantLock) with needSubmit := 0 })
  /-- `needSubmit` was not set. -/
  | noSwap {l : ℕ} {result : EnterResult} (lt : l < n)
      (here : (s.loops l).shell.publisher = .busy .cas) (unset : (s.loops l).needSubmit ≠ 1) :
      Transition n s (.publish l result) (s.setLoop l ((s.loops l).publish .select))
  | lockSubmit {l : ℕ} {result : EnterResult} (lt : l < n)
      (here : (s.loops l).shell.publisher = .busy .wantLock)
      (free : (s.loops l).queueSQELock = none) :
      Transition n s (.publish l result)
        (s.setLoop l
          { (s.loops l).publish (.busy .locked) with queueSQELock := some .publisher })
  | submit {l : ℕ} {result : EnterResult} {ret : Except RingError ℕ} {e : Engine} (lt : l < n)
      (here : (s.loops l).shell.publisher = .busy .locked)
      (done : (s.loops l).engine.submit result = some (ret, e)) :
      Transition n s (.publish l result)
        (s.setLoop l (((s.loops l).withEngine e).publish (.busy .unlock)))
  | unlockSubmit {l : ℕ} {result : EnterResult} (lt : l < n)
      (here : (s.loops l).shell.publisher = .busy .unlock) :
      Transition n s (.publish l result)
        (s.setLoop l { (s.loops l).publish .select with queueSQELock := none })
  | consumer {l : ℕ} {event : ConsumerEvent} {e : Engine} (lt : l < n)
      (done : (s.loops l).engine.consumerStep false event = some e) :
      Transition n s (.consumer l event) (s.setLoop l ((s.loops l).withEngine e))
  /-- A completion of a link timeout or of a cancel is passed over. -/
  | passOver {l : ℕ} {cqe : CQEvent} {e : Engine} (lt : l < n)
      (taken : (s.loops l).engine.take = some (cqe, e)) (reserved : Reserved cqe.userData) :
      Transition n s (.dispatch l) (s.setLoop l ((s.loops l).withEngine e))
  | deliver {l k : ℕ} {cqe : CQEvent} {e : Engine} (lt : l < n)
      (taken : (s.loops l).engine.take = some (cqe, e)) (request : ¬ Reserved cqe.userData)
      (found : (s.loops l).callbacks cqe.userData = some k) :
      Transition n s (.dispatch l)
        { s.setLoop l
            { (s.loops l).withEngine e with
              callbacks := Function.update (s.loops l).callbacks cqe.userData none } with
          invoked := s.invoked ++ [(k, cqe)] }
  /-- A completion has no callback. -/
  | missing {l : ℕ} {cqe : CQEvent} {e : Engine} (lt : l < n)
      (taken : (s.loops l).engine.take = some (cqe, e)) (request : ¬ Reserved cqe.userData)
      (found : (s.loops l).callbacks cqe.userData = none) :
      Transition n s (.dispatch l) { s with panicked := some .nilCallback }
  | kernel {l : ℕ} {event : KernelEvent} {e : Engine} (lt : l < n)
      (done : (s.loops l).engine.kernelStep event = some e) :
      Transition n s (.kernel l event) (s.setLoop l ((s.loops l).withEngine e))
  | stop {event : StopEvent} {o : StopOutcome PublishStage}
      (done : stopStep n reactorExits s.run (fun l => (s.loops l).shell) event = some o) :
      Transition n s (.stop event)
        { s.setLoop o.loop { s.loops o.loop with shell := o.shell } with
          run := o.run
          panicked := o.panic.map .channel }

section Inversion

variable {n : ℕ} {s s' : EventReactor}

theorem callStep_transition {k : ℕ} {job : Job} {spec : UInt64} {stage : QueueStage}
    (some_loop : 0 < n) (here : s.calls k = .active job stage)
    (stepped : s.callStep n k job spec stage = some s') : Transition n s (.call k spec) s' := by
  cases stage with
  | want =>
      simp only [callStep] at stepped
      split at stepped
      · next free =>
        cases stepped
        exact .lock some_loop here free
      · cases stepped
  | locked =>
      cases stepped
      exact .flag some_loop here
  | flagged =>
      simp only [callStep] at stepped
      split at stepped
      · next queued =>
        cases stepped
        exact .queueOp some_loop here queued
      · next panics =>
        cases stepped
        exact .abandon some_loop here panics
  | linking =>
      obtain ⟨⟨err, e⟩, queued, rfl⟩ := Option.map_eq_some_iff.mp stepped
      exact .link some_loop here queued
  | queued =>
      cases stepped
      exact .register some_loop here
  | failed err =>
      cases stepped
      exact .leave some_loop here rfl
  | registered =>
      cases stepped
      exact .leave some_loop here rfl
  | panicking =>
      cases stepped
      exact .leave some_loop here rfl

theorem publishStep_transition {l : ℕ} {result : EnterResult} {stage : PublishStage} (lt : l < n)
    (here : (s.loops l).shell.publisher = .busy stage)
    (stepped : s.publishStep l result stage = some s') :
    Transition n s (.publish l result) s' := by
  cases stage with
  | cas =>
      simp only [publishStep] at stepped
      split at stepped
      · next set =>
        cases stepped
        exact .swap lt here set
      · next unset =>
        cases stepped
        exact .noSwap lt here unset
  | wantLock =>
      simp only [publishStep] at stepped
      split at stepped
      · next free =>
        cases stepped
        exact .lockSubmit lt here free
      · cases stepped
  | locked =>
      obtain ⟨⟨ret, e⟩, submitted, rfl⟩ := Option.map_eq_some_iff.mp stepped
      exact .submit lt here submitted
  | unlock =>
      cases stepped
      exact .unlockSubmit lt here

theorem signalStep_transition {l : ℕ} (lt : l < n) (stepped : s.signalStep l = some s') :
    Transition n s (.signal l) s' := by
  unfold signalStep at stepped
  split at stepped
  · next here =>
    split at stepped
    · next closed =>
      cases stepped
      exact .signalClosed lt here closed
    · split at stepped
      · next publisher =>
        cases stepped
        exact .signal lt here publisher
      · cases stepped
  · cases stepped

theorem dispatchOne_transition {l : ℕ} (lt : l < n) (stepped : s.dispatchOne l = some s') :
    Transition n s (.dispatch l) s' := by
  obtain ⟨⟨cqe, e⟩, taken, done⟩ := Option.map_eq_some_iff.mp stepped
  dsimp only at done
  split at done
  · next reserved =>
    subst done
    exact .passOver lt taken reserved
  · next request =>
    split at done
    · next k found =>
      subst done
      exact .deliver lt taken request found
    · next found =>
      subst done
      exact .missing lt taken request found

/-- **Every step is a transition**, taken by a reactor that has not panicked. -/
theorem step_transition {e : ReactorEvent} (stepped : s.step n e = some s') :
    s.panicked = none ∧ Transition n s e s' := by
  unfold step at stepped
  split at stepped
  · next alive =>
    refine ⟨alive, ?_⟩
    cases e with
    | queue k op timeout =>
        simp only [stepLive] at stepped
        split at stepped
        · next here =>
          cases stepped
          exact .queue here
        · cases stepped
    | cancel k nonce =>
        simp only [stepLive] at stepped
        split at stepped
        · next here =>
          cases stepped
          exact .cancel here
        · cases stepped
    | draw k =>
        simp only [stepLive] at stepped
        split at stepped
        · next op timeout here =>
          cases stepped
          unfold nextNonce
          dsimp only
          split
          · next reserved => exact .skip here reserved
          · next small => exact .draw here (UInt64.not_le.mp small)
        · cases stepped
    | call k spec =>
        simp only [stepLive] at stepped
        split at stepped
        · next here =>
          split at stepped
          · next none =>
            cases stepped
            exact .noLoop none
          · next some_loop => exact callStep_transition (Nat.pos_of_ne_zero some_loop) here stepped
        · cases stepped
    | signal l =>
        simp only [stepLive] at stepped
        split at stepped
        · next lt => exact signalStep_transition lt stepped
        · cases stepped
    | publish l result =>
        simp only [stepLive] at stepped
        split at stepped
        · next lt =>
          split at stepped
          · next here => exact publishStep_transition lt here stepped
          · cases stepped
        · cases stepped
    | consumer l event =>
        simp only [stepLive] at stepped
        split at stepped
        · next lt =>
          obtain ⟨e, moved, rfl⟩ := Option.map_eq_some_iff.mp stepped
          exact .consumer lt moved
        · cases stepped
    | dispatch l =>
        simp only [stepLive] at stepped
        split at stepped
        · next lt => exact dispatchOne_transition lt stepped
        · cases stepped
    | kernel l event =>
        simp only [stepLive] at stepped
        split at stepped
        · next lt =>
          obtain ⟨e, moved, rfl⟩ := Option.map_eq_some_iff.mp stepped
          exact .kernel lt moved
        · cases stepped
    | stop event =>
        obtain ⟨o, stopped, rfl⟩ := Option.map_eq_some_iff.mp stepped
        exact .stop stopped
  · cases stepped

end Inversion

/-! ## Operations that panic -/

/-- The job of a call that is about to queue its operation. -/
def queueingJob : Call → Option Job
  | .active job .flagged => some job
  | _ => none

/-- No call is about to queue an operation whose `PrepSQE` panics in the slot it is handed. -/
def Prepares (n : ℕ) (s : EventReactor) : ReactorEvent → Prop
  | .call k _ => ∀ job ∈ queueingJob (s.calls k),
      (s.loops (job.loop n)).engine.sq.sq.Prepares job.req.op
  | _ => True

instance (n : ℕ) (s : EventReactor) : (e : ReactorEvent) → Decidable (s.Prepares n e)
  | .call k _ => inferInstanceAs (Decidable (∀ job ∈ queueingJob (s.calls k), _))
  | .queue _ _ _ | .cancel _ _ | .draw _ | .signal _ | .publish _ _ | .consumer _ _
  | .dispatch _ | .kernel _ _ | .stop _ => .isTrue trivial

theorem Prepares.not_panics {n k : ℕ} {spec : UInt64} {s : EventReactor} {job : Job}
    {flags : UInt8} {userData : UInt64} (prepares : s.Prepares n (.call k spec))
    (here : s.calls k = .active job .flagged)
    (panics : (s.loops (job.loop n)).engine.queueSQE job.req.op flags userData = none) : False :=
  Engine.queueSQE_panics_iff.mp panics (prepares job (by rw [here]; rfl))

end EventReactor

end GoUring.Reactor
