import GoUring.Foundation.Runs
import GoUring.Reactor.RequestTable
import GoUring.Reactor.Shutdown

/-!
# The network reactor

`NetworkReactor` of `reactor/net.go` as a step function.  Callers number a
request, register its callback and send the request to the loop of the
descriptor; the loop's publisher queues and submits, its consumer dispatches, the
kernel reads and completes, and `Run` stops the loops.  The steps are the atomic
operations and the locked sections of the source: the fast path of the registry's
`add` is two steps, a channel operation is one, and so is each case of the
publisher's `select` — nobody else touches what a case works on, except the SQ
thread of the kernel, which may read between the two `QueueSQE` calls of a timed
request.

A callback is the number of the `Queue` call that passed it.  Besides the state
of the program a reactor records which callbacks were invoked with which
completion, which were dropped by the publisher, and how many requests each
descriptor has had.
-/

namespace GoUring.Reactor

open Uring

/-- `NetOperation`: an operation and its `Fd()`, which is a descriptor: a C `int`
that is not negative. -/
structure NetOperation where
  op : Operation
  fd : ℕ
  fd_lt : fd < 2 ^ 31

/-- `fdPerGranule`. -/
def fdPerGranule : ℕ := 75

/-- The capacity of `reqBuss`. -/
def reqBussCap : ℕ := 256

/-- `NetworkReactor.loopForFd`, for `n` loops. -/
def loopForFd (n fd : ℕ) : ℕ := fd / fdPerGranule % n

/-- What a numbered request is known by: its descriptor, its nonce, and its
position among the requests of the descriptor. -/
structure Ticket where
  fd : ℕ
  fd_lt : fd < 2 ^ 31
  nonce : UInt32
  serial : ℕ

/-- `packRequestID(op.Fd(), nonce)`. -/
def Ticket.id (t : Ticket) : RequestID := packRequestID t.fd t.nonce

theorem Ticket.not_reserved (t : Ticket) : ¬ Reserved t.id :=
  RequestID.not_reserved_pack t.fd_lt t.nonce

/-- The ticket of an operation. -/
def NetOperation.ticket (op : NetOperation) (nonce : UInt32) (serial : ℕ) : Ticket where
  fd := op.fd
  fd_lt := op.fd_lt
  nonce := nonce
  serial := serial

/-- The request `queue` sends. -/
def Ticket.request (t : Ticket) (op : Operation) (timeout : Int64) : SubSqeRequest where
  op := op
  flags := 0
  userData := t.id
  timeout := timeout
  untimed := fun reserved => absurd reserved t.not_reserved

/-- What `queue` is called with.  `timeout` is zero for `Queue`; the callback may
be nil. -/
structure QueueArgs where
  op : NetOperation
  timeout : Int64
  nilCallback : Bool

/-- The callback call number `k` passes. -/
def QueueArgs.cb (args : QueueArgs) (k : ℕ) : Option ℕ :=
  if args.nilCallback then none else some k

/-- Where a call of `Queue`, `QueueWithDeadline` or `Cancel` is. -/
inductive NetCall
  /-- The call was not made yet. -/
  | free
  /-- `queue` is entered. -/
  | called (args : QueueArgs)
  /-- On the fast path: the nonce is drawn, the callback not stored. -/
  | drawn (args : QueueArgs) (nonce : UInt32) (serial : ℕ)
  /-- The callback is stored; the call is at its send on `reqBuss`. -/
  | stored (args : QueueArgs) (nonce : UInt32) (serial : ℕ)
  /-- `Queue` has returned the identifier. -/
  | returned (args : QueueArgs) (nonce : UInt32) (serial : ℕ)
  /-- `Cancel` is at its send on `reqBuss`. -/
  | cancelling (id : RequestID)
  /-- `Cancel` has returned. -/
  | cancelled

namespace NetCall

/-- The ticket of a call that drew one. -/
def ticket : NetCall → Option Ticket
  | .drawn args nonce serial => some (args.op.ticket nonce serial)
  | .stored args nonce serial => some (args.op.ticket nonce serial)
  | .returned args nonce serial => some (args.op.ticket nonce serial)
  | _ => none

/-- The call has put a callback into the registry. -/
def registered : NetCall → Bool
  | .stored args _ _ => !args.nilCallback
  | .returned args _ _ => !args.nilCallback
  | _ => false

/-- The call has sent its request. -/
def launched : NetCall → Bool
  | .returned _ _ _ => true
  | _ => false

/-- `Queue` has returned this identifier. -/
def HasReturned (call : NetCall) (id : RequestID) : Prop :=
  ∃ args nonce serial, call = .returned args nonce serial ∧
    id = (args.op.ticket nonce serial).id

/-- The call passed a nil callback. -/
def isNil : NetCall → Bool
  | .called args => args.nilCallback
  | .drawn args _ _ => args.nilCallback
  | .stored args _ _ => args.nilCallback
  | .returned args _ _ => args.nilCallback
  | _ => false

/-- The loop a call at its send on `reqBuss` sends to, out of `n`. -/
def target (n : ℕ) : NetCall → Option ℕ
  | .stored args _ _ => some (loopForFd n args.op.fd)
  | .cancelling id => some (loopForFd n (RequestID.fd id))
  | _ => none

/-- The loop a call in progress is bound for, out of `n`. -/
def destination (n : ℕ) : NetCall → Option ℕ
  | .called args => some (loopForFd n args.op.fd)
  | .drawn args _ _ => some (loopForFd n args.op.fd)
  | .stored args _ _ => some (loopForFd n args.op.fd)
  | .cancelling id => some (loopForFd n (RequestID.fd id))
  | _ => none

theorem destination_of_target {n l : ℕ} {call : NetCall} (target : call.target n = some l) :
    call.destination n = some l := by
  cases call with
  | stored | cancelling => exact target
  | _ => cases target

end NetCall

/-- `ringNetEventLoop`.  Its publisher is never seen inside a case. -/
structure NetLoop where
  shell : Shell Empty
  reqBuss : List SubSqeRequest
  submitAllowed : UInt32

/-- `NetworkReactor`, its goroutines and its callers. -/
structure NetReactor where
  registry : CallbackRegistry ℕ
  loops : ℕ → NetLoop
  calls : ℕ → NetCall
  run : RunPC
  invoked : List (ℕ × CQEvent)
  dropped : List ℕ
  adds : ℕ → ℕ
  panicked : Option ReactorPanic

/-- What can happen to a reactor. -/
inductive NetEvent
  /-- Call `k` is `Queue` or `QueueWithDeadline`. -/
  | queue (k : ℕ) (args : QueueArgs)
  /-- Call `k` is `Cancel(id)`. -/
  | cancel (k : ℕ) (id : RequestID)
  /-- The registry's `add` of call `k` draws the nonce; on the slow path it stores
  the callback as well. -/
  | draw (k : ℕ)
  /-- The registry's `add` of call `k` stores the callback. -/
  | store (k : ℕ)
  /-- Call `k` sends on `reqBuss`. -/
  | send (k : ℕ)
  /-- The publisher of loop `l` handles a request; `spec` is the address of the
  link timeout's timespec, `reads` how often the SQ thread reads before the link
  timeout is queued. -/
  | request (l : ℕ) (spec : UInt64) (reads : ℕ)
  /-- The consumer of loop `l` sends on `submitSignal` and the publisher handles
  the signal; `result` is the kernel's answer if it submits. -/
  | signal (l : ℕ) (result : EnterResult)
  /-- The consumer of loop `l` takes a step of its own. -/
  | consumer (l : ℕ) (event : ConsumerEvent)
  /-- The consumer of loop `l` dispatches a completion. -/
  | dispatch (l : ℕ)
  /-- The kernel takes a step on the ring of loop `l`. -/
  | kernel (l : ℕ) (event : KernelEvent)
  /-- A step of the stop. -/
  | stop (event : StopEvent)

/-- The event is no `Queue` with a nil callback. -/
def NetEvent.GivesCallback : NetEvent → Prop
  | .queue _ args => args.nilCallback = false
  | _ => True

namespace NetLoop

/-- The first `QueueSQE` calls of the request case of `runPublisher`, and the
error they end with. -/
def queueRequest (e : Engine) (req : SubSqeRequest) (spec : UInt64) (reads : ℕ) :
    Option (Option RingError × Engine) :=
  if req.timeout = 0 then
    e.queueSQE req.op req.flags req.userData
  else
    (e.queueSQE req.op (req.flags ||| sqeIOLinkFlag) req.userData).bind fun (err, e) =>
      match err with
      | some err => some (some err, e)
      | none =>
          (e.threadReads reads).bind fun e => e.queueSQE (linkTimeoutOp spec) 0 timeoutNonce

/-- The signal case of `runPublisher`: the flag and the ring afterwards. -/
def submitCase (submitAllowed : UInt32) (e : Engine) (result : EnterResult) :
    Option (UInt32 × Engine) :=
  if submitAllowed = 1 then
    (e.submit result).map fun (ret, e) =>
      match ret with
      | .ok _ => (0, e)
      | .error err => (if err.is .ebusy || err.is .eagain then 1 else 0, e)
  else
    some (submitAllowed, e)

/-- The ring of the loop. -/
def engine (loop : NetLoop) : Engine := loop.shell.engine

/-- The loop with another ring. -/
def withEngine (loop : NetLoop) (e : Engine) : NetLoop :=
  { loop with shell := { loop.shell with engine := e } }

end NetLoop

/-- What a publisher of the network reactor closes when it was told to stop: its
own stop channel, and then its deferred closes, last one first. -/
def netExits : List Chan := [.stopPublisherCh, .submitSignal, .reqBuss]

namespace NetReactor

/-- The reactor with one loop replaced. -/
def setLoop (s : NetReactor) (l : ℕ) (loop : NetLoop) : NetReactor :=
  { s with loops := Function.update s.loops l loop }

/-- The reactor with one call replaced. -/
def setCall (s : NetReactor) (k : ℕ) (call : NetCall) : NetReactor :=
  { s with calls := Function.update s.calls k call }

/-- The request is appended to the channel of a loop. -/
def pushRequest (s : NetReactor) (l : ℕ) (req : SubSqeRequest) : NetReactor :=
  s.setLoop l { s.loops l with reqBuss := (s.loops l).reqBuss ++ [req] }

/-- `loop.reqBuss <- req`, the last thing call `k` does: a send on a closed
channel panics, a send on a full one waits. -/
def sendRequest (s : NetReactor) (l : ℕ) (req : SubSqeRequest) (k : ℕ) (call : NetCall) :
    Option NetReactor :=
  if (s.loops l).shell.closed .reqBuss then
    some { s with panicked := some (.channel (.sendOnClosed .reqBuss)) }
  else if (s.loops l).reqBuss.length < reqBussCap then
    some ((s.pushRequest l req).setCall k call)
  else none

/-- The request case of `runPublisher`. -/
def requestCase (s : NetReactor) (l : ℕ) (spec : UInt64) (reads : ℕ) : Option NetReactor :=
  match (s.loops l).shell.publisher, (s.loops l).reqBuss with
  | .select, req :: rest =>
      (NetLoop.queueRequest (s.loops l).engine req spec reads).map fun (err, e) =>
        let s := s.setLoop l
          { (s.loops l).withEngine e with reqBuss := rest, submitAllowed := 1 }
        match err with
        | none => s
        | some _ =>
            { s with
              registry := (s.registry.pop req.userData).2
              dropped := s.dropped ++ (s.registry.pop req.userData).1.toList }
  | _, _ => none

/-- Where a consumer goes after one of its sends on `submitSignal`. -/
def afterSignal : ConsumerPC → Option ConsumerPC
  | .signal => some (.wait waitParams)
  | .resignal => some .peek
  | _ => none

theorem taken_afterSignal {pc pc' : ConsumerPC} (next : afterSignal pc = some pc') :
    pc'.taken = 0 := by
  cases pc with
  | signal => cases next; rfl
  | resignal => cases next; rfl
  | _ => cases next

/-- The consumer's send on `submitSignal` and the signal case of
`runPublisher`. -/
def signalCase (s : NetReactor) (l : ℕ) (result : EnterResult) : Option NetReactor :=
  match next : afterSignal (s.loops l).engine.pc with
  | none => none
  | some pc =>
      if (s.loops l).shell.closed .submitSignal then
        some { s with panicked := some (.channel (.sendOnClosed .submitSignal)) }
      else
        match (s.loops l).shell.publisher with
        | .select =>
            (NetLoop.submitCase (s.loops l).submitAllowed
                ((s.loops l).engine.goto pc (taken_afterSignal next)) result).map
              fun (submitAllowed, e) =>
                s.setLoop l { (s.loops l).withEngine e with submitAllowed := submitAllowed }
        | _ => none

/-- One turn of the loop over a batch in `runConsumer`. -/
def dispatchOne (s : NetReactor) (l : ℕ) : Option NetReactor :=
  (s.loops l).engine.take.map fun (cqe, e) =>
    let loop := (s.loops l).withEngine e
    if Reserved cqe.userData then
      s.setLoop l loop
    else
      match (s.registry.pop cqe.userData).1 with
      | some k =>
          { s.setLoop l loop with
            registry := (s.registry.pop cqe.userData).2
            invoked := s.invoked ++ [(k, cqe)] }
      | none => { s with panicked := some .nilCallback }

/-- The registry's `add` up to the point where the nonce is drawn. -/
def drawNonce (s : NetReactor) (k : ℕ) (args : QueueArgs) : NetReactor :=
  let fd := args.op.fd
  let adds := Function.update s.adds fd (s.adds fd + 1)
  if fast : s.registry.raw.fast fd = true then
    let added := s.registry.addNonce fd fast
    { s.setCall k (.drawn args added.1 (s.adds fd + 1)) with
      registry := added.2
      adds := adds }
  else
    let added := s.registry.slowAdd fd (args.cb k) (Bool.eq_false_iff.mpr fast)
    { s.setCall k (.stored args added.1 (s.adds fd + 1)) with
      registry := added.2
      adds := adds }

/-- One step of a reactor with `n` loops that has not panicked. -/
def stepLive (n : ℕ) (s : NetReactor) : NetEvent → Option NetReactor
  | .queue k args =>
      match s.calls k with
      | .free => some (s.setCall k (.called args))
      | _ => none
  | .cancel k id =>
      match s.calls k with
      | .free => some (s.setCall k (.cancelling id))
      | _ => none
  | .draw k =>
      match s.calls k with
      | .called args => some (s.drawNonce k args)
      | _ => none
  | .store k =>
      match s.calls k with
      | .drawn args nonce serial =>
          -- `boundary` is fixed, so the path is the one taken at the draw.
          if fast : s.registry.raw.fast args.op.fd = true then
            some
              { s.setCall k (.stored args nonce serial) with
                registry := s.registry.storeCallback args.op.fd nonce (args.cb k) fast }
          else none
      | _ => none
  | .send k =>
      match s.calls k with
      | .stored args nonce serial =>
          s.sendRequest (loopForFd n args.op.fd)
            ((args.op.ticket nonce serial).request args.op.op args.timeout) k
            (.returned args nonce serial)
      | .cancelling id =>
          s.sendRequest (loopForFd n (RequestID.fd id)) (cancelRequest id) k .cancelled
      | _ => none
  | .request l spec reads => if l < n then s.requestCase l spec reads else none
  | .signal l result => if l < n then s.signalCase l result else none
  | .consumer l event =>
      if l < n then
        ((s.loops l).engine.consumerStep true event).map fun e =>
          s.setLoop l ((s.loops l).withEngine e)
      else none
  | .dispatch l => if l < n then s.dispatchOne l else none
  | .kernel l event =>
      if l < n then
        ((s.loops l).engine.kernelStep event).map fun e =>
          s.setLoop l ((s.loops l).withEngine e)
      else none
  | .stop event =>
      (stopStep n netExits s.run (fun l => (s.loops l).shell) event).map fun o =>
        { s.setLoop o.loop { s.loops o.loop with shell := o.shell } with
          run := o.run
          panicked := o.panic.map .channel }

/-- One step; a panic ends the program. -/
def step (n : ℕ) (s : NetReactor) (e : NetEvent) : Option NetReactor :=
  if s.panicked = none then s.stepLive n e else none

/-- `NewNet(rings)` before the first step of its goroutines. -/
def start (n : ℕ) (some_loop : 0 < n) (rings : ℕ → ReactorRing true) : NetReactor where
  registry := CallbackRegistry.new ℕ n fdPerGranule some_loop (by decide)
  loops l :=
    { shell :=
        { engine := Engine.start (rings l)
          publisher := .select
          closed := fun _ => false }
      reqBuss := []
      submitAllowed := 0 }
  calls _ := .free
  run := .running
  invoked := []
  dropped := []
  adds _ := 0
  panicked := none

/-! ## The step function, taken apart -/

/-- The transitions of a reactor, one for each way an event can happen. -/
inductive Transition (n : ℕ) (s : NetReactor) : NetEvent → NetReactor → Prop
  | queue {k : ℕ} {args : QueueArgs} (here : s.calls k = .free) :
      Transition n s (.queue k args) (s.setCall k (.called args))
  | cancel {k : ℕ} {id : RequestID} (here : s.calls k = .free) :
      Transition n s (.cancel k id) (s.setCall k (.cancelling id))
  | draw {k : ℕ} {args : QueueArgs} (here : s.calls k = .called args) :
      Transition n s (.draw k) (s.drawNonce k args)
  | store {k : ℕ} {args : QueueArgs} {nonce : UInt32} {serial : ℕ}
      (here : s.calls k = .drawn args nonce serial)
      (fast : s.registry.raw.fast args.op.fd = true) :
      Transition n s (.store k)
        { s.setCall k (.stored args nonce serial) with
          registry := s.registry.storeCallback args.op.fd nonce (args.cb k) fast }
  /-- A send on a closed channel. -/
  | sendClosed {k l : ℕ} (target : (s.calls k).target n = some l)
      (closed : (s.loops l).shell.closed .reqBuss = true) :
      Transition n s (.send k)
        { s with panicked := some (.channel (.sendOnClosed .reqBuss)) }
  | send {k : ℕ} {args : QueueArgs} {nonce : UInt32} {serial : ℕ}
      (here : s.calls k = .stored args nonce serial)
      (opened : (s.loops (loopForFd n args.op.fd)).shell.closed .reqBuss = false) :
      Transition n s (.send k)
        ((s.pushRequest (loopForFd n args.op.fd)
          ((args.op.ticket nonce serial).request args.op.op args.timeout)).setCall k
            (.returned args nonce serial))
  | sendCancel {k : ℕ} {id : RequestID} (here : s.calls k = .cancelling id)
      (opened : (s.loops (loopForFd n (RequestID.fd id))).shell.closed .reqBuss = false) :
      Transition n s (.send k)
        ((s.pushRequest (loopForFd n (RequestID.fd id)) (cancelRequest id)).setCall k
          .cancelled)
  | request {l reads : ℕ} {spec : UInt64} {s' : NetReactor} (lt : l < n)
      (done : s.requestCase l spec reads = some s') :
      Transition n s (.request l spec reads) s'
  | signal {l : ℕ} {result : EnterResult} {s' : NetReactor} (lt : l < n)
      (done : s.signalCase l result = some s') : Transition n s (.signal l result) s'
  | consumer {l : ℕ} {event : ConsumerEvent} {e : Engine} (lt : l < n)
      (done : (s.loops l).engine.consumerStep true event = some e) :
      Transition n s (.consumer l event) (s.setLoop l ((s.loops l).withEngine e))
  | dispatch {l : ℕ} {s' : NetReactor} (lt : l < n) (done : s.dispatchOne l = some s') :
      Transition n s (.dispatch l) s'
  | kernel {l : ℕ} {event : KernelEvent} {e : Engine} (lt : l < n)
      (done : (s.loops l).engine.kernelStep event = some e) :
      Transition n s (.kernel l event) (s.setLoop l ((s.loops l).withEngine e))
  | stop {event : StopEvent} {o : StopOutcome Empty}
      (done : stopStep n netExits s.run (fun l => (s.loops l).shell) event = some o) :
      Transition n s (.stop event)
        { s.setLoop o.loop { s.loops o.loop with shell := o.shell } with
          run := o.run
          panicked := o.panic.map .channel }

/-- The two outcomes of a send on `reqBuss`. -/
theorem sendRequest_cases {s s' : NetReactor} {l k : ℕ} {req : SubSqeRequest} {call : NetCall}
    (sent : s.sendRequest l req k call = some s') :
    ((s.loops l).shell.closed .reqBuss = true ∧
        s' = { s with panicked := some (.channel (.sendOnClosed .reqBuss)) }) ∨
      ((s.loops l).shell.closed .reqBuss = false ∧ s' = (s.pushRequest l req).setCall k call) := by
  unfold sendRequest at sent
  split at sent
  · next closed =>
    cases sent
    exact Or.inl ⟨closed, rfl⟩
  · next opened =>
    split at sent
    · cases sent
      exact Or.inr ⟨Bool.eq_false_iff.mpr opened, rfl⟩
    · cases sent

/-- A draw moves one call on, which stays bound for its loop. -/
theorem calls_drawNonce (s : NetReactor) (k : ℕ) (args : QueueArgs) :
    ∃ call, (s.drawNonce k args).calls = Function.update s.calls k call ∧
      ∀ n, call.destination n = some (loopForFd n args.op.fd) := by
  unfold drawNonce
  dsimp only
  split
  · exact ⟨_, rfl, fun _ => rfl⟩
  · exact ⟨_, rfl, fun _ => rfl⟩

/-- A draw is nothing to the loops. -/
theorem loops_drawNonce (s : NetReactor) (k : ℕ) (args : QueueArgs) :
    (s.drawNonce k args).loops = s.loops ∧ (s.drawNonce k args).run = s.run ∧
      (s.drawNonce k args).panicked = s.panicked := by
  unfold drawNonce
  dsimp only
  split
  · exact ⟨rfl, rfl, rfl⟩
  · exact ⟨rfl, rfl, rfl⟩

/-- **Every step is a transition**, taken by a reactor that has not panicked. -/
theorem step_transition {n : ℕ} {s s' : NetReactor} {e : NetEvent}
    (stepped : s.step n e = some s') : s.panicked = none ∧ Transition n s e s' := by
  unfold step at stepped
  split at stepped
  · next alive =>
    refine ⟨alive, ?_⟩
    cases e with
    | queue k args =>
        simp only [stepLive] at stepped
        split at stepped
        · next here =>
          cases stepped
          exact .queue here
        · cases stepped
    | cancel k id =>
        simp only [stepLive] at stepped
        split at stepped
        · next here =>
          cases stepped
          exact .cancel here
        · cases stepped
    | draw k =>
        simp only [stepLive] at stepped
        split at stepped
        · next here =>
          cases stepped
          exact .draw here
        · cases stepped
    | store k =>
        simp only [stepLive] at stepped
        split at stepped
        · next here =>
          split at stepped
          · next fast =>
            cases stepped
            exact .store here fast
          · cases stepped
        · cases stepped
    | send k =>
        simp only [stepLive] at stepped
        split at stepped
        · next args nonce serial here =>
          rcases sendRequest_cases stepped with ⟨closed, rfl⟩ | ⟨opened, rfl⟩
          · exact .sendClosed (by rw [here]; rfl) closed
          · exact .send here opened
        · next id here =>
          rcases sendRequest_cases stepped with ⟨closed, rfl⟩ | ⟨opened, rfl⟩
          · exact .sendClosed (by rw [here]; rfl) closed
          · exact .sendCancel here opened
        · cases stepped
    | request l spec reads =>
        simp only [stepLive] at stepped
        split at stepped
        · next lt => exact .request lt stepped
        · cases stepped
    | signal l result =>
        simp only [stepLive] at stepped
        split at stepped
        · next lt => exact .signal lt stepped
        · cases stepped
    | consumer l event =>
        simp only [stepLive] at stepped
        split at stepped
        · next lt =>
          obtain ⟨e, moved, rfl⟩ := Option.map_eq_some_iff.mp stepped
          exact .consumer lt moved
        · cases stepped
    | dispatch l =>
        simp only [stepLive] at stepped
        split at stepped
        · next lt => exact .dispatch lt stepped
        · cases stepped
    | kernel l event =>
        simp only [stepLive] at stepped
        split at stepped
        · next lt =>
          obtain ⟨e, moved, rfl⟩ := Option.map_eq_some_iff.mp stepped
          exact .kernel lt moved
        · cases stepped
    | stop event =>
        obtain ⟨o, stopped, rfl⟩ := Option.map_eq_some_iff.mp stepped
        exact .stop stopped
  · cases stepped

end NetReactor

end GoUring.Reactor
