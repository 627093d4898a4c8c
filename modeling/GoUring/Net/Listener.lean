import GoUring.Net.Host
import GoUring.Reactor.NetEntries

/-!
# A listener over a network reactor

`Listener.Accept` of `net/listner.go` as a step function.  All calls hand the same
`acceptOp` to `Queue`, wait on the same `acceptChan`, and read the address of the peer
from the one buffer that operation has; there is no lock.  The kernel that completes an
accept writes the address of the peer into the buffer the SQE names, and posts a
completion with the new descriptor.

The reactor may have other users.  They cannot know the buffer, and they do not queue
operations for the listener's descriptor.  Descriptors are not closed here, so a
descriptor stands for one connection.  What `Accept` does to the socket's options is left
out.
-/

namespace GoUring.Net

open Uring Reactor

/-- An address of TCP over IPv4. -/
structure TCPAddr where
  ip : UInt32
  port : UInt16
  deriving DecidableEq, Repr

/-- What a `Listener` is made with: the descriptor of its socket, and the addresses of the
two fields of its `acceptOp` that the kernel writes. -/
structure Listener where
  fd : ℕ
  fd_lt : fd < 2 ^ 31
  addr : UInt64
  len : UInt64

namespace Listener

/-- What `Accept` calls `Queue` with. -/
def queueArgs (w : Listener) : QueueArgs where
  op := { op := acceptOp w.fd 0 w.addr w.len, fd := w.fd, fd_lt := w.fd_lt }
  timeout := 0
  nilCallback := false

/-- The SQE is an accept that names the listener's buffer. -/
def Names (w : Listener) (sqe : SQEntry) : Prop :=
  sqe.opCode = OpCode.accept.toUInt8 ∧ sqe.addr = w.addr

instance (w : Listener) (sqe : SQEntry) : Decidable (w.Names sqe) :=
  inferInstanceAs (Decidable (_ ∧ _))

/-- The request has nothing to do with the listener: it is for another descriptor, and not
an accept into the listener's buffer. -/
structure Alien (w : Listener) (args : QueueArgs) : Prop where
  fd : args.op.fd ≠ w.fd
  buffer : ∀ flags ud old sqe, args.op.op.encode flags ud old = some sqe → ¬ w.Names sqe

end Listener

/-- What others may call `Queue` and `QueueWithDeadline` with. -/
structure AlienArgs (w : Listener) where
  args : QueueArgs
  alien : w.Alien args

/-- The connection `Accept` returns: `newConn(fd, l.addr, rAddr, l.reactor)`. -/
structure AcceptedConn where
  fd : Int32
  rAddr : Option TCPAddr
  deriving DecidableEq, Repr

/-- Where a call of `Accept` is. -/
inductive AcceptCall
  /-- The call was not made yet. -/
  | free
  /-- A call of the reactor that somebody else makes. -/
  | foreign
  /-- In `Queue`. -/
  | queueing
  /-- At the receive from `acceptChan`. -/
  | waiting
  /-- A completion is received. -/
  | received (cqe : CQEvent)
  /-- `Accept` has returned. -/
  | returned (result : Except Errno AcceptedConn)

namespace AcceptCall

/-- The call is one of `Accept`. -/
def isAccept : AcceptCall → Bool
  | .free => false
  | .foreign => false
  | _ => true

/-- The descriptor the call has received. -/
def fd : AcceptCall → Option Int32
  | .received cqe => if cqe.error = none then some cqe.res else none
  | .returned (.ok conn) => some conn.fd
  | _ => none

/-- The descriptor the call has returned. -/
def returnedFd : AcceptCall → Option Int32
  | .returned (.ok conn) => some conn.fd
  | _ => none

end AcceptCall

/-- What can happen. -/
inductive ListenEvent (w : Listener)
  /-- Call `k` is `Accept()`. -/
  | accept (k : ℕ)
  /-- The next step of call `k`. -/
  | step (k : ℕ)
  /-- Call `k` receives from the callback the consumer of loop `l` waits in. -/
  | receive (k l : ℕ)
  /-- Call `k` is a `Queue` or `QueueWithDeadline` of somebody else. -/
  | queue (k : ℕ) (args : AlienArgs w)
  /-- The kernel accepts a connection from `peer` for the SQE at position `i` of those in
  flight on loop `l`. -/
  | complete (l i : ℕ) (fd : Int32) (flags : UInt32) (peer : TCPAddr)
  /-- Another step of the reactor, or of a call inside it. -/
  | net (e : NetEvent)

/-- The kernel accepts a connection. -/
def ListenEvent.accepts {w : Listener} : ListenEvent w → Bool
  | .complete _ _ _ _ _ => true
  | _ => false

/-- A listener, the reactor it uses, and their callers.  `buffer` is what the buffer of
`acceptOp` holds, `none` while it holds no address; `accepted` are the connections the
kernel has accepted for the listener, oldest first. -/
structure ListenSystem where
  host : Host
  calls : ℕ → AcceptCall
  buffer : Option TCPAddr
  accepted : List (Int32 × TCPAddr)

namespace ListenSystem

/-- One call moves on. -/
def setCall (s : ListenSystem) (k : ℕ) (call : AcceptCall) : ListenSystem :=
  { s with calls := Function.update s.calls k call }

/-- The reactor. -/
def net (s : ListenSystem) : NetReactor := s.host.net

/-- Which calls are calls of `Accept`. -/
def accepts (s : ListenSystem) (k : ℕ) : Bool := (s.calls k).isAccept

/-- A step of the reactor. -/
def hostStep (n : ℕ) (s : ListenSystem) (e : NetEvent) : Option ListenSystem :=
  (s.host.step n s.accepts e).map fun host => { s with host := host }

/-- What `Accept` makes of a completion; it reads the address of the peer from the
buffer. -/
def acceptResult (s : ListenSystem) (cqe : CQEvent) : Except Errno AcceptedConn :=
  match cqe.error with
  | some errno => .error errno
  | none => .ok { fd := cqe.res, rAddr := s.buffer }

/-- The next step of call `k`. -/
def callStep (s : ListenSystem) (k : ℕ) : Option ListenSystem :=
  match s.calls k with
  | .queueing =>
      match s.net.calls k with
      | .returned _ _ _ => some (s.setCall k .waiting)
      | _ => none
  | .received cqe => some (s.setCall k (.returned (s.acceptResult cqe)))
  | _ => none

/-- Call `k` receives from the callback the consumer of loop `l` waits in. -/
def receive (s : ListenSystem) (k l : ℕ) : Option ListenSystem :=
  match s.calls k, s.host.delivering l with
  | .waiting, some (j, cqe) =>
      if s.accepts j then
        some ({ s with host := s.host.release l }.setCall k (.received cqe))
      else none
  | _, _ => none

/-- The kernel accepts a connection: it writes the address of the peer and posts the
descriptor, which is new. -/
def complete (n : ℕ) (w : Listener) (s : ListenSystem) (l i : ℕ) (fd : Int32) (flags : UInt32)
    (peer : TCPAddr) : Option ListenSystem :=
  match (s.net.loops l).engine.inflight[i]? with
  | some sqe =>
      if w.Names sqe ∧ ¬ fd < 0 ∧ fd ∉ s.accepted.map Prod.fst then
        (s.hostStep n (.kernel l (.complete i fd flags))).map fun s =>
          { s with buffer := some peer, accepted := s.accepted ++ [(fd, peer)] }
      else none
  | none => none

/-- Whether the event is the kernel accepting a connection for the listener. -/
def isAcceptance (w : Listener) (s : ListenSystem) : NetEvent → Bool
  | .kernel l (.complete i res _) =>
      match (s.net.loops l).engine.inflight[i]? with
      | some sqe => w.Names sqe ∧ ¬ res < 0
      | none => false
  | _ => false

/-- Another step of the reactor, or of a call inside it.  A new call of `Cancel` is one
that somebody else makes. -/
def netStep (n : ℕ) (w : Listener) (s : ListenSystem) (e : NetEvent) : Option ListenSystem :=
  match e with
  | .queue _ _ => none
  | .cancel k _ =>
      match s.calls k with
      | .free => (s.hostStep n e).map fun s => s.setCall k .foreign
      | _ => none
  | _ => if s.isAcceptance w e then none else s.hostStep n e

/-- One step of a program that has not panicked. -/
def stepLive (n : ℕ) (w : Listener) (s : ListenSystem) : ListenEvent w → Option ListenSystem
  | .accept k =>
      match s.calls k with
      | .free => (s.hostStep n (.queue k w.queueArgs)).map fun s => s.setCall k .queueing
      | _ => none
  | .step k => s.callStep k
  | .receive k l => s.receive k l
  | .queue k args =>
      match s.calls k with
      | .free => (s.hostStep n (.queue k args.args)).map fun s => s.setCall k .foreign
      | _ => none
  | .complete l i fd flags peer => s.complete n w l i fd flags peer
  | .net e => s.netStep n w e

/-- One step; a panic ends the program. -/
def step (n : ℕ) (w : Listener) (s : ListenSystem) (e : ListenEvent w) : Option ListenSystem :=
  if s.net.panicked = none then s.stepLive n w e else none

/-- A new listener on a new reactor. -/
def start (n : ℕ) (some_loop : 0 < n) (rings : ℕ → ReactorRing true) : ListenSystem where
  host := { net := NetReactor.start n some_loop rings, delivering := fun _ => none }
  calls _ := .free
  buffer := none
  accepted := []

/-! ## The step function, taken apart -/

/-- **What a step of the reactor does** to the rest: the callbacks consumers wait in follow
the reactor, and everything else stays. -/
structure HostMove (n : ℕ) (s : ListenSystem) (e : NetEvent) (s' : ListenSystem) : Prop where
  stepped : s.net.step n e = some s'.net
  calls : s'.calls = s.calls
  buffer : s'.buffer = s.buffer
  accepted : s'.accepted = s.accepted
  delivering : (s'.net.invoked = s.net.invoked ∧ s'.host.delivering = s.host.delivering) ∨
    ∃ l k cqe, e = .dispatch l ∧ s.host.delivering l = none ∧
      s'.net.invoked = s.net.invoked ++ [(k, cqe)] ∧
      s'.host.delivering =
        if s.accepts k then Function.update s.host.delivering l (some (k, cqe))
        else s.host.delivering

section Steps

variable {n : ℕ} {w : Listener} {s s' : ListenSystem}

theorem hostStep_spec {e : NetEvent} (done : s.hostStep n e = some s') : HostMove n s e s' := by
  obtain ⟨host, moved, rfl⟩ := Option.map_eq_some_iff.mp done
  obtain ⟨stepped, delivering⟩ := Host.step_spec moved
  exact ⟨stepped, rfl, rfl, rfl, delivering⟩

/-- The transitions, one for each way an event can happen. -/
inductive Transition (n : ℕ) (w : Listener) (s : ListenSystem) :
    ListenEvent w → ListenSystem → Prop
  | accept {k : ℕ} {s' : ListenSystem} (here : s.calls k = .free)
      (moved : HostMove n s (.queue k w.queueArgs) s') :
      Transition n w s (.accept k) (s'.setCall k .queueing)
  | queued {k : ℕ} (here : s.calls k = .queueing) :
      Transition n w s (.step k) (s.setCall k .waiting)
  | finish {k : ℕ} {cqe : CQEvent} (here : s.calls k = .received cqe) :
      Transition n w s (.step k) (s.setCall k (.returned (s.acceptResult cqe)))
  | receive {k l j : ℕ} {cqe : CQEvent} (here : s.calls k = .waiting)
      (there : s.host.delivering l = some (j, cqe)) :
      Transition n w s (.receive k l)
        ({ s with host := s.host.release l }.setCall k (.received cqe))
  | queue {k : ℕ} {args : AlienArgs w} {s' : ListenSystem} (here : s.calls k = .free)
      (moved : HostMove n s (.queue k args.args) s') :
      Transition n w s (.queue k args) (s'.setCall k .foreign)
  | complete {l i : ℕ} {fd : Int32} {flags : UInt32} {peer : TCPAddr} {sqe : SQEntry}
      {s' : ListenSystem} (found : (s.net.loops l).engine.inflight[i]? = some sqe)
      (names : w.Names sqe) (success : ¬ fd < 0) (fresh : fd ∉ s.accepted.map Prod.fst)
      (moved : HostMove n s (.kernel l (.complete i fd flags)) s') :
      Transition n w s (.complete l i fd flags peer)
        { s' with buffer := some peer, accepted := s'.accepted ++ [(fd, peer)] }
  | cancel {k : ℕ} {id : RequestID} {s' : ListenSystem} (here : s.calls k = .free)
      (moved : HostMove n s (.cancel k id) s') :
      Transition n w s (.net (.cancel k id)) (s'.setCall k .foreign)
  | net {e : NetEvent} {s' : ListenSystem} (old : e.newCall = none)
      (other : s.isAcceptance w e = false) (moved : HostMove n s e s') :
      Transition n w s (.net e) s'

/-- **Every step is a transition.** -/
theorem step_transition {e : ListenEvent w} (stepped : s.step n w e = some s') :
    Transition n w s e s' := by
  unfold step at stepped
  split at stepped
  · cases e with
    | accept k =>
        simp only [stepLive] at stepped
        split at stepped
        · next here =>
          obtain ⟨s₁, moved, rfl⟩ := Option.map_eq_some_iff.mp stepped
          exact .accept here (hostStep_spec moved)
        · cases stepped
    | step k =>
        simp only [stepLive, callStep] at stepped
        split at stepped
        · next here =>
          split at stepped
          · cases stepped
            exact .queued here
          · cases stepped
        · next cqe here =>
          cases stepped
          exact .finish here
        · cases stepped
    | receive k l =>
        simp only [stepLive, receive] at stepped
        split at stepped
        · next j cqe here there =>
          split at stepped
          · cases stepped
            exact .receive here there
          · cases stepped
        · cases stepped
    | queue k args =>
        simp only [stepLive] at stepped
        split at stepped
        · next here =>
          obtain ⟨s₁, moved, rfl⟩ := Option.map_eq_some_iff.mp stepped
          exact .queue here (hostStep_spec moved)
        · cases stepped
    | complete l i fd flags peer =>
        simp only [stepLive, complete] at stepped
        split at stepped
        · next sqe found =>
          split at stepped
          · next allowed =>
            obtain ⟨s₁, moved, rfl⟩ := Option.map_eq_some_iff.mp stepped
            exact .complete found allowed.1 allowed.2.1 allowed.2.2 (hostStep_spec moved)
          · cases stepped
        · cases stepped
    | net e =>
        simp only [stepLive, netStep] at stepped
        split at stepped
        · cases stepped
        · next k id =>
          split at stepped
          · next here =>
            obtain ⟨s₁, moved, rfl⟩ := Option.map_eq_some_iff.mp stepped
            exact .cancel here (hostStep_spec moved)
          · cases stepped
        · next noQueue noCancel =>
          split at stepped
          · cases stepped
          · next other =>
            refine .net ?_ (Bool.eq_false_iff.mpr other) (hostStep_spec stepped)
            cases e with
            | queue k args => exact absurd rfl (noQueue k args)
            | cancel k id => exact absurd rfl (noCancel k id)
            | _ => rfl
  · cases stepped

end Steps

end ListenSystem

end GoUring.Net
