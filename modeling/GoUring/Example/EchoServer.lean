import GoUring.Uring.Consumer
import GoUring.Uring.Encoding

/-!
# The echo server

`example/echo-server/uring/uring.go` is a program on one ring.  It has at most one operation per
descriptor under way: an accept on its own socket, and on each connection a receive or a send.  The
descriptor is the user data of the SQE, and `conns` says which operation it was.

The ring is that of the earlier modules.  The kernel reads SQEs when it is entered and completes
what it has read in any order.  What an operation on a socket yields is the choice of the kernel;
the bytes received and sent are kept for each descriptor.

The server does not look at the result of an accept before it uses it as an index, and never closes
a descriptor.  After a panic or `log.Fatal` the program does nothing more, so the model leaves out
what the failed pass has done to its memory; the kernel may still complete what it has read.
-/

namespace GoUring.Echo

open Uring

/-- `MaxConns`. -/
def maxConns : ℕ := 4096

/-- `Backlog`. -/
def backlog : ℕ := 512

/-- `MaxMsgLen`. -/
def maxMsgLen : ℕ := 2048

/-- `connType`; `none` is its zero. -/
inductive ConnType
  | none
  | accept
  | read
  | write
  deriving DecidableEq, Repr

/-- `connInfo`, but for its operations, which are fixed by their descriptor. -/
structure ConnInfo where
  fd : ℕ
  typ : ConnType
  deriving DecidableEq, Repr

/-- What ends the program. -/
inductive Stop
  /-- `log.Fatal` of `checkErr`. -/
  | fatal (err : RingError)
  /-- An index out of the range of `conns` or `buffs`. -/
  | index (i : ℤ)
  /-- The slice `buff[:bytesRead]` is out of range. -/
  | slice
  /-- `PrepSQE` panics. -/
  | prep
  deriving DecidableEq, Repr

/-- Where `main` is in its loop. -/
inductive EchoPC
  | submit
  /-- In `WaitCQEvents`. -/
  | wait (params : Ring.GetParams)
  | entering (params : Ring.GetParams) (args : EnterArgs) (cqe : Option ℕ)
  /-- In the loop over `cqes`. -/
  | batch
  | stopped (stop : Stop)
  deriving DecidableEq, Repr

/-- What `main` has before its loop: its socket, the descriptors open by then, and where its buffers
and the fields of its accept operation are.  `makeBuffers` makes each buffer anew. -/
structure EchoSetup where
  server : ℕ
  inherited : List ℕ
  buff : ℕ → UInt64
  rawAddr : UInt64
  addrLen : UInt64
  own : server ∈ inherited
  apart : ∀ f g, f < maxConns → g < maxConns → buff f = buff g → f = g

/-- What the kernel and the memory of the process have for the sockets. -/
structure Sockets where
  /-- The descriptors accepted so far. -/
  accepted : List ℕ
  /-- What is in the buffers, by their addresses. -/
  memory : UInt64 → List UInt8
  /-- What was received on a descriptor, one entry for each receive. -/
  received : ℕ → List (List UInt8)
  /-- What was sent on a descriptor, one entry for each send. -/
  sent : ℕ → List (List UInt8)

/-- How the kernel completes an operation. -/
inductive Outcome
  | accepted (fd : ℕ)
  | received (bytes : List UInt8)
  | sent (n : ℕ)
  | failed (errno : ℕ)

namespace Sockets

/-- A connection is accepted. -/
def accept (n : Sockets) (fd : ℕ) : Sockets := { n with accepted := n.accepted ++ [fd] }

/-- Bytes are received into the buffer at `addr`. -/
def receive (n : Sockets) (fd : ℕ) (addr : UInt64) (bytes : List UInt8) : Sockets :=
  { n with
    memory := Function.update n.memory addr (bytes ++ (n.memory addr).drop bytes.length)
    received := Function.update n.received fd (n.received fd ++ [bytes]) }

/-- A send has ended, with these bytes sent. -/
def send (n : Sockets) (fd : ℕ) (bytes : List UInt8) : Sockets :=
  { n with sent := Function.update n.sent fd (n.sent fd ++ [bytes]) }

/-- The result of an operation, and what it does; `none` is a result the kernel cannot give.  A
receive of no bytes is the end of the stream. -/
def finish (w : EchoSetup) (n : Sockets) (e : SQEntry) : Outcome → Option (Int32 × Sockets)
  | .accepted fd =>
      if e.opCode = OpCode.accept.toUInt8 ∧ fd ∉ w.inherited ++ n.accepted ∧ fd < 2 ^ 31 then
        some (Int32.ofNat fd, n.accept fd)
      else none
  | .received bytes =>
      if e.opCode = OpCode.recv.toUInt8 ∧ bytes.length ≤ e.len.toNat ∧ bytes.length < 2 ^ 31 then
        some (Int32.ofNat bytes.length,
          if bytes = [] then n else n.receive e.fileno e.addr bytes)
      else none
  | .sent k =>
      if e.opCode = OpCode.send.toUInt8 ∧ k ≤ e.len.toNat ∧ k < 2 ^ 31 then
        some (Int32.ofNat k, n.send e.fileno ((n.memory e.addr).take k))
      else none
  | .failed errno =>
      if 0 < errno ∧ errno < 4096 then
        some (-Int32.ofNat errno,
          if e.opCode = OpCode.send.toUInt8 then n.send e.fileno [] else n)
      else none

end Sockets

/-- The program and the kernel. -/
structure EchoServer where
  c : Consumer
  conns : ℕ → ConnInfo
  pc : EchoPC
  /-- What the kernel has read and not completed. -/
  flight : List SQEntry
  net : Sockets

/-- What can happen. -/
inductive EchoEvent
  /-- `ring.Submit`. -/
  | submit (result : EnterResult)
  /-- A pass of the loop in `WaitCQEvents`. -/
  | pass
  /-- The kernel returns from the `io_uring_enter` of `WaitCQEvents`. -/
  | enter (result : EnterResult)
  /-- A pass of the loop over `cqes`. -/
  | handle
  /-- The kernel completes the `j`-th operation under way. -/
  | complete (j : ℕ) (outcome : Outcome)

/-- `syscall.EINTR`. -/
def eintr : Errno := ⟨4⟩

namespace EchoServer

variable (w : EchoSetup)

/-- The server with another submission queue. -/
def withSQ (s : EchoServer) (sq : SubmissionQueue) : EchoServer := { s with c := s.c.withSQ sq }

/-- `ring.QueueSQE` with `checkErr` behind it. -/
def queueSQE (s : EchoServer) (op : Operation) (userData : ℕ) : Except Stop EchoServer :=
  match s.c.ring.sqRing.queueSQE op 0 (UInt64.ofNat userData) with
  | none => .error .prep
  | some (some err, _) => .error (.fatal err)
  | some (none, sq) => .ok (s.withSQ sq)

/-- An entry of `conns` is set. -/
def setConn (s : EchoServer) (fd : ℕ) (typ : ConnType) : EchoServer :=
  { s with conns := Function.update s.conns fd { fd := fd, typ := typ } }

/-- `addAccept`. -/
def addAccept (s : EchoServer) : Except Stop EchoServer :=
  if w.server < maxConns then
    (s.setConn w.server .accept).queueSQE (acceptOp w.server 0 w.rawAddr w.addrLen) w.server
  else .error (.index w.server)

/-- `addRead`. -/
def addRead (s : EchoServer) (fd : ℤ) : Except Stop EchoServer :=
  if 0 ≤ fd ∧ fd < maxConns then
    (s.setConn fd.toNat .read).queueSQE
      (recvOp fd.toNat { addr := w.buff fd.toNat, len := maxMsgLen } 0) fd.toNat
  else .error (.index fd)

/-- `addWrite`. -/
def addWrite (s : EchoServer) (fd : ℕ) (bytesRead : Int32) : Except Stop EchoServer :=
  if fd < maxConns then
    if 0 ≤ bytesRead.toInt ∧ bytesRead.toInt ≤ maxMsgLen then
      (s.setConn fd .write).queueSQE
        (sendOp fd { addr := w.buff fd, len := bytesRead.toInt.toNat } 0) fd
    else .error .slice
  else .error (.index fd)

/-- `ring.SeenCQE` of the oldest completion held. -/
def seenCQE (c : Consumer) (ptr : ℕ) (rest : List ℕ) (held : c.buff = ptr :: rest) : Consumer :=
  c.advanceCQ 1 (held ▸ Nat.succ_le_succ (Nat.zero_le _))

/-- The `switch` over the type of a completion. -/
def dispatch (s : EchoServer) (ud : ConnInfo) (res : Int32) : Except Stop EchoServer :=
  match ud.typ with
  | .accept => (s.addRead w res.toInt).bind (addAccept w)
  -- `Shutdown` at the end of a stream: nothing is under way on the descriptor then.
  | .read => if res.toInt ≤ 0 then .ok s else s.addWrite w ud.fd res
  | .write => s.addRead w ud.fd
  | .none => .ok s

/-- A pass of the loop over `cqes`. -/
def handle (s : EchoServer) : Except Stop EchoServer :=
  match held : s.c.buff with
  | [] => .ok { s with pc := .submit }
  | ptr :: rest =>
      let cqe := s.c.ring.cqRing.cq.cqeBuff ptr
      if cqe.userData.toNat < maxConns then
        { s with c := seenCQE s.c ptr rest held }.dispatch w (s.conns cqe.userData.toNat) cqe.res
      else .error (.index cqe.userData.toNat)

/-- `WaitCQEvents` has returned. -/
def waited (s : EchoServer) (err : Option RingError) : EchoServer :=
  match err with
  | none => { s with c := s.c.peekBatch backlog, pc := .batch }
  | some err =>
      if err.is .eagain || err.is eintr then { s with pc := .submit }
      else { s with pc := .stopped (.fatal err) }

/-- One step. -/
def step (s : EchoServer) : EchoEvent → Option EchoServer
  | .submit result =>
      match s.pc with
      | .submit =>
          (s.c.ring.submit result).map fun (ret, sqes, sq) =>
            let s := { s with c := s.c.withSQ sq, flight := s.flight ++ sqes }
            match ret with
            | .ok _ => { s with pc := .wait (Ring.waitCQEvents 1) }
            | .error err => { s with pc := .stopped (.fatal err) }
      | _ => none
  | .pass =>
      match s.pc with
      | .wait params =>
          let (outcome, c) := s.c.pass params
          match outcome with
          | .ret _ err => some (waited { s with c := c } err)
          | .enter args cqe => some { s with c := c, pc := .entering params args cqe }
      | _ => none
  | .enter result =>
      match s.pc with
      | .entering params args cqe =>
          (s.c.ring.kernelEnter args result).map fun (ret, sqes, sq) =>
            let s := { s with c := s.c.withSQ sq, flight := s.flight ++ sqes }
            match Ring.afterEnter params cqe ret with
            | .inl params => { s with pc := .wait params }
            | .inr (_, err) => s.waited err
      | _ => none
  | .handle =>
      match s.pc with
      | .batch =>
          match s.handle w with
          | .ok s => some s
          | .error stop => some { s with pc := .stopped stop }
      | _ => none
  | .complete j outcome =>
      (s.flight[j]?).bind fun e =>
        (s.net.finish w e outcome).bind fun (res, net) =>
          (s.c.kernelPost { userData := e.userData, res := res, flags := 0 }).map fun c =>
            { s with c := c, flight := s.flight.eraseIdx j, net := net }

/-- The state of `main` before its first accept. -/
def init (r : Ring) : EchoServer where
  c := Consumer.start r
  conns _ := { fd := 0, typ := .none }
  pc := .submit
  flight := []
  net := { accepted := [], memory := fun _ => [], received := fun _ => [], sent := fun _ => [] }

end EchoServer

/-! ## What is owed on a descriptor -/

namespace Sockets

variable {n : Sockets} {f g : ℕ} {addr : UInt64} {bytes : List UInt8} {chunks : List (List UInt8)}

/-- Of what was received on a descriptor, `chunks` is not sent back yet; of each message before them
an initial part was sent. -/
def Owes (n : Sockets) (f : ℕ) (chunks : List (List UInt8)) : Prop :=
  ∃ answered, n.received f = answered ++ chunks ∧
    List.Forall₂ (fun out message => out <+: message) (n.sent f) answered

theorem Owes.receive (none : n.Owes f []) (addr : UInt64) (bytes : List UInt8) :
    (n.receive f addr bytes).Owes f [bytes] := by
  obtain ⟨answered, received, sent⟩ := none
  refine ⟨answered, ?_, sent⟩
  rw [List.append_nil] at received
  show Function.update n.received f (n.received f ++ [bytes]) f = answered ++ [bytes]
  rw [Function.update_self, received]

theorem Owes.send {out : List UInt8} (one : n.Owes f [bytes]) (part : out <+: bytes) :
    (n.send f out).Owes f [] := by
  obtain ⟨answered, received, sent⟩ := one
  refine ⟨answered ++ [bytes], by rw [List.append_nil]; exact received, ?_⟩
  show List.Forall₂ _ (Function.update n.sent f (n.sent f ++ [out]) f) _
  rw [Function.update_self]
  exact List.rel_append sent (.cons part .nil)

/-- Only `f` and its buffer are touched. -/
structure Touches (w : EchoSetup) (f : ℕ) (n n' : Sockets) : Prop where
  accepted : n.accepted <+: n'.accepted
  received : ∀ g, g ≠ f → n'.received g = n.received g
  sent : ∀ g, g ≠ f → n'.sent g = n.sent g
  memory : ∀ g, g ≠ f → g < maxConns → n'.memory (w.buff g) = n.memory (w.buff g)

variable {w : EchoSetup} {n' : Sockets}

theorem Touches.refl (w : EchoSetup) (f : ℕ) (n : Sockets) : Touches w f n n :=
  ⟨List.prefix_rfl, fun _ _ => rfl, fun _ _ => rfl, fun _ _ _ => rfl⟩

theorem Touches.accept (w : EchoSetup) (f : ℕ) (n : Sockets) (fd : ℕ) :
    Touches w f n (n.accept fd) :=
  ⟨List.prefix_append _ _, fun _ _ => rfl, fun _ _ => rfl, fun _ _ _ => rfl⟩

theorem Touches.receive (w : EchoSetup) (n : Sockets) (small : f < maxConns) (bytes : List UInt8) :
    Touches w f n (n.receive f (w.buff f) bytes) where
  accepted := List.prefix_rfl
  received _ other := Function.update_of_ne other _ _
  sent _ _ := rfl
  memory g other inside :=
    Function.update_of_ne (fun same => other (w.apart g f inside small same)) _ _

theorem Touches.send (w : EchoSetup) (n : Sockets) (f : ℕ) (bytes : List UInt8) :
    Touches w f n (n.send f bytes) where
  accepted := List.prefix_rfl
  received _ _ := rfl
  sent _ other := Function.update_of_ne other _ _
  memory _ _ _ := rfl

theorem Touches.owes (touches : Touches w f n n') (other : g ≠ f) (owes : n.Owes g chunks) :
    n'.Owes g chunks := by
  unfold Owes
  rw [touches.received g other, touches.sent g other]
  exact owes

end Sockets

/-! ## An operation from its SQE to its completion -/

/-- The SQE is that of the operation `conns` says its descriptor has. -/
inductive Asks (w : EchoSetup) (conns : ℕ → ConnInfo) (n : Sockets) (e : SQEntry) : Prop
  | accept (typ : (conns e.userData.toNat).typ = .accept) (own : e.userData.toNat = w.server)
      (code : e.opCode = OpCode.accept.toUInt8) (owes : n.Owes e.userData.toNat [])
  | read (typ : (conns e.userData.toNat).typ = .read) (code : e.opCode = OpCode.recv.toUInt8)
      (fd : e.fileno = e.userData.toNat)
      (slice : e.slice = { addr := w.buff e.userData.toNat, len := maxMsgLen })
      (owes : n.Owes e.userData.toNat [])
  | write (bytes : List UInt8) (typ : (conns e.userData.toNat).typ = .write)
      (code : e.opCode = OpCode.send.toUInt8) (fd : e.fileno = e.userData.toNat)
      (slice : e.slice = { addr := w.buff e.userData.toNat, len := bytes.length })
      (filled : bytes ≠ [])
      (owes : n.Owes e.userData.toNat [bytes])
      (stored : bytes <+: n.memory (w.buff e.userData.toNat))

/-- The completion is one of the operation `conns` says its descriptor has. -/
inductive Answers (w : EchoSetup) (conns : ℕ → ConnInfo) (n : Sockets) (q : CQEvent) : Prop
  /-- A descriptor that was accepted is not in use yet. -/
  | accept (typ : (conns q.userData.toNat).typ = .accept) (own : q.userData.toNat = w.server)
      (owes : n.Owes q.userData.toNat [])
      (fresh : 0 ≤ q.res.toInt →
        q.res.toInt.toNat ∈ n.accepted ∧ (conns q.res.toInt.toNat).typ = .none)
  | read (bytes : List UInt8) (typ : (conns q.userData.toNat).typ = .read)
      (res : q.res.toInt = bytes.length) (filled : bytes ≠ []) (fits : bytes.length ≤ maxMsgLen)
      (owes : n.Owes q.userData.toNat [bytes])
      (stored : bytes <+: n.memory (w.buff q.userData.toNat))
  /-- The stream has ended, or the receive has failed. -/
  | ended (typ : (conns q.userData.toNat).typ = .read) (res : q.res.toInt ≤ 0)
      (owes : n.Owes q.userData.toNat [])
  | write (typ : (conns q.userData.toNat).typ = .write) (owes : n.Owes q.userData.toNat [])

section Operations

variable {w : EchoSetup} {conns : ℕ → ConnInfo} {n n' : Sockets} {e : SQEntry} {q : CQEvent} {f : ℕ}

theorem Asks.typ_ne (asks : Asks w conns n e) : (conns e.userData.toNat).typ ≠ .none := by
  cases asks <;> simp_all

theorem Answers.typ_ne (answers : Answers w conns n q) :
    (conns q.userData.toNat).typ ≠ .none := by
  cases answers <;> simp_all

/-- An SQE of another descriptor than the one touched. -/
theorem Asks.touch (asks : Asks w conns n e) (touches : n.Touches w f n')
    (other : e.userData.toNat ≠ f) (small : e.userData.toNat < maxConns) :
    Asks w conns n' e := by
  cases asks with
  | accept typ own code owes => exact .accept typ own code (touches.owes other owes)
  | read typ code fd slice owes => exact .read typ code fd slice (touches.owes other owes)
  | write bytes typ code fd slice filled owes stored =>
      refine .write bytes typ code fd slice filled (touches.owes other owes) ?_
      rw [touches.memory _ other small]
      exact stored

/-- A completion of another descriptor than the one touched. -/
theorem Answers.touch (answers : Answers w conns n q) (touches : n.Touches w f n')
    (other : q.userData.toNat ≠ f) (small : q.userData.toNat < maxConns) :
    Answers w conns n' q := by
  cases answers with
  | accept typ own owes fresh =>
      refine .accept typ own (touches.owes other owes) fun accepted => ?_
      exact ⟨touches.accepted.subset (fresh accepted).1, (fresh accepted).2⟩
  | read bytes typ res filled fits owes stored =>
      refine .read bytes typ res filled fits (touches.owes other owes) ?_
      rw [touches.memory _ other small]
      exact stored
  | ended typ res owes => exact .ended typ res (touches.owes other owes)
  | write typ owes => exact .write typ (touches.owes other owes)

/-- An SQE of another descriptor than the one set in `conns`. -/
theorem Asks.update (asks : Asks w conns n e) (info : ConnInfo) (other : e.userData.toNat ≠ f) :
    Asks w (Function.update conns f info) n e := by
  have same : Function.update conns f info e.userData.toNat = conns e.userData.toNat :=
    Function.update_of_ne other _ _
  cases asks with
  | accept typ own code owes => exact .accept (same ▸ typ) own code owes
  | read typ code fd slice owes => exact .read (same ▸ typ) code fd slice owes
  | write bytes typ code fd slice filled owes stored =>
      exact .write bytes (same ▸ typ) code fd slice filled owes stored

/-- A completion of another descriptor than the one set in `conns`, which is not one that it has
accepted. -/
theorem Answers.update (answers : Answers w conns n q) (info : ConnInfo)
    (other : q.userData.toNat ≠ f)
    (kept : q.userData.toNat = w.server → (conns f).typ ≠ .none) :
    Answers w (Function.update conns f info) n q := by
  have same : Function.update conns f info q.userData.toNat = conns q.userData.toNat :=
    Function.update_of_ne other _ _
  cases answers with
  | accept typ own owes fresh =>
      refine .accept (same ▸ typ) own owes fun accepted => ⟨(fresh accepted).1, ?_⟩
      have unused := (fresh accepted).2
      have elsewhere : q.res.toInt.toNat ≠ f := by
        rintro rfl
        exact kept own unused
      rw [Function.update_of_ne elsewhere]
      exact unused
  | read bytes typ res filled fits owes stored =>
      exact .read bytes (same ▸ typ) res filled fits owes stored
  | ended typ res owes => exact .ended (same ▸ typ) res owes
  | write typ owes => exact .write (same ▸ typ) owes

theorem toInt_failed {errno : ℕ} (pos : 0 < errno) (small : errno < 4096) :
    (-Int32.ofNat errno).toInt < 0 := by
  have fits : (Int32.ofNat errno).toInt = errno := Int32.toInt_ofNat_of_lt (by omega)
  rw [Int32.toInt_neg, fits, Int.bmod_def]
  omega

/-- **What an operation under way turns into**: a completion of the same operation, and nothing else
is touched. -/
theorem Asks.finish {outcome : Outcome} {res : Int32} (asks : Asks w conns n e)
    (small : e.userData.toNat < maxConns)
    (used : ∀ f, (conns f).typ ≠ .none → f ∈ w.inherited ++ n.accepted)
    (finished : n.finish w e outcome = some (res, n')) :
    Answers w conns n' { userData := e.userData, res := res, flags := 0 } ∧
      n.Touches w e.userData.toNat n' := by
  cases outcome with
  | accepted fd =>
      obtain ⟨⟨code, fresh, fits⟩, done⟩ := Option.ite_none_right_eq_some.mp finished
      obtain ⟨rfl, rfl⟩ := Prod.mk.inj (Option.some.inj done)
      have result : (Int32.ofNat fd).toInt = fd := Int32.toInt_ofNat_of_lt fits
      cases asks with
      | accept typ own code' owes =>
          refine ⟨.accept typ own owes fun _ => ?_, .accept w _ n fd⟩
          rw [result, Int.toNat_natCast]
          refine ⟨List.mem_append_right _ (List.mem_singleton_self fd), ?_⟩
          by_contra taken
          exact fresh (used fd taken)
      | read _ code' => exact absurd (code'.symm.trans code) (by decide)
      | write _ _ code' => exact absurd (code'.symm.trans code) (by decide)
  | received bytes =>
      obtain ⟨⟨code, le, fits⟩, done⟩ := Option.ite_none_right_eq_some.mp finished
      obtain ⟨rfl, rfl⟩ := Prod.mk.inj (Option.some.inj done)
      have result : (Int32.ofNat bytes.length).toInt = bytes.length :=
        Int32.toInt_ofNat_of_lt fits
      cases asks with
      | accept _ _ code' => exact absurd (code'.symm.trans code) (by decide)
      | read typ code' fd slice owes =>
          have address : e.addr = w.buff e.userData.toNat := congrArg Slice.addr slice
          have length : e.len.toNat = maxMsgLen := congrArg Slice.len slice
          by_cases nothing : bytes = []
          · subst nothing
            exact ⟨.ended typ (le_of_eq result) owes, .refl w _ n⟩
          · rw [if_neg nothing, fd, address]
            refine ⟨.read bytes typ result nothing (length ▸ le) (owes.receive _ bytes) ?_,
              .receive w n small bytes⟩
            show bytes <+: Function.update n.memory _ _ _
            rw [Function.update_self]
            exact List.prefix_append _ _
      | write _ _ code' => exact absurd (code'.symm.trans code) (by decide)
  | sent k =>
      obtain ⟨⟨code, le, fits⟩, done⟩ := Option.ite_none_right_eq_some.mp finished
      obtain ⟨rfl, rfl⟩ := Prod.mk.inj (Option.some.inj done)
      cases asks with
      | accept _ _ code' => exact absurd (code'.symm.trans code) (by decide)
      | read _ code' => exact absurd (code'.symm.trans code) (by decide)
      | write bytes typ code' fd slice filled owes stored =>
          have address : e.addr = w.buff e.userData.toNat := congrArg Slice.addr slice
          have length : e.len.toNat = bytes.length := congrArg Slice.len slice
          obtain ⟨rest, stored⟩ := stored
          rw [fd, address, ← stored, List.take_append_of_le_length (length ▸ le)]
          exact ⟨.write typ (owes.send (List.take_prefix _ _)), .send w n _ _⟩
  | failed errno =>
      obtain ⟨⟨pos, fits⟩, done⟩ := Option.ite_none_right_eq_some.mp finished
      obtain ⟨rfl, rfl⟩ := Prod.mk.inj (Option.some.inj done)
      have negative := toInt_failed pos fits
      cases asks with
      | accept typ own code owes =>
          rw [if_neg (by rw [code]; decide)]
          exact ⟨.accept typ own owes fun pos => absurd pos (not_le.mpr negative), .refl w _ n⟩
      | read typ code fd slice owes =>
          rw [if_neg (by rw [code]; decide)]
          exact ⟨.ended typ negative.le owes, .refl w _ n⟩
      | write bytes typ code fd slice filled owes stored =>
          rw [if_pos code, fd]
          exact ⟨.write typ (owes.send List.nil_prefix), .send w n _ _⟩

theorem toNat_userData (small : f < maxConns) : (UInt64.ofNat f).toNat = f :=
  UInt64.toNat_ofNat_of_lt' (small.trans (by decide))

theorem asks_acceptOp {old : SQEntry} (small : w.server < maxConns)
    (typ : (conns w.server).typ = .accept) (owes : n.Owes w.server [])
    (encoded : (acceptOp w.server 0 w.rawAddr w.addrLen).encode 0 (UInt64.ofNat w.server) old =
      some e) : Asks w conns n e := by
  have tagged : e.userData.toNat = w.server := by
    rw [Operation.encode_userData encoded, toNat_userData small]
  cases encoded
  refine .accept ?_ tagged rfl ?_
  · rw [tagged]
    exact typ
  · rw [tagged]
    exact owes

theorem asks_recvOp {old : SQEntry} (small : f < maxConns) (typ : (conns f).typ = .read)
    (owes : n.Owes f [])
    (encoded : (recvOp f { addr := w.buff f, len := maxMsgLen } 0).encode 0 (UInt64.ofNat f) old =
      some e) : Asks w conns n e := by
  have tagged : e.userData.toNat = f := by
    rw [Operation.encode_userData encoded, toNat_userData small]
  obtain ⟨code, fd, slice, -⟩ := messageOp_fields (small.trans (by decide)) encoded
  rw [Slice.narrow_eq_self_iff.mpr (by decide : maxMsgLen < 2 ^ 32)] at slice
  subst tagged
  exact .read typ code fd slice owes

theorem asks_sendOp {old : SQEntry} {bytes : List UInt8} (small : f < maxConns)
    (typ : (conns f).typ = .write) (filled : bytes ≠ []) (fits : bytes.length ≤ maxMsgLen)
    (owes : n.Owes f [bytes])
    (stored : bytes <+: n.memory (w.buff f))
    (encoded : (sendOp f { addr := w.buff f, len := bytes.length } 0).encode 0 (UInt64.ofNat f)
      old = some e) : Asks w conns n e := by
  have tagged : e.userData.toNat = f := by
    rw [Operation.encode_userData encoded, toNat_userData small]
  obtain ⟨code, fd, slice, -⟩ := messageOp_fields (small.trans (by decide)) encoded
  have whole : bytes.length < 2 ^ 32 := fits.trans_lt (by decide)
  rw [Slice.narrow_eq_self_iff.mpr whole] at slice
  subst tagged
  exact .write bytes typ code fd slice filled owes stored

end Operations

end GoUring.Echo
