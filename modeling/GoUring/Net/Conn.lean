import GoUring.Net.Host

/-!
# Connections over a network reactor

`Conn` of `net/netconn.go` as a step function.  A `Read` takes `readLock`, puts its
buffer into `readOp`, hands the operation to `QueueWithDeadline` together with the
deadline of the moment, stores the identifier in `lastReadOpID` and waits on `readChan`
for its callback to send the completion; `Write` does the same with its own lock,
operation, deadline, identifier and channel.  `SetReadDeadline` and `SetWriteDeadline`
take no lock: they cancel the last operation if the deadline has passed, and then set it.

The two directions of a connection share nothing but the descriptor, so a connection is
two `Half`s.  The steps are the accesses to shared data; a `time.Time` is read and
written in one step.  Any number of connections live on one reactor, which others may use
as well.  A call of the package and the call of the reactor it makes have the same
number.
-/

namespace GoUring.Net

open Uring Reactor

/-- `syscall.ECANCELED`. -/
def ecanceled : Errno := ⟨125⟩

/-- The two directions of a connection. -/
inductive Direction
  | read
  | write
  deriving DecidableEq, Repr

/-- What a call of `Read` or `Write` fails with. -/
inductive Cause
  /-- `os.ErrDeadlineExceeded`, with the text of the errno. -/
  | deadlineExceeded (errno : Errno)
  | errno (errno : Errno)
  /-- `io.EOF`. -/
  | eof
  /-- `io.ErrUnexpectedEOF`. -/
  | unexpectedEOF
  deriving DecidableEq, Repr

/-- `net.OpError`. -/
structure OpError where
  op : String
  err : Cause
  deriving DecidableEq, Repr

namespace Direction

/-- The name of the operation in an error. -/
def opName : Direction → String
  | .read => "read"
  | .write => "write"

/-- What a transfer of no bytes means. -/
def emptyCause : Direction → Cause
  | .read => .eof
  | .write => .unexpectedEOF

/-- The operation of the direction: `readOp` or `sendOp`, with its buffer. -/
def op (dir : Direction) (fd : ℕ) (buff : Slice) : Operation :=
  match dir with
  | .read => recvOp fd buff 0
  | .write => sendOp fd buff 0

/-- What `Read` or `Write` makes of a completion. -/
def result (dir : Direction) (cqe : CQEvent) : Int32 × Option OpError :=
  match cqe.error with
  | some errno =>
      (0, some
        { op := dir.opName
          err := if errno = ecanceled then .deadlineExceeded errno else .errno errno })
  | none =>
      (cqe.res, if cqe.res = 0 then some { op := dir.opName, err := dir.emptyCause } else none)

end Direction

/-- One direction of a connection. -/
structure HalfID where
  conn : ℕ
  dir : Direction
  deriving DecidableEq, Repr

/-- The descriptors of the connections.  Nothing is said about two connections having
different ones. -/
structure Sockets where
  fd : ℕ → ℕ
  fd_lt : ∀ c, fd c < 2 ^ 31

/-- What a connection holds for one direction: the lock, the buffer of the operation, the
deadline (the zero `time.Time` is `none`) and the identifier of the last request.
`setter` remembers the call that set the deadline. -/
structure Half where
  lock : Option ℕ
  buff : Slice
  deadline : Option ℤ
  lastOpID : RequestID
  setter : Option ℕ

/-- A direction of a new connection. -/
def Half.new : Half where
  lock := none
  buff := ⟨0, 0⟩
  deadline := none
  lastOpID := 0
  setter := none

/-- `time.Until(t)` at the time `now`, in nanoseconds. -/
def timeUntil (t now : ℤ) : Int64 := Int64.ofInt (max (-2 ^ 63) (min (2 ^ 63 - 1) (t - now)))

/-- The timeout `QueueWithDeadline` passes on. -/
def queueTimeout (deadline : Option ℤ) (now : ℤ) : Int64 :=
  match deadline with
  | none => 0
  | some t => timeUntil t now

/-- The deadline is not zero and has passed. -/
def Expired (deadline : Option ℤ) (now : ℤ) : Prop :=
  ∃ t ∈ deadline, timeUntil t now < 0

instance (deadline : Option ℤ) (now : ℤ) : Decidable (Expired deadline now) :=
  match deadline with
  | none => .isFalse (by rintro ⟨t, ⟨⟩, -⟩)
  | some t => decidable_of_iff (timeUntil t now < 0) (by simp [Expired])

theorem toInt_timeUntil (t now : ℤ) :
    (timeUntil t now).toInt = max (-2 ^ 63) (min (2 ^ 63 - 1) (t - now)) :=
  Int64.toInt_ofInt_of_le (by omega) (by omega)

theorem timeUntil_neg_iff (t now : ℤ) : timeUntil t now < 0 ↔ t < now := by
  rw [Int64.lt_iff_toInt_lt, toInt_timeUntil]
  show _ < 0 ↔ _
  omega

theorem timeUntil_ne_zero {t now : ℤ} (past : t < now) : timeUntil t now ≠ 0 := by
  intro zero
  have := (timeUntil_neg_iff t now).mpr past
  rw [zero] at this
  exact absurd this (by decide)

/-- Where a call of the package is. -/
inductive ConnCall
  /-- The call was not made yet. -/
  | free
  /-- A call of the reactor that somebody else makes. -/
  | foreign
  /-- `Read(b)` or `Write(b)`, at `Lock()`. -/
  | want (h : HalfID) (b : Slice)
  /-- The lock is taken; at `op.SetBuffer(b)`. -/
  | locked (h : HalfID) (b : Slice)
  /-- At the read of the deadline. -/
  | buffered (h : HalfID) (b : Slice)
  /-- At the call of `QueueWithDeadline`. -/
  | sampled (h : HalfID) (b : Slice) (deadline : Option ℤ)
  /-- In `QueueWithDeadline`, or at the store of the identifier it returned. -/
  | queueing (h : HalfID) (b : Slice)
  /-- At the receive from the channel. -/
  | waiting (h : HalfID) (b : Slice)
  /-- A completion is received. -/
  | received (h : HalfID) (b : Slice) (cqe : CQEvent)
  /-- `Read` or `Write` has returned. -/
  | returned (h : HalfID) (b : Slice) (result : Int32 × Option OpError)
  /-- `SetReadDeadline(t)` or `SetWriteDeadline(t)`, at the look at the clock. -/
  | setting (h : HalfID) (t : Option ℤ)
  /-- The deadline has passed; at the read of the last identifier. -/
  | cancels (h : HalfID) (t : Option ℤ)
  /-- In `Cancel(id)`. -/
  | cancelling (h : HalfID) (t : Option ℤ) (id : RequestID)
  /-- At the store of the deadline; `id` is what was cancelled. -/
  | storing (h : HalfID) (t : Option ℤ) (id : Option RequestID)
  /-- The call has returned. -/
  | set (h : HalfID) (t : Option ℤ) (id : Option RequestID)

namespace ConnCall

/-- The direction a call of `Read` or `Write` is about. -/
def half : ConnCall → Option HalfID
  | .want h _ => some h
  | .locked h _ => some h
  | .buffered h _ => some h
  | .sampled h _ _ => some h
  | .queueing h _ => some h
  | .waiting h _ => some h
  | .received h _ _ => some h
  | .returned h _ _ => some h
  | _ => none

end ConnCall

/-- What can happen. -/
inductive ConnEvent
  /-- Call `k` is `Read(b)` or `Write(b)`. -/
  | io (k : ℕ) (h : HalfID) (b : Slice)
  /-- Call `k` is `SetReadDeadline(t)` or `SetWriteDeadline(t)`. -/
  | setDeadline (k : ℕ) (h : HalfID) (t : Option ℤ)
  /-- The next step of call `k`. -/
  | step (k : ℕ)
  /-- Call `k` receives from the callback the consumer of loop `l` waits in. -/
  | receive (k l : ℕ)
  /-- A step of the reactor, or of a call inside it. -/
  | net (e : NetEvent)
  /-- Time passes. -/
  | tick (d : ℕ)

/-- Connections, the reactor they use, and their callers.  `senders` says which calls
have sent what is in the channels of the loops. -/
structure ConnSystem where
  host : Host
  senders : ℕ → List ℕ
  halves : HalfID → Half
  calls : ℕ → ConnCall
  clock : ℤ

namespace ConnSystem

/-- One call moves on. -/
def setCall (s : ConnSystem) (k : ℕ) (call : ConnCall) : ConnSystem :=
  { s with calls := Function.update s.calls k call }

/-- One direction of a connection changes. -/
def setHalf (s : ConnSystem) (h : HalfID) (half : Half) : ConnSystem :=
  { s with halves := Function.update s.halves h half }

/-- The reactor. -/
def net (s : ConnSystem) : NetReactor := s.host.net

/-- What `readOp` or `sendOp` holds. -/
def op (fds : Sockets) (s : ConnSystem) (h : HalfID) : Operation :=
  h.dir.op (fds.fd h.conn) (s.halves h).buff

/-- The direction whose operation the first request in the channel of loop `l` points
to. -/
def pointee (s : ConnSystem) (l : ℕ) : Option HalfID :=
  (s.senders l).head?.bind fun k => (s.calls k).half

/-- The reactor as the event finds it: a publisher that takes a request reads the operation
through its pointer. -/
def resolve (fds : Sockets) (s : ConnSystem) : NetEvent → NetReactor
  | .request l _ _ =>
      match s.pointee l with
      | some h => s.net.repoint l (s.op fds h)
      | none => s.net
  | _ => s.net

/-- Who has sent what is in the channels, after a step. -/
def sendersAfter (senders : ℕ → List ℕ) : List NetReactor.Note → ℕ → List ℕ
  | [.sent l k _] => Function.update senders l (senders l ++ [k])
  | [.queued l _] => Function.update senders l (senders l).tail
  | _ => senders

/-- A step of the reactor. -/
def hostStep (n : ℕ) (fds : Sockets) (s : ConnSystem) (e : NetEvent) : Option ConnSystem :=
  ({ s.host with net := s.resolve fds e }.step n (fun k => (s.calls k).half.isSome) e).map
    fun host =>
      { s with
        host := host
        senders := sendersAfter s.senders (NetReactor.note n (s.resolve fds e) e) }

/-- The arguments of the `QueueWithDeadline` call in `Read` and `Write`. -/
def queueArgs (fds : Sockets) (s : ConnSystem) (h : HalfID) (deadline : Option ℤ) :
    QueueArgs where
  op := { op := s.op fds h, fd := fds.fd h.conn, fd_lt := fds.fd_lt h.conn }
  timeout := queueTimeout deadline s.clock
  nilCallback := false

/-- The next step of call `k`. -/
def callStep (n : ℕ) (fds : Sockets) (s : ConnSystem) (k : ℕ) : Option ConnSystem :=
  match s.calls k with
  | .want h b =>
      if (s.halves h).lock = none then
        some ((s.setHalf h { s.halves h with lock := some k }).setCall k (.locked h b))
      else none
  | .locked h b =>
      some ((s.setHalf h { s.halves h with buff := b }).setCall k (.buffered h b))
  | .buffered h b => some (s.setCall k (.sampled h b (s.halves h).deadline))
  | .sampled h b deadline =>
      (s.hostStep n fds (.queue k (s.queueArgs fds h deadline))).map fun s =>
        s.setCall k (.queueing h b)
  | .queueing h b =>
      match s.net.calls k with
      | .returned args nonce serial =>
          some ((s.setHalf h
            { s.halves h with lastOpID := (args.op.ticket nonce serial).id }).setCall k
              (.waiting h b))
      | _ => none
  | .received h b cqe =>
      some ((s.setHalf h { s.halves h with lock := none }).setCall k
        (.returned h b (h.dir.result cqe)))
  | .setting h t =>
      if Expired t s.clock then some (s.setCall k (.cancels h t))
      else some (s.setCall k (.storing h t none))
  | .cancels h t =>
      (s.hostStep n fds (.cancel k (s.halves h).lastOpID)).map fun s' =>
        s'.setCall k (.cancelling h t (s.halves h).lastOpID)
  | .cancelling h t id =>
      match s.net.calls k with
      | .cancelled => some (s.setCall k (.storing h t (some id)))
      | _ => none
  | .storing h t id =>
      some ((s.setHalf h { s.halves h with deadline := t, setter := some k }).setCall k
        (.set h t id))
  | _ => none

/-- Call `k` receives from the callback the consumer of loop `l` waits in. -/
def receive (s : ConnSystem) (k l : ℕ) : Option ConnSystem :=
  match s.calls k, s.host.delivering l with
  | .waiting h b, some (j, cqe) =>
      if (s.calls j).half = some h then
        some ({ s with host := s.host.release l }.setCall k (.received h b cqe))
      else none
  | _, _ => none

/-- A step of the reactor, or of a call inside it.  A new call of the reactor is one that
somebody else makes. -/
def netStep (n : ℕ) (fds : Sockets) (s : ConnSystem) (e : NetEvent) : Option ConnSystem :=
  match e with
  | .queue k _ =>
      match s.calls k with
      | .free => (s.hostStep n fds e).map fun s => s.setCall k .foreign
      | _ => none
  | .cancel k _ =>
      match s.calls k with
      | .free => (s.hostStep n fds e).map fun s => s.setCall k .foreign
      | _ => none
  | _ => s.hostStep n fds e

/-- One step of a program that has not panicked. -/
def stepLive (n : ℕ) (fds : Sockets) (s : ConnSystem) : ConnEvent → Option ConnSystem
  | .io k h b =>
      match s.calls k with
      | .free => some (s.setCall k (.want h b))
      | _ => none
  | .setDeadline k h t =>
      match s.calls k with
      | .free => some (s.setCall k (.setting h t))
      | _ => none
  | .step k => s.callStep n fds k
  | .receive k l => s.receive k l
  | .net e => s.netStep n fds e
  | .tick d => some { s with clock := s.clock + d }

/-- One step; a panic ends the program. -/
def step (n : ℕ) (fds : Sockets) (s : ConnSystem) (e : ConnEvent) : Option ConnSystem :=
  if s.net.panicked = none then s.stepLive n fds e else none

/-- New connections on a new reactor, at the time `now`. -/
def start (n : ℕ) (some_loop : 0 < n) (rings : ℕ → ReactorRing true) (now : ℤ) :
    ConnSystem where
  host := { net := NetReactor.start n some_loop rings, delivering := fun _ => none }
  senders _ := []
  halves _ := .new
  calls _ := .free
  clock := now

/-- The SQEs a step queues. -/
def encoded (n : ℕ) (fds : Sockets) (s : ConnSystem) : ConnEvent → List SQEntry
  | .net e =>
      match NetReactor.note n (s.resolve fds e) e with
      | [.queued _ sqes] => sqes
      | _ => []
  | _ => []

/-! ## The step function, taken apart -/

/-- **What a step of the reactor does** to the rest: the callbacks consumers wait in and
the senders follow the reactor, and everything else stays. -/
structure HostMove (n : ℕ) (fds : Sockets) (s : ConnSystem) (e : NetEvent) (s' : ConnSystem) :
    Prop where
  stepped : (s.resolve fds e).step n e = some s'.net
  senders : s'.senders = sendersAfter s.senders (NetReactor.note n (s.resolve fds e) e)
  halves : s'.halves = s.halves
  calls : s'.calls = s.calls
  clock : s'.clock = s.clock
  delivering : s'.host.delivering = s.host.delivering ∨
    ∃ l k cqe, e = .dispatch l ∧ s.host.delivering l = none ∧ (s.calls k).half.isSome = true ∧
      s'.net.invoked = s.net.invoked ++ [(k, cqe)] ∧
      s'.host.delivering = Function.update s.host.delivering l (some (k, cqe))

section Steps

variable {n : ℕ} {fds : Sockets} {s s' : ConnSystem} {e : ConnEvent}

theorem alike_resolve (n : ℕ) (fds : Sockets) (s : ConnSystem) (e : NetEvent) :
    NetReactor.Alike n s.net (s.resolve fds e) := by
  unfold resolve
  split
  · split
    · exact NetReactor.alike_repoint n _ _ _
    · exact .refl n _
  · exact .refl n _

theorem hostStep_spec {e : NetEvent} (done : s.hostStep n fds e = some s') :
    HostMove n fds s e s' := by
  obtain ⟨host, moved, rfl⟩ := Option.map_eq_some_iff.mp done
  obtain ⟨stepped, delivering⟩ := Host.step_spec moved
  refine ⟨stepped, rfl, rfl, rfl, rfl, ?_⟩
  rw [(alike_resolve n fds s e).invoked] at delivering
  rcases delivering with ⟨-, same⟩ | ⟨l, k, cqe, event, idle, more, after⟩
  · exact Or.inl same
  · by_cases waits : (s.calls k).half.isSome = true
    · exact Or.inr ⟨l, k, cqe, event, idle, waits, more, after.trans (if_pos waits)⟩
    · exact Or.inl (after.trans (if_neg waits))

/-- The transitions, one for each way an event can happen. -/
inductive Transition (n : ℕ) (fds : Sockets) (s : ConnSystem) : ConnEvent → ConnSystem → Prop
  | io {k : ℕ} {h : HalfID} {b : Slice} (here : s.calls k = .free) :
      Transition n fds s (.io k h b) (s.setCall k (.want h b))
  | setDeadline {k : ℕ} {h : HalfID} {t : Option ℤ} (here : s.calls k = .free) :
      Transition n fds s (.setDeadline k h t) (s.setCall k (.setting h t))
  | lock {k : ℕ} {h : HalfID} {b : Slice} (here : s.calls k = .want h b)
      (free : (s.halves h).lock = none) :
      Transition n fds s (.step k)
        ((s.setHalf h { s.halves h with lock := some k }).setCall k (.locked h b))
  | setBuffer {k : ℕ} {h : HalfID} {b : Slice} (here : s.calls k = .locked h b) :
      Transition n fds s (.step k)
        ((s.setHalf h { s.halves h with buff := b }).setCall k (.buffered h b))
  | sample {k : ℕ} {h : HalfID} {b : Slice} (here : s.calls k = .buffered h b) :
      Transition n fds s (.step k) (s.setCall k (.sampled h b (s.halves h).deadline))
  | queue {k : ℕ} {h : HalfID} {b : Slice} {deadline : Option ℤ} {s' : ConnSystem}
      (here : s.calls k = .sampled h b deadline)
      (moved : HostMove n fds s (.queue k (s.queueArgs fds h deadline)) s') :
      Transition n fds s (.step k) (s'.setCall k (.queueing h b))
  | storeID {k : ℕ} {h : HalfID} {b : Slice} {args : QueueArgs} {nonce : UInt32} {serial : ℕ}
      (here : s.calls k = .queueing h b)
      (returned : s.net.calls k = .returned args nonce serial) :
      Transition n fds s (.step k)
        ((s.setHalf h { s.halves h with lastOpID := (args.op.ticket nonce serial).id }).setCall k
          (.waiting h b))
  | finish {k : ℕ} {h : HalfID} {b : Slice} {cqe : CQEvent}
      (here : s.calls k = .received h b cqe) :
      Transition n fds s (.step k)
        ((s.setHalf h { s.halves h with lock := none }).setCall k
          (.returned h b (h.dir.result cqe)))
  | expire {k : ℕ} {h : HalfID} {t : Option ℤ} (here : s.calls k = .setting h t)
      (expired : Expired t s.clock) :
      Transition n fds s (.step k) (s.setCall k (.cancels h t))
  | keep {k : ℕ} {h : HalfID} {t : Option ℤ} (here : s.calls k = .setting h t) :
      Transition n fds s (.step k) (s.setCall k (.storing h t none))
  | cancel {k : ℕ} {h : HalfID} {t : Option ℤ} {s' : ConnSystem} (here : s.calls k = .cancels h t)
      (moved : HostMove n fds s (.cancel k (s.halves h).lastOpID) s') :
      Transition n fds s (.step k) (s'.setCall k (.cancelling h t (s.halves h).lastOpID))
  | cancelled {k : ℕ} {h : HalfID} {t : Option ℤ} {id : RequestID}
      (here : s.calls k = .cancelling h t id) (sent : s.net.calls k = .cancelled) :
      Transition n fds s (.step k) (s.setCall k (.storing h t (some id)))
  | store {k : ℕ} {h : HalfID} {t : Option ℤ} {id : Option RequestID}
      (here : s.calls k = .storing h t id) :
      Transition n fds s (.step k)
        ((s.setHalf h { s.halves h with deadline := t, setter := some k }).setCall k
          (.set h t id))
  | receive {k l j : ℕ} {h : HalfID} {b : Slice} {cqe : CQEvent}
      (here : s.calls k = .waiting h b) (there : s.host.delivering l = some (j, cqe))
      (same : (s.calls j).half = some h) :
      Transition n fds s (.receive k l)
        ({ s with host := s.host.release l }.setCall k (.received h b cqe))
  | foreign {k : ℕ} {e : NetEvent} {s' : ConnSystem} (here : s.calls k = .free)
      (new : e.newCall = some k) (moved : HostMove n fds s e s') :
      Transition n fds s (.net e) (s'.setCall k .foreign)
  | net {e : NetEvent} {s' : ConnSystem} (old : e.newCall = none)
      (moved : HostMove n fds s e s') : Transition n fds s (.net e) s'
  | tick {d : ℕ} : Transition n fds s (.tick d) { s with clock := s.clock + d }

/-- The next step of a call, taken apart. -/
theorem callStep_transition {k : ℕ} (done : s.callStep n fds k = some s') :
    Transition n fds s (.step k) s' := by
  unfold callStep at done
  split at done
  · next h b here =>
    split at done
    · next free =>
      cases done
      exact .lock here free
    · cases done
  · next h b here =>
    cases done
    exact .setBuffer here
  · next h b here =>
    cases done
    exact .sample here
  · next h b deadline here =>
    obtain ⟨s₁, moved, rfl⟩ := Option.map_eq_some_iff.mp done
    exact .queue here (hostStep_spec moved)
  · next h b here =>
    split at done
    · next args nonce serial returned =>
      cases done
      exact .storeID here returned
    · cases done
  · next h b cqe here =>
    cases done
    exact .finish here
  · next h t here =>
    split at done
    · next expired =>
      cases done
      exact .expire here expired
    · cases done
      exact .keep here
  · next h t here =>
    obtain ⟨s₁, moved, rfl⟩ := Option.map_eq_some_iff.mp done
    exact .cancel here (hostStep_spec moved)
  · next h t id here =>
    split at done
    · next sent =>
      cases done
      exact .cancelled here sent
    · cases done
  · next h t id here =>
    cases done
    exact .store here
  · cases done

/-- A step of the reactor, taken apart. -/
theorem netStep_transition {e : NetEvent} (done : s.netStep n fds e = some s') :
    Transition n fds s (.net e) s' := by
  unfold netStep at done
  split at done
  · next k args =>
    split at done
    · next here =>
      obtain ⟨s₁, moved, rfl⟩ := Option.map_eq_some_iff.mp done
      exact .foreign here rfl (hostStep_spec moved)
    · cases done
  · next k id =>
    split at done
    · next here =>
      obtain ⟨s₁, moved, rfl⟩ := Option.map_eq_some_iff.mp done
      exact .foreign here rfl (hostStep_spec moved)
    · cases done
  · next noQueue noCancel =>
    refine .net ?_ (hostStep_spec done)
    cases e with
    | queue k args => exact absurd rfl (noQueue k args)
    | cancel k id => exact absurd rfl (noCancel k id)
    | _ => rfl

/-- **Every step is a transition.** -/
theorem step_transition (stepped : s.step n fds e = some s') : Transition n fds s e s' := by
  unfold step at stepped
  split at stepped
  · cases e with
    | io k h b =>
        simp only [stepLive] at stepped
        split at stepped
        · next here =>
          cases stepped
          exact .io here
        · cases stepped
    | setDeadline k h t =>
        simp only [stepLive] at stepped
        split at stepped
        · next here =>
          cases stepped
          exact .setDeadline here
        · cases stepped
    | step k => exact callStep_transition stepped
    | receive k l =>
        simp only [stepLive, receive] at stepped
        split at stepped
        · next h b j cqe here there =>
          split at stepped
          · next same =>
            cases stepped
            exact .receive here there same
          · cases stepped
        · cases stepped
    | net e => exact netStep_transition stepped
    | tick d =>
        cases stepped
        exact .tick
  · cases stepped

end Steps

end ConnSystem

end GoUring.Net
