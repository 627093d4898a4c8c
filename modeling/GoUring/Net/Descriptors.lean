import GoUring.Foundation.Handles
import GoUring.Foundation.Runs
import GoUring.Net.Conn

/-!
# The descriptors of the `net` package

`NewListener`, `Accept` and the two `Close`s (`net/listner.go`, `net/netconn.go`) with the system
calls they make: which descriptors they take, which they give back, and what they do to the
sockets.  A `Listener` and a `Conn` keep a descriptor as a number.  `Close` hands the number to
`close(2)` and remembers nothing: a second `Close`, and a `Read` or `Write` after it, use the number
again, whatever it names by then.

An operation names its descriptor when it is queued, and the kernel looks the number up when it
reads the SQE; from there on it works on the socket it has found.  What the reactor does in
between is not looked at here: an operation that was queued is submitted at some later time, and
after `Listener.Close` the reactor ends at some time, whatever is still under way.  There is one
listener with its reactor and its connections; the rest of the process opens and closes
descriptors of its own.

`Desk.Careful` lists what must not happen: `NewListener` fails after it has made its socket, an
object is closed or used when it was closed before and its number is open again, or a connection
is accepted that no `Accept` returns because the reactor has ended.  `descriptors_in_custody_iff`
says that this is all there is, and `sockets_fit_roles` that without it every listener and every
connection has a socket that is set up as the configuration asks.
-/

namespace GoUring.Net

open Uring Runs Handles

/-! ## Sockets and system calls -/

/-- A socket, as far as the package sets it up. -/
structure SocketState where
  bound : Option (List UInt8 × UInt16)
  listening : Bool
  reuseAddr : Bool
  keepAlive : Bool
  keepIntvl : Option Int32
  keepIdle : Option Int32
  deriving DecidableEq, Repr

/-- A socket as `socket(2)` and `accept(2)` make it. -/
def SocketState.fresh : SocketState where
  bound := none
  listening := false
  reuseAddr := false
  keepAlive := false
  keepIntvl := none
  keepIdle := none

/-- The sockets made so far, and the descriptors of the process. -/
structure SocketTable where
  states : List SocketState
  table : Table

/-- `syscall.EBADF`. -/
def ebadf : Errno := ⟨9⟩

namespace SocketTable

/-- A socket in the state `k` is made and gets the descriptor `fd`. -/
def made (s : SocketTable) (fd : ℕ) (k : SocketState) : SocketTable where
  states := s.states ++ [k]
  table := Function.update s.table fd (some s.states.length)

/-- `socket(2)` or `accept(2)` returns `fd`. -/
def make (s : SocketTable) (fd : ℕ) : SocketTable := s.made fd .fresh

/-- The socket a descriptor names changes. -/
def change (s : SocketTable) (fd : ℕ) (f : SocketState → SocketState) : SocketTable :=
  match s.table fd with
  | some k => { s with states := s.states.modify k f }
  | none => s

/-- A system call that sets something up; the kernel may refuse. -/
def setup (s : SocketTable) (fd : ℕ) (answer : Option Errno) (f : SocketState → SocketState) :
    Option Errno × SocketTable :=
  match answer with
  | some errno => (some errno, s)
  | none => (none, s.change fd f)

/-- `syscall.Close`. -/
def close (s : SocketTable) (fd : ℕ) : Option Errno × SocketTable :=
  match s.table fd with
  | some _ => (none, { s with table := Function.update s.table fd none })
  | none => (some ebadf, s)

end SocketTable

/-! ## The functions -/

/-- `net.TCPAddr`: the bytes of the address, none if it was left out, and the port. -/
structure ResolvedAddr where
  ip : List UInt8
  port : UInt16
  deriving DecidableEq, Repr

/-- `net.IP.To4`. -/
def to4 (ip : List UInt8) : Option (List UInt8) :=
  if ip.length = 4 then some ip
  else if ip.length = 16 ∧ (ip.take 10).all (· == 0) ∧ ip[10]? = some 255 ∧ ip[11]? = some 255 then
    some (ip.drop 12)
  else none

/-- `addr.Addr` of `serverSocket`: four zero bytes, over which `To4` is copied. -/
def inet4 (ip : List UInt8) : List UInt8 := (to4 ip).getD [0, 0, 0, 0]

/-- What `NewListener` fails with. -/
inductive ListenError
  /-- An error of `net.ResolveTCPAddr`. -/
  | resolve
  | errno (errno : Errno)
  /-- `os.NewSyscallError`. -/
  | syscall (name : String) (errno : Errno)
  deriving DecidableEq, Repr

/-- What the kernel answers to the system calls of `serverSocket`; `bind` answers with the port. -/
structure ServerAnswers where
  socket : Except Errno ℕ
  reuseAddr : Option Errno
  nonblock : Option Errno
  bind : Except Errno UInt16
  listen : Option Errno

/-- `setDefaultListenerSockopts`. -/
def setDefaultListenerSockopts (s : SocketTable) (fd : ℕ) (answers : ServerAnswers) :
    Option ListenError × SocketTable :=
  match s.setup fd answers.reuseAddr fun k => { k with reuseAddr := true } with
  | (some errno, s) => (some (.syscall "setsockopt" errno), s)
  | (none, s) => (answers.nonblock.map (.syscall "setsockopt"), s)

/-- `serverSocket`.  It returns without closing the socket when one of the later calls fails. -/
def serverSocket (s : SocketTable) (addr : ResolvedAddr) (answers : ServerAnswers) :
    Except ListenError ℕ × SocketTable :=
  match answers.socket with
  | .error errno => (.error (.errno errno), s)
  | .ok fd =>
      match setDefaultListenerSockopts (s.make fd) fd answers with
      | (some err, s) => (.error err, s)
      | (none, s) =>
          match answers.bind with
          | .error errno => (.error (.syscall "bind" errno), s)
          | .ok port =>
              let s := s.change fd fun k => { k with bound := some (inet4 addr.ip, port) }
              match s.setup fd answers.listen fun k => { k with listening := true } with
              | (some errno, s) => (.error (.syscall "listen" errno), s)
              | (none, s) => (.ok fd, s)

/-- `NewListener` up to the start of the reactor: the descriptor and the address it keeps. -/
def newListener (s : SocketTable) (resolved : Option ResolvedAddr) (answers : ServerAnswers) :
    Except ListenError (ℕ × ResolvedAddr) × SocketTable :=
  match resolved with
  | none => (.error .resolve, s)
  | some addr =>
      match serverSocket s addr answers with
      | (.error err, s) => (.error err, s)
      | (.ok fd, s) => (.ok (fd, addr), s)

/-- `defaultTCPKeepAlive`, in nanoseconds. -/
def defaultTCPKeepAlive : Int64 := 15000000000

/-- `time.Second`. -/
def second : Int64 := 1000000000

/-- `roundDurationUp`. -/
def roundDurationUp (d unit : Int64) : Int64 := (d + unit - 1) / unit

/-- What the kernel answers to the socket options of `Accept`. -/
structure KeepAliveAnswers where
  keepAlive : Option Errno
  keepIntvl : Option Errno
  keepIdle : Option Errno

/-- `setKeepAlive(fd, true)`. -/
def setKeepAlive (s : SocketTable) (fd : ℕ) (answers : KeepAliveAnswers) :
    Option Errno × SocketTable :=
  s.setup fd answers.keepAlive fun k => { k with keepAlive := true }

/-- `setKeepAlivePeriod`; `SetsockoptInt` narrows the number to 32 bits. -/
def setKeepAlivePeriod (s : SocketTable) (fd : ℕ) (d : Int64) (answers : KeepAliveAnswers) :
    Option Errno × SocketTable :=
  let secs := (roundDurationUp d second).toInt32
  match s.setup fd answers.keepIntvl fun k => { k with keepIntvl := some secs } with
  | (some errno, s) => (some errno, s)
  | (none, s) => s.setup fd answers.keepIdle fun k => { k with keepIdle := some secs }

/-- `ka` of `Accept`. -/
def keepAlivePeriod (keepAlive : Int64) : Int64 :=
  if keepAlive = 0 then defaultTCPKeepAlive else keepAlive

/-- What `Accept` does to the socket of a new connection; errors are ignored. -/
def acceptOptions (keepAlive : Int64) (s : SocketTable) (fd : ℕ) (answers : KeepAliveAnswers) :
    SocketTable :=
  if 0 ≤ keepAlive then
    let s := (setKeepAlive s fd answers).2
    (setKeepAlivePeriod s fd (keepAlivePeriod keepAlive) answers).2
  else s

/-- `Conn.Close`. -/
def connClose (s : SocketTable) (fd : ℕ) : Option OpError × SocketTable :=
  match s.close fd with
  | (some errno, s) => (some { op := "close", err := .errno errno }, s)
  | (none, s) => (none, s)

/-- `Listener.Close`, but for the end of the reactor. -/
def listenerClose (s : SocketTable) (fd : ℕ) : Option Errno × SocketTable := s.close fd

/-! ## The package at work -/

/-- The reactor of a listener. -/
inductive ReactorState
  /-- `NewListener` has not started it. -/
  | idle
  | running
  /-- `Listener.Close` was called. -/
  | cancelled
  /-- The consumer that serves the listener has ended. -/
  | ended
  deriving DecidableEq, Repr

/-- What keeps a descriptor. -/
inductive Role
  /-- A `Listener`; `addr` is what its `Addr` returns. -/
  | listener (addr : ResolvedAddr)
  /-- A completed accept that no call of `Accept` has received. -/
  | accepted
  /-- A `Conn`. -/
  | conn
  /-- Some other part of the process. -/
  | other
  deriving DecidableEq, Repr

/-- The descriptors and those who keep them.  An operation is listed under the place of the object
it was called on: as queued, or as under way with the socket the kernel has found for it.  `looked`
are all lookups so far. -/
structure Desk where
  sockets : SocketTable
  reactor : ReactorState
  holders : List (Holder Role)
  queued : List ℕ
  flying : List (ℕ × Option ℕ)
  looked : List (ℕ × Option ℕ)

/-- What can happen. -/
inductive DeskEvent
  /-- `NewListener`. -/
  | newListener (resolved : Option ResolvedAddr) (answers : ServerAnswers)
  /-- `Accept`, `Read` or `Write` is called on object `i`, which queues an operation. -/
  | queue (i : ℕ)
  /-- The kernel reads the SQE of the `j`-th operation queued. -/
  | submit (j : ℕ)
  /-- The `j`-th operation under way is an accept and gets a connection with descriptor `fd`. -/
  | accept (j fd : ℕ)
  /-- The `j`-th operation under way ends in another way. -/
  | finish (j : ℕ)
  /-- A call of `Accept` receives the connection of place `i` and returns it. -/
  | deliver (i : ℕ) (answers : KeepAliveAnswers)
  /-- `Close` of object `i`. -/
  | close (i : ℕ)
  /-- The consumer that serves the listener ends. -/
  | ending
  /-- Some other part of the process opens the descriptor `fd`. -/
  | elsewhere (fd : ℕ) (k : SocketState)

namespace ServerAnswers

/-- What the kernel can answer: a descriptor that is not open, and the port asked for unless that
is zero. -/
def possible (answers : ServerAnswers) (s : SocketTable) (resolved : Option ResolvedAddr) : Bool :=
  (match answers.socket with
    | .ok fd => (s.table fd).isNone
    | .error _ => true) &&
  match resolved, answers.bind with
  | some addr, .ok port => addr.port == 0 || port == addr.port
  | _, _ => true

/-- A call after `socket(2)` fails. -/
def failsLater (answers : ServerAnswers) : Bool :=
  answers.reuseAddr.isSome || answers.nonblock.isSome || !answers.bind.isOk ||
    answers.listen.isSome

end ServerAnswers

namespace Desk

def start : Desk where
  sockets := { states := [], table := fun _ => none }
  reactor := .idle
  holders := []
  queued := []
  flying := []
  looked := []

/-- The next socket to be made. -/
def next (d : Desk) : ℕ := d.sockets.states.length

/-- An object or an accept gets a new descriptor into its keeping. -/
def hold (d : Desk) (fd : ℕ) (role : Role) : List (Holder Role) :=
  d.holders ++ [{ number := fd, object := d.next, released := false, role := role }]

/-- The socket an operation under way works on takes connections. -/
def listens (d : Desk) : Option ℕ → Bool
  | some k => (d.sockets.states[k]?.map SocketState.listening).getD false
  | none => false

/-- `Close` of an object: `Conn.Close`, or `Listener.Close`, which cancels the reactor too.  The
other parts of the process close what is theirs once. -/
def closed (d : Desk) (i : ℕ) (h : Holder Role) : Option Desk :=
  match h.role with
  | .listener _ =>
      some { d with
        sockets := (listenerClose d.sockets h.number).2
        holders := d.holders.set i { h with released := true }
        reactor := if d.reactor = .running then .cancelled else d.reactor }
  | .conn =>
      some { d with
        sockets := (connClose d.sockets h.number).2
        holders := d.holders.set i { h with released := true } }
  | .other =>
      if h.released then none
      else
        some { d with
          sockets := (d.sockets.close h.number).2
          holders := d.holders.set i { h with released := true } }
  | .accepted => none

/-- One step; `keepAlive` is the field of the listener's configuration. -/
def step (keepAlive : Int64) (d : Desk) : DeskEvent → Option Desk
  | .newListener resolved answers =>
      if d.reactor = .idle ∧ answers.possible d.sockets resolved = true then
        match newListener d.sockets resolved answers with
        | (.error _, sockets) => some { d with sockets := sockets }
        | (.ok (fd, addr), sockets) =>
            some { d with
              sockets := sockets
              reactor := .running
              holders := d.hold fd (.listener addr) }
      else none
  | .queue i =>
      match d.holders[i]? with
      | some h =>
          match h.role with
          | .listener _ | .conn => some { d with queued := d.queued ++ [i] }
          | .accepted | .other => none
      | none => none
  | .submit j =>
      (d.queued[j]?).bind fun i =>
        (d.holders[i]?).map fun h =>
          { d with
            queued := d.queued.eraseIdx j
            flying := d.flying ++ [(i, d.sockets.table h.number)]
            looked := d.looked ++ [(i, d.sockets.table h.number)] }
  | .accept j fd =>
      match d.flying[j]? with
      | some (i, target) =>
          match d.holders[i]?.map Holder.role with
          | some (.listener _) =>
              if d.listens target ∧ d.sockets.table fd = none then
                some { d with
                  sockets := d.sockets.make fd
                  holders := d.hold fd .accepted
                  flying := d.flying.eraseIdx j }
              else none
          | _ => none
      | none => none
  | .finish j => if j < d.flying.length then some { d with flying := d.flying.eraseIdx j } else none
  | .deliver i answers =>
      match d.holders[i]? with
      | some h =>
          if h.role = .accepted ∧ d.reactor ≠ .ended then
            some { d with
              sockets := acceptOptions keepAlive d.sockets h.number answers
              holders := d.holders.set i { h with role := .conn } }
          else none
      | none => none
  | .close i => (d.holders[i]?).bind (d.closed i)
  | .ending => if d.reactor = .cancelled then some { d with reactor := .ended } else none
  | .elsewhere fd k =>
      if d.sockets.table fd = none then
        some { d with sockets := d.sockets.made fd k, holders := d.hold fd .other }
      else none

/-- **Everything is in custody**: the open descriptors are those of the objects not closed yet,
each with its own socket; each operation works on the socket of the object it was called on; and
once the reactor has ended no connection is left that nobody returns. -/
structure InCustody (d : Desk) : Prop where
  sound : Sound d.next d.sockets.table d.holders
  own : ∀ i k, (i, some k) ∈ d.looked → ∃ h, d.holders[i]? = some h ∧ h.object = k
  received : d.reactor = .ended → ∀ h ∈ d.holders, h.role ≠ .accepted

/-- The object of a place is not closed, or its number is not open. -/
def Unambiguous (d : Desk) (i : ℕ) : Prop :=
  ∀ h, d.holders[i]? = some h → h.released = true → d.sockets.table h.number = none

/-- What must not happen. -/
def Careful (d : Desk) : DeskEvent → Prop
  | .newListener resolved answers =>
      resolved.isSome = true → answers.socket.isOk = true → answers.failsLater = false
  | .submit j => ∀ i, d.queued[j]? = some i → d.Unambiguous i
  | .close i => d.Unambiguous i
  | .accept _ _ => d.reactor ≠ .ended
  | .ending => ∀ h ∈ d.holders, h.role ≠ .accepted
  | .queue _ | .finish _ | .deliver _ _ | .elsewhere _ _ => True

end Desk

/-! ## What each call does to the descriptors -/

namespace SocketTable

variable (s : SocketTable) (fd : ℕ) (f : SocketState → SocketState)

theorem table_change : (s.change fd f).table = s.table := by
  unfold change
  split <;> rfl

theorem length_change : (s.change fd f).states.length = s.states.length := by
  unfold change
  split
  · exact List.length_modify _ _ _
  · rfl

theorem table_setup (answer : Option Errno) : (s.setup fd answer f).2.table = s.table := by
  cases answer with
  | none => exact s.table_change fd f
  | some errno => rfl

theorem length_setup (answer : Option Errno) :
    (s.setup fd answer f).2.states.length = s.states.length := by
  cases answer with
  | none => exact s.length_change fd f
  | some errno => rfl

/-- Setting up the socket just made. -/
theorem change_made (k : SocketState) : (s.made fd k).change fd f = s.made fd (f k) := by
  have named : (s.made fd k).table fd = some s.states.length := Function.update_self _ _ _
  rw [change, named]
  simp only [made, SocketTable.mk.injEq, and_true, List.modify_eq_set_getElem?]
  simp

theorem setup_made (k : SocketState) :
    (s.made fd k).setup fd none f = (none, s.made fd (f k)) := by
  rw [setup, change_made]

end SocketTable

/-- The socket of a listener. -/
def listeningState (addr : ResolvedAddr) (port : UInt16) : SocketState :=
  { SocketState.fresh with
    reuseAddr := true
    bound := some (inet4 addr.ip, port)
    listening := true }

/-- How `serverSocket` ends once its socket is made. -/
theorem serverSocket_of_socket (s : SocketTable) (addr : ResolvedAddr) {answers : ServerAnswers}
    {fd : ℕ} (socket : answers.socket = .ok fd) :
    (answers.failsLater = true ∧ ∃ err k, serverSocket s addr answers = (.error err, s.made fd k)) ∨
      answers.failsLater = false ∧ ∃ port, answers.bind = .ok port ∧
        serverSocket s addr answers = (.ok fd, s.made fd (listeningState addr port)) := by
  unfold serverSocket setDefaultListenerSockopts ServerAnswers.failsLater
  rw [socket]
  cases reuse : answers.reuseAddr with
  | some errno => exact .inl ⟨rfl, _, _, rfl⟩
  | none =>
      simp only [SocketTable.make, SocketTable.setup_made]
      cases nonblock : answers.nonblock with
      | some errno => exact .inl ⟨rfl, _, _, rfl⟩
      | none =>
          simp only [Option.map_none]
          cases bind : answers.bind with
          | error errno => exact .inl ⟨rfl, _, _, rfl⟩
          | ok port =>
              simp only [SocketTable.change_made]
              cases listen : answers.listen with
              | some errno => exact .inl ⟨rfl, _, _, rfl⟩
              | none =>
                  rw [SocketTable.setup_made]
                  exact .inr ⟨rfl, port, rfl, rfl⟩

/-- **What `NewListener` leaves behind**: nothing; a socket that nobody keeps; or a listener. -/
theorem newListener_cases (s : SocketTable) (resolved : Option ResolvedAddr)
    (answers : ServerAnswers) :
    ((resolved.isSome = true → answers.socket.isOk = false) ∧
        ∃ err, newListener s resolved answers = (.error err, s)) ∨
      ∃ addr fd, resolved = some addr ∧ answers.socket = .ok fd ∧
        ((answers.failsLater = true ∧
            ∃ err k, newListener s resolved answers = (.error err, s.made fd k)) ∨
          answers.failsLater = false ∧ ∃ port, answers.bind = .ok port ∧
            newListener s resolved answers =
              (.ok (fd, addr), s.made fd (listeningState addr port))) := by
  cases resolved with
  | none => exact .inl ⟨(by simp), _, rfl⟩
  | some addr =>
      cases socket : answers.socket with
      | error errno =>
          refine .inl ⟨fun _ => rfl, .errno errno, ?_⟩
          simp only [newListener, serverSocket, socket]
      | ok fd =>
          refine .inr ⟨addr, fd, rfl, rfl, ?_⟩
          rcases serverSocket_of_socket s addr socket with
            ⟨fails, err, k, result⟩ | ⟨works, port, bound, result⟩
          · exact .inl ⟨fails, err, k, by simp only [newListener, result]⟩
          · exact .inr ⟨works, port, bound, by simp only [newListener, result]⟩

/-- Setting socket options opens and closes nothing. -/
theorem acceptOptions_table (keepAlive : Int64) (s : SocketTable) (fd : ℕ)
    (answers : KeepAliveAnswers) :
    (acceptOptions keepAlive s fd answers).table = s.table ∧
      (acceptOptions keepAlive s fd answers).states.length = s.states.length := by
  unfold acceptOptions
  split
  · unfold setKeepAlivePeriod setKeepAlive
    cases intvl : answers.keepIntvl with
    | some errno => exact ⟨s.table_setup _ _ _, s.length_setup _ _ _⟩
    | none =>
        constructor
        · show (SocketTable.setup _ _ _ _).2.table = _
          rw [SocketTable.table_setup, SocketTable.table_change, SocketTable.table_setup]
        · show (SocketTable.setup _ _ _ _).2.states.length = _
          rw [SocketTable.length_setup, SocketTable.length_change, SocketTable.length_setup]
  · exact ⟨rfl, rfl⟩

/-- `close(2)` takes the number out of the table, if it is in. -/
theorem SocketTable.close_snd (s : SocketTable) (fd : ℕ) :
    (s.close fd).2 = { s with table := Function.update s.table fd none } := by
  unfold SocketTable.close
  split
  · rfl
  · next none =>
    rw [← none, Function.update_eq_self]

theorem connClose_snd (s : SocketTable) (fd : ℕ) : (connClose s fd).2 = (s.close fd).2 := by
  unfold connClose
  generalize s.close fd = result
  rcases result with ⟨_ | errno, s⟩ <;> rfl

namespace Desk

variable {keepAlive : Int64} {d d' : Desk}

/-- **What `Close` does**, whichever object it is called on. -/
theorem closed_spec {i : ℕ} {h : Holder Role} (result : d.closed i h = some d') :
    h.role ≠ .accepted ∧
      d'.sockets = { d.sockets with table := Function.update d.sockets.table h.number none } ∧
      d'.holders = d.holders.set i { h with released := true } ∧ d'.looked = d.looked ∧
      (d'.reactor = .ended → d.reactor = .ended) := by
  unfold closed at result
  cases role : h.role with
  | accepted =>
      rw [role] at result
      cases result
  | conn =>
      rw [role] at result
      cases result
      refine ⟨by simp, ?_, rfl, rfl, fun ended => ended⟩
      rw [connClose_snd, SocketTable.close_snd]
  | other =>
      rw [role] at result
      dsimp only at result
      split at result
      · cases result
      · cases result
        refine ⟨by simp, ?_, rfl, rfl, fun ended => ended⟩
        rw [SocketTable.close_snd]
  | listener addr =>
      rw [role] at result
      cases result
      refine ⟨by simp, ?_, rfl, rfl, fun ended => ?_⟩
      · rw [listenerClose, SocketTable.close_snd]
      · dsimp only at ended
        split at ended
        · cases ended
        · exact ended

/-- A step that leaves the descriptors and their holders alone. -/
theorem InCustody.of_same (inv : d.InCustody) (sockets : d'.sockets = d.sockets)
    (holders : d'.holders = d.holders) (looked : d'.looked = d.looked)
    (reactor : d'.reactor = d.reactor) : d'.InCustody where
  sound := by
    rw [next, sockets, holders]
    exact inv.sound
  own := by
    rw [looked, holders]
    exact inv.own
  received := by
    rw [reactor, holders]
    exact inv.received

/-- A descriptor is taken into custody. -/
theorem InCustody.hold (inv : d.InCustody) {fd : ℕ} {k : SocketState} {role : Role}
    (free : d.sockets.table fd = none) (sockets : d'.sockets = d.sockets.made fd k)
    (holders : d'.holders = d.hold fd role) (looked : d'.looked = d.looked)
    (reactor : d'.reactor = .ended → d.reactor = .ended ∧ role ≠ .accepted) : d'.InCustody where
  sound := by
    have taken := inv.sound.take free role
    have length : d'.next = d.next + 1 := by
      rw [next, sockets]
      exact List.length_append
    rw [length, sockets, holders]
    exact taken
  own i k mem := by
    rw [looked] at mem
    obtain ⟨h, place, object⟩ := inv.own i k mem
    refine ⟨h, ?_, object⟩
    rw [holders, Desk.hold, List.getElem?_append_left (List.getElem?_eq_some_iff.mp place).1]
    exact place
  received ended h mem := by
    rw [holders] at mem
    rcases List.mem_append.mp mem with old | new
    · exact inv.received (reactor ended).1 h old
    · obtain rfl := List.mem_singleton.mp new
      exact (reactor ended).2

/-- A holder is replaced by one of the same object. -/
theorem own_set {i j k : ℕ} {holders : List (Holder Role)} {h h' : Holder Role}
    (place : holders[j]? = some h) (same : h'.object = h.object)
    (own : ∃ o, holders[i]? = some o ∧ o.object = k) :
    ∃ o, (holders.set j h')[i]? = some o ∧ o.object = k := by
  obtain ⟨o, found, object⟩ := own
  by_cases here : j = i
  · subst here
    rw [place, Option.some.injEq] at found
    subst found
    refine ⟨h', ?_, same.trans object⟩
    rw [List.getElem?_set_self (List.getElem?_eq_some_iff.mp place).1]
  · exact ⟨o, by rw [List.getElem?_set_ne here, found], object⟩

/-- The lookup of an object that can be told from others finds its own socket. -/
theorem Unambiguous.lookup {i k : ℕ} {h : Holder Role} (clear : d.Unambiguous i)
    (inv : d.InCustody) (place : d.holders[i]? = some h)
    (found : d.sockets.table h.number = some k) : h.object = k := by
  cases released : h.released with
  | true =>
      rw [clear h place released] at found
      cases found
  | false =>
      have kept := inv.sound.kept h (List.mem_of_getElem? place) released
      rw [found, Option.some.injEq] at kept
      exact kept.symm

/-- **Closing** an object that can be told from others. -/
theorem InCustody.closed (inv : d.InCustody) {i : ℕ} {h : Holder Role}
    (place : d.holders[i]? = some h) (clear : d.Unambiguous i)
    (result : d.closed i h = some d') : d'.InCustody := by
  obtain ⟨role, sockets, holders, looked, ended⟩ := closed_spec result
  refine ⟨?_, ?_, ?_⟩
  · rw [next, sockets, holders]
    cases released : h.released with
    | false => exact inv.sound.release place released
    | true =>
        -- A second `Close` changes nothing, as the number is not open.
        have same : ({ h with released := true } : Holder Role) = h := by rw [← released]
        rw [same, update_of_again (clear h place released), set_self place]
        exact inv.sound
  · intro j k mem
    rw [looked] at mem
    rw [holders]
    exact own_set place rfl (inv.own j k mem)
  · intro afterwards o mem
    rw [holders] at mem
    rcases List.mem_or_eq_of_mem_set mem with old | rfl
    · exact inv.received (ended afterwards) o old
    · exact role

/-- What a step can do. -/
inductive Move (keepAlive : Int64) (d : Desk) : DeskEvent → Desk → Prop
  | refused {resolved : Option ResolvedAddr} {answers : ServerAnswers}
      (none : resolved.isSome = true → answers.socket.isOk = false) :
      Move keepAlive d (.newListener resolved answers) d
  | leaked {addr : ResolvedAddr} {answers : ServerAnswers} {fd : ℕ} (k : SocketState)
      (socket : answers.socket = .ok fd) (fails : answers.failsLater = true) :
      Move keepAlive d (.newListener (some addr) answers) { d with sockets := d.sockets.made fd k }
  | listening {addr : ResolvedAddr} {answers : ServerAnswers} {fd : ℕ} {port : UInt16}
      (works : answers.failsLater = false) (free : d.sockets.table fd = none)
      (asked : addr.port = 0 ∨ port = addr.port) :
      Move keepAlive d (.newListener (some addr) answers)
        { d with
          sockets := d.sockets.made fd (listeningState addr port)
          reactor := .running
          holders := d.hold fd (.listener addr) }
  | queued (i : ℕ) : Move keepAlive d (.queue i) { d with queued := d.queued ++ [i] }
  | looked {i j : ℕ} {h : Holder Role} (next : d.queued[j]? = some i)
      (place : d.holders[i]? = some h) :
      Move keepAlive d (.submit j)
        { d with
          queued := d.queued.eraseIdx j
          flying := d.flying ++ [(i, d.sockets.table h.number)]
          looked := d.looked ++ [(i, d.sockets.table h.number)] }
  | accepted {j fd : ℕ} (free : d.sockets.table fd = none) :
      Move keepAlive d (.accept j fd)
        { d with
          sockets := d.sockets.make fd
          holders := d.hold fd .accepted
          flying := d.flying.eraseIdx j }
  | finished (j : ℕ) : Move keepAlive d (.finish j) { d with flying := d.flying.eraseIdx j }
  | delivered {i : ℕ} {h : Holder Role} {answers : KeepAliveAnswers}
      (place : d.holders[i]? = some h) (role : h.role = .accepted) (alive : d.reactor ≠ .ended) :
      Move keepAlive d (.deliver i answers)
        { d with
          sockets := acceptOptions keepAlive d.sockets h.number answers
          holders := d.holders.set i { h with role := .conn } }
  | closed {i : ℕ} {h : Holder Role} {d' : Desk} (place : d.holders[i]? = some h)
      (result : d.closed i h = some d') : Move keepAlive d (.close i) d'
  | ended : Move keepAlive d .ending { d with reactor := .ended }
  | elsewhere {fd : ℕ} (k : SocketState) (free : d.sockets.table fd = none) :
      Move keepAlive d (.elsewhere fd k)
        { d with sockets := d.sockets.made fd k, holders := d.hold fd .other }

/-- `NewListener` refuses, leaks a socket, or makes a listener. -/
theorem move_newListener {resolved : Option ResolvedAddr} {answers : ServerAnswers}
    (stepped : d.step keepAlive (.newListener resolved answers) = some d') :
    Move keepAlive d (.newListener resolved answers) d' := by
  simp only [Desk.step] at stepped
  split at stepped
  · next possible =>
    rcases newListener_cases d.sockets resolved answers with
      ⟨none, err, result⟩ |
      ⟨addr, fd, rfl, socket, ⟨fails, err, k, result⟩ | ⟨works, port, bound, result⟩⟩
    · rw [result] at stepped
      cases stepped
      exact .refused none
    · rw [result] at stepped
      cases stepped
      exact .leaked k socket fails
    · rw [result] at stepped
      cases stepped
      have answered := possible.2
      simp only [ServerAnswers.possible, socket, bound, Bool.and_eq_true, Bool.or_eq_true,
        beq_iff_eq, Option.isNone_iff_eq_none] at answered
      exact .listening works answered.1 answered.2
  · cases stepped

/-- **Every step is one of these.** -/
theorem move_of_step {e : DeskEvent} (stepped : d.step keepAlive e = some d') :
    Move keepAlive d e d' := by
  cases e with
  | newListener resolved answers => exact move_newListener stepped
  | queue i =>
      simp only [Desk.step] at stepped
      split at stepped
      · split at stepped <;> cases stepped <;> exact .queued i
      · cases stepped
  | submit j =>
      obtain ⟨i, next, found⟩ := Option.bind_eq_some_iff.mp stepped
      obtain ⟨h, place, rfl⟩ := Option.map_eq_some_iff.mp found
      exact .looked next place
  | accept j fd =>
      simp only [Desk.step] at stepped
      split at stepped
      · split at stepped
        · split at stepped
          · next possible =>
            cases stepped
            exact .accepted possible.2
          · cases stepped
        · cases stepped
      · cases stepped
  | finish j =>
      simp only [Desk.step] at stepped
      split at stepped
      · cases stepped
        exact .finished j
      · cases stepped
  | deliver i answers =>
      simp only [Desk.step] at stepped
      split at stepped
      · next h place =>
        split at stepped
        · next ready =>
          cases stepped
          exact .delivered place ready.1 ready.2
        · cases stepped
      · cases stepped
  | close i =>
      obtain ⟨h, place, result⟩ := Option.bind_eq_some_iff.mp stepped
      exact .closed place result
  | ending =>
      simp only [Desk.step] at stepped
      split at stepped
      · cases stepped
        exact .ended
      · cases stepped
  | elsewhere fd k =>
      simp only [Desk.step] at stepped
      split at stepped
      · next free =>
        cases stepped
        exact .elsewhere k free
      · cases stepped

/-- **A careful step keeps everything in custody.** -/
theorem InCustody.step {e : DeskEvent} (inv : d.InCustody) (careful : d.Careful e)
    (stepped : d.step keepAlive e = some d') : d'.InCustody := by
  cases move_of_step stepped with
  | refused => exact inv
  | leaked k socket fails =>
      rw [careful rfl (by rw [socket]; rfl)] at fails
      cases fails
  | listening works free asked => exact inv.hold free rfl rfl rfl fun ended => nomatch ended
  | queued | finished => exact inv.of_same rfl rfl rfl rfl
  | @looked i j h next place =>
      refine ⟨inv.sound, fun i' k mem => ?_, inv.received⟩
      rcases List.mem_append.mp mem with old | new
      · exact inv.own i' k old
      · have same := List.mem_singleton.mp new
        rw [Prod.mk.injEq] at same
        obtain ⟨rfl, lookup⟩ := same
        exact ⟨h, place, (careful _ next).lookup inv place lookup.symm⟩
  | accepted free => exact inv.hold free rfl rfl rfl fun ended => absurd ended careful
  | @delivered i h answers place role alive =>
      obtain ⟨table, length⟩ := acceptOptions_table keepAlive d.sockets h.number answers
      refine ⟨?_, fun j k mem => own_set place rfl (inv.own j k mem), fun ended =>
        absurd ended alive⟩
      show Sound (acceptOptions _ _ _ _).states.length (acceptOptions _ _ _ _).table _
      rw [table, length]
      exact inv.sound.replace place .conn
  | closed place result => exact inv.closed place careful result
  | ended => exact ⟨inv.sound, inv.own, fun _ => careful⟩
  | elsewhere k free => exact inv.hold free rfl rfl rfl fun ended => ⟨ended, by simp⟩

/-- **A step that is not careful ends the custody.** -/
theorem InCustody.violated {e : DeskEvent} (inv : d.InCustody) (careless : ¬ d.Careful e)
    (stepped : d.step keepAlive e = some d') : ¬ d'.InCustody := by
  intro after
  cases move_of_step stepped with
  | refused none =>
      refine careless fun resolved made => ?_
      rw [none resolved] at made
      cases made
  | leaked => exact not_sound_unheld inv.sound after.sound
  | listening works => exact careless fun _ _ => works
  | @looked i j h next place =>
      refine careless fun i' next' h' place' released => ?_
      rw [next, Option.some.injEq] at next'
      subst next'
      rw [place, Option.some.injEq] at place'
      subst place'
      by_contra reused
      obtain ⟨k, named⟩ := Option.ne_none_iff_exists'.mp reused
      have noted : (i, some k) ∈ d.looked ++ [(i, d.sockets.table h.number)] := by
        rw [named]
        exact List.mem_append_right _ (List.mem_singleton_self _)
      obtain ⟨o, found, object⟩ := after.own i k noted
      rw [place, Option.some.injEq] at found
      subst found
      subst object
      exact inv.sound.ne_of_released (List.mem_of_getElem? place) released _ named
  | accepted =>
      have ended := not_not.mp careless
      exact after.received ended _ (List.mem_append_right _ (List.mem_singleton_self _)) rfl
  | @closed i h _ place result =>
      obtain ⟨-, sockets, holders, -⟩ := closed_spec result
      refine careless fun h' place' released => ?_
      rw [place, Option.some.injEq] at place'
      subst place'
      by_contra reused
      obtain ⟨k, named⟩ := Option.ne_none_iff_exists'.mp reused
      have same : ({ h with released := true } : Holder Role) = h := by rw [← released]
      have sound := after.sound
      rw [next, sockets, holders, same, set_self place] at sound
      exact not_sound_again inv.sound named sound
  | ended => exact careless (after.received rfl)
  | queued | finished | delivered | elsewhere => exact careless trivial

/-- **The descriptors are in custody exactly along the careful runs.** -/
theorem descriptors_in_custody_iff {p : List (Desk × DeskEvent)}
    (path : Path (Desk.step keepAlive) Desk.start p d) :
    (∀ s ∈ visited p d, s.InCustody) ↔ ∀ x ∈ p, x.1.Careful x.2 :=
  path.exact InCustody (fun _ => True) InCustody (fun _ _ => True) Careful
    ⟨sound_nil _, by simp [Desk.start], by simp [Desk.start]⟩ (fun _ inv _ => inv)
    (fun _ _ _ inv _ _ _ careful stepped => inv.step careful stepped)
    (fun _ _ _ inv _ _ _ careless stepped => inv.violated careless stepped)
    (fun _ _ => trivial) fun _ _ => trivial

/-- The kernel grants what `serverSocket` asks for. -/
def allGranted (fd : ℕ) (port : UInt16) : ServerAnswers where
  socket := .ok fd
  reuseAddr := none
  nonblock := none
  bind := .ok port
  listen := none

/-- The kernel grants the socket options of `Accept`. -/
def optionsGranted : KeepAliveAnswers where
  keepAlive := none
  keepIntvl := none
  keepIdle := none

/-- A connection is closed, a file gets its number, and the connection is closed again. -/
def closedTwice : List DeskEvent :=
  [.newListener (some ⟨[127, 0, 0, 1], 8080⟩) (allGranted 3 8080), .queue 0, .submit 0, .accept 0 4,
    .deliver 1 optionsGranted, .close 1, .elsewhere 4 .fresh, .close 1]

/-- The second `Close` ends the custody: the file has lost its number. -/
theorem descriptors_in_custody_iff_closedTwice :
    ∃ p d, Path (Desk.step 0) Desk.start p d ∧ p.map Prod.snd = closedTwice ∧
      (∃ h, d.holders[2]? = some h ∧ h.role = .other ∧ h.released = false ∧
        d.sockets.table h.number = none) ∧
      ¬ ∀ s ∈ visited p d, s.InCustody := by
  have path : Path (Desk.step 0) Desk.start _ _ := path_record closedTwice rfl
  refine ⟨_, _, path, rfl, ⟨_, rfl, rfl, rfl, rfl⟩, fun custody => ?_⟩
  have careful := (descriptors_in_custody_iff path).mp custody
  have last := careful _ (List.mem_of_getLast? rfl) _ rfl rfl
  cases last

end Desk

/-! ## How the sockets are set up -/

/-- `secs` is the period `d` in seconds, rounded up. -/
def RoundedUp (d : Int64) (secs : Int32) : Prop :=
  (secs.toInt - 1) * 1000000000 < d.toInt ∧ d.toInt ≤ secs.toInt * 1000000000

/-- **Rounding up to seconds** is exact as long as the result fits into the 32 bits of the
option. -/
theorem roundDurationUp_second {d : Int64} (positive : 0 ≤ d.toInt)
    (fits : d.toInt ≤ (2 ^ 31 - 1) * 1000000000) :
    RoundedUp d (roundDurationUp d second).toInt32 := by
  have unit : second.toInt = 1000000000 := rfl
  have one : (1 : Int64).toInt = 1 := rfl
  have sum : (d + second - 1).toInt = d.toInt + 999999999 := by
    rw [Int64.toInt_sub, Int64.toInt_add, unit, one, Int.bmod_eq_of_le (n := d.toInt + 1000000000),
      Int.bmod_eq_of_le] <;> omega
  have quotient : (roundDurationUp d second).toInt = (d.toInt + 999999999) / 1000000000 := by
    rw [roundDurationUp, Int64.toInt_div_of_ne_right _ _ (by decide), sum, unit,
      Int.tdiv_eq_ediv_of_nonneg (by omega)]
  have narrowed : (roundDurationUp d second).toInt32.toInt =
      (d.toInt + 999999999) / 1000000000 := by
    rw [Int64.toInt_toInt32, quotient, Int.bmod_eq_of_le] <;> omega
  unfold RoundedUp
  rw [narrowed]
  omega

/-- The socket of a `Conn`. -/
def connState (keepAlive : Int64) : SocketState :=
  if 0 ≤ keepAlive then
    let secs := (roundDurationUp (keepAlivePeriod keepAlive) second).toInt32
    { SocketState.fresh with keepAlive := true, keepIntvl := some secs, keepIdle := some secs }
  else .fresh

namespace SocketTable

theorem change_of_named {s : SocketTable} {fd k : ℕ} (named : s.table fd = some k)
    (f : SocketState → SocketState) :
    s.change fd f = { s with states := s.states.modify k f } := by
  rw [change, named]

/-- Setting up a socket twice. -/
theorem change_change (s : SocketTable) (fd : ℕ) (f g : SocketState → SocketState) :
    (s.change fd f).change fd g = s.change fd (g ∘ f) := by
  cases named : s.table fd with
  | none => simp only [change, named]
  | some k =>
      have still : (s.change fd f).table fd = some k := by rw [table_change, named]
      rw [change_of_named still, change_of_named named, change_of_named named,
        List.modify_modify_eq]

end SocketTable

/-- What the kernel leaves of the socket of a connection. -/
theorem acceptOptions_granted {keepAlive : Int64} {s : SocketTable} {fd k : ℕ}
    {answers : KeepAliveAnswers} (alive : answers.keepAlive = none)
    (intvl : answers.keepIntvl = none) (idle : answers.keepIdle = none)
    (named : s.table fd = some k) (fresh : s.states[k]? = some .fresh) :
    (acceptOptions keepAlive s fd answers).states = s.states.set k (connState keepAlive) := by
  unfold acceptOptions connState
  split
  · simp only [setKeepAlive, setKeepAlivePeriod, SocketTable.setup, alive, intvl, idle,
      SocketTable.change_change]
    rw [SocketTable.change_of_named named]
    simp only [List.modify_eq_set_getElem?, fresh]
    rfl
  · exact (set_self fresh).symm

/-- How the socket of an object is set up. -/
def AsConfigured (keepAlive : Int64) : Role → SocketState → Prop
  | .listener addr, k =>
      ∃ port, (addr.port = 0 ∨ port = addr.port) ∧ k = listeningState addr port
  | .accepted, k => k = .fresh
  | .conn, k => k = connState keepAlive
  | .other, _ => True

/-- The kernel grants the socket options. -/
def DeskEvent.Granted : DeskEvent → Prop
  | .deliver _ answers =>
      answers.keepAlive = none ∧ answers.keepIntvl = none ∧ answers.keepIdle = none
  | _ => True

namespace Desk

variable {keepAlive : Int64} {d d' : Desk}

/-- Each object's socket is set up for its role; only what `Accept` has returned can be closed. -/
structure Configured (keepAlive : Int64) (d : Desk) : Prop where
  states : ∀ h ∈ d.holders, ∃ k, d.sockets.states[h.object]? = some k ∧
    AsConfigured keepAlive h.role k
  kept : ∀ h ∈ d.holders, h.role = .accepted → h.released = false

theorem Configured.of_same (conf : d.Configured keepAlive)
    (states : d'.sockets.states = d.sockets.states) (holders : d'.holders = d.holders) :
    d'.Configured keepAlive := by
  constructor
  · rw [states, holders]
    exact conf.states
  · rw [holders]
    exact conf.kept

/-- A new socket, set up for its role. -/
theorem Configured.hold (conf : d.Configured keepAlive) {fd : ℕ} {k : SocketState} {role : Role}
    (sockets : d'.sockets = d.sockets.made fd k) (holders : d'.holders = d.hold fd role)
    (fits : AsConfigured keepAlive role k) : d'.Configured keepAlive where
  states h mem := by
    rw [holders] at mem
    rw [sockets]
    rcases List.mem_append.mp mem with old | new
    · obtain ⟨k', found, fits'⟩ := conf.states h old
      refine ⟨k', ?_, fits'⟩
      exact (List.getElem?_append_left (List.getElem?_eq_some_iff.mp found).1).trans found
    · obtain rfl := List.mem_singleton.mp new
      exact ⟨k, List.getElem?_concat_length, fits⟩
  kept h mem accepted := by
    rw [holders] at mem
    rcases List.mem_append.mp mem with old | new
    · exact conf.kept h old accepted
    · obtain rfl := List.mem_singleton.mp new
      rfl

/-- Closing leaves the sockets as they are. -/
theorem Configured.closed (conf : d.Configured keepAlive) {i : ℕ} {h : Holder Role}
    (place : d.holders[i]? = some h) (result : d.closed i h = some d') :
    d'.Configured keepAlive := by
  obtain ⟨role, sockets, holders, -⟩ := closed_spec result
  constructor
  · intro o mem
    rw [holders] at mem
    rw [sockets]
    rcases List.mem_or_eq_of_mem_set mem with old | rfl
    · exact conf.states o old
    · exact conf.states h (List.mem_of_getElem? place)
  · intro o mem accepted
    rw [holders] at mem
    rcases List.mem_or_eq_of_mem_set mem with old | rfl
    · exact conf.kept o old accepted
    · exact absurd accepted role

/-- `Accept` sets up the socket of the connection it returns, and no other. -/
theorem Configured.deliver (conf : d.Configured keepAlive) (inv : d.InCustody) {i : ℕ}
    {h : Holder Role} {answers : KeepAliveAnswers} (place : d.holders[i]? = some h)
    (accepted : h.role = .accepted) (granted : (DeskEvent.deliver i answers).Granted) :
    Configured keepAlive { d with
      sockets := acceptOptions keepAlive d.sockets h.number answers
      holders := d.holders.set i { h with role := .conn } } := by
  have mem := List.mem_of_getElem? place
  have named := inv.sound.kept h mem (conf.kept h mem accepted)
  obtain ⟨k, found, fresh⟩ := conf.states h mem
  rw [accepted] at fresh
  subst fresh
  have changed : (acceptOptions keepAlive d.sockets h.number answers).states =
      d.sockets.states.set h.object (connState keepAlive) :=
    acceptOptions_granted granted.1 granted.2.1 granted.2.2 named found
  have distinct := (Sound.map_object_set place { h with role := .conn } rfl).symm ▸
    inv.sound.distinct
  constructor
  · intro o there
    dsimp only at there ⊢
    rw [changed]
    by_cases same : o.object = h.object
    · have here := List.mem_set (List.getElem?_eq_some_iff.mp place).1 { h with role := Role.conn }
      obtain rfl := List.inj_on_of_nodup_map distinct there here same
      exact ⟨_, List.getElem?_set_self (List.getElem?_eq_some_iff.mp found).1, rfl⟩
    · rcases List.mem_or_eq_of_mem_set there with old | rfl
      · rw [List.getElem?_set_ne fun eq => same eq.symm]
        exact conf.states o old
      · exact absurd rfl same
  · intro o there accepted'
    dsimp only at there
    rcases List.mem_or_eq_of_mem_set there with old | rfl
    · exact conf.kept o old accepted'
    · cases accepted'

/-- **A careful step leaves every socket set up for its role.** -/
theorem Configured.step {e : DeskEvent} (conf : d.Configured keepAlive) (inv : d.InCustody)
    (granted : e.Granted) (careful : d.Careful e) (stepped : d.step keepAlive e = some d') :
    d'.Configured keepAlive := by
  cases move_of_step stepped with
  | refused => exact conf
  | leaked k socket fails =>
      rw [careful rfl (by rw [socket]; rfl)] at fails
      cases fails
  | @listening addr answers fd port works free asked => exact conf.hold rfl rfl ⟨port, asked, rfl⟩
  | queued | looked | finished | ended => exact conf.of_same rfl rfl
  | accepted => exact conf.hold rfl rfl rfl
  | delivered place role alive => exact conf.deliver inv place role granted
  | closed place result => exact conf.closed place result
  | elsewhere => exact conf.hold rfl rfl trivial

end Desk

/-- What the configuration asks of the socket of an object. -/
def FitFor (keepAlive : Int64) : Role → SocketState → Prop
  | .listener addr, k =>
      k.listening = true ∧ k.reuseAddr = true ∧
        ∃ port, (addr.port = 0 ∨ port = addr.port) ∧ k.bound = some (inet4 addr.ip, port)
  | .accepted, k => k = .fresh
  | .conn, k =>
      (keepAlive < 0 ∧ k = .fresh) ∨
        0 ≤ keepAlive ∧ k.keepAlive = true ∧ ∃ secs, RoundedUp (keepAlivePeriod keepAlive) secs ∧
          k.keepIntvl = some secs ∧ k.keepIdle = some secs
  | .other, _ => True

theorem keepAlivePeriod_bounds {keepAlive : Int64} (positive : 0 ≤ keepAlive)
    (fits : keepAlive.toInt ≤ (2 ^ 31 - 1) * 1000000000) :
    0 ≤ (keepAlivePeriod keepAlive).toInt ∧
      (keepAlivePeriod keepAlive).toInt ≤ (2 ^ 31 - 1) * 1000000000 := by
  unfold keepAlivePeriod
  split
  · decide
  · exact ⟨Int64.le_iff_toInt_le.mp positive, fits⟩

/-- The socket of a `Conn` is fit for it. -/
theorem fitFor_connState {keepAlive : Int64} (fits : keepAlive.toInt ≤ (2 ^ 31 - 1) * 1000000000) :
    FitFor keepAlive .conn (connState keepAlive) := by
  unfold connState
  split
  · next positive =>
    obtain ⟨lower, upper⟩ := keepAlivePeriod_bounds positive fits
    exact .inr ⟨positive, rfl, _, roundDurationUp_second lower upper, rfl, rfl⟩
  · next negative => exact .inl ⟨Int64.not_le.mp negative, rfl⟩

theorem AsConfigured.fitFor {keepAlive : Int64} {role : Role} {k : SocketState}
    (conf : AsConfigured keepAlive role k)
    (fits : keepAlive.toInt ≤ (2 ^ 31 - 1) * 1000000000) : FitFor keepAlive role k := by
  cases role with
  | listener addr =>
      obtain ⟨port, asked, rfl⟩ := conf
      exact ⟨rfl, rfl, port, asked, rfl⟩
  | accepted => exact conf
  | conn =>
      obtain rfl := conf
      exact fitFor_connState fits
  | other => trivial

/-- **Along a careful run the descriptor of every object names a socket that is set up for it**: a
listener's listens on the address asked for, and a connection's has the keep-alive times of the
configuration. -/
theorem sockets_fit_roles {keepAlive : Int64} {p : List (Desk × DeskEvent)} {d : Desk}
    (path : Path (Desk.step keepAlive) Desk.start p d) (careful : ∀ x ∈ p, x.1.Careful x.2)
    (granted : ∀ x ∈ p, x.2.Granted) (fits : keepAlive.toInt ≤ (2 ^ 31 - 1) * 1000000000)
    {h : Holder Role} (mem : h ∈ d.holders) (held : h.released = false) :
    ∃ n k, d.sockets.table h.number = some n ∧ d.sockets.states[n]? = some k ∧
      FitFor keepAlive h.role k := by
  have both : d.InCustody ∧ d.Configured keepAlive := by
    refine path.invariant (fun d => d.InCustody ∧ d.Configured keepAlive)
      (fun d e => d.Careful e ∧ e.Granted) ⟨?_, ?_⟩ ?_ fun x mem => ⟨careful x mem, granted x mem⟩
    · exact ⟨sound_nil _, by simp [Desk.start], by simp [Desk.start]⟩
    · exact ⟨by simp [Desk.start], by simp [Desk.start]⟩
    · rintro d e d' ⟨inv, conf⟩ ⟨careful, granted⟩ stepped
      exact ⟨inv.step careful stepped, conf.step inv granted careful stepped⟩
  obtain ⟨k, found, conf⟩ := both.2.states h mem
  exact ⟨h.object, k, both.1.sound.kept h mem held, found, conf.fitFor fits⟩

/-- A listener on an address that has no four bytes, and a connection. -/
def firstConn : List DeskEvent :=
  [.newListener (some ⟨List.replicate 16 0, 0⟩) (Desk.allGranted 3 4000), .queue 0, .submit 0,
    .accept 0 4, .deliver 1 Desk.optionsGranted]

/-- The listener listens everywhere, and the connection has the default times. -/
theorem sockets_fit_roles_default :
    ∃ p d, Path (Desk.step 0) Desk.start p d ∧
      d.holders.map Holder.role = [.listener ⟨List.replicate 16 0, 0⟩, .conn] ∧
      ∀ h ∈ d.holders, ∃ n k, d.sockets.table h.number = some n ∧
        d.sockets.states[n]? = some k ∧ FitFor 0 h.role k := by
  have path : Path (Desk.step 0) Desk.start _ _ := path_record firstConn rfl
  have both : ∀ x ∈ record (Desk.step 0) Desk.start firstConn, x.1.Careful x.2 ∧ x.2.Granted := by
    refine List.forall_mem_cons.mpr ⟨⟨fun _ _ => rfl, trivial⟩, List.forall_mem_cons.mpr
      ⟨⟨trivial, trivial⟩, List.forall_mem_cons.mpr ⟨⟨?_, trivial⟩, List.forall_mem_cons.mpr
        ⟨⟨(nomatch ·), trivial⟩, List.forall_mem_singleton.mpr ⟨trivial, rfl, rfl, rfl⟩⟩⟩⟩⟩
    intro i next h place released
    cases next
    cases place
    cases released
  refine ⟨_, _, path, rfl, fun h mem => ?_⟩
  refine sockets_fit_roles path (fun x mem => (both x mem).1) (fun x mem => (both x mem).2)
    (by decide) mem ?_
  exact List.forall_mem_cons (p := fun h : Holder Role => h.released = false) |>.mpr
    ⟨rfl, List.forall_mem_singleton.mpr rfl⟩ h mem

end GoUring.Net
