import GoUring.Foundation.Collector
import GoUring.Foundation.Runs
import GoUring.Net.Conn

/-!
# Memory the kernel was told about

An SQE names memory by its address, and an address does not keep an object alive.  A `RecvOp`, a
`SendOp` and an `AcceptOp` have pointers to the memory they name, and `Conn` and `Listener` have
pointers to their operations; so what they name can be reached as long as a call on them is in
progress, which it is until its completion is dispatched.

`LinkTimeoutOp.PrepSQE` makes a timespec, writes its address into the SQE and returns.  `fill` is
marked `go:uintptrescapes`, which keeps the timespec alive until `fill` returns, and nothing refers
to it from then on.  The kernel reads it when the SQE is submitted, which is later.

`lent_memory_intact_iff`: whatever the collector does, the kernel finds what it was told about,
exactly if no timespec is collected between the moment it was queued and the moment it is read.
`deadline_unprotected`: from every such moment on, a collection and an allocation can make the
kernel wait for something else than the deadline asked for.
-/

namespace GoUring.Net

open Runs Handles Collector

/-! ## Durations -/

/-- `syscall.Timespec`. -/
structure Timespec where
  sec : Int64
  nsec : Int64
  deriving DecidableEq, Repr

/-- `syscall.NsecToTimespec`. -/
def nsecToTimespec (nsec : Int64) : Timespec :=
  let sec := nsec / 1000000000
  let nsec := nsec % 1000000000
  if nsec < 0 then { sec := sec - 1, nsec := nsec + 1000000000 }
  else { sec := sec, nsec := nsec }

/-- How long the kernel waits. -/
def Timespec.nanos (spec : Timespec) : ℤ := spec.sec.toInt * 1000000000 + spec.nsec.toInt

/-- **Nothing of a duration is lost on the way.** -/
theorem nanos_nsecToTimespec (d : Int64) : (nsecToTimespec d).nanos = d.toInt := by
  have lower := d.le_toInt
  have upper := d.toInt_le
  have greatest : Int64.maxValue.toInt = 2 ^ 63 - 1 := rfl
  have billion : (1000000000 : Int64).toInt = 1000000000 := rfl
  have one : (1 : Int64).toInt = 1 := rfl
  have quotient : (d / 1000000000).toInt = d.toInt.tdiv 1000000000 :=
    Int64.toInt_div_of_ne_right _ _ (by decide)
  have remainder : (d % 1000000000).toInt = d.toInt.tmod 1000000000 := Int64.toInt_mod _ _
  have whole := Int.mul_tdiv_add_tmod d.toInt 1000000000
  have above := Int.tmod_lt_of_pos d.toInt (b := 1000000000) (by decide)
  have below := Int.lt_tmod_of_pos d.toInt (b := 1000000000) (by decide)
  unfold nsecToTimespec Timespec.nanos
  dsimp only
  split
  · rw [Int64.toInt_sub, Int64.toInt_add, quotient, remainder, billion, one,
      Int.bmod_eq_of_le (n := d.toInt.tdiv 1000000000 - 1), Int.bmod_eq_of_le] <;> omega
  · rw [quotient, remainder]
    omega

/-! ## What is on the heap -/

/-- The objects that matter here; they are referred to by their numbers. -/
inductive Obj
  | conn (readOp sendOp : ℕ)
  | listener (acceptOp : ℕ)
  /-- A `RecvOp` or a `SendOp` with its buffer. -/
  | message (buff : Option ℕ)
  /-- An `AcceptOp` with its raw address; its length is part of it. -/
  | acceptOp (addr : ℕ)
  | timespec (spec : Timespec)
  /-- Anything else: a raw address, or what the program around the package has made. -/
  | other (refs : List ℕ)
  deriving DecidableEq, Repr

/-- What an object refers to. -/
def Obj.refs : Obj → List ℕ
  | .conn readOp sendOp => [readOp, sendOp]
  | .listener op => [op]
  | .message buff => buff.toList
  | .acceptOp addr => [addr]
  | .timespec _ => []
  | .other refs => refs

/-- What the program can refer to: anything but a timespec, which only `PrepSQE` has seen. -/
def Obj.Visible (x : Obj) : Prop := ∀ spec, x ≠ .timespec spec

/-- A call of `Read`, `Write` or `Accept`.  Its frame refers to the `Conn` or the `Listener` until
it returns. -/
structure HeapCall where
  owner : ℕ
  op : ℕ
  /-- What `PrepSQE` takes the addresses of. -/
  named : List ℕ
  /-- The time until the deadline; zero if there is none. -/
  timeout : Int64
  returned : Bool
  deriving DecidableEq, Repr

/-- An SQE: the operation of a call, or the link timeout behind it. -/
inductive Purpose
  | operation (call : ℕ)
  | deadline (asked : Int64)
  deriving DecidableEq, Repr

/-- An SQE with the addresses it names. -/
structure LentEntry where
  purpose : Purpose
  loans : List Loan
  deriving DecidableEq, Repr

/-- The heap, the calls in progress, and what the kernel was told: `requests` are sent and not
placed, `sq` is placed and not read, `flying` was read and is under way, and `posted` is completed
and not dispatched.  `armed` are the deadlines the kernel has read, each with the one asked for;
`touched` are its accesses, each with the object meant and the object found. -/
structure Estate where
  heap : Heap Obj
  /-- What the program around the package refers to. -/
  held : List ℕ
  calls : List HeapCall
  requests : List ℕ
  sq : List LentEntry
  flying : List (ℕ × List Loan)
  posted : List ℕ
  armed : List (Int64 × Option Timespec)
  touched : List (ℕ × Option ℕ)

/-- What can happen. -/
inductive EstateEvent
  /-- The program makes an object. -/
  | alloc (addr : ℕ) (refs : List ℕ)
  /-- The program forgets an object. -/
  | drop (k : ℕ)
  /-- `newConn`, for the program. -/
  | newConn (readOp sendOp conn : ℕ)
  /-- `NewListener`. -/
  | newListener (rawAddr acceptOp listener : ℕ)
  /-- `Read` or `Write`, once it has its lock. -/
  | io (dir : Direction) (conn buff : ℕ) (timeout : Int64)
  /-- `Accept`. -/
  | accept (listener : ℕ)
  /-- The publisher places the `j`-th request; `room` slots are free. -/
  | place (j room addr : ℕ)
  /-- The kernel reads the `j`-th SQE. -/
  | consume (j : ℕ)
  /-- The kernel reads or writes the memory of the `j`-th operation under way. -/
  | touch (j : ℕ)
  /-- The `j`-th operation under way completes. -/
  | complete (j : ℕ)
  /-- The `j`-th completion is dispatched and its call returns. -/
  | dispatch (j : ℕ)
  | collect (marked dead : List ℕ)

/-- The operation a call uses. -/
def Direction.opOf : Direction → ℕ → ℕ → ℕ
  | .read, readOp, _ => readOp
  | .write, _, sendOp => sendOp

namespace Estate

def start : Estate where
  heap := { table := fun _ => none, objects := [] }
  held := []
  calls := []
  requests := []
  sq := []
  flying := []
  posted := []
  armed := []
  touched := []

/-- What the collector starts from: what the program refers to, and the frames of the calls. -/
def roots (s : Estate) : List ℕ :=
  s.held ++ (s.calls.filter fun c => !c.returned).map HeapCall.owner

/-- The addresses of the objects named. -/
def lend (s : Estate) (named : List ℕ) : List Loan :=
  named.filterMap fun k => (s.heap.objects[k]?).map fun e => { addr := e.1, object := k }

/-- The timespec at an address. -/
def specAt (s : Estate) (addr : ℕ) : Option Timespec :=
  match (s.heap.table addr).bind fun k => s.heap.objects[k]? with
  | some (_, .timespec spec) => some spec
  | _ => none

/-- A call begins: its request is sent. -/
def begin (s : Estate) (c : HeapCall) : Estate :=
  { s with calls := s.calls ++ [c], requests := s.requests ++ [s.calls.length] }

/-- A call on the operation of an owner is in progress, and has its lock. -/
def locked (s : Estate) (owner op : ℕ) : Bool :=
  s.calls.any fun c => !c.returned && c.owner == owner && c.op == op

/-- `newConn`. -/
def newConn (h : Heap Obj) (readOp sendOp conn : ℕ) : Heap Obj :=
  let n := h.objects.length
  ((h.alloc readOp (.message none)).alloc sendOp (.message none)).alloc conn (.conn n (n + 1))

/-- What `NewListener` makes. -/
def newListener (h : Heap Obj) (rawAddr acceptOp listener : ℕ) : Heap Obj :=
  let n := h.objects.length
  ((h.alloc rawAddr (.other [])).alloc acceptOp (.acceptOp n)).alloc listener (.listener (n + 1))

/-- Three addresses that can be given to new objects. -/
def fresh (h : Heap Obj) (a b c : ℕ) : Bool :=
  (h.table a).isNone && (h.table b).isNone && (h.table c).isNone && a != b && a != c && b != c

/-- The publisher places a request: nothing if no slot is free, the operation alone if it has no
deadline or there is no second slot, and else a link timeout behind it. -/
def placed (s : Estate) (i : ℕ) (c : HeapCall) (room addr : ℕ) : Option Estate :=
  let op : LentEntry := { purpose := .operation i, loans := s.lend c.named }
  if room = 0 then some s
  else if c.timeout = 0 ∨ room = 1 then some { s with sq := s.sq ++ [op] }
  else if s.heap.table addr = none then
    some { s with
      heap := s.heap.alloc addr (.timespec (nsecToTimespec c.timeout))
      sq := s.sq ++
        [op, { purpose := .deadline c.timeout
               loans := [{ addr := addr, object := s.heap.objects.length }] }] }
  else none

/-- The kernel reads an SQE. -/
def consumed (s : Estate) (e : LentEntry) : Estate :=
  match e.purpose with
  | .operation i => { s with flying := s.flying ++ [(i, e.loans)] }
  | .deadline asked =>
      { s with armed := s.armed ++ e.loans.map fun l => (asked, s.specAt l.addr) }

/-- One step. -/
def step (s : Estate) : EstateEvent → Option Estate
  | .alloc addr refs =>
      if s.heap.table addr = none ∧ refs.all (s.held.contains ·) = true then
        some { s with
          heap := s.heap.alloc addr (.other refs), held := s.held ++ [s.heap.objects.length] }
      else none
  | .drop k => some { s with held := s.held.erase k }
  | .newConn readOp sendOp conn =>
      if fresh s.heap readOp sendOp conn = true then
        some { s with
          heap := newConn s.heap readOp sendOp conn
          held := s.held ++ [s.heap.objects.length + 2] }
      else none
  | .newListener rawAddr acceptOp listener =>
      if fresh s.heap rawAddr acceptOp listener = true then
        some { s with
          heap := newListener s.heap rawAddr acceptOp listener
          held := s.held ++ [s.heap.objects.length + 2] }
      else none
  | .io dir conn buff timeout =>
      match s.heap.objects[conn]? with
      | some (_, .conn readOp sendOp) =>
          let op := dir.opOf readOp sendOp
          if conn ∈ s.held ∧ buff ∈ s.held ∧ s.locked conn op = false then
            some <| Estate.begin { s with heap := s.heap.write op (.message (some buff)) }
              { owner := conn, op := op, named := [buff], timeout := timeout, returned := false }
          else none
      | _ => none
  | .accept listener =>
      match s.heap.objects[listener]? with
      | some (_, .listener op) =>
          match s.heap.objects[op]? with
          | some (_, .acceptOp rawAddr) =>
              if listener ∈ s.held then
                some <| s.begin
                  { owner := listener, op := op, named := [rawAddr, op], timeout := 0
                    returned := false }
              else none
          | _ => none
      | _ => none
  | .place j room addr =>
      (s.requests[j]?).bind fun i => (s.calls[i]?).bind fun c =>
        (s.placed i c room addr).map fun s' => { s' with requests := s.requests.eraseIdx j }
  | .consume j =>
      (s.sq[j]?).map fun e => { s.consumed e with sq := s.sq.eraseIdx j }
  | .touch j =>
      (s.flying[j]?).map fun f =>
        { s with touched := s.touched ++ f.2.map fun l => (l.object, s.heap.table l.addr) }
  | .complete j =>
      (s.flying[j]?).map fun f =>
        { s with flying := s.flying.eraseIdx j, posted := s.posted ++ [f.1] }
  | .dispatch j =>
      (s.posted[j]?).bind fun i => (s.calls[i]?).map fun c =>
        { s with
          posted := s.posted.eraseIdx j
          calls := s.calls.set i { c with returned := true } }
  | .collect marked dead =>
      (s.heap.collect Obj.refs s.roots marked dead).map fun heap => { s with heap := heap }

/-- **The kernel finds what it was told about**: each address it was given names the object it was
given for, each deadline it has read is the one asked for, and each of its accesses went where it
was meant to go. -/
structure Intact (s : Estate) : Prop where
  queued : ∀ e ∈ s.sq, ∀ l ∈ e.loans, l.Intact s.heap
  flying : ∀ f ∈ s.flying, ∀ l ∈ f.2, l.Intact s.heap
  armed : ∀ a ∈ s.armed, ∃ spec, a.2 = some spec ∧ spec.nanos = a.1.toInt
  touched : ∀ t ∈ s.touched, t.2 = some t.1

/-- No timespec is collected that the kernel is still to read. -/
def Careful (s : Estate) : EstateEvent → Prop
  | .collect _ dead =>
      ∀ e ∈ s.sq, ∀ asked, e.purpose = .deadline asked → ∀ l ∈ e.loans, l.addr ∉ dead
  | _ => True

/-! ## What keeps the memory alive -/

/-- An operation for messages. -/
def IsMessage (h : Heap Obj) (k : ℕ) : Prop :=
  ∃ addr buff, h.objects[k]? = some (addr, .message buff)

/-- Each `Conn` and each `Listener` has operations of its own, made just before it. -/
def Shaped (h : Heap Obj) (k : ℕ) : Obj → Prop
  | .conn readOp sendOp =>
      readOp + 2 = k ∧ sendOp + 1 = k ∧ IsMessage h readOp ∧ IsMessage h sendOp
  | .listener op => op + 1 = k ∧ ∃ addr rawAddr, h.objects[op]? = some (addr, .acceptOp rawAddr)
  | _ => True

/-- What a call names can be reached from its owner. -/
inductive Serves (h : Heap Obj) (c : HeapCall) : Prop
  | message {addr addr' readOp sendOp buff : ℕ}
      (owner : h.objects[c.owner]? = some (addr, .conn readOp sendOp))
      (op : c.op = readOp ∨ c.op = sendOp)
      (filled : h.objects[c.op]? = some (addr', .message (some buff))) (named : c.named = [buff])
  | accept {addr addr' rawAddr : ℕ} (owner : h.objects[c.owner]? = some (addr, .listener c.op))
      (op : h.objects[c.op]? = some (addr', .acceptOp rawAddr))
      (named : c.named = [rawAddr, c.op])

/-- A call in progress names the objects lent. -/
def LentBy (calls : List HeapCall) (i : ℕ) (loans : List Loan) : Prop :=
  ∃ c, calls[i]? = some c ∧ c.returned = false ∧ ∀ l ∈ loans, l.object ∈ c.named

/-- What an SQE names: objects of a call in progress, or the timespec of the deadline asked for. -/
def Lent (h : Heap Obj) (calls : List HeapCall) (e : LentEntry) : Prop :=
  match e.purpose with
  | .operation i => LentBy calls i e.loans
  | .deadline asked =>
      ∃ addr k, e.loans = [{ addr := addr, object := k }] ∧
        h.objects[k]? = some (addr, .timespec (nsecToTimespec asked))

/-- The call of an SQE. -/
def callOf (e : LentEntry) : Option ℕ :=
  match e.purpose with
  | .operation i => some i
  | .deadline _ => none

/-- The calls whose requests are on their way. -/
def tokens (s : Estate) : List ℕ :=
  s.requests ++ s.sq.filterMap callOf ++ s.flying.map Prod.fst ++ s.posted

/-- The invariant. -/
structure Wired (s : Estate) : Prop where
  whole : s.heap.Whole Obj.refs Obj.Visible s.roots
  shaped : ∀ k addr x, s.heap.objects[k]? = some (addr, x) → Shaped s.heap k x
  serves : ∀ c ∈ s.calls, c.returned = false → Serves s.heap c
  lent : ∀ e ∈ s.sq, Lent s.heap s.calls e
  lentOut : ∀ f ∈ s.flying, LentBy s.calls f.1 f.2
  once : s.tokens.Nodup
  pending : ∀ i ∈ s.tokens, ∃ c, s.calls[i]? = some c ∧ c.returned = false

variable {s s' : Estate} {h h' : Heap Obj} {c : HeapCall} {k : ℕ}

/-- The owner of a call in progress is a root. -/
theorem owner_mem_roots (mem : c ∈ s.calls) (open' : c.returned = false) : c.owner ∈ s.roots := by
  refine List.mem_append_right _ (List.mem_map_of_mem (List.mem_filter.mpr ⟨mem, ?_⟩))
  rw [open']
  rfl

/-- **What a call in progress names can be reached.** -/
theorem Serves.reachable {roots : List ℕ} (serves : Serves h c) (top : c.owner ∈ roots)
    (mem : k ∈ c.named) : Reachable Obj.refs h roots k := by
  have atOwner : Reachable Obj.refs h roots c.owner := .root top
  cases serves with
  | @message addr addr' readOp sendOp buff owner op filled named =>
      have atOp : Reachable Obj.refs h roots c.op := by
        refine .edge atOwner owner ?_
        rcases op with op | op
        · rw [op]
          exact List.mem_cons_self
        · rw [op]
          exact List.mem_cons_of_mem _ (List.mem_singleton_self _)
      rw [named] at mem
      obtain rfl := List.mem_singleton.mp mem
      exact .edge atOp filled (List.mem_singleton_self _)
  | @accept addr addr' rawAddr owner op named =>
      have atOp : Reachable Obj.refs h roots c.op := .edge atOwner owner (List.mem_singleton_self _)
      rw [named] at mem
      rcases List.mem_cons.mp mem with rfl | rest
      · exact .edge atOp op (List.mem_singleton_self _)
      · rw [List.mem_singleton.mp rest]
        exact atOp

/-! ## Steps that make objects -/

/-- Objects are only added. -/
def Keeps (h h' : Heap Obj) : Prop :=
  ∀ (k : ℕ) (e : ℕ × Obj), h.objects[k]? = some e → h'.objects[k]? = some e

theorem keeps_alloc (h : Heap Obj) (addr : ℕ) (x : Obj) : Keeps h (h.alloc addr x) := by
  intro k e found
  rw [Heap.objects_alloc_of_lt (List.getElem?_eq_some_iff.mp found).1, found]

theorem IsMessage.keeps (message : IsMessage h k) (keeps : Keeps h h') : IsMessage h' k := by
  obtain ⟨addr, buff, found⟩ := message
  exact ⟨addr, buff, keeps _ _ found⟩

theorem Shaped.keeps {x : Obj} (shaped : Shaped h k x) (keeps : Keeps h h') : Shaped h' k x := by
  cases x with
  | conn readOp sendOp =>
      obtain ⟨first, second, recv, send⟩ := shaped
      exact ⟨first, second, recv.keeps keeps, send.keeps keeps⟩
  | listener op =>
      obtain ⟨first, addr, rawAddr, found⟩ := shaped
      exact ⟨first, addr, rawAddr, keeps _ _ found⟩
  | message buff => trivial
  | acceptOp rawAddr => trivial
  | timespec spec => trivial
  | other refs => trivial

theorem Serves.keeps (serves : Serves h c) (keeps : Keeps h h') : Serves h' c := by
  cases serves with
  | message owner op filled named => exact .message (keeps _ _ owner) op (keeps _ _ filled) named
  | accept owner op named => exact .accept (keeps _ _ owner) (keeps _ _ op) named

theorem Lent.keeps {calls : List HeapCall} {e : LentEntry} (lent : Lent h calls e)
    (keeps : Keeps h h') : Lent h' calls e := by
  unfold Lent at lent ⊢
  split at lent
  · exact lent
  · obtain ⟨addr, k, loans, found⟩ := lent
    exact ⟨addr, k, loans, keeps _ _ found⟩

/-- Another heap with the same objects and perhaps more. -/
theorem Wired.reheap (w : s.Wired) {held : List ℕ} (keeps : Keeps s.heap h)
    (whole : h.Whole Obj.refs Obj.Visible { s with heap := h, held := held }.roots)
    (shaped : ∀ k addr x, h.objects[k]? = some (addr, x) → Shaped h k x) :
    Wired { s with heap := h, held := held } where
  whole := whole
  shaped := shaped
  serves c mem open' := (w.serves c mem open').keeps keeps
  lent e mem := (w.lent e mem).keeps keeps
  lentOut := w.lentOut
  once := w.once
  pending := w.pending

/-- The invariant of runs in which nothing is lost. -/
structure Safe (s : Estate) : Prop extends Wired s, Intact s

/-- The objects after one was made. -/
theorem shaped_alloc {addr : ℕ} {x : Obj}
    (shaped : ∀ k addr x, h.objects[k]? = some (addr, x) → Shaped h k x)
    (new : Shaped (h.alloc addr x) h.objects.length x) :
    ∀ k addr' y, (h.alloc addr x).objects[k]? = some (addr', y) → Shaped (h.alloc addr x) k y := by
  intro k addr' y found
  rcases Nat.lt_trichotomy k h.objects.length with lt | rfl | gt
  · rw [Heap.objects_alloc_of_lt lt] at found
    exact (shaped k addr' y found).keeps (keeps_alloc h addr x)
  · rw [Heap.objects_alloc_length, Option.some.injEq, Prod.mk.injEq] at found
    obtain ⟨rfl, rfl⟩ := found
    exact new
  · have short : (h.alloc addr x).objects.length ≤ k := by
      rw [Heap.length_alloc]
      exact gt
    rw [List.getElem?_eq_none short] at found
    cases found

/-- **Making an object** that refers to what can be reached. -/
theorem Safe.alloc (safe : s.Safe) {held : List ℕ} {addr : ℕ} {x : Obj}
    (free : s.heap.table addr = none)
    (known : ∀ k ∈ x.refs, Reachable Obj.refs s.heap s.roots k)
    (new : Shaped (s.heap.alloc addr x) s.heap.objects.length x)
    (top : ∀ k ∈ held, k ∈ s.held ∨ k = s.heap.objects.length ∧ x.Visible) :
    Safe { s with heap := s.heap.alloc addr x, held := held } where
  toWired := by
    refine safe.reheap (keeps_alloc s.heap addr x)
      (safe.whole.alloc free known fun k mem => ?_) (shaped_alloc safe.shaped new)
    rcases List.mem_append.mp mem with here | there
    · rcases top k here with old | new
      · exact .inl (.root (List.mem_append_left _ old))
      · exact .inr new
    · exact .inl (.root (List.mem_append_right _ there))
  queued e mem l lent := (safe.queued e mem l lent).alloc free
  flying f mem l lent := (safe.flying f mem l lent).alloc free
  armed := safe.armed
  touched := safe.touched

/-- Three objects are made, of which the last refers to the others and is handed out. -/
theorem Safe.alloc_three (safe : s.Safe) {a b c n : ℕ} {x y z : Obj}
    (count : s.heap.objects.length = n) (free : fresh s.heap a b c = true) (first : x.refs = [])
    (second : y.refs ⊆ [n]) (third : z.refs ⊆ [n, n + 1]) (visX : x.Visible) (visY : y.Visible)
    (visZ : z.Visible) (shapeX : ∀ h k, Shaped h k x)
    (shapeY : ∀ h k, Shaped h k y)
    (shapeZ : Shaped (((s.heap.alloc a x).alloc b y).alloc c z) (n + 2) z) :
    Safe { s with
      heap := ((s.heap.alloc a x).alloc b y).alloc c z, held := s.held ++ [n + 2] } := by
  subst count
  simp only [fresh, Bool.and_eq_true, Option.isNone_iff_eq_none, bne_iff_ne] at free
  obtain ⟨⟨⟨⟨⟨freeA, freeB⟩, freeC⟩, ab⟩, ac⟩, bc⟩ := free
  have one : Safe { s with
      heap := s.heap.alloc a x, held := s.held ++ [s.heap.objects.length] } := by
    refine safe.alloc freeA ?_ (shapeX _ _) fun k mem => ?_
    · rw [first]
      exact fun k mem => nomatch mem
    · rcases List.mem_append.mp mem with old | new
      · exact .inl old
      · exact .inr ⟨List.mem_singleton.mp new, visX⟩
  have two : Safe { s with
      heap := (s.heap.alloc a x).alloc b y
      held := s.held ++ [s.heap.objects.length, s.heap.objects.length + 1] } := by
    refine one.alloc ((Function.update_of_ne ab.symm _ _).trans freeB) (fun k mem => ?_)
      (shapeY _ _) fun k mem => ?_
    · rw [List.mem_singleton.mp (second mem)]
      exact .root (List.mem_append_left _ (List.mem_append_right _ (List.mem_singleton_self _)))
    · rw [Heap.length_alloc]
      simp only [List.mem_append, List.mem_cons, List.not_mem_nil, or_false] at mem ⊢
      tauto
  have free3 : ((s.heap.alloc a x).alloc b y).table c = none :=
    (Function.update_of_ne bc.symm _ _).trans ((Function.update_of_ne ac.symm _ _).trans freeC)
  have count3 : ((s.heap.alloc a x).alloc b y).objects.length = s.heap.objects.length + 2 := by
    rw [Heap.length_alloc, Heap.length_alloc]
  refine two.alloc free3 (fun k mem => ?_) ?_ fun k mem => ?_
  · exact .root (List.mem_append_left _ (List.mem_append_right _ (third mem)))
  · rw [count3]
    exact shapeZ
  · rw [count3]
    simp only [List.mem_append, List.mem_cons, List.not_mem_nil, or_false] at mem ⊢
    tauto

/-- **`newConn`.** -/
theorem Safe.newConn (safe : s.Safe) {readOp sendOp conn : ℕ}
    (free : fresh s.heap readOp sendOp conn = true) :
    Safe { s with
      heap := newConn s.heap readOp sendOp conn
      held := s.held ++ [s.heap.objects.length + 2] } := by
  refine safe.alloc_three rfl free rfl (List.nil_subset _) (List.Subset.refl _)
    (by simp [Obj.Visible]) (by simp [Obj.Visible]) (by simp [Obj.Visible])
    (fun _ _ => trivial) (fun _ _ => trivial) ⟨rfl, rfl, ?_, ?_⟩
  · refine ⟨readOp, none, (keeps_alloc _ _ _ _ _ (keeps_alloc _ _ _ _ _ ?_))⟩
    exact Heap.objects_alloc_length
  · refine ⟨sendOp, none, keeps_alloc _ _ _ _ _ ?_⟩
    rw [← Heap.length_alloc]
    exact Heap.objects_alloc_length

/-- **`NewListener`.** -/
theorem Safe.newListener (safe : s.Safe) {rawAddr acceptOp listener : ℕ}
    (free : fresh s.heap rawAddr acceptOp listener = true) :
    Safe { s with
      heap := newListener s.heap rawAddr acceptOp listener
      held := s.held ++ [s.heap.objects.length + 2] } := by
  refine safe.alloc_three rfl free rfl (List.Subset.refl _) (List.subset_cons_self _ _)
    (by simp [Obj.Visible]) (by simp [Obj.Visible]) (by simp [Obj.Visible])
    (fun _ _ => trivial) (fun _ _ => trivial) ⟨rfl, acceptOp, s.heap.objects.length, ?_⟩
  refine keeps_alloc _ _ _ _ _ ?_
  rw [← Heap.length_alloc]
  exact Heap.objects_alloc_length

/-! ## Calls -/

/-- Each operation for messages belongs to one `Conn`. -/
theorem conn_unique (shaped : ∀ k addr x, h.objects[k]? = some (addr, x) → Shaped h k x)
    {j op addr addr' r t r' t' : ℕ} (first : h.objects[j]? = some (addr, .conn r t))
    (second : h.objects[k]? = some (addr', .conn r' t')) (here : op = r ∨ op = t)
    (there : op = r' ∨ op = t') : j = k := by
  obtain ⟨readJ, sendJ, -, ⟨a, b, sendOpJ⟩⟩ := shaped _ _ _ first
  obtain ⟨readK, sendK, -, ⟨a', b', sendOpK⟩⟩ := shaped _ _ _ second
  rcases here with rfl | rfl <;> rcases there with rfl | rfl
  · omega
  · -- The owner `k` would stand where `j` has its other operation.
    have same : k = t := by omega
    rw [same, sendOpJ] at second
    cases second
  · have same : j = t' := by omega
    rw [same, sendOpK] at first
    cases first
  · omega

/-- What is not an operation for messages stays when one is changed. -/
theorem objects_write_of_message {op addr : ℕ} {x y : Obj} (message : IsMessage h op)
    (found : h.objects[k]? = some (addr, x)) (other : ∀ buff, x ≠ .message buff) :
    (h.write op y).objects[k]? = some (addr, x) := by
  rw [Heap.objects_write_of_ne, found]
  rintro rfl
  obtain ⟨addr', buff, found'⟩ := message
  rw [found, Option.some.injEq, Prod.mk.injEq] at found'
  exact other buff found'.2

theorem IsMessage.write {op : ℕ} (message : IsMessage h k) (buff : Option ℕ) :
    IsMessage (h.write op (.message buff)) k := by
  obtain ⟨addr, b, found⟩ := message
  by_cases same : k = op
  · subst same
    exact ⟨addr, buff, by rw [Heap.objects_write_self, found]; rfl⟩
  · exact ⟨addr, b, by rw [Heap.objects_write_of_ne same, found]⟩

theorem shaped_write {op : ℕ} {buff : Option ℕ}
    (shaped : ∀ k addr x, h.objects[k]? = some (addr, x) → Shaped h k x)
    (message : IsMessage h op) :
    ∀ k addr x, (h.write op (.message buff)).objects[k]? = some (addr, x) →
      Shaped (h.write op (.message buff)) k x := by
  intro k addr x found
  by_cases same : k = op
  · subst same
    rw [Heap.objects_write_self] at found
    obtain ⟨e, -, eq⟩ := Option.map_eq_some_iff.mp found
    cases eq
    trivial
  · rw [Heap.objects_write_of_ne same] at found
    have before := shaped k addr x found
    cases x with
    | conn readOp sendOp =>
        obtain ⟨first, second, recv, send⟩ := before
        exact ⟨first, second, recv.write buff, send.write buff⟩
    | listener acceptOp =>
        obtain ⟨first, addr', rawAddr, op'⟩ := before
        exact ⟨first, addr', rawAddr, objects_write_of_message message op' (by simp)⟩
    | message buff => trivial
    | acceptOp rawAddr => trivial
    | timespec spec => trivial
    | other refs => trivial

/-- **`SetBuffer`** of an operation that no call in progress uses. -/
theorem Safe.setBuffer (safe : s.Safe) {conn op buff addr readOp sendOp : ℕ}
    (found : s.heap.objects[conn]? = some (addr, .conn readOp sendOp))
    (which : op = readOp ∨ op = sendOp) (message : IsMessage s.heap op) (held : buff ∈ s.held)
    (unlocked : s.locked conn op = false) :
    Safe { s with heap := s.heap.write op (.message (some buff)) } := by
  have known : ∀ k ∈ (Obj.message (some buff)).refs, Reachable Obj.refs s.heap s.roots k := by
    intro k mem
    rw [List.mem_singleton.mp mem]
    exact .root (List.mem_append_left _ held)
  refine { safe with
    whole := safe.whole.write op (by simp [Obj.Visible]) known fun k mem => .root mem
    shaped := shaped_write safe.shaped message
    serves := fun c mem open' => ?_
    lent := fun e mem => ?_ }
  · cases safe.serves c mem open' with
    | message owner op' filled named =>
        have other : c.op ≠ op := by
          rintro rfl
          -- The call would be on the same `Conn`, which is locked then.
          have same := conn_unique safe.shaped owner found op' which
          have lock : s.locked conn c.op = true := by
            refine List.any_eq_true.mpr ⟨c, mem, ?_⟩
            simp [open', same]
          rw [unlocked] at lock
          cases lock
        exact .message (objects_write_of_message message owner (by simp)) op'
          ((Heap.objects_write_of_ne other).trans filled) named
    | accept owner op' named =>
        exact .accept (objects_write_of_message message owner (by simp))
          (objects_write_of_message message op' (by simp)) named
  · have before := safe.lent e mem
    unfold Lent at before ⊢
    split at before
    · exact before
    · obtain ⟨addr, k, loans, spec⟩ := before
      exact ⟨addr, k, loans, objects_write_of_message message spec (by simp)⟩

theorem LentBy.append {calls : List HeapCall} {i : ℕ} {loans : List Loan}
    (lent : LentBy calls i loans) (more : List HeapCall) : LentBy (calls ++ more) i loans := by
  obtain ⟨c, found, open', named⟩ := lent
  refine ⟨c, ?_, open', named⟩
  rw [List.getElem?_append_left (List.getElem?_eq_some_iff.mp found).1, found]

theorem Lent.append {calls : List HeapCall} {e : LentEntry} (lent : Lent h calls e)
    (more : List HeapCall) : Lent h (calls ++ more) e := by
  unfold Lent at lent ⊢
  split at lent
  · exact lent.append more
  · exact lent

/-- **A call begins.** -/
theorem Safe.begin (safe : s.Safe) (serves : Serves s.heap c) (open' : c.returned = false)
    (held : c.owner ∈ s.held) : (s.begin c).Safe := by
  have new : s.calls.length ∉ s.tokens := by
    intro mem
    obtain ⟨c', found, -⟩ := safe.pending _ mem
    exact Nat.lt_irrefl _ (List.getElem?_eq_some_iff.mp found).1
  have moved : (s.begin c).tokens.Perm (s.calls.length :: s.tokens) := by
    refine List.perm_iff_count.mpr fun i => ?_
    simp only [tokens, Estate.begin, List.count_append, List.count_cons, List.count_nil]
    omega
  refine { safe with
    whole := safe.whole.change_roots fun k mem => ?_
    serves := fun c' mem open'' => ?_
    lent := fun e mem => (safe.lent e mem).append [c]
    lentOut := fun f mem => (safe.lentOut f mem).append [c]
    once := moved.nodup_iff.mpr (List.nodup_cons.mpr ⟨new, safe.once⟩)
    pending := fun i mem => ?_ }
  · simp only [Estate.roots, Estate.begin, List.filter_append, List.map_append,
      List.mem_append] at mem
    rcases mem with old | old | new
    · exact .root (List.mem_append_left _ old)
    · exact .root (List.mem_append_right _ old)
    · have same : k = c.owner := by
        simpa [open'] using new
      rw [same]
      exact .root (List.mem_append_left _ held)
  · rcases List.mem_append.mp mem with old | new
    · exact safe.serves c' old open''
    · rw [List.mem_singleton.mp new]
      exact serves
  · rcases List.mem_cons.mp (moved.mem_iff.mp mem) with rfl | old
    · exact ⟨c, List.getElem?_concat_length, open'⟩
    · obtain ⟨c', found, open''⟩ := safe.pending i old
      refine ⟨c', ?_, open''⟩
      exact (List.getElem?_append_left (List.getElem?_eq_some_iff.mp found).1).trans found

/-- **`Read` and `Write`.** -/
theorem Safe.message (safe : s.Safe) {conn op buff addr readOp sendOp : ℕ} {timeout : Int64}
    (found : s.heap.objects[conn]? = some (addr, .conn readOp sendOp))
    (which : op = readOp ∨ op = sendOp) (connHeld : conn ∈ s.held) (buffHeld : buff ∈ s.held)
    (unlocked : s.locked conn op = false) :
    Safe (Estate.begin { s with heap := s.heap.write op (.message (some buff)) }
      { owner := conn, op := op, named := [buff], timeout := timeout, returned := false }) := by
  have isMessage : IsMessage s.heap op := by
    obtain ⟨-, -, recv, send⟩ := safe.shaped _ _ _ found
    rcases which with rfl | rfl
    · exact recv
    · exact send
  have ready := safe.setBuffer found which isMessage buffHeld unlocked
  obtain ⟨addr', b, there⟩ := id isMessage
  have filled : (s.heap.write op (.message (some buff))).objects[op]? =
      some (addr', .message (some buff)) := by
    rw [Heap.objects_write_self, there]
    rfl
  exact ready.begin (.message (objects_write_of_message isMessage found (by simp)) which filled rfl)
    rfl connHeld

/-! ## The way of a request -/

/-- The queues change, and no call is on its way twice. -/
theorem Safe.requeue (safe : s.Safe) (heap : s'.heap = s.heap) (held : s'.held = s.held)
    (calls : s'.calls = s.calls) (tokens : s'.tokens.Subperm s.tokens)
    (lent : ∀ e ∈ s'.sq, Lent s.heap s.calls e ∧ ∀ l ∈ e.loans, l.Intact s.heap)
    (out : ∀ f ∈ s'.flying, LentBy s.calls f.1 f.2 ∧ ∀ l ∈ f.2, l.Intact s.heap)
    (armed : ∀ a ∈ s'.armed, ∃ spec, a.2 = some spec ∧ spec.nanos = a.1.toInt)
    (touched : ∀ t ∈ s'.touched, t.2 = some t.1) : s'.Safe := by
  have once : s'.tokens.Nodup := by
    obtain ⟨l, perm, sub⟩ := tokens
    exact perm.nodup_iff.mp (safe.once.sublist sub)
  obtain ⟨heap', held', calls', requests, sq, flying, posted, armed', touched'⟩ := s'
  dsimp only at heap held calls
  subst heap held calls
  exact {
    whole := safe.whole
    shaped := safe.shaped
    serves := safe.serves
    lent := fun e mem => (lent e mem).1
    lentOut := fun f mem => (out f mem).1
    once := once
    pending := fun i mem => safe.pending i (tokens.subset mem)
    queued := fun e mem => (lent e mem).2
    flying := fun f mem => (out f mem).2
    armed := armed
    touched := touched }

/-- Taking an entry out of a list moves it to the front. -/
theorem count_eraseIdx {xs : List ℕ} {i j : ℕ} (found : xs[j]? = some i) (k : ℕ) :
    (i :: xs.eraseIdx j).count k = xs.count k := by
  obtain ⟨lt, rfl⟩ := List.getElem?_eq_some_iff.mp found
  exact (List.getElem_cons_eraseIdx_perm lt).count_eq k

/-- The addresses a call in progress lends. -/
theorem Safe.lend (safe : s.Safe) (mem : c ∈ s.calls) (open' : c.returned = false) {l : Loan}
    (lent : l ∈ s.lend c.named) : l.object ∈ c.named ∧ l.Intact s.heap := by
  obtain ⟨k, named, looked⟩ := List.mem_filterMap.mp lent
  obtain ⟨e, found, rfl⟩ := Option.map_eq_some_iff.mp looked
  refine ⟨named, ?_⟩
  have reachable := (safe.serves c mem open').reachable (owner_mem_roots mem open') named
  obtain ⟨addr, x, there, placed, -⟩ := safe.whole k reachable
  rw [there, Option.some.injEq] at found
  subst found
  exact placed

/-- **The publisher places a request.** -/
theorem Safe.place (safe : s.Safe) {i j room addr : ℕ} (next : s.requests[j]? = some i)
    (found : s.calls[i]? = some c) (result : s.placed i c room addr = some s') :
    Safe { s' with requests := s.requests.eraseIdx j } := by
  have token : i ∈ s.tokens := by
    simp only [tokens, List.append_assoc]
    exact List.mem_append_left _ (List.mem_of_getElem? next)
  obtain ⟨c', found', open'⟩ := safe.pending i token
  rw [found, Option.some.injEq] at found'
  subst found'
  have mem := List.mem_of_getElem? found
  have moved := count_eraseIdx next
  simp only [List.count_cons] at moved
  -- The operation is lent what its call names.
  have op : Lent s.heap s.calls { purpose := .operation i, loans := s.lend c.named } ∧
      ∀ l ∈ s.lend c.named, l.Intact s.heap :=
    ⟨⟨c, found, open', fun l lent => (safe.lend mem open' lent).1⟩,
      fun l lent => (safe.lend mem open' lent).2⟩
  unfold placed at result
  dsimp only at result
  split at result
  · cases result
    refine safe.requeue rfl rfl rfl ?_ (fun e mem => ⟨safe.lent e mem, safe.queued e mem⟩)
      (fun f mem => ⟨safe.lentOut f mem, safe.flying f mem⟩) safe.armed safe.touched
    refine List.subperm_iff_count.mpr fun k => ?_
    have := moved k
    simp only [tokens, List.count_append]
    omega
  · split at result
    · cases result
      refine safe.requeue rfl rfl rfl ?_ (fun e mem => ?_)
        (fun f mem => ⟨safe.lentOut f mem, safe.flying f mem⟩) safe.armed safe.touched
      · refine (List.perm_iff_count.mpr fun k => ?_).subperm
        have := moved k
        simp only [tokens, List.count_append, List.filterMap_append, List.filterMap_cons, callOf,
          List.filterMap_nil, List.count_cons, List.count_nil]
        omega
      · rcases List.mem_append.mp mem with old | new
        · exact ⟨safe.lent e old, safe.queued e old⟩
        · rw [List.mem_singleton.mp new]
          exact op
    · split at result
      · next free =>
        cases result
        have grown : Safe { s with
            heap := s.heap.alloc addr (.timespec (nsecToTimespec c.timeout)) } :=
          safe.alloc free (fun k mem => nomatch mem) trivial fun k mem => .inl mem
        refine grown.requeue rfl rfl rfl ?_ (fun e mem => ?_)
          (fun f mem => ⟨grown.lentOut f mem, grown.flying f mem⟩) safe.armed safe.touched
        · refine (List.perm_iff_count.mpr fun k => ?_).subperm
          have := moved k
          simp only [tokens, List.count_append, List.filterMap_append, List.filterMap_cons, callOf,
            List.filterMap_nil, List.count_cons, List.count_nil]
          omega
        · rcases List.mem_append.mp mem with old | new
          · exact ⟨grown.lent e old, grown.queued e old⟩
          · rcases List.mem_cons.mp new with rfl | last
            · exact ⟨op.1.keeps (keeps_alloc _ _ _), fun l lent => (op.2 l lent).alloc free⟩
            · rw [List.mem_singleton.mp last]
              refine ⟨⟨addr, s.heap.objects.length, rfl, Heap.objects_alloc_length⟩, ?_⟩
              intro l lent
              rw [List.mem_singleton.mp lent]
              exact Function.update_self _ _ _
      · cases result

/-- The timespec of a deadline that is intact. -/
theorem specAt_of_intact {l : Loan} {spec : Timespec} (intact : l.Intact s.heap)
    (found : s.heap.objects[l.object]? = some (l.addr, .timespec spec)) :
    s.specAt l.addr = some spec := by
  have named : s.heap.table l.addr = some l.object := intact
  simp only [specAt, named, Option.bind_some, found]

/-- **The kernel reads an SQE.** -/
theorem Safe.consume (safe : s.Safe) {j : ℕ} {e : LentEntry} (found : s.sq[j]? = some e) :
    Safe { s.consumed e with sq := s.sq.eraseIdx j } := by
  have mem := List.mem_of_getElem? found
  have lent := safe.lent e mem
  have intact := safe.queued e mem
  have rest : ∀ e' ∈ s.sq.eraseIdx j, Lent s.heap s.calls e' ∧ ∀ l ∈ e'.loans, l.Intact s.heap :=
    fun e' mem => ⟨safe.lent e' (List.mem_of_mem_eraseIdx mem),
      safe.queued e' (List.mem_of_mem_eraseIdx mem)⟩
  have perm : (e :: s.sq.eraseIdx j).Perm s.sq := by
    obtain ⟨lt, rfl⟩ := List.getElem?_eq_some_iff.mp found
    exact List.getElem_cons_eraseIdx_perm lt
  have moved := fun k => (perm.filterMap callOf).count_eq k
  unfold consumed
  cases purpose : e.purpose with
  | operation i =>
      simp only [Lent, purpose] at lent
      refine safe.requeue rfl rfl rfl ?_ rest (fun f mem => ?_) safe.armed safe.touched
      · refine (List.perm_iff_count.mpr fun k => ?_).subperm
        have := moved k
        simp only [List.filterMap_cons, callOf, purpose, List.count_cons] at this
        simp only [tokens, List.count_append, List.map_append, List.map_cons, List.map_nil,
          List.count_cons, List.count_nil]
        omega
      · rcases List.mem_append.mp mem with old | new
        · exact ⟨safe.lentOut f old, safe.flying f old⟩
        · rw [List.mem_singleton.mp new]
          exact ⟨lent, intact⟩
  | deadline asked =>
      simp only [Lent, purpose] at lent
      obtain ⟨addr, k, loans, spec⟩ := lent
      refine safe.requeue rfl rfl rfl ?_ rest
        (fun f mem => ⟨safe.lentOut f mem, safe.flying f mem⟩) (fun a mem => ?_) safe.touched
      · refine (List.perm_iff_count.mpr fun k => ?_).subperm
        have := moved k
        simp only [List.filterMap_cons, callOf, purpose] at this
        simp only [tokens, List.count_append]
        omega
      · rcases List.mem_append.mp mem with old | new
        · exact safe.armed a old
        · obtain ⟨l, lentHere, rfl⟩ := List.mem_map.mp new
          have here := intact l lentHere
          rw [loans] at lentHere
          obtain rfl := List.mem_singleton.mp lentHere
          exact ⟨_, specAt_of_intact here spec, nanos_nsecToTimespec asked⟩

/-- The kernel reads or writes what an operation names. -/
theorem Safe.touch (safe : s.Safe) {f : ℕ × List Loan} (mem : f ∈ s.flying) :
    Safe { s with
      touched := s.touched ++ f.2.map fun l => (l.object, s.heap.table l.addr) } := by
  refine { safe with touched := fun t there => ?_ }
  rcases List.mem_append.mp there with old | new
  · exact safe.touched t old
  · obtain ⟨l, lent, rfl⟩ := List.mem_map.mp new
    exact safe.flying f mem l lent

/-- An operation completes. -/
theorem Safe.complete (safe : s.Safe) {j : ℕ} {f : ℕ × List Loan}
    (found : s.flying[j]? = some f) :
    Safe { s with flying := s.flying.eraseIdx j, posted := s.posted ++ [f.1] } := by
  refine safe.requeue rfl rfl rfl ?_ (fun e mem => ⟨safe.lent e mem, safe.queued e mem⟩)
    (fun f mem => ?_) safe.armed safe.touched
  · refine (List.perm_iff_count.mpr fun k => ?_).subperm
    have place : (s.flying.map Prod.fst)[j]? = some f.1 := by
      rw [List.getElem?_map, found]
      rfl
    have moved := count_eraseIdx place k
    rw [List.eraseIdx_map, List.count_cons] at moved
    simp only [tokens, List.count_append, List.count_cons, List.count_nil]
    omega
  · exact ⟨safe.lentOut f (List.mem_of_mem_eraseIdx mem),
      safe.flying f (List.mem_of_mem_eraseIdx mem)⟩

/-- The other calls are as before when one returns. -/
theorem LentBy.set {calls : List HeapCall} {i i' : ℕ} {loans : List Loan}
    (lent : LentBy calls i' loans) (ne : i' ≠ i) (c : HeapCall) :
    LentBy (calls.set i c) i' loans := by
  obtain ⟨c', found, open', named⟩ := lent
  exact ⟨c', by rw [List.getElem?_set_ne ne.symm, found], open', named⟩

/-- **A completion is dispatched**: no SQE of the call is left when it returns. -/
theorem Safe.dispatch (safe : s.Safe) {i j : ℕ} (next : s.posted[j]? = some i) :
    Safe { s with
      posted := s.posted.eraseIdx j, calls := s.calls.set i { c with returned := true } } := by
  have perm : (i :: tokens { s with posted := s.posted.eraseIdx j }).Perm s.tokens := by
    refine List.perm_iff_count.mpr fun k => ?_
    have := count_eraseIdx next k
    simp only [List.count_cons] at this
    simp only [tokens, List.count_append, List.count_cons]
    omega
  obtain ⟨gone, once⟩ := List.nodup_cons.mp (perm.nodup_iff.mpr safe.once)
  have stays : ∀ i' ∈ tokens { s with posted := s.posted.eraseIdx j }, i' ≠ i := by
    rintro i' mem rfl
    exact gone mem
  refine { safe with
    whole := safe.whole.change_roots fun k mem => ?_
    serves := fun c' mem open' => ?_
    lent := fun e mem => ?_
    lentOut := fun f mem => (safe.lentOut f mem).set (stays _ ?_) _
    once := once
    pending := fun i' mem => ?_ }
  · refine .root ?_
    rcases List.mem_append.mp mem with held | calls
    · exact List.mem_append_left _ held
    · obtain ⟨c', there, rfl⟩ := List.mem_map.mp calls
      obtain ⟨there, open'⟩ := List.mem_filter.mp there
      rcases List.mem_or_eq_of_mem_set there with old | rfl
      · exact List.mem_append_right _ (List.mem_map_of_mem (List.mem_filter.mpr ⟨old, open'⟩))
      · cases open'
  · rcases List.mem_or_eq_of_mem_set mem with old | rfl
    · exact safe.serves c' old open'
    · cases open'
  · have before := safe.lent e mem
    unfold Lent at before ⊢
    split at before
    · next i' purpose =>
      refine before.set (stays i' ?_) _
      simp only [tokens, List.mem_append, List.mem_filterMap]
      exact .inl (.inl (.inr ⟨e, mem, by rw [callOf, purpose]⟩))
    · exact before
  · simp only [tokens, List.mem_append]
    exact .inl (.inr (List.mem_map_of_mem mem))
  · obtain ⟨c', found, open'⟩ := safe.pending i' (perm.subset (List.mem_cons_of_mem _ mem))
    exact ⟨c', by rw [List.getElem?_set_ne (stays i' mem).symm, found], open'⟩

/-- **A collection** that frees no timespec the kernel is still to read. -/
theorem Safe.collect (safe : s.Safe) {marked dead : List ℕ}
    (collected : s.heap.collect Obj.refs s.roots marked dead = some h)
    (careful : s.Careful (.collect marked dead)) : Safe { s with heap := h } := by
  have keeps : Keeps s.heap h := by
    obtain ⟨rfl, -⟩ := Heap.collect_spec collected
    exact fun k e found => found
  have shaped : ∀ k addr x, h.objects[k]? = some (addr, x) → Shaped h k x := by
    obtain ⟨rfl, -⟩ := Heap.collect_spec collected
    exact safe.shaped
  -- What a call names can be reached, so the collector does not free it.
  have kept : ∀ i loans, LentBy s.calls i loans → (∀ l ∈ loans, l.Intact s.heap) →
      ∀ l ∈ loans, l.Intact h := by
    rintro i loans ⟨c, found, open', named⟩ intact l mem
    have call := List.mem_of_getElem? found
    have reachable := (safe.serves c call open').reachable (owner_mem_roots call open')
      (named l mem)
    exact (intact l mem).collect_of_reachable reachable collected
  exact {
    toWired := safe.reheap keeps (safe.whole.collect collected) shaped
    queued := fun e mem => by
      have lent := safe.lent e mem
      cases purpose : e.purpose with
      | operation i =>
          simp only [Lent, purpose] at lent
          exact kept i e.loans lent (safe.queued e mem)
      | deadline asked =>
          intro l lentHere
          exact (safe.queued e mem l lentHere).collect_of_notMem
            (careful e mem asked purpose l lentHere) collected
    flying := fun f mem => kept f.1 f.2 (safe.lentOut f mem) (safe.flying f mem)
    armed := safe.armed
    touched := safe.touched }

/-! ## Runs -/

theorem safe_start : start.Safe where
  whole k reachable := by
    have absurd : False := by
      refine reachable.least Obj.refs (S := fun _ => False) (fun k mem => ?_) ?_
      · cases mem
      · exact fun j addr x absurd => absurd.elim
    exact absurd.elim
  shaped k addr x found := nomatch found
  serves c mem := nomatch mem
  lent e mem := nomatch mem
  lentOut f mem := nomatch mem
  once := List.nodup_nil
  pending i mem := nomatch mem
  queued e mem := nomatch mem
  flying f mem := nomatch mem
  armed a mem := nomatch mem
  touched t mem := nomatch mem

/-- **Every careful step is safe.** -/
theorem Safe.step (safe : s.Safe) {e : EstateEvent} (careful : s.Careful e)
    (stepped : s.step e = some s') : s'.Safe := by
  cases e with
  | alloc addr refs =>
      simp only [Estate.step] at stepped
      split at stepped
      · next allowed =>
        cases stepped
        refine safe.alloc allowed.1 (fun k mem => ?_) trivial fun k mem => ?_
        · have held := List.all_eq_true.mp allowed.2 k mem
          exact .root (List.mem_append_left _ (List.contains_iff_mem.mp held))
        · rcases List.mem_append.mp mem with old | new
          · exact .inl old
          · exact .inr ⟨List.mem_singleton.mp new, by simp [Obj.Visible]⟩
      · cases stepped
  | drop k =>
      cases stepped
      refine { safe with whole := safe.whole.change_roots fun k' mem => .root ?_ }
      rcases List.mem_append.mp mem with held | calls
      · exact List.mem_append_left _ (List.mem_of_mem_erase held)
      · exact List.mem_append_right _ calls
  | newConn readOp sendOp conn =>
      simp only [Estate.step] at stepped
      split at stepped
      · next free =>
        cases stepped
        exact safe.newConn free
      · cases stepped
  | newListener rawAddr acceptOp listener =>
      simp only [Estate.step] at stepped
      split at stepped
      · next free =>
        cases stepped
        exact safe.newListener free
      · cases stepped
  | io dir conn buff timeout =>
      simp only [Estate.step] at stepped
      split at stepped
      · next addr readOp sendOp found =>
        split at stepped
        · next allowed =>
          cases stepped
          have which : dir.opOf readOp sendOp = readOp ∨ dir.opOf readOp sendOp = sendOp := by
            cases dir
            · exact .inl rfl
            · exact .inr rfl
          exact safe.message found which allowed.1 allowed.2.1 allowed.2.2
        · cases stepped
      · cases stepped
  | accept listener =>
      simp only [Estate.step] at stepped
      split at stepped
      · next addr op found =>
        split at stepped
        · next addr' rawAddr there =>
          split at stepped
          · next held =>
            cases stepped
            exact safe.begin (.accept found there rfl) rfl held
          · cases stepped
        · cases stepped
      · cases stepped
  | place j room addr =>
      obtain ⟨i, next, rest⟩ := Option.bind_eq_some_iff.mp stepped
      obtain ⟨c, found, rest⟩ := Option.bind_eq_some_iff.mp rest
      obtain ⟨s'', result, rfl⟩ := Option.map_eq_some_iff.mp rest
      exact safe.place next found result
  | consume j =>
      obtain ⟨e, found, rfl⟩ := Option.map_eq_some_iff.mp stepped
      exact safe.consume found
  | touch j =>
      obtain ⟨f, found, rfl⟩ := Option.map_eq_some_iff.mp stepped
      exact safe.touch (List.mem_of_getElem? found)
  | complete j =>
      obtain ⟨f, found, rfl⟩ := Option.map_eq_some_iff.mp stepped
      exact safe.complete found
  | dispatch j =>
      obtain ⟨i, next, rest⟩ := Option.bind_eq_some_iff.mp stepped
      obtain ⟨c, found, rfl⟩ := Option.map_eq_some_iff.mp rest
      exact safe.dispatch next
  | collect marked dead =>
      obtain ⟨h, collected, rfl⟩ := Option.map_eq_some_iff.mp stepped
      exact safe.collect collected careful

/-- **Collecting a timespec too early** loses it. -/
theorem not_intact_of_careless {e : EstateEvent} (careless : ¬ s.Careful e)
    (stepped : s.step e = some s') : ¬ s'.Intact := by
  intro intact
  cases e with
  | collect marked dead =>
      obtain ⟨h, collected, rfl⟩ := Option.map_eq_some_iff.mp stepped
      refine careless fun e mem asked purpose l lent freed => ?_
      exact Loan.not_intact_collect freed collected (intact.queued e mem l lent)
  | _ => exact careless trivial

/-- **The kernel finds what it was told about exactly along the runs in which no timespec is
collected before it is read.** -/
theorem lent_memory_intact_iff {p : List (Estate × EstateEvent)} (path : Path step start p s) :
    (∀ t ∈ visited p s, t.Intact) ↔ ∀ x ∈ p, x.1.Careful x.2 :=
  path.exact Safe (fun _ => True) Intact (fun _ _ => True) Careful safe_start
    (fun _ safe _ => safe.toIntact)
    (fun _ _ _ safe _ _ _ careful stepped => safe.step careful stepped)
    (fun _ _ _ _ _ _ _ careless stepped => not_intact_of_careless careless stepped)
    (fun _ _ => trivial) fun _ _ => trivial

/-- A read with a deadline of one second is placed, its timespec is collected, and its memory is
given to something else before the kernel reads it. -/
def lostDeadline : List EstateEvent :=
  [.alloc 100 [], .newConn 200 300 400, .io .read 3 0 1000000000, .place 0 8 500,
    .collect [0, 1, 2, 3] [500], .alloc 500 [], .consume 0, .consume 0]

/-- The kernel reads something that is no timespec. -/
theorem lent_memory_intact_iff_lost :
    ∃ p s, Path step start p s ∧ p.map Prod.snd = lostDeadline ∧
      s.armed = [(1000000000, none)] ∧ ¬ ∀ t ∈ visited p s, t.Intact := by
  have path : Path step start _ _ := path_record lostDeadline rfl
  refine ⟨_, _, path, rfl, rfl, fun intact => ?_⟩
  have careful := (lent_memory_intact_iff path).mp intact
  exact careful _ (List.mem_of_getElem? (i := 4) rfl) _ (List.mem_of_getElem? (i := 1) rfl) _ rfl _
    (List.mem_singleton_self _) (List.mem_singleton_self _)

/-! ## No deadline is protected -/

/-- The memory at an address is freed and given to something else. -/
def reused (s : Estate) (addr : ℕ) : Estate :=
  { s with
    heap := (s.heap.sweep [addr]).alloc addr (.other [])
    held := s.held ++ [s.heap.objects.length] }

end Estate

end GoUring.Net
