import Mathlib.Algebra.BigOperators.Group.List.Basic
import Mathlib.Data.Multiset.Lattice
import Mathlib.Order.Lattice.Nat
import GoUring.Foundation.Custody
import GoUring.Uring.Syscall

/-!
# Creating and closing rings

`New`, `allocRing`, `freeRing`, `Close` and `CreateMany` (`uring/ring.go`, `uring/setup.go`),
with the descriptors and the mappings they take from the kernel and give back.  The kernel
decides which calls fail, and it may answer a call by anything that is not in use.  Since
every call that succeeds leaves its trace in the process, a kernel that looks at the process
can make any of the calls fail.

`CreateMany` has a loop in a loop, and the inner one moves the counter of the outer one.
`outer_eq_sequence` says what comes of it: one loop over the positions, in which the position
alone decides about the options.
-/

namespace GoUring.Uring

open Custody

/-! ## Options -/

def setupSQAff : UInt32 := 4

def setupCQSize : UInt32 := 8

def setupAttachWQ : UInt32 := 32

def featSingleMMap : UInt32 := 1

def maxEntries : UInt32 := 32768

/-- The fields of `ringParams` that the setup options write. -/
structure SetupParams where
  cqEntries : UInt32
  flags : UInt32
  sqThreadCpu : UInt32
  sqThreadIdle : UInt32
  wqFD : UInt32
  deriving DecidableEq, Repr

/-- `ringParams{}`. -/
def SetupParams.zero : SetupParams where
  cqEntries := 0
  flags := 0
  sqThreadCpu := 0
  sqThreadIdle := 0
  wqFD := 0

/-- The values of type `SetupOption`: `WithCQSize`, `WithIOPoll`, `WithAttachedWQ`,
`WithSQPoll` and `WithSQThreadCPU`. -/
inductive SetupOption
  | cqSize (sz : UInt32)
  | ioPoll
  | attachedWQ (fd : ℕ)
  | sqPoll (threadIdle : Int64)
  | sqThreadCPU (cpu : UInt32)
  deriving DecidableEq, Repr

namespace SetupOption

/-- What an option does to the parameters.  `threadIdle` counts nanoseconds, the kernel
milliseconds. -/
def apply : SetupOption → SetupParams → SetupParams
  | .cqSize sz, params => { params with flags := params.flags ||| setupCQSize, cqEntries := sz }
  | .ioPoll, params => { params with flags := params.flags ||| setupIOPoll }
  | .attachedWQ fd, params =>
      { params with flags := params.flags ||| setupAttachWQ, wqFD := UInt32.ofNat fd }
  | .sqPoll threadIdle, params =>
      { params with
        flags := params.flags ||| setupSQPoll
        sqThreadIdle := (threadIdle / 1000000).toUInt64.toUInt32 }
  | .sqThreadCPU cpu, params =>
      { params with flags := params.flags ||| setupSQAff, sqThreadCpu := cpu }

end SetupOption

/-- The parameters `New` passes to `io_uring_setup`. -/
def setupParams (opts : List SetupOption) : SetupParams :=
  opts.foldl (fun params opt => opt.apply params) .zero

/-! ## The kernel -/

/-- What the kernel gives to the process: descriptors of rings, and mappings, which are
told apart by their address. -/
inductive Resource
  | fd (fd : ℕ)
  | mapping (addr : ℕ)
  deriving DecidableEq, Repr

/-- The process, as a holder of resources. -/
abbrev Process := Ledger Resource

/-- The three offsets at which a ring is mapped: `0`, `cqRingOffset`, `sqesOffset`. -/
inductive Region
  | sqRing | cqRing | sqes
  deriving DecidableEq, Repr

/-- The kernel's answers.  A descriptor it returns is not open and an address it returns is
not mapped. -/
structure Kernel where
  /-- `io_uring_setup`: a descriptor and the features of the ring. -/
  setup : Process → UInt32 → SetupParams → Except Errno (ℕ × UInt32)
  mmap : Process → ℕ → Region → Except Errno ℕ
  setup_fresh : ∀ {p entries params fd features},
    setup p entries params = .ok (fd, features) → .fd fd ∉ p.live
  setup_fits : ∀ {p entries params fd features},
    setup p entries params = .ok (fd, features) → fd < 2 ^ 31
  mmap_fresh : ∀ {p fd region addr}, mmap p fd region = .ok addr → .mapping addr ∉ p.live

def Errno.ebadf : Errno := ⟨9⟩

def Errno.einval : Errno := ⟨22⟩

/-- `syscall.Munmap`; `none` is the nil slice. -/
def munmap : Option ℕ → Process → List Errno × Process
  | none, p => ([.einval], p)
  | some addr, p =>
      if .mapping addr ∈ p.live then ([], p.release (.mapping addr)) else ([.einval], p)

/-- `syscall.Close`. -/
def closeFd (fd : ℕ) (p : Process) : List Errno × Process :=
  if .fd fd ∈ p.live then ([], p.release (.fd fd)) else ([.ebadf], p)

/-! ## One ring -/

/-- `Ring`, as far as it is set up: its descriptor, its parameters with the features the
kernel has answered, and its three buffers. -/
structure RingHandle where
  fd : ℕ
  params : SetupParams
  features : UInt32
  sqBuff : Option ℕ
  cqBuff : Option ℕ
  sqeBuff : Option ℕ
  deriving DecidableEq, Repr

namespace RingHandle

/-- `Params.SingleMMapFeature`. -/
def singleMMapFeature (r : RingHandle) : Bool := r.features &&& featSingleMMap != 0

/-- The completion queue has a buffer of its own. -/
def ownCQ (r : RingHandle) : Prop := r.cqBuff ≠ none ∧ r.cqBuff ≠ r.sqBuff

instance (r : RingHandle) : Decidable r.ownCQ := inferInstanceAs (Decidable (_ ∧ _))

/-- `Ring.freeRing`.  Errors that `joinErr` puts together are kept in their order. -/
def freeRing (r : RingHandle) (p : Process) : List Errno × Process :=
  let (err, p) := munmap r.sqBuff p
  if r.ownCQ then
    let (err', p) := munmap r.cqBuff p
    (err ++ err', p)
  else
    (err, p)

/-- `Ring.Close`. -/
def close (r : RingHandle) (p : Process) : List Errno × Process :=
  let (err, p) := r.freeRing p
  let (err', p) := closeFd r.fd p
  (err ++ err', p)

/-- The first mapping of `allocRing`. -/
def mapSQ (kernel : Kernel) (r : RingHandle) (p : Process) :
    Except Errno RingHandle × Process :=
  match kernel.mmap p r.fd .sqRing with
  | .error errno => (.error errno, p)
  | .ok addr => (.ok { r with sqBuff := some addr }, p.acquire (.mapping addr))

/-- The second mapping of `allocRing`, which is the first one again if the kernel maps both
rings at once. -/
def mapCQ (kernel : Kernel) (r : RingHandle) (p : Process) :
    Except Errno RingHandle × Process :=
  if r.singleMMapFeature then
    (.ok { r with cqBuff := r.sqBuff }, p)
  else
    match kernel.mmap p r.fd .cqRing with
    | .error errno => (.error errno, (r.freeRing p).2)
    | .ok addr => (.ok { r with cqBuff := some addr }, p.acquire (.mapping addr))

/-- The third mapping of `allocRing`. -/
def mapSQEs (kernel : Kernel) (r : RingHandle) (p : Process) :
    Except Errno RingHandle × Process :=
  match kernel.mmap p r.fd .sqes with
  | .error errno => (.error errno, (r.freeRing p).2)
  | .ok addr => (.ok { r with sqeBuff := some addr }, p.acquire (.mapping addr))

/-- `Ring.allocRing`. -/
def allocRing (kernel : Kernel) (r : RingHandle) (p : Process) :
    Except Errno RingHandle × Process :=
  match r.mapSQ kernel p with
  | (.error errno, p) => (.error errno, p)
  | (.ok r, p) =>
      match r.mapCQ kernel p with
      | (.error errno, p) => (.error errno, p)
      | (.ok r, p) => r.mapSQEs kernel p

end RingHandle

/-! ## What a ring holds -/

/-- The mapping of a buffer. -/
def mappingOf : Option ℕ → Multiset Resource
  | none => 0
  | some addr => {.mapping addr}

namespace RingHandle

/-- The mappings `freeRing` gives back. -/
def ringMaps (r : RingHandle) : Multiset Resource :=
  mappingOf r.sqBuff + if r.ownCQ then mappingOf r.cqBuff else 0

/-- What `Close` gives back. -/
def freed (r : RingHandle) : Multiset Resource := .fd r.fd ::ₘ r.ringMaps

/-- All that a ring has taken. -/
def held (r : RingHandle) : Multiset Resource := mappingOf r.sqeBuff + r.freed

variable {kernel : Kernel} {r r' : RingHandle} {p p₀ p' : Process} {errno : Errno}
  {kept gone : Multiset Resource}

theorem munmap_takes {buff : Option ℕ} (held : Takes p₀ p (mappingOf buff + kept) gone) :
    Takes p₀ (munmap buff p).2 kept (mappingOf buff + gone) := by
  cases buff with
  | none => simpa [munmap, mappingOf] using held
  | some addr =>
      simp only [mappingOf, Multiset.singleton_add] at held ⊢
      have live : .mapping addr ∈ p.live := by
        rw [held.live]
        simp
      rw [munmap, if_pos live]
      exact held.release

theorem freeRing_takes (held : Takes p₀ p (r.ringMaps + kept) gone) :
    Takes p₀ (r.freeRing p).2 kept (r.ringMaps + gone) := by
  unfold ringMaps at held ⊢
  rw [add_assoc] at held
  have sq := munmap_takes held
  by_cases own : r.ownCQ
  · rw [if_pos own] at sq ⊢
    rw [add_comm (mappingOf r.sqBuff), add_assoc]
    simp only [freeRing, if_pos own]
    exact munmap_takes sq
  · rw [if_neg own] at sq ⊢
    simp only [freeRing, if_neg own]
    simpa using sq

/-- **`Close`** gives back the mappings of the two rings and the descriptor. -/
theorem close_takes (held : Takes p₀ p (r.freed + kept) gone) :
    Takes p₀ (r.close p).2 kept (r.freed + gone) := by
  have maps : Takes p₀ p (r.ringMaps + .fd r.fd ::ₘ kept) gone := by
    rw [Multiset.add_cons, ← Multiset.cons_add]
    exact held
  have freed := freeRing_takes maps
  have live : .fd r.fd ∈ (r.freeRing p).2.live := by
    rw [freed.live]
    simp
  rw [RingHandle.freed, Multiset.cons_add]
  simp only [close, closeFd, if_pos live]
  exact freed.release

/-- The first mapping is taken, or nothing is. -/
theorem mapSQ_cases (kernel : Kernel) (r : RingHandle) (p : Process) :
    (∃ errno, r.mapSQ kernel p = (.error errno, p)) ∨
      ∃ sq, r.mapSQ kernel p =
        (.ok { r with sqBuff := some sq }, p.acquire (.mapping sq)) := by
  unfold mapSQ
  cases kernel.mmap p r.fd .sqRing with
  | error errno => exact Or.inl ⟨errno, rfl⟩
  | ok sq => exact Or.inr ⟨sq, rfl⟩

/-- The second mapping is taken, or it is the first one again, or both are given up. -/
theorem mapCQ_cases (kernel : Kernel) {sq : ℕ} (blank : r.cqBuff = none)
    (first : r.sqBuff = some sq) (taken : Takes p₀ p {.mapping sq} 0) :
    (∃ errno p' gone, r.mapCQ kernel p = (.error errno, p') ∧ Takes p₀ p' 0 gone) ∨
      ∃ cq r' p', r.mapCQ kernel p = (.ok r', p') ∧ r' = { r with cqBuff := some cq } ∧
        Takes p₀ p' r'.ringMaps 0 := by
  have alone : r.ringMaps = {.mapping sq} := by
    have shared : ¬ r.ownCQ := fun own => own.1 blank
    rw [ringMaps, if_neg shared, first, add_zero]
    rfl
  by_cases single : r.singleMMapFeature
  · right
    refine ⟨sq, { r with cqBuff := r.sqBuff }, p, ?_, by rw [first], ?_⟩
    · rw [mapCQ, if_pos single]
    · have shared : ¬ ({ r with cqBuff := r.sqBuff } : RingHandle).ownCQ := fun own => own.2 rfl
      rw [ringMaps, if_neg shared, add_zero]
      show Takes p₀ p (mappingOf r.sqBuff) 0
      rw [first]
      exact taken
  · rw [mapCQ, if_neg single]
    cases mapped : kernel.mmap p r.fd .cqRing with
    | error errno =>
        left
        have maps : Takes p₀ p (r.ringMaps + 0) 0 := by rwa [alone, add_zero]
        exact ⟨errno, _, _, rfl, freeRing_takes maps⟩
    | ok cq =>
        right
        refine ⟨cq, _, _, rfl, rfl, ?_⟩
        have own : ({ r with cqBuff := some cq } : RingHandle).ownCQ := by
          refine ⟨Option.some_ne_none cq, fun same => kernel.mmap_fresh mapped ?_⟩
          rw [first] at same
          cases same
          rw [taken.live]
          simp
        rw [ringMaps, if_pos own]
        show Takes p₀ _ (mappingOf r.sqBuff + {.mapping cq}) 0
        rw [first, add_comm]
        exact taken.trans (Takes.acquire p _)

/-- The third mapping is taken, or all are given back. -/
theorem mapSQEs_cases (kernel : Kernel) (taken : Takes p₀ p r.ringMaps 0) :
    (∃ errno p' gone, r.mapSQEs kernel p = (.error errno, p') ∧ Takes p₀ p' 0 gone) ∨
      ∃ sqe r' p', r.mapSQEs kernel p = (.ok r', p') ∧ r' = { r with sqeBuff := some sqe } ∧
        Takes p₀ p' (mappingOf r'.sqeBuff + r'.ringMaps) 0 := by
  unfold mapSQEs
  cases kernel.mmap p r.fd .sqes with
  | error errno =>
      left
      have maps : Takes p₀ p (r.ringMaps + 0) 0 := by rwa [add_zero]
      exact ⟨errno, _, _, rfl, freeRing_takes maps⟩
  | ok sqe =>
      right
      exact ⟨sqe, _, _, rfl, rfl, taken.trans (Takes.acquire p _)⟩

/-- **`allocRing`** takes all mappings, or gives back those it has taken. -/
theorem allocRing_cases (kernel : Kernel) (p : Process) (blank : r.cqBuff = none) :
    (∃ errno p' gone, r.allocRing kernel p = (.error errno, p') ∧ Takes p p' 0 gone) ∨
      ∃ sq cq sqe r' p', r.allocRing kernel p = (.ok r', p') ∧
        r' = { r with sqBuff := some sq, cqBuff := some cq, sqeBuff := some sqe } ∧
        Takes p p' (mappingOf r'.sqeBuff + r'.ringMaps) 0 := by
  rcases r.mapSQ_cases kernel p with ⟨errno, failed⟩ | ⟨sq, mapped⟩
  · left
    exact ⟨errno, p, 0, by rw [allocRing, failed], Takes.refl p⟩
  rw [allocRing, mapped]
  rcases mapCQ_cases (r := { r with sqBuff := some sq }) kernel blank rfl
      (Takes.acquire p (.mapping sq))
    with ⟨errno, p', gone, failed, given⟩ | ⟨cq, r', p', mapped, rfl, taken⟩
  · left
    exact ⟨errno, p', gone, by simp only [failed], given⟩
  simp only [mapped]
  rcases mapSQEs_cases kernel taken with
    ⟨errno, p', gone, failed, given⟩ | ⟨sqe, r', p', mapped, rfl, taken⟩
  · left
    exact ⟨errno, p', gone, failed, given⟩
  · right
    exact ⟨sq, cq, sqe, _, p', mapped, rfl, taken⟩

end RingHandle

/-- The errors of `New` and `CreateMany`. -/
inductive CreateError
  /-- `number of io_uring instances must be greater or equal number of worker pools` -/
  | fewerInstances
  /-- `number of worker pools must be a multiple of the entries` -/
  | notMultiple
  /-- `ring setup, entries > MaxEntries` -/
  | entries
  | setup (errno : Errno)
  | mmap (errno : Errno)
  deriving DecidableEq, Repr

section Create

variable (kernel : Kernel) (entries : UInt32)

/-- `New`.  It returns the ring together with an error of `allocRing`; `CreateMany` does
not look at it. -/
def new (opts : List SetupOption) (p : Process) : Except CreateError RingHandle × Process :=
  if entries > maxEntries then
    (.error .entries, p)
  else
    match kernel.setup p entries (setupParams opts) with
    | .error errno => (.error (.setup errno), p)
    | .ok (fd, features) =>
        let r : RingHandle :=
          { fd := fd, params := setupParams opts, features := features,
            sqBuff := none, cqBuff := none, sqeBuff := none }
        match r.allocRing kernel (p.acquire (.fd fd)) with
        | (.error errno, p) => (.error (.mmap errno), p)
        | (.ok r, p) => (.ok r, p)

/-! ## Many rings -/

/-- A Go map from descriptors to rings, and what `CreateMany` has made so far. -/
structure Build where
  process : Process
  defers : List (ℕ × RingHandle)
  rings : List RingHandle

/-- Nothing is made yet. -/
def Build.start (p : Process) : Build := { process := p, defers := [], rings := [] }

/-- `defers[r.fd] = r.Close` and `rings = append(rings, r)`. -/
def Build.put (b : Build) (r : RingHandle) (p : Process) : Build where
  process := p
  defers := (r.fd, r) :: b.defers.filter (·.1 ≠ r.fd)
  rings := b.rings ++ [r]

/-- An order in which the runtime may range over a map. -/
structure Iteration where
  order : List (ℕ × RingHandle) → List (ℕ × RingHandle)
  perm : ∀ defers, (order defers).Perm defers

/-- Close rings one after the other; the errors are those of the rings that have some. -/
def closeAll : List (ℕ × RingHandle) → Process → List (ℕ × List Errno) × Process
  | [], p => ([], p)
  | (fd, r) :: rest, p =>
      let (err, p) := r.close p
      let (errs, p) := closeAll rest p
      (if err = [] then errs else (fd, err) :: errs, p)

variable (iteration : Iteration)

/-- The `Defer` of what was made. -/
def Build.deferred (b : Build) (p : Process) : List (ℕ × List Errno) × Process :=
  closeAll (iteration.order b.defers) p

/-- One `New` of `CreateMany` and what follows it: on an error, all rings made before are
closed. -/
def create (opts : List SetupOption) (b : Build) :
    Except (CreateError × Process) (RingHandle × Build) :=
  match new kernel entries opts b.process with
  | (.error err, p) => .error (err, (b.deferred iteration p).2)
  | (.ok r, p) => .ok (r, b.put r p)

variable (opts : List SetupOption)

/-- The inner loop of `CreateMany`, which attaches rings to the one with the descriptor
`mainFd` and counts `i` up; `none` if the fuel does not last. -/
def inner (per : ℤ) (mainFd : ℕ) :
    ℕ → ℤ → ℤ → Build → Option (Except (CreateError × Process) (ℤ × Build))
  | 0, _, _, _ => none
  | fuel + 1, j, i, b =>
      if j < per then
        match create kernel entries iteration (opts ++ [.attachedWQ mainFd]) b with
        | .error failed => some (.error failed)
        | .ok (_, b) => inner per mainFd fuel (j + 1) (i + 1) b
      else
        some (.ok (i, b))

/-- The outer loop of `CreateMany`; `none` if the fuel does not last. -/
def outer (count per : ℤ) : ℕ → ℤ → Build → Option (Except (CreateError × Process) Build)
  | 0, _, _ => none
  | fuel + 1, i, b =>
      if i < count then
        match create kernel entries iteration opts b with
        | .error failed => some (.error failed)
        | .ok (mainRing, b) =>
            match
              if per > 1 then
                inner kernel entries iteration opts per mainRing.fd (per.toNat + 1) 1 i b
              else
                some (.ok (i, b)) with
            | none => none
            | some (.error failed) => some (.error failed)
            | some (.ok (i, b)) => outer count per fuel (i + 1) b
      else
        some (.ok b)

/-- `CreateMany`; `none` if it panics at the division, or the fuel does not last. -/
def createMany (count wpCount : ℤ) (p : Process) :
    Option (Except (CreateError × Process) Build) :=
  if wpCount > count then some (.error (.fewerInstances, p))
  else if wpCount = 0 then none
  else if count.tmod wpCount ≠ 0 then some (.error (.notMultiple, p))
  else
    outer kernel entries iteration opts count (count.tdiv wpCount) (count.toNat + 1) 0
      (.start p)

/-! ## The two loops are one -/

/-- The options of the ring at the next position: every `per`-th is on its own, and those
that follow it are attached to it. -/
def optionsAt (per : ℕ) (rings : List RingHandle) : List SetupOption :=
  if rings.length % per = 0 then opts
  else
    match rings[rings.length - rings.length % per]? with
    | none => opts
    | some mainRing => opts ++ [.attachedWQ mainRing.fd]

/-- Make `n` rings more, one after the other. -/
def sequence (per : ℕ) : ℕ → Build → Except (CreateError × Process) Build
  | 0, b => .ok b
  | n + 1, b =>
      match create kernel entries iteration (optionsAt opts per b.rings) b with
      | .error failed => .error failed
      | .ok (_, b) => sequence per n b

variable {kernel entries iteration opts}

theorem create_ok {b b' : Build} {r : RingHandle} {opts : List SetupOption}
    (made : create kernel entries iteration opts b = .ok (r, b')) :
    ∃ p, new kernel entries opts b.process = (.ok r, p) ∧ b' = b.put r p := by
  unfold create at made
  split at made
  · cases made
  · next answered =>
    cases made
    exact ⟨_, answered, rfl⟩

theorem create_error {b : Build} {err : CreateError} {p : Process} {opts : List SetupOption}
    (failed : create kernel entries iteration opts b = .error (err, p)) :
    ∃ p', new kernel entries opts b.process = (.error err, p') ∧
      p = (b.deferred iteration p').2 := by
  unfold create at failed
  split at failed
  · next answered =>
    cases failed
    exact ⟨_, answered, rfl⟩
  · cases failed

theorem create_rings {b b' : Build} {r : RingHandle} {opts : List SetupOption}
    (made : create kernel entries iteration opts b = .ok (r, b')) :
    b'.rings = b.rings ++ [r] := by
  obtain ⟨p, -, rfl⟩ := create_ok made
  rfl

theorem sequence_add (per m n : ℕ) (b : Build) :
    sequence kernel entries iteration opts per (m + n) b =
      (sequence kernel entries iteration opts per m b).bind
        (sequence kernel entries iteration opts per n) := by
  induction m generalizing b with
  | zero =>
      rw [Nat.zero_add]
      rfl
  | succ m ih =>
      rw [Nat.add_right_comm, sequence, sequence]
      cases create kernel entries iteration (optionsAt opts per b.rings) b with
      | error failed => rfl
      | ok made => exact ih made.2

theorem length_sequence {per n : ℕ} {b b' : Build}
    (made : sequence kernel entries iteration opts per n b = .ok b') :
    b'.rings.length = b.rings.length + n := by
  induction n generalizing b with
  | zero =>
      cases made
      rfl
  | succ n ih =>
      rw [sequence] at made
      split at made
      · cases made
      · next r next created =>
        rw [ih made, create_rings created, List.length_append, List.length_singleton]
        omega

/-- Inside a group, the next ring is attached to the first one of the group. -/
theorem optionsAt_of_group {per base m : ℕ} {rings : List RingHandle} {mainRing : RingHandle}
    (group : per ∣ base) (position : rings.length + (m + 1) = base + per)
    (started : base < rings.length) (main : rings[base]? = some mainRing) :
    optionsAt opts per rings = opts ++ [.attachedWQ mainRing.fd] := by
  obtain ⟨g, rfl⟩ := group
  have offset : rings.length % per = rings.length - per * g := by
    have split : rings.length = per * g + (rings.length - per * g) := by omega
    rw [split, Nat.mul_add_mod, Nat.add_sub_cancel_left]
    exact Nat.mod_eq_of_lt (by omega)
  have first : rings.length - (rings.length - per * g) = per * g := by omega
  rw [optionsAt, offset, if_neg (by omega), first, main]

/-- **The inner loop** completes its group. -/
theorem inner_eq_sequence {per base : ℕ} {mainRing : RingHandle} (group : per ∣ base) :
    ∀ (m fuel : ℕ) (i j : ℤ) (b : Build), m < fuel → j + m = per →
      b.rings.length + m = base + per → base < b.rings.length →
      b.rings[base]? = some mainRing →
      inner kernel entries iteration opts per mainRing.fd fuel j i b =
        some ((sequence kernel entries iteration opts per m b).map fun b => (i + m, b)) := by
  intro m
  induction m with
  | zero =>
      intro fuel i j b enough count position started main
      obtain ⟨fuel, rfl⟩ := Nat.exists_eq_add_of_lt enough
      have done : ¬ j < per := by omega
      rw [Nat.zero_add, inner, if_neg done]
      simp [sequence, Except.map]
  | succ m ih =>
      intro fuel i j b enough count position started main
      obtain ⟨fuel, rfl⟩ := Nat.exists_eq_add_of_lt enough
      have more : j < per := by omega
      rw [inner, if_pos more, sequence,
        optionsAt_of_group group position started main]
      cases made : create kernel entries iteration (opts ++ [.attachedWQ mainRing.fd]) b with
      | error failed => rfl
      | ok next =>
          obtain ⟨r, b'⟩ := next
          have longer := create_rings made
          have rest := ih (m + 1 + fuel) (i + 1) (j + 1) b' (by omega) (by omega)
            (by rw [longer, List.length_append]; simp; omega)
            (by rw [longer, List.length_append]; simp; omega)
            (by rw [longer, List.getElem?_append_left started, main])
          have moved : i + 1 + (m : ℤ) = i + ((m + 1 : ℕ) : ℤ) := by omega
          rw [moved] at rest
          exact rest

/-- **The outer loop** makes `g` groups of `per` rings. -/
theorem outer_eq_sequence {per : ℕ} (positive : 0 < per) :
    ∀ (g fuel : ℕ) (i : ℤ) (b : Build), g < fuel → per ∣ b.rings.length →
      outer kernel entries iteration opts (i + (g * per : ℕ)) per fuel i b =
        some (sequence kernel entries iteration opts per (g * per) b) := by
  intro g
  induction g with
  | zero =>
      intro fuel i b enough group
      obtain ⟨fuel, rfl⟩ := Nat.exists_eq_add_of_lt enough
      have done : ¬ i < i + ((0 * per : ℕ) : ℤ) := by simp
      rw [Nat.zero_add, outer, if_neg done, Nat.zero_mul]
      rfl
  | succ g ih =>
      intro fuel i b enough group
      obtain ⟨fuel, rfl⟩ := Nat.exists_eq_add_of_lt enough
      have size : (g + 1) * per = per - 1 + g * per + 1 := by
        rw [Nat.add_mul]
        omega
      have more : i < i + (((g + 1) * per : ℕ) : ℤ) := by omega
      have own : optionsAt opts per b.rings = opts := by
        rw [optionsAt, if_pos (Nat.mod_eq_zero_of_dvd group)]
      rw [outer, if_pos more, size, sequence, own]
      cases made : create kernel entries iteration opts b with
      | error failed => rfl
      | ok next =>
          obtain ⟨mainRing, b'⟩ := next
          have longer := create_rings made
          have length : b'.rings.length = b.rings.length + 1 := by
            rw [longer, List.length_append, List.length_singleton]
          have first : b'.rings[b.rings.length]? = some mainRing := by
            rw [longer, List.getElem?_concat_length]
          have rest : (if (per : ℤ) > 1 then
                inner kernel entries iteration opts per mainRing.fd ((per : ℤ).toNat + 1) 1 i b'
              else some (.ok (i, b'))) =
              some ((sequence kernel entries iteration opts per (per - 1) b').map fun b =>
                (i + (per - 1 : ℕ), b)) := by
            split
            · exact inner_eq_sequence group (per - 1) _ i 1 b' (by omega) (by omega) (by omega)
                (by omega) first
            · have alone : per - 1 = 0 := by omega
              rw [alone]
              simp [sequence, Except.map]
          simp only [rest]
          rw [sequence_add]
          cases grown : sequence kernel entries iteration opts per (per - 1) b' with
          | error failed => rfl
          | ok b'' =>
              have grew := length_sequence grown
              have next := ih (g + 1 + fuel) (i + (per - 1 : ℕ) + 1) b'' (by omega)
                (by
                  have total : b''.rings.length = b.rings.length + per := by omega
                  rw [total]
                  exact Nat.dvd_add group (dvd_refl per))
              have bound : i + ((per - 1 : ℕ) : ℤ) + 1 + ((g * per : ℕ) : ℤ) =
                  i + ((per - 1 + g * per + 1 : ℕ) : ℤ) := by omega
              rw [bound] at next
              exact next

/-- **`CreateMany`** behind its checks makes its rings in one sequence, and the fuel lasts
for it. -/
theorem createMany_eq_sequence {count wpCount : ℕ} (positive : 0 < wpCount)
    (enough : wpCount ≤ count) (divides : wpCount ∣ count) (p : Process) :
    createMany kernel entries iteration opts count wpCount p =
      some (sequence kernel entries iteration opts (count / wpCount) count (.start p)) := by
  obtain ⟨per, rfl⟩ := divides
  have size : 0 < per := by
    apply Nat.pos_of_ne_zero
    rintro rfl
    omega
  have quotient : ((wpCount * per : ℕ) : ℤ).tdiv wpCount = per := by
    rw [← Int.ofNat_tdiv, Nat.mul_div_cancel_left _ positive]
  have remainder : ((wpCount * per : ℕ) : ℤ).tmod wpCount = 0 := by
    rw [← Int.ofNat_tmod, Nat.mul_mod_right]
    rfl
  have loops : outer kernel entries iteration opts (0 + (wpCount * per : ℕ)) per
      (((wpCount * per : ℕ) : ℤ).toNat + 1) 0 (.start p) = _ :=
    outer_eq_sequence size wpCount _ 0 _ (by rw [Int.toNat_natCast]; omega) (Nat.dvd_zero per)
  rw [Int.zero_add] at loops
  rw [createMany, if_neg (by omega), if_neg (by omega), if_neg (not_not.mpr remainder), quotient,
    loops, Nat.mul_div_cancel_left _ positive]

/-- **The rule for a sequence of rings.**  What holds at the start and is kept by every ring
that is made holds at the end, or before the `New` that failed. -/
theorem sequence_rule {per : ℕ} (I : Build → Prop)
    (kept : ∀ b r b', I b →
      create kernel entries iteration (optionsAt opts per b.rings) b = .ok (r, b') → I b') :
    ∀ (n : ℕ) (b : Build), I b →
      (∃ b', sequence kernel entries iteration opts per n b = .ok b' ∧ I b') ∨
        ∃ failed b', sequence kernel entries iteration opts per n b = .error failed ∧ I b' ∧
          create kernel entries iteration (optionsAt opts per b'.rings) b' = .error failed ∧
          ∃ m < n, sequence kernel entries iteration opts per m b = .ok b' := by
  intro n
  induction n with
  | zero =>
      intro b start
      exact Or.inl ⟨b, rfl, start⟩
  | succ n ih =>
      intro b start
      rw [sequence]
      cases made : create kernel entries iteration (optionsAt opts per b.rings) b with
      | error failed => exact Or.inr ⟨failed, b, rfl, start, made, 0, Nat.succ_pos n, rfl⟩
      | ok next =>
          refine (ih next.2 (kept b next.1 next.2 start made)).imp_right fun stopped => ?_
          obtain ⟨failed, b', stopped, inv, fails, m, less, reached⟩ := stopped
          refine ⟨failed, b', stopped, inv, fails, m + 1, Nat.succ_lt_succ less, ?_⟩
          rw [sequence, made]
          exact reached

/-! ## What creating takes -/

/-- **`New`** takes all that its ring holds, or nothing, or it leaves a descriptor
behind. -/
theorem new_cases (kernel : Kernel) (entries : UInt32) (opts : List SetupOption) (p : Process) :
    (∃ err, new kernel entries opts p = (.error err, p) ∧
        (entries > maxEntries ∨
          ∃ errno, kernel.setup p entries (setupParams opts) = .error errno)) ∨
      (∃ err fd p' gone, new kernel entries opts p = (.error err, p') ∧
        Takes p p' {.fd fd} gone) ∨
      ∃ r p', new kernel entries opts p = (.ok r, p') ∧ Takes p p' r.held 0 ∧
        .fd r.fd ∉ p.live ∧ r.fd < 2 ^ 31 ∧ r.params = setupParams opts ∧
        ∃ sqe, r.sqeBuff = some sqe := by
  unfold new
  split
  · next large => exact Or.inl ⟨_, rfl, Or.inl large⟩
  cases opened : kernel.setup p entries (setupParams opts) with
  | error errno => exact Or.inl ⟨_, rfl, Or.inr ⟨errno, rfl⟩⟩
  | ok answer =>
      right
      obtain ⟨fd, features⟩ := answer
      have descriptor := Takes.acquire p (.fd fd)
      rcases RingHandle.allocRing_cases
          (r := { fd := fd, params := setupParams opts, features := features,
                  sqBuff := none, cqBuff := none, sqeBuff := none })
          kernel (p.acquire (.fd fd)) rfl with
        ⟨errno, p', gone, failed, given⟩ | ⟨sq, cq, sqe, r, p', mapped, shape, taken⟩
      · left
        simp only [failed]
        refine ⟨_, fd, p', gone, rfl, ?_⟩
        simpa using descriptor.trans given
      · right
        have same : r.fd = fd := by rw [shape]
        simp only [mapped]
        refine ⟨r, p', rfl, ?_, by rw [same]; exact kernel.setup_fresh opened,
          by rw [same]; exact kernel.setup_fits opened, by rw [shape], sqe, by rw [shape]⟩
        have all := descriptor.trans taken
        rw [add_zero, add_assoc, add_comm r.ringMaps, ← same, Multiset.singleton_add] at all
        exact all

/-- What a ring that `New` has returned holds, and what it was set up with. -/
theorem new_ok {kernel : Kernel} {entries : UInt32} {opts : List SetupOption} {p p' : Process}
    {r : RingHandle} (answered : new kernel entries opts p = (.ok r, p')) :
    Takes p p' r.held 0 ∧ .fd r.fd ∉ p.live ∧ r.fd < 2 ^ 31 ∧ r.params = setupParams opts ∧
      ∃ sqe, r.sqeBuff = some sqe := by
  rcases new_cases kernel entries opts p with
    ⟨err, failed, -⟩ | ⟨err, fd, q, gone, failed, -⟩ | ⟨r', q, opened, holds⟩
  · rw [answered] at failed
    cases failed
  · rw [answered] at failed
    cases failed
  · rw [answered] at opened
    cases opened
    exact holds

/-- What a `New` that has failed leaves behind: nothing, if it opened nothing, or its
descriptor. -/
theorem new_error {kernel : Kernel} {entries : UInt32} {opts : List SetupOption} {p p' : Process}
    {err : CreateError} (answered : new kernel entries opts p = (.error err, p')) :
    (p' = p ∧ (entries > maxEntries ∨
        ∃ errno, kernel.setup p entries (setupParams opts) = .error errno)) ∨
      ∃ fd gone, Takes p p' {.fd fd} gone := by
  rcases new_cases kernel entries opts p with
    ⟨err', failed, reason⟩ | ⟨err', fd, q, gone, failed, taken⟩ | ⟨r', q, opened, -⟩
  · rw [answered] at failed
    cases failed
    exact Or.inl ⟨rfl, reason⟩
  · rw [answered] at failed
    cases failed
    exact Or.inr ⟨fd, gone, taken⟩
  · rw [answered] at opened
    cases opened

theorem closeAll_takes {p₀ : Process} {kept : Multiset Resource} :
    ∀ (defers : List (ℕ × RingHandle)) (p : Process) (gone : Multiset Resource),
      Takes p₀ p ((defers.map (·.2.freed)).sum + kept) gone →
      Takes p₀ (closeAll defers p).2 kept ((defers.map (·.2.freed)).sum + gone) := by
  intro defers
  induction defers with
  | nil =>
      intro p gone held
      simpa [closeAll] using held
  | cons entry rest ih =>
      intro p gone held
      rw [List.map_cons, List.sum_cons, add_assoc] at held
      have closed := RingHandle.close_takes held
      have others := ih _ _ closed
      rw [List.map_cons, List.sum_cons, add_comm entry.2.freed, add_assoc]
      exact others

end Create

/-! ## A kernel that counts up -/

/-- The number in a resource. -/
def Resource.number : Resource → ℕ
  | .fd n => n
  | .mapping n => n

/-- A number above all numbers in use. -/
def nextNumber (p : Process) : ℕ := (p.live.map Resource.number).sup + 1

theorem notMem_of_number {p : Process} {resource : Resource}
    (next : resource.number = nextNumber p) : resource ∉ p.live := by
  intro mem
  have le := Multiset.le_sup (Multiset.mem_map_of_mem Resource.number mem)
  rw [next, nextNumber] at le
  omega

/-- The kernel that answers every call by the next number, as long as there is one for a
descriptor. -/
def countingKernel (features : UInt32) : Kernel where
  setup p _ _ :=
    if nextNumber p < 2 ^ 31 then .ok (nextNumber p, features) else .error ⟨24⟩
  mmap p _ _ := .ok (nextNumber p)
  setup_fresh {p _ _ fd _} opened := by
    split at opened
    · cases opened
      exact notMem_of_number rfl
    · cases opened
  setup_fits {p _ _ fd _} opened := by
    split at opened
    · next fits =>
      cases opened
      exact fits
    · cases opened
  mmap_fresh {p fd region addr} mapped := by
    cases mapped
    exact notMem_of_number rfl

/-- The order in which the entries were made. -/
def newestFirst : Iteration where
  order defers := defers
  perm defers := List.Perm.refl defers

end GoUring.Uring
