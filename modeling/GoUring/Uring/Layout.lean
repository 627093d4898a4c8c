import GoUring.Foundation.CounterRing
import GoUring.Uring.CompletionQueue
import GoUring.Uring.Setup
import GoUring.Uring.SubmissionQueue

/-!
# The mappings of a ring and the accesses into them

`allocRing` (`uring/setup.go`) computes the sizes of the three mappings from what the kernel
reports, partly in 32 and partly in 64 bits.  `NextSQE`, `flushSQ`, `peekCQEvent` and
`peekCQEventBatch` (`uring/ring.go`) then reach into them through pointers that nothing
checks: an offset is a masked counter times the size of an entry, and the counter may have any
value.

`RingGeometry` is what the kernel reports, with the bounds it keeps; the sizes are computed from
it as the code does.  `RingGeometry.Accesses` says what the pointers of the four functions reach.
It holds of every pair of queues with the masks of the geometry, whatever the counters and the
memory: no invariant of the queues is needed for it.
-/

namespace GoUring.Uring

open CounterRing

/-- The fields of `ringParams` from which `allocRing` computes the sizes and the places of the
mappings: both sizes are powers of two within the kernel's limits. -/
structure RingGeometry where
  sqEntries : UInt32
  cqEntries : UInt32
  features : UInt32
  /-- `sqOffset.array` -/
  array : UInt32
  /-- `cqOffset.cqes` -/
  cqes : UInt32
  sq_pow : ∃ a : ℕ, sqEntries.toNat = 2 ^ a
  sq_le : sqEntries.toNat ≤ 32768
  cq_pow : ∃ b : ℕ, cqEntries.toNat = 2 ^ b
  cq_le : cqEntries.toNat ≤ 65536

namespace RingGeometry

/-- `SingleMMapFeature`. -/
def singleMMapFeature (g : RingGeometry) : Bool := g.features &&& featSingleMMap != 0

/-- `sqRing.ringSize` and `cqRing.ringSize` as `allocRing` sets them.  The products are taken in
32 bits, the sums in 64. -/
def ringSizes (g : RingGeometry) : UInt64 × UInt64 :=
  let sqSize := g.array.toUInt64 + (g.sqEntries * sizeofUint32).toUInt64
  let cqSize := g.cqes.toUInt64 + (g.cqEntries * UInt32.ofNat sizeofCQEvent).toUInt64
  if g.singleMMapFeature then
    let sqSize := if cqSize > sqSize then cqSize else sqSize
    (sqSize, sqSize)
  else (sqSize, cqSize)

/-- `sz`, the size of the mapping of the SQEs. -/
def sqeBuffSize (g : RingGeometry) : UInt64 := g.sqEntries.toUInt64 * sizeofSQEntry.toUInt64

variable (g : RingGeometry)

theorem sq_sized : Sized g.sqEntries (g.sqEntries - 1) := ⟨g.sq_pow, rfl⟩

theorem cq_sized : Sized g.cqEntries (g.cqEntries - 1) := ⟨g.cq_pow, rfl⟩

theorem array_fits : g.sqEntries.toNat * sizeofUint32.toNat ≤ 2 ^ 32 :=
  (Nat.mul_le_mul_right _ g.sq_le).trans (by decide)

theorem sqe_fits : g.sqEntries.toNat * sizeofSQEntry.toNat ≤ 2 ^ 32 :=
  (Nat.mul_le_mul_right _ g.sq_le).trans (by decide)

/-- The product for the array, in 32 bits. -/
theorem toNat_arrayBytes : (g.sqEntries * sizeofUint32).toNat = g.sqEntries.toNat * 4 := by
  have le := g.sq_le
  rw [UInt32.toNat_mul]
  exact Nat.mod_eq_of_lt (show g.sqEntries.toNat * 4 < 2 ^ 32 by omega)

/-- The product for the CQEs, in 32 bits. -/
theorem toNat_cqeBytes :
    (g.cqEntries * UInt32.ofNat sizeofCQEvent).toNat = g.cqEntries.toNat * 16 := by
  have le := g.cq_le
  rw [UInt32.toNat_mul]
  exact Nat.mod_eq_of_lt (show g.cqEntries.toNat * 16 < 2 ^ 32 by omega)

theorem toNat_sqeBuffSize : g.sqeBuffSize.toNat = g.sqEntries.toNat * 64 := by
  have le := g.sq_le
  rw [sqeBuffSize, UInt64.toNat_mul, UInt32.toNat_toUInt64]
  exact Nat.mod_eq_of_lt (show g.sqEntries.toNat * 64 < 2 ^ 64 by omega)

/-- Where the array of the submission queue ends in its mapping. -/
def arrayEnd : ℕ := g.array.toNat + g.sqEntries.toNat * 4

/-- Where the CQEs end in their mapping. -/
def cqesEnd : ℕ := g.cqes.toNat + g.cqEntries.toNat * 16

/-- Separate mappings have the sizes of their contents; a shared one has the larger of the two. -/
theorem toNat_ringSizes :
    g.ringSizes.1.toNat =
        (if g.singleMMapFeature then max g.arrayEnd g.cqesEnd else g.arrayEnd) ∧
      g.ringSizes.2.toNat =
        (if g.singleMMapFeature then max g.arrayEnd g.cqesEnd else g.cqesEnd) := by
  have sqLe := g.sq_le
  have cqLe := g.cq_le
  have arrayLt := g.array.toNat_lt
  have cqesLt := g.cqes.toNat_lt
  have sqSize : (g.array.toUInt64 + (g.sqEntries * sizeofUint32).toUInt64).toNat =
      g.arrayEnd := by
    rw [UInt64.toNat_add, UInt32.toNat_toUInt64, UInt32.toNat_toUInt64, g.toNat_arrayBytes]
    exact Nat.mod_eq_of_lt (by omega)
  have cqSize : (g.cqes.toUInt64 +
      (g.cqEntries * UInt32.ofNat sizeofCQEvent).toUInt64).toNat = g.cqesEnd := by
    rw [UInt64.toNat_add, UInt32.toNat_toUInt64, UInt32.toNat_toUInt64, g.toNat_cqeBytes]
    exact Nat.mod_eq_of_lt (by omega)
  unfold ringSizes
  by_cases single : g.singleMMapFeature = true
  · simp only [single, if_true, gt_iff_lt, UInt64.lt_iff_toNat_lt, and_self, apply_ite UInt64.toNat,
      sqSize, cqSize]
    split
    · next lt => exact (max_eq_right lt.le).symm
    · next ge => exact (max_eq_left (not_lt.mp ge)).symm
  · simp only [single, Bool.false_eq_true, if_false]
    exact ⟨sqSize, cqSize⟩

theorem arrayEnd_le : g.arrayEnd ≤ g.ringSizes.1.toNat := by
  rw [g.toNat_ringSizes.1]
  split
  · exact le_max_left _ _
  · exact le_rfl

theorem cqesEnd_le : g.cqesEnd ≤ g.ringSizes.2.toNat := by
  rw [g.toNat_ringSizes.2]
  split
  · exact le_max_right _ _
  · exact le_rfl

end RingGeometry

/-! ## The stores of `flushSQ` -/

namespace SQ

/-- The stores the loop of `flushSQ` makes, as pairs of an offset and a value, with the two
counters it runs through. -/
def flushStores (mask : UInt32) : ℕ → UInt32 → UInt32 → List (ℕ × UInt32)
  | 0, _, _ => []
  | i + 1, tail, head =>
      (((tail &&& mask) * sizeofUint32).toNat, head &&& mask) ::
        flushStores mask i (tail + 1) (head + 1)

/-- Memory after a list of stores. -/
def applyStores (mem : ℕ → UInt32) (stores : List (ℕ × UInt32)) : ℕ → UInt32 :=
  stores.foldl (fun mem store => Function.update mem store.1 store.2) mem

theorem flushLoop_kArray (mask : UInt32) :
    ∀ (n : ℕ) (tail : UInt32) (s : SQ),
      (flushLoop mask n tail s).2.kArray =
        applyStores s.kArray (flushStores mask n tail s.sqeHead) := by
  intro n
  induction n with
  | zero => intro tail s; rfl
  | succ n ih =>
      intro tail s
      rw [flushLoop, ih]
      rfl

/-- The stores of one call of `flushSQ`. -/
def storesOfFlush (s : SQ) : List (ℕ × UInt32) :=
  flushStores s.kRingMask (s.sqeTail - s.sqeHead).toNat s.kTail s.sqeHead

/-- `flushSQ` changes the array by these stores and by nothing else. -/
theorem flushSQ_kArray (s : SQ) :
    s.flushSQ.2.kArray = applyStores s.kArray s.storesOfFlush := by
  unfold flushSQ storesOfFlush
  by_cases none : s.sqeTail - s.sqeHead = 0
  · simp only [none, if_true]
    rfl
  · simp only [none, if_false]
    exact flushLoop_kArray _ _ _ s

/-- Each store goes to the array cell of some counter. -/
theorem exists_of_mem_flushStores {mask : UInt32} {store : ℕ × UInt32} :
    ∀ (n : ℕ) (tail head : UInt32), store ∈ flushStores mask n tail head →
      ∃ c : UInt32, store.1 = ((c &&& mask) * sizeofUint32).toNat := by
  intro n
  induction n with
  | zero => intro tail head mem; cases mem
  | succ n ih =>
      intro tail head mem
      rcases List.mem_cons.mp mem with rfl | later
      · exact ⟨tail, rfl⟩
      · exact ih _ _ later

/-- A slot that `NextSQE` hands out is the slot of a counter. -/
theorem sqeAddr_of_nextSQE {s s' : SQ} {idx : UInt32} (handed : s.nextSQE = (.ok idx, s')) :
    idx.toNat = s.sqeAddr s.sqeTail := by
  unfold nextSQE at handed
  dsimp only at handed
  split at handed
  · simp only [Prod.mk.injEq, Except.ok.injEq] at handed
    rw [← handed.1, sqeAddr]
  · simp at handed

end SQ

/-! ## The reads of `peekCQEvent` and `peekCQEventBatch` -/

namespace CQ

/-- The pointer a peek returns points at the slot of a counter. -/
theorem exists_of_peekLoop {extArg : Bool} {ptr : ℕ} :
    ∀ (n : ℕ) (c : CQ), (peekLoop extArg n c).1.cqe = some ptr →
      ∃ counter, ptr = c.cqeAddr counter := by
  intro n
  induction n with
  | zero => intro c found; cases found
  | succ n ih =>
      intro c found
      rw [peekLoop] at found
      split at found
      · split at found
        · exact ih c.seenCQE found
        · cases found
      · exact ⟨c.kHead, (Option.some.inj found).symm⟩

/-- A peek looks at slots of counters only: memory that agrees on these gives the same answer and
moves the head alike. -/
theorem peekLoop_congr {extArg : Bool} {other : ℕ → CQEvent} :
    ∀ (n : ℕ) (c : CQ), (∀ counter, other (c.cqeAddr counter) = c.cqeBuff (c.cqeAddr counter)) →
      peekLoop extArg n { c with cqeBuff := other } =
        ((peekLoop extArg n c).1, { (peekLoop extArg n c).2 with cqeBuff := other }) := by
  intro n
  induction n with
  | zero => intro c _; rfl
  | succ n ih =>
      intro c agree
      have here : other (c.cqeAddr c.kHead) = c.cqeBuff (c.cqeAddr c.kHead) := agree c.kHead
      have address : cqeAddr { c with cqeBuff := other } c.kHead = c.cqeAddr c.kHead := rfl
      simp only [peekLoop, address, here]
      cases own : !extArg && (c.cqeBuff (c.cqeAddr c.kHead)).userData == libUserDataTimeout with
      | false => rfl
      | true =>
          cases (c.cqeBuff (c.cqeAddr c.kHead)).error with
          | none => exact ih c.seenCQE agree
          | some errno => rfl

end CQ

/-! ## Every access is in bounds -/

/-- What the accesses of the two queues reach, on a ring of the geometry `g`. -/
structure RingGeometry.Accesses (g : RingGeometry) (s : SQ) (c : CQ) : Prop where
  /-- The products of `allocRing` do not overflow. -/
  sizes : (g.sqEntries * sizeofUint32).toNat = g.sqEntries.toNat * 4 ∧
    (g.cqEntries * UInt32.ofNat sizeofCQEvent).toNat = g.cqEntries.toNat * 16 ∧
    g.sqeBuffSize.toNat = g.sqEntries.toNat * 64
  /-- The products of `NextSQE` and `flushSQ` do not overflow. -/
  offsets : ∀ counter : UInt32,
    ((counter &&& s.kRingMask) * sizeofSQEntry).toNat = (counter &&& s.kRingMask).toNat * 64 ∧
    ((counter &&& s.kRingMask) * sizeofUint32).toNat = (counter &&& s.kRingMask).toNat * 4
  /-- The sizes of the ring mappings: the contents of each, or the larger of both if shared. -/
  ringSizes : g.ringSizes.1.toNat =
      (if g.singleMMapFeature then max g.arrayEnd g.cqesEnd else g.arrayEnd) ∧
    g.ringSizes.2.toNat =
      (if g.singleMMapFeature then max g.arrayEnd g.cqesEnd else g.cqesEnd)
  /-- The 64 bytes `NextSQE` hands out are mapped. -/
  nextSQE : ∀ idx s', s.nextSQE = (.ok idx, s') → idx.toNat + 64 ≤ g.sqeBuffSize.toNat
  /-- `flushSQ` writes the array by the stores of `storesOfFlush`, -/
  flushed : s.flushSQ.2.kArray = SQ.applyStores s.kArray s.storesOfFlush
  /-- and each of these is mapped. -/
  flushSQ : ∀ store ∈ s.storesOfFlush, g.array.toNat + store.1 + 4 ≤ g.ringSizes.1.toNat
  /-- The CQE a peek returns is mapped, -/
  peekCQEvent : ∀ extArg ptr, (c.peekCQEvent extArg).1.cqe = some ptr →
    g.cqes.toNat + ptr + 16 ≤ g.ringSizes.2.toNat
  /-- and what the peek does depends on mapped CQEs only. -/
  peekReads : ∀ (extArg : Bool) (other : ℕ → CQEvent),
    (∀ ptr, g.cqes.toNat + ptr + 16 ≤ g.ringSizes.2.toNat → other ptr = c.cqeBuff ptr) →
    CQ.peekCQEvent extArg { c with cqeBuff := other } =
      ((c.peekCQEvent extArg).1, { (c.peekCQEvent extArg).2 with cqeBuff := other })
  /-- The CQEs of a batch are mapped. -/
  peekCQEventBatch : ∀ len, ∀ ptr ∈ c.peekCQEventBatch len,
    g.cqes.toNat + ptr + 16 ≤ g.ringSizes.2.toNat
  /-- Counters that agree modulo the size share their bytes, -/
  same : ∀ x y : UInt32,
    (x.toNat % g.sqEntries.toNat = y.toNat % g.sqEntries.toNat →
      extent s.sqeAddr 64 x = extent s.sqeAddr 64 y ∧
        extent s.arrayAddr 4 x = extent s.arrayAddr 4 y) ∧
    (x.toNat % g.cqEntries.toNat = y.toNat % g.cqEntries.toNat →
      extent c.cqeAddr 16 x = extent c.cqeAddr 16 y)
  /-- and others have none in common. -/
  apart : ∀ x y : UInt32,
    (x.toNat % g.sqEntries.toNat ≠ y.toNat % g.sqEntries.toNat →
      Disjoint (extent s.sqeAddr 64 x) (extent s.sqeAddr 64 y) ∧
        Disjoint (extent s.arrayAddr 4 x) (extent s.arrayAddr 4 y)) ∧
    (x.toNat % g.cqEntries.toNat ≠ y.toNat % g.cqEntries.toNat →
      Disjoint (extent c.cqeAddr 16 x) (extent c.cqeAddr 16 y))

namespace RingGeometry

variable {g : RingGeometry} {s : SQ} {c : CQ}

section Submission

variable (masked : s.kRingMask = g.sqEntries - 1)
include masked

theorem sqe_strided : Strided g.sqEntries.toNat 64 s.sqeAddr := by
  intro counter
  rw [SQ.sqeAddr, masked]
  exact strided_and_mul32 g.sq_sized g.sqe_fits counter

theorem array_strided : Strided g.sqEntries.toNat 4 s.arrayAddr := by
  intro counter
  rw [SQ.arrayAddr, masked]
  exact strided_and_mul32 g.sq_sized g.array_fits counter

/-- The cell of any counter lies in the array. -/
theorem array_le (counter : UInt32) :
    g.array.toNat + s.arrayAddr counter + 4 ≤ g.ringSizes.1.toNat := by
  have inside := (array_strided masked).add_le g.sq_sized.pos counter
  have mapped := g.arrayEnd_le
  unfold arrayEnd at mapped
  omega

end Submission

section Completion

variable (masked : c.kRingMask = g.cqEntries - 1)
include masked

theorem cqe_strided : Strided g.cqEntries.toNat 16 c.cqeAddr := by
  intro counter
  rw [CQ.cqeAddr, masked]
  exact strided_and_mul g.cq_sized 16 counter

/-- The CQE of any counter lies in the mapping. -/
theorem cqe_le (counter : UInt32) :
    g.cqes.toNat + c.cqeAddr counter + 16 ≤ g.ringSizes.2.toNat := by
  have inside := (cqe_strided masked).add_le g.cq_sized.pos counter
  have mapped := g.cqesEnd_le
  unfold cqesEnd at mapped
  omega

end Completion

/-- **Ring accesses stay inside the mappings**, for every value of every counter and every
contents of the memory. -/
theorem accesses_in_bounds (g : RingGeometry) (s : SQ) (c : CQ)
    (sqMask : s.kRingMask = g.sqEntries - 1) (cqMask : c.kRingMask = g.cqEntries - 1) :
    g.Accesses s c where
  sizes := ⟨g.toNat_arrayBytes, g.toNat_cqeBytes, g.toNat_sqeBuffSize⟩
  offsets counter := by
    have sqe := sqe_strided sqMask counter
    have array := array_strided sqMask counter
    rw [SQ.sqeAddr] at sqe
    rw [SQ.arrayAddr] at array
    rw [sqe, array, sqMask, g.sq_sized.toNat_and]
    exact ⟨rfl, rfl⟩
  ringSizes := g.toNat_ringSizes
  nextSQE idx s' handed := by
    rw [SQ.sqeAddr_of_nextSQE handed, g.toNat_sqeBuffSize]
    exact (sqe_strided sqMask).add_le g.sq_sized.pos s.sqeTail
  flushed := s.flushSQ_kArray
  flushSQ store mem := by
    obtain ⟨counter, place⟩ := SQ.exists_of_mem_flushStores _ _ _ mem
    rw [place]
    exact array_le sqMask counter
  peekCQEvent extArg ptr found := by
    obtain ⟨counter, rfl⟩ := CQ.exists_of_peekLoop _ c found
    exact cqe_le cqMask counter
  peekReads extArg other agree :=
    CQ.peekLoop_congr _ c fun counter => agree _ (cqe_le cqMask counter)
  peekCQEventBatch len ptr mem := by
    rw [c.peekCQEventBatch_eq] at mem
    obtain ⟨i, -, rfl⟩ := List.mem_map.mp mem
    exact cqe_le cqMask _
  same x y :=
    ⟨fun agree => ⟨(sqe_strided sqMask).extent_eq agree, (array_strided sqMask).extent_eq agree⟩,
      fun agree => (cqe_strided cqMask).extent_eq agree⟩
  apart x y :=
    ⟨fun differ => ⟨(sqe_strided sqMask).disjoint_extent differ,
        (array_strided sqMask).disjoint_extent differ⟩,
      fun differ => (cqe_strided cqMask).disjoint_extent differ⟩

/-- The largest ring there is, both queues in one mapping with the CQEs first. -/
def largest : RingGeometry where
  sqEntries := 32768
  cqEntries := 65536
  features := featSingleMMap
  array := 1048640
  cqes := 64
  sq_pow := ⟨15, rfl⟩
  sq_le := le_rfl
  cq_pow := ⟨16, rfl⟩
  cq_le := le_rfl

/-- A submission queue whose next slot is the last one, before its counter wraps. -/
def lastSlotSQ : SQ where
  kHead := 4294967294
  kTail := 4294967295
  kRingMask := 32767
  kRingEntries := 32768
  kFlags := 0
  kArray := fun _ => 0
  sqeBuff := fun _ => default
  sqeTail := 4294967295
  sqeHead := 4294967295

/-- A completion queue whose oldest completion is in the last slot. -/
def lastSlotCQ : CQ where
  kHead := 4294967295
  kTail := 2
  kRingMask := 65535
  kRingEntries := 65536
  cqeBuff := fun _ => default

/-- The last slot of the largest ring ends where the mapping of the SQEs ends, its last CQE where
the array begins. -/
theorem accesses_in_bounds_largest :
    lastSlotSQ.nextSQE.1.toOption = some 2097088 ∧ largest.sqeBuffSize.toNat = 2097088 + 64 ∧
      (lastSlotCQ.peekCQEvent true).1.cqe = some 1048560 ∧
      largest.Accesses lastSlotSQ lastSlotCQ :=
  ⟨rfl, rfl, rfl, accesses_in_bounds largest lastSlotSQ lastSlotCQ rfl rfl⟩

end RingGeometry

end GoUring.Uring
