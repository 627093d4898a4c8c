import GoUring.Foundation.BoundedFifo
import GoUring.Foundation.CounterRing
import GoUring.Foundation.Runs
import GoUring.Uring.Operation

/-!
# The submission queue

`sq` of `uring/ring.go` and the functions that write it: `NextSQE`, `QueueSQE`
and `flushSQ`.  Four counters run freely through `2 ^ 32`: `sqeHead` and
`sqeTail` are private to the library, `kHead` and `kTail` are shared with the
kernel.  The kernel does not read the slots directly: it reads an index from
`kArray` at `kHead & mask` and then the slot of that index.

The two memory blocks are functions of the *byte offset* the code computes, with
the code's own 32-bit products, so that what is proved about offsets and what is
proved about entries is proved about the same definitions.

`QueueSQE` takes its slot before it calls the operation's `PrepSQE`.  If that
panics and somebody recovers, the slot stays taken: `abandonSQE` is the queue
then, one entry longer, and the entry is whatever the slot held before.

`SQ.WF` is what the counters, the array and the slots satisfy together between
operations; `SubmissionQueue` carries it.  `SubmissionQueue.abs` reads a
submission queue as a bounded FIFO with a publication point, and each operation
is the FIFO operation it is for: `QueueSQE` pushes, `flushSQ` publishes, the
kernel takes.
-/

namespace GoUring.Uring

open CounterRing BoundedFifo Runs

/-- `sq`: the submission queue as the library sees it.  `kArray` and `sqeBuff`
are indexed by byte offset. -/
structure SQ where
  kHead : UInt32
  kTail : UInt32
  kRingMask : UInt32
  kRingEntries : UInt32
  kFlags : UInt32
  kArray : ℕ → UInt32
  sqeBuff : ℕ → SQEntry
  sqeTail : UInt32
  sqeHead : UInt32

/-- What `QueueSQE` leaves in the slot: the operation's encoding of the slot's
old contents, with the flags and the user data overwritten. -/
def Operation.encode (op : Operation) (flags : UInt8) (userData : UInt64)
    (old : SQEntry) : Option SQEntry :=
  (op.prepSQE old).map fun sqe => { sqe with flags := flags }.setUserData userData

theorem Operation.encode_userData {op : Operation} {flags : UInt8}
    {userData : UInt64} {old sqe : SQEntry}
    (encoded : op.encode flags userData old = some sqe) :
    sqe.userData = userData := by
  obtain ⟨prepared, -, rfl⟩ := Option.map_eq_some_iff.mp encoded
  rfl

theorem Operation.encode_flags {op : Operation} {flags : UInt8} {userData : UInt64}
    {old sqe : SQEntry} (encoded : op.encode flags userData old = some sqe) :
    sqe.flags = flags := by
  obtain ⟨prepared, -, rfl⟩ := Option.map_eq_some_iff.mp encoded
  rfl

namespace SQ

/-- `sq.cqNeedFlush`. -/
def cqNeedFlush (s : SQ) : Bool := s.kFlags &&& sqCQOverflow != 0

/-- `Ring.NextSQE`: the byte offset of the next free slot, or `ErrSQOverflow`.
Go gives `&` and `*` the same precedence, so the masked counter is scaled. -/
def nextSQE (s : SQ) : Except RingError UInt32 × SQ :=
  let head := s.kHead
  let next := s.sqeTail + 1
  if next - head ≤ s.kRingEntries then
    let idx := (s.sqeTail &&& s.kRingMask) * sizeofSQEntry
    (.ok idx, { s with sqeTail := next })
  else
    (.error .sqOverflow, s)

/-- `Ring.QueueSQE`: the returned error and the queue afterwards; `none` is a
panic of the operation's `PrepSQE`, which leaves the queue `abandonSQE`. -/
def queueSQE (s : SQ) (op : Operation) (flags : UInt8) (userData : UInt64) :
    Option (Option RingError × SQ) :=
  match s.nextSQE with
  | (.error err, s) => some (some err, s)
  | (.ok entry, s) =>
      (op.encode flags userData (s.sqeBuff entry.toNat)).map fun sqe =>
        (none, { s with sqeBuff := Function.update s.sqeBuff entry.toNat sqe })

/-- The queue after a panic of `PrepSQE`.  `NextSQE` has moved `sqeTail`, and the
operations index their slices before they write anything to the slot. -/
def abandonSQE (s : SQ) : SQ := s.nextSQE.2

/-- The body of the loop of `Ring.flushSQ`: name the slot of `sqeHead` in the
array cell of `tail`. -/
def flushOne (mask tail : UInt32) (s : SQ) : SQ :=
  { s with
    kArray := Function.update s.kArray ((tail &&& mask) * sizeofUint32).toNat
      (s.sqeHead &&& mask)
    sqeHead := s.sqeHead + 1 }

/-- The loop of `Ring.flushSQ`: `i` SQEs still to be flushed. -/
def flushLoop (mask : UInt32) : ℕ → UInt32 → SQ → UInt32 × SQ
  | 0, tail, s => (tail, s)
  | i + 1, tail, s => flushLoop mask i (tail + 1) (flushOne mask tail s)

/-- `Ring.flushSQ`: the returned count and the queue afterwards. -/
def flushSQ (s : SQ) : UInt32 × SQ :=
  let mask := s.kRingMask
  let tail := s.kTail
  let subCnt := s.sqeTail - s.sqeHead
  if subCnt = 0 then
    (tail - s.kHead, s)
  else
    let (tail, s) := flushLoop mask subCnt.toNat tail s
    let s := { s with kTail := tail }
    (tail - s.kHead, s)

/-- The SQE the kernel finds through the array at the counter value `c`.  The
kernel does its own address arithmetic in pointers. -/
def kernelRead (s : SQ) (c : UInt32) : SQEntry :=
  s.sqeBuff ((s.kArray ((c &&& s.kRingMask).toNat * 4)).toNat * 64)

/-- One kernel step: when `kHead` and `kTail` differ, read an SQE and move
`kHead` up. -/
def kernelConsume (s : SQ) : Option (SQEntry × SQ) :=
  if s.kHead = s.kTail then none
  else some (s.kernelRead s.kHead, { s with kHead := s.kHead + 1 })

/-! ## The queue between operations -/

/-- The byte offset of the slot of a counter value. -/
def sqeAddr (s : SQ) (c : UInt32) : ℕ := ((c &&& s.kRingMask) * sizeofSQEntry).toNat

/-- The byte offset of the array cell of a counter value. -/
def arrayAddr (s : SQ) (c : UInt32) : ℕ := ((c &&& s.kRingMask) * sizeofUint32).toNat

/-- The SQEs queued and not yet consumed, oldest first. -/
def pending (s : SQ) : List SQEntry := window s.sqeBuff s.sqeAddr s.kHead s.sqeTail

/-- What is in the slot that `NextSQE` hands out next. -/
def nextSlot (s : SQ) : SQEntry := s.sqeBuff (s.sqeAddr s.sqeTail)

/-- If `NextSQE` has a free slot, the operation's `PrepSQE` does not panic in it. -/
def Prepares (s : SQ) (op : Operation) : Prop :=
  s.sqeTail + 1 - s.kHead ≤ s.kRingEntries → (op.prepSQE s.nextSlot).isSome = true

instance (s : SQ) (op : Operation) : Decidable (s.Prepares op) :=
  inferInstanceAs (Decidable (_ → _))

@[simp] theorem prepares_nopOp (s : SQ) : s.Prepares nopOp := fun _ => rfl

/-- The SQEs the kernel would read next, as it finds them through the array. -/
def visible (s : SQ) : List SQEntry :=
  (List.range (gap s.kHead s.kTail)).map fun i =>
    s.kernelRead (s.kHead + UInt32.ofNat i)

/-- **The invariant of the submission queue.** -/
structure WF (s : SQ) : Prop where
  /-- The size is a power of two and the mask is its mask. -/
  sized : Sized s.kRingEntries s.kRingMask
  /-- The size is at most `MaxEntries`. -/
  small : s.kRingEntries.toNat ≤ 32768
  /-- All that was flushed is visible. -/
  flushed : s.sqeHead = s.kTail
  /-- Only what was queued is visible. -/
  visible_le : gap s.kHead s.kTail ≤ gap s.kHead s.sqeTail
  /-- The ring holds no more than its size. -/
  pending_le : gap s.kHead s.sqeTail ≤ s.kRingEntries.toNat
  /-- The visible array cells name the slots in queueing order. -/
  array_eq : ∀ i < gap s.kHead s.kTail,
    s.kArray (s.arrayAddr (s.kHead + UInt32.ofNat i)) =
      (s.kHead + UInt32.ofNat i) &&& s.kRingMask

namespace WF

variable {s : SQ}

theorem sqe_fits (wf : s.WF) : s.kRingEntries.toNat * sizeofSQEntry.toNat ≤ 2 ^ 32 := by
  have small := wf.small
  have size : sizeofSQEntry.toNat = 64 := rfl
  rw [size]
  omega

theorem array_fits (wf : s.WF) : s.kRingEntries.toNat * sizeofUint32.toNat ≤ 2 ^ 32 := by
  have small := wf.small
  have size : sizeofUint32.toNat = 4 := rfl
  rw [size]
  omega

theorem sqe_placement (wf : s.WF) : Placement s.kRingEntries.toNat s.sqeAddr :=
  placement_strided32 wf.sized (by decide) wf.sqe_fits

theorem array_placement (wf : s.WF) : Placement s.kRingEntries.toNat s.arrayAddr :=
  placement_strided32 wf.sized (by decide) wf.array_fits

/-- Reading through the array reaches the slot of the counter itself. -/
theorem kernelRead_eq (wf : s.WF) {i : ℕ} (hi : i < gap s.kHead s.kTail) :
    s.kernelRead (s.kHead + UInt32.ofNat i) =
      s.sqeBuff (s.sqeAddr (s.kHead + UInt32.ofNat i)) := by
  have cell : (s.kHead + UInt32.ofNat i &&& s.kRingMask).toNat * 4 =
      s.arrayAddr (s.kHead + UInt32.ofNat i) := by
    rw [arrayAddr, toNat_and_mul wf.sized wf.array_fits, wf.sized.toNat_and]
    rfl
  rw [kernelRead, cell, wf.array_eq i hi, sqeAddr, toNat_and_mul wf.sized wf.sqe_fits,
    wf.sized.toNat_and]
  rfl

/-- What the kernel can read is the front of what is queued. -/
theorem visible_eq_take (wf : s.WF) :
    s.visible = s.pending.take (gap s.kHead s.kTail) := by
  have le := wf.visible_le
  rw [pending, window, ← List.map_take, take_slots le, slots, List.map_map]
  refine List.map_congr_left fun i hi => ?_
  exact wf.kernelRead_eq (List.mem_range.mp hi)

end WF

@[simp] theorem length_pending (s : SQ) : s.pending.length = gap s.kHead s.sqeTail :=
  length_window

@[simp] theorem length_visible (s : SQ) : s.visible.length = gap s.kHead s.kTail := by
  simp [visible]

/-! ## `NextSQE` and `QueueSQE` -/

/-- The queue after an SQE was written into the slot of `sqeTail`. -/
def pushSQE (s : SQ) (sqe : SQEntry) : SQ :=
  { s with
    sqeTail := s.sqeTail + 1
    sqeBuff := Function.update s.sqeBuff (s.sqeAddr s.sqeTail) sqe }

/-- `QueueSQE` panics in a free slot only, and then it is `PrepSQE` that does. -/
theorem queueSQE_eq_none_iff {s : SQ} {op : Operation} {flags : UInt8} {userData : UInt64} :
    s.queueSQE op flags userData = none ↔ ¬ s.Prepares op := by
  unfold queueSQE nextSQE Prepares
  by_cases free : s.sqeTail + 1 - s.kHead ≤ s.kRingEntries
  · simp only [free, if_true, true_implies, Option.map_eq_none_iff, Operation.encode,
      Bool.not_eq_true, Option.isSome_eq_false_iff, Option.isNone_iff_eq_none]
    rfl
  · simp only [free, if_false, false_implies, not_true, reduceCtorEq]

/-- To queue what the slot holds already is to move the tail. -/
theorem pushSQE_nextSlot (s : SQ) : s.pushSQE s.nextSlot = { s with sqeTail := s.sqeTail + 1 } := by
  rw [pushSQE, nextSlot, Function.update_eq_self]

/-- **A slot that is abandoned is queued as it is.** -/
theorem abandonSQE_of_panic {s : SQ} {op : Operation} {flags : UInt8} {userData : UInt64}
    (panics : s.queueSQE op flags userData = none) :
    s.sqeTail + 1 - s.kHead ≤ s.kRingEntries ∧ s.abandonSQE = s.pushSQE s.nextSlot := by
  have free := (Classical.not_imp.mp (queueSQE_eq_none_iff.mp panics)).1
  refine ⟨free, ?_⟩
  rw [abandonSQE, nextSQE, if_pos free, pushSQE_nextSlot]

namespace WF

variable {s : SQ}

theorem gap_add_one (wf : s.WF) :
    gap s.kHead (s.sqeTail + 1) = gap s.kHead s.sqeTail + 1 := by
  have small := wf.small
  have bound := wf.pending_le
  exact CounterRing.gap_add_one (by omega)

/-- The test of `NextSQE` asks whether a slot is free. -/
theorem next_le_iff (wf : s.WF) :
    s.sqeTail + 1 - s.kHead ≤ s.kRingEntries ↔
      gap s.kHead s.sqeTail < s.kRingEntries.toNat := by
  rw [UInt32.le_iff_toNat_le]
  change gap s.kHead (s.sqeTail + 1) ≤ _ ↔ _
  rw [wf.gap_add_one]
  exact Nat.succ_le_iff

theorem nextSQE_of_room (wf : s.WF) (room : gap s.kHead s.sqeTail < s.kRingEntries.toNat) :
    s.nextSQE =
      (.ok ((s.sqeTail &&& s.kRingMask) * sizeofSQEntry),
        { s with sqeTail := s.sqeTail + 1 }) := by
  unfold nextSQE
  rw [if_pos (wf.next_le_iff.mpr room)]

theorem nextSQE_of_full (wf : s.WF) (full : gap s.kHead s.sqeTail = s.kRingEntries.toNat) :
    s.nextSQE = (.error .sqOverflow, s) := by
  unfold nextSQE
  rw [if_neg fun le => absurd (wf.next_le_iff.mp le) (by omega)]

theorem queueSQE_of_room (wf : s.WF) (room : gap s.kHead s.sqeTail < s.kRingEntries.toNat)
    (op : Operation) (flags : UInt8) (userData : UInt64) :
    s.queueSQE op flags userData =
      (op.encode flags userData (s.sqeBuff (s.sqeAddr s.sqeTail))).map fun sqe =>
        (none, s.pushSQE sqe) := by
  rw [queueSQE, wf.nextSQE_of_room room]
  rfl

theorem queueSQE_of_full (wf : s.WF) (full : gap s.kHead s.sqeTail = s.kRingEntries.toNat)
    (op : Operation) (flags : UInt8) (userData : UInt64) :
    s.queueSQE op flags userData = some (some .sqOverflow, s) := by
  rw [queueSQE, wf.nextSQE_of_full full]

/-- `QueueSQE` either finds the ring full and changes nothing, or writes the
encoded SQE into the free slot. -/
theorem queueSQE_cases (wf : s.WF) {op : Operation} {flags : UInt8} {userData : UInt64}
    {err : Option RingError} {s' : SQ}
    (queued : s.queueSQE op flags userData = some (err, s')) :
    (gap s.kHead s.sqeTail = s.kRingEntries.toNat ∧ err = some .sqOverflow ∧ s' = s) ∨
      (gap s.kHead s.sqeTail < s.kRingEntries.toNat ∧ err = none ∧
        ∃ sqe, op.encode flags userData (s.sqeBuff (s.sqeAddr s.sqeTail)) = some sqe ∧
          s' = s.pushSQE sqe) := by
  rcases wf.pending_le.eq_or_lt with full | room
  · rw [wf.queueSQE_of_full full, Option.some.injEq, Prod.mk.injEq] at queued
    exact Or.inl ⟨full, queued.1.symm, queued.2.symm⟩
  · rw [wf.queueSQE_of_room room, Option.map_eq_some_iff] at queued
    obtain ⟨sqe, encoded, result⟩ := queued
    rw [Prod.mk.injEq] at result
    exact Or.inr ⟨room, result.1.symm, sqe, encoded, result.2.symm⟩

/-- Queueing keeps the invariant. -/
theorem pushSQE (wf : s.WF) (room : gap s.kHead s.sqeTail < s.kRingEntries.toNat)
    (sqe : SQEntry) : (s.pushSQE sqe).WF where
  sized := wf.sized
  small := wf.small
  flushed := wf.flushed
  visible_le := by
    show gap s.kHead s.kTail ≤ gap s.kHead (s.sqeTail + 1)
    rw [wf.gap_add_one]
    exact wf.visible_le.trans (Nat.le_succ _)
  pending_le := by
    show gap s.kHead (s.sqeTail + 1) ≤ s.kRingEntries.toNat
    rw [wf.gap_add_one]
    exact room
  array_eq := wf.array_eq

theorem queueSQE (wf : s.WF) {op : Operation} {flags : UInt8} {userData : UInt64}
    {err : Option RingError} {s' : SQ}
    (queued : s.queueSQE op flags userData = some (err, s')) : s'.WF := by
  rcases wf.queueSQE_cases queued with ⟨-, -, rfl⟩ | ⟨room, -, sqe, -, rfl⟩
  · exact wf
  · exact wf.pushSQE room sqe

theorem abandonSQE (wf : s.WF) : s.abandonSQE.WF := by
  rcases wf.pending_le.eq_or_lt with full | room
  · rw [SQ.abandonSQE, wf.nextSQE_of_full full]
    exact wf
  · rw [SQ.abandonSQE, wf.nextSQE_of_room room]
    have pushed := wf.pushSQE room s.nextSlot
    rwa [pushSQE_nextSlot] at pushed

theorem pending_pushSQE (wf : s.WF) (room : gap s.kHead s.sqeTail < s.kRingEntries.toNat)
    (sqe : SQEntry) : (s.pushSQE sqe).pending = s.pending ++ [sqe] :=
  window_push wf.sqe_placement room sqe

theorem visible_pushSQE (wf : s.WF) (room : gap s.kHead s.sqeTail < s.kRingEntries.toNat)
    (sqe : SQEntry) : (s.pushSQE sqe).visible = s.visible := by
  have le : gap s.kHead s.kTail ≤ s.pending.length := by
    rw [length_pending]
    exact wf.visible_le
  rw [(wf.pushSQE room sqe).visible_eq_take, wf.pending_pushSQE room, wf.visible_eq_take]
  exact List.take_append_of_le_length le

end WF

/-! ## `flushSQ` -/

theorem add_one_add_ofNat (c : UInt32) (n : ℕ) :
    c + 1 + UInt32.ofNat n = c + UInt32.ofNat (n + 1) := by
  rw [Nat.add_comm n 1, ← add_ofNat_add]
  rfl

/-- The loop moves both counters and writes the array; nothing else changes. -/
theorem flushLoop_frame (mask : UInt32) :
    ∀ (n : ℕ) (tail : UInt32) (s : SQ),
      flushLoop mask n tail s =
        (tail + UInt32.ofNat n,
          { s with
            kArray := (flushLoop mask n tail s).2.kArray
            sqeHead := s.sqeHead + UInt32.ofNat n }) := by
  intro n
  induction n with
  | zero =>
      intro tail s
      simp [flushLoop]
  | succ n ih =>
      intro tail s
      rw [flushLoop, ih, add_one_add_ofNat, flushOne]
      simp only [add_one_add_ofNat]

/-- Cells of other counters keep their contents. -/
theorem flushLoop_array_of_notMem (s : SQ) {a : ℕ} :
    ∀ (n : ℕ) (tail : UInt32) (t : SQ), a ∉ slots s.arrayAddr tail n →
      (flushLoop s.kRingMask n tail t).2.kArray a = t.kArray a := by
  intro n
  induction n with
  | zero => intro tail t _; rfl
  | succ n ih =>
      intro tail t outside
      rw [Nat.add_comm n 1, slots_add] at outside
      have first : a ≠ ((tail &&& s.kRingMask) * sizeofUint32).toNat := by
        rintro rfl
        exact outside (List.mem_append_left _ (by simp [slots, arrayAddr]))
      have rest : a ∉ slots s.arrayAddr (tail + 1) n := fun mem =>
        outside (List.mem_append_right _ mem)
      rw [flushLoop, ih _ _ rest]
      exact Function.update_of_ne first _ _

/-- The loop stores each counter's own masked value in its array cell, as long
as it does not run over the ring. -/
theorem flushLoop_array_of_lt {s : SQ} (wf : s.WF) :
    ∀ (n : ℕ) (t : SQ), n ≤ s.kRingEntries.toNat → ∀ i < n,
      (flushLoop s.kRingMask n t.sqeHead t).2.kArray
          (s.arrayAddr (t.sqeHead + UInt32.ofNat i)) =
        (t.sqeHead + UInt32.ofNat i) &&& s.kRingMask := by
  intro n
  induction n with
  | zero => intro t _ i hi; exact absurd hi (Nat.not_lt_zero i)
  | succ n ih =>
      intro t le i hi
      rw [flushLoop]
      cases i with
      | zero =>
          -- The first cell is written once: the loop stops short of a full turn.
          have fresh : s.arrayAddr t.sqeHead ∉ slots s.arrayAddr (t.sqeHead + 1) n := by
            intro mem
            obtain ⟨j, hj, again⟩ := List.mem_map.mp mem
            have hlt := List.mem_range.mp hj
            rw [add_one_add_ofNat] at again
            have zero := wf.array_placement.add_inj (i := j + 1) (j := 0) (by omega)
              wf.sized.pos (by simpa using again)
            omega
          have start : t.sqeHead + UInt32.ofNat 0 = t.sqeHead := UInt32.add_zero _
          rw [start, flushLoop_array_of_notMem s n _ _ fresh]
          exact Function.update_self _ _ _
      | succ j =>
          rw [← add_one_add_ofNat]
          exact ih (flushOne s.kRingMask t.sqeHead t) (by omega) j (by omega)

/-- Every value the loop stores is a slot number. -/
theorem flushLoop_array_bound {s : SQ} (sized : Sized s.kRingEntries s.kRingMask) (a : ℕ) :
    ∀ (n : ℕ) (tail : UInt32) (t : SQ),
      (flushLoop s.kRingMask n tail t).2.kArray a = t.kArray a ∨
        ((flushLoop s.kRingMask n tail t).2.kArray a).toNat < s.kRingEntries.toNat := by
  intro n
  induction n with
  | zero => intro tail t; exact Or.inl rfl
  | succ n ih =>
      intro tail t
      rw [flushLoop]
      refine (ih _ _).elim (fun kept => ?_) Or.inr
      rw [kept, flushOne]
      by_cases here : a = ((tail &&& s.kRingMask) * sizeofUint32).toNat
      · right
        subst here
        show (Function.update t.kArray _ _ _).toNat < _
        rw [Function.update_self, sized.toNat_and]
        exact Nat.mod_lt _ sized.pos
      · left
        exact Function.update_of_ne here _ _

namespace WF

variable {s : SQ}

theorem gap_unflushed (wf : s.WF) :
    gap s.kHead s.kTail + gap s.kTail s.sqeTail = gap s.kHead s.sqeTail := by
  have ahead := gap_advance wf.visible_le
  rw [add_ofNat_gap] at ahead
  have le := wf.visible_le
  omega

/-- With nothing to flush the counters are where a flush would put them. -/
theorem same_counters (head : s.sqeHead = s.kTail) (same : s.sqeTail = s.kTail) :
    ({ s with kTail := s.sqeTail, sqeHead := s.sqeTail, kArray := s.kArray } : SQ) = s := by
  cases s
  simp only at head same
  subst head same
  rfl

/-- **What `flushSQ` does.**  Both counters of the flushed prefix move up to
`sqeTail`, the array cells in between name their slots, and the count returned
is the distance from `kHead`. -/
theorem flushSQ_eq (wf : s.WF) :
    ∃ array : ℕ → UInt32,
      s.flushSQ = (s.sqeTail - s.kHead,
        { s with kTail := s.sqeTail, sqeHead := s.sqeTail, kArray := array }) ∧
      (∀ i < gap s.kTail s.sqeTail,
        array (s.arrayAddr (s.kTail + UInt32.ofNat i)) =
          (s.kTail + UInt32.ofNat i) &&& s.kRingMask) ∧
      (∀ a ∉ slots s.arrayAddr s.kTail (gap s.kTail s.sqeTail), array a = s.kArray a) ∧
      ∀ a, array a = s.kArray a ∨ (array a).toNat < s.kRingEntries.toNat := by
  have head := wf.flushed
  by_cases none : s.sqeTail - s.sqeHead = 0
  · -- Nothing new: the counters already agree.
    have same : s.sqeTail = s.kTail := by
      rw [← head]
      simpa [UInt32.sub_eq_iff_eq_add] using none
    refine ⟨s.kArray, ?_, ?_, fun a _ => rfl, fun a => Or.inl rfl⟩
    · rw [flushSQ, if_pos none, same_counters head same, same]
    · rw [same, gap_self]
      exact fun i hi => absurd hi (Nat.not_lt_zero i)
  · have count : (s.sqeTail - s.sqeHead).toNat = gap s.kTail s.sqeTail := by
      rw [head, gap]
    have fits : gap s.kTail s.sqeTail ≤ s.kRingEntries.toNat := by
      have total := wf.gap_unflushed
      have le := wf.pending_le
      omega
    refine ⟨(flushLoop s.kRingMask (gap s.kTail s.sqeTail) s.kTail s).2.kArray,
      ?_, ?_, ?_, ?_⟩
    · have frame := flushLoop_frame s.kRingMask (gap s.kTail s.sqeTail) s.kTail s
      rw [head, add_ofNat_gap] at frame
      rw [flushSQ, if_neg none, count]
      simp only
      rw [frame]
    · rw [← head] at fits ⊢
      exact flushLoop_array_of_lt wf _ s fits
    · intro a outside
      exact flushLoop_array_of_notMem s _ _ s outside
    · intro a
      exact flushLoop_array_bound wf.sized a _ _ s

/-- Flushing keeps the invariant. -/
theorem flushSQ (wf : s.WF) : s.flushSQ.2.WF := by
  obtain ⟨array, eq, stored, kept, -⟩ := wf.flushSQ_eq
  rw [eq]
  refine ⟨wf.sized, wf.small, rfl, le_rfl, wf.pending_le, fun i hi => ?_⟩
  change i < gap s.kHead s.sqeTail at hi
  have total := wf.gap_unflushed
  have le := wf.pending_le
  by_cases old : i < gap s.kHead s.kTail
  · -- A cell that was already visible is not written again.
    have outside : s.arrayAddr (s.kHead + UInt32.ofNat i) ∉
        slots s.arrayAddr s.kTail (gap s.kTail s.sqeTail) := by
      intro mem
      obtain ⟨j, hj, again⟩ := List.mem_map.mp mem
      have hlt := List.mem_range.mp hj
      rw [← add_ofNat_gap s.kHead s.kTail, add_ofNat_add] at again
      have same := wf.array_placement.add_inj (by omega) (by omega) again
      omega
    exact (kept _ outside).trans (wf.array_eq i old)
  · obtain ⟨j, rfl⟩ := Nat.exists_eq_add_of_le (Nat.le_of_not_lt old)
    have new := stored j (by omega)
    rw [← add_ofNat_gap s.kHead s.kTail, add_ofNat_add] at new
    exact new

theorem pending_flushSQ (wf : s.WF) : s.flushSQ.2.pending = s.pending := by
  obtain ⟨array, eq, -⟩ := wf.flushSQ_eq
  rw [eq]
  rfl

/-- After a flush the kernel can read all that is queued. -/
theorem visible_flushSQ (wf : s.WF) : s.flushSQ.2.visible = s.pending := by
  rw [wf.flushSQ.visible_eq_take, wf.pending_flushSQ]
  obtain ⟨array, eq, -⟩ := wf.flushSQ_eq
  rw [eq]
  exact List.take_of_length_le (length_pending s).le

/-- `flushSQ` returns the number of SQEs queued and not yet consumed. -/
theorem flushSQ_count (wf : s.WF) : s.flushSQ.1.toNat = s.pending.length := by
  obtain ⟨array, eq, -⟩ := wf.flushSQ_eq
  rw [eq, length_pending]
  rfl

end WF

/-! ## The kernel -/

theorem kernelConsume_entries {s s' : SQ} {sqe : SQEntry}
    (consumed : s.kernelConsume = some (sqe, s')) :
    s'.kRingEntries = s.kRingEntries := by
  unfold kernelConsume at consumed
  split at consumed
  · cases consumed
  · cases consumed
    rfl

namespace WF

variable {s : SQ}

/-- A kernel step reads the oldest SQE queued. -/
theorem kernelConsume_spec (wf : s.WF) {sqe : SQEntry} {s' : SQ}
    (consumed : s.kernelConsume = some (sqe, s')) :
    s'.WF ∧ s.pending = sqe :: s'.pending ∧ s.visible = sqe :: s'.visible ∧
      s'.kArray = s.kArray := by
  unfold kernelConsume at consumed
  split at consumed
  · cases consumed
  · next differ =>
    rw [Option.some.injEq, Prod.mk.injEq] at consumed
    obtain ⟨rfl, rfl⟩ := consumed
    have some : 1 ≤ gap s.kHead s.kTail :=
      Nat.one_le_iff_ne_zero.mpr fun zero => differ (gap_eq_zero_iff.mp zero)
    have advanced : ∀ c : UInt32, 1 ≤ gap s.kHead c →
        gap (s.kHead + 1) c = gap s.kHead c - 1 := fun c le => gap_advance le
    have headOne : ∀ i : ℕ, s.kHead + 1 + UInt32.ofNat i =
        s.kHead + UInt32.ofNat (i + 1) := add_one_add_ofNat s.kHead
    have le := wf.visible_le
    have wf' : ({ s with kHead := s.kHead + 1 } : SQ).WF := by
      refine ⟨wf.sized, wf.small, wf.flushed, ?_, ?_, fun i hi => ?_⟩
      · show gap (s.kHead + 1) s.kTail ≤ gap (s.kHead + 1) s.sqeTail
        rw [advanced _ some, advanced _ (some.trans le)]
        omega
      · show gap (s.kHead + 1) s.sqeTail ≤ s.kRingEntries.toNat
        rw [advanced _ (some.trans le)]
        exact (Nat.sub_le _ _).trans wf.pending_le
      · change i < gap (s.kHead + 1) s.kTail at hi
        rw [advanced _ some] at hi
        show s.kArray (s.arrayAddr (s.kHead + 1 + UInt32.ofNat i)) = _
        rw [headOne]
        exact wf.array_eq (i + 1) (by omega)
    have rest : ({ s with kHead := s.kHead + 1 } : SQ).pending = s.pending.drop 1 :=
      window_advance (some.trans le)
    have first : s.pending = s.kernelRead s.kHead :: s.pending.drop 1 := by
      have nonempty : 0 < s.pending.length := by
        rw [length_pending]
        omega
      have read := wf.kernelRead_eq (i := 0) (by omega)
      have start : s.kHead + UInt32.ofNat 0 = s.kHead := UInt32.add_zero _
      rw [start] at read
      have oldest : s.pending[0] = s.sqeBuff (s.sqeAddr s.kHead) := by
        simp only [pending, getElem_window, start]
      have split := List.drop_eq_getElem_cons nonempty
      rw [List.drop_zero, oldest, ← read] at split
      exact split
    refine ⟨wf', ?_, ?_, rfl⟩
    · rw [rest]
      exact first
    · rw [wf.visible_eq_take, wf'.visible_eq_take, rest]
      show s.pending.take (gap s.kHead s.kTail) =
        _ :: (s.pending.drop 1).take (gap (s.kHead + 1) s.kTail)
      rw [advanced _ some]
      obtain ⟨n, hn⟩ := Nat.exists_eq_add_of_le some
      rw [hn, Nat.add_sub_cancel_left, Nat.add_comm 1 n]
      conv_lhs => rw [first]
      rfl

end WF

/-- A queue no operation was performed on: all four counters are equal.  Their
common value and the contents of the two memory blocks are arbitrary. -/
structure Fresh (s : SQ) : Prop where
  sized : Sized s.kRingEntries s.kRingMask
  small : s.kRingEntries.toNat ≤ 32768
  kTail : s.kTail = s.kHead
  sqeHead : s.sqeHead = s.kHead
  sqeTail : s.sqeTail = s.kHead

theorem Fresh.wf {s : SQ} (fresh : s.Fresh) : s.WF where
  sized := fresh.sized
  small := fresh.small
  flushed := fresh.sqeHead.trans fresh.kTail.symm
  visible_le := by rw [fresh.kTail, gap_self]; exact Nat.zero_le _
  pending_le := by rw [fresh.sqeTail, gap_self]; exact Nat.zero_le _
  array_eq := by
    rw [fresh.kTail, gap_self]
    exact fun i hi => absurd hi (Nat.not_lt_zero i)

theorem Fresh.pending {s : SQ} (fresh : s.Fresh) : s.pending = [] := by
  rw [SQ.pending, fresh.sqeTail, window_self]

end SQ

/-- A submission queue that satisfies its invariant. -/
structure SubmissionQueue where
  sq : SQ
  wf : sq.WF

namespace SubmissionQueue

/-- The number of slots. -/
def entries (q : SubmissionQueue) : ℕ := q.sq.kRingEntries.toNat

/-- The SQEs queued and not yet consumed, oldest first. -/
def pending (q : SubmissionQueue) : List SQEntry := q.sq.pending

/-- The SQEs the kernel can read. -/
def visible (q : SubmissionQueue) : List SQEntry := q.sq.visible

/-- A submission queue read as a bounded FIFO with a publication point. -/
def abs (q : SubmissionQueue) : Fifo SQEntry where
  items := q.pending
  published := gap q.sq.kHead q.sq.kTail
  published_le := by
    rw [pending, SQ.length_pending]
    exact q.wf.visible_le

/-- `QueueSQE` on a queue with its invariant. -/
def queueSQE (q : SubmissionQueue) (op : Operation) (flags : UInt8) (userData : UInt64) :
    Option (Option RingError × SubmissionQueue) :=
  match queued : q.sq.queueSQE op flags userData with
  | none => none
  | some (err, sq) => some (err, { sq := sq, wf := q.wf.queueSQE queued })

/-- What a panic of `PrepSQE` leaves, on a queue with its invariant. -/
def abandonSQE (q : SubmissionQueue) : SubmissionQueue :=
  { sq := q.sq.abandonSQE, wf := q.wf.abandonSQE }

/-- `flushSQ` on a queue with its invariant. -/
def flushSQ (q : SubmissionQueue) : UInt32 × SubmissionQueue :=
  (q.sq.flushSQ.1, { sq := q.sq.flushSQ.2, wf := q.wf.flushSQ })

/-- A kernel step on a queue with its invariant. -/
def kernelConsume (q : SubmissionQueue) : Option (SQEntry × SubmissionQueue) :=
  match consumed : q.sq.kernelConsume with
  | none => none
  | some (sqe, sq) => some (sqe, { sq := sq, wf := (q.wf.kernelConsume_spec consumed).1 })

/-- The kernel changes the ring's flags. -/
def kernelFlags (q : SubmissionQueue) (flags : UInt32) : SubmissionQueue :=
  { sq := { q.sq with kFlags := flags }
    wf :=
      { sized := q.wf.sized
        small := q.wf.small
        flushed := q.wf.flushed
        visible_le := q.wf.visible_le
        pending_le := q.wf.pending_le
        array_eq := q.wf.array_eq } }

theorem visible_isPrefix (q : SubmissionQueue) : q.visible <+: q.pending := by
  rw [visible, pending, q.wf.visible_eq_take]
  exact List.take_prefix _ _

theorem queueSQE_sq {q q' : SubmissionQueue} {op : Operation} {flags : UInt8}
    {userData : UInt64} {err : Option RingError}
    (queued : q.queueSQE op flags userData = some (err, q')) :
    q.sq.queueSQE op flags userData = some (err, q'.sq) := by
  unfold queueSQE at queued
  split at queued
  · cases queued
  · next _ sq raw =>
    rw [Option.some.injEq, Prod.mk.injEq] at queued
    obtain ⟨rfl, rfl⟩ := queued
    exact raw

/-- **`QueueSQE` pushes.**  It reports `ErrSQOverflow` exactly when the FIFO is
at its capacity, and then changes nothing. -/
theorem queueSQE_cases {q q' : SubmissionQueue} {op : Operation} {flags : UInt8}
    {userData : UInt64} {err : Option RingError}
    (queued : q.queueSQE op flags userData = some (err, q')) :
    (q.pending.length = q.entries ∧ err = some .sqOverflow ∧ q' = q) ∨
      (q.pending.length < q.entries ∧ err = none ∧ ∃ sqe,
        op.encode flags userData (q.sq.sqeBuff (q.sq.sqeAddr q.sq.sqeTail)) = some sqe ∧
          q.abs.push q.entries sqe = some q'.abs ∧ q'.visible = q.visible ∧
          q'.entries = q.entries) := by
  have raw := queueSQE_sq queued
  obtain ⟨sq', wf'⟩ := q'
  rcases q.wf.queueSQE_cases raw with ⟨full, rfl, same⟩ | ⟨room, rfl, sqe, encoded, same⟩
  · refine Or.inl ⟨(SQ.length_pending q.sq).trans full, rfl, ?_⟩
    simp only at same
    subst same
    rfl
  · simp only at same
    subst same
    refine Or.inr ⟨(SQ.length_pending q.sq).trans_lt room, rfl, sqe, encoded, ?_, ?_, rfl⟩
    · refine Fifo.push_eq_some_iff.mpr ⟨?_, q.wf.pending_pushSQE room sqe, rfl⟩
      exact (SQ.length_pending q.sq).trans_lt room
    · exact q.wf.visible_pushSQE room sqe

theorem queueSQE_eq_none_iff {q : SubmissionQueue} {op : Operation} {flags : UInt8}
    {userData : UInt64} : q.queueSQE op flags userData = none ↔ ¬ q.sq.Prepares op := by
  rw [← SQ.queueSQE_eq_none_iff]
  unfold queueSQE
  split
  · next raw => exact iff_of_true rfl raw
  · next raw =>
    refine iff_of_false (by rintro ⟨⟩) fun panics => ?_
    rw [raw] at panics
    cases panics

/-- **A panic of `PrepSQE` pushes what the slot held.** -/
theorem abandonSQE_of_panic {q : SubmissionQueue} {op : Operation} {flags : UInt8}
    {userData : UInt64} (panics : q.queueSQE op flags userData = none) :
    q.pending.length < q.entries ∧ q.abandonSQE.pending = q.pending ++ [q.sq.nextSlot] ∧
      q.abandonSQE.visible = q.visible ∧ q.abandonSQE.entries = q.entries := by
  have raw : q.sq.queueSQE op flags userData = none :=
    SQ.queueSQE_eq_none_iff.mpr (queueSQE_eq_none_iff.mp panics)
  obtain ⟨free, eq⟩ := SQ.abandonSQE_of_panic raw
  have room := q.wf.next_le_iff.mp free
  refine ⟨(SQ.length_pending q.sq).trans_lt room, ?_, ?_, ?_⟩
  · show q.sq.abandonSQE.pending = _
    rw [eq]
    exact q.wf.pending_pushSQE room _
  · show q.sq.abandonSQE.visible = _
    rw [eq]
    exact q.wf.visible_pushSQE room _
  · show q.sq.abandonSQE.kRingEntries.toNat = _
    rw [eq]
    rfl

/-- **`flushSQ` publishes.** -/
theorem abs_flushSQ (q : SubmissionQueue) : q.flushSQ.2.abs = q.abs.publish := by
  refine Fifo.ext q.wf.pending_flushSQ ?_
  show gap _ _ = q.sq.pending.length
  rw [← SQ.length_visible, flushSQ, q.wf.visible_flushSQ]

@[simp] theorem pending_flushSQ (q : SubmissionQueue) : q.flushSQ.2.pending = q.pending :=
  congrArg Fifo.items q.abs_flushSQ

@[simp] theorem visible_flushSQ (q : SubmissionQueue) : q.flushSQ.2.visible = q.pending :=
  q.wf.visible_flushSQ

@[simp] theorem entries_flushSQ (q : SubmissionQueue) : q.flushSQ.2.entries = q.entries := by
  obtain ⟨array, eq, -⟩ := q.wf.flushSQ_eq
  simp only [flushSQ, entries, eq]

/-- **The kernel takes.** -/
theorem kernelConsume_spec {q q' : SubmissionQueue} {sqe : SQEntry}
    (consumed : q.kernelConsume = some (sqe, q')) :
    q.abs.take = some (sqe, q'.abs) ∧ q.visible = sqe :: q'.visible ∧
      q'.entries = q.entries := by
  unfold kernelConsume at consumed
  split at consumed
  · cases consumed
  · next head sq raw =>
    rw [Option.some.injEq, Prod.mk.injEq] at consumed
    obtain ⟨rfl, rfl⟩ := consumed
    obtain ⟨wf, pending, visible, -⟩ := q.wf.kernelConsume_spec raw
    refine ⟨Fifo.take_eq_some_iff.mpr ⟨pending, ?_⟩, visible, ?_⟩
    · have lengths := congrArg List.length visible
      rw [SQ.length_visible, List.length_cons, SQ.length_visible] at lengths
      exact lengths
    · rw [entries, entries, SQ.kernelConsume_entries raw]

end SubmissionQueue

end GoUring.Uring
