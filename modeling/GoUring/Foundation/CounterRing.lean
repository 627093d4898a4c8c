import Mathlib.Data.List.Nodup
import Mathlib.Data.Nat.ModEq
import Mathlib.Logic.Function.Basic
import Mathlib.Order.CompletePartialOrder
import Mathlib.Order.Interval.Set.Disjoint
import Mathlib.Tactic.Linarith

/-!
# Rings addressed by free-running 32-bit counters

A producer and a consumer share a block of memory through two counters that are
only ever incremented and wrap at `2 ^ 32`.  A counter names a memory cell by
its residue modulo the number of entries, which is a power of two, so the
residue of a wrapped counter is the residue of the true one.

* `Sized entries mask` — a power-of-two size with its mask;
* `Placement n addr` — `addr` sends two counters to the same cell exactly when
  they agree modulo `n`;
* `extent addr stride c` — the bytes of the cell of `c`;
* `gap head tail` — the distance between two counters, read modulo `2 ^ 32`;
* `slots addr head n` — the cells of `n` consecutive counters;
* `window mem addr head tail` — the contents of the cells from `head` up to
  `tail`, oldest first.

The three laws everything above rests on: writing the cell of `tail` and
incrementing `tail` appends one element (`window_push`), moving `head` up by `n`
drops `n` elements (`window_advance`), and a write outside the window is not
seen by it (`window_update_of_notMem`).
-/

namespace CounterRing

universe u

variable {α : Type u}

/-- `entries` is a power of two and `mask` its mask. -/
structure Sized (entries mask : UInt32) : Prop where
  /-- The size is a power of two. -/
  pow : ∃ k : ℕ, entries.toNat = 2 ^ k
  /-- The mask is one less than the size. -/
  mask_eq : mask = entries - 1

namespace Sized

variable {entries mask : UInt32}

theorem pos (sized : Sized entries mask) : 0 < entries.toNat := by
  obtain ⟨k, hk⟩ := sized.pow
  rw [hk]
  exact Nat.two_pow_pos k

theorem exists_lt (sized : Sized entries mask) :
    ∃ k : ℕ, k < 32 ∧ entries.toNat = 2 ^ k := by
  obtain ⟨k, hk⟩ := sized.pow
  have bound := entries.toNat_lt
  rw [hk] at bound
  exact ⟨k, (Nat.pow_lt_pow_iff_right (by decide)).mp bound, hk⟩

theorem dvd (sized : Sized entries mask) : entries.toNat ∣ 2 ^ 32 := by
  obtain ⟨k, hlt, hk⟩ := sized.exists_lt
  rw [hk]
  exact Nat.pow_dvd_pow 2 hlt.le

theorem toNat_mask (sized : Sized entries mask) :
    mask.toNat = entries.toNat - 1 := by
  have hpos := sized.pos
  have bound := entries.toNat_lt
  rw [sized.mask_eq, UInt32.toNat_sub, UInt32.toNat_one]
  omega

/-- Masking a counter is reducing it modulo the size. -/
theorem toNat_and (sized : Sized entries mask) (c : UInt32) :
    (c &&& mask).toNat = c.toNat % entries.toNat := by
  obtain ⟨k, -, hk⟩ := sized.exists_lt
  rw [UInt32.toNat_and, sized.toNat_mask, hk, Nat.and_two_pow_sub_one_eq_mod]

end Sized

/-- `addr` places `n` cells on the counter circle: two counters share a cell
exactly when they agree modulo `n`. -/
structure Placement (n : ℕ) (addr : UInt32 → ℕ) : Prop where
  pos : 0 < n
  dvd : n ∣ 2 ^ 32
  lt : n < 2 ^ 32
  addr_eq_iff : ∀ c d : UInt32, addr c = addr d ↔ c.toNat % n = d.toNat % n

/-- Cells of equal size laid out from `0`, the offset computed in 64 bits or
more. -/
theorem placement_strided {entries mask : UInt32} (sized : Sized entries mask)
    {stride : ℕ} (hstride : 0 < stride) :
    Placement entries.toNat fun c => (c &&& mask).toNat * stride where
  pos := sized.pos
  dvd := sized.dvd
  lt := entries.toNat_lt
  addr_eq_iff c d := by
    rw [Nat.mul_left_inj hstride.ne', sized.toNat_and, sized.toNat_and]

/-- Cells of equal size laid out from `0`, the offset computed in 32 bits: the
product does not wrap as long as the whole block is addressable. -/
theorem toNat_and_mul {entries mask : UInt32} (sized : Sized entries mask)
    {stride : UInt32} (fits : entries.toNat * stride.toNat ≤ 2 ^ 32)
    (c : UInt32) :
    ((c &&& mask) * stride).toNat = c.toNat % entries.toNat * stride.toNat := by
  rw [UInt32.toNat_mul, sized.toNat_and]
  rcases Nat.eq_zero_or_pos stride.toNat with hzero | hstride
  · simp [hzero]
  · refine Nat.mod_eq_of_lt (lt_of_lt_of_le ?_ fits)
    exact Nat.mul_lt_mul_of_pos_right (Nat.mod_lt _ sized.pos) hstride

theorem placement_strided32 {entries mask : UInt32} (sized : Sized entries mask)
    {stride : UInt32} (hstride : 0 < stride.toNat)
    (fits : entries.toNat * stride.toNat ≤ 2 ^ 32) :
    Placement entries.toNat fun c => ((c &&& mask) * stride).toNat where
  pos := sized.pos
  dvd := sized.dvd
  lt := entries.toNat_lt
  addr_eq_iff c d := by
    rw [toNat_and_mul sized fits, toNat_and_mul sized fits,
      Nat.mul_left_inj hstride.ne']

/-! ## Bytes of a cell -/

/-- The bytes of the cell of a counter, every cell being `stride` bytes long. -/
def extent (addr : UInt32 → ℕ) (stride : ℕ) (c : UInt32) : Set ℕ :=
  Set.Ico (addr c) (addr c + stride)

/-- `addr` lays `n` cells of `stride` bytes side by side. -/
def Strided (n stride : ℕ) (addr : UInt32 → ℕ) : Prop :=
  ∀ c, addr c = c.toNat % n * stride

namespace Strided

variable {n stride : ℕ} {addr : UInt32 → ℕ}

/-- No cell reaches beyond the block. -/
theorem add_le (laid : Strided n stride addr) (pos : 0 < n) (c : UInt32) :
    addr c + stride ≤ n * stride := by
  have below : c.toNat % n + 1 ≤ n := Nat.mod_lt _ pos
  calc addr c + stride = (c.toNat % n + 1) * stride := by rw [laid c, Nat.succ_mul]
    _ ≤ n * stride := Nat.mul_le_mul_right stride below

theorem extent_eq (laid : Strided n stride addr) {c d : UInt32}
    (same : c.toNat % n = d.toNat % n) : extent addr stride c = extent addr stride d := by
  rw [extent, extent, laid c, laid d, same]

/-- Counters that disagree modulo `n` have cells without a common byte. -/
theorem disjoint_extent (laid : Strided n stride addr) {c d : UInt32}
    (apart : c.toNat % n ≠ d.toNat % n) :
    Disjoint (extent addr stride c) (extent addr stride d) := by
  have ordered : ∀ {i j : ℕ}, i < j → i * stride + stride ≤ j * stride := by
    intro i j lt
    rw [← Nat.succ_mul]
    exact Nat.mul_le_mul_right stride lt
  rw [extent, extent, laid c, laid d, Set.Ico_disjoint_Ico]
  rcases Nat.lt_or_gt_of_ne apart with lt | gt
  · exact (min_le_left _ _).trans ((ordered lt).trans (le_max_right _ _))
  · exact (min_le_right _ _).trans ((ordered gt).trans (le_max_left _ _))

end Strided

theorem strided_and_mul {entries mask : UInt32} (sized : Sized entries mask) (stride : ℕ) :
    Strided entries.toNat stride fun c => (c &&& mask).toNat * stride := fun c =>
  congrArg (· * stride) (sized.toNat_and c)

theorem strided_and_mul32 {entries mask : UInt32} (sized : Sized entries mask)
    {stride : UInt32} (fits : entries.toNat * stride.toNat ≤ 2 ^ 32) :
    Strided entries.toNat stride.toNat fun c => ((c &&& mask) * stride).toNat :=
  toNat_and_mul sized fits

/-! ## Distances -/

/-- How far `tail` is ahead of `head`, on the counter circle. -/
def gap (head tail : UInt32) : ℕ := (tail - head).toNat

@[simp] theorem gap_self (c : UInt32) : gap c c = 0 := by simp [gap]

theorem gap_lt (head tail : UInt32) : gap head tail < 2 ^ 32 :=
  (tail - head).toNat_lt

theorem toNat_add_ofNat (c : UInt32) (i : ℕ) :
    (c + UInt32.ofNat i).toNat = (c.toNat + i) % 2 ^ 32 := by
  simp [UInt32.toNat_add]

theorem add_ofNat_gap (head tail : UInt32) :
    head + UInt32.ofNat (gap head tail) = tail := by
  rw [gap, UInt32.ofNat_toNat, UInt32.add_comm, UInt32.sub_add_cancel]

theorem add_ofNat_add (c : UInt32) (i j : ℕ) :
    c + UInt32.ofNat i + UInt32.ofNat j = c + UInt32.ofNat (i + j) := by
  rw [UInt32.add_assoc, UInt32.ofNat_add]

theorem gap_add_ofNat (c : UInt32) {i : ℕ} (hi : i < 2 ^ 32) :
    gap c (c + UInt32.ofNat i) = i := by
  rw [gap, UInt32.add_comm, UInt32.add_sub_cancel]
  exact UInt32.toNat_ofNat_of_lt' hi

theorem gap_add_one {head tail : UInt32} (room : gap head tail + 1 < 2 ^ 32) :
    gap head (tail + 1) = gap head tail + 1 := by
  have moved : tail + 1 = head + UInt32.ofNat (gap head tail + 1) := by
    rw [← add_ofNat_add, add_ofNat_gap]
    rfl
  rw [moved, gap_add_ofNat head room]

theorem gap_advance {head tail : UInt32} {n : ℕ} (le : n ≤ gap head tail) :
    gap (head + UInt32.ofNat n) tail = gap head tail - n := by
  have bound := gap_lt head tail
  obtain ⟨m, hm⟩ := Nat.exists_eq_add_of_le le
  have target : tail = head + UInt32.ofNat n + UInt32.ofNat m := by
    rw [add_ofNat_add, ← hm, add_ofNat_gap]
  rw [hm, Nat.add_sub_cancel_left]
  conv_lhs => rw [target]
  exact gap_add_ofNat _ (by omega)

theorem gap_eq_zero_iff {head tail : UInt32} : gap head tail = 0 ↔ head = tail := by
  constructor
  · intro zero
    have back := add_ofNat_gap head tail
    rw [zero] at back
    simpa using back
  · rintro rfl
    exact gap_self head

/-! ## Cells of consecutive counters -/

/-- The cells of the `n` counters from `head` on. -/
def slots (addr : UInt32 → ℕ) (head : UInt32) (n : ℕ) : List ℕ :=
  (List.range n).map fun i => addr (head + UInt32.ofNat i)

section Slots

variable {addr : UInt32 → ℕ} {head : UInt32}

@[simp] theorem slots_zero : slots addr head 0 = [] := rfl

@[simp] theorem length_slots (n : ℕ) : (slots addr head n).length = n := by
  simp [slots]

theorem slots_succ (n : ℕ) :
    slots addr head (n + 1) =
      slots addr head n ++ [addr (head + UInt32.ofNat n)] := by
  simp [slots, List.range_succ]

theorem slots_add (n m : ℕ) :
    slots addr head (n + m) =
      slots addr head n ++ slots addr (head + UInt32.ofNat n) m := by
  induction m with
  | zero => simp
  | succ m ih =>
      rw [← Nat.add_assoc, slots_succ, slots_succ, ih, List.append_assoc,
        add_ofNat_add]

theorem getElem_slots {n i : ℕ} (hi : i < (slots addr head n).length) :
    (slots addr head n)[i] = addr (head + UInt32.ofNat i) := by
  simp [slots]

theorem take_slots {n m : ℕ} (le : n ≤ m) :
    (slots addr head m).take n = slots addr head n := by
  obtain ⟨k, rfl⟩ := Nat.exists_eq_add_of_le le
  rw [slots_add]
  exact List.take_left' (length_slots n)

theorem drop_slots (n m : ℕ) :
    (slots addr head (n + m)).drop n = slots addr (head + UInt32.ofNat n) m := by
  rw [slots_add]
  exact List.drop_left' (length_slots n)

/-- Fewer than `n` counters apart, distinct counters have distinct cells. -/
theorem Placement.add_inj {n i j : ℕ} (placed : Placement n addr) (hi : i < n)
    (hj : j < n)
    (same : addr (head + UInt32.ofNat i) = addr (head + UInt32.ofNat j)) :
    i = j := by
  rw [placed.addr_eq_iff, toNat_add_ofNat, toNat_add_ofNat,
    Nat.mod_mod_of_dvd _ placed.dvd, Nat.mod_mod_of_dvd _ placed.dvd] at same
  have cancelled : i ≡ j [MOD n] := Nat.ModEq.add_left_cancel' head.toNat same
  exact cancelled.eq_of_lt_of_lt hi hj

/-- Different counters that are fewer than `n` apart have different cells, whichever is ahead. -/
theorem Placement.ne_of_near {n i j : ℕ} (placed : Placement n addr) (base : UInt32)
    (apart : i ≠ j) (hi : i < j + n) (hj : j < i + n) :
    addr (base + UInt32.ofNat i) ≠ addr (base + UInt32.ofNat j) := by
  have ahead : ∀ {a b : ℕ}, a < b → b < a + n →
      addr (base + UInt32.ofNat a) ≠ addr (base + UInt32.ofNat b) := by
    intro a b lt near same
    obtain ⟨d, rfl⟩ := Nat.exists_eq_add_of_lt lt
    have shifted : addr (base + UInt32.ofNat a + UInt32.ofNat 0) =
        addr (base + UInt32.ofNat a + UInt32.ofNat (d + 1)) := by
      rw [add_ofNat_add, add_ofNat_add]
      exact same
    have := placed.add_inj placed.pos (by omega) shifted
    omega
  rcases Nat.lt_or_gt_of_ne apart with lt | gt
  · exact ahead lt hj
  · exact (ahead gt hi).symm

theorem Placement.notMem_slots {n m : ℕ} (placed : Placement n addr)
    (head : UInt32) (hm : m < n) :
    addr (head + UInt32.ofNat m) ∉ slots addr head m := by
  intro mem
  obtain ⟨i, hi, same⟩ := List.mem_map.mp mem
  have hlt : i < m := List.mem_range.mp hi
  exact absurd (placed.add_inj (hlt.trans hm) hm same) hlt.ne

end Slots

/-! ## The contents of a window -/

/-- The contents of the cells from `head` up to `tail`, oldest first. -/
def window (mem : ℕ → α) (addr : UInt32 → ℕ) (head tail : UInt32) : List α :=
  (slots addr head (gap head tail)).map mem

section Window

variable {mem : ℕ → α} {addr : UInt32 → ℕ} {head tail : UInt32}

@[simp] theorem window_self (c : UInt32) : window mem addr c c = [] := by
  simp [window]

@[simp] theorem length_window :
    (window mem addr head tail).length = gap head tail := by
  simp [window]

theorem getElem_window {i : ℕ} (hi : i < (window mem addr head tail).length) :
    (window mem addr head tail)[i] = mem (addr (head + UInt32.ofNat i)) := by
  simp [window, getElem_slots]

theorem window_update_of_notMem (mem : ℕ → α) {a : ℕ} (x : α)
    (outside : a ∉ slots addr head (gap head tail)) :
    window (Function.update mem a x) addr head tail =
      window mem addr head tail := by
  refine List.map_congr_left fun b hb => ?_
  rw [Function.update_of_ne]
  rintro rfl
  exact outside hb

/-- **Producing.**  Writing the cell of `tail` and incrementing `tail` appends,
as long as the window does not fill the ring. -/
theorem window_push {n : ℕ} (placed : Placement n addr)
    (room : gap head tail < n) (x : α) :
    window (Function.update mem (addr tail) x) addr head (tail + 1) =
      window mem addr head tail ++ [x] := by
  have small : gap head tail + 1 < 2 ^ 32 := by
    have := placed.lt
    omega
  have fresh : addr tail ∉ slots addr head (gap head tail) := by
    have := placed.notMem_slots head room
    rwa [add_ofNat_gap] at this
  have old := window_update_of_notMem mem x fresh
  unfold window at old ⊢
  rw [gap_add_one small, slots_succ, add_ofNat_gap, List.map_append, old]
  simp

/-- **Consuming.**  Moving `head` up by `n` drops the `n` oldest. -/
theorem window_advance {n : ℕ} (le : n ≤ gap head tail) :
    window mem addr (head + UInt32.ofNat n) tail =
      (window mem addr head tail).drop n := by
  obtain ⟨m, hm⟩ := Nat.exists_eq_add_of_le le
  rw [window, window, gap_advance le, hm, Nat.add_sub_cancel_left,
    ← List.map_drop, drop_slots]

end Window

end CounterRing
