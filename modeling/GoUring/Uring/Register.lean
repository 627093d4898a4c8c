import Mathlib.Data.List.Basic
import Mathlib.Algebra.Group.Nat.Even
import GoUring.Foundation.LittleEndian
import GoUring.Uring.Syscall

/-!
# Registering files

`Ring.RegisterFiles` of `uring/register.go` passes the kernel a pointer to the first
element of a `[]int` and the length of the slice.  An `int` has eight bytes on the
platforms the library is built for, and the kernel reads `nr_args` integers of four: it
gets the low and the high half of the first descriptor, then those of the second one,
and so on, and stops in the middle of the slice (`readWords_memoryOfInts`).

As descriptors are small, every other number the kernel reads is a zero.  The list it
decodes is the list given only if that list is zero from its second place on.
-/

namespace GoUring.Uring

open LittleEndian

/-- The arguments of one call of `io_uring_register`, with the memory `arg` points to. -/
structure RegisterArgs where
  op : ℕ
  arg : List UInt8
  nrArgs : ℕ
  deriving DecidableEq, Repr

/-- `sysRingRegisterFiles`. -/
def sysRingRegisterFiles : ℕ := 2

/-- The bytes of a `[]int` on a 64-bit little-endian platform. -/
def memoryOfInts (ints : List Int64) : List UInt8 :=
  ints.flatMap fun i => bytes 8 i.toUInt64.toNat

/-- `Ring.RegisterFiles`, up to its system call; the address of the first element of an
empty slice is a panic. -/
def registerFiles (descriptors : List Int64) : Option RegisterArgs :=
  if descriptors = [] then none
  else
    some
      { op := sysRingRegisterFiles
        arg := memoryOfInts descriptors
        nrArgs := descriptors.length }

/-- What the kernel reads for `IORING_REGISTER_FILES`: `nr_args` signed integers of four
bytes. -/
def kernelFiles (args : RegisterArgs) : List Int32 :=
  (readWords 4 args.nrArgs args.arg).map Int32.ofNat

/-- The two words an `int` is for a reader of four bytes. -/
def halves (i : Int64) : List ℕ :=
  [i.toUInt64.toNat % 2 ^ 32, i.toUInt64.toNat / 2 ^ 32 % 2 ^ 32]

theorem readWords_memoryOfInts (ints : List Int64) :
    ∀ count ≤ 2 * ints.length,
      readWords 4 count (memoryOfInts ints) = (ints.flatMap halves).take count := by
  induction ints with
  | nil =>
      intro count le
      obtain rfl : count = 0 := Nat.le_zero.mp le
      rfl
  | cons i rest ih =>
      intro count le
      have split : memoryOfInts (i :: rest) =
          bytes 4 i.toUInt64.toNat ++
            (bytes 4 (i.toUInt64.toNat / 256 ^ 4) ++ memoryOfInts rest) := by
        rw [memoryOfInts, List.flatMap_cons, bytes_add 4 4, List.append_assoc]
        rfl
      rw [split]
      match count with
      | 0 => rfl
      | 1 =>
          rw [readWords_append (length_bytes _ _), value_bytes]
          rfl
      | count + 2 =>
          have short : count ≤ 2 * rest.length := by
            rw [List.length_cons] at le
            omega
          rw [readWords_append (length_bytes _ _), readWords_append (length_bytes _ _),
            value_bytes, value_bytes, ih count short]
          rfl

/-- A descriptor that fits four bytes is its low half. -/
theorem map_halves {i : Int64} (nonneg : 0 ≤ i.toInt) (small : i.toInt < 2 ^ 31) :
    (halves i).map (fun word => (Int32.ofNat word).toInt) = [i.toInt, 0] := by
  have word : (i.toUInt64.toNat : ℤ) = i.toInt := by
    have cond := BitVec.toInt_eq_toNat_cond i.toBitVec
    have bound := i.toBitVec.isLt
    change i.toInt = _ at cond
    show (i.toBitVec.toNat : ℤ) = i.toInt
    split at cond
    · exact cond.symm
    · omega
  have fits : i.toUInt64.toNat < 2 ^ 31 := by omega
  have low : i.toUInt64.toNat % 2 ^ 32 = i.toUInt64.toNat := Nat.mod_eq_of_lt (by omega)
  have high : i.toUInt64.toNat / 2 ^ 32 = 0 := Nat.div_eq_of_lt (by omega)
  simp only [halves, low, high, Nat.zero_mod, List.map_cons, List.map_nil]
  rw [Int32.toInt_ofNat_of_lt fits, word]
  rfl

/-! ## Every other word is zero -/

section Spread

/-- Each number followed by a zero. -/
def spread (xs : List ℤ) : List ℤ := xs.flatMap fun x => [x, 0]

theorem getElem?_spread_even (xs : List ℤ) (k : ℕ) : (spread xs)[2 * k]? = xs[k]? := by
  induction xs generalizing k with
  | nil => simp [spread]
  | cons x rest ih =>
      cases k with
      | zero => rfl
      | succ k => exact ih k

theorem getElem?_spread_odd (xs : List ℤ) (k : ℕ) :
    (spread xs)[2 * k + 1]? = xs[k]?.map fun _ => 0 := by
  induction xs generalizing k with
  | nil => simp [spread]
  | cons x rest ih =>
      cases k with
      | zero => rfl
      | succ k => exact ih k

theorem spread_replicate (n : ℕ) : spread (List.replicate n 0) = List.replicate (2 * n) 0 := by
  induction n with
  | zero => rfl
  | succ n ih =>
      rw [List.replicate_succ, spread, List.flatMap_cons]
      rw [spread] at ih
      rw [ih, Nat.mul_succ, List.replicate_succ, List.replicate_succ]
      rfl

/-- A list that reads the same when a zero is put before it and between its elements is
zero: each of its elements is a zero, or stands further to the front as well. -/
theorem take_spread_eq_iff (xs : List ℤ) :
    (0 :: spread xs).take xs.length = xs ↔ ∀ x ∈ xs, x = 0 := by
  constructor
  · intro same
    have zero : ∀ (i : ℕ) (x : ℤ), xs[i]? = some x → x = 0 := by
      intro i
      induction i using Nat.strong_induction_on with
      | _ i ih =>
          intro x here
          obtain ⟨lt, -⟩ := List.getElem?_eq_some_iff.mp here
          have shifted : (0 :: spread xs)[i]? = some x := by
            rw [← here, ← List.getElem?_take_of_lt lt, same]
          match i, ih with
          | 0, _ => exact (Option.some.inj shifted).symm
          | i + 1, ih =>
              rw [List.getElem?_cons_succ] at shifted
              rcases Nat.even_or_odd' i with ⟨k, rfl | rfl⟩
              · rw [getElem?_spread_even] at shifted
                exact ih k (by omega) x shifted
              · rw [getElem?_spread_odd] at shifted
                obtain ⟨-, -, zero⟩ := Option.map_eq_some_iff.mp shifted
                exact zero.symm
    intro x mem
    obtain ⟨i, here⟩ := List.mem_iff_getElem?.mp mem
    exact zero i x here
  · intro zero
    have all : xs = List.replicate xs.length 0 := List.eq_replicate_of_mem zero
    rw [all, spread_replicate, ← List.replicate_succ, List.length_replicate,
      List.take_replicate, Nat.min_eq_left (by omega)]

end Spread

/-- The list the kernel decodes, for descriptors that fit four bytes. -/
theorem kernelFiles_memoryOfInts {descriptors : List Int64}
    (small : ∀ d ∈ descriptors, 0 ≤ d.toInt ∧ d.toInt < 2 ^ 31) (op : ℕ) :
    (kernelFiles
        { op := op, arg := memoryOfInts descriptors, nrArgs := descriptors.length }).map
        Int32.toInt =
      (spread (descriptors.map Int64.toInt)).take descriptors.length := by
  have words : (descriptors.flatMap halves).map (fun word => (Int32.ofNat word).toInt) =
      spread (descriptors.map Int64.toInt) := by
    rw [List.map_flatMap, spread, List.flatMap_map]
    exact List.flatMap_congr fun d mem => map_halves (small d mem).1 (small d mem).2
  have half : descriptors.length ≤ 2 * descriptors.length := by omega
  rw [kernelFiles, List.map_map, readWords_memoryOfInts _ _ half, List.map_take]
  exact congrArg (List.take _) words

/-- **When `RegisterFiles` hands over the descriptors it was given.**  For any non-empty
list of descriptors, the kernel decodes that list exactly if every descriptor after the
first one is 0; a list of one descriptor is such a list. -/
theorem registerFiles_faithful_iff (descriptors : List Int64) (some_file : descriptors ≠ [])
    (small : ∀ d ∈ descriptors, 0 ≤ d.toInt ∧ d.toInt < 2 ^ 31) :
    (∃ args, registerFiles descriptors = some args ∧ args.op = sysRingRegisterFiles ∧
      (kernelFiles args).map Int32.toInt = descriptors.map Int64.toInt) ↔
      ∀ d ∈ descriptors.tail, d = 0 := by
  have call : registerFiles descriptors =
      some
        { op := sysRingRegisterFiles
          arg := memoryOfInts descriptors
          nrArgs := descriptors.length } := if_neg some_file
  have decoded := kernelFiles_memoryOfInts small sysRingRegisterFiles
  obtain ⟨first, rest, rfl⟩ := List.exists_cons_of_ne_nil some_file
  have zeros : (∀ x ∈ rest.map Int64.toInt, x = 0) ↔ ∀ d ∈ rest, d = 0 := by
    simp only [List.forall_mem_map, ← Int64.toInt_inj]
    rfl
  rw [List.tail_cons, ← zeros, ← take_spread_eq_iff, List.length_map]
  have head : (spread ((first :: rest).map Int64.toInt)).take (first :: rest).length =
      first.toInt :: (0 :: spread (rest.map Int64.toInt)).take rest.length := rfl
  rw [head] at decoded
  constructor
  · rintro ⟨args, called, -, same⟩
    rw [call] at called
    cases called
    rw [decoded, List.map_cons] at same
    exact (List.cons.inj same).2
  · intro same
    refine ⟨_, call, rfl, ?_⟩
    rw [decoded, same, List.map_cons]

/-- The law at a list of three descriptors that the kernel does get, and at one of two that
it does not. -/
theorem registerFiles_faithful_iff_three :
    (∃ args, registerFiles [7, 0, 0] = some args ∧ args.op = sysRingRegisterFiles ∧
      (kernelFiles args).map Int32.toInt = [7, 0, 0]) ∧
    ¬ ∃ args, registerFiles [7, 9] = some args ∧ args.op = sysRingRegisterFiles ∧
      (kernelFiles args).map Int32.toInt = [7, 9] :=
  ⟨(registerFiles_faithful_iff [7, 0, 0] (List.cons_ne_nil _ _) (by simp)).mpr (by simp),
    fun faithful => absurd
      ((registerFiles_faithful_iff [7, 9] (List.cons_ne_nil _ _) (by simp)).mp faithful)
      (by simp)⟩

/-- **Two descriptors**: the kernel reads the first one and its high half. -/
theorem registerFiles_loses_second_file :
    (∃ args, registerFiles [7, 8] = some args ∧ (kernelFiles args).map Int32.toInt = [7, 0]) ∧
      ¬ ∃ args, registerFiles [7, 8] = some args ∧
        (kernelFiles args).map Int32.toInt = [7, 8] := by
  refine ⟨⟨_, rfl, by decide⟩, ?_⟩
  rintro ⟨args, called, same⟩
  cases called
  exact absurd same (by decide)

end GoUring.Uring
