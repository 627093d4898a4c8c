import Mathlib.Algebra.Order.Ring.Nat
import Mathlib.Data.Nat.ModEq

/-!
# Words in memory

A number stored in `width` bytes, least significant byte first, and a block of memory
read as a sequence of such words.  Writer and reader need not agree on the width:
`bytes_add` cuts a wide word into narrower ones, and `readWords_append` says what a
reader gets who reads word after word.
-/

namespace LittleEndian

/-- The `width` low bytes of `n`, least significant first. -/
def bytes : ℕ → ℕ → List UInt8
  | 0, _ => []
  | width + 1, n => UInt8.ofNat n :: bytes width (n / 256)

/-- The number a block of bytes stands for. -/
def value : List UInt8 → ℕ
  | [] => 0
  | byte :: rest => byte.toNat + 256 * value rest

@[simp] theorem length_bytes (width n : ℕ) : (bytes width n).length = width := by
  induction width generalizing n with
  | zero => rfl
  | succ width ih => rw [bytes, List.length_cons, ih]

/-- Storing a number loses what does not fit. -/
theorem value_bytes (width n : ℕ) : value (bytes width n) = n % 256 ^ width := by
  induction width generalizing n with
  | zero => exact (Nat.mod_one n).symm
  | succ width ih =>
      have first : (UInt8.ofNat n).toNat = n % 256 := UInt8.toNat_ofNat'
      rw [bytes, value, ih, first, pow_succ', Nat.mod_mul]

/-- A wide word is two narrower ones, the low one first. -/
theorem bytes_add (low high n : ℕ) :
    bytes (low + high) n = bytes low n ++ bytes high (n / 256 ^ low) := by
  induction low generalizing n with
  | zero => simp [bytes]
  | succ low ih =>
      rw [Nat.succ_add, bytes, ih, bytes, Nat.div_div_eq_div_mul, ← pow_succ',
        List.cons_append]

/-- The first `count` words of a block of memory. -/
def readWords (width : ℕ) : ℕ → List UInt8 → List ℕ
  | 0, _ => []
  | count + 1, memory => value (memory.take width) :: readWords width count (memory.drop width)

/-- The first word read is the first one written. -/
theorem readWords_append {width : ℕ} {word : List UInt8} (length : word.length = width)
    (count : ℕ) (memory : List UInt8) :
    readWords width (count + 1) (word ++ memory) = value word :: readWords width count memory := by
  subst length
  rw [readWords, List.take_left, List.drop_left]

end LittleEndian
