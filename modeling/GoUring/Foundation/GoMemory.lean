import Mathlib.Data.Nat.Notation
import Mathlib.Logic.Function.Basic

/-!
# Slices and maps with their failures

A slice access outside its length and a write to a nil map end the program.  The
two containers here make those failures visible: an operation that can fail
returns an `Option`, and `none` is the failure.  A read of a nil map and a
deletion from one do not fail.

Elements are kept in functions, so that a container of any size is a small term.
-/

namespace GoMemory

universe u v

/-- A slice: its length and its elements. -/
structure Slice (α : Type u) where
  len : ℕ
  elem : ℕ → α

namespace Slice

variable {α : Type u}

/-- `make([]T, n)` filled with `x`. -/
def make (n : ℕ) (x : α) : Slice α := { len := n, elem := fun _ => x }

/-- `s[i]`. -/
def get (s : Slice α) (i : ℕ) : Option α := if i < s.len then some (s.elem i) else none

/-- `s[i] = x`. -/
def set (s : Slice α) (i : ℕ) (x : α) : Option (Slice α) :=
  if i < s.len then some { s with elem := Function.update s.elem i x } else none

theorem get_of_lt {s : Slice α} {i : ℕ} (lt : i < s.len) : s.get i = some (s.elem i) :=
  if_pos lt

theorem set_of_lt {s : Slice α} {i : ℕ} (lt : i < s.len) (x : α) :
    s.set i x = some { s with elem := Function.update s.elem i x } :=
  if_pos lt

end Slice

/-- A map: nil, or its entries. -/
inductive GoMap (κ : Type u) (ν : Type v)
  | nil
  | entries (find : κ → Option ν)

namespace GoMap

variable {κ : Type u} {ν : Type v}

/-- `make(map[K]V)`. -/
def make : GoMap κ ν := .entries fun _ => none

/-- The entry of a key, if there is one. -/
def find (m : GoMap κ ν) (k : κ) : Option ν :=
  match m with
  | .nil => none
  | .entries f => f k

@[simp] theorem find_nil (k : κ) : (nil : GoMap κ ν).find k = none := rfl

@[simp] theorem find_make (k : κ) : (make : GoMap κ ν).find k = none := rfl

theorem make_ne_nil : (make : GoMap κ ν) ≠ .nil := by simp [make]

variable [DecidableEq κ]

/-- `m[k] = v`; a nil map cannot be written. -/
def write (m : GoMap κ ν) (k : κ) (v : ν) : Option (GoMap κ ν) :=
  match m with
  | .nil => none
  | .entries f => some (.entries (Function.update f k (some v)))

/-- `delete(m, k)`. -/
def delete (m : GoMap κ ν) (k : κ) : GoMap κ ν :=
  match m with
  | .nil => .nil
  | .entries f => .entries (Function.update f k none)

/-- A map that can be written, and what it is afterwards. -/
theorem exists_write {m : GoMap κ ν} (made : m ≠ .nil) (k : κ) (v : ν) :
    ∃ m', m.write k v = some m' ∧ m' ≠ .nil ∧
      m'.find = Function.update m.find k (some v) := by
  cases m with
  | nil => exact absurd rfl made
  | entries f => exact ⟨_, rfl, by simp, rfl⟩

theorem find_delete (m : GoMap κ ν) (k : κ) :
    (m.delete k).find = Function.update m.find k none := by
  cases m with
  | nil =>
      funext j
      simp [delete, Function.update_apply]
  | entries f => rfl

theorem delete_ne_nil {m : GoMap κ ν} (made : m ≠ .nil) (k : κ) : m.delete k ≠ .nil := by
  cases m with
  | nil => exact absurd rfl made
  | entries f => simp [delete]

end GoMap

end GoMemory
