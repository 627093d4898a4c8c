import Mathlib.Algebra.Order.Group.Multiset

/-!
# Custody of resources

A process takes resources and gives them back; a `Ledger` is what it holds now, together
with all it has taken and given back so far.

`Takes l l' kept gone` accounts for a piece of code that leads from `l` to `l'`: it has taken
`kept` and `gone`, and given `gone` back.  Pieces of code compose (`Takes.trans`), and what is
given back later moves from `kept` to `gone` (`Takes.release`).
-/

namespace Custody

universe u

variable {α : Type u}

/-- What is held, and what was taken and given back so far. -/
structure Ledger (α : Type u) where
  live : Multiset α
  acquired : Multiset α
  released : Multiset α

/-- Nothing was taken yet; `live` is held from before. -/
def Ledger.start (live : Multiset α) : Ledger α where
  live := live
  acquired := 0
  released := 0

def Ledger.acquire (l : Ledger α) (a : α) : Ledger α :=
  { l with
    live := a ::ₘ l.live
    acquired := a ::ₘ l.acquired }

def Ledger.release [DecidableEq α] (l : Ledger α) (a : α) : Ledger α :=
  { l with
    live := l.live.erase a
    released := a ::ₘ l.released }

/-- Nothing that was taken is still held, and each was given back exactly once. -/
def LeakFree [DecidableEq α] (l : Ledger α) : Prop :=
  ∀ a ∈ l.acquired, a ∉ l.live ∧ l.released.count a = 1

/-- From `l` to `l'`, `kept` and `gone` were taken, and `gone` was given back. -/
structure Takes (l l' : Ledger α) (kept gone : Multiset α) : Prop where
  live : l'.live = kept + l.live
  acquired : l'.acquired = kept + gone + l.acquired
  released : l'.released = gone + l.released

namespace Takes

variable {l l' l'' : Ledger α} {kept kept' gone gone' : Multiset α} {a : α}

theorem refl (l : Ledger α) : Takes l l 0 0 := by
  constructor <;> simp

theorem acquire (l : Ledger α) (a : α) : Takes l (l.acquire a) {a} 0 := by
  constructor <;> simp [Ledger.acquire]

/-- **One piece of code after the other.** -/
theorem trans (first : Takes l l' kept gone) (second : Takes l' l'' kept' gone') :
    Takes l l'' (kept' + kept) (gone' + gone) where
  live := by rw [second.live, first.live, add_assoc]
  acquired := by
    rw [second.acquired, first.acquired, ← add_assoc]
    congr 1
    exact add_add_add_comm kept' gone' kept gone
  released := by rw [second.released, first.released, add_assoc]

/-- **Giving back** what is in custody. -/
theorem release [DecidableEq α] (held : Takes l l' (a ::ₘ kept) gone) :
    Takes l (l'.release a) kept (a ::ₘ gone) where
  live := by
    show l'.live.erase a = kept + l.live
    rw [held.live, Multiset.cons_add, Multiset.erase_cons_head]
  acquired := by
    show l'.acquired = _
    rw [held.acquired, Multiset.cons_add, Multiset.add_cons]
  released := by
    show a ::ₘ l'.released = _
    rw [held.released, Multiset.cons_add]

/-- Whoever still holds something it took has a leak. -/
theorem eq_zero_of_leakFree [DecidableEq α] (held : Takes l l' kept gone)
    (clean : LeakFree l') : kept = 0 := by
  apply Multiset.eq_zero_of_forall_notMem
  intro a mem
  have acquired : a ∈ l'.acquired := by
    rw [held.acquired]
    exact Multiset.mem_add.mpr (Or.inl (Multiset.mem_add.mpr (Or.inl mem)))
  apply (clean a acquired).1
  rw [held.live]
  exact Multiset.mem_add.mpr (Or.inl mem)

end Takes

end Custody
