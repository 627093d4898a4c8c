import Mathlib.Logic.Relation

/-!
# Who waits for whom

Threads that wait at locks, and locks that are held by threads.  A thread waits for
another one if the lock it waits at is held by the other, and the threads are
deadlocked if some of them wait for each other in a circle; a thread that waits at
a lock it holds itself is the shortest such circle.

Acyclicity is a property of relations.  It survives a new edge that nothing leads
back from (`Acyclic.insert`), which is how it is kept while the threads take and leave
locks, and the graph of the threads has it as soon as the graph of the locks does
(`acyclic_waitsFor`).
-/

namespace WaitGraph

open Relation

variable {α : Type*} {r r' : α → α → Prop} {a b : α}

/-- No path of the relation comes back to where it started. -/
def Acyclic (r : α → α → Prop) : Prop := ∀ a, ¬ TransGen r a a

/-- A relation with fewer edges. -/
theorem Acyclic.mono (acyclic : Acyclic r) (fewer : ∀ x y, r' x y → r x y) : Acyclic r' :=
  fun a cycle => acyclic a (TransGen.mono fewer a a cycle)

/-- The paths of a relation with one more edge, from `a` to `b`: the old ones, and
those that take the new edge. -/
theorem transGen_insert (noWay : ¬ ReflTransGen r b a)
    (more : ∀ x y, r' x y → r x y ∨ (x = a ∧ y = b)) {x y : α} (path : TransGen r' x y) :
    TransGen r x y ∨ (ReflTransGen r x a ∧ ReflTransGen r b y) := by
  induction path with
  | single edge =>
      rcases more _ _ edge with old | ⟨rfl, rfl⟩
      · exact Or.inl (.single old)
      · exact Or.inr ⟨.refl, .refl⟩
  | tail before edge ih =>
      rcases more _ _ edge with old | ⟨rfl, rfl⟩
      · rcases ih with before | ⟨there, back⟩
        · exact Or.inl (before.tail old)
        · exact Or.inr ⟨there, back.tail old⟩
      · rcases ih with before | ⟨-, back⟩
        · exact Or.inr ⟨before.to_reflTransGen, .refl⟩
        · -- The new edge would be taken twice.
          exact absurd back noWay

/-- **A new edge closes no cycle if nothing leads back from its end.** -/
theorem Acyclic.insert (acyclic : Acyclic r) (noWay : ¬ ReflTransGen r b a)
    (more : ∀ x y, r' x y → r x y ∨ (x = a ∧ y = b)) : Acyclic r' := by
  intro x cycle
  rcases transGen_insert noWay more cycle with old | ⟨there, back⟩
  · exact acyclic x old
  · exact noWay (back.trans there)

section Locks

variable {Thread Lock : Type*} {waitsAt : Thread → Lock → Prop} {heldBy : Lock → Thread → Prop}
  {leads : Lock → Lock → Prop}

/-- The first thread waits at a lock that the second one holds. -/
def WaitsFor (waitsAt : Thread → Lock → Prop) (heldBy : Lock → Thread → Prop)
    (t u : Thread) : Prop :=
  ∃ x, waitsAt t x ∧ heldBy x u

/-- Along the threads that wait for each other, the locks they wait at lead on. -/
theorem transGen_leads (one : ∀ t x y, waitsAt t x → waitsAt t y → x = y)
    (next : ∀ x t y, heldBy x t → waitsAt t y → leads x y) {t u : Thread} {x y : Lock}
    (path : TransGen (WaitsFor waitsAt heldBy) t u) (first : waitsAt t x)
    (last : waitsAt u y) : TransGen leads x y := by
  induction path generalizing y with
  | single edge =>
      obtain ⟨z, waits, held⟩ := edge
      cases one _ _ _ first waits
      exact .single (next _ _ _ held last)
  | tail before edge ih =>
      obtain ⟨z, waits, held⟩ := edge
      exact (ih waits).tail (next _ _ _ held last)

/-- **No deadlock.**  If every thread waits at one lock at a time, and the locks, read
as "whoever holds this one waits at that one", are in no circle, then neither are
the threads. -/
theorem acyclic_waitsFor (one : ∀ t x y, waitsAt t x → waitsAt t y → x = y)
    (next : ∀ x t y, heldBy x t → waitsAt t y → leads x y) (acyclic : Acyclic leads) :
    Acyclic (WaitsFor waitsAt heldBy) := by
  intro t cycle
  obtain ⟨u, ⟨x, waits, -⟩, -⟩ := TransGen.head'_iff.mp cycle
  exact acyclic x (transGen_leads one next cycle waits waits)

end Locks

end WaitGraph
