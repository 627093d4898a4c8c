import GoUring.Foundation.Handles

/-!
# A heap with a collector

Objects refer to one another and are numbered in the order in which they are made.  A `Heap` says
at which address an object was placed and which object an address names now.  A collector marks a
set of objects that contains the roots and with an object all it refers to, and frees addresses of
objects that are not marked (`collect`); a freed address may be given to a new object.

`Whole` says that what can be reached from the roots is still where it was placed, and is of a kind
`Q` that can be reached at all.  Allocating, changing what an object refers to, and collecting keep
it.

An address that was given to somebody who is not a root of the collector is a `Loan`.  It is
`Intact` as long as the address names the object it was given for.
-/

namespace Collector

open Handles

universe u

/-- The objects made so far, each with the address it was placed at, and what the addresses
name. -/
structure Heap (α : Type u) where
  table : Table
  objects : List (ℕ × α)

variable {α : Type u} (refs : α → List ℕ) (Q : α → Prop) {h : Heap α} {roots : List ℕ}

/-- What can be reached from the roots. -/
inductive Reachable (h : Heap α) (roots : List ℕ) : ℕ → Prop
  | root {k : ℕ} : k ∈ roots → Reachable h roots k
  | edge {j k addr : ℕ} {x : α} :
      Reachable h roots j → h.objects[j]? = some (addr, x) → k ∈ refs x → Reachable h roots k

/-- A set with the roots that is closed under references has all that can be reached. -/
theorem Reachable.least {S : ℕ → Prop} (top : ∀ k ∈ roots, S k)
    (closed : ∀ j addr x, S j → h.objects[j]? = some (addr, x) → ∀ k ∈ refs x, S k) {k : ℕ}
    (reachable : Reachable refs h roots k) : S k := by
  induction reachable with
  | root mem => exact top _ mem
  | edge before found mem ih => exact closed _ _ _ ih found _ mem

namespace Heap

/-- The object `k` is where it was placed, and is a `Q`. -/
def InPlace (h : Heap α) (k : ℕ) : Prop :=
  ∃ addr x, h.objects[k]? = some (addr, x) ∧ h.table addr = some k ∧ Q x

/-- What can be reached is where it was placed, and is a `Q`. -/
def Whole (h : Heap α) (roots : List ℕ) : Prop := ∀ k, Reachable refs h roots k → h.InPlace Q k

/-- A new object. -/
def alloc (h : Heap α) (addr : ℕ) (x : α) : Heap α where
  table := Function.update h.table addr (some h.objects.length)
  objects := h.objects ++ [(addr, x)]

/-- The object `k` changes. -/
def write (h : Heap α) (k : ℕ) (x : α) : Heap α :=
  { h with objects := h.objects.modify k fun entry => (entry.1, x) }

/-- The marked objects contain the roots, and with an object all it refers to. -/
def marks (h : Heap α) (roots marked : List ℕ) : Bool :=
  roots.all (marked.contains ·) &&
    marked.all fun k =>
      match h.objects[k]? with
      | some (_, x) => (refs x).all (marked.contains ·)
      | none => true

/-- The addresses to be freed name no marked object. -/
def spares (h : Heap α) (marked dead : List ℕ) : Bool :=
  dead.all fun addr =>
    match h.table addr with
    | some k => !marked.contains k
    | none => true

/-- The addresses `dead` are freed. -/
def sweep (h : Heap α) (dead : List ℕ) : Heap α :=
  { h with table := fun addr => if dead.contains addr then none else h.table addr }

/-- A collection. -/
def collect (h : Heap α) (roots marked dead : List ℕ) : Option (Heap α) :=
  if h.marks refs roots marked = true ∧ h.spares marked dead = true then some (h.sweep dead)
  else none

variable {refs Q} {h' : Heap α} {roots' marked dead : List ℕ} {addr k : ℕ} {x : α}

theorem objects_alloc_of_lt (lt : k < h.objects.length) :
    (h.alloc addr x).objects[k]? = h.objects[k]? :=
  List.getElem?_append_left lt

theorem objects_alloc_length : (h.alloc addr x).objects[h.objects.length]? = some (addr, x) :=
  List.getElem?_concat_length

theorem length_alloc : (h.alloc addr x).objects.length = h.objects.length + 1 :=
  List.length_append

theorem objects_write_self : (h.write k x).objects[k]? = h.objects[k]?.map fun e => (e.1, x) := by
  rw [write, List.getElem?_modify]
  simp only [if_true]
  rfl

theorem objects_write_of_ne {j : ℕ} (ne : j ≠ k) : (h.write k x).objects[j]? = h.objects[j]? := by
  rw [write, List.getElem?_modify]
  simp only [ne.symm, if_false]
  exact id_map _

theorem InPlace.lt (place : h.InPlace Q k) : k < h.objects.length := by
  obtain ⟨addr, x, found, -⟩ := place
  exact (List.getElem?_eq_some_iff.mp found).1

/-- An object that is in place stays there when another one is made. -/
theorem InPlace.alloc (place : h.InPlace Q k) (free : h.table addr = none) :
    (h.alloc addr x).InPlace Q k := by
  obtain ⟨addr', x', found, named, kind⟩ := place
  refine ⟨addr', x', (objects_alloc_of_lt (List.getElem?_eq_some_iff.mp found).1).trans found, ?_,
    kind⟩
  have other : addr' ≠ addr := by
    rintro rfl
    rw [free] at named
    cases named
  exact (Function.update_of_ne other _ _).trans named

theorem inPlace_alloc_length (kind : Q x) : (h.alloc addr x).InPlace Q h.objects.length :=
  ⟨addr, x, objects_alloc_length, Function.update_self _ _ _, kind⟩

theorem InPlace.write (place : h.InPlace Q k) (j : ℕ) (kind : Q x) :
    (h.write j x).InPlace Q k := by
  obtain ⟨addr, x', found, named, kind'⟩ := place
  by_cases same : k = j
  · subst same
    exact ⟨addr, x, by rw [objects_write_self, found]; rfl, named, kind⟩
  · exact ⟨addr, x', by rw [objects_write_of_ne same, found], named, kind'⟩

/-- Other roots, from which no more can be reached. -/
theorem Whole.change_roots (whole : h.Whole refs Q roots)
    (top : ∀ k ∈ roots', Reachable refs h roots k) : h.Whole refs Q roots' := fun k reachable =>
  whole k (reachable.least refs top fun _ _ _ before found _ mem => .edge before found mem)

/-- **Allocating** at an address that is not in use, by somebody who can reach what the new object
refers to.  The new object can be reached from then on if it is a root, and has to be a `Q` then. -/
theorem Whole.alloc (whole : h.Whole refs Q roots) (free : h.table addr = none)
    (known : ∀ k ∈ refs x, Reachable refs h roots k)
    (top : ∀ k ∈ roots', Reachable refs h roots k ∨ k = h.objects.length ∧ Q x) :
    (h.alloc addr x).Whole refs Q roots' := by
  intro k reachable
  have old : Reachable refs h roots k ∨ k = h.objects.length ∧ Q x := by
    refine reachable.least refs top fun j addr' x' before found k' mem => .inl ?_
    rcases before with before | ⟨rfl, -⟩
    · rw [objects_alloc_of_lt (whole j before).lt] at found
      exact .edge before found mem
    · rw [objects_alloc_length, Option.some.injEq, Prod.mk.injEq] at found
      obtain ⟨rfl, rfl⟩ := found
      exact known k' mem
  rcases old with old | ⟨rfl, kind⟩
  · exact (whole k old).alloc free
  · exact inPlace_alloc_length kind

/-- **Changing an object**, by somebody who can reach what it refers to from now on. -/
theorem Whole.write (whole : h.Whole refs Q roots) (j : ℕ) (kind : Q x)
    (known : ∀ k ∈ refs x, Reachable refs h roots k)
    (top : ∀ k ∈ roots', Reachable refs h roots k) : (h.write j x).Whole refs Q roots' := by
  intro k reachable
  have old : Reachable refs h roots k := by
    refine reachable.least refs top fun i addr x' before found k' mem => ?_
    by_cases same : i = j
    · subst same
      rw [objects_write_self] at found
      obtain ⟨entry, -, eq⟩ := Option.map_eq_some_iff.mp found
      cases eq
      exact known k' mem
    · rw [objects_write_of_ne same] at found
      exact .edge before found mem
  exact (whole k old).write j kind

/-- What can be reached is marked. -/
theorem marked_of_reachable (marked_ok : h.marks refs roots marked = true)
    (reachable : Reachable refs h roots k) : k ∈ marked := by
  simp only [marks, Bool.and_eq_true, List.all_eq_true, List.contains_iff_mem] at marked_ok
  refine reachable.least refs marked_ok.1 fun j addr x before found k' mem => ?_
  have closed := marked_ok.2 j before
  rw [found] at closed
  simp only [List.all_eq_true, List.contains_iff_mem] at closed
  exact closed k' mem

/-- **What a collection does**: it frees no address of an object that can be reached. -/
theorem collect_spec (collected : h.collect refs roots marked dead = some h') :
    h' = h.sweep dead ∧
      ∀ addr k, Reachable refs h roots k → h.table addr = some k → addr ∉ dead := by
  unfold collect at collected
  split at collected
  · next allowed =>
    cases collected
    refine ⟨rfl, fun addr k reachable named mem => ?_⟩
    have spared := allowed.2
    simp only [spares, List.all_eq_true] at spared
    have here := spared addr mem
    rw [named] at here
    simp only [Bool.not_eq_true'] at here
    have there := List.contains_iff_mem.mpr (marked_of_reachable allowed.1 reachable)
    rw [here] at there
    cases there
  · cases collected

theorem table_sweep_of_notMem (live : addr ∉ dead) : (h.sweep dead).table addr = h.table addr := by
  have absent : dead.contains addr = false := by
    rw [← Bool.not_eq_true, List.contains_iff_mem]
    exact live
  show (if dead.contains addr then none else h.table addr) = _
  rw [absent]
  rfl

theorem table_sweep_of_mem (mem : addr ∈ dead) : (h.sweep dead).table addr = none := by
  show (if dead.contains addr then none else h.table addr) = _
  rw [List.contains_iff_mem.mpr mem]
  rfl

/-- **Collecting** keeps what can be reached in place. -/
theorem Whole.collect (whole : h.Whole refs Q roots)
    (collected : h.collect refs roots marked dead = some h') : h'.Whole refs Q roots := by
  obtain ⟨rfl, spared⟩ := collect_spec collected
  intro k reachable
  have old : Reachable refs h roots k := reachable.least refs (fun _ mem => .root mem)
    fun _ _ _ before found _ mem => .edge before found mem
  obtain ⟨addr, x, found, named, kind⟩ := whole k old
  exact ⟨addr, x, found, (table_sweep_of_notMem (spared addr k old named)).trans named, kind⟩

end Heap

/-! ## Loans -/

/-- An address that was given away, and the object it was given for. -/
structure Loan where
  addr : ℕ
  object : ℕ
  deriving DecidableEq, Repr

/-- The address still names the object. -/
def Loan.Intact (l : Loan) (h : Heap α) : Prop := h.table l.addr = some l.object

namespace Loan

variable {refs} {l : Loan} {h' : Heap α} {marked dead : List ℕ} {addr : ℕ} {x : α}

theorem Intact.alloc (intact : l.Intact h) (free : h.table addr = none) :
    l.Intact (h.alloc addr x) := by
  have other : l.addr ≠ addr := by
    rintro rfl
    rw [Intact, free] at intact
    cases intact
  exact (Function.update_of_ne other _ _).trans intact

/-- A loan of an object that can be reached outlives a collection. -/
theorem Intact.collect_of_reachable (intact : l.Intact h)
    (reachable : Reachable refs h roots l.object)
    (collected : h.collect refs roots marked dead = some h') : l.Intact h' := by
  obtain ⟨rfl, spared⟩ := Heap.collect_spec collected
  exact (Heap.table_sweep_of_notMem (spared l.addr l.object reachable intact)).trans intact

/-- So does one whose address is not freed. -/
theorem Intact.collect_of_notMem (intact : l.Intact h) (live : l.addr ∉ dead)
    (collected : h.collect refs roots marked dead = some h') : l.Intact h' := by
  obtain ⟨rfl, -⟩ := Heap.collect_spec collected
  exact (Heap.table_sweep_of_notMem live).trans intact

/-- A loan does not outlive its address. -/
theorem not_intact_collect (freed : l.addr ∈ dead)
    (collected : h.collect refs roots marked dead = some h') : ¬ l.Intact h' := by
  obtain ⟨rfl, -⟩ := Heap.collect_spec collected
  intro intact
  rw [Intact, Heap.table_sweep_of_mem freed] at intact
  cases intact

end Loan

end Collector
