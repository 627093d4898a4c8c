import Mathlib.Data.List.Induction

/-!
# Store buffers

On a processor with total store order a store does not reach memory at once.  It waits in a
buffer, the buffer is drained oldest store first, and until then only the processor itself sees
it.  `Buffered` is memory with the buffer of one processor, over any type of memories and any
type of stores; `own` is what this processor sees.

Others see memory as it is now, and will see it as it is after each store drained.  `Ascending R`
says that draining goes up in `R`, one store after the other.  It is kept by a drain and by a
fence, and a store is allowed if it goes up from what the processor itself sees
(`Ascending.issue`); what others see is then below what the processor sees
(`Ascending.memory_own`).
-/

namespace StoreBuffer

universe u v

variable {M : Type u} {W : Type v}

/-- Memory, and the stores of one processor that have not reached it, oldest first. -/
structure Buffered (M : Type u) (W : Type v) where
  memory : M
  buffer : List W

section

variable (write : W → M → M)

/-- Memory after some stores. -/
def commit (ws : List W) (m : M) : M := ws.foldl (fun m w => write w m) m

@[simp] theorem commit_nil (m : M) : commit write [] m = m := rfl

@[simp] theorem commit_cons (w : W) (ws : List W) (m : M) :
    commit write (w :: ws) m = commit write ws (write w m) := rfl

theorem commit_append (ws ws' : List W) (m : M) :
    commit write (ws ++ ws') m = commit write ws' (commit write ws m) :=
  List.foldl_append

/-- A change of memory by others that no store looks at. -/
theorem commit_env {f : M → M} (apart : ∀ w m, write w (f m) = f (write w m)) :
    ∀ (ws : List W) (m : M), commit write ws (f m) = f (commit write ws m) := by
  intro ws
  induction ws with
  | nil => exact fun m => rfl
  | cons w ws ih =>
      intro m
      rw [commit_cons, apart, ih, commit_cons]

namespace Buffered

/-- What the processor itself sees. -/
def own (b : Buffered M W) : M := commit write b.buffer b.memory

/-- The processor stores. -/
def issue (b : Buffered M W) (ws : List W) : Buffered M W :=
  { b with buffer := b.buffer ++ ws }

/-- The oldest store reaches memory. -/
def drain (b : Buffered M W) : Option (Buffered M W) :=
  match b.buffer with
  | [] => none
  | w :: rest => some { memory := write w b.memory, buffer := rest }

/-- All stores reach memory. -/
def fence (b : Buffered M W) : Buffered M W := { memory := b.own write, buffer := [] }

/-- Others change memory. -/
def env (b : Buffered M W) (f : M → M) : Buffered M W := { b with memory := f b.memory }

theorem issue_nil (b : Buffered M W) : b.issue [] = b := by
  rw [issue, List.append_nil]

theorem own_issue (b : Buffered M W) (ws : List W) :
    (b.issue ws).own write = commit write ws (b.own write) :=
  commit_append write _ _ _

theorem own_drain {b b' : Buffered M W} (drained : b.drain write = some b') :
    b'.own write = b.own write := by
  unfold drain at drained
  split at drained
  · cases drained
  · next w rest buffer =>
    cases drained
    rw [own, own, buffer, commit_cons]

theorem own_fence (b : Buffered M W) : (b.fence write).own write = b.own write := rfl

theorem own_env {f : M → M} (apart : ∀ w m, write w (f m) = f (write w m))
    (b : Buffered M W) : (b.env f).own write = f (b.own write) :=
  commit_env write apart _ _

end Buffered

/-- **Draining goes up in `R`.** -/
def Ascending (R : M → M → Prop) (b : Buffered M W) : Prop :=
  ∀ done w rest, b.buffer = done ++ w :: rest →
    R (commit write done b.memory) (write w (commit write done b.memory))

end

namespace Ascending

variable {write : W → M → M} {R : M → M → Prop} {b b' : Buffered M W}

theorem drain (up : Ascending write R b) (drained : b.drain write = some b') :
    Ascending write R b' := by
  unfold Buffered.drain at drained
  split at drained
  · cases drained
  · next first others buffer =>
    cases drained
    intro done w rest split
    refine up (first :: done) w rest ?_
    rw [buffer, List.cons_append]
    exact congrArg _ split

theorem fence (b : Buffered M W) : Ascending write R (b.fence write) := by
  intro done w rest split
  simp [Buffered.fence] at split

/-- Stores that go up from what the processor itself sees may be issued. -/
theorem issue {ws : List W} (up : Ascending write R b)
    (more : Ascending write R { memory := b.own write, buffer := ws }) :
    Ascending write R (b.issue ws) := by
  intro done w rest split
  rcases List.append_eq_append_iff.mp split with ⟨new, rfl, tail⟩ | ⟨left, buffer, tail⟩
  · -- The store is one of the new ones.
    rw [show (b.issue ws).memory = b.memory from rfl, commit_append]
    exact more new w rest tail
  · cases left with
    | nil =>
        rw [List.nil_append] at tail
        rw [List.append_nil] at buffer
        have first := more [] w rest tail.symm
        rw [commit_nil] at first
        rw [show (b.issue ws).memory = b.memory from rfl, ← buffer]
        exact first
    | cons w' left =>
        rw [List.cons_append, List.cons.injEq] at tail
        obtain ⟨rfl, -⟩ := tail
        exact up done w left buffer

/-- One store after the other, each going up. -/
theorem of_forall {P : M → Prop} {ws : List W} {m : M} (start : P m)
    (kept : ∀ w ∈ ws, ∀ m, P m → P (write w m) ∧ R m (write w m)) :
    Ascending write R { memory := m, buffer := ws } := by
  intro done w rest split
  change ws = _ at split
  subst split
  have holds : P (commit write done m) := by
    have earlier : ∀ w' ∈ done, ∀ m, P m → P (write w' m) := fun w' mem m hm =>
      (kept w' (List.mem_append_left _ mem) m hm).1
    clear kept
    induction done generalizing m with
    | nil => exact start
    | cons first done ih =>
        rw [commit_cons]
        exact ih (earlier first (List.mem_cons_self ..) m start) fun w' mem =>
          earlier w' (List.mem_cons_of_mem _ mem)
  exact (kept w (by simp) _ holds).2

/-- Draining goes up in another relation. -/
theorem imp {R' : M → M → Prop} (up : Ascending write R b)
    (weaker : ∀ done w rest, b.buffer = done ++ w :: rest →
      R (commit write done b.memory) (write w (commit write done b.memory)) →
      R' (commit write done b.memory) (write w (commit write done b.memory))) :
    Ascending write R' b :=
  fun done w rest split => weaker done w rest split (up done w rest split)

/-- Memory is below memory at any later point of draining. -/
theorem memory_commit (refl : ∀ m, R m m) (trans : ∀ m m' m'', R m m' → R m' m'' → R m m'')
    (up : Ascending write R b) {done rest : List W} (split : b.buffer = done ++ rest) :
    R b.memory (commit write done b.memory) := by
  induction done using List.reverseRecOn generalizing rest with
  | nil => exact refl _
  | append_singleton done w ih =>
      rw [List.append_assoc, List.singleton_append] at split
      have last := up done w rest split
      rw [commit_append, commit_cons, commit_nil]
      exact trans _ _ _ (ih split) last

/-- What others see is below what the processor sees. -/
theorem memory_own (refl : ∀ m, R m m) (trans : ∀ m m' m'', R m m' → R m' m'' → R m m'')
    (up : Ascending write R b) : R b.memory (b.own write) :=
  up.memory_commit refl trans (List.append_nil _).symm

/-- A change by others that no store looks at and that keeps the relation. -/
theorem env {f : M → M} (apart : ∀ w m, write w (f m) = f (write w m))
    (kept : ∀ m m', R m m' → R (f m) (f m')) (up : Ascending write R b) :
    Ascending write R (b.env f) := by
  intro done w rest split
  rw [show (b.env f).memory = f b.memory from rfl, commit_env write apart, apart]
  exact kept _ _ (up done w rest split)

end Ascending

end StoreBuffer
