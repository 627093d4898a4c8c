import GoUring.Uring.Setup

/-!
# What `CreateMany` and `Close` leave behind

Two things that `New` takes are never given back.  `freeRing` unmaps the buffers of the two
queues and not the array of SQEs, so that closing a ring leaves a mapping; and when
`allocRing` fails, neither `New` nor `CreateMany` closes the descriptor that
`io_uring_setup` has returned.

`lifetime_takes` accounts for all of it.  In the end there remain exactly the SQE arrays of
the rings that were made and the descriptor of the one that was not; everything else has been
given back.  So nothing is left exactly if nothing was opened.
-/

namespace GoUring.Uring

open Custody

variable {kernel : Kernel} {entries : UInt32} {iteration : Iteration}
  {opts : List SetupOption} {per : ℕ}

/-- The SQE arrays of rings, which no function unmaps. -/
def sqeArrays (rings : List RingHandle) : Multiset Resource :=
  (rings.map fun r => mappingOf r.sqeBuff).sum

/-- What closing rings gives back. -/
def allFreed (rings : List RingHandle) : Multiset Resource :=
  (rings.map RingHandle.freed).sum

theorem sqeArrays_concat (rings : List RingHandle) (r : RingHandle) :
    sqeArrays (rings ++ [r]) = mappingOf r.sqeBuff + sqeArrays rings := by
  rw [sqeArrays, List.map_append, List.sum_append, List.map_singleton, List.sum_singleton,
    add_comm]
  rfl

theorem allFreed_concat (rings : List RingHandle) (r : RingHandle) :
    allFreed (rings ++ [r]) = r.freed + allFreed rings := by
  rw [allFreed, List.map_append, List.sum_append, List.map_singleton, List.sum_singleton,
    add_comm]
  rfl

theorem mem_allFreed {rings : List RingHandle} {r : RingHandle} {a : Resource}
    (mem : r ∈ rings) (freed : a ∈ r.freed) : a ∈ allFreed rings := by
  induction rings with
  | nil => cases mem
  | cons first rest ih =>
      rw [allFreed, List.map_cons, List.sum_cons]
      apply Multiset.mem_add.mpr
      rcases List.mem_cons.mp mem with rfl | later
      · exact Or.inl freed
      · exact Or.inr (ih later)

namespace Build

/-- **What holds while `CreateMany` makes rings**: the process holds what they hold, and
the map has an entry for each of them. -/
structure Sound (p₀ : Process) (b : Build) : Prop where
  takes : Takes p₀ b.process (sqeArrays b.rings + allFreed b.rings) 0
  defers : (b.defers.map Prod.snd).Perm b.rings
  keyed : ∀ entry ∈ b.defers, entry.1 = entry.2.fd
  mapped : ∀ r ∈ b.rings, ∃ sqe, r.sqeBuff = some sqe

variable {p₀ p : Process} {b b' : Build} {r : RingHandle} {kept gone : Multiset Resource}

theorem Sound.start (p₀ : Process) : Sound p₀ (.start p₀) where
  takes := Takes.refl p₀
  defers := List.Perm.refl []
  keyed := by simp [Build.start]
  mapped := by simp [Build.start]

/-- The descriptors in the map are open. -/
theorem Sound.live_of_defers (sound : Sound p₀ b) {entry : ℕ × RingHandle}
    (mem : entry ∈ b.defers) : .fd entry.1 ∈ b.process.live := by
  have ring : entry.2 ∈ b.rings := sound.defers.subset (List.mem_map_of_mem mem)
  have freed : .fd entry.2.fd ∈ allFreed b.rings :=
    mem_allFreed ring (Multiset.mem_cons_self _ _)
  rw [sound.takes.live, sound.keyed entry mem]
  exact Multiset.mem_add.mpr (Or.inl (Multiset.mem_add.mpr (Or.inr freed)))

theorem Sound.create (sound : Sound p₀ b)
    (made : create kernel entries iteration opts b = .ok (r, b')) : Sound p₀ b' := by
  obtain ⟨p, answered, rfl⟩ := create_ok made
  obtain ⟨taken, fresh, -, -, sqe, array⟩ := new_ok answered
  -- The kernel has returned a descriptor that is not open, so no entry is overwritten.
  have kept : b.defers.filter (·.1 ≠ r.fd) = b.defers := by
    apply List.filter_eq_self.mpr
    intro entry mem
    apply decide_eq_true
    intro same
    apply fresh
    rw [← same]
    exact sound.live_of_defers mem
  refine ⟨?_, ?_, ?_, ?_⟩
  · have all := sound.takes.trans taken
    rw [RingHandle.held, add_add_add_comm, add_zero] at all
    show Takes p₀ p (sqeArrays (b.rings ++ [r]) + allFreed (b.rings ++ [r])) 0
    rw [sqeArrays_concat, allFreed_concat]
    exact all
  · show (((r.fd, r) :: b.defers.filter (·.1 ≠ r.fd)).map Prod.snd).Perm (b.rings ++ [r])
    rw [kept]
    exact (sound.defers.cons r).trans (List.perm_append_singleton r b.rings).symm
  · intro entry mem
    change entry ∈ (r.fd, r) :: b.defers.filter (·.1 ≠ r.fd) at mem
    rw [kept] at mem
    rcases List.mem_cons.mp mem with rfl | old
    · rfl
    · exact sound.keyed entry old
  · intro r' mem
    rcases List.mem_append.mp mem with old | new
    · exact sound.mapped r' old
    · obtain rfl := List.mem_singleton.mp new
      exact ⟨sqe, array⟩

/-- **The `Defer`** gives back all but the SQE arrays. -/
theorem Sound.deferred (sound : Sound p₀ b) (iteration : Iteration)
    (held : Takes p₀ p (kept + (sqeArrays b.rings + allFreed b.rings)) gone) :
    Takes p₀ (b.deferred iteration p).2 (kept + sqeArrays b.rings)
      (allFreed b.rings + gone) := by
  have sum : ((iteration.order b.defers).map (·.2.freed)).sum = allFreed b.rings := by
    have visited := ((iteration.perm b.defers).map Prod.snd).trans sound.defers
    have freed := visited.map RingHandle.freed
    rw [List.map_map] at freed
    exact freed.sum_eq
  have standing : Takes p₀ p (((iteration.order b.defers).map (·.2.freed)).sum +
      (kept + sqeArrays b.rings)) gone := by
    rw [sum, add_comm, add_assoc]
    exact held
  have closed := closeAll_takes _ p gone standing
  rw [sum] at closed
  exact closed

/-- A failed `New` closes the rings made before, and may leave its own descriptor. -/
theorem Sound.failed (sound : Sound p₀ b) {err : CreateError} {q : Process}
    (failed : Uring.create kernel entries iteration opts b = .error (err, q)) :
    (∃ gone, Takes p₀ q (sqeArrays b.rings) gone ∧
        (entries > maxEntries ∨
          ∃ errno, kernel.setup b.process entries (setupParams opts) = .error errno)) ∨
      ∃ fd gone, Takes p₀ q ({.fd fd} + sqeArrays b.rings) gone := by
  obtain ⟨p, answered, rfl⟩ := create_error failed
  rcases new_error answered with ⟨rfl, reason⟩ | ⟨fd, gone, taken⟩
  · left
    have held := sound.takes
    rw [← zero_add (sqeArrays b.rings + allFreed b.rings)] at held
    have closed := sound.deferred iteration held
    rw [zero_add] at closed
    exact ⟨_, closed, reason⟩
  · right
    exact ⟨fd, _, sound.deferred iteration (sound.takes.trans taken)⟩

end Build

theorem sqeArrays_eq_zero {rings : List RingHandle}
    (mapped : ∀ r ∈ rings, ∃ sqe, r.sqeBuff = some sqe) (zero : sqeArrays rings = 0) :
    rings = [] := by
  cases rings with
  | nil => rfl
  | cons r rest =>
      obtain ⟨sqe, array⟩ := mapped r List.mem_cons_self
      rw [sqeArrays, List.map_cons, List.sum_cons, array, mappingOf] at zero
      simp at zero

section Lifetime

variable (kernel : Kernel) (entries : UInt32) (iteration : Iteration)
  (opts : List SetupOption) (count wpCount : ℤ)

/-- The process after `CreateMany` has failed, or after the `Defer` it has returned was
called. -/
def lifetime (p : Process) : Option Process :=
  (createMany kernel entries iteration opts count wpCount p).map fun
    | .error (_, q) => q
    | .ok b => (b.deferred iteration b.process).2

variable {kernel entries iteration opts count wpCount}

/-- Nothing is opened: the arguments are rejected, or the first `io_uring_setup` fails. -/
def Unopened (kernel : Kernel) (entries : UInt32) (opts : List SetupOption) (count wpCount : ℤ)
    (p : Process) : Prop :=
  wpCount > count ∨ count.tmod wpCount ≠ 0 ∨ entries > maxEntries ∨
    ∃ errno, kernel.setup p entries (setupParams opts) = .error errno

theorem optionsAt_nil (opts : List SetupOption) (per : ℕ) : optionsAt opts per [] = opts := by
  rw [optionsAt, List.length_nil, Nat.zero_mod, if_pos rfl]

/-- Arguments that pass the checks, as natural numbers. -/
theorem createMany_of_passed (positive : 1 ≤ wpCount) (enough : ¬ wpCount > count)
    (divides : count.tmod wpCount = 0) (p : Process) :
    ∃ per n, createMany kernel entries iteration opts count wpCount p =
      some (sequence kernel entries iteration opts per (n + 1) (.start p)) := by
  lift wpCount to ℕ using by omega
  lift count to ℕ using by omega
  rw [← Int.ofNat_tmod] at divides
  refine ⟨count / wpCount, count - 1, ?_⟩
  rw [createMany_eq_sequence (by omega) (by omega) (Nat.dvd_of_mod_eq_zero (by omega)),
    Nat.sub_add_cancel (by omega)]

theorem deferred_start (iteration : Iteration) (p q : Process) :
    (Build.start p).deferred iteration q = ([], q) := by
  have none : iteration.order (Build.start p).defers = [] :=
    List.Perm.eq_nil (iteration.perm [])
  rw [Build.deferred, none, closeAll]

/-- A first `New` that leaves the process as it is ends `CreateMany` the same way. -/
theorem lifetime_of_refused (positive : 1 ≤ wpCount) (enough : ¬ wpCount > count)
    (divides : count.tmod wpCount = 0) {p : Process}
    (refused : ∃ err, new kernel entries opts p = (.error err, p)) :
    lifetime kernel entries iteration opts count wpCount p = some p := by
  obtain ⟨err, refused⟩ := refused
  obtain ⟨per, n, loops⟩ := createMany_of_passed positive enough divides p
  have failed : create kernel entries iteration
      (optionsAt opts per (Build.start p).rings) (.start p) = .error (err, p) := by
    have own : optionsAt opts per (Build.start p).rings = opts := optionsAt_nil opts per
    have answered : new kernel entries opts (Build.start p).process = (.error err, p) := refused
    rw [own, create, answered]
    simp only [deferred_start]
  rw [lifetime, loops, sequence, failed]
  rfl

/-- If nothing is opened, nothing happens. -/
theorem lifetime_of_unopened (positive : 1 ≤ wpCount) {p : Process}
    (unopened : Unopened kernel entries opts count wpCount p) :
    lifetime kernel entries iteration opts count wpCount p = some p := by
  by_cases few : wpCount > count
  · rw [lifetime, createMany, if_pos few]
    rfl
  by_cases divides : count.tmod wpCount = 0
  · by_cases large : entries > maxEntries
    · apply lifetime_of_refused positive few divides
      rw [new, if_pos large]
      exact ⟨_, rfl⟩
    · rcases unopened with few' | remains | large' | ⟨errno, failed⟩
      · exact absurd few' few
      · exact absurd divides remains
      · exact absurd large' large
      · apply lifetime_of_refused positive few divides
        rw [new, if_neg large, failed]
        exact ⟨_, rfl⟩
  · rw [lifetime, createMany, if_neg few, if_neg (by omega), if_pos divides]
    rfl

/-- **What is left in the end**, if something was opened: the SQE arrays of the rings that
were made, and the descriptor of a ring that was not; and there is one or the other. -/
theorem lifetime_takes (iteration : Iteration) (positive : 1 ≤ wpCount) {p : Process}
    (opened : ¬ Unopened kernel entries opts count wpCount p) :
    ∃ (q : Process) (rings : List RingHandle) (left gone : Multiset Resource),
      lifetime kernel entries iteration opts count wpCount p = some q ∧
        Takes p q (left + sqeArrays rings) gone ∧ (left = 0 ∨ ∃ fd, left = {.fd fd}) ∧
        left + sqeArrays rings ≠ 0 := by
  have enough : ¬ wpCount > count := fun few => opened (Or.inl few)
  have divides : count.tmod wpCount = 0 := by
    by_contra remains
    exact opened (Or.inr (Or.inl remains))
  have small : ¬ entries > maxEntries := fun large => opened (Or.inr (Or.inr (Or.inl large)))
  obtain ⟨per, n, loops⟩ := createMany_of_passed positive enough divides p
  rw [lifetime, loops]
  rcases sequence_rule (fun b => b.Sound p ∧ (b.rings = [] → b = .start p))
      (fun b r b' inv made => ⟨inv.1.create made, fun empty => by
        rw [create_rings made] at empty
        simp at empty⟩)
      (n + 1) (.start p) ⟨Build.Sound.start p, fun _ => rfl⟩ with
    ⟨b, made, sound, -⟩ | ⟨⟨err, q⟩, b, stopped, ⟨sound, first⟩, failed, -⟩
  · have length := length_sequence made
    have held := sound.takes
    rw [← zero_add (sqeArrays b.rings + allFreed b.rings)] at held
    refine ⟨_, b.rings, 0, _, by rw [made]; rfl, sound.deferred iteration held, Or.inl rfl, ?_⟩
    rw [zero_add]
    intro zero
    rw [sqeArrays_eq_zero sound.mapped zero] at length
    simp [Build.start] at length
  · rw [stopped]
    rcases sound.failed failed with ⟨gone, held, reason⟩ | ⟨fd, gone, held⟩
    · refine ⟨q, b.rings, 0, gone, rfl, by rwa [zero_add], Or.inl rfl, ?_⟩
      rw [zero_add]
      intro zero
      -- The first ring failed: its `io_uring_setup` did.
      have empty := sqeArrays_eq_zero sound.mapped zero
      rw [empty, optionsAt_nil, first empty] at reason
      rcases reason with large | refused
      · exact small large
      · exact opened (Or.inr (Or.inr (Or.inr refused)))
    · refine ⟨q, b.rings, {.fd fd}, gone, rfl, held, Or.inr ⟨fd, rfl⟩, ?_⟩
      rw [Multiset.singleton_add]
      exact Multiset.cons_ne_zero

/-- **When nothing is leaked**: exactly if nothing is opened, because the arguments are
rejected or the first `io_uring_setup` fails. -/
theorem createMany_leakFree_iff (kernel : Kernel) (entries : UInt32) (iteration : Iteration)
    (opts : List SetupOption) (count wpCount : ℤ) (positive : 1 ≤ wpCount)
    (live : Multiset Resource) :
    (∃ q, lifetime kernel entries iteration opts count wpCount (.start live) = some q ∧
        LeakFree q) ↔
      Unopened kernel entries opts count wpCount (.start live) := by
  constructor
  · rintro ⟨q, ended, clean⟩
    by_contra opened
    obtain ⟨q', rings, left, gone, ended', held, -, some⟩ :=
      lifetime_takes iteration positive opened
    rw [ended] at ended'
    cases ended'
    exact some (held.eq_zero_of_leakFree clean)
  · intro unopened
    refine ⟨_, lifetime_of_unopened positive unopened, ?_⟩
    intro a acquired
    exact absurd acquired (Multiset.notMem_zero a)

end Lifetime

/-- The law at four rings that share two pools, all of them made and closed: since something
was opened, something is leaked. -/
theorem createMany_leakFree_iff_made :
    ∃ q, lifetime (countingKernel featSingleMMap) 64 newestFirst [] 4 2 (.start 0) = some q ∧
      q.acquired.card = 12 ∧ ¬ LeakFree q := by
  refine ⟨_, rfl, by decide, fun clean => ?_⟩
  have unopened := (createMany_leakFree_iff (countingKernel featSingleMMap) 64 newestFirst [] 4 2
    (by decide) 0).mp ⟨_, rfl, clean⟩
  rcases unopened with few | remains | large | ⟨errno, failed⟩
  · exact absurd few (by decide)
  · exact remains (by decide)
  · exact absurd large (by decide)
  · cases failed

/-- One ring, made and closed with all calls granted: the mapping of its SQE array, the last
thing it has taken, is still there. -/
theorem createMany_leaks_sqe_array :
    ∃ q, lifetime (countingKernel featSingleMMap) 64 newestFirst [] 1 1 (.start 0) = some q ∧
      q.acquired = {.fd 1, .mapping 2, .mapping 3} ∧ q.released = {.fd 1, .mapping 2} ∧
      q.live = {.mapping 3} ∧ ¬ LeakFree q := by
  refine ⟨_, rfl, by decide, by decide, by decide, ?_⟩
  intro clean
  exact (clean (.mapping 3) (by decide)).1 (by decide)

end GoUring.Uring
