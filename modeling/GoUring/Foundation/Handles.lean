import Mathlib.Data.List.Nodup
import Mathlib.Logic.Function.Basic

/-!
# Numbers that are given out again

An operating system names the objects a process has open by small numbers, and gives a number
out again once it was released.  A program keeps the number and not the object; when it releases
a number twice, or uses it after it released it, it may reach an object of somebody else.

Objects are numbered in the order in which they are made, `next` being the number of the next one,
so an object is never made twice.  A `Table` says which object a number names.  A `Holder` is a part
of a program that keeps a number, together with the object it was given the number for.  `Sound`
says that the open numbers are exactly those of the holders that have not released theirs, each
naming the object of its holder.

Taking a number and releasing it once keep `Sound`.  Releasing it again keeps it exactly if the
number is not open at that moment (`update_of_again`, `not_sound_again`), and a number taken that
nobody holds ends it (`not_sound_unheld`).
-/

namespace Handles

universe u

/-- Which object a number names. -/
abbrev Table := ℕ → Option ℕ

/-- A part of a program that keeps a number. -/
structure Holder (ρ : Type u) where
  number : ℕ
  object : ℕ
  released : Bool
  role : ρ
  deriving DecidableEq, Repr

variable {ρ : Type u} {next : ℕ} {table : Table} {holders : List (Holder ρ)}

/-- The open numbers are those of the holders that have not released theirs. -/
structure Sound (next : ℕ) (table : Table) (holders : List (Holder ρ)) : Prop where
  owned : ∀ n k, table n = some k →
    ∃ h ∈ holders, h.released = false ∧ h.number = n ∧ h.object = k
  kept : ∀ h ∈ holders, h.released = false → table h.number = some h.object
  known : ∀ h ∈ holders, h.object < next
  distinct : (holders.map Holder.object).Nodup

theorem sound_nil (next : ℕ) : Sound next (fun _ => none) ([] : List (Holder ρ)) := by
  constructor <;> simp

namespace Sound

/-- Holders of one object are one holder. -/
theorem eq_of_object (sound : Sound next table holders) {h h' : Holder ρ} (mem : h ∈ holders)
    (mem' : h' ∈ holders) (same : h.object = h'.object) : h = h' :=
  List.inj_on_of_nodup_map sound.distinct mem mem' same

/-- An object that was released has no number any more. -/
theorem ne_of_released (sound : Sound next table holders) {h : Holder ρ} (mem : h ∈ holders)
    (released : h.released = true) (n : ℕ) : table n ≠ some h.object := by
  intro named
  obtain ⟨h', mem', held, -, same⟩ := sound.owned n h.object named
  obtain rfl := sound.eq_of_object mem' mem same
  rw [released] at held
  cases held

/-- Nobody holds an object that is not made yet. -/
theorem notMem_next (sound : Sound next table holders) {h : Holder ρ} (mem : h ∈ holders) :
    h.object ≠ next :=
  Nat.ne_of_lt (sound.known h mem)

/-- **Taking a number** that is not open. -/
theorem take (sound : Sound next table holders) {n : ℕ} (free : table n = none) (role : ρ) :
    Sound (next + 1) (Function.update table n (some next))
      (holders ++ [{ number := n, object := next, released := false, role := role }]) where
  owned m k named := by
    by_cases here : m = n
    · subst here
      rw [Function.update_self, Option.some.injEq] at named
      subst named
      exact ⟨_, List.mem_append_right _ (List.mem_singleton_self _), rfl, rfl, rfl⟩
    · rw [Function.update_of_ne here] at named
      obtain ⟨h, mem, held, number, object⟩ := sound.owned m k named
      exact ⟨h, List.mem_append_left _ mem, held, number, object⟩
  kept h mem held := by
    rcases List.mem_append.mp mem with old | new
    · have named := sound.kept h old held
      have other : h.number ≠ n := by
        rintro rfl
        rw [free] at named
        cases named
      rw [Function.update_of_ne other]
      exact named
    · obtain rfl := List.mem_singleton.mp new
      exact Function.update_self _ _ _
  known h mem := by
    rcases List.mem_append.mp mem with old | new
    · exact Nat.lt_succ_of_lt (sound.known h old)
    · obtain rfl := List.mem_singleton.mp new
      exact Nat.lt_succ_self next
  distinct := by
    rw [List.map_append, List.map_singleton]
    refine List.nodup_append.mpr ⟨sound.distinct, List.nodup_singleton _, ?_⟩
    intro a old b new same
    obtain ⟨h, mem, rfl⟩ := List.mem_map.mp old
    rw [List.mem_singleton.mp new] at same
    exact sound.notMem_next mem same

/-- The other holders are still there when one is replaced. -/
theorem mem_set_of_ne {i : ℕ} {h h' other : Holder ρ} (place : holders[i]? = some h)
    (mem : other ∈ holders) (ne : other ≠ h) : other ∈ holders.set i h' := by
  obtain ⟨j, found⟩ := List.mem_iff_getElem?.mp mem
  refine List.mem_iff_getElem?.mpr ⟨j, ?_⟩
  rw [List.getElem?_set_ne, found]
  rintro rfl
  rw [place, Option.some.injEq] at found
  exact ne found.symm

/-- Replacing a holder by one of the same object changes no object. -/
theorem map_object_set {i : ℕ} {h : Holder ρ} (place : holders[i]? = some h) (h' : Holder ρ)
    (object : h'.object = h.object) :
    (holders.set i h').map Holder.object = holders.map Holder.object := by
  refine List.ext_getElem? fun j => ?_
  rw [List.map_set, List.getElem?_set]
  split
  · next same =>
    subst same
    have inside := (List.getElem?_eq_some_iff.mp place).1
    rw [if_pos (by rwa [List.length_map]), List.getElem?_map, place, Option.map_some, object]
  · rfl

/-- A holder changes its role. -/
theorem replace (sound : Sound next table holders) {i : ℕ} {h : Holder ρ}
    (place : holders[i]? = some h) (role : ρ) :
    Sound next table (holders.set i { h with role := role }) where
  owned n k named := by
    obtain ⟨o, mem, held, number, object⟩ := sound.owned n k named
    by_cases same : o = h
    · subst same
      exact ⟨_, List.mem_set (List.getElem?_eq_some_iff.mp place).1 _, held, number, object⟩
    · exact ⟨o, mem_set_of_ne place mem same, held, number, object⟩
  kept o mem held := by
    rcases List.mem_or_eq_of_mem_set mem with old | rfl
    · exact sound.kept o old held
    · exact sound.kept h (List.mem_of_getElem? place) held
  known o mem := by
    rcases List.mem_or_eq_of_mem_set mem with old | rfl
    · exact sound.known o old
    · exact sound.known h (List.mem_of_getElem? place)
  distinct := by
    rw [map_object_set place { h with role := role } rfl]
    exact sound.distinct

/-- **Releasing a number** for the first time. -/
theorem release (sound : Sound next table holders) {i : ℕ} {h : Holder ρ}
    (place : holders[i]? = some h) (held : h.released = false) :
    Sound next (Function.update table h.number none)
      (holders.set i { h with released := true }) where
  owned n k named := by
    by_cases here : n = h.number
    · subst here
      rw [Function.update_self] at named
      cases named
    · rw [Function.update_of_ne here] at named
      obtain ⟨o, mem, still, number, object⟩ := sound.owned n k named
      refine ⟨o, mem_set_of_ne place mem ?_, still, number, object⟩
      rintro rfl
      exact here number.symm
  kept o mem still := by
    rcases List.mem_or_eq_of_mem_set mem with old | rfl
    · have named := sound.kept o old still
      have other : o.number ≠ h.number := by
        intro same
        -- Both numbers are open, so they name one object, and the holder of that is replaced.
        have mine := sound.kept h (List.mem_of_getElem? place) held
        rw [← same, named, Option.some.injEq] at mine
        have replaced := List.inj_on_of_nodup_map
          ((map_object_set place { h with released := true } rfl).symm ▸ sound.distinct) mem
          (List.mem_set (List.getElem?_eq_some_iff.mp place).1 _) mine
        rw [replaced] at still
        cases still
      rw [Function.update_of_ne other]
      exact named
    · cases still
  known o mem := by
    rcases List.mem_or_eq_of_mem_set mem with old | rfl
    · exact sound.known o old
    · exact sound.known h (List.mem_of_getElem? place)
  distinct := by
    rw [map_object_set place { h with released := true } rfl]
    exact sound.distinct

end Sound

/-- A number taken that nobody holds. -/
theorem not_sound_unheld (sound : Sound next table holders) {n next' : ℕ} :
    ¬ Sound next' (Function.update table n (some next)) holders := by
  intro after
  obtain ⟨h, mem, -, -, object⟩ := after.owned n next (Function.update_self _ _ _)
  exact sound.notMem_next mem object

/-- Replacing an entry by itself changes nothing. -/
theorem set_self {α : Type*} {xs : List α} {i : ℕ} {x : α} (place : xs[i]? = some x) :
    xs.set i x = xs := by
  obtain ⟨lt, rfl⟩ := List.getElem?_eq_some_iff.mp place
  exact List.set_getElem_self lt

/-- Releasing again a number that is not open does nothing. -/
theorem update_of_again {h : Holder ρ} (closed : table h.number = none) :
    Function.update table h.number none = table := by
  rw [← closed, Function.update_eq_self]

/-- Releasing again a number that is open takes it from its holder. -/
theorem not_sound_again (sound : Sound next table holders) {n k next' : ℕ}
    (named : table n = some k) : ¬ Sound next' (Function.update table n none) holders := by
  intro after
  obtain ⟨h, mem, held, rfl, -⟩ := sound.owned n k named
  have kept := after.kept h mem held
  rw [Function.update_self] at kept
  cases kept

end Handles
