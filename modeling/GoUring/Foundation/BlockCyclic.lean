import Mathlib.Data.Set.Prod
import Mathlib.Data.Set.Function
import Mathlib.Order.Interval.Set.Defs

/-!
# Block-cyclic distribution

Items are dealt out in blocks of `g`, one block to each of `s` places in turn.  `place g s i` is
the place of item `i` and its position there, `item g s` the way back.

Every pair of a place and a position has exactly one item (`bijOn_place`), and no position is
beyond its item (`place_snd_le`).
-/

namespace BlockCyclic

variable {g s : ℕ}

/-- The place of an item and its position at this place. -/
def place (g s i : ℕ) : ℕ × ℕ := (i / g % s, i / g / s * g + i % g)

/-- The item at a position of a place. -/
def item (g s : ℕ) (p : ℕ × ℕ) : ℕ := g * (s * (p.2 / g) + p.1) + p.2 % g

theorem block_div (pos : 0 < g) {r : ℕ} (lt : r < g) (b : ℕ) : (b * g + r) / g = b := by
  rw [Nat.mul_comm, Nat.mul_add_div pos, Nat.div_eq_of_lt lt, Nat.add_zero]

theorem block_mod {r : ℕ} (lt : r < g) (b : ℕ) : (b * g + r) % g = r := by
  rw [Nat.mul_comm, Nat.mul_add_mod, Nat.mod_eq_of_lt lt]

theorem item_place (pos : 0 < g) (i : ℕ) : item g s (place g s i) = i := by
  have rest : i % g < g := Nat.mod_lt i pos
  simp only [item, place, block_div pos rest, block_mod rest, Nat.div_add_mod]

theorem place_item (pos : 0 < g) {p : ℕ × ℕ} (lt : p.1 < s) : place g s (item g s p) = p := by
  have rest : p.2 % g < g := Nat.mod_lt _ pos
  have block : item g s p / g = p.2 / g * s + p.1 := by
    rw [item, Nat.mul_comm g, block_div pos rest, Nat.mul_comm s]
  have offset : item g s p % g = p.2 % g := by
    rw [item, Nat.mul_comm g, block_mod rest]
  refine Prod.ext ?_ ?_
  · show item g s p / g % s = p.1
    rw [block, block_mod lt]
  · show item g s p / g / s * g + item g s p % g = p.2
    rw [block, offset, block_div (Nat.zero_lt_of_lt lt) lt, Nat.mul_comm, Nat.div_add_mod]

/-- **Each position of each place has exactly one item.** -/
theorem bijOn_place (blocks : 0 < g) (places : 0 < s) :
    Set.BijOn (place g s) Set.univ (Set.Iio s ×ˢ Set.univ) := by
  have inverse : Set.InvOn (item g s) (place g s) Set.univ (Set.Iio s ×ˢ Set.univ) :=
    ⟨fun i _ => item_place blocks i, fun p mem => place_item blocks mem.1⟩
  refine inverse.bijOn ?_ ?_
  · intro i _
    exact ⟨Nat.mod_lt _ places, trivial⟩
  · intro p _
    trivial

/-- Items at one place have different positions. -/
theorem injOn_place_snd (blocks : 0 < g) (k : ℕ) :
    Set.InjOn (fun i => (place g s i).2) {i | (place g s i).1 = k} := by
  intro i here j there same
  have equal : place g s i = place g s j := Prod.ext (here.trans there.symm) same
  rw [← item_place (s := s) blocks i, equal, item_place blocks]

/-- At each place, the positions below any bound are all taken. -/
theorem surjOn_place_snd (blocks : 0 < g) {k : ℕ} (lt : k < s) (bound : ℕ) :
    Set.SurjOn (fun i => (place g s i).2) {i | (place g s i).1 = k} (Set.Iio bound) := by
  intro position _
  have back : place g s (item g s (k, position)) = (k, position) := place_item blocks lt
  exact ⟨item g s (k, position), congrArg Prod.fst back, congrArg Prod.snd back⟩

theorem place_snd_le (g s i : ℕ) : (place g s i).2 ≤ i := by
  calc (place g s i).2 ≤ i / g * g + i % g :=
        Nat.add_le_add_right (Nat.mul_le_mul_right g (Nat.div_le_self _ _)) _
    _ = i := by rw [Nat.mul_comm, Nat.div_add_mod]

end BlockCyclic
