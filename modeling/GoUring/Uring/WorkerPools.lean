import Mathlib.Data.Int.CardIntervalMod
import GoUring.Uring.Setup

/-!
# The worker pools of `CreateMany`

`CreateMany(count, entries, wpCount, opts)` makes `count` rings that share `wpCount` worker
pools: each pool belongs to a ring that is set up on its own, and the rings after it are
attached to it.  With the loops read as one sequence (`outer_eq_sequence`), the position of a
ring says what it was set up with (`params_of_sequence`), and the pools are counted by
counting the multiples of the group size.
-/

namespace GoUring.Uring

open Custody

/-! ## Flags -/

theorem or_and_distrib (a b mask : UInt32) :
    (a ||| b) &&& mask = (a &&& mask) ||| (b &&& mask) := by
  apply UInt32.toNat_inj.mp
  simp only [UInt32.toNat_and, UInt32.toNat_or]
  exact Nat.and_or_distrib_right _ _ _

/-- The ring is set up with `IORING_SETUP_ATTACH_WQ`. -/
def SetupParams.attached (params : SetupParams) : Bool := params.flags &&& setupAttachWQ != 0

namespace SetupOption

/-- The parameters of a ring that is attached to the one with the descriptor `fd`. -/
theorem setupParams_attachedWQ (opts : List SetupOption) (fd : ℕ) :
    setupParams (opts ++ [.attachedWQ fd]) =
      { setupParams opts with
        flags := (setupParams opts).flags ||| setupAttachWQ
        wqFD := UInt32.ofNat fd } := by
  rw [setupParams, List.foldl_append]
  rfl

theorem attached_setupParams_attachedWQ (opts : List SetupOption) (fd : ℕ) :
    (setupParams (opts ++ [.attachedWQ fd])).attached = true := by
  rw [setupParams_attachedWQ, SetupParams.attached, or_and_distrib]
  apply bne_iff_ne.mpr
  intro zero
  have bit : setupAttachWQ.toNat ≤
      ((setupParams opts).flags &&& setupAttachWQ ||| setupAttachWQ &&& setupAttachWQ).toNat := by
    rw [UInt32.and_self, UInt32.toNat_or]
    exact Nat.right_le_or
  rw [zero] at bit
  exact absurd bit (by decide)

/-- Every other option leaves the bit alone. -/
theorem flags_apply {opt : SetupOption} (plain : ∀ fd, opt ≠ .attachedWQ fd)
    (params : SetupParams) :
    (opt.apply params).flags &&& setupAttachWQ = params.flags &&& setupAttachWQ := by
  have other : ∀ bit : UInt32, bit &&& setupAttachWQ = 0 →
      (params.flags ||| bit) &&& setupAttachWQ = params.flags &&& setupAttachWQ := by
    intro bit apart
    rw [or_and_distrib, apart, UInt32.or_zero]
  cases opt with
  | cqSize sz => exact other setupCQSize rfl
  | ioPoll => exact other setupIOPoll rfl
  | attachedWQ fd => exact absurd rfl (plain fd)
  | sqPoll threadIdle => exact other setupSQPoll rfl
  | sqThreadCPU cpu => exact other setupSQAff rfl

theorem attached_setupParams {opts : List SetupOption} (plain : ∀ fd, .attachedWQ fd ∉ opts) :
    (setupParams opts).attached = false := by
  have clear : (setupParams opts).flags &&& setupAttachWQ = 0 := by
    refine List.foldlRecOn opts _ (motive := fun params : SetupParams =>
      params.flags &&& setupAttachWQ = 0) rfl ?_
    intro params clear opt mem
    rw [flags_apply (fun fd same => plain fd (same ▸ mem)), clear]
  rw [SetupParams.attached, clear]
  rfl

end SetupOption

/-! ## Positions -/

section Positions

variable {kernel : Kernel} {entries : UInt32} {iteration : Iteration}
  {opts : List SetupOption} {b b' : Build} {r : RingHandle} {per : ℕ}

/-- What a ring was set up with, and that its descriptor is one. -/
theorem create_params (made : create kernel entries iteration opts b = .ok (r, b')) :
    r.params = setupParams opts ∧ r.fd < 2 ^ 31 := by
  obtain ⟨p, answered, -⟩ := create_ok made
  obtain ⟨-, -, fits, params, -⟩ := new_ok answered
  exact ⟨params, fits⟩

/-- The rings stand at the positions their parameters are for. -/
def Placed (opts : List SetupOption) (per : ℕ) (rings : List RingHandle) : Prop :=
  ∀ k r, rings[k]? = some r →
    r.params = setupParams (optionsAt opts per (rings.take k)) ∧ r.fd < 2 ^ 31

theorem Placed.create (placed : Placed opts per b.rings)
    (made : create kernel entries iteration (optionsAt opts per b.rings) b = .ok (r, b')) :
    Placed opts per b'.rings := by
  intro k r' found
  have longer := create_rings made
  rw [longer] at found ⊢
  rcases Nat.lt_or_ge k b.rings.length with old | new
  · rw [List.getElem?_append_left old] at found
    rw [List.take_append_of_le_length old.le]
    exact placed k r' found
  · have last : k = b.rings.length := by
      have inside := (List.getElem?_eq_some_iff.mp found).1
      rw [List.length_append, List.length_singleton] at inside
      omega
    subst last
    rw [List.getElem?_concat_length] at found
    cases found
    rw [List.take_left]
    exact create_params made

namespace Placed

variable {rings : List RingHandle} {k : ℕ}

/-- A ring at the start of its group is set up with the options alone. -/
theorem params_of_dvd (placed : Placed opts per rings) (found : rings[k]? = some r)
    (first : per ∣ k) : r.params = setupParams opts := by
  obtain ⟨inside, -⟩ := List.getElem?_eq_some_iff.mp found
  have length : (rings.take k).length = k := List.length_take_of_le inside.le
  rw [(placed k r found).1, optionsAt, length, if_pos (Nat.mod_eq_zero_of_dvd first)]

/-- Every other ring is attached to the one its group starts with. -/
theorem params_of_not_dvd (placed : Placed opts per rings) (found : rings[k]? = some r)
    (later : ¬ per ∣ k) :
    ∃ mainRing, rings[k - k % per]? = some mainRing ∧ mainRing.fd < 2 ^ 31 ∧
      r.params = setupParams (opts ++ [.attachedWQ mainRing.fd]) := by
  obtain ⟨inside, -⟩ := List.getElem?_eq_some_iff.mp found
  have length : (rings.take k).length = k := List.length_take_of_le inside.le
  have offset : k % per ≠ 0 := fun zero => later (Nat.dvd_of_mod_eq_zero zero)
  have before : k - k % per < k := by
    have le := Nat.mod_le k per
    omega
  have main : rings[k - k % per]? = some rings[k - k % per] :=
    List.getElem?_eq_getElem (before.trans inside)
  refine ⟨rings[k - k % per], main, (placed _ _ main).2, ?_⟩
  rw [(placed k r found).1, optionsAt, length, if_neg offset,
    List.getElem?_take_of_lt before, main]

theorem attached_iff (placed : Placed opts per rings) (plain : ∀ fd, .attachedWQ fd ∉ opts)
    (found : rings[k]? = some r) : r.params.attached = false ↔ per ∣ k := by
  by_cases first : per ∣ k
  · rw [placed.params_of_dvd found first, SetupOption.attached_setupParams plain]
    exact ⟨fun _ => first, fun _ => rfl⟩
  · obtain ⟨mainRing, -, -, params⟩ := placed.params_of_not_dvd found first
    rw [params, SetupOption.attached_setupParams_attachedWQ]
    exact ⟨fun off => absurd off (by decide), fun dvd => absurd dvd first⟩

/-- The rings on their own are as many as there are groups. -/
theorem countP_own (placed : Placed opts per rings) (plain : ∀ fd, .attachedWQ fd ∉ opts)
    (positive : 0 < per) {groups : ℕ} (full : rings.length = per * groups) :
    rings.countP (fun r => !r.params.attached) = groups := by
  have bits : rings.map (fun r => !r.params.attached) =
      (List.range rings.length).map fun k => decide (k ≡ 0 [MOD per]) := by
    apply List.ext_getElem?
    intro k
    rcases Nat.lt_or_ge k rings.length with inside | outside
    · have found := List.getElem?_eq_getElem inside
      have bit := placed.attached_iff plain found
      rw [List.getElem?_map, List.getElem?_map, found, List.getElem?_range inside]
      simp only [Option.map_some, Option.some.injEq]
      rw [Bool.eq_iff_iff, Bool.not_eq_true', bit, decide_eq_true_iff, Nat.modEq_zero_iff_dvd]
    · rw [List.getElem?_eq_none (by simpa using outside),
        List.getElem?_eq_none (by simpa using outside)]
  calc rings.countP (fun r => !r.params.attached)
      = (rings.map fun r => !r.params.attached).countP id := by
        rw [List.countP_map]
        rfl
    _ = (List.range rings.length).countP fun k => decide (k ≡ 0 [MOD per]) := by
        rw [bits, List.countP_map]
        rfl
    _ = rings.length.count (· ≡ 0 [MOD per]) := rfl
    _ = groups := by
        rw [Nat.count_modEq_card _ positive, full, Nat.mul_mod_right,
          Nat.mul_div_cancel_left _ positive]
        simp

end Placed

end Positions

/-! ## The pools -/

/-- **The worker pools that are promised.** -/
structure Pools (opts : List SetupOption) (count wpCount : ℤ) (rings : List RingHandle) :
    Prop where
  /-- There are `count` rings. -/
  length : rings.length = count
  /-- `wpCount` of them have a pool of their own. -/
  pools : rings.countP (fun r => !r.params.attached) = wpCount
  /-- They stand at the positions divisible by `count / wpCount`. -/
  own : ∀ (k : ℕ) (r : RingHandle), rings[k]? = some r →
    (r.params.attached = false ↔ count.tdiv wpCount ∣ (k : ℤ))
  /-- Every other ring is attached to the last one before it that has a pool. -/
  nearest : ∀ (k : ℕ) (r : RingHandle), rings[k]? = some r → r.params.attached = true →
    ∃ (m : ℕ) (mainRing : RingHandle), m < k ∧ rings[m]? = some mainRing ∧
      mainRing.params.attached = false ∧
      (∀ (j : ℕ) (r' : RingHandle), m < j → j < k → rings[j]? = some r' →
        r'.params.attached = true) ∧
      r.params.wqFD.toNat = mainRing.fd
  /-- In all else the rings are set up alike. -/
  alike : ∀ r ∈ rings, r.params =
    if r.params.attached then
      { setupParams opts with
        flags := (setupParams opts).flags ||| setupAttachWQ
        wqFD := r.params.wqFD }
    else setupParams opts

theorem Placed.pools {opts : List SetupOption} {count wpCount per : ℕ} {rings : List RingHandle}
    (placed : Placed opts per rings) (plain : ∀ fd, .attachedWQ fd ∉ opts)
    (positive : 0 < wpCount) (groups : count = wpCount * per) (size : 0 < per)
    (length : rings.length = count) :
    Pools opts count wpCount rings where
  length := by rw [length]
  pools := by
    rw [placed.countP_own plain size (length.trans (groups.trans (Nat.mul_comm _ _)))]
  own k r found := by
    have quotient : (count : ℤ).tdiv wpCount = per := by
      rw [← Int.ofNat_tdiv, groups, Nat.mul_div_cancel_left _ positive]
    rw [quotient, Int.natCast_dvd_natCast]
    exact placed.attached_iff plain found
  nearest k r found attached := by
    have later : ¬ per ∣ k := fun first => by
      rw [(placed.attached_iff plain found).mpr first] at attached
      cases attached
    obtain ⟨mainRing, main, fits, params⟩ := placed.params_of_not_dvd found later
    have offset : k % per ≠ 0 := fun zero => later (Nat.dvd_of_mod_eq_zero zero)
    have le := Nat.mod_le k per
    refine ⟨k - k % per, mainRing, by omega, main, ?_, ?_, ?_⟩
    · exact (placed.attached_iff plain main).mpr (Nat.dvd_sub_mod k)
    · intro j r' after before there
      rw [← Bool.not_eq_false, placed.attached_iff plain there]
      intro dvd
      have multiple : per ∣ j - (k - k % per) := Nat.dvd_sub dvd (Nat.dvd_sub_mod k)
      have short : j - (k - k % per) < per := by
        have lt := Nat.mod_lt k size
        omega
      have := Nat.eq_zero_of_dvd_of_lt multiple short
      omega
    · rw [params, SetupOption.setupParams_attachedWQ]
      exact UInt32.toNat_ofNat_of_lt' (fits.trans (by decide))
  alike r mem := by
    obtain ⟨k, found⟩ := List.getElem?_of_mem mem
    by_cases first : per ∣ k
    · rw [(placed.attached_iff plain found).mpr first, placed.params_of_dvd found first]
      rfl
    · obtain ⟨mainRing, -, -, params⟩ := placed.params_of_not_dvd found first
      rw [params, SetupOption.attached_setupParams_attachedWQ, if_pos rfl,
        SetupOption.setupParams_attachedWQ]

section CreateMany

variable (kernel : Kernel) (entries : UInt32) (iteration : Iteration)
  (opts : List SetupOption) (count wpCount : ℤ) (p : Process)

end CreateMany

end GoUring.Uring
