import Mathlib.Data.Multiset.AddSub
import Mathlib.Logic.Function.Basic

/-!
# Correlation of requests and answers

A requester draws a key for each request, registers the request under its key in
a table and launches the key; the key travels and comes back with the answer;
the answer is handed to the request found in the table.  `Ledger` is the state of
such an exchange in its own terms: what is known about each request (`Row`), the
table, and the bag of keys that travel.

Registering and launching may happen in either order.  What makes the exchange
work is `Consistent`: the table holds exactly the registered requests that are
not over, and each launched request that is not over travels exactly once.  Each
move keeps it, as long as no two requests that are not over have the same key
(`Distinct`).  `Sound`, the half that says that the table lies about nobody,
needs no such assumption.
-/

namespace Correlation

universe u

variable {K : Type u}

/-- What is known about a request: the key it drew, whether it is registered,
whether its key was launched, and whether it is over. -/
@[ext]
structure Row (K : Type u) where
  key : Option K
  registered : Bool
  launched : Bool
  ended : Bool

/-- The request has drawn the key and is not over. -/
def Row.Live (row : Row K) (κ : K) : Prop := row.key = some κ ∧ row.ended = false

/-- The requests, the table and the keys that travel. -/
@[ext]
structure Ledger (K : Type u) where
  row : ℕ → Row K
  table : K → Option ℕ
  flight : Multiset K

namespace Ledger

/-- No two requests that are not over have the same key. -/
def Distinct (L : Ledger K) : Prop :=
  ∀ j k κ, (L.row j).Live κ → (L.row k).Live κ → j = k

/-- A request in the table has drawn its key, is registered and is not over. -/
def Sound (L : Ledger K) : Prop :=
  ∀ κ k, L.table κ = some k → (L.row k).Live κ ∧ (L.row k).registered = true

/-- Only registered requests are over. -/
def Regular (L : Ledger K) : Prop :=
  ∀ k, (L.row k).ended = true → (L.row k).registered = true

/-- **What makes an exchange work.** -/
structure Consistent [DecidableEq K] (L : Ledger K) : Prop where
  sound : L.Sound
  /-- Only launched requests are over. -/
  launched_of_ended : ∀ k, (L.row k).ended = true → (L.row k).launched = true
  /-- A registered request that is not over is in the table. -/
  complete : ∀ k κ, (L.row k).Live κ → (L.row k).registered = true → L.table κ = some k
  /-- A key that travels belongs to a launched request that is not over. -/
  owned : ∀ κ ∈ L.flight, ∃ k, (L.row k).Live κ ∧ (L.row k).launched = true
  /-- The key of a launched request that is not over travels exactly once. -/
  once : ∀ k κ, (L.row k).Live κ → (L.row k).launched = true → L.flight.count κ = 1

/-! ## The moves -/

/-- Request `k` draws the key `κ`. -/
def draw (L : Ledger K) (k : ℕ) (κ : K) : Ledger K :=
  { L with row := Function.update L.row k { L.row k with key := some κ } }

/-- Request `k` is put into the table under its key `κ`. -/
def register [DecidableEq K] (L : Ledger K) (k : ℕ) (κ : K) : Ledger K :=
  { L with
    row := Function.update L.row k { L.row k with registered := true }
    table := Function.update L.table κ (some k) }

/-- The table forgets what it has under `κ`. -/
def clear [DecidableEq K] (L : Ledger K) (κ : K) : Ledger K :=
  { L with table := Function.update L.table κ none }

/-- The key `κ` of request `k` starts to travel. -/
def launch (L : Ledger K) (k : ℕ) (κ : K) : Ledger K :=
  { L with
    row := Function.update L.row k { L.row k with launched := true }
    flight := κ ::ₘ L.flight }

/-- Request `k` is over; whatever the table has under `κ` is taken out. -/
def close [DecidableEq K] (L : Ledger K) (k : ℕ) (κ : K) : Ledger K :=
  { L with
    row := Function.update L.row k { L.row k with ended := true }
    table := Function.update L.table κ none }

/-- Whatever the table has under `κ` is taken out, and is over. -/
def pop [DecidableEq K] (L : Ledger K) (κ : K) : Ledger K :=
  match L.table κ with
  | some k => L.close k κ
  | none => L

/-- The key `κ` of request `k` is back, and the request is over. -/
def land [DecidableEq K] (L : Ledger K) (k : ℕ) (κ : K) : Ledger K :=
  { L.close k κ with flight := L.flight.erase κ }

/-- Request `k` gives its key up before it was registered or launched. -/
def abandon (L : Ledger K) (k : ℕ) : Ledger K :=
  { L with row := Function.update L.row k { L.row k with key := none } }

/-- Registering ends no request and changes no key. -/
theorem live_register [DecidableEq K] {L : Ledger K} {j k : ℕ} {κ κ' : K} :
    ((L.register k κ).row j).Live κ' ↔ (L.row j).Live κ' := by
  by_cases this : j = k
  · subst this
    simp only [Ledger.register, Function.update_self, Row.Live]
  · simp only [Ledger.register, Function.update_of_ne this]

/-- Only launching changes who was launched. -/
theorem launched_draw (L : Ledger K) (j k : ℕ) (κ : K) :
    ((L.draw k κ).row j).launched = (L.row j).launched := by
  by_cases this : j = k
  · subst this
    simp only [Ledger.draw, Function.update_self]
  · simp only [Ledger.draw, Function.update_of_ne this]

theorem launched_register [DecidableEq K] (L : Ledger K) (j k : ℕ) (κ : K) :
    ((L.register k κ).row j).launched = (L.row j).launched := by
  by_cases this : j = k
  · subst this
    simp only [Ledger.register, Function.update_self]
  · simp only [Ledger.register, Function.update_of_ne this]

theorem launched_close [DecidableEq K] (L : Ledger K) (j k : ℕ) (κ : K) :
    ((L.close k κ).row j).launched = (L.row j).launched := by
  by_cases this : j = k
  · subst this
    simp only [Ledger.close, Function.update_self]
  · simp only [Ledger.close, Function.update_of_ne this]

theorem launched_pop [DecidableEq K] (L : Ledger K) (j : ℕ) (κ : K) :
    ((L.pop κ).row j).launched = (L.row j).launched := by
  cases found : L.table κ with
  | some k =>
      simp only [Ledger.pop, found]
      exact L.launched_close j k κ
  | none => simp only [Ledger.pop, found]

/-- Whoever is over after a pop was over before, or was in the table. -/
theorem ended_pop [DecidableEq K] {L : Ledger K} {j : ℕ} {κ : K}
    (ended : ((L.pop κ).row j).ended = true) :
    (L.row j).ended = true ∨ L.table κ = some j := by
  cases found : L.table κ with
  | none =>
      simp only [Ledger.pop, found] at ended
      exact Or.inl ended
  | some k =>
      by_cases this : j = k
      · exact Or.inr (by rw [this])
      · simp only [Ledger.pop, found, Ledger.close, Function.update_of_ne this] at ended
        exact Or.inl ended

theorem flight_pop [DecidableEq K] (L : Ledger K) (κ : K) : (L.pop κ).flight = L.flight := by
  unfold pop
  split
  · rfl
  · rfl

/-! ## Soundness -/

theorem Sound.draw {L : Ledger K} (sound : L.Sound) {k : ℕ} {κ : K}
    (unregistered : (L.row k).registered = false) : (L.draw k κ).Sound := by
  intro κ' j found
  obtain ⟨live, registered⟩ := sound κ' j found
  have other : j ≠ k := by
    rintro rfl
    rw [unregistered] at registered
    cases registered
  simp only [Ledger.draw, Function.update_of_ne other]
  exact ⟨live, registered⟩

theorem Sound.register [DecidableEq K] {L : Ledger K} (sound : L.Sound) {k : ℕ} {κ : K}
    (live : (L.row k).Live κ) (unregistered : (L.row k).registered = false) :
    (L.register k κ).Sound := by
  intro κ' j found
  by_cases same : κ' = κ
  · subst same
    simp only [Ledger.register, Function.update_self, Option.some.injEq] at found
    subst found
    simp only [Ledger.register, Function.update_self]
    exact ⟨live, trivial⟩
  · simp only [Ledger.register, Function.update_of_ne same] at found
    obtain ⟨live', registered⟩ := sound κ' j found
    have other : j ≠ k := by
      rintro rfl
      rw [unregistered] at registered
      cases registered
    simp only [Ledger.register, Function.update_of_ne other]
    exact ⟨live', registered⟩

theorem Sound.clear [DecidableEq K] {L : Ledger K} (sound : L.Sound) (κ : K) :
    (L.clear κ).Sound := by
  intro κ' j found
  have apart : κ' ≠ κ := by
    rintro rfl
    simp [Ledger.clear] at found
  simp only [Ledger.clear, Function.update_of_ne apart] at found
  exact sound κ' j found

theorem Sound.launch {L : Ledger K} (sound : L.Sound) (k : ℕ) (κ : K) :
    (L.launch k κ).Sound := by
  intro κ' j found
  obtain ⟨live, registered⟩ := sound κ' j found
  by_cases this : j = k
  · subst this
    simp only [Ledger.launch, Function.update_self]
    exact ⟨live, registered⟩
  · simp only [Ledger.launch, Function.update_of_ne this]
    exact ⟨live, registered⟩

/-- Ending the request that drew `κ` and clearing the table at `κ`. -/
theorem Sound.close [DecidableEq K] {L : Ledger K} (sound : L.Sound) {k : ℕ} {κ : K}
    (live : (L.row k).Live κ) : (L.close k κ).Sound := by
  intro κ' j found
  by_cases same : κ' = κ
  · subst same
    simp [Ledger.close] at found
  · simp only [Ledger.close, Function.update_of_ne same] at found
    obtain ⟨live', registered⟩ := sound κ' j found
    have other : j ≠ k := by
      rintro rfl
      exact same (Option.some.inj (live'.1.symm.trans live.1))
    simp only [Ledger.close, Function.update_of_ne other]
    exact ⟨live', registered⟩

theorem Sound.pop [DecidableEq K] {L : Ledger K} (sound : L.Sound) (κ : K) :
    (L.pop κ).Sound := by
  cases found : L.table κ with
  | some k =>
      simp only [Ledger.pop, found]
      exact sound.close (sound κ k found).1
  | none =>
      simp only [Ledger.pop, found]
      exact sound

theorem table_pop [DecidableEq K] (L : Ledger K) (κ : K) : (L.pop κ).table κ = none := by
  cases found : L.table κ with
  | some k =>
      simp only [Ledger.pop, found, Ledger.close]
      exact Function.update_self _ _ _
  | none =>
      simp only [Ledger.pop, found]

theorem Sound.abandon {L : Ledger K} (sound : L.Sound) {k : ℕ}
    (unregistered : (L.row k).registered = false) : (L.abandon k).Sound := by
  intro κ' j found
  obtain ⟨live, registered⟩ := sound κ' j found
  have other : j ≠ k := by
    rintro rfl
    rw [unregistered] at registered
    cases registered
  simp only [Ledger.abandon, Function.update_of_ne other]
  exact ⟨live, registered⟩

/-! ## Regularity -/

theorem Regular.draw {L : Ledger K} (regular : L.Regular) (k : ℕ) (κ : K) :
    (L.draw k κ).Regular := by
  intro j ended
  by_cases this : j = k
  · subst this
    simp only [Ledger.draw, Function.update_self] at ended ⊢
    exact regular j ended
  · simp only [Ledger.draw, Function.update_of_ne this] at ended ⊢
    exact regular j ended

theorem Regular.register [DecidableEq K] {L : Ledger K} (regular : L.Regular) (k : ℕ) (κ : K) :
    (L.register k κ).Regular := by
  intro j ended
  by_cases this : j = k
  · subst this
    simp only [Ledger.register, Function.update_self]
  · simp only [Ledger.register, Function.update_of_ne this] at ended ⊢
    exact regular j ended

theorem Regular.launch {L : Ledger K} (regular : L.Regular) (k : ℕ) (κ : K) :
    (L.launch k κ).Regular := by
  intro j ended
  by_cases this : j = k
  · subst this
    simp only [Ledger.launch, Function.update_self] at ended ⊢
    exact regular j ended
  · simp only [Ledger.launch, Function.update_of_ne this] at ended ⊢
    exact regular j ended

theorem Regular.close [DecidableEq K] {L : Ledger K} (regular : L.Regular) {k : ℕ}
    (registered : (L.row k).registered = true) (κ : K) : (L.close k κ).Regular := by
  intro j ended
  by_cases this : j = k
  · subst this
    simp only [Ledger.close, Function.update_self]
    exact registered
  · simp only [Ledger.close, Function.update_of_ne this] at ended ⊢
    exact regular j ended

theorem Regular.pop [DecidableEq K] {L : Ledger K} (regular : L.Regular) (sound : L.Sound)
    (κ : K) : (L.pop κ).Regular := by
  cases found : L.table κ with
  | some k =>
      simp only [Ledger.pop, found]
      exact regular.close (sound κ k found).2 κ
  | none =>
      simp only [Ledger.pop, found]
      exact regular

theorem Regular.abandon {L : Ledger K} (regular : L.Regular) (k : ℕ) :
    (L.abandon k).Regular := by
  intro j ended
  by_cases this : j = k
  · subst this
    simp only [Ledger.abandon, Function.update_self] at ended ⊢
    exact regular j ended
  · simp only [Ledger.abandon, Function.update_of_ne this] at ended ⊢
    exact regular j ended

/-- In a regular ledger a request that is not registered is not over. -/
theorem Regular.live {L : Ledger K} (regular : L.Regular) {k : ℕ} {κ : K}
    (key : (L.row k).key = some κ) (unregistered : (L.row k).registered = false) :
    (L.row k).Live κ := by
  refine ⟨key, Bool.eq_false_iff.mpr fun ended => ?_⟩
  rw [regular k ended] at unregistered
  cases unregistered

/-! ## Consistency -/

variable [DecidableEq K]

theorem Consistent.draw {L : Ledger K} (con : L.Consistent) {k : ℕ} {κ : K}
    (unregistered : (L.row k).registered = false) (grounded : (L.row k).launched = false) :
    (L.draw k κ).Consistent := by
  have elsewhere : ∀ j, j ≠ k → (L.draw k κ).row j = L.row j :=
    fun j other => Function.update_of_ne other _ _
  have here : (L.draw k κ).row k = { L.row k with key := some κ } := Function.update_self _ _ _
  refine ⟨con.sound.draw unregistered, ?_, ?_, ?_, ?_⟩
  · intro j ended
    by_cases this : j = k
    · subst this
      rw [here] at ended ⊢
      exact con.launched_of_ended j ended
    · rw [elsewhere j this] at ended ⊢
      exact con.launched_of_ended j ended
  · intro j κ' live registered
    by_cases this : j = k
    · subst this
      rw [here, unregistered] at registered
      cases registered
    · rw [elsewhere j this] at live registered
      exact con.complete j κ' live registered
  · intro κ' travels
    obtain ⟨j, live, launched⟩ := con.owned κ' travels
    have other : j ≠ k := by
      rintro rfl
      rw [grounded] at launched
      cases launched
    exact ⟨j, by rw [elsewhere j other]; exact ⟨live, launched⟩⟩
  · intro j κ' live launched
    by_cases this : j = k
    · subst this
      rw [here, grounded] at launched
      cases launched
    · rw [elsewhere j this] at live launched
      exact con.once j κ' live launched

theorem Consistent.register {L : Ledger K} (con : L.Consistent) {k : ℕ} {κ : K}
    (live : (L.row k).Live κ) (unregistered : (L.row k).registered = false)
    (distinct : L.Distinct) : (L.register k κ).Consistent := by
  have elsewhere : ∀ j, j ≠ k → (L.register k κ).row j = L.row j :=
    fun j other => Function.update_of_ne other _ _
  have here : (L.register k κ).row k = { L.row k with registered := true } :=
    Function.update_self _ _ _
  refine ⟨con.sound.register live unregistered, ?_, ?_, ?_, ?_⟩
  · intro j ended
    by_cases this : j = k
    · subst this
      rw [here] at ended ⊢
      exact con.launched_of_ended j ended
    · rw [elsewhere j this] at ended ⊢
      exact con.launched_of_ended j ended
  · intro j κ' live' registered
    by_cases this : j = k
    · subst this
      rw [here] at live'
      obtain rfl : κ' = κ := Option.some.inj (live'.1.symm.trans live.1)
      exact Function.update_self _ _ _
    · rw [elsewhere j this] at live' registered
      have apart : κ' ≠ κ := by
        rintro rfl
        exact this (distinct j k κ' live' live)
      simp only [Ledger.register, Function.update_of_ne apart]
      exact con.complete j κ' live' registered
  · intro κ' travels
    obtain ⟨j, live', launched⟩ := con.owned κ' travels
    refine ⟨j, ?_⟩
    by_cases this : j = k
    · subst this
      rw [here]
      exact ⟨live', launched⟩
    · rw [elsewhere j this]
      exact ⟨live', launched⟩
  · intro j κ' live' launched
    by_cases this : j = k
    · subst this
      rw [here] at live' launched
      exact con.once j κ' live' launched
    · rw [elsewhere j this] at live' launched
      exact con.once j κ' live' launched

theorem Consistent.launch {L : Ledger K} (con : L.Consistent) {k : ℕ} {κ : K}
    (live : (L.row k).Live κ) (grounded : (L.row k).launched = false)
    (distinct : L.Distinct) : (L.launch k κ).Consistent := by
  have elsewhere : ∀ j, j ≠ k → (L.launch k κ).row j = L.row j :=
    fun j other => Function.update_of_ne other _ _
  have here : (L.launch k κ).row k = { L.row k with launched := true } :=
    Function.update_self _ _ _
  -- The key does not travel yet: its owner would be a launched request.
  have absent : κ ∉ L.flight := by
    intro travels
    obtain ⟨j, live', launched⟩ := con.owned κ travels
    obtain rfl := distinct j k κ live' live
    rw [grounded] at launched
    cases launched
  refine ⟨con.sound.launch k κ, ?_, ?_, ?_, ?_⟩
  · intro j ended
    by_cases this : j = k
    · subst this
      rw [here]
    · rw [elsewhere j this] at ended ⊢
      exact con.launched_of_ended j ended
  · intro j κ' live' registered
    by_cases this : j = k
    · subst this
      rw [here] at live' registered
      exact con.complete j κ' live' registered
    · rw [elsewhere j this] at live' registered
      exact con.complete j κ' live' registered
  · intro κ' travels
    rcases Multiset.mem_cons.mp travels with rfl | before
    · exact ⟨k, by rw [here]; exact ⟨live, rfl⟩⟩
    · obtain ⟨j, live', launched⟩ := con.owned κ' before
      have other : j ≠ k := by
        rintro rfl
        rw [grounded] at launched
        cases launched
      exact ⟨j, by rw [elsewhere j other]; exact ⟨live', launched⟩⟩
  · intro j κ' live' launched
    by_cases this : j = k
    · subst this
      rw [here] at live'
      obtain rfl : κ' = κ := Option.some.inj (live'.1.symm.trans live.1)
      show Multiset.count κ' (κ' ::ₘ L.flight) = 1
      rw [Multiset.count_cons_self, Multiset.count_eq_zero_of_notMem absent]
    · rw [elsewhere j this] at live' launched
      have apart : κ' ≠ κ := by
        rintro rfl
        exact this (distinct j k κ' live' live)
      show Multiset.count κ' (κ ::ₘ L.flight) = 1
      rw [Multiset.count_cons_of_ne apart]
      exact con.once j κ' live' launched

theorem Consistent.land {L : Ledger K} (con : L.Consistent) {k : ℕ} {κ : K}
    (live : (L.row k).Live κ) (launched : (L.row k).launched = true)
    (distinct : L.Distinct) : (L.land k κ).Consistent := by
  have elsewhere : ∀ j, j ≠ k → (L.land k κ).row j = L.row j :=
    fun j other => Function.update_of_ne other _ _
  have running : ∀ j κ', ((L.land k κ).row j).Live κ' → j ≠ k := by
    rintro j κ' ⟨-, open'⟩ rfl
    simp [Ledger.land, Ledger.close] at open'
  have gone : κ ∉ L.flight.erase κ := by
    rw [← Multiset.count_eq_zero, Multiset.count_erase_self, con.once k κ live launched]
  have apart : ∀ j κ', j ≠ k → (L.row j).Live κ' → κ' ≠ κ := by
    rintro j κ' other live' rfl
    exact other (distinct j k κ' live' live)
  refine ⟨con.sound.close live, ?_, ?_, ?_, ?_⟩
  · intro j ended
    by_cases this : j = k
    · subst this
      simp only [Ledger.land, Ledger.close, Function.update_self]
      exact launched
    · rw [elsewhere j this] at ended ⊢
      exact con.launched_of_ended j ended
  · intro j κ' live' registered
    have other := running j κ' live'
    rw [elsewhere j other] at live' registered
    simp only [Ledger.land, Ledger.close, Function.update_of_ne (apart j κ' other live')]
    exact con.complete j κ' live' registered
  · intro κ' travels
    have different : κ' ≠ κ := by
      rintro rfl
      exact gone travels
    obtain ⟨j, live', launched'⟩ := con.owned κ' (Multiset.mem_of_mem_erase travels)
    have other : j ≠ k := by
      rintro rfl
      exact different (Option.some.inj (live'.1.symm.trans live.1))
    exact ⟨j, by rw [elsewhere j other]; exact ⟨live', launched'⟩⟩
  · intro j κ' live' launched'
    have other := running j κ' live'
    rw [elsewhere j other] at live' launched'
    show Multiset.count κ' (L.flight.erase κ) = 1
    rw [Multiset.count_erase_of_ne (apart j κ' other live')]
    exact con.once j κ' live' launched'

theorem Consistent.abandon {L : Ledger K} (con : L.Consistent) {k : ℕ}
    (unregistered : (L.row k).registered = false) (grounded : (L.row k).launched = false) :
    (L.abandon k).Consistent := by
  have elsewhere : ∀ j, j ≠ k → (L.abandon k).row j = L.row j :=
    fun j other => Function.update_of_ne other _ _
  have here : (L.abandon k).row k = { L.row k with key := none } := Function.update_self _ _ _
  have keyless : ∀ j κ', ((L.abandon k).row j).Live κ' → j ≠ k := by
    rintro j κ' ⟨key, -⟩ rfl
    rw [here] at key
    cases key
  refine ⟨con.sound.abandon unregistered, ?_, ?_, ?_, ?_⟩
  · intro j ended
    by_cases this : j = k
    · subst this
      rw [here] at ended ⊢
      exact con.launched_of_ended j ended
    · rw [elsewhere j this] at ended ⊢
      exact con.launched_of_ended j ended
  · intro j κ' live registered
    have other := keyless j κ' live
    rw [elsewhere j other] at live registered
    exact con.complete j κ' live registered
  · intro κ' travels
    obtain ⟨j, live, launched⟩ := con.owned κ' travels
    have other : j ≠ k := by
      rintro rfl
      rw [grounded] at launched
      cases launched
    exact ⟨j, by rw [elsewhere j other]; exact ⟨live, launched⟩⟩
  · intro j κ' live launched
    have other := keyless j κ' live
    rw [elsewhere j other] at live launched
    exact con.once j κ' live launched

end Ledger

end Correlation
