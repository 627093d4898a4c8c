import Mathlib.Data.List.Basic

/-!
# Runs of guarded step functions

A component is a *guarded, executable* step function `step : S → E → Option S`:
`step s e` is `some s'` when the event `e` can happen in `s`, and `none` when it
cannot.  A run is recorded together with the states it passed through
(`Path`), so that a statement can speak about every step of a run — the state a
step was taken in and the event it took — as well as about every state reached.

`Path.invariant` is the one induction of the development: an invariant that
holds at the start and survives every step allowed by `ok` holds at the end of
every run all of whose steps are allowed.  `Path.exact` is its sharp form, for a
property that holds along a run exactly if every step of the run is allowed, and
`Path.tally` that for a property which does not come back once it is lost.
`Path.project` deletes events from a run, `Path.simulate` sees a run as one of
another machine and `Path.lift` finds a run behind one that is seen.  `log` collects what the
steps of a run note down, for properties of the order in which things happened; `appends`
notes down what is appended to a list of the state.  `record` replays a list of events and is
what a concrete run is evaluated with.
-/

namespace Runs

universe u v

variable {S : Type u} {E : Type v}

/-- `Path step s₀ p s`: starting in `s₀`, the steps recorded in `p` — each with
the state it was taken in — lead to `s`. -/
inductive Path (step : S → E → Option S) (s₀ : S) : List (S × E) → S → Prop
  | nil : Path step s₀ [] s₀
  | snoc {p : List (S × E)} {s s' : S} {e : E} :
      Path step s₀ p s → step s e = some s' → Path step s₀ (p ++ [(s, e)]) s'

/-- The states a run passed through, the last one included. -/
def visited (p : List (S × E)) (s : S) : List S := p.map Prod.fst ++ [s]

theorem mem_visited_last (p : List (S × E)) (s : S) : s ∈ visited p s := by
  simp [visited]

/-- The states of a run that is one step longer. -/
theorem mem_visited_snoc {p : List (S × E)} {s s' t : S} {e : E} :
    t ∈ visited (p ++ [(s, e)]) s' ↔ t ∈ visited p s ∨ t = s' := by
  simp [visited, or_assoc]

/-- Where an entry of a list stands that is one entry longer. -/
theorem split_snoc {α : Type*} {xs before after : List α} {x y : α}
    (split : xs ++ [y] = before ++ x :: after) :
    (after = [] ∧ xs = before ∧ x = y) ∨
      ∃ rest, after = rest ++ [y] ∧ xs = before ++ x :: rest := by
  rcases List.eq_nil_or_concat after with rfl | ⟨rest, z, rfl⟩
  · obtain ⟨rfl, eq⟩ := List.append_inj' split rfl
    cases eq
    exact Or.inl ⟨rfl, rfl, rfl⟩
  · rw [List.concat_eq_append, ← List.cons_append, ← List.append_assoc] at split
    obtain ⟨eq, last⟩ := List.append_inj' split rfl
    cases last
    exact Or.inr ⟨rest, by simp, eq⟩

namespace Path

variable {step : S → E → Option S} {s₀ s : S} {p : List (S × E)}

/-- **The invariant rule.**  `ok` is the assumption a run is made under: it may
speak about each step's event and the state the step is taken in. -/
theorem invariant (I : S → Prop) (ok : S → E → Prop) (start : I s₀)
    (preserved : ∀ s e s', I s → ok s e → step s e = some s' → I s')
    (path : Path step s₀ p s) (allowed : ∀ x ∈ p, ok x.1 x.2) : I s := by
  induction path with
  | nil => exact start
  | @snoc p s s' e before stepped ih =>
      have earlier : ∀ x ∈ p, ok x.1 x.2 := fun x mem =>
        allowed x (List.mem_append_left _ mem)
      have last : ok s e := allowed (s, e) (by simp)
      exact preserved s e s' (ih earlier) last stepped

/-- The invariant rule for runs that are under no assumption. -/
theorem invariant_of_step (I : S → Prop) (start : I s₀)
    (preserved : ∀ s e s', I s → step s e = some s' → I s')
    (path : Path step s₀ p s) : I s :=
  path.invariant I (fun _ _ => True) start
    (fun s e s' inv _ stepped => preserved s e s' inv stepped) fun _ _ => trivial

/-- Every recorded step of a run is a step taken at the end of a shorter run. -/
theorem exists_of_mem {x : S × E} (path : Path step s₀ p s) (mem : x ∈ p) :
    ∃ q, q <+: p ∧ Path step s₀ q x.1 ∧ ∃ s', step x.1 x.2 = some s' := by
  induction path with
  | nil => simp at mem
  | @snoc p s s' e before stepped ih =>
      rcases List.mem_append.mp mem with earlier | last
      · obtain ⟨q, short, run, next⟩ := ih earlier
        exact ⟨q, short.trans (List.prefix_append _ _), run, next⟩
      · obtain rfl := List.mem_singleton.mp last
        exact ⟨p, List.prefix_append _ _, before, s', stepped⟩

/-- Every state of a run is the end of a shorter run. -/
theorem exists_of_visited {t : S} (path : Path step s₀ p s) (mem : t ∈ visited p s) :
    ∃ q, q <+: p ∧ Path step s₀ q t := by
  rcases List.mem_append.mp mem with earlier | last
  · obtain ⟨x, recorded, rfl⟩ := List.mem_map.mp earlier
    obtain ⟨q, short, run, -⟩ := path.exists_of_mem recorded
    exact ⟨q, short, run⟩
  · obtain rfl := List.mem_singleton.mp last
    exact ⟨p, List.prefix_rfl, path⟩

/-- **The invariant rule under assumptions.**  `A` is assumed of every state of
the run and `F` of every step of it. -/
theorem invariant_within (I A : S → Prop) (F : S → E → Prop) (start : I s₀)
    (preserved : ∀ s e s', I s → A s → A s' → F s e → step s e = some s' → I s')
    (path : Path step s₀ p s) (within : ∀ t ∈ visited p s, A t)
    (fair : ∀ x ∈ p, F x.1 x.2) : I s := by
  induction path with
  | nil => exact start
  | @snoc p s s' e before stepped ih =>
      have earlier : I s :=
        ih (fun t mem => within t (mem_visited_snoc.mpr (Or.inl mem)))
          fun x mem => fair x (List.mem_append_left _ mem)
      refine preserved s e s' earlier ?_ ?_ (fair (s, e) (by simp)) stepped
      · exact within s (mem_visited_snoc.mpr (Or.inl (mem_visited_last p s)))
      · exact within s' (mem_visited_last _ s')

/-- **The exact rule.**  `I` carries the argument, `P` is the property.  If an
allowed step keeps `I`, and a step that is not allowed ends in a state without
`P`, then `P` holds in every state of a run exactly if every step of the run is
allowed. -/
theorem exact (I A P : S → Prop) (F ok : S → E → Prop) (start : I s₀)
    (holds : ∀ s, I s → A s → P s)
    (preserved : ∀ s e s', I s → A s → A s' → F s e → ok s e → step s e = some s' → I s')
    (violated : ∀ s e s', I s → A s → A s' → F s e → ¬ ok s e → step s e = some s' →
      ¬ P s')
    (path : Path step s₀ p s) (within : ∀ t ∈ visited p s, A t)
    (fair : ∀ x ∈ p, F x.1 x.2) :
    (∀ t ∈ visited p s, P t) ↔ ∀ x ∈ p, ok x.1 x.2 := by
  -- Both directions in one induction: with all steps allowed so far, `I` holds.
  suffices both : ((∀ t ∈ visited p s, P t) → ∀ x ∈ p, ok x.1 x.2) ∧
      ((∀ x ∈ p, ok x.1 x.2) → I s ∧ ∀ t ∈ visited p s, P t) from
    ⟨both.1, fun allowed => (both.2 allowed).2⟩
  induction path with
  | nil =>
      refine ⟨fun _ x mem => by simp at mem, fun _ => ⟨start, fun t mem => ?_⟩⟩
      obtain rfl := List.mem_singleton.mp mem
      exact holds _ start (within _ (mem_visited_last _ _))
  | @snoc p s s' e before stepped ih =>
      have assumed : A s := within s (mem_visited_snoc.mpr (Or.inl (mem_visited_last p s)))
      have assumed' : A s' := within s' (mem_visited_last _ s')
      have fairLast : F s e := fair (s, e) (by simp)
      obtain ⟨ihs, ihok⟩ :=
        ih (fun t mem => within t (mem_visited_snoc.mpr (Or.inl mem)))
          fun x mem => fair x (List.mem_append_left _ mem)
      constructor
      · intro good x mem
        have earlier := ihs fun t mem => good t (mem_visited_snoc.mpr (Or.inl mem))
        rcases List.mem_append.mp mem with old | last
        · exact earlier x old
        · obtain rfl := List.mem_singleton.mp last
          by_contra bad
          exact violated s e s' (ihok earlier).1 assumed assumed' fairLast bad stepped
            (good s' (mem_visited_last _ s'))
      · intro allowed
        obtain ⟨inv, good⟩ := ihok fun x mem => allowed x (List.mem_append_left _ mem)
        have inv' : I s' :=
          preserved s e s' inv assumed assumed' fairLast (allowed (s, e) (by simp)) stepped
        refine ⟨inv', fun t mem => ?_⟩
        rcases mem_visited_snoc.mp mem with old | rfl
        · exact good t old
        · exact holds _ inv' assumed'

/-- **The tally rule.**  If `P` holds after a step exactly when it held before and the step is `ok`,
then it holds at the end of a run exactly if every step of the run is `ok`. -/
theorem tally (I P : S → Prop) (ok : S → E → Prop) (start : I s₀) (good : P s₀)
    (preserved : ∀ s e s', I s → step s e = some s' → I s')
    (each : ∀ s e s', I s → step s e = some s' → (P s' ↔ P s ∧ ok s e))
    (path : Path step s₀ p s) : P s ↔ ∀ x ∈ p, ok x.1 x.2 := by
  induction path with
  | nil => exact ⟨fun _ x mem => by simp at mem, fun _ => good⟩
  | @snoc p s s' e before stepped ih =>
      have inv : I s := before.invariant_of_step I start preserved
      rw [each s e s' inv stepped, ih]
      constructor
      · rintro ⟨earlier, last⟩ x mem
        rcases List.mem_append.mp mem with old | new
        · exact earlier x old
        · obtain rfl := List.mem_singleton.mp new
          exact last
      · exact fun all => ⟨fun x mem => all x (List.mem_append_left _ mem), all (s, e) (by simp)⟩

/-- A run up to one of its steps, and from there on. -/
theorem split {before after : List (S × E)} {t : S} {e : E}
    (path : Path step s₀ (before ++ (t, e) :: after) s) :
    Path step s₀ before t ∧ ∃ t', step t e = some t' ∧ Path step t' after s := by
  generalize whole : before ++ (t, e) :: after = p at path
  induction path generalizing after with
  | nil => simp at whole
  | @snoc p s s' e' earlier stepped ih =>
      rcases split_snoc whole.symm with ⟨rfl, rfl, last⟩ | ⟨rest, rfl, old⟩
      · cases last
        exact ⟨earlier, s', stepped, .nil⟩
      · obtain ⟨first, t', next, later⟩ := ih old.symm
        exact ⟨first, t', next, .snoc later stepped⟩

/-- The run up to one of its steps passes through no other states. -/
theorem exists_within {x : S × E} (path : Path step s₀ p s) (mem : x ∈ p) :
    ∃ q, Path step s₀ q x.1 ∧ ∀ t ∈ visited q x.1, t ∈ visited p s := by
  obtain ⟨before, after, rfl⟩ := List.append_of_mem mem
  obtain ⟨first, -⟩ := path.split
  refine ⟨before, first, fun t there => ?_⟩
  simp only [visited, List.map_append, List.map_cons, List.mem_append, List.mem_cons,
    List.not_mem_nil, or_false] at there ⊢
  tauto

/-- Two runs with a step between them are a run. -/
theorem join {before after : List (S × E)} {t t' : S} {e : E} (first : Path step s₀ before t)
    (next : step t e = some t') (second : Path step t' after s) :
    Path step s₀ (before ++ (t, e) :: after) s := by
  induction second with
  | nil => exact .snoc first next
  | @snoc p s s' e' earlier stepped ih =>
      rw [← List.cons_append, ← List.append_assoc]
      exact .snoc ih stepped

/-- **The deletion rule.**  `R` relates a state to a state of the run without the events that
`keep` does not keep.  If an event that is kept happens in both, and one that is deleted leaves
the relation as it is, then what remains of a run is a run, and its end is related. -/
theorem project {t₀ : S} (keep : E → Bool) (R : S → S → Prop) (start : R s₀ t₀)
    (kept : ∀ s t e s', R s t → keep e = true → step s e = some s' →
      ∃ t', step t e = some t' ∧ R s' t')
    (deleted : ∀ s t e s', R s t → keep e = false → step s e = some s' → R s' t)
    (path : Path step s₀ p s) :
    ∃ q t, Path step t₀ q t ∧ q.map Prod.snd = (p.map Prod.snd).filter keep ∧ R s t := by
  induction path with
  | nil => exact ⟨[], t₀, .nil, rfl, start⟩
  | @snoc p s s' e before stepped ih =>
      obtain ⟨q, t, run, events, related⟩ := ih
      cases kind : keep e with
      | true =>
          obtain ⟨t', next, related'⟩ := kept s t e s' related kind stepped
          refine ⟨q ++ [(t, e)], t', .snoc run next, ?_, related'⟩
          simp [events, kind]
      | false =>
          refine ⟨q, t, run, ?_, deleted s t e s' related kind stepped⟩
          simp [events, kind]

/-- **The lifting rule**, the converse: a run of the other machine is the view of a run, if each
step of a view is the view of a step. -/
theorem lift {T : Type*} {step' : T → E → Option T} (f : S → T) (I : S → Prop) (start : I s₀)
    (square : ∀ s e t, I s → step' (f s) e = some t → ∃ s', step s e = some s' ∧ f s' = t ∧ I s')
    {q : List (T × E)} {t : T} (path : Path step' (f s₀) q t) :
    ∃ p s, Path step s₀ p s ∧ p.map (fun x => (f x.1, x.2)) = q ∧ f s = t ∧ I s := by
  induction path with
  | nil => exact ⟨[], s₀, .nil, rfl, rfl, start⟩
  | @snoc q t t' e before stepped ih =>
      obtain ⟨p, s, run, rfl, rfl, inv⟩ := ih
      obtain ⟨s', next, rfl, inv'⟩ := square s e t' inv stepped
      exact ⟨p ++ [(s, e)], s', .snoc run next, by simp, rfl, inv'⟩

/-- A run can be extended at its front. -/
theorem cons {e : E} {s₁ : S} (first : step s₀ e = some s₁)
    (path : Path step s₁ p s) : Path step s₀ ((s₀, e) :: p) s := by
  induction path with
  | nil => exact snoc nil first
  | snoc before stepped ih => exact snoc ih stepped

end Path

/-! ## What a run leaves behind -/

section Log

variable {α : Type*} {step : S → E → Option S} {s₀ s : S} {p : List (S × E)}

/-- What the steps of a run note down, in order. -/
def log (note : S → E → List α) (p : List (S × E)) : List α := p.flatMap fun x => note x.1 x.2

theorem log_snoc (note : S → E → List α) (p : List (S × E)) (s : S) (e : E) :
    log note (p ++ [(s, e)]) = log note p ++ note s e := by
  simp [log]

theorem log_append (note : S → E → List α) (p q : List (S × E)) :
    log note (p ++ q) = log note p ++ log note q := by
  simp [log]

/-- What a step appends to a list that is part of the state. -/
def appends (step : S → E → Option S) (f : S → List α) (s : S) (e : E) : List α :=
  match step s e with
  | some s' => (f s').drop (f s).length
  | none => []

theorem appends_eq {f : S → List α} {s s' : S} {e : E} (stepped : step s e = some s') :
    appends step f s e = (f s').drop (f s).length := by
  simp only [appends, stepped]

theorem appends_of_append {f : S → List α} {s s' : S} {e : E} {xs : List α}
    (stepped : step s e = some s') (grown : f s' = f s ++ xs) : appends step f s e = xs := by
  rw [appends_eq stepped, grown, List.drop_left]

theorem appends_of_length_le {f : S → List α} {s s' : S} {e : E}
    (stepped : step s e = some s') (le : (f s').length ≤ (f s).length) :
    appends step f s e = [] := by
  rw [appends_eq stepped, List.drop_eq_nil_of_le le]

/-- **The invariant rule for what a run notes down**, under the assumption `ok` on the
steps. -/
theorem Path.log_invariant (note : S → E → List α) (I : List α → S → Prop) (ok : S → E → Prop)
    (start : I [] s₀)
    (preserved : ∀ j s e s', I j s → ok s e → step s e = some s' → I (j ++ note s e) s')
    (path : Path step s₀ p s) (allowed : ∀ x ∈ p, ok x.1 x.2) : I (log note p) s := by
  induction path with
  | nil => exact start
  | @snoc p s s' e before stepped ih =>
      rw [log_snoc]
      refine preserved _ s e s' (ih fun x mem => ?_) (allowed (s, e) (by simp)) stepped
      exact allowed x (List.mem_append_left _ mem)

end Log

/-- Replay a list of events; `none` when one of them cannot happen. -/
def replay (step : S → E → Option S) : S → List E → Option S
  | s, [] => some s
  | s, e :: es => (step s e).bind fun s' => replay step s' es

/-- The steps of a replay, each with the state it is taken in. -/
def record (step : S → E → Option S) : S → List E → List (S × E)
  | _, [] => []
  | s, e :: es =>
      (s, e) ::
        match step s e with
        | some s' => record step s' es
        | none => []

/-- A replay records no other events than those it was given. -/
theorem mem_of_mem_record {step : S → E → Option S} :
    ∀ (es : List E) {s : S} {x : S × E}, x ∈ record step s es → x.2 ∈ es := by
  intro es
  induction es with
  | nil =>
      intro s x mem
      cases mem
  | cons e es ih =>
      intro s x mem
      rcases List.mem_cons.mp mem with rfl | later
      · exact List.mem_cons_self
      · split at later
        · exact List.mem_cons_of_mem _ (ih later)
        · cases later

/-- What holds of each event in every state holds along a replay. -/
theorem forall_record {step : S → E → Option S} {s : S} {es : List E} {ok : S → E → Prop}
    (each : ∀ e ∈ es, ∀ t, ok t e) : ∀ x ∈ record step s es, ok x.1 x.2 :=
  fun x mem => each x.2 (mem_of_mem_record es mem) x.1

/-- What holds along a replay, step by step. -/
theorem forall_record_cons {step : S → E → Option S} {s s' : S} {e : E} {es : List E}
    {ok : S → E → Prop} (stepped : step s e = some s') (here : ok s e)
    (later : ∀ x ∈ record step s' es, ok x.1 x.2) : ∀ x ∈ record step s (e :: es), ok x.1 x.2 := by
  intro x mem
  simp only [record, stepped] at mem
  rcases List.mem_cons.mp mem with rfl | after
  · exact here
  · exact later x after

/-- A replay records at most one step for each event. -/
theorem length_record_le {step : S → E → Option S} :
    ∀ (es : List E) (s : S), (record step s es).length ≤ es.length := by
  intro es
  induction es with
  | nil => exact fun s => Nat.le_refl _
  | cons e es ih =>
      intro s
      simp only [record, List.length_cons]
      split
      · exact Nat.succ_le_succ (ih _)
      · exact Nat.succ_le_succ (Nat.zero_le _)

/-- A replay that goes through is a run. -/
theorem path_record {step : S → E → Option S} :
    ∀ (es : List E) {s s' : S}, replay step s es = some s' →
      Path step s (record step s es) s' := by
  intro es
  induction es with
  | nil =>
      intro s s' done
      cases done
      exact Path.nil
  | cons e es ih =>
      intro s s' done
      rw [replay, Option.bind_eq_some_iff] at done
      obtain ⟨next, first, rest⟩ := done
      simp only [record, first]
      exact Path.cons first (ih rest)

end Runs
