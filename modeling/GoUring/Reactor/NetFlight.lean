import GoUring.Reactor.NetDispatch

/-!
# Identifiers on their way in a network reactor

A completion is told from another by its user data alone.  `Carried` says why that is
enough in every run, whatever the publisher's error branch does: an identifier on its
way — in a channel, a submission queue, the kernel or a completion queue — belongs to a
request that has been sent and is outstanding, and it is on its way only once.  The one
assumption is that fewer than `2 ^ 32` requests are made for a descriptor during the life
of a request.

Unlike `Ledger.Consistent` this survives a request whose link timeout found no slot: its
callback is gone, but the request is still outstanding, so nobody else has its
identifier.
-/

namespace GoUring.Reactor

open Uring Correlation

namespace NetReactor

variable {n : ℕ} {s s' : NetReactor} {e : NetEvent}

/-- **An identifier on its way belongs to one request, and is on its way once.** -/
structure Carried (n : ℕ) (s : NetReactor) : Prop where
  owned : ∀ id ∈ (s.ledger n).flight, ∃ k t, s.Outstanding n k t ∧ t.id = id ∧
    (s.row k).launched = true
  once : ∀ id, (s.ledger n).flight.count id ≤ 1
  launched : ∀ k, s.ended k = true → (s.row k).launched = true

/-- A request stays outstanding as long as its identifier is on its way and its callback
is not invoked. -/
theorem Outstanding.kept {k : ℕ} {t : Ticket} (outstanding : s.Outstanding n k t)
    (ticket : s.numbering.ticket k = some t → s'.numbering.ticket k = some t)
    (invoked : k ∉ s'.invoked.map Prod.fst) (travels : t.id ∈ (s'.ledger n).flight) :
    s'.Outstanding n k t :=
  ⟨ticket outstanding.1, invoked, fun _ => travels⟩

/-- Nobody is invoked, and nothing is sent. -/
theorem Carried.of_le (carried : Carried n s)
    (kept : ∀ k t, s.numbering.ticket k = some t → s'.numbering.ticket k = some t)
    (rows : ∀ k, (s'.row k).launched = (s.row k).launched)
    (flight : (s'.ledger n).flight ≤ (s.ledger n).flight) (invoked : s'.invoked = s.invoked)
    (ended : ∀ k, s'.ended k = true → (s.row k).launched = true) : Carried n s' where
  owned := by
    intro id travels
    obtain ⟨k, t, outstanding, rfl, launched⟩ :=
      carried.owned id (Multiset.mem_of_le flight travels)
    refine ⟨k, t, outstanding.kept (kept k t) ?_ travels, rfl, (rows k).trans launched⟩
    rw [invoked]
    exact outstanding.2.1
  once := fun id => (Multiset.count_le_of_le id flight).trans (carried.once id)
  launched := fun k isOver => (rows k).trans (ended k isOver)

theorem ended_eq_of_quiet (quiet : Quiet s s') (k : ℕ) : s'.ended k = s.ended k := by
  rw [ended, ended, quiet.invoked, quiet.dropped]

/-- **The owner of an identifier on its way is the only outstanding request that has
it.** -/
theorem Carried.launched_of_live (carried : Carried n s) (base : Base n s)
    (life : s.LifeBound n) {k : ℕ} {id : RequestID} (live : (s.row k).Live id)
    (travels : id ∈ (s.ledger n).flight) : (s.row k).launched = true := by
  obtain ⟨t, outstanding, same⟩ := outstanding_of_live (n := n) live
  obtain ⟨j, u, outstanding', same', launched⟩ := carried.owned id travels
  obtain rfl := base.distinctIDs life j k u t outstanding' outstanding (same'.trans same.symm)
  exact launched

/-- The publisher takes a callback out of the registry. -/
theorem Carried.ended_pop (carried : Carried n s) (base : Base n s) (life : s.LifeBound n)
    {id : RequestID} (travels : id ∈ (s.ledger n).flight)
    (rows : s'.row = ((s.ledger n).pop id).row) (k : ℕ) (isOver : s'.ended k = true) :
    (s.row k).launched = true := by
  have popped : (((s.ledger n).pop id).row k).ended = true := by
    rw [← rows]
    exact isOver
  rcases Ledger.ended_pop popped with before | found
  · exact carried.launched k before
  · exact carried.launched_of_live base life (base.sound id k found).1 travels

/-- A call sends its request. -/
theorem Carried.send (carried : Carried n s) (base : Base n s) (life : s.LifeBound n) {k : ℕ}
    {id : RequestID} (key : (s.row k).key = some id) (grounded : (s.row k).launched = false)
    (numbering : s'.numbering = s.numbering) (ledger : s'.ledger n = (s.ledger n).launch k id)
    (quiet : Quiet s s') : Carried n s' := by
  have live : (s.row k).Live id := by
    refine ⟨key, Bool.eq_false_iff.mpr fun isOver => ?_⟩
    rw [carried.launched k isOver] at grounded
    cases grounded
  -- Nobody has sent this identifier: its owner would be the call itself.
  have fresh : id ∉ (s.ledger n).flight := by
    intro travels
    rw [carried.launched_of_live base life live travels] at grounded
    cases grounded
  have flight : (s'.ledger n).flight = id ::ₘ (s.ledger n).flight := by rw [ledger]; rfl
  have row : ∀ j, s'.row j = ((s.ledger n).launch k id).row j := fun j =>
    congrFun (congrArg Ledger.row ledger) j
  have launched : ∀ j, (s.row j).launched = true → (s'.row j).launched = true := by
    intro j before
    rw [row]
    by_cases this : j = k
    · subst this
      simp only [Ledger.launch, Function.update_self]
    · simp only [Ledger.launch, Function.update_of_ne this]
      exact before
  have kept : ∀ j t, s.Outstanding n j t → t.id ∈ (s'.ledger n).flight →
      s'.Outstanding n j t := by
    intro j t outstanding travels
    refine outstanding.kept (fun ticket => by rw [numbering]; exact ticket) ?_ travels
    rw [quiet.invoked]
    exact outstanding.2.1
  refine ⟨fun id' travels => ?_, fun id' => ?_, fun j isOver => ?_⟩
  · have travels' := travels
    rw [flight, Multiset.mem_cons] at travels'
    rcases travels' with rfl | old
    · obtain ⟨t, outstanding, rfl⟩ := outstanding_of_live (n := n) live
      refine ⟨k, t, kept k t outstanding travels, rfl, ?_⟩
      rw [row]
      simp only [Ledger.launch, Function.update_self]
    · obtain ⟨j, t, outstanding, rfl, before⟩ := carried.owned id' old
      exact ⟨j, t, kept j t outstanding travels, rfl, launched j before⟩
  · rw [flight, Multiset.count_cons]
    split
    · next same =>
      subst same
      rw [Multiset.count_eq_zero_of_notMem fresh]
    · exact carried.once id'
  · rw [ended_eq_of_quiet quiet] at isOver
    exact launched j (carried.launched j isOver)

/-- A callback is invoked. -/
theorem Carried.deliver (carried : Carried n s) (base : Base n s) (life : s.LifeBound n) {k : ℕ}
    {cqe : CQEvent} (found : s.registry.lookup cqe.userData = some k)
    (travels : cqe.userData ∈ (s.ledger n).flight) (numbering : s'.numbering = s.numbering)
    (ledger : s'.ledger n = (s.ledger n).land k cqe.userData)
    (invoked : s'.invoked = s.invoked ++ [(k, cqe)]) : Carried n s' := by
  obtain ⟨live, -⟩ := base.sound cqe.userData k found
  have flight : (s'.ledger n).flight = (s.ledger n).flight.erase cqe.userData := by
    rw [ledger]
    rfl
  have rows : ∀ j, s'.row j = ((s.ledger n).close k cqe.userData).row j := fun j =>
    congrFun (congrArg Ledger.row ledger) j
  have row : ∀ j, (s'.row j).launched = (s.row j).launched := by
    intro j
    rw [rows]
    exact Ledger.launched_close _ j k _
  refine ⟨fun id mem => ?_, fun id => ?_, fun j isOver => ?_⟩
  · have old : id ∈ (s.ledger n).flight := by
      rw [flight] at mem
      exact Multiset.mem_of_mem_erase mem
    obtain ⟨j, t, outstanding, rfl, launched⟩ := carried.owned id old
    -- The identifier that is back was on its way once, so this is another request.
    have other : j ≠ k := by
      rintro rfl
      obtain ⟨u, ticket, same⟩ := Option.map_eq_some_iff.mp live.1
      cases Option.some.inj (outstanding.1.symm.trans ticket)
      have gone := carried.once t.id
      rw [same] at gone mem
      rw [flight] at mem
      have count := Multiset.one_le_count_iff_mem.mpr mem
      rw [Multiset.count_erase_self] at count
      omega
    refine ⟨j, t, outstanding.kept (fun ticket => by rw [numbering]; exact ticket) ?_ mem, rfl,
      (row j).trans launched⟩
    rw [invoked, List.map_append, List.mem_append]
    rintro (before | last)
    · exact outstanding.2.1 before
    · exact other (List.mem_singleton.mp last)
  · rw [flight]
    exact (Multiset.count_le_of_le id (Multiset.erase_le _ _)).trans (carried.once id)
  · rw [row]
    by_cases this : j = k
    · subst this
      exact carried.launched_of_live base life live travels
    · have before : s.ended j = true := by
        have row' := rows j
        simp only [Ledger.close, Function.update_of_ne this] at row'
        exact (congrArg Row.ended row').symm.trans isOver
      exact carried.launched j before

/-- **Every step keeps the identifiers on their way apart.** -/
theorem Carried.step (carried : Carried n s) (some_loop : 0 < n) (base : Base n s)
    (life : s.LifeBound n) (stepped : s.step n e = some s') : Carried n s' := by
  have same : s'.numbering = s.numbering → ∀ k t, s.numbering.ticket k = some t →
      s'.numbering.ticket k = some t := fun eq k t ticket => eq ▸ ticket
  have calm : Quiet s s' → ∀ k, s'.ended k = true → (s.row k).launched = true := by
    intro quiet k isOver
    rw [ended_eq_of_quiet quiet] at isOver
    exact carried.launched k isOver
  have row : ∀ {L : Ledger UInt64}, s'.ledger n = L → ∀ k, s'.row k = L.row k :=
    fun ledger k => congrFun (congrArg Ledger.row ledger) k
  cases step_effect some_loop base.sound stepped with
  | idle numbering ledger quiet room =>
      exact carried.of_le (same numbering) (fun k => by rw [row ledger]; rfl)
        (by rw [ledger]) quiet.invoked (calm quiet)
  | draw fresh unregistered grounded numbering ledger quiet =>
      refine carried.of_le (numbering ▸ kept_draw fresh) (fun k => ?_) (by rw [ledger]; rfl)
        quiet.invoked (calm quiet)
      rw [row ledger]
      exact Ledger.launched_draw _ _ _ _
  | add fresh unregistered grounded numbering ledger quiet =>
      refine carried.of_le (numbering ▸ kept_draw fresh) (fun k => ?_) (by rw [ledger]; rfl)
        quiet.invoked (calm quiet)
      rw [row ledger, Ledger.launched_register]
      exact Ledger.launched_draw _ _ _ _
  | addNil fresh unregistered isNil numbering ledger quiet =>
      refine carried.of_le (numbering ▸ kept_draw fresh) (fun k => ?_) (by rw [ledger]; rfl)
        quiet.invoked (calm quiet)
      rw [row ledger]
      exact Ledger.launched_draw _ _ _ _
  | store key unregistered numbering ledger quiet =>
      refine carried.of_le (same numbering) (fun k => ?_) (by rw [ledger]; rfl) quiet.invoked
        (calm quiet)
      rw [row ledger]
      exact Ledger.launched_register _ _ _ _
  | storeNil isNil numbering ledger quiet =>
      exact carried.of_le (same numbering) (fun k => by rw [row ledger]; rfl)
        (by rw [ledger]; rfl) quiet.invoked (calm quiet)
  | send key grounded numbering ledger quiet =>
      exact carried.send base life key grounded numbering ledger quiet
  | deliver found travels numbering ledger invoked dropped calm =>
      exact carried.deliver base life found travels numbering ledger invoked
  | missing found travels =>
      exact carried.of_le (fun _ _ ticket => ticket) (fun _ => rfl) le_rfl rfl carried.launched
  | drop head request full travels numbering ledger invoked dropped calm =>
      refine carried.of_le (same numbering) (fun k => ?_) ?_ invoked
        (carried.ended_pop base life travels (congrArg Ledger.row ledger))
      · rw [row ledger]
        exact Ledger.launched_pop _ _ _
      · rw [ledger]
        exact Multiset.erase_le _ _
  | half lt head request timed last unread travels on numbering ledger invoked dropped calm =>
      refine carried.of_le (same numbering) (fun k => ?_) ?_ invoked
        (carried.ended_pop base life travels (congrArg Ledger.row ledger))
      · rw [row ledger]
        exact Ledger.launched_pop _ _ _
      · rw [ledger, Ledger.flight_pop]

/-- **An identifier that is back is on its way no more.** -/
theorem Carried.landed (carried : Carried n s) (some_loop : 0 < n) (base : Base n s) {k : ℕ}
    {cqe : CQEvent} (stepped : s.step n e = some s')
    (invoked : s'.invoked = s.invoked ++ [(k, cqe)]) :
    cqe.userData ∉ (s'.ledger n).flight := by
  have more : s'.invoked ≠ s.invoked := by
    intro same
    have lengths := congrArg List.length (invoked.symm.trans same)
    simp at lengths
  cases step_effect some_loop base.sound stepped with
  | @deliver l k' cqe' _ found travels numbering ledger invoked' =>
      obtain ⟨-, last⟩ := List.append_inj' (invoked'.symm.trans invoked) rfl
      cases last
      have flight : (s'.ledger n).flight = (s.ledger n).flight.erase cqe.userData := by
        rw [ledger]
        rfl
      intro travels'
      have count := Multiset.one_le_count_iff_mem.mpr travels'
      rw [flight, Multiset.count_erase_self] at count
      have once := carried.once cqe.userData
      omega
  | idle _ _ quiet => exact absurd quiet.invoked more
  | draw _ _ _ _ _ quiet => exact absurd quiet.invoked more
  | add _ _ _ _ _ quiet => exact absurd quiet.invoked more
  | addNil _ _ _ _ _ quiet => exact absurd quiet.invoked more
  | store _ _ _ _ quiet => exact absurd quiet.invoked more
  | storeNil _ _ _ quiet => exact absurd quiet.invoked more
  | send _ _ _ _ quiet => exact absurd quiet.invoked more
  | missing => exact absurd rfl more
  | drop _ _ _ _ _ _ same => exact absurd same more
  | half _ _ _ _ _ _ _ _ _ _ same => exact absurd same more

theorem carried_start (some_loop : 0 < n) (rings : ℕ → ReactorRing true) :
    Carried n (start n some_loop rings) := by
  have nothing : ((start n some_loop rings).ledger n).flight = 0 := by
    show requestIDs ((start n some_loop rings).held n) = 0
    rw [held_start]
    rfl
  refine ⟨fun id travels => ?_, fun id => ?_, fun k isOver => by cases isOver⟩
  · rw [nothing] at travels
    cases travels
  · rw [nothing, Multiset.count_zero]
    exact Nat.zero_le 1

end NetReactor

end GoUring.Reactor
