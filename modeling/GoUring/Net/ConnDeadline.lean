import GoUring.Net.ConnOwner

/-!
# Deadlines of connections

`SetReadDeadline(t)` with a `t` that has passed is meant to interrupt a `Read` that is
pending.  It cancels the request whose identifier `lastReadOpID` holds, and then sets the
deadline.  A `Read` reads the deadline, queues its request, and then stores the
identifier.  Nothing keeps these two apart: `SetReadDeadline` takes no lock.  If its two
accesses fall between those of a `Read`, or the other way round, the cancel names an
older request and the deadline comes too late, and the `Read` waits without a timeout
for a completion nobody will ask for.

`Apart` says of a step that this does not begin with it.  If all steps of a run are so,
then a pending call is interrupted in every state (`Timely.interrupts`): the call has
stored its identifier before it was read, or reads the deadline after it was set.
-/

namespace GoUring.Reactor

namespace NetCall

/-- The request of the call has a timeout, so it gets a link timeout. -/
def Timed (call : NetCall) : Prop := ∃ args ∈ call.args, args.timeout ≠ 0

variable {e : NetEvent} {k : ℕ} {call call' : NetCall}

theorem Timed.next (timed : call.Timed) (next : Next e k call call') : call'.Timed := by
  obtain ⟨args, known, timeout⟩ := timed
  exact ⟨args, next.args_eq known, timeout⟩

theorem HasReturned.next {id : RequestID} (returned : call.HasReturned id)
    (next : Next e k call call') : call'.HasReturned id := by
  obtain ⟨args, nonce, serial, rfl, same⟩ := returned
  rw [next.eq_of_launched rfl]
  exact ⟨args, nonce, serial, rfl, same⟩

end NetCall

end GoUring.Reactor

namespace GoUring.Net

open Uring Reactor

/-- The call of the package that an event is about. -/
def ConnEvent.call : ConnEvent → Option ℕ
  | .io k _ _ => some k
  | .setDeadline k _ _ => some k
  | .step k => some k
  | .receive k _ => some k
  | .net e => e.newCall
  | .tick _ => none

namespace ConnCall

/-- The direction whose deadline the call has read, without having stored its identifier
yet. -/
def between : ConnCall → Option HalfID
  | .sampled h _ _ => some h
  | .queueing h _ => some h
  | _ => none

/-- The direction whose last identifier the call has read to cancel it, without having set
the deadline yet; and the identifier. -/
def resets : ConnCall → Option (HalfID × RequestID)
  | .cancelling h _ id => some (h, id)
  | .storing h _ (some id) => some (h, id)
  | _ => none

/-- The direction whose last identifier the call is about to read. -/
def readsID : ConnCall → Option HalfID
  | .cancels h _ => some h
  | _ => none

/-- The direction whose deadline the call is about to read. -/
def readsDeadline : ConnCall → Option HalfID
  | .buffered h _ => some h
  | _ => none

/-- With its next step the call gets between the accesses of another: it reads the last
identifier before the other has stored its own, or it reads the deadline before the other
has set it. -/
def Clashes (call other : ConnCall) : Prop :=
  (∃ h ∈ call.readsID, other.between = some h) ∨
    ∃ h ∈ call.readsDeadline, other.resets.map Prod.fst = some h

instance (call other : ConnCall) : Decidable (call.Clashes other) :=
  inferInstanceAs (Decidable (_ ∨ _))

theorem not_clashes_free (call : ConnCall) : ¬ call.Clashes .free := by
  rintro (⟨h, -, ⟨⟩⟩ | ⟨h, -, ⟨⟩⟩)

/-- The deadline that has passed, of a call that found it so. -/
def expired : ConnCall → Option (Option ℤ)
  | .cancels _ t => some t
  | .cancelling _ t _ => some t
  | .storing _ t (some _) => some t
  | .set _ t (some _) => some t
  | _ => none

/-- While the cancel of `id` is under way on `h`: the call is not between its two accesses,
and if it waits, `id` is its identifier. -/
def Reached (h : HalfID) (id : RequestID) (inner : NetCall) : ConnCall → Prop
  | .sampled h' _ _ => h' ≠ h
  | .queueing h' _ => h' ≠ h
  | .waiting h' _ => h' = h → inner.HasReturned id
  | _ => True

/-- After the deadline `t` of `h` was set, with the cancel of `id`: the call sees the
deadline, has taken its timeout from it, or was cancelled. -/
def Sees (h : HalfID) (t : Option ℤ) (id : RequestID) (inner : NetCall) : ConnCall → Prop
  | .sampled h' _ deadline => h' = h → deadline = t
  | .queueing h' _ => h' = h → inner.Timed
  | .waiting h' _ => h' = h → inner.HasReturned id ∨ inner.Timed
  | _ => True

theorem Reached.sees {h : HalfID} {t : Option ℤ} {id : RequestID} {inner : NetCall}
    {call : ConnCall} (reached : call.Reached h id inner) : call.Sees h t id inner := by
  cases call with
  | sampled h' b deadline => exact fun same => absurd same reached
  | queueing h' b => exact fun same => absurd same reached
  | waiting h' b => exact fun same => Or.inl (reached same)
  | _ => trivial

/-- A call that cancels is no `Read` and no `Write`. -/
theorem reached_of_resets {h h' : HalfID} {id id' : RequestID} {inner : NetCall} {call : ConnCall}
    (resets : call.resets = some (h', id')) : call.Reached h id inner := by
  cases call with
  | cancelling _ _ _ => trivial
  | storing _ _ _ => trivial
  | _ => cases resets

/-- The call is at a place that the deadlines do not care about: it neither has read one
nor waits, and it sets none that has passed. -/
def Aside : ConnCall → Prop
  | .sampled _ _ _ => False
  | .queueing _ _ => False
  | .waiting _ _ => False
  | .cancels _ _ => False
  | .cancelling _ _ _ => False
  | .storing _ _ id => id = none
  | .set _ _ _ => False
  | _ => True

theorem Aside.expired {call : ConnCall} (aside : call.Aside) : call.expired = none := by
  cases call with
  | storing h t id =>
      obtain rfl : id = none := aside
      rfl
  | cancels h t => exact aside.elim
  | cancelling h t id => exact aside.elim
  | set h t id => exact aside.elim
  | _ => rfl

theorem Aside.resets {call : ConnCall} (aside : call.Aside) : call.resets = none := by
  cases call with
  | storing h t id =>
      obtain rfl : id = none := aside
      rfl
  | cancelling h t id => exact aside.elim
  | _ => rfl

theorem Aside.reached {h : HalfID} {id : RequestID} {inner : NetCall} {call : ConnCall}
    (aside : call.Aside) : call.Reached h id inner := by
  cases call with
  | sampled h' b deadline => exact aside.elim
  | queueing h' b => exact aside.elim
  | waiting h' b => exact aside.elim
  | _ => trivial

variable {e : NetEvent} {k : ℕ} {inner inner' : NetCall}

theorem Reached.next {h : HalfID} {id : RequestID} {call : ConnCall}
    (reached : call.Reached h id inner) (next : NetCall.Next e k inner inner') :
    call.Reached h id inner' := by
  cases call with
  | waiting h' b => exact fun same => (reached same).next next
  | _ => exact reached

theorem Sees.next {h : HalfID} {t : Option ℤ} {id : RequestID} {call : ConnCall}
    (sees : call.Sees h t id inner) (next : NetCall.Next e k inner inner') :
    call.Sees h t id inner' := by
  cases call with
  | queueing h' b => exact fun same => (sees same).next next
  | waiting h' b =>
      intro same
      rcases sees same with returned | timed
      · exact Or.inl (returned.next next)
      · exact Or.inr (timed.next next)
  | _ => exact sees

end ConnCall

namespace ConnSystem

variable {n : ℕ} {fds : Sockets} {s s' : ConnSystem} {e : ConnEvent}

/-- A `Cancel` that names `id` was sent. -/
def CancelSent (s : ConnSystem) (id : RequestID) : Prop :=
  ∃ d h t, s.calls d = .storing h t (some id) ∨ s.calls d = .set h t (some id)

/-- **An expired deadline interrupts the pending call.**  If `SetReadDeadline(t)` has
returned, `t` had passed, and the deadline was not set since, then a `Read` that waits was
cancelled or carries a link timeout; likewise for `Write`. -/
def Interrupts (s : ConnSystem) : Prop :=
  ∀ d k h t id b, s.calls d = .set h t (some id) → (s.halves h).setter = some d →
    s.calls k = .waiting h b →
      (∃ own, (s.net.calls k).HasReturned own ∧ s.CancelSent own) ∨ (s.net.calls k).Timed

/-- With this step no `Read` and no `SetReadDeadline` get between each other's accesses,
and no `Write` and no `SetWriteDeadline`. -/
def Apart (s : ConnSystem) (e : ConnEvent) : Prop :=
  ∀ d, ∀ k ∈ e.call, ¬ (s.calls k).Clashes (s.calls d)

/-- What holds along a run that keeps them apart. -/
structure Timely (s : ConnSystem) : Prop where
  past : ∀ d t, (s.calls d).expired = some t → ∃ t₀ ∈ t, t₀ < s.clock
  setter : ∀ h d, (s.halves h).setter = some d →
    ∃ id, s.calls d = .set h (s.halves h).deadline id
  during : ∀ d k h id, (s.calls d).resets = some (h, id) →
    (s.calls k).Reached h id (s.net.calls k)
  after : ∀ d k h t id, s.calls d = .set h t (some id) → (s.halves h).setter = some d →
    (s.calls k).Sees h t id (s.net.calls k)

theorem timely_start (some_loop : 0 < n) (rings : ℕ → ReactorRing true) (now : ℤ) :
    (start n some_loop rings now).Timely where
  past := fun _ _ expired => by cases expired
  setter := fun _ _ set => by cases set
  during := fun _ _ _ _ resets => by cases resets
  after := fun _ _ _ _ _ here => by cases here

theorem Timely.interrupts (inv : s.Timely) : s.Interrupts := by
  intro d k h t id b here set waits
  have sees := inv.after d k h t id here set
  rw [waits] at sees
  rcases sees rfl with returned | timed
  · exact Or.inl ⟨id, returned, d, h, t, Or.inr here⟩
  · exact Or.inr timed

/-- A call moves on, not to the end of a `SetReadDeadline`, and no deadline changes. -/
theorem Timely.move (inv : s.Timely) {k : ℕ} {call : ConnCall}
    (calls : s'.calls = Function.update s.calls k call)
    (inner : ∀ j, ∃ e, NetCall.Next e j (s.net.calls j) (s'.net.calls j))
    (deadlines : ∀ h, (s'.halves h).deadline = (s.halves h).deadline ∧
      (s'.halves h).setter = (s.halves h).setter)
    (clock : s'.clock = s.clock) (busy : ∀ h t id, s.calls k ≠ .set h t id)
    (unset : ∀ h t id, call ≠ .set h t id)
    (past : ∀ t, call.expired = some t → ∃ t₀ ∈ t, t₀ < s.clock)
    (reached : ∀ d h id, (s.calls d).resets = some (h, id) →
      call.Reached h id (s'.net.calls k))
    (resets : ∀ h id, call.resets = some (h, id) → ∀ j, j ≠ k →
      (s.calls j).Reached h id (s.net.calls j))
    (sees : ∀ d h t id, s.calls d = .set h t (some id) → (s.halves h).setter = some d →
      call.Sees h t id (s'.net.calls k)) : s'.Timely := by
  have old : ∀ {j}, j ≠ k → s'.calls j = s.calls j := fun other => by
    rw [calls, Function.update_of_ne other]
  have new : s'.calls k = call := by rw [calls, Function.update_self]
  refine ⟨fun d t => ?_, fun h d => ?_, fun d j h id => ?_, fun d j h t id => ?_⟩
  · rw [clock]
    by_cases this : d = k
    · subst this
      rw [new]
      exact past t
    · rw [old this]
      exact inv.past d t
  · rw [(deadlines h).1, (deadlines h).2]
    intro set
    obtain ⟨id, here⟩ := inv.setter h d set
    have other : d ≠ k := by
      rintro rfl
      exact busy h _ id here
    exact ⟨id, by rw [old other]; exact here⟩
  · intro under
    obtain ⟨e, next⟩ := inner j
    by_cases mine : d = k
    · subst mine
      rw [new] at under
      by_cases this : j = d
      · subst this
        rw [new]
        exact ConnCall.reached_of_resets under
      · rw [old this]
        exact (resets h id under j this).next next
    · rw [old mine] at under
      by_cases this : j = k
      · subst this
        rw [new]
        exact reached d h id under
      · rw [old this]
        exact (inv.during d j h id under).next next
  · intro here
    rw [(deadlines h).2]
    intro set
    have other : d ≠ k := by
      rintro rfl
      rw [new] at here
      exact unset h t _ here
    rw [old other] at here
    obtain ⟨e, next⟩ := inner j
    by_cases this : j = k
    · subst this
      rw [new]
      exact sees d h t id here set
    · rw [old this]
      exact (inv.after d j h t id here set).next next

/-- A call moves on to a place where it is neither between its accesses nor waiting. -/
theorem Timely.quiet (inv : s.Timely) {k : ℕ} {call call' : ConnCall} (here : s.calls k = call)
    (calls : s'.calls = Function.update s.calls k call')
    (inner : ∀ j, ∃ e, NetCall.Next e j (s.net.calls j) (s'.net.calls j))
    (deadlines : ∀ h, (s'.halves h).deadline = (s.halves h).deadline ∧
      (s'.halves h).setter = (s.halves h).setter)
    (clock : s'.clock = s.clock) (busy : ∀ h t id, call ≠ .set h t id)
    (unset : ∀ h t id, call' ≠ .set h t id)
    (past : ∀ t, call'.expired = some t → ∃ t₀ ∈ t, t₀ < s.clock)
    (resets : ∀ x, call'.resets = some x → call.resets = some x)
    (free : ∀ h t id inner, call'.Reached h id inner ∧ call'.Sees h t id inner) : s'.Timely := by
  refine inv.move calls inner deadlines clock (fun h t id => by rw [here]; exact busy h t id)
    unset past (fun _ h id _ => (free h none id _).1) (fun h id under j other => ?_)
    fun _ h t id _ _ => (free h t id _).2
  refine inv.during k j h id ?_
  rw [here]
  exact resets _ under

/-- The deadlines, when one direction changes in another way. -/
theorem deadlines_setHalf {h : HalfID} {half : Half}
    (same : half.deadline = (s.halves h).deadline ∧ half.setter = (s.halves h).setter)
    (h' : HalfID) :
    (Function.update s.halves h half h').deadline = (s.halves h').deadline ∧
      (Function.update s.halves h half h').setter = (s.halves h').setter := by
  by_cases this : h' = h
  · subst this
    rw [Function.update_self]
    exact same
  · rw [Function.update_of_ne this]
    exact ⟨rfl, rfl⟩

/-- The reactor makes a step. -/
theorem Timely.hostMove (inv : s.Timely) {e : NetEvent} (moved : HostMove n fds s e s') :
    s'.Timely := by
  refine ⟨?_, ?_, fun d k h id under => ?_, fun d k h t id here set => ?_⟩
  · rw [moved.calls, moved.clock]
    exact inv.past
  · rw [moved.calls, moved.halves]
    exact inv.setter
  · rw [moved.calls] at under ⊢
    exact (inv.during d k h id under).next (moved.next k)
  · rw [moved.calls] at here ⊢
    rw [moved.halves] at set
    exact (inv.after d k h t id here set).next (moved.next k)

/-- The deadline of `h` is set. -/
theorem Timely.store (inv : s.Timely) {k : ℕ} {h : HalfID} {t : Option ℤ}
    {id : Option RequestID} (here : s.calls k = .storing h t id) :
    ((s.setHalf h { s.halves h with deadline := t, setter := some k }).setCall k
      (.set h t id)).Timely := by
  have old : ∀ {j}, j ≠ k → Function.update s.calls k (.set h t id) j = s.calls j :=
    fun other => Function.update_of_ne other _ _
  refine ⟨fun d t' expired => ?_, fun h' d set => ?_, fun d j h' id' under => ?_,
    fun d j h' t' id' there set => ?_⟩
  · change (Function.update s.calls k _ d).expired = some t' at expired
    show ∃ t₀ ∈ t', t₀ < s.clock
    by_cases this : d = k
    · subst this
      rw [Function.update_self] at expired
      refine inv.past d t' ?_
      rw [here]
      cases id with
      | none => cases expired
      | some id => exact expired
    · rw [old this] at expired
      exact inv.past d t' expired
  · change (Function.update s.halves h _ h').setter = some d at set
    show ∃ id', Function.update s.calls k _ d =
      .set h' (Function.update s.halves h _ h').deadline id'
    by_cases this : h' = h
    · subst this
      rw [Function.update_self] at set ⊢
      cases set
      rw [Function.update_self]
      exact ⟨id, rfl⟩
    · rw [Function.update_of_ne this] at set ⊢
      obtain ⟨id', there⟩ := inv.setter h' d set
      have other : d ≠ k := by
        rintro rfl
        rw [here] at there
        cases there
      rw [old other]
      exact ⟨id', there⟩
  · change (Function.update s.calls k _ d).resets = some (h', id') at under
    show (Function.update s.calls k _ j).Reached h' id' (s.net.calls j)
    have other : d ≠ k := by
      rintro rfl
      rw [Function.update_self] at under
      cases under
    rw [old other] at under
    by_cases this : j = k
    · subst this
      rw [Function.update_self]
      trivial
    · rw [old this]
      exact inv.during d j h' id' under
  · change Function.update s.calls k _ d = .set h' t' (some id') at there
    change (Function.update s.halves h _ h').setter = some d at set
    show (Function.update s.calls k _ j).Sees h' t' id' (s.net.calls j)
    by_cases mine : j = k
    · subst mine
      rw [Function.update_self]
      trivial
    · rw [old mine]
      by_cases this : h' = h
      · subst this
        rw [Function.update_self] at set
        cases set
        rw [Function.update_self] at there
        cases there
        -- Until now the cancel was under way.
        refine (inv.during k j h' id' ?_).sees
        rw [here]
        rfl
      · rw [Function.update_of_ne this] at set
        have other : d ≠ k := by
          rintro rfl
          rw [Function.update_self] at there
          cases there
          exact this rfl
        rw [old other] at there
        exact inv.after d j h' t' id' there set

/-- The calls of the reactor that nobody moves. -/
theorem still (s : ConnSystem) (j : ℕ) :
    ∃ e, NetCall.Next e j (s.net.calls j) (s.net.calls j) := ⟨.draw 0, .stay _⟩

/-- A call moves on to a place that the deadlines do not care about. -/
theorem Timely.aside (inv : s.Timely) {k : ℕ} {call call' : ConnCall} (here : s.calls k = call)
    (calls : s'.calls = Function.update s.calls k call')
    (inner : ∀ j, ∃ e, NetCall.Next e j (s.net.calls j) (s'.net.calls j))
    (deadlines : ∀ h, (s'.halves h).deadline = (s.halves h).deadline ∧
      (s'.halves h).setter = (s.halves h).setter)
    (clock : s'.clock = s.clock) (busy : ∀ h t id, call ≠ .set h t id) (aside : call'.Aside) :
    s'.Timely := by
  refine inv.quiet here calls inner deadlines clock busy ?_ (fun t expired => ?_)
    (fun x resets => ?_) fun h t id inner => ⟨aside.reached, aside.reached.sees⟩
  · rintro h t id rfl
    exact aside
  · rw [aside.expired] at expired
    cases expired
  · rw [aside.resets] at resets
    cases resets

/-- A `Read` or `Write` reads its deadline. -/
theorem Timely.sample (inv : s.Timely) {k : ℕ} {h : HalfID} {b : Slice}
    (apart : s.Apart (.step k)) (here : s.calls k = .buffered h b) :
    (s.setCall k (.sampled h b (s.halves h).deadline)).Timely := by
  refine inv.move rfl s.still (fun _ => ⟨rfl, rfl⟩) rfl (by rw [here]; rintro _ _ _ ⟨⟩)
    (by rintro _ _ _ ⟨⟩) (by rintro _ ⟨⟩) (fun d h' id under => ?_) (by rintro _ _ ⟨⟩)
    fun d h' t id there set => ?_
  · rintro rfl
    refine apart d k rfl (Or.inr ⟨h, ?_, ?_⟩)
    · rw [here]
      rfl
    · rw [under]
      rfl
  · rintro rfl
    obtain ⟨id', there'⟩ := inv.setter h d set
    rw [there] at there'
    cases there'
    rfl

/-- A `Read` or `Write` calls `QueueWithDeadline` with the deadline it has read. -/
theorem Timely.queue (inv : s.Timely) {k : ℕ} {h : HalfID} {b : Slice} {deadline : Option ℤ}
    (here : s.calls k = .sampled h b deadline)
    (moved : HostMove n fds s (.queue k (s.queueArgs fds h deadline)) s') :
    (s'.setCall k (.queueing h b)).Timely := by
  have inv' := inv.hostMove moved
  have here' : s'.calls k = .sampled h b deadline := by rw [moved.calls, here]
  refine inv'.move rfl s'.still (fun _ => ⟨rfl, rfl⟩) rfl
    (by rw [here']; rintro _ _ _ ⟨⟩) (by rintro _ _ _ ⟨⟩) (by rintro _ ⟨⟩)
    (fun d h' id under => ?_) (by rintro _ _ ⟨⟩) fun d h' t id there set => ?_
  · have reached := inv'.during d k h' id under
    rw [here'] at reached
    exact reached
  · rintro rfl
    -- The deadline that was read has passed, so there is a timeout.
    have sees := inv'.after d k h t id there set
    rw [here'] at sees
    obtain rfl := sees rfl
    obtain ⟨t₀, rfl, past⟩ := inv'.past d _ (by rw [there]; rfl)
    refine ⟨s.queueArgs fds h (some t₀), ?_, ?_⟩
    · show (s'.net.calls k).args = _
      rw [(moved.made rfl).1 _ rfl]
      rfl
    · rw [moved.clock] at past
      exact timeUntil_ne_zero past

/-- `SetReadDeadline` or `SetWriteDeadline` calls `Cancel` with the last identifier. -/
theorem Timely.cancel (inv : s.Timely) (locks : s.Disciplined) {k : ℕ} {h : HalfID}
    {t : Option ℤ} (apart : s.Apart (.step k)) (here : s.calls k = .cancels h t)
    (moved : HostMove n fds s (.cancel k (s.halves h).lastOpID) s') :
    (s'.setCall k (.cancelling h t (s.halves h).lastOpID)).Timely := by
  have inv' := inv.hostMove moved
  have here' : s'.calls k = .cancels h t := by rw [moved.calls, here]
  refine inv'.move rfl s'.still (fun _ => ⟨rfl, rfl⟩) rfl
    (by rw [here']; rintro _ _ _ ⟨⟩) (by rintro _ _ _ ⟨⟩) ?_ (fun _ _ _ _ => trivial)
    (fun h' id under j other => ?_) fun _ _ _ _ _ _ => trivial
  · rintro _ ⟨⟩
    exact inv'.past k t (by rw [here']; rfl)
  · cases under
    -- Whoever waits has its identifier as the last one, and nobody is in between.
    rw [moved.calls]
    have alone : (s.calls j).between ≠ some h := fun clash =>
      apart j k rfl (Or.inl ⟨h, by rw [here]; rfl, clash⟩)
    have lock := locks j h
    cases call : s.calls j with
    | sampled h' b deadline =>
        rintro rfl
        rw [call] at alone
        exact alone rfl
    | queueing h' b =>
        rintro rfl
        rw [call] at alone
        exact alone rfl
    | waiting h' b =>
        rintro rfl
        rw [call] at lock
        exact (lock rfl).2.2.next (moved.next j)
    | _ => trivial

/-- **A step that keeps the accesses apart keeps the deadlines timely.** -/
theorem Timely.step (inv : s.Timely) (locks : s.Disciplined) (apart : s.Apart e)
    (stepped : s.step n fds e = some s') : s'.Timely := by
  cases step_transition stepped with
  | io here =>
      exact inv.aside here rfl s.still (fun _ => ⟨rfl, rfl⟩) rfl (by rintro _ _ _ ⟨⟩) trivial
  | setDeadline here =>
      exact inv.aside here rfl s.still (fun _ => ⟨rfl, rfl⟩) rfl (by rintro _ _ _ ⟨⟩) trivial
  | lock here free =>
      exact inv.aside here rfl s.still (deadlines_setHalf ⟨rfl, rfl⟩) rfl
        (by rintro _ _ _ ⟨⟩) trivial
  | setBuffer here =>
      exact inv.aside here rfl s.still (deadlines_setHalf ⟨rfl, rfl⟩) rfl
        (by rintro _ _ _ ⟨⟩) trivial
  | sample here => exact inv.sample apart here
  | queue here moved => exact inv.queue here moved
  | @storeID k h b args nonce serial here returned =>
      refine inv.move rfl s.still (deadlines_setHalf ⟨rfl, rfl⟩) rfl
        (by rw [here]; rintro _ _ _ ⟨⟩) (by rintro _ _ _ ⟨⟩) (by rintro _ ⟨⟩)
        (fun d h' id under => ?_) (by rintro _ _ ⟨⟩) fun d h' t id there set => ?_
      · have reached := inv.during d k h' id under
        rw [here] at reached
        exact fun same => absurd same reached
      · have sees := inv.after d k h' t id there set
        rw [here] at sees
        exact fun same => Or.inr (sees same)
  | finish here =>
      exact inv.aside here rfl s.still (deadlines_setHalf ⟨rfl, rfl⟩) rfl
        (by rintro _ _ _ ⟨⟩) trivial
  | @expire k h t here expired =>
      refine inv.quiet here rfl s.still (fun _ => ⟨rfl, rfl⟩) rfl (by rintro _ _ _ ⟨⟩)
        (by rintro _ _ _ ⟨⟩) ?_ (by rintro _ ⟨⟩) fun _ _ _ _ => ⟨trivial, trivial⟩
      rintro _ ⟨⟩
      obtain ⟨t₀, mem, past⟩ := expired
      exact ⟨t₀, mem, (timeUntil_neg_iff t₀ s.clock).mp past⟩
  | keep here =>
      exact inv.aside here rfl s.still (fun _ => ⟨rfl, rfl⟩) rfl (by rintro _ _ _ ⟨⟩) rfl
  | cancel here moved => exact inv.cancel locks apart here moved
  | @cancelled k h t id here sent =>
      refine inv.quiet here rfl s.still (fun _ => ⟨rfl, rfl⟩) rfl (by rintro _ _ _ ⟨⟩)
        (by rintro _ _ _ ⟨⟩) ?_ (fun _ same => same) fun _ _ _ _ => ⟨trivial, trivial⟩
      rintro _ ⟨⟩
      exact inv.past k t (by rw [here]; rfl)
  | store here => exact inv.store here
  | receive here there same =>
      exact inv.aside here rfl s.still (fun _ => ⟨rfl, rfl⟩) rfl (by rintro _ _ _ ⟨⟩) trivial
  | @foreign k e s₁ here new moved =>
      have here' : s₁.calls k = .free := by rw [moved.calls, here]
      exact (inv.hostMove moved).aside here' rfl s₁.still (fun _ => ⟨rfl, rfl⟩) rfl
        (by rintro _ _ _ ⟨⟩) trivial
  | net old moved => exact inv.hostMove moved
  | @tick d =>
      refine ⟨fun k t expired => ?_, inv.setter, inv.during, inv.after⟩
      obtain ⟨t₀, mem, past⟩ := inv.past k t expired
      refine ⟨t₀, mem, past.trans_le ?_⟩
      show s.clock ≤ s.clock + (d : ℤ)
      omega

/-! ## Runs -/

/-- **An expired deadline interrupts the pending call**, in every run in which the accesses
of `Read` and `SetReadDeadline`, and of `Write` and `SetWriteDeadline`, are kept apart. -/
theorem expired_deadline_interrupts (n : ℕ) (some_loop : 0 < n) (rings : ℕ → ReactorRing true)
    (fds : Sockets) (now : ℤ) {p : List (ConnSystem × ConnEvent)} {s : ConnSystem}
    (path : Runs.Path (step n fds) (start n some_loop rings now) p s)
    (apart : ∀ x ∈ p, x.1.Apart x.2) : s.Interrupts := by
  have inv : s.Disciplined ∧ s.Timely := by
    refine path.invariant (fun s => s.Disciplined ∧ s.Timely) Apart
      ⟨disciplined_start some_loop rings now, timely_start some_loop rings now⟩ ?_ apart
    rintro s e s' ⟨locks, timely⟩ apart stepped
    exact ⟨locks.step stepped, timely.step locks apart stepped⟩
  exact inv.2.interrupts

/-- A step moves at most the call it is about. -/
theorem calls_of_ne {d : ℕ} (stepped : s.step n fds e = some s') (other : e.call ≠ some d) :
    s'.calls d = s.calls d := by
  have moved : ∀ {k : ℕ} {call : ConnCall} {t : ConnSystem}, t.calls = s.calls →
      some k ≠ some d → Function.update t.calls k call d = s.calls d := by
    intro k call t same other
    rw [Function.update_of_ne (fun eq => other (congrArg some eq.symm)), same]
  cases step_transition stepped with
  | queue here host => exact moved host.calls other
  | cancel here host => exact moved host.calls other
  | foreign here new host => exact moved host.calls (new ▸ other)
  | net old host => rw [host.calls]
  | tick => rfl
  | _ => exact moved rfl other

/-- The calls that no step of a run is about were not made. -/
theorem calls_eq_free {some_loop : 0 < n} {rings : ℕ → ReactorRing true} {now : ℤ}
    {p : List (ConnSystem × ConnEvent)}
    (path : Runs.Path (step n fds) (start n some_loop rings now) p s) {d : ℕ}
    (others : ∀ x ∈ p, x.2.call ≠ some d) : s.calls d = .free := by
  refine path.invariant (fun s => s.calls d = .free) (fun _ e => e.call ≠ some d) rfl
    (fun s e s' free other stepped => ?_) others
  rw [calls_of_ne stepped other]
  exact free

/-- The start of the runs below. -/
def initial : ConnSystem := start 1 Nat.one_pos NetReactor.oneSlot 0

/-- Runs of two calls make no other. -/
theorem calls_eq_free_of_two {events : List ConnEvent}
    (two : ∀ e ∈ events, ∀ k ∈ e.call, k < 2) {q : List (ConnSystem × ConnEvent)}
    (path : Runs.Path (step 1 sockets) initial q s)
    (part : q <+: Runs.record (step 1 sockets) initial events) {d : ℕ} (other : ¬ d < 2) :
    s.calls d = .free :=
  calls_eq_free path fun x mem same =>
    other (two x.2 (Runs.mem_of_mem_record events (part.subset mem)) d same)

/-- `SetReadDeadline(t)` with a `t` that has passed, from its call to its return. -/
def expiredRun (d : ℕ) (h : HalfID) (t : ℤ) : List ConnEvent :=
  [.setDeadline d h (some t), .step d, .step d, .net (.send d), .step d, .step d]

/-- A `Read` that waits when the deadline is set. -/
def interruptedRun : List ConnEvent :=
  queuedIO 0 readHalf ⟨4096, 16⟩ ++ .step 0 :: expiredRun 1 readHalf (-5)

/-- The `Read` is cancelled. -/
theorem expired_deadline_interrupts_read :
    ∃ p s, Runs.Path (step 1 sockets) initial p s ∧
      s.calls 1 = .set readHalf (some (-5)) (some (packRequestID 3 1)) ∧
      (s.halves readHalf).setter = some 1 ∧ s.calls 0 = .waiting readHalf ⟨4096, 16⟩ ∧
      (∀ x ∈ p, x.1.Apart x.2) ∧ s.Interrupts := by
  have path : Runs.Path (step 1 sockets) initial
      (Runs.record (step 1 sockets) initial interruptedRun) _ :=
    Runs.path_record interruptedRun rfl
  have checked : ∀ x ∈ Runs.record (step 1 sockets) initial interruptedRun,
      ∀ d < 2, ∀ k ∈ x.2.call, ¬ (x.1.calls k).Clashes (x.1.calls d) := by
    decide +kernel
  have apart : ∀ x ∈ Runs.record (step 1 sockets) initial interruptedRun, x.1.Apart x.2 := by
    intro x mem d
    by_cases few : d < 2
    · exact checked x mem d few
    · obtain ⟨q, part, run, -⟩ := path.exists_of_mem mem
      rw [calls_eq_free_of_two (by decide) run part few]
      exact fun k _ => ConnCall.not_clashes_free _
  exact ⟨_, _, path, rfl, rfl, rfl, apart,
    expired_deadline_interrupts 1 Nat.one_pos NetReactor.oneSlot sockets 0 path apart⟩

/-- A `Read` that has sent its request, but stores its identifier only after the deadline
is set. -/
def missedRun : List ConnEvent :=
  queuedIO 0 readHalf ⟨4096, 16⟩ ++ expiredRun 1 readHalf (-5) ++ [.step 0]

/-- **An expired deadline can miss the pending call.**  `SetReadDeadline` finds the
identifier 0 of a new connection and cancels that; the request of the `Read` was sent
before the deadline was set, and has no timeout. -/
theorem expired_deadline_misses_read :
    ∃ p s, Runs.Path (step 1 sockets) initial p s ∧
      (∃ x ∈ p, x.2 = .step 1 ∧ x.1.calls 1 = .storing readHalf (some (-5)) (some 0) ∧
        (x.1.net.calls 0).HasReturned (packRequestID 3 1)) ∧
      s.calls 1 = .set readHalf (some (-5)) (some 0) ∧ (s.halves readHalf).setter = some 1 ∧
      s.calls 0 = .waiting readHalf ⟨4096, 16⟩ ∧ ¬ s.Interrupts := by
  obtain ⟨s, path, deadline, setter, read, args, sent, id, timeout⟩ :
      ∃ s, Runs.Path (step 1 sockets) initial (Runs.record (step 1 sockets) initial missedRun) s ∧
        s.calls 1 = .set readHalf (some (-5)) (some 0) ∧ (s.halves readHalf).setter = some 1 ∧
        s.calls 0 = .waiting readHalf ⟨4096, 16⟩ ∧
        ∃ args, s.net.calls 0 = .returned args 1 1 ∧
          (args.op.ticket 1 1).id = packRequestID 3 1 ∧ args.timeout = 0 :=
    ⟨_, Runs.path_record missedRun rfl, rfl, rfl, rfl, _, rfl, rfl, rfl⟩
  refine ⟨_, s, path, ⟨_, List.mem_of_getElem? (i := 13) rfl, rfl, rfl, _, 1, 1, rfl, rfl⟩,
    deadline, setter, read, fun interrupts => ?_⟩
  rcases interrupts 1 0 _ _ _ _ deadline setter read with ⟨own, returned, cancelled⟩ | timed
  · obtain ⟨args', nonce, serial, same, rfl⟩ := returned
    rw [sent] at same
    cases same
    -- The one call that cancels has cancelled another identifier.
    obtain ⟨d, h, t, there⟩ := cancelled
    rw [id] at there
    have reads : d ≠ 0 := by
      rintro rfl
      rw [read] at there
      rcases there with ⟨⟨⟩⟩ | ⟨⟨⟩⟩
    have sets : d ≠ 1 := by
      rintro rfl
      rw [deadline] at there
      rcases there with there | there
      · cases there
      · cases there
    rw [calls_eq_free_of_two (by decide) path List.prefix_rfl (by omega)] at there
    rcases there with ⟨⟨⟩⟩ | ⟨⟨⟩⟩
  · obtain ⟨args', known, some_timeout⟩ := timed
    rw [sent] at known
    cases known
    exact some_timeout timeout

end ConnSystem

end GoUring.Net
