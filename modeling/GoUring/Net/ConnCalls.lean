import GoUring.Net.Conn

/-!
# The calls of connections

Two things hold in every run of connections, whatever the kernel does and however many
requests were made.

* `Fits`: a call of the package and the call of the reactor with the same number are at
  matching places.  A `Read` that waits has its request sent, and a `SetReadDeadline` that
  went past its `Cancel` has sent one.
* `Disciplined`: the lock of a direction does its work.  A call between `Lock` and
  `Unlock` is the holder, finds its own buffer in the operation, and, once it waits, its
  own identifier as the last one.
-/

namespace GoUring.Net

open Uring Reactor

namespace ConnCall

/-- The call of the reactor with the same number is where it should be. -/
def Fits (inner : NetCall) : ConnCall → Prop
  | .foreign => True
  | .queueing _ _ => inner.args.isSome = true
  | .waiting _ _ => inner.launched = true
  | .received _ _ _ => inner.launched = true
  | .returned _ _ _ => inner.launched = true
  | .cancelling _ _ id => inner = .cancelling id ∨ inner = .cancelled
  | .storing _ _ (some _) => inner = .cancelled
  | .set _ _ (some _) => inner = .cancelled
  | _ => inner = .free

/-- A step of the reactor that does not make the call leaves the two together. -/
theorem Fits.next {e : NetEvent} {k : ℕ} {inner inner' : NetCall} {call : ConnCall}
    (fits : call.Fits inner) (next : NetCall.Next e k inner inner') (old : e.newCall ≠ some k) :
    call.Fits inner' := by
  have quiet : inner = .free → inner' = .free := by
    rintro rfl
    exact next.eq_free old
  have sent : inner.launched = true → inner'.launched = true := by
    intro launched
    rw [next.eq_of_launched launched]
    exact launched
  have gone : inner = .cancelled → inner' = .cancelled := by
    rintro rfl
    exact next.eq_cancelled
  cases call with
  | foreign => trivial
  | queueing h b =>
      obtain ⟨args, known⟩ := Option.isSome_iff_exists.mp fits
      exact Option.isSome_iff_exists.mpr ⟨args, next.args_eq known⟩
  | waiting h b => exact sent fits
  | received h b cqe => exact sent fits
  | returned h b r => exact sent fits
  | cancelling h t id =>
      rcases fits with rfl | rfl
      · exact next.of_cancelling
      · exact Or.inr next.eq_cancelled
  | storing h t id =>
      cases id with
      | none => exact quiet fits
      | some id => exact gone fits
  | set h t id =>
      cases id with
      | none => exact quiet fits
      | some id => exact gone fits
  | _ => exact quiet fits

/-- The direction whose lock the call holds. -/
def holds : ConnCall → Option HalfID
  | .locked h _ => some h
  | .buffered h _ => some h
  | .sampled h _ _ => some h
  | .queueing h _ => some h
  | .waiting h _ => some h
  | .received h _ _ => some h
  | _ => none

/-- What the holder of a lock finds behind it: its buffer, and once it waits its
identifier. -/
def Finds (inner : NetCall) (half : Half) : ConnCall → Prop
  | .buffered _ b => half.buff = b
  | .sampled _ b _ => half.buff = b
  | .queueing _ b => half.buff = b
  | .waiting _ b => half.buff = b ∧ inner.HasReturned half.lastOpID
  | .received _ b _ => half.buff = b
  | _ => True

theorem Finds.next {e : NetEvent} {k : ℕ} {inner inner' : NetCall} {half : Half} {call : ConnCall}
    (finds : call.Finds inner half) (next : NetCall.Next e k inner inner') :
    call.Finds inner' half := by
  cases call with
  | waiting h b =>
      obtain ⟨buff, args, nonce, serial, rfl, id⟩ := finds
      rw [next.eq_of_launched rfl]
      exact ⟨buff, args, nonce, serial, rfl, id⟩
  | _ => exact finds

end ConnCall

namespace ConnSystem

variable {n : ℕ} {fds : Sockets} {s s' : ConnSystem} {e : ConnEvent}

theorem HostMove.next {e : NetEvent} (moved : HostMove n fds s e s') (k : ℕ) :
    NetCall.Next e k (s.net.calls k) (s'.net.calls k) := by
  have next := NetReactor.step_next moved.stepped k
  rwa [(alike_resolve n fds s e).calls] at next

/-- A step leaves the reactor alone or is a step of it. -/
theorem net_step (stepped : s.step n fds e = some s') :
    s'.net = s.net ∨ ∃ e, (s.resolve fds e).step n e = some s'.net := by
  cases step_transition stepped with
  | queue here moved => exact Or.inr ⟨_, moved.stepped⟩
  | cancel here moved => exact Or.inr ⟨_, moved.stepped⟩
  | foreign here new moved => exact Or.inr ⟨_, moved.stepped⟩
  | net old moved => exact Or.inr ⟨_, moved.stepped⟩
  | _ => exact Or.inl rfl

/-! ## The calls of the reactor -/

/-- Every call fits the call of the reactor with the same number. -/
def AllFit (s : ConnSystem) : Prop := ∀ k, (s.calls k).Fits (s.net.calls k)

theorem allFit_start (some_loop : 0 < n) (rings : ℕ → ReactorRing true) (now : ℤ) :
    (start n some_loop rings now).AllFit := fun _ => rfl

/-- One call moves on, and the reactor does not. -/
theorem AllFit.setCall (fit : s.AllFit) {k : ℕ} {call : ConnCall}
    (net : s'.net.calls = s.net.calls) (calls : s'.calls = Function.update s.calls k call)
    (mine : call.Fits (s.net.calls k)) : s'.AllFit := by
  intro j
  rw [net, calls]
  by_cases this : j = k
  · subst this
    rw [Function.update_self]
    exact mine
  · rw [Function.update_of_ne this]
    exact fit j

/-- One call moves on to a place that asks nothing more of the reactor. -/
theorem AllFit.move (fit : s.AllFit) {k : ℕ} {call call' : ConnCall} (here : s.calls k = call)
    (net : s'.net.calls = s.net.calls) (calls : s'.calls = Function.update s.calls k call')
    (follows : ∀ inner, call.Fits inner → call'.Fits inner) : s'.AllFit := by
  refine fit.setCall net calls (follows _ ?_)
  rw [← here]
  exact fit k

/-- The reactor makes a step, in which call `k` is made and moves on. -/
theorem AllFit.make (fit : s.AllFit) {e : NetEvent} {s₁ : ConnSystem}
    (moved : HostMove n fds s e s₁) {k : ℕ} (new : e.newCall = some k) {call : ConnCall}
    (mine : call.Fits (s₁.net.calls k)) : (s₁.setCall k call).AllFit := by
  intro j
  show (Function.update s₁.calls k call j).Fits (s₁.net.calls j)
  rw [moved.calls]
  by_cases this : j = k
  · subst this
    rw [Function.update_self]
    exact mine
  · rw [Function.update_of_ne this]
    refine (fit j).next (moved.next j) ?_
    rw [new]
    rintro ⟨⟩
    exact this rfl

/-- What a call of the reactor that was just made looks like. -/
theorem HostMove.made {e : NetEvent} {k : ℕ} (moved : HostMove n fds s e s')
    (new : e.newCall = some k) :
    (∀ args, e = .queue k args → s'.net.calls k = .called args) ∧
      (∀ id, e = .cancel k id → s'.net.calls k = .cancelling id) := by
  obtain ⟨-, transition⟩ := NetReactor.step_transition moved.stepped
  refine ⟨?_, ?_⟩
  · rintro args rfl
    have calls : s'.net.calls = Function.update (s.resolve fds (.queue k args)).calls k
        (.called args) := by
      generalize s'.net = net at transition
      cases transition
      rfl
    rw [calls, Function.update_self]
  · rintro id rfl
    have calls : s'.net.calls = Function.update (s.resolve fds (.cancel k id)).calls k
        (.cancelling id) := by
      generalize s'.net = net at transition
      cases transition
      rfl
    rw [calls, Function.update_self]

/-- **A step keeps the calls together with the calls of the reactor.** -/
theorem AllFit.step (fit : s.AllFit) (stepped : s.step n fds e = some s') : s'.AllFit := by
  cases step_transition stepped with
  | io here => exact fit.move here rfl rfl fun _ mine => mine
  | setDeadline here => exact fit.move here rfl rfl fun _ mine => mine
  | lock here free => exact fit.move here rfl rfl fun _ mine => mine
  | setBuffer here => exact fit.move here rfl rfl fun _ mine => mine
  | sample here => exact fit.move here rfl rfl fun _ mine => mine
  | queue here moved =>
      refine fit.make moved rfl ?_
      rw [(moved.made rfl).1 _ rfl]
      rfl
  | storeID here returned =>
      refine fit.setCall rfl rfl ?_
      rw [returned]
      rfl
  | finish here => exact fit.move here rfl rfl fun _ mine => mine
  | expire here expired => exact fit.move here rfl rfl fun _ mine => mine
  | keep here => exact fit.move here rfl rfl fun _ mine => mine
  | cancel here moved =>
      refine fit.make moved rfl ?_
      rw [(moved.made rfl).2 _ rfl]
      exact Or.inl rfl
  | cancelled here sent => exact fit.setCall rfl rfl sent
  | @store k h t id here =>
      refine fit.move here rfl rfl fun _ mine => ?_
      cases id with
      | none => exact mine
      | some id => exact mine
  | receive here there same => exact fit.move here rfl rfl fun _ mine => mine
  | foreign here new moved => exact fit.make moved new trivial
  | net old moved =>
      intro j
      rw [moved.calls]
      refine (fit j).next (moved.next j) ?_
      rw [old]
      rintro ⟨⟩
  | tick => exact fit

/-! ## The locks -/

/-- **The locks work**: a call that is inside holds the lock, and finds what it put
there. -/
def Disciplined (s : ConnSystem) : Prop :=
  ∀ k h, (s.calls k).holds = some h →
    (s.halves h).lock = some k ∧ (s.calls k).Finds (s.net.calls k) (s.halves h)

theorem disciplined_start (some_loop : 0 < n) (rings : ℕ → ReactorRing true) (now : ℤ) :
    (start n some_loop rings now).Disciplined := fun _ _ holds => by cases holds

/-- Two calls inside the same lock are one call. -/
theorem Disciplined.eq (inv : s.Disciplined) {j k : ℕ} {h : HalfID}
    (hj : (s.calls j).holds = some h) (hk : (s.calls k).holds = some h) : j = k :=
  Option.some.inj ((inv j h hj).1.symm.trans (inv k h hk).1)

/-- A call outside the locks, or in its own, moves on and leaves the connections alone. -/
theorem Disciplined.setCall (inv : s.Disciplined) {k : ℕ} {call : ConnCall}
    (net : s'.net.calls = s.net.calls) (halves : s'.halves = s.halves)
    (calls : s'.calls = Function.update s.calls k call)
    (mine : ∀ h, call.holds = some h →
      (s.halves h).lock = some k ∧ call.Finds (s.net.calls k) (s.halves h)) :
    s'.Disciplined := by
  intro j h holds
  rw [calls] at holds ⊢
  rw [net, halves]
  by_cases this : j = k
  · subst this
    rw [Function.update_self] at holds ⊢
    exact mine h holds
  · rw [Function.update_of_ne this] at holds ⊢
    exact inv j h holds

/-- A call moves on and changes one direction of a connection; for those inside the lock
nothing else changes. -/
theorem Disciplined.setHalf (inv : s.Disciplined) {k : ℕ} {h : HalfID} {half : Half}
    {call : ConnCall}
    (mine : ∀ h', call.holds = some h' →
      h' = h ∧ half.lock = some k ∧ call.Finds (s.net.calls k) half)
    (others : ∀ j, j ≠ k → (s.calls j).holds = some h →
      half.lock = some j ∧ (s.calls j).Finds (s.net.calls j) half) :
    ((s.setHalf h half).setCall k call).Disciplined := by
  intro j h' holds
  change (Function.update s.calls k call j).holds = some h' at holds
  show (Function.update s.halves h half h').lock = some j ∧
    (Function.update s.calls k call j).Finds (s.net.calls j) (Function.update s.halves h half h')
  by_cases this : j = k
  · subst this
    rw [Function.update_self] at holds ⊢
    obtain ⟨rfl, good⟩ := mine h' holds
    rw [Function.update_self]
    exact good
  · rw [Function.update_of_ne this] at holds ⊢
    by_cases here : h' = h
    · subst here
      rw [Function.update_self]
      exact others j this holds
    · rw [Function.update_of_ne here]
      exact inv j h' holds

/-- The reactor makes a step, and a call moves on. -/
theorem Disciplined.hostMove (inv : s.Disciplined) {e : NetEvent} (moved : HostMove n fds s e s') :
    s'.Disciplined := by
  intro j h holds
  rw [moved.calls] at holds ⊢
  rw [moved.halves]
  obtain ⟨lock, finds⟩ := inv j h holds
  exact ⟨lock, finds.next (moved.next j)⟩

/-- **A step keeps the discipline.** -/
theorem Disciplined.step (inv : s.Disciplined) (stepped : s.step n fds e = some s') :
    s'.Disciplined := by
  -- The holder of a lock has it alone.
  have alone : ∀ {k h}, (s.calls k).holds = some h → ∀ j, j ≠ k →
      ¬ (s.calls j).holds = some h := fun hk j other hj => other (inv.eq hj hk)
  cases step_transition stepped with
  | io here => exact inv.setCall rfl rfl rfl fun h holds => by cases holds
  | setDeadline here => exact inv.setCall rfl rfl rfl fun h holds => by cases holds
  | @lock k h b here free =>
      refine inv.setHalf (fun h' holds => ?_) fun j other holds => ?_
      · cases holds
        exact ⟨rfl, rfl, trivial⟩
      · rw [(inv j h holds).1] at free
        cases free
  | @setBuffer k h b here =>
      have mine : (s.calls k).holds = some h := by rw [here]; rfl
      refine inv.setHalf (fun h' holds => ?_) fun j other holds =>
        absurd holds (alone mine j other)
      cases holds
      exact ⟨rfl, (inv k h mine).1, rfl⟩
  | @sample k h b here =>
      have mine := inv k h (by rw [here]; rfl)
      rw [here] at mine
      refine inv.setCall rfl rfl rfl fun h' holds => ?_
      cases holds
      exact mine
  | @queue k h b deadline s₁ here moved =>
      have mine := inv.hostMove moved k h (by rw [moved.calls, here]; rfl)
      rw [moved.calls, here] at mine
      refine (inv.hostMove moved).setCall rfl rfl rfl fun h' holds => ?_
      cases holds
      exact mine
  | @storeID k h b args nonce serial here returned =>
      have holds : (s.calls k).holds = some h := by rw [here]; rfl
      have mine := inv k h holds
      rw [here] at mine
      refine inv.setHalf (fun h' holds => ?_) fun j other holds' =>
        absurd holds' (alone holds j other)
      cases holds
      exact ⟨rfl, mine.1, mine.2, args, nonce, serial, returned, rfl⟩
  | @finish k h b cqe here =>
      have mine : (s.calls k).holds = some h := by rw [here]; rfl
      refine inv.setHalf (fun h' holds => by cases holds) fun j other holds =>
        absurd holds (alone mine j other)
  | expire here expired => exact inv.setCall rfl rfl rfl fun h holds => by cases holds
  | keep here => exact inv.setCall rfl rfl rfl fun h holds => by cases holds
  | cancel here moved =>
      exact (inv.hostMove moved).setCall rfl rfl rfl fun h holds => by cases holds
  | cancelled here sent => exact inv.setCall rfl rfl rfl fun h holds => by cases holds
  | @store k h t id here =>
      refine inv.setHalf (fun h' holds => by cases holds) fun j other holds => ?_
      obtain ⟨lock, finds⟩ := inv j h holds
      refine ⟨lock, ?_⟩
      -- The deadline is not behind the lock.
      cases call : s.calls j with
      | _ =>
          rw [call] at finds
          exact finds
  | @receive k l j h b cqe here there same =>
      have mine := inv k h (by rw [here]; rfl)
      rw [here] at mine
      refine inv.setCall rfl rfl rfl fun h' holds => ?_
      cases holds
      exact ⟨mine.1, mine.2.1⟩
  | foreign here new moved =>
      exact (inv.hostMove moved).setCall rfl rfl rfl fun h holds => by cases holds
  | net old moved => exact inv.hostMove moved
  | tick => exact inv

end ConnSystem

end GoUring.Net
