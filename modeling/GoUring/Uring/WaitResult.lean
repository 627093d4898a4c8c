import GoUring.Uring.WaitLoop
import GoUring.Uring.CompletionRun

/-!
# What a wait comes to

Three results about the loop of `getCQEvents` on a ring with the ext-arg feature.

* `getCQEvents_accounts_and_ends`: `submit` is the number of SQEs the kernel has not
  read yet, it never goes below zero, and the loop ends after at most `submit + 2`
  enters.
* `wait_returns_oldest`: without an error a call returns the pointer to the oldest
  completion.
* `submitAndWait_complete_iff`: `SubmitAndWaitCQEvents` has submitted everything and
  waited when it returns without an error, exactly if no enter that is made with a
  completion already at hand leaves an SQE behind.  Such an enter is the last one.

Each takes what it assumes of `io_uring_enter` as a hypothesis about the steps of the
run.
-/

namespace GoUring.Uring

open Runs

namespace Ring

/-- An enter answers for no more SQEs than it was asked to submit. -/
theorem kernelEnter_le {r : Ring} {args : EnterArgs} {k consumed : ℕ} {sqes : List SQEntry}
    {sq : SubmissionQueue}
    (done : r.kernelEnter args (.consumed k) = some (.ok consumed, sqes, sq)) :
    consumed ≤ args.toSubmit.toNat := by
  simp only [kernelEnter, RingParams.enter] at done
  split at done
  · cases done
    exact le_refl _
  · split at done
    · next le =>
      obtain ⟨⟨read, sq⟩, -, same⟩ := Option.map_eq_some_iff.mp done
      cases same
      exact le
    · cases done

/-- Without an SQ thread an enter reads the SQEs it answers for. -/
theorem kernelEnter_noThread {r : Ring} {args : EnterArgs} {k consumed : ℕ}
    {sqes : List SQEntry} {sq : SubmissionQueue} (noThread : r.params.sqPoll = false)
    (done : r.kernelEnter args (.consumed k) = some (.ok consumed, sqes, sq)) :
    consumed = k ∧ k ≤ args.toSubmit.toNat ∧ sqes.length = k ∧
      r.sqRing.pending = sqes ++ sq.pending ∧ r.sqRing.visible = sqes ++ sq.visible := by
  simp only [kernelEnter, RingParams.enter, noThread] at done
  split at done
  · next impossible => cases impossible
  · split at done
    · next le =>
      obtain ⟨⟨read, sq⟩, many, same⟩ := Option.map_eq_some_iff.mp done
      cases same
      obtain ⟨length, pending, visible, -⟩ := SubmissionQueue.kernelConsumeMany_spec k many
      exact ⟨rfl, le, length, pending, visible⟩
    · cases done

end Ring

namespace Wait

variable {r : Ring} {params : Ring.GetParams} {waitNr : UInt32} {w w' : Wait}
  {e : WaitEvent} {p : List (Wait × WaitEvent)}

/-! ## Accounting -/

/-- The number of SQEs the kernel has been shown and has not read. -/
def offered (w : Wait) : UInt32 := w.ring.sqRing.sq.kTail - w.ring.sqRing.sq.kHead

theorem toNat_offered (w : Wait) : w.offered.toNat = w.ring.sqRing.visible.length :=
  (SQ.length_visible _).symm

/-- The call has returned. -/
def hasReturned (w : Wait) : Bool :=
  match w.pc with
  | .returned _ _ => true
  | _ => false

/-- While the call is in progress, `submit` is what the kernel has not read. -/
def Accounted (w : Wait) : Prop := w.hasReturned = false → w.params.submit = w.offered

/-- Taking the SQEs consumed off `submit` does not go below zero. -/
theorem toNat_submit_sub {submit : UInt32} {k : ℕ} (le : k ≤ submit.toNat) :
    (submit - UInt32.ofNat k).toNat = submit.toNat - k := by
  have small : (UInt32.ofNat k).toNat = k :=
    UInt32.toNat_ofNat_of_lt' (lt_of_le_of_lt le submit.toNat_lt)
  rw [UInt32.toNat_sub_of_le _ _ (UInt32.le_iff_toNat_le.mpr (small.symm ▸ le)), small]

/-- **The accounting survives a step.** -/
theorem Accounted.transition (noThread : w.ring.params.sqPoll = false)
    (knows : w.Knows w.pc) (acc : w.Accounted) (trans : Transition w e w') :
    w'.Accounted := by
  cases trans with
  | peek here => exact fun _ => acc (by rw [hasReturned, here])
  | found here some submitted enough =>
      intro running
      cases running
  | empty here nothing idle clear =>
      intro running
      cases running
  | enter here submit wait asks flush => exact fun _ => acc (by rw [hasReturned, here])
  | failed here =>
      intro running
      cases running
  | again here done =>
      intro _
      rw [here] at knows
      obtain ⟨rfl, le, length, -, visible⟩ := Ring.kernelEnter_noThread noThread done
      have before : w.params.submit = w.offered := acc (by rw [hasReturned, here])
      rw [knows.toSubmit] at le
      apply UInt32.toNat_inj.mp
      rw [toNat_offered]
      show (w.params.submit - UInt32.ofNat _).toNat = _
      rw [toNat_submit_sub le, before, toNat_offered, visible, List.length_append, length,
        Nat.add_sub_cancel_left]
  | entered here done =>
      intro running
      cases running
  | post posted => exact acc
  | consume thread consumed =>
      rw [noThread] at thread
      cases thread
  | flags => exact acc

/-! ## The number of enters -/

/-- An enter of a call that succeeds. -/
structure Ended where
  args : EnterArgs
  /-- The pointer the pass picked before the enter. -/
  cqe : Option ℕ
  /-- The overflow flag when the enter was made. -/
  overflow : Bool
  /-- The SQEs consumed. -/
  k : ℕ
  deriving DecidableEq, Repr

/-- The enter that the event ends, if it succeeds. -/
def ended (w : Wait) : WaitEvent → Option Ended
  | .entered (.consumed k) =>
      match w.pc with
      | .entering args cqe overflow => some ⟨args, cqe, overflow, k⟩
      | _ => none
  | _ => none

theorem ended_eq {args : EnterArgs} {cqe : Option ℕ} {overflow : Bool}
    (here : w.pc = .entering args cqe overflow) (k : ℕ) :
    w.ended (.entered (.consumed k)) = some ⟨args, cqe, overflow, k⟩ := by
  simp only [ended, here]

theorem ended_eq_some {x : Ended} (ended : w.ended e = some x) :
    w.pc = .entering x.args x.cqe x.overflow ∧ e = .entered (.consumed x.k) := by
  unfold Wait.ended at ended
  split at ended
  · split at ended
    · next here =>
      cases ended
      exact ⟨here, rfl⟩
    · cases ended
  · cases ended

/-- What the call knows of an enter that ends. -/
theorem asked_of_ended {x : Ended} (knows : w.Knows w.pc) (ended : w.ended e = some x) :
    w.Asked x.args x.cqe x.overflow := by
  rw [(ended_eq_some ended).1] at knows
  exact knows

/-- What is assumed of an enter that succeeds: it reads an SQE if there is one, an
enter that only waits does wait, and an enter that asks for completions while the
overflow flag is set gets one. -/
def Served (w : Wait) (x : Ended) : Prop :=
  (x.args.toSubmit ≠ 0 → 1 ≤ x.k) ∧
  (x.args.toSubmit = 0 → x.args.GetsEvents → x.args.minComplete ≠ 0 → w.ready ≠ []) ∧
  (x.args.GetsEvents → x.overflow = true → w.ready ≠ [])

instance (w : Wait) (x : Ended) : Decidable (w.Served x) :=
  inferInstanceAs (Decidable (_ ∧ _ ∧ _))

/-- The kernel serves the enter that the event ends. -/
def Serves (w : Wait) (e : WaitEvent) : Prop := ∀ x ∈ w.ended e, w.Served x

instance (w : Wait) (e : WaitEvent) : Decidable (w.Serves e) :=
  inferInstanceAs (Decidable (∀ x ∈ w.ended e, w.Served x))

/-- The enters a pass that finds `cqe` may still lead to. -/
def entersOwed (submit : UInt32) (cqe : Option ℕ) : ℕ :=
  if cqe.isNone then submit.toNat + 2 else 1

theorem entersOwed_some (submit : UInt32) {cqe : Option ℕ} (some : cqe ≠ none) :
    entersOwed submit cqe = 1 := by
  obtain ⟨ptr, rfl⟩ := Option.ne_none_iff_exists'.mp some
  rfl

/-- Finding a completion only helps. -/
theorem entersOwed_le (submit : UInt32) (cqe : Option ℕ) :
    entersOwed submit cqe ≤ submit.toNat + 2 := by
  unfold entersOwed
  split <;> omega

theorem entersOwed_pos (submit : UInt32) (cqe : Option ℕ) : 1 ≤ entersOwed submit cqe := by
  unfold entersOwed
  split <;> omega

/-- The enters a call may still make; `head` is what the next peek would find. -/
def entersLeft (submit : UInt32) (head : Option ℕ) : WaitPC → ℕ
  | .top => entersOwed submit head
  | .peeked seen => entersOwed submit seen.cqe
  | .entering _ cqe _ => entersOwed submit cqe - 1
  | .returned _ _ => 0

def remaining (w : Wait) : ℕ := entersLeft w.params.submit w.head w.pc

/-- A post leaves no more enters to make. -/
theorem remaining_post {cqe : CQEvent} {cq : CompletionQueue}
    (posted : w.ring.cqRing.kernelPost cqe = some cq) :
    remaining { w with ring := { w.ring with cqRing := cq } } ≤ w.remaining := by
  show entersLeft w.params.submit cq.cq.headPtr w.pc ≤ entersLeft w.params.submit w.head w.pc
  cases w.pc with
  | top =>
      -- Only a call at the top of its loop has yet to see what was posted.
      cases found : w.head with
      | none => exact entersOwed_le _ _
      | some ptr =>
          rw [(CompletionQueue.Extends.post posted).headPtr found]
  | peeked seen => exact le_refl _
  | entering args cqe overflow => exact le_refl _
  | returned cqe err => exact le_refl _

theorem head_ne_none (some : w.ready ≠ []) : w.head ≠ none := fun none =>
  some (CQ.headPtr_eq_none_iff.mp none)

/-- A pass that found nothing leaves less to submit, or a completion. -/
theorem Asked.owed {args : EnterArgs} {overflow : Bool} {k : ℕ}
    (asked : w.Asked args none overflow) (here : w.pc = .entering args none overflow)
    (le : k ≤ args.toSubmit.toNat) (serves : Serves w (.entered (.consumed k))) :
    entersOwed (w.params.submit - UInt32.ofNat k) w.head ≤ w.params.submit.toNat + 1 := by
  obtain ⟨consumes, waits, flushes⟩ := serves _ (ended_eq here k)
  by_cases nothing : args.toSubmit = 0
  · have asks : args.GetsEvents := asked.asks.resolve_right fun busy => busy.2 nothing
    have some : w.ready ≠ [] := by
      by_cases idle : args.minComplete = 0
      · exact flushes asks (asked.flush rfl nothing idle)
      · exact waits nothing asks idle
    rw [entersOwed_some _ (head_ne_none some)]
    exact Nat.le_add_left _ _
  · have some : 1 ≤ k := consumes nothing
    rw [asked.toSubmit] at le
    unfold entersOwed
    split
    · rw [toNat_submit_sub le]
      omega
    · exact Nat.le_add_left _ _

/-- **Every enter is paid for.** -/
theorem budget_transition {b : ℕ} (noThread : w.ring.params.sqPoll = false)
    (knows : w.Knows w.pc) (serves : Serves w e) (trans : Transition w e w')
    (within : w.enters + w.remaining ≤ b) : w'.enters + w'.remaining ≤ b := by
  cases trans with
  | peek here =>
      rw [remaining, here] at within
      exact within
  | found here some submitted enough => exact (Nat.le_add_right _ _).trans within
  | empty here nothing idle clear => exact (Nat.le_add_right _ _).trans within
  | @enter seen args here submit wait asks flush =>
      rw [remaining, here] at within
      have pays := entersOwed_pos w.params.submit seen.cqe
      change w.enters + entersOwed w.params.submit seen.cqe ≤ b at within
      show w.enters + 1 + (entersOwed w.params.submit seen.cqe - 1) ≤ b
      omega
  | failed here => exact (Nat.le_add_right _ _).trans within
  | @again args overflow k consumed sqes sq here done =>
      rw [here] at knows
      obtain ⟨rfl, le, -⟩ := Ring.kernelEnter_noThread noThread done
      have owed := knows.owed here le serves
      rw [remaining, here] at within
      change w.enters + (w.params.submit.toNat + 1) ≤ b at within
      exact (Nat.add_le_add_left owed _).trans within
  | entered here done => exact (Nat.le_add_right _ _).trans within
  | post posted => exact (Nat.add_le_add_left (remaining_post posted) _).trans within
  | consume thread consumed =>
      rw [noThread] at thread
      cases thread
  | flags => exact within

/-! ## The number of steps -/

/-- The steps of the call itself that a run records. -/
def callSteps (p : List (Wait × WaitEvent)) : ℕ := p.countP fun x => x.2.ofCall

/-- The steps up to the next enter, counted from the last one. -/
def stepsLeft : WaitPC → ℕ
  | .top => 2
  | .peeked _ => 1
  | .entering _ _ _ => 3
  | .returned _ _ => 0

/-- A pass takes three steps. -/
theorem steps_transition (trans : Transition w e w') :
    (if e.ofCall then 1 else 0) + stepsLeft w'.pc + 3 * w.enters ≤
      stepsLeft w.pc + 3 * w'.enters := by
  cases trans with
  | peek here => simp only [WaitEvent.ofCall, here, stepsLeft, if_true, le_refl]
  | found here some submitted enough =>
      simp only [WaitEvent.ofCall, here, stepsLeft, if_true, le_refl]
  | empty here nothing idle clear =>
      simp only [WaitEvent.ofCall, here, stepsLeft, if_true, le_refl]
  | enter here submit wait asks flush =>
      simp only [WaitEvent.ofCall, here, stepsLeft, if_true]
      omega
  | failed here =>
      simp only [WaitEvent.ofCall, here, stepsLeft, if_true]
      omega
  | again here done => simp only [WaitEvent.ofCall, here, stepsLeft, if_true, le_refl]
  | entered here done =>
      simp only [WaitEvent.ofCall, here, stepsLeft, if_true]
      omega
  | post posted => simp [WaitEvent.ofCall]
  | consume thread consumed => simp [WaitEvent.ofCall]
  | flags => simp [WaitEvent.ofCall]

/-- The steps of a call are bounded by its enters. -/
theorem callSteps_le (extArg : r.params.extArgFeature = true)
    (path : Path step (start r params) p w) :
    callSteps p + stepsLeft w.pc ≤ 3 * w.enters + 2 := by
  induction path with
  | nil => exact le_refl _
  | @snoc p w w' e before stepped ih =>
      have sound := sound_of_path extArg before
      have pass := steps_transition (sound.step_transition extArg stepped)
      simp only [callSteps, List.countP_append, List.countP_singleton] at ih ⊢
      omega

/-- A call that has not returned has a next step, whatever the kernel does. -/
theorem exists_step_of_running (running : w.hasReturned = false) :
    ∃ e, e.ofCall = true ∧ (w.step e).isSome = true := by
  unfold hasReturned at running
  split at running
  · cases running
  · next here =>
    cases place : w.pc with
    | top => exact ⟨.peek, rfl, by simp [step, place]⟩
    | peeked seen => exact ⟨.decide, rfl, by simp [step, place]⟩
    | entering args cqe overflow =>
        exact ⟨.entered (.failed .eagain), rfl,
          by simp [step, place, Ring.kernelEnter, RingParams.enter]⟩
    | returned cqe err => exact absurd place (here cqe err)

/-! ## The results -/

/-- The count `io_uring_enter` answers when the event ends an enter of the call. -/
def answered (w : Wait) (e : WaitEvent) : Option ℕ :=
  match w.pc, e with
  | .entering args _ _, .entered result =>
      match w.ring.kernelEnter args result with
      | some (.ok consumed, _, _) => some consumed
      | _ => none
  | _, _ => none

theorem answered_le (knows : w.Knows w.pc) {consumed : ℕ}
    (done : w.answered e = some consumed) : consumed ≤ w.params.submit.toNat := by
  unfold answered at done
  split at done
  · next args cqe overflow result here =>
    rw [here] at knows
    split at done
    · next entered =>
      cases done
      cases result with
      | failed errno => cases entered
      | consumed k =>
          have le := Ring.kernelEnter_le entered
          rwa [knows.toSubmit] at le
    · cases done
  · cases done

/-- **Accounting and termination of the loop of `getCQEvents`.**  If `submit` was the
number of SQEs the kernel had not read, it is at the top of every pass; it never goes
below zero; and the loop ends after at most `submit + 2` enters, three steps each. -/
theorem getCQEvents_accounts_and_ends (extArg : r.params.extArgFeature = true)
    (noThread : r.params.sqPoll = false) (path : Path step (start r params) p w)
    (served : ∀ x ∈ p, Serves x.1 x.2) :
    (params.submit = (start r params).offered →
      ∀ t ∈ visited p w, t.pc = .top → t.params.submit = t.offered) ∧
    (∀ x ∈ p, ∀ consumed, x.1.answered x.2 = some consumed →
      consumed ≤ x.1.params.submit.toNat) ∧
    w.enters ≤ params.submit.toNat + 2 ∧
    callSteps p ≤ 3 * (params.submit.toNat + 2) + 2 ∧
    (w.hasReturned = false → ∃ e, e.ofCall = true ∧ (w.step e).isSome = true) := by
  have quiet : ∀ {v : Wait}, Sound r params.waitNr v → v.ring.params.sqPoll = false :=
    fun sound => sound.config ▸ noThread
  have enters : w.enters ≤ params.submit.toNat + 2 := by
    have within := path.invariant
      (fun v => Sound r params.waitNr v ∧ v.enters + v.remaining ≤ params.submit.toNat + 2)
      Serves ⟨sound_start r params, ?_⟩ ?_ served
    · exact (Nat.le_add_right _ _).trans within.2
    · rw [show (start r params).enters = 0 from rfl, Nat.zero_add]
      exact entersOwed_le _ _
    · rintro v e v' ⟨sound, within⟩ serves stepped
      have trans := sound.step_transition extArg stepped
      exact ⟨sound.transition trans,
        budget_transition (quiet sound) sound.knows serves trans within⟩
  refine ⟨fun given t visited top => ?_, fun x mem consumed done => ?_, enters, ?_,
    exists_step_of_running⟩
  · obtain ⟨q, -, short⟩ := path.exists_of_visited visited
    have acc := short.invariant_of_step (fun v => Sound r params.waitNr v ∧ v.Accounted)
      ⟨sound_start r params, fun _ => given⟩ fun v e v' both stepped => by
        have trans := both.1.step_transition extArg stepped
        exact ⟨both.1.transition trans,
          both.2.transition (quiet both.1) both.1.knows trans⟩
    exact acc.2 (by rw [hasReturned, top])
  · obtain ⟨q, -, short, -⟩ := path.exists_of_mem mem
    exact answered_le (sound_of_path extArg short).knows done
  · have steps := callSteps_le extArg path
    omega

/-- Two SQEs are queued on the ring of `wrappingRing`. -/
def busyRing : Ring :=
  { wrappingRing with
    sqRing :=
      (((wrappingRing.sqRing.queueSQE nopOp 0 7).bind fun queued =>
        queued.2.queueSQE nopOp 0 8).map Prod.snd).getD wrappingRing.sqRing }

/-- One SQE with each of two enters, and a completion during the second one. -/
def twoEnters : List WaitEvent :=
  [.peek, .decide, .entered (.consumed 1), .peek, .decide, .post ⟨7, 0, 0⟩,
    .entered (.consumed 1), .peek, .decide]

/-- The law at a call that submits two SQEs with two enters. -/
theorem getCQEvents_accounts_and_ends_busy :
    ∃ p w, Path step (WaitCall.start busyRing (.submitAndWaitCQEvents 1)) p w ∧
      w.hasReturned = true ∧ w.enters = 2 ∧ callSteps p ≤ 3 * (2 + 2) + 2 := by
  have path : Path step (WaitCall.start busyRing (.submitAndWaitCQEvents 1))
      (record step (WaitCall.start busyRing (.submitAndWaitCQEvents 1)) twoEnters) _ :=
    path_record twoEnters rfl
  refine ⟨_, _, path, rfl, rfl, (getCQEvents_accounts_and_ends rfl rfl path ?_).2.2.2.1⟩
  decide

/-! ## What is returned -/

/-- The size of the completion queue. -/
def cqEntries (w : Wait) : ℕ := w.ring.cqRing.cq.kRingEntries.toNat

/-- As many completions are ready as the call waits for, or the queue is full. -/
def Enough (w : Wait) : Prop := min w.params.waitNr.toNat w.cqEntries ≤ w.ready.length

/-- The call has not returned without an error before there was enough. -/
def ReturnsEnough (w : Wait) : Prop := ∀ cqe, w.pc = .returned cqe none → w.Enough

theorem Asked.enough {args : EnterArgs} {cqe : Option ℕ} {overflow : Bool}
    (asked : w.Asked args cqe overflow)
    (waits : args.GetsEvents → min args.minComplete.toNat w.cqEntries ≤ w.ready.length) :
    w.Enough := by
  rw [Enough, ← asked.minComplete]
  rcases asked.asks with asks | ⟨enough, -⟩
  · exact waits asks
  · exact (min_le_left _ _).trans enough

/-- A post leaves enough. -/
theorem Enough.post {cqe : CQEvent} {cq : CompletionQueue} (enough : w.Enough)
    (posted : w.ring.cqRing.kernelPost cqe = some cq) :
    Enough { w with ring := { w.ring with cqRing := cq } } := by
  have posts := CompletionQueue.Extends.post posted
  show min _ cq.cq.kRingEntries.toNat ≤ cq.ready.length
  rw [posts.kRingEntries]
  exact enough.trans posts.ready.length_le

/-- **A call returns with enough** if the last enter, where it asks for completions,
waits for them. -/
theorem ReturnsEnough.transition (knows : w.Knows w.pc) (returns : w.ReturnsEnough)
    (waits : ∀ x ∈ w.ended e, x.cqe ≠ none → x.args.GetsEvents →
      min x.args.minComplete.toNat w.cqEntries ≤ w.ready.length)
    (trans : Transition w e w') : w'.ReturnsEnough := by
  intro cqe done
  cases trans with
  | peek here => cases done
  | found here some submitted enough =>
      rw [here] at knows
      exact (min_le_left _ _).trans
        ((UInt32.le_iff_toNat_le.mp enough).trans knows.available_le)
  | empty here nothing idle clear => cases done
  | enter here submit wait asks flush => cases done
  | failed here => cases done
  | again here entered => cases done
  | entered here entered =>
      rw [here] at knows
      exact knows.enough (waits _ (ended_eq here _) (Option.some_ne_none _))
  | post posted => exact (returns cqe done).post posted
  | consume thread consumed => exact returns cqe done
  | flags => exact returns cqe done

/-- A call that submits nothing. -/
theorem submit_eq_zero (knows : w.Knows w.pc) (nothing : w.params.submit = 0)
    (trans : Transition w e w') : w'.params.submit = 0 := by
  cases trans with
  | again here done =>
      rw [here] at knows
      have le := Ring.kernelEnter_le done
      rw [knows.toSubmit, nothing] at le
      obtain rfl := Nat.le_zero.mp le
      exact (UInt32.sub_zero _).trans nothing
  | peek here => exact nothing
  | found here some submitted enough => exact nothing
  | empty here none idle clear => exact nothing
  | enter here submit wait asks flush => exact nothing
  | failed here => exact nothing
  | entered here done => exact nothing
  | post posted => exact nothing
  | consume thread consumed => exact nothing
  | flags => exact nothing

/-- An errno of `io_uring_enter` is returned only by a call whose enter failed with
it. -/
theorem failed_of_returned (extArg : r.params.extArgFeature = true)
    (path : Path step (start r params) p w) {cqe : Option ℕ} {errno : Errno}
    (done : w.pc = .returned cqe (some (.enter errno))) :
    ∃ x ∈ p, x.2 = .entered (.failed errno) := by
  induction path with
  | nil => cases done
  | @snoc p w w' e before stepped ih =>
      have sound := sound_of_path extArg before
      by_cases earlier : w.pc = .returned cqe (some (.enter errno))
      · obtain ⟨x, mem, failed⟩ := ih earlier
        exact ⟨x, List.mem_append_left _ mem, failed⟩
      · refine ⟨(w, e), List.mem_append_right _ (List.mem_singleton_self _), ?_⟩
        cases sound.step_transition extArg stepped with
        | failed here =>
            cases done
            rfl
        | peek here => cases done
        | found here some submitted enough => cases done
        | empty here nothing idle clear => cases done
        | enter here submit wait asks flush => cases done
        | again here entered => cases done
        | entered here entered => cases done
        | post posted => exact absurd done earlier
        | consume thread consumed => exact absurd done earlier
        | flags => exact absurd done earlier

/-- An enter that only waits is assumed to wait for as many completions as it is asked
for, or for a full queue. -/
def WaitsOut (w : Wait) (e : WaitEvent) : Prop :=
  ∀ x ∈ w.ended e, x.args.toSubmit = 0 → x.args.GetsEvents →
    min x.args.minComplete.toNat w.cqEntries ≤ w.ready.length

instance (w : Wait) (e : WaitEvent) : Decidable (w.WaitsOut e) :=
  inferInstanceAs (Decidable (∀ x ∈ w.ended e, _ → _ → _))

/-- A call that submits nothing returns with enough. -/
theorem returnsEnough_of_path (extArg : r.params.extArgFeature = true)
    (path : Path step (start r params) p w) (nothing : params.submit = 0)
    (waits : ∀ x ∈ p, WaitsOut x.1 x.2) : w.ReturnsEnough := by
  have inv := path.invariant
    (fun v => Sound r params.waitNr v ∧ v.params.submit = 0 ∧ v.ReturnsEnough) WaitsOut
    ⟨sound_start r params, nothing, fun cqe done => by cases done⟩ ?_ waits
  · exact inv.2.2
  · rintro v e v' ⟨sound, zero, returns⟩ waits stepped
    have trans := sound.step_transition extArg stepped
    refine ⟨sound.transition trans, submit_eq_zero sound.knows zero trans,
      returns.transition sound.knows (fun x ended _ asks => ?_) trans⟩
    refine waits x ended ?_ asks
    rw [(asked_of_ended sound.knows ended).toSubmit, zero]

/-- **What a successful wait returns.**  Without an error every call returns the
pointer to the slot of the head, which shows the oldest completion, and leaves the head
alone.  `PeekCQE` returns `EAGAIN` of its own only if it saw an empty queue and a clear
overflow flag.  `WaitCQEvents` returns with enough if every enter that only waits
does. -/
theorem wait_returns_oldest {call : WaitCall} (extArg : r.params.extArgFeature = true)
    (path : Path step (call.start r) p w) :
    (∀ cqe, w.pc = .returned cqe none →
      cqe = some (w.ring.cqRing.cq.cqeAddr r.cqRing.cq.kHead) ∧
      w.ready.head? =
        some (w.ring.cqRing.cq.cqeBuff (w.ring.cqRing.cq.cqeAddr r.cqRing.cq.kHead))) ∧
    w.ring.cqRing.cq.kHead = r.cqRing.cq.kHead ∧
    (call = .peekCQE → (∀ x ∈ p, x.2 ≠ .entered (.failed .eagain)) →
      ∀ cqe err, w.pc = .returned cqe (some err) → err.is .eagain = true →
        w.readyRead = [] ∧ w.overflowRead = false) ∧
    (∀ cnt, call = .waitCQEvents cnt → (∀ x ∈ p, WaitsOut x.1 x.2) →
      ∀ cqe, w.pc = .returned cqe none →
        min cnt.toNat w.cqEntries ≤ w.ready.length) := by
  have ext : (call.ring r).params.extArgFeature = true := by
    rw [WaitCall.params_ring]
    exact extArg
  have sound := sound_of_path ext path
  have knows := sound.knows
  have kHead : w.ring.cqRing.cq.kHead = r.cqRing.cq.kHead := by
    rw [sound.posts.kHead, WaitCall.cqRing_ring]
  refine ⟨fun cqe done => ?_, kHead, fun _ fine cqe err done again => ?_, ?_⟩
  · rw [done] at knows
    obtain ⟨ptr, rfl, head⟩ := knows
    have addr := (CQ.headPtr_eq_some_iff.mp head).2
    rw [kHead] at addr
    subst addr
    exact ⟨rfl, CQ.head_ready head⟩
  · rw [done] at knows
    rcases knows with ⟨errno, rfl⟩ | seen
    · -- The errno is the enter's own, which was assumed not to be `EAGAIN`.
      obtain ⟨x, mem, failed⟩ := failed_of_returned ext path done
      rw [eq_of_beq again] at failed
      exact absurd failed (fine x mem)
    · exact seen
  · rintro cnt rfl waits cqe done
    have enough := returnsEnough_of_path ext path rfl waits cqe done
    rw [Enough, sound.waitNr] at enough
    exact enough

/-- The law at `WaitCQEvents(1)` on an empty ring: the completion arrives during the
enter. -/
theorem wait_returns_oldest_posted :
    ∃ p w cqe, Path step (WaitCall.start wrappingRing (.waitCQEvents 1)) p w ∧
      w.pc = .returned cqe none ∧ w.ready.map CQEvent.userData = [7] ∧
      cqe = some (w.ring.cqRing.cq.cqeAddr wrappingRing.cqRing.cq.kHead) ∧
      min (1 : UInt32).toNat w.cqEntries ≤ w.ready.length := by
  have path : Path step (WaitCall.start wrappingRing (.waitCQEvents 1))
      (record step (WaitCall.start wrappingRing (.waitCQEvents 1))
        [.peek, .decide, .post ⟨7, 0, 0⟩, .entered (.consumed 0), .peek, .decide]) _ :=
    path_record _ rfl
  obtain ⟨oldest, -, -, enough⟩ := wait_returns_oldest rfl path
  exact ⟨_, _, _, path, rfl, rfl, (oldest _ rfl).1, enough 1 rfl (by decide) _ rfl⟩

/-! ## Submitting and waiting -/

/-- Everything queued is visible to the kernel. -/
def Flushed (w : Wait) : Prop := w.ring.sqRing.visible = w.ring.sqRing.pending

/-- What `SubmitAndWaitCQEvents` promises on a return without an error. -/
def Complete (w : Wait) : Prop :=
  ∀ cqe, w.pc = .returned cqe none → w.ring.sqRing.pending = [] ∧ w.Enough

/-- What is assumed of an enter that submits and waits: it reads an SQE if there is
one, and waits if it reads them all. -/
def SubmitsAndWaits (w : Wait) (e : WaitEvent) : Prop :=
  ∀ x ∈ w.ended e, (x.args.toSubmit ≠ 0 → 1 ≤ x.k) ∧
    (x.args.GetsEvents → x.k = x.args.toSubmit.toNat →
      min x.args.minComplete.toNat w.cqEntries ≤ w.ready.length)

instance (w : Wait) (e : WaitEvent) : Decidable (w.SubmitsAndWaits e) :=
  inferInstanceAs (Decidable (∀ x ∈ w.ended e, _ ∧ _))

/-- An enter made with a completion at hand reads every SQE it is offered. -/
def LeavesNone (w : Wait) (e : WaitEvent) : Prop :=
  ∀ x ∈ w.ended e, x.cqe ≠ none → x.k = x.args.toSubmit.toNat

instance (w : Wait) (e : WaitEvent) : Decidable (w.LeavesNone e) :=
  inferInstanceAs (Decidable (∀ x ∈ w.ended e, _ → _))

/-- Without an SQ thread, reading SQEs leaves the rest as visible as it was. -/
theorem Flushed.enter {args : EnterArgs} {k consumed : ℕ} {sqes : List SQEntry}
    {sq : SubmissionQueue} (flushed : w.Flushed) (noThread : w.ring.params.sqPoll = false)
    (done : w.ring.kernelEnter args (.consumed k) = some (.ok consumed, sqes, sq)) :
    sq.visible = sq.pending := by
  obtain ⟨-, -, -, pending, visible⟩ := Ring.kernelEnter_noThread noThread done
  rw [Flushed, pending, visible, List.append_cancel_left_eq] at flushed
  exact flushed

theorem Flushed.transition (flushed : w.Flushed) (noThread : w.ring.params.sqPoll = false)
    (trans : Transition w e w') : w'.Flushed := by
  cases trans with
  | again here done => exact flushed.enter noThread done
  | entered here done => exact flushed.enter noThread done
  | consume thread consumed =>
      rw [noThread] at thread
      cases thread
  | flags => exact flushed
  | peek here => exact flushed
  | found here some submitted enough => exact flushed
  | empty here nothing idle clear => exact flushed
  | enter here submit wait asks flush => exact flushed
  | failed here => exact flushed
  | post posted => exact flushed

/-- What an enter leaves behind is what it was offered and did not read. -/
theorem length_pending_entered {args : EnterArgs} {cqe : Option ℕ} {overflow : Bool}
    {k consumed : ℕ} {sqes : List SQEntry} {sq : SubmissionQueue}
    (noThread : w.ring.params.sqPoll = false) (knows : w.Knows w.pc) (acc : w.Accounted)
    (flushed : w.Flushed) (here : w.pc = .entering args cqe overflow)
    (done : w.ring.kernelEnter args (.consumed k) = some (.ok consumed, sqes, sq)) :
    k + sq.pending.length = args.toSubmit.toNat := by
  obtain ⟨-, -, length, pending, -⟩ := Ring.kernelEnter_noThread noThread done
  have offered : w.params.submit = w.offered := acc (by rw [hasReturned, here])
  rw [here] at knows
  calc k + sq.pending.length
      = w.ring.sqRing.pending.length := by rw [pending, List.length_append, length]
    _ = w.ring.sqRing.visible.length := by rw [flushed]
    _ = args.toSubmit.toNat := by rw [← toNat_offered, ← offered, knows.toSubmit]

/-- What carries the argument for `SubmitAndWaitCQEvents`. -/
structure Submitting (r : Ring) (waitNr : UInt32) (w : Wait) : Prop where
  sound : Sound r waitNr w
  accounted : w.Accounted
  flushed : w.Flushed
  complete : w.Complete

/-- **An enter that leaves nothing behind keeps the promise.** -/
theorem Complete.transition (noThread : w.ring.params.sqPoll = false)
    (sub : Submitting r waitNr w) (waits : w.SubmitsAndWaits e) (leaves : w.LeavesNone e)
    (trans : Transition w e w') : w'.Complete := by
  have enough : w'.ReturnsEnough := by
    refine ReturnsEnough.transition sub.sound.knows (fun cqe done => (sub.complete cqe done).2)
      (fun x ended some asks => ?_) trans
    exact (waits x ended).2 asks (leaves x ended some)
  intro cqe done
  refine ⟨?_, enough cqe done⟩
  cases trans with
  | found here some submitted _ =>
      have offered : w.params.submit = w.offered := sub.accounted (by rw [hasReturned, here])
      show w.ring.sqRing.pending = []
      rw [← sub.flushed, ← List.length_eq_zero_iff, ← toNat_offered, ← offered, submitted]
      rfl
  | @entered args ptr overflow k consumed sqes sq here entered =>
      have rest := length_pending_entered noThread sub.sound.knows sub.accounted sub.flushed
        here entered
      have all : k = args.toSubmit.toNat :=
        leaves _ (ended_eq here k) (Option.some_ne_none ptr)
      show sq.pending = []
      rw [← List.length_eq_zero_iff]
      omega
  | peek here => cases done
  | empty here nothing idle clear => cases done
  | enter here submit wait asks flush => cases done
  | failed here => cases done
  | again here entered => cases done
  | post posted => exact (sub.complete cqe done).1
  | consume thread consumed =>
      rw [noThread] at thread
      cases thread
  | flags => exact (sub.complete cqe done).1

/-- **An enter that leaves an SQE behind breaks it**: with a completion at hand the call
returns. -/
theorem not_complete_of_leaves (noThread : w.ring.params.sqPoll = false)
    (sub : Submitting r waitNr w) (leaves : ¬ w.LeavesNone e) (trans : Transition w e w') :
    ¬ w'.Complete := by
  simp only [LeavesNone, not_forall] at leaves
  obtain ⟨⟨args, cqe, overflow, k⟩, ended, some, short⟩ := leaves
  obtain ⟨here, rfl⟩ := ended_eq_some ended
  intro complete
  cases trans with
  | again top entered =>
      cases here.symm.trans top
      exact some rfl
  | @entered _ ptr _ _ consumed sqes sq top entered =>
      cases here.symm.trans top
      have rest := length_pending_entered noThread sub.sound.knows sub.accounted sub.flushed
        here entered
      have none : sq.pending = [] := (complete _ rfl).1
      rw [none, List.length_nil, Nat.add_zero] at rest
      exact short rest

theorem submitting_start (r : Ring) (cnt : UInt32) :
    Submitting (WaitCall.ring r (.submitAndWaitCQEvents cnt)) cnt
      (WaitCall.start r (.submitAndWaitCQEvents cnt)) where
  sound := sound_start (WaitCall.ring r (.submitAndWaitCQEvents cnt))
    (WaitCall.params r (.submitAndWaitCQEvents cnt))
  accounted := by
    intro _
    apply UInt32.toNat_inj.mp
    rw [toNat_offered]
    show r.sqRing.flushSQ.1.toNat = r.sqRing.flushSQ.2.visible.length
    rw [SubmissionQueue.visible_flushSQ]
    exact r.sqRing.wf.flushSQ_count
  flushed := by
    show r.sqRing.flushSQ.2.visible = r.sqRing.flushSQ.2.pending
    rw [SubmissionQueue.visible_flushSQ, SubmissionQueue.pending_flushSQ]
  complete := fun _ done => by cases done

/-- **When `SubmitAndWaitCQEvents` submits and waits.**  In a run of the call every
return without an error has all SQEs consumed and enough completions ready, exactly if
no enter made with a completion at hand leaves an SQE behind. -/
theorem submitAndWait_complete_iff {cnt : UInt32} (extArg : r.params.extArgFeature = true)
    (noThread : r.params.sqPoll = false)
    (path : Path step (WaitCall.start r (.submitAndWaitCQEvents cnt)) p w)
    (waits : ∀ x ∈ p, SubmitsAndWaits x.1 x.2) :
    (∀ t ∈ visited p w, ∀ cqe, t.pc = .returned cqe none →
      t.ring.sqRing.pending = [] ∧ min cnt.toNat t.cqEntries ≤ t.ready.length) ↔
      ∀ x ∈ p, LeavesNone x.1 x.2 := by
  have ext : (WaitCall.ring r (.submitAndWaitCQEvents cnt)).params.extArgFeature = true := extArg
  have quiet : ∀ {v : Wait}, Submitting (WaitCall.ring r (.submitAndWaitCQEvents cnt)) cnt v →
      v.ring.params.sqPoll = false := fun sub => sub.sound.config ▸ noThread
  have exactly := path.exact
    (Submitting (WaitCall.ring r (.submitAndWaitCQEvents cnt)) cnt) (fun _ => True) Complete
    SubmitsAndWaits LeavesNone (submitting_start r cnt) (fun v sub _ => sub.complete)
    ?_ ?_ (fun _ _ => trivial) waits
  · rw [← exactly]
    refine forall_congr' fun t => forall_congr' fun mem => forall_congr' fun cqe => ?_
    obtain ⟨q, -, short⟩ := path.exists_of_visited mem
    have sound := sound_of_path ext short
    rw [Enough, sound.waitNr]
    rfl
  · intro v e v' sub _ _ waits leaves stepped
    have trans := sub.sound.step_transition ext stepped
    exact ⟨sub.sound.transition trans,
      sub.accounted.transition (quiet sub) sub.sound.knows trans,
      sub.flushed.transition (quiet sub) trans,
      Complete.transition (quiet sub) sub waits leaves trans⟩
  · intro v e v' sub _ _ _ leaves stepped
    exact not_complete_of_leaves (quiet sub) sub leaves (sub.sound.step_transition ext stepped)

/-- The law at a call that submits two SQEs with two enters, both made with an empty
completion queue. -/
theorem submitAndWait_complete_iff_busy :
    ∃ p w, Path step (WaitCall.start busyRing (.submitAndWaitCQEvents 1)) p w ∧
      (∀ x ∈ p, LeavesNone x.1 x.2) ∧
      ∀ t ∈ visited p w, ∀ cqe, t.pc = .returned cqe none →
        t.ring.sqRing.pending = [] ∧ min (1 : UInt32).toNat t.cqEntries ≤ t.ready.length := by
  have path : Path step (WaitCall.start busyRing (.submitAndWaitCQEvents 1))
      (record step (WaitCall.start busyRing (.submitAndWaitCQEvents 1)) twoEnters) _ :=
    path_record twoEnters rfl
  exact ⟨_, _, path, by decide,
    (submitAndWait_complete_iff rfl rfl path (by decide)).mpr (by decide)⟩

/-- A completion is ready when the call looks, and the kernel reads one of two SQEs: the
call returns without an error and the second SQE is still there. -/
theorem submitAndWait_leaves_sqe :
    ∃ p w, Path step (WaitCall.start busyRing (.submitAndWaitCQEvents 1)) p w ∧
      (∀ x ∈ p, SubmitsAndWaits x.1 x.2) ∧
      (∃ cqe, w.pc = .returned cqe none) ∧
      w.ring.sqRing.pending.map SQEntry.userData = [8] :=
  ⟨_, _, path_record [.post ⟨7, 0, 0⟩, .peek, .decide, .entered (.consumed 1)] rfl,
    by decide, ⟨_, rfl⟩, rfl⟩

end Wait

end GoUring.Uring
