import GoUring.Foundation.Runs
import GoUring.Uring.Ring

/-!
# The loop of `getCQEvents`

`PeekCQE`, `WaitCQEvents`, `WaitCQEventsWithTimeout` and `SubmitAndWaitCQEvents`
are all calls of `getCQEvents`, whose loop reads the counters of the completion
queue, decides on what it saw and on the flags of the ring whether to enter the
kernel, enters it, and looks again.  `Wait` is such a call in progress and
`Wait.step` its next step.  The kernel moves at any time: it posts completions
between the reading of the counters and the decision, and while the call is in
`io_uring_enter`, and it changes the flags.  What the kernel answers to an enter is
part of the event; what may be assumed of the answer is left to the results.

`Ring.getIteration` is a pass of the loop with nothing in between: the two steps `peek`
and `decide` here.

Besides the state of the call a `Wait` counts its enters and keeps what the call
last read of the counters and of the overflow flag.
-/

namespace GoUring.Uring

open CounterRing

namespace Ring

/-- An enter that does not fail answers a count. -/
theorem kernelEnter_ok {r : Ring} {args : EnterArgs} {k : ℕ} {ret : Except RingError ℕ}
    {sqes : List SQEntry} {sq : SubmissionQueue}
    (done : r.kernelEnter args (.consumed k) = some (ret, sqes, sq)) :
    ∃ consumed, ret = .ok consumed := by
  simp only [kernelEnter, RingParams.enter] at done
  split at done
  · cases done
    exact ⟨_, rfl⟩
  · split at done
    · obtain ⟨⟨read, sq⟩, -, done⟩ := Option.map_eq_some_iff.mp done
      cases done
      exact ⟨_, rfl⟩
    · cases done

end Ring

/-- The enter asks the kernel for completions. -/
def EnterArgs.GetsEvents (args : EnterArgs) : Prop := args.flags &&& sysRingEnterGetEvents ≠ 0

instance (args : EnterArgs) : Decidable args.GetsEvents :=
  inferInstanceAs (Decidable (args.flags &&& sysRingEnterGetEvents ≠ 0))

/-- Where a call of `getCQEvents` is. -/
inductive WaitPC
  /-- At the top of the loop. -/
  | top
  /-- The counters were read. -/
  | peeked (seen : CQ.Peeked)
  /-- In `io_uring_enter`, holding the pointer the pass picked; `overflow` is the
  overflow flag when the enter was made. -/
  | entering (args : EnterArgs) (cqe : Option ℕ) (overflow : Bool)
  | returned (cqe : Option ℕ) (err : Option RingError)
  deriving DecidableEq, Repr

/-- A call of `getCQEvents` in progress. -/
structure Wait where
  ring : Ring
  params : Ring.GetParams
  pc : WaitPC
  /-- How often the call has entered the kernel. -/
  enters : ℕ
  /-- What was in the completion queue when the call last read its counters. -/
  readyRead : List CQEvent
  /-- The overflow flag when the call last read it. -/
  overflowRead : Bool

/-- What can happen to a call. -/
inductive WaitEvent
  /-- The call reads the counters. -/
  | peek
  /-- The call decides what to do. -/
  | decide
  /-- `io_uring_enter` returns. -/
  | entered (result : EnterResult)
  /-- The kernel posts a completion. -/
  | post (cqe : CQEvent)
  /-- The SQ thread of a ring that has one reads an SQE. -/
  | consume
  /-- The flags of the ring change. -/
  | flags (flags : UInt32)
  deriving DecidableEq, Repr

/-- The event is a step of the call. -/
def WaitEvent.ofCall : WaitEvent → Bool
  | .peek => true
  | .decide => true
  | .entered _ => true
  | _ => false

namespace Wait

/-- The completions posted and not yet retired, oldest first. -/
def ready (w : Wait) : List CQEvent := w.ring.cqRing.ready

/-- `getCQEvents(params)` before its first step. -/
def start (r : Ring) (params : Ring.GetParams) : Wait where
  ring := r
  params := params
  pc := .top
  enters := 0
  readyRead := []
  overflowRead := false

/-- The overflow flag of the ring. -/
def overflow (w : Wait) : Bool := w.ring.sqRing.sq.cqNeedFlush

/-- The flag as last read, after a decision on `seen`. -/
def readFlag (w : Wait) (seen : CQ.Peeked) : Bool :=
  if w.params.idle seen then w.overflow else w.overflowRead

/-- What a pass that saw `seen` comes to. -/
def decided (w : Wait) (seen : CQ.Peeked) : Ring.GetOutcome → Wait
  | .ret cqe err => { w with pc := .returned cqe err, overflowRead := w.readFlag seen }
  | .enter args cqe =>
      { w with
        pc := .entering args cqe w.overflow
        enters := w.enters + 1
        overflowRead := w.readFlag seen }

/-- The rest of a pass after its system call. -/
def resumed (w : Wait) (sq : SubmissionQueue) :
    Ring.GetParams ⊕ (Option ℕ × Option RingError) → Wait
  | .inl params => { w with ring := { w.ring with sqRing := sq }, params := params, pc := .top }
  | .inr (cqe, err) =>
      { w with ring := { w.ring with sqRing := sq }, pc := .returned cqe err }

/-- One step of the call or of the kernel. -/
def step (w : Wait) : WaitEvent → Option Wait
  | .peek =>
      match w.pc with
      | .top =>
          some
            { w with
              ring := w.ring.peekCQEvent.2
              pc := .peeked w.ring.peekCQEvent.1
              readyRead := w.ready }
      | _ => none
  | .decide =>
      match w.pc with
      | .peeked seen => some (w.decided seen (w.ring.getDecision w.params seen))
      | _ => none
  | .entered result =>
      match w.pc with
      | .entering args cqe _ =>
          (w.ring.kernelEnter args result).map fun (ret, _, sq) =>
            w.resumed sq (Ring.afterEnter w.params cqe ret)
      | _ => none
  | .post cqe =>
      (w.ring.cqRing.kernelPost cqe).map fun cq => { w with ring := { w.ring with cqRing := cq } }
  | .consume =>
      if w.ring.params.sqPoll then
        w.ring.sqRing.kernelConsume.map fun (_, sq) =>
          { w with ring := { w.ring with sqRing := sq } }
      else none
  | .flags flags =>
      some { w with ring := { w.ring with sqRing := w.ring.sqRing.kernelFlags flags } }

/-! ## The step function, taken apart -/

/-- What a peek reads on a ring with the ext-arg feature. -/
def seen (w : Wait) : CQ.Peeked where
  available := w.ring.cqRing.cq.kTail - w.ring.cqRing.cq.kHead
  cqe := w.ring.cqRing.cq.headPtr
  err := none

/-- The steps of a call on a ring with the ext-arg feature. -/
inductive Transition (w : Wait) : WaitEvent → Wait → Prop
  | peek (here : w.pc = .top) :
      Transition w .peek { w with pc := .peeked w.seen, readyRead := w.ready }
  /-- There is enough, and nothing to submit. -/
  | found {seen : CQ.Peeked} (here : w.pc = .peeked seen) (some : seen.cqe ≠ none)
      (submitted : w.params.submit = 0) (enough : w.params.waitNr ≤ seen.available) :
      Transition w .decide
        { w with pc := .returned seen.cqe none, overflowRead := w.readFlag seen }
  /-- There is nothing, and nothing to wait for. -/
  | empty {seen : CQ.Peeked} (here : w.pc = .peeked seen) (nothing : seen.cqe = none)
      (idle : w.params.idle seen = true) (clear : w.overflow = false) :
      Transition w .decide
        { w with pc := .returned none (some (.errno .eagain)), overflowRead := false }
  | enter {seen : CQ.Peeked} {args : EnterArgs} (here : w.pc = .peeked seen)
      (submit : args.toSubmit = w.params.submit) (wait : args.minComplete = w.params.waitNr)
      (asks : args.GetsEvents ∨ (w.params.waitNr ≤ seen.available ∧ w.params.submit ≠ 0))
      (flush : w.params.idle seen = true → w.overflow = true) :
      Transition w .decide
        { w with
          pc := .entering args seen.cqe w.overflow
          enters := w.enters + 1
          overflowRead := w.readFlag seen }
  | failed {args : EnterArgs} {cqe : Option ℕ} {overflow : Bool} {errno : Errno}
      (here : w.pc = .entering args cqe overflow) :
      Transition w (.entered (.failed errno))
        { w with pc := .returned cqe (some (.enter errno)) }
  /-- The pass has nothing to return, and the loop goes on. -/
  | again {args : EnterArgs} {overflow : Bool} {k consumed : ℕ} {sqes : List SQEntry}
      {sq : SubmissionQueue} (here : w.pc = .entering args none overflow)
      (done : w.ring.kernelEnter args (.consumed k) = some (.ok consumed, sqes, sq)) :
      Transition w (.entered (.consumed k))
        { w with
          ring := { w.ring with sqRing := sq }
          params := { w.params with submit := w.params.submit - UInt32.ofNat consumed }
          pc := .top }
  | entered {args : EnterArgs} {ptr : ℕ} {overflow : Bool} {k consumed : ℕ}
      {sqes : List SQEntry} {sq : SubmissionQueue}
      (here : w.pc = .entering args (some ptr) overflow)
      (done : w.ring.kernelEnter args (.consumed k) = some (.ok consumed, sqes, sq)) :
      Transition w (.entered (.consumed k))
        { w with ring := { w.ring with sqRing := sq }, pc := .returned (some ptr) none }
  | post {cqe : CQEvent} {cq : CompletionQueue}
      (posted : w.ring.cqRing.kernelPost cqe = some cq) :
      Transition w (.post cqe) { w with ring := { w.ring with cqRing := cq } }
  | consume {sqe : SQEntry} {sq : SubmissionQueue} (thread : w.ring.params.sqPoll = true)
      (consumed : w.ring.sqRing.kernelConsume = some (sqe, sq)) :
      Transition w .consume { w with ring := { w.ring with sqRing := sq } }
  | flags {flags : UInt32} :
      Transition w (.flags flags)
        { w with ring := { w.ring with sqRing := w.ring.sqRing.kernelFlags flags } }

theorem peekCQEvent_of_extArg {w : Wait} (extArg : w.ring.params.extArgFeature = true) :
    w.ring.peekCQEvent = (w.seen, w.ring) := by
  have raw := CQ.peekCQEvent_extArg w.ring.cqRing.cq
  rw [← extArg] at raw
  simp only [Ring.peekCQEvent, raw, seen]

/-- The flag that asks for completions survives the flags set after it. -/
theorem getsEvents_or (flags : UInt32) :
    (sysRingEnterGetEvents ||| flags) &&& sysRingEnterGetEvents ≠ 0 := by
  intro zero
  have bit := congrArg (fun x : UInt32 => x.toBitVec.getLsbD 0) zero
  simp [sysRingEnterGetEvents] at bit

theorem getsEvents_needsEnter (r : Ring) (flags : UInt32) :
    (r.needsEnter (sysRingEnterGetEvents ||| flags)).2 &&& sysRingEnterGetEvents ≠ 0 := by
  unfold Ring.needsEnter SQ.needsEnter
  split
  · exact getsEvents_or flags
  · split
    · dsimp only
      rw [UInt32.or_assoc]
      exact getsEvents_or _
    · exact getsEvents_or flags

/-- The decision of a pass, taken apart. -/
theorem transition_decide {w : Wait} {seen : CQ.Peeked} (here : w.pc = .peeked seen)
    (fine : seen.err = none) (shown : seen.cqe = none → seen.available = 0) :
    Transition w .decide (w.decided seen (w.ring.getDecision w.params seen)) := by
  simp only [Ring.getDecision, SQ.getDecision, fine]
  split
  · next giveUp =>
    rw [Bool.and_eq_true, Bool.not_eq_true'] at giveUp
    obtain ⟨idle, clear⟩ := giveUp
    have nothing : seen.cqe = none := (Ring.GetParams.idle_eq_true.mp idle).1
    have read : w.readFlag seen = false := (if_pos idle).trans clear
    simp only [decided, nothing, read]
    exact .empty here nothing idle clear
  · next goOn =>
    have flush : w.params.idle seen = true → w.overflow = true := by
      intro idle
      rw [idle, Bool.true_and, Bool.not_eq_true', Bool.not_eq_false] at goOn
      exact goOn
    split
    · next enter =>
      refine .enter here rfl rfl ?_ flush
      by_cases wait : (decide (w.params.waitNr > seen.available) || w.params.idle seen) = true
      · refine Or.inl ?_
        simp only [EnterArgs.GetsEvents, wait, if_true]
        split
        · exact getsEvents_needsEnter _ _
        · exact getsEvents_or _
      · refine Or.inr ?_
        rw [Bool.not_eq_true] at wait
        rw [wait, Bool.false_or, bne_iff_ne] at enter
        rw [Bool.or_eq_false_iff, decide_eq_false_iff_not, gt_iff_lt, UInt32.not_lt] at wait
        exact ⟨wait.1, enter⟩
    · next stay =>
      rw [Bool.not_eq_true, Bool.or_eq_false_iff, Bool.or_eq_false_iff, decide_eq_false_iff_not,
        gt_iff_lt, UInt32.not_lt, bne_eq_false_iff_eq] at stay
      obtain ⟨⟨enough, busy⟩, submitted⟩ := stay
      refine .found here ?_ submitted enough
      intro nothing
      -- With nothing found and nothing to submit, a pass that is not idle has to wait.
      have waiting : w.params.waitNr ≠ 0 := by
        intro none
        rw [Ring.GetParams.idle_eq_true.mpr ⟨nothing, none, submitted⟩] at busy
        cases busy
      rw [shown nothing] at enough
      exact waiting (UInt32.le_zero_iff.mp enough)

/-- The answers of `io_uring_enter` that the rest of a pass distinguishes. -/
theorem transition_entered {w w' : Wait} {args : EnterArgs} {cqe : Option ℕ} {overflow : Bool}
    {result : EnterResult} (here : w.pc = .entering args cqe overflow)
    (stepped : w.step (.entered result) = some w') : Transition w (.entered result) w' := by
  simp only [step, here] at stepped
  obtain ⟨⟨ret, sqes, sq⟩, done, rfl⟩ := Option.map_eq_some_iff.mp stepped
  cases result with
  | failed errno =>
      cases done
      exact .failed here
  | consumed k =>
      obtain ⟨consumed, rfl⟩ := Ring.kernelEnter_ok done
      cases cqe with
      | none => exact .again here done
      | some ptr => exact .entered here done

/-- What a pass saw on a ring with the ext-arg feature. -/
def SawHead (w : Wait) : Prop :=
  ∀ seen, w.pc = .peeked seen → seen.err = none ∧ (seen.cqe = none → seen.available = 0)

/-- **What a step can do.** -/
theorem step_transition {w w' : Wait} {e : WaitEvent}
    (extArg : w.ring.params.extArgFeature = true) (saw : w.SawHead)
    (stepped : w.step e = some w') : Transition w e w' := by
  cases e with
  | peek =>
      simp only [step] at stepped
      split at stepped
      · next here =>
        rw [peekCQEvent_of_extArg extArg] at stepped
        cases stepped
        exact .peek here
      · cases stepped
  | decide =>
      simp only [step] at stepped
      split at stepped
      · next seen here =>
        cases stepped
        exact transition_decide here (saw seen here).1 (saw seen here).2
      · cases stepped
  | entered result =>
      have shape := stepped
      simp only [step] at shape
      split at shape
      · next here => exact transition_entered here stepped
      · cases shape
  | post cqe =>
      obtain ⟨cq, posted, rfl⟩ := Option.map_eq_some_iff.mp stepped
      exact .post posted
  | consume =>
      simp only [step] at stepped
      split at stepped
      · next thread =>
        obtain ⟨⟨sqe, sq⟩, consumed, rfl⟩ := Option.map_eq_some_iff.mp stepped
        exact .consume thread consumed
      · cases stepped
  | flags flags =>
      cases stepped
      exact .flags

/-! ## What the call knows -/

/-- The pointer to the oldest completion, if there is one. -/
def head (w : Wait) : Option ℕ := w.ring.cqRing.cq.headPtr

/-- What a peek saw, as far as it stays true while the kernel posts. -/
structure Saw (w : Wait) (seen : CQ.Peeked) : Prop where
  err : seen.err = none
  available_eq : seen.cqe = none → seen.available = 0
  empty : seen.cqe = none → w.readyRead = []
  available_le : seen.available.toNat ≤ w.ready.length
  head : ∀ ptr, seen.cqe = some ptr → w.head = some ptr

/-- What a call in the kernel asked for, and why. -/
structure Asked (w : Wait) (args : EnterArgs) (cqe : Option ℕ) (overflow : Bool) : Prop where
  toSubmit : args.toSubmit = w.params.submit
  minComplete : args.minComplete = w.params.waitNr
  head : ∀ ptr, cqe = some ptr → w.head = some ptr
  /-- An enter that does not ask for completions finds as many as the call waits
  for, and submits. -/
  asks : args.GetsEvents ∨ (args.minComplete.toNat ≤ w.ready.length ∧ args.toSubmit ≠ 0)
  /-- An enter for nothing else is for the overflow flag. -/
  flush : cqe = none → args.toSubmit = 0 → args.minComplete = 0 → overflow = true

/-- What a call knows where it is. -/
def Knows (w : Wait) : WaitPC → Prop
  | .top => True
  | .peeked seen => w.Saw seen
  | .entering args cqe overflow => w.Asked args cqe overflow
  | .returned cqe none => ∃ ptr, cqe = some ptr ∧ w.head = some ptr
  | .returned _ (some err) =>
      (∃ errno, err = .enter errno) ∨ (w.readyRead = [] ∧ w.overflowRead = false)

/-- The call on the ring `r` left the configuration and the head of the completion
queue alone, and knows what it should. -/
structure Sound (r : Ring) (waitNr : UInt32) (w : Wait) : Prop where
  config : w.ring.params = r.params
  posts : r.cqRing.Extends w.ring.cqRing
  waitNr : w.params.waitNr = waitNr
  knows : w.Knows w.pc

variable {r : Ring} {waitNr : UInt32} {w w' : Wait} {e : WaitEvent}

theorem sound_start (r : Ring) (params : Ring.GetParams) :
    Sound r params.waitNr (start r params) :=
  ⟨rfl, .refl _, rfl, trivial⟩

/-- Posts and changes of the submission queue leave the call what it knows. -/
theorem Knows.kernel {sq : SubmissionQueue} {cq : CompletionQueue} {pc : WaitPC}
    (knows : w.Knows pc) (posts : w.ring.cqRing.Extends cq) :
    Knows { w with ring := { w.ring with sqRing := sq, cqRing := cq } } pc := by
  have more : w.ready.length ≤ cq.ready.length := posts.ready.length_le
  match pc, knows with
  | .top, _ => trivial
  | .peeked seen, saw =>
      exact ⟨saw.err, saw.available_eq, saw.empty, saw.available_le.trans more,
        fun ptr some => posts.headPtr (saw.head ptr some)⟩
  | .entering args cqe overflow, asked =>
      refine ⟨asked.toSubmit, asked.minComplete,
        fun ptr some => posts.headPtr (asked.head ptr some), ?_, asked.flush⟩
      exact asked.asks.imp_right fun enough => ⟨enough.1.trans more, enough.2⟩
  | .returned cqe none, ⟨ptr, held, head⟩ => exact ⟨ptr, held, posts.headPtr head⟩
  | .returned cqe (some err), eagain => exact eagain

/-- **A step of the call or of the kernel keeps what the call knows.** -/
theorem Sound.transition (sound : Sound r waitNr w) (trans : Transition w e w') :
    Sound r waitNr w' := by
  obtain ⟨config, posts, wait, knows⟩ := sound
  cases trans with
  | peek here =>
      refine ⟨config, posts, wait, ⟨rfl, fun none => ?_, fun none => ?_, ?_, fun _ => id⟩⟩
      · have same := CQ.ready_eq_nil_iff.mp (CQ.headPtr_eq_none_iff.mp none)
        show _ - _ = _
        rw [same, UInt32.sub_self]
      · exact CQ.headPtr_eq_none_iff.mp none
      · exact (CQ.length_ready _).ge
  | found here some submitted enough =>
      rw [here] at knows
      obtain ⟨ptr, held⟩ := Option.ne_none_iff_exists'.mp some
      exact ⟨config, posts, wait, ptr, held, knows.head ptr held⟩
  | empty here nothing idle clear =>
      rw [here] at knows
      exact ⟨config, posts, wait, Or.inr ⟨knows.empty nothing, rfl⟩⟩
  | @enter seen args here submit minComplete asks flush =>
      rw [here] at knows
      refine ⟨config, posts, wait, submit, minComplete, knows.head, ?_, ?_⟩
      · refine asks.imp_right fun enough => ⟨?_, submit ▸ enough.2⟩
        rw [minComplete]
        exact (UInt32.le_iff_toNat_le.mp enough.1).trans knows.available_le
      · intro none zero zero'
        exact flush (Ring.GetParams.idle_eq_true.mpr
          ⟨none, minComplete ▸ zero', submit ▸ zero⟩)
  | failed here => exact ⟨config, posts, wait, Or.inl ⟨_, rfl⟩⟩
  | again here done => exact ⟨config, posts, wait, trivial⟩
  | entered here done =>
      rw [here] at knows
      exact ⟨config, posts, wait, _, rfl, knows.head _ rfl⟩
  | post posted =>
      exact ⟨config, posts.trans (.post posted), wait, knows.kernel (.post posted)⟩
  | consume thread consumed => exact ⟨config, posts, wait, knows.kernel (.refl _)⟩
  | flags => exact ⟨config, posts, wait, knows.kernel (.refl _)⟩

theorem Sound.sawHead (sound : Sound r waitNr w) : w.SawHead := by
  intro seen here
  have knows := sound.knows
  rw [here] at knows
  exact ⟨knows.err, knows.available_eq⟩

/-- A step of a sound call, taken apart. -/
theorem Sound.step_transition (extArg : r.params.extArgFeature = true)
    (sound : Sound r waitNr w) (stepped : w.step e = some w') : Transition w e w' :=
  Wait.step_transition (sound.config ▸ extArg) sound.sawHead stepped

/-- **What a call knows in every run.** -/
theorem sound_of_path {params : Ring.GetParams} {p : List (Wait × WaitEvent)}
    (extArg : r.params.extArgFeature = true)
    (path : Runs.Path step (start r params) p w) : Sound r params.waitNr w :=
  path.invariant_of_step (Sound r params.waitNr) (sound_start r params)
    fun _ _ _ sound stepped => sound.transition (sound.step_transition extArg stepped)

end Wait

/-- The calls that wait for completions.  The duration of a timed wait reaches only
the kernel. -/
inductive WaitCall
  | peekCQE
  | waitCQEvents (cnt : UInt32)
  | waitCQEventsWithTimeout (cnt : UInt32)
  | submitAndWaitCQEvents (cnt : UInt32)
  deriving DecidableEq, Repr

namespace WaitCall

/-- The ring when the call comes to the loop of `getCQEvents`. -/
def ring (r : Ring) : WaitCall → Ring
  | .submitAndWaitCQEvents _ => { r with sqRing := r.sqRing.flushSQ.2 }
  | _ => r

/-- What the call hands to `getCQEvents` on a ring with the ext-arg feature. -/
def params (r : Ring) : WaitCall → Ring.GetParams
  | .peekCQE => Ring.waitCQEvents 0
  | .waitCQEvents cnt => Ring.waitCQEvents cnt
  | .waitCQEventsWithTimeout cnt => { submit := 0, waitNr := cnt, flags := sysRingEnterExtArg }
  | .submitAndWaitCQEvents cnt => { submit := r.sqRing.flushSQ.1, waitNr := cnt, flags := 0 }

/-- The call up to the loop of `getCQEvents`. -/
def start (r : Ring) (call : WaitCall) : Wait := Wait.start (call.ring r) (call.params r)

@[simp] theorem params_ring (r : Ring) (call : WaitCall) : (call.ring r).params = r.params := by
  cases call <;> rfl

@[simp] theorem cqRing_ring (r : Ring) (call : WaitCall) : (call.ring r).cqRing = r.cqRing := by
  cases call <;> rfl

end WaitCall

end GoUring.Uring
