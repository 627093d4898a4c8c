import GoUring.Uring.CompletionQueue
import GoUring.Uring.SubmissionQueue

/-!
# The ring: entering the kernel

`Ring` of `uring/ring.go` puts the two queues together.  `Submit` and
`getCQEvents` leave the library through `io_uring_enter`; what the kernel does
there is a choice of the environment, given to the model as an argument
(`EnterResult`), and `kernelEnter` says which choices there are.

`getCQEvents` is cut at its system call: `getIteration` is one pass of its loop
up to the call (or up to the `return`), `afterEnter` is the rest of the pass.
The kernel may post completions at any point in between, so a caller's run
alternates the two with kernel steps.
-/

namespace GoUring.Uring

open CounterRing BoundedFifo

/-- A ring with the invariants of its two queues. -/
structure Ring where
  params : RingParams
  sqRing : SubmissionQueue
  cqRing : CompletionQueue

/-- The kernel's answer to `io_uring_enter`: how many SQEs it consumed, or an
errno. -/
inductive EnterResult
  | consumed (k : ℕ)
  | failed (errno : Errno)
  deriving DecidableEq, Repr

namespace SubmissionQueue

/-- The kernel reads `k` SQEs one after the other. -/
def kernelConsumeMany : ℕ → SubmissionQueue → Option (List SQEntry × SubmissionQueue)
  | 0, q => some ([], q)
  | k + 1, q =>
      q.kernelConsume.bind fun (sqe, q) =>
        (kernelConsumeMany k q).map fun (rest, q) => (sqe :: rest, q)

theorem pending_kernelConsume {q q' : SubmissionQueue} {sqe : SQEntry}
    (consumed : q.kernelConsume = some (sqe, q')) : q.pending = sqe :: q'.pending :=
  (Fifo.take_eq_some_iff.mp (kernelConsume_spec consumed).1).1

/-- Reading `k` SQEs takes `k` off the front of the queue, all of them visible. -/
theorem kernelConsumeMany_spec :
    ∀ (k : ℕ) {q q' : SubmissionQueue} {sqes : List SQEntry},
      kernelConsumeMany k q = some (sqes, q') →
        sqes.length = k ∧ q.pending = sqes ++ q'.pending ∧
          q.visible = sqes ++ q'.visible ∧ q'.entries = q.entries := by
  intro k
  induction k with
  | zero =>
      intro q q' sqes done
      cases done
      exact ⟨rfl, rfl, rfl, rfl⟩
  | succ k ih =>
      intro q q' sqes done
      rw [kernelConsumeMany, Option.bind_eq_some_iff] at done
      obtain ⟨⟨sqe, next⟩, first, done⟩ := done
      obtain ⟨⟨rest, last⟩, many, done⟩ := Option.map_eq_some_iff.mp done
      cases done
      obtain ⟨length, pending, visible, entries⟩ := ih many
      obtain ⟨-, visibleFirst, entriesFirst⟩ := kernelConsume_spec first
      refine ⟨by simp [length], ?_, ?_, entries.trans entriesFirst⟩
      · rw [pending_kernelConsume first, pending, List.cons_append]
      · rw [visibleFirst, visible, List.cons_append]

end SubmissionQueue

/-- `Ring.needsEnter`, on the queue alone: whether to enter the kernel, and the flags
afterwards. -/
def SQ.needsEnter (s : SQ) (params : RingParams) (flags : UInt32) : Bool × UInt32 :=
  if params.flags &&& setupSQPoll = 0 then
    (true, flags)
  else if s.kFlags &&& sqNeedWakeup != 0 then
    (true, flags ||| sysRingEnterSQWakeup)
  else
    (false, flags)

/-- What `io_uring_enter` returns and does to a submission queue, given the kernel's
answer: a ring with its own SQ thread answers `to_submit` and lets the thread
read; any other ring reads `k` of the SQEs offered and answers `k`; a failed
call reads nothing.  `none` is an answer the kernel cannot give.  `unread` is the queue as
it is, `read k` the queue after `k` reads. -/
def RingParams.enter {α : Type} (params : RingParams) (args : EnterArgs) (unread : α)
    (read : ℕ → Option α) : EnterResult → Option (Except RingError ℕ × α)
  | .failed errno => some (.error (.enter errno), unread)
  | .consumed k =>
      if params.sqPoll then
        some (.ok args.toSubmit.toNat, unread)
      else if k ≤ args.toSubmit.toNat then
        (read k).map fun rest => (.ok k, rest)
      else none

namespace Ring

/-- `Ring.needsEnter`. -/
def needsEnter (r : Ring) (flags : UInt32) : Bool × UInt32 :=
  r.sqRing.sq.needsEnter r.params flags

/-- An `io_uring_enter`: what it returns, the SQEs that the kernel reads in the call, and
the submission queue afterwards. -/
def kernelEnter (r : Ring) (args : EnterArgs) (result : EnterResult) :
    Option (Except RingError ℕ × List SQEntry × SubmissionQueue) :=
  r.params.enter args ([], r.sqRing) (SubmissionQueue.kernelConsumeMany · r.sqRing) result

/-- `Ring.Submit`: the count and the error returned, the SQEs the kernel read in
the call, and the submission queue afterwards; the rest of the ring is left
alone. -/
def submit (r : Ring) (result : EnterResult) :
    Option (Except RingError ℕ × List SQEntry × SubmissionQueue) :=
  let (flushed, sq) := r.sqRing.flushSQ
  let r := { r with sqRing := sq }
  let (enter, flags) := r.needsEnter 0
  if enter then
    let flags :=
      if r.params.flags &&& setupIOPoll = 1 then flags ||| sysRingEnterGetEvents else flags
    r.kernelEnter { toSubmit := flushed, minComplete := 0, flags := flags } result
  else
    some (.ok flushed.toNat, [], sq)

/-- **What `Submit` does.**  All that was queued becomes visible; the SQEs read
in the call are the oldest ones. -/
theorem submit_spec {r : Ring} {sq : SubmissionQueue} {result : EnterResult}
    {ret : Except RingError ℕ} {sqes : List SQEntry}
    (submitted : r.submit result = some (ret, sqes, sq)) :
    r.sqRing.pending = sqes ++ sq.pending ∧ sq.visible = sq.pending ∧
      sq.entries = r.sqRing.entries := by
  simp only [submit] at submitted
  split at submitted
  · cases result with
    | failed errno =>
        cases submitted
        exact ⟨by simp, by simp, by simp⟩
    | consumed k =>
        simp only [kernelEnter, RingParams.enter] at submitted
        split at submitted
        · cases submitted
          exact ⟨by simp, by simp, by simp⟩
        · split at submitted
          · obtain ⟨⟨read, sq⟩, many, done⟩ := Option.map_eq_some_iff.mp submitted
            cases done
            obtain ⟨-, pending, visible, entries⟩ :=
              SubmissionQueue.kernelConsumeMany_spec k many
            rw [SubmissionQueue.pending_flushSQ] at pending
            rw [SubmissionQueue.visible_flushSQ, pending, List.append_cancel_left_eq] at visible
            rw [SubmissionQueue.entries_flushSQ] at entries
            exact ⟨pending, visible.symm, entries⟩
          · cases submitted
  · cases submitted
    exact ⟨by simp, by simp, by simp⟩

/-- On a ring without an SQ thread, `Submit` reads as many SQEs as it answers,
and none when it fails. -/
theorem submit_read {r : Ring} {sq : SubmissionQueue} {result : EnterResult}
    {ret : Except RingError ℕ} {sqes : List SQEntry} (noThread : r.params.sqPoll = false)
    (submitted : r.submit result = some (ret, sqes, sq)) :
    (∃ k, result = .consumed k ∧ ret = .ok k ∧ sqes.length = k) ∨
      ∃ errno, result = .failed errno ∧ ret = .error (.enter errno) ∧ sqes = [] := by
  have flag : r.params.flags &&& setupSQPoll = 0 := by
    simpa [RingParams.sqPoll] using noThread
  simp only [submit, needsEnter, SQ.needsEnter, flag, if_true] at submitted
  cases result with
  | failed errno =>
      cases submitted
      exact Or.inr ⟨errno, rfl, rfl, rfl⟩
  | consumed k =>
      simp only [kernelEnter, RingParams.enter, noThread] at submitted
      split at submitted
      · next impossible => exact absurd impossible Bool.false_ne_true
      · split at submitted
        · obtain ⟨⟨read, sq⟩, many, done⟩ := Option.map_eq_some_iff.mp submitted
          cases done
          exact Or.inl ⟨k, rfl, rfl, (SubmissionQueue.kernelConsumeMany_spec k many).1⟩
        · cases submitted

/-! ## Waiting for completions -/

/-- `getParams`, less the pointer arguments the kernel alone reads. -/
structure GetParams where
  submit : UInt32
  waitNr : UInt32
  flags : UInt32
  deriving DecidableEq, Repr

/-- How one pass of the loop of `getCQEvents` ends: with a return of a pointer
and an error, or at `io_uring_enter`, holding the pointer the pass picked. -/
inductive GetOutcome
  | ret (cqe : Option ℕ) (err : Option RingError)
  | enter (args : EnterArgs) (cqe : Option ℕ)
  deriving DecidableEq, Repr

/-- The pointer a pass picked. -/
def GetOutcome.cqe : GetOutcome → Option ℕ
  | .ret cqe _ => cqe
  | .enter _ cqe => cqe

/-- The invariant survives the timeouts a peek retires, and the pointer it
returns is the pointer to the completion that is then the oldest. -/
theorem peekLoop_spec (extArg : Bool) :
    ∀ (n : ℕ) (c : CQ), c.WF → n ≤ c.ready.length →
      (c.peekLoop extArg n).2.WF ∧
        ∀ ptr, (c.peekLoop extArg n).1.cqe = some ptr →
          0 < (c.peekLoop extArg n).2.ready.length ∧
            ptr = (c.peekLoop extArg n).2.cqeAddr (c.peekLoop extArg n).2.kHead := by
  intro n
  induction n with
  | zero => exact fun c wf _ => ⟨wf, fun ptr none => by cases none⟩
  | succ n ih =>
      intro c wf le
      have seen := wf.advanceCQ_spec (n := 1) (le_trans (Nat.succ_pos n) le)
      simp only [CQ.peekLoop]
      split
      · split
        · refine ih _ seen.1 ?_
          show n ≤ (c.advanceCQ 1).ready.length
          rw [seen.2, List.length_drop]
          exact Nat.le_sub_of_add_le le
        · exact ⟨seen.1, fun ptr none => by cases none⟩
      · refine ⟨wf, fun ptr head => ⟨Nat.lt_of_lt_of_le (Nat.succ_pos n) le, ?_⟩⟩
        cases head
        rfl

/-- `Ring.peekCQEvent` on a ring with its invariants. -/
def peekCQEvent (r : Ring) : CQ.Peeked × Ring :=
  ((r.cqRing.cq.peekCQEvent r.params.extArgFeature).1,
    { r with
      cqRing :=
        { cq := (r.cqRing.cq.peekCQEvent r.params.extArgFeature).2
          wf := (peekLoop_spec _ _ _ r.cqRing.wf (CQ.length_ready _).ge).1 } })

/-- There is nothing to return, to wait for or to submit.  Only then the loop of
`getCQEvents` reads the overflow flag. -/
def GetParams.idle (params : GetParams) (peeked : CQ.Peeked) : Bool :=
  peeked.cqe.isNone && params.waitNr == 0 && params.submit == 0

theorem GetParams.idle_eq_true {params : GetParams} {peeked : CQ.Peeked} :
    params.idle peeked = true ↔ peeked.cqe = none ∧ params.waitNr = 0 ∧ params.submit = 0 := by
  simp [idle, and_assoc]

end Ring

/-- A pass of the loop of `getCQEvents` after its peek, up to its system call, on the
submission queue alone. -/
def SQ.getDecision (s : SQ) (params : RingParams) (get : Ring.GetParams) (peeked : CQ.Peeked) :
    Ring.GetOutcome :=
  match peeked.err with
  | some errno => .ret peeked.cqe (some (.errno errno))
  | none =>
      if get.idle peeked && !s.cqNeedFlush then
        .ret peeked.cqe (some (.errno .eagain))
      else
        let wait := decide (get.waitNr > peeked.available) || get.idle peeked
        let flags := if wait then sysRingEnterGetEvents ||| get.flags else 0
        let flags := if get.submit ≠ 0 then (s.needsEnter params flags).2 else flags
        if wait || get.submit != 0 then
          .enter { toSubmit := get.submit, minComplete := get.waitNr, flags := flags } peeked.cqe
        else
          .ret peeked.cqe none

/-- A pass picks the pointer that its peek returns. -/
theorem SQ.cqe_getDecision (s : SQ) (params : RingParams) (get : Ring.GetParams)
    (peeked : CQ.Peeked) : (s.getDecision params get peeked).cqe = peeked.cqe := by
  unfold getDecision
  split
  · rfl
  · split
    · rfl
    · dsimp only
      split
      · rfl
      · rfl

namespace Ring

/-- A pass of the loop of `getCQEvents` after its peek, up to its system call. -/
def getDecision (r : Ring) (params : GetParams) (peeked : CQ.Peeked) : GetOutcome :=
  r.sqRing.sq.getDecision r.params params peeked

/-- One pass of the loop of `Ring.getCQEvents`, up to its system call, in which nothing comes
between the peek and the decision. -/
def getIteration (r : Ring) (params : GetParams) : GetOutcome × Ring :=
  let (peeked, r) := r.peekCQEvent
  (r.getDecision params peeked, r)

/-- The rest of the pass, given what `io_uring_enter` returned: return, or loop
with the SQEs consumed taken off `submit`. -/
def afterEnter (params : GetParams) (cqe : Option ℕ) (result : Except RingError ℕ) :
    GetParams ⊕ (Option ℕ × Option RingError) :=
  match result with
  | .error err => .inr (cqe, some err)
  | .ok consumed =>
      if cqe.isSome then .inr (cqe, none)
      else .inl { params with submit := params.submit - UInt32.ofNat consumed }

/-- The parameters of `Ring.WaitCQEvents(cnt)`; `PeekCQE` is `WaitCQEvents(0)`. -/
def waitCQEvents (cnt : UInt32) : GetParams := { submit := 0, waitNr := cnt, flags := 0 }

/-- A pass of the loop does to the ring what its peek does, and picks the
pointer the peek returns. -/
theorem getIteration_peek (r : Ring) (params : GetParams) :
    (r.getIteration params).2 = r.peekCQEvent.2 ∧
      (r.getIteration params).1.cqe = r.peekCQEvent.1.cqe :=
  ⟨rfl, SQ.cqe_getDecision _ _ _ _⟩

/-- On a ring with the ext-arg feature a pass moves neither queue, and the
pointer it picks is the pointer to the oldest completion. -/
theorem getIteration_extArg {r : Ring} (extArg : r.params.extArgFeature = true)
    (params : GetParams) :
    (r.getIteration params).2 = r ∧
      (r.getIteration params).1.cqe = r.cqRing.cq.headPtr := by
  obtain ⟨ring, cqe⟩ := r.getIteration_peek params
  have raw := CQ.peekCQEvent_extArg r.cqRing.cq
  rw [← extArg] at raw
  have peek : r.peekCQEvent =
      ({ available := r.cqRing.cq.kTail - r.cqRing.cq.kHead
         cqe := r.cqRing.cq.headPtr
         err := none }, r) := by
    simp only [peekCQEvent, raw]
  rw [ring, cqe, peek]
  exact ⟨rfl, rfl⟩

end Ring

end GoUring.Uring
