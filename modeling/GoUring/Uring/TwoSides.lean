import GoUring.Foundation.Runs
import GoUring.Uring.WaitLoop

/-!
# The two sides of a ring

A reactor uses a ring from two goroutines without a lock.  The publisher calls `QueueSQE` and
`Submit`, the consumer calls `WaitCQEventsWithTimeout`, `PeekCQEventBatch` and `AdvanceCQ`
(`uring/ring.go`).  `Sides` is a ring with both of them and the kernel, each taking its steps at
any time; the calls are cut where they look at what another party writes.

All branches of the calls are there.  On a ring without the ext-arg feature
`WaitCQEventsWithTimeout` takes a slot of the submission queue for a timeout of its own, submits
if there is none, and flushes.  On a ring with it a consumer stays `Quiet`: it has nothing to
submit, and all it reads of the submission queue is the flags, which the kernel writes
(`consumerStep_quiet`).

The queues are taken without their invariants here, so that `AdvanceCQ` may be called with any
number.  What an `io_uring_enter` makes the kernel do to the completion queue is a step of the
kernel, at any time.
-/

namespace GoUring.Uring

open CounterRing

/-! ## Entering the kernel -/

namespace SQ

/-- The kernel reads `k` SQEs one after the other. -/
def consumeMany : ℕ → SQ → Option SQ
  | 0, s => some s
  | k + 1, s => s.kernelConsume.bind fun (_, s) => consumeMany k s

/-- An `io_uring_enter`: what it returns, and the submission queue afterwards. -/
def enter (s : SQ) (params : RingParams) (args : EnterArgs) (result : EnterResult) :
    Option (Except RingError ℕ × SQ) :=
  params.enter args s (consumeMany · s) result

end SQ

theorem SubmissionQueue.kernelConsume_sq (q : SubmissionQueue) :
    q.kernelConsume.map (fun x => (x.1, x.2.sq)) = q.sq.kernelConsume := by
  rw [kernelConsume]
  split
  · next full => exact full.symm
  · next read => exact read.symm

theorem SubmissionQueue.kernelConsumeMany_sq :
    ∀ (k : ℕ) (q : SubmissionQueue),
      (SubmissionQueue.kernelConsumeMany k q).map (fun x => x.2.sq) = q.sq.consumeMany k := by
  intro k
  induction k with
  | zero => intro q; rfl
  | succ k ih =>
      intro q
      rw [kernelConsumeMany, SQ.consumeMany, ← kernelConsume_sq, Option.bind_map, Option.map_bind]
      congr 1
      funext found
      rw [Function.comp_apply, Function.comp_apply, Option.map_map]
      exact ih found.2

/-- `SQ.enter` is the `io_uring_enter` of a ring, on its queue alone. -/
theorem Ring.kernelEnter_sq (r : Ring) (args : EnterArgs) (result : EnterResult) :
    (r.kernelEnter args result).map (fun x => (x.1, x.2.2.sq)) =
      r.sqRing.sq.enter r.params args result := by
  cases result with
  | failed errno => rfl
  | consumed k =>
      simp only [kernelEnter, SQ.enter, RingParams.enter]
      split
      · rfl
      · split
        · rw [← SubmissionQueue.kernelConsumeMany_sq, Option.map_map, Option.map_map]
          rfl
        · rfl

/-! ## The publisher -/

/-- Where a `Submit` is. -/
inductive SubmitStage
  /-- At `flushSQ`. -/
  | called
  /-- In `flushSQ`, with `kTail` stored. -/
  | stored (tail : UInt32)
  /-- At `needsEnter`. -/
  | loaded (flushed : UInt32)
  /-- At `sysEnter`. -/
  | entering (args : EnterArgs)

/-- The next step of a `Submit`: the queue, and how the call goes on or what it returns.
`result` is the kernel's answer if it is asked. -/
def SQ.submitNext (s : SQ) (params : RingParams) (result : EnterResult) :
    SubmitStage → Option (SQ × (SubmitStage ⊕ Except RingError ℕ))
  | .called => some (s.flushSQ.2, .inl (.stored s.flushSQ.2.kTail))
  | .stored tail => some (s, .inl (.loaded (tail - s.kHead)))
  | .loaded flushed =>
      let (enter, flags) := s.needsEnter params 0
      if enter then
        let flags :=
          if params.flags &&& setupIOPoll = 1 then flags ||| sysRingEnterGetEvents else flags
        some (s, .inl (.entering { toSubmit := flushed, minComplete := 0, flags := flags }))
      else
        some (s, .inr (.ok flushed.toNat))
  | .entering args => (s.enter params args result).map fun (ret, s) => (s, .inr ret)

namespace SQ

variable {s s' : SQ} {params : RingParams} {result : EnterResult}

/-- A ring without an SQ thread is entered for all that is flushed. -/
theorem submitNext_loaded_of_noThread (noThread : params.sqPoll = false) (flushed : UInt32) :
    ∃ args : EnterArgs, args.toSubmit = flushed ∧ ∀ result,
      s.submitNext params result (.loaded flushed) = some (s, .inl (.entering args)) := by
  have flag : params.flags &&& setupSQPoll = 0 := by simpa [RingParams.sqPoll] using noThread
  simp only [submitNext, needsEnter, flag, if_true]
  exact ⟨_, rfl, fun _ => rfl⟩

/-- A ring whose SQ thread is awake is not entered. -/
theorem submitNext_loaded_of_awake (thread : params.sqPoll = true) (awake : s.kFlags = 0)
    (flushed : UInt32) :
    s.submitNext params result (.loaded flushed) = some (s, .inr (.ok flushed.toNat)) := by
  have flag : ¬ params.flags &&& setupSQPoll = 0 := by simpa [RingParams.sqPoll] using thread
  simp only [submitNext, needsEnter, flag, if_false, awake]
  rfl

theorem submitNext_entering_of_read {args : EnterArgs} {sqe : SQEntry}
    (noThread : params.sqPoll = false) (enough : 1 ≤ args.toSubmit.toNat)
    (read : s.kernelConsume = some (sqe, s')) :
    s.submitNext params (.consumed 1) (.entering args) = some (s', .inr (.ok 1)) := by
  simp only [submitNext, enter, RingParams.enter, noThread, Bool.false_eq_true, if_false,
    if_pos enough, consumeMany, read, Option.bind_some, Option.map_some]

end SQ

/-- What the publisher's last call has returned. -/
inductive PublisherRet
  | nothing
  | queueSQE (err : Option RingError)
  | submit (ret : Except RingError ℕ)

/-- Where the publisher is. -/
inductive PublisherAt
  | idle (last : PublisherRet)
  /-- In `QueueSQE`, at `PrepSQE`, with the slot at `entry`. -/
  | preparing (op : Operation) (flags : UInt8) (userData : UInt64) (entry : UInt32)
  | submitting (stage : SubmitStage)
  | panicked

/-- What the publisher does next. -/
inductive PublisherMove
  | queueSQE (op : Operation) (flags : UInt8) (userData : UInt64)
  | submit
  /-- The call it is in goes on. -/
  | next (result : EnterResult)

/-- One step of the publisher. -/
def publisherStep (params : RingParams) (s : SQ) :
    PublisherAt → PublisherMove → Option (SQ × PublisherAt)
  | .idle _, .queueSQE op flags userData =>
      match s.nextSQE with
      | (.error err, s) => some (s, .idle (.queueSQE (some err)))
      | (.ok entry, s) => some (s, .preparing op flags userData entry)
  | .idle _, .submit => some (s, .submitting .called)
  | .preparing op flags userData entry, .next _ =>
      match op.encode flags userData (s.sqeBuff entry.toNat) with
      | none => some (s, .panicked)
      | some sqe =>
          some ({ s with sqeBuff := Function.update s.sqeBuff entry.toNat sqe },
            .idle (.queueSQE none))
  | .submitting stage, .next result =>
      (s.submitNext params result stage).map fun (s, next) =>
        match next with
        | .inl stage => (s, .submitting stage)
        | .inr ret => (s, .idle (.submit ret))
  | _, _ => none

/-! ## The consumer -/

/-- What the consumer's last call has returned. -/
inductive ConsumerRet
  | nothing
  | wait (cqe : Option ℕ) (err : Option RingError)
  | batch (cqes : List ℕ)
  | advanced

/-- Where the consumer is.  The stages from `reserve` to `loading` are those of
`WaitCQEventsWithTimeout` without the ext-arg feature; `spec` is the address of its timespec. -/
inductive ConsumerAt
  | idle (last : ConsumerRet)
  /-- At `NextSQE`; `again` after the `Submit` that makes room. -/
  | reserve (cnt : UInt32) (spec : UInt64) (again : Bool)
  /-- In this `Submit`. -/
  | submitting (cnt : UInt32) (spec : UInt64) (stage : SubmitStage)
  /-- At `PrepSQE`, with the slot at `entry`. -/
  | preparing (cnt : UInt32) (spec : UInt64) (entry : UInt32)
  /-- At `flushSQ`. -/
  | flushing (cnt : UInt32)
  /-- In `flushSQ`, with `kTail` stored. -/
  | loading (cnt tail : UInt32)
  /-- At the top of the loop of `getCQEvents`. -/
  | top (get : Ring.GetParams)
  /-- After the peek. -/
  | peeked (get : Ring.GetParams) (seen : CQ.Peeked)
  /-- At the `io_uring_enter` of `getCQEvents`. -/
  | entering (get : Ring.GetParams) (args : EnterArgs) (cqe : Option ℕ)
  /-- In `PeekCQEventBatch`, at its first look. -/
  | batch (len : ℕ)
  /-- There was nothing; at the overflow flag. -/
  | batchEmpty (len : ℕ)
  /-- At the `io_uring_enter` of `PeekCQEventBatch`. -/
  | batchEntering (len : ℕ)
  /-- At its second look. -/
  | batchAgain (len : ℕ)

/-- What the consumer does next. -/
inductive ConsumerMove
  | wait (cnt : UInt32) (spec : UInt64)
  | peekBatch (len : ℕ)
  | advanceCQ (n : UInt32)
  /-- The call it is in goes on. -/
  | next (result : EnterResult)

/-- The arguments with which `PeekCQEventBatch` enters the kernel. -/
def batchArgs : EnterArgs := { toSubmit := 0, minComplete := 0, flags := sysRingEnterGetEvents }

/-- The next step of the call the consumer is in. -/
def consumerNext (params : RingParams) (s : SQ) (c : CQ) (result : EnterResult) :
    ConsumerAt → Option (SQ × CQ × ConsumerAt)
  | .idle _ => none
  | .reserve cnt spec again =>
      match s.nextSQE with
      | (.ok entry, s) => some (s, c, .preparing cnt spec entry)
      | (.error err, s) =>
          if again then some (s, c, .idle (.wait none (some err)))
          else some (s, c, .submitting cnt spec .called)
  | .submitting cnt spec stage =>
      (s.submitNext params result stage).map fun (s, next) =>
        match next with
        | .inl stage => (s, c, .submitting cnt spec stage)
        | .inr (.ok _) => (s, c, .reserve cnt spec true)
        | .inr (.error err) => (s, c, .idle (.wait none (some err)))
  | .preparing cnt spec entry =>
      ((timeoutOp spec).prepSQE (s.sqeBuff entry.toNat)).map fun sqe =>
        ({ s with
          sqeBuff := Function.update s.sqeBuff entry.toNat (sqe.setUserData libUserDataTimeout) },
          c, .flushing cnt)
  | .flushing cnt => some (s.flushSQ.2, c, .loading cnt s.flushSQ.2.kTail)
  | .loading cnt tail =>
      some (s, c, .top { submit := tail - s.kHead, waitNr := cnt, flags := 0 })
  | .top get =>
      some (s, (c.peekCQEvent params.extArgFeature).2,
        .peeked get (c.peekCQEvent params.extArgFeature).1)
  | .peeked get seen =>
      match s.getDecision params get seen with
      | .ret cqe err => some (s, c, .idle (.wait cqe err))
      | .enter args cqe => some (s, c, .entering get args cqe)
  | .entering get args cqe =>
      (s.enter params args result).map fun (ret, s) =>
        match Ring.afterEnter get cqe ret with
        | .inl get => (s, c, .top get)
        | .inr (cqe, err) => (s, c, .idle (.wait cqe err))
  | .batch len =>
      if c.peekCQEventBatch len = [] then some (s, c, .batchEmpty len)
      else some (s, c, .idle (.batch (c.peekCQEventBatch len)))
  | .batchEmpty len =>
      if s.cqNeedFlush then some (s, c, .batchEntering len) else some (s, c, .idle (.batch []))
  | .batchEntering len =>
      (s.enter params batchArgs result).map fun (_, s) => (s, c, .batchAgain len)
  | .batchAgain len => some (s, c, .idle (.batch (c.peekCQEventBatch len)))

/-- The parameters of the wait of `WaitCQEventsWithTimeout` with the ext-arg feature. -/
def timedParams (cnt : UInt32) : Ring.GetParams :=
  { submit := 0, waitNr := cnt, flags := sysRingEnterExtArg }

/-- One step of the consumer. -/
def consumerStep (params : RingParams) (s : SQ) (c : CQ) :
    ConsumerAt → ConsumerMove → Option (SQ × CQ × ConsumerAt)
  | .idle _, .wait cnt spec =>
      if params.extArgFeature then some (s, c, .top (timedParams cnt))
      else some (s, c, .reserve cnt spec false)
  | .idle _, .peekBatch len => some (s, c, .batch len)
  | .idle _, .advanceCQ n => some (s, c.advanceCQ n, .idle .advanced)
  | pc, .next result => consumerNext params s c result pc
  | _, _ => none

/-- The arguments with which the consumer enters the kernel in its next step, if it does. -/
def ConsumerAt.asks : ConsumerAt → Option EnterArgs
  | .submitting _ _ (.entering args) => some args
  | .entering _ args _ => some args
  | .batchEntering _ => some batchArgs
  | _ => none

/-! ## The kernel, and all together -/

/-- What the kernel does. -/
inductive KernelMove
  /-- The SQ thread of a ring that has one reads an SQE, if there is any. -/
  | thread
  /-- A completion is posted. -/
  | post (cqe : CQEvent)
  /-- Completions that were kept back go to the queue. -/
  | flush
  | flags (flags : UInt32)

/-- The submission queue after a step of the kernel. -/
def SQ.afterKernel (s : SQ) (params : RingParams) : KernelMove → SQ
  | .thread =>
      if params.sqPoll then
        match s.kernelConsume with
        | some (_, s) => s
        | none => s
      else s
  | .flags flags => { s with kFlags := flags }
  | _ => s

/-- The completion queue and the completions kept back after a step of the kernel. -/
def CQ.afterKernel (c : CQ) (backlog : List CQEvent) : KernelMove → CQ × List CQEvent
  | .post e =>
      match backlog, c.kernelPost e with
      | [], some c => (c, [])
      | backlog, _ => (c, backlog ++ [e])
  | .flush => moveBacklog CQ.kernelPost backlog c
  | _ => (c, backlog)

/-- A ring, its two users and the completions the kernel keeps back. -/
structure Sides where
  params : RingParams
  sq : SQ
  cq : CQ
  backlog : List CQEvent
  publisher : PublisherAt
  consumer : ConsumerAt

/-- What can happen. -/
inductive SideEvent
  | publisher (move : PublisherMove)
  | consumer (move : ConsumerMove)
  | kernel (move : KernelMove)

namespace SideEvent

def ofPublisher : SideEvent → Bool
  | .publisher _ => true
  | _ => false

def ofConsumer : SideEvent → Bool
  | .consumer _ => true
  | _ => false

end SideEvent

namespace Sides

/-- Nobody is in a call. -/
def start (r : Ring) : Sides where
  params := r.params
  sq := r.sqRing.sq
  cq := r.cqRing.cq
  backlog := []
  publisher := .idle .nothing
  consumer := .idle .nothing

/-- One step. -/
def step (s : Sides) : SideEvent → Option Sides
  | .publisher move =>
      (publisherStep s.params s.sq s.publisher move).map fun (sq, pc) =>
        { s with sq := sq, publisher := pc }
  | .consumer move =>
      (consumerStep s.params s.sq s.cq s.consumer move).map fun (sq, cq, pc) =>
        { s with sq := sq, cq := cq, consumer := pc }
  | .kernel move =>
      some { s with
        sq := s.sq.afterKernel s.params move
        cq := (s.cq.afterKernel s.backlog move).1
        backlog := (s.cq.afterKernel s.backlog move).2 }

/-- The arguments with which the consumer enters the kernel in this step, if it does. -/
def asks (s : Sides) : SideEvent → Option EnterArgs
  | .consumer (.next _) => s.consumer.asks
  | _ => none

end Sides

/-! ## The consumer of a ring with the ext-arg feature -/

/-- The enter asks neither to submit anything nor to wake the SQ thread. -/
def EnterArgs.SubmitsNothing (args : EnterArgs) : Prop :=
  args.toSubmit = 0 ∧ args.flags &&& sysRingEnterSQWakeup = 0

/-- The wait has nothing to submit and leaves the timeout to the kernel. -/
def Ring.GetParams.Timed (get : Ring.GetParams) : Prop :=
  get.submit = 0 ∧ get.flags = sysRingEnterExtArg

/-- Where the consumer of a ring with the ext-arg feature can be. -/
def ConsumerAt.Quiet : ConsumerAt → Prop
  | .idle _ => True
  | .top get => get.Timed
  | .peeked get _ => get.Timed
  | .entering get args _ => get.Timed ∧ args.SubmitsNothing
  | .batch _ => True
  | .batchEmpty _ => True
  | .batchEntering _ => True
  | .batchAgain _ => True
  | _ => False

/-- What the kernel answers to an enter that submits nothing. -/
def answerToNothing (params : RingParams) : EnterResult → Option (Except RingError ℕ)
  | .failed errno => some (.error (.enter errno))
  | .consumed k => if params.sqPoll then some (.ok 0) else if k = 0 then some (.ok 0) else none

theorem submitsNothing_batchArgs : batchArgs.SubmitsNothing := ⟨rfl, by decide⟩

/-- An enter that submits nothing leaves the submission queue alone, whatever is in it. -/
theorem SQ.enter_of_nothing (s : SQ) (params : RingParams) {args : EnterArgs}
    (nothing : args.SubmitsNothing) (result : EnterResult) :
    s.enter params args result = (answerToNothing params result).map fun ret => (ret, s) := by
  have zero : args.toSubmit.toNat = 0 := by rw [nothing.1]; rfl
  cases result with
  | failed errno => rfl
  | consumed k =>
      simp only [enter, RingParams.enter, answerToNothing, zero, Nat.le_zero]
      split
      · rfl
      · split
        · next none =>
          rw [none]
          rfl
        · rfl

theorem ok_of_answerToNothing {params : RingParams} {result : EnterResult} {n : ℕ}
    (answer : answerToNothing params result = some (.ok n)) : n = 0 := by
  cases result with
  | failed errno => cases answer
  | consumed k =>
      simp only [answerToNothing] at answer
      split at answer
      · cases answer
        rfl
      · split at answer
        · cases answer
          rfl
        · cases answer

theorem SQ.cqNeedFlush_congr {s s₂ : SQ} (flags : s₂.kFlags = s.kFlags) :
    s₂.cqNeedFlush = s.cqNeedFlush := by
  rw [cqNeedFlush, cqNeedFlush, flags]

/-- All that the decision looks at in the submission queue is the flags. -/
theorem SQ.getDecision_congr {s s₂ : SQ} (flags : s₂.kFlags = s.kFlags) (params : RingParams)
    (get : Ring.GetParams) (seen : CQ.Peeked) :
    s₂.getDecision params get seen = s.getDecision params get seen := by
  have need : ∀ f, s₂.needsEnter params f = s.needsEnter params f := by
    intro f
    rw [needsEnter, needsEnter, flags]
  unfold getDecision
  rw [cqNeedFlush_congr flags]
  simp only [need]

theorem SQ.getDecision_timed {s : SQ} {params : RingParams} {get : Ring.GetParams}
    {seen : CQ.Peeked} {args : EnterArgs} {cqe : Option ℕ} (timed : get.Timed)
    (decided : s.getDecision params get seen = .enter args cqe) : args.SubmitsNothing := by
  obtain ⟨none, ext⟩ := timed
  unfold getDecision at decided
  split at decided
  · cases decided
  · split at decided
    · cases decided
    · simp only [none, ext, ne_eq, not_true_eq_false, if_false] at decided
      split at decided
      · cases decided
        refine ⟨rfl, ?_⟩
        show (if _ then _ else _) &&& _ = _
        split
        · decide
        · decide
      · cases decided

theorem timed_afterEnter {params : RingParams} {get get' : Ring.GetParams} {cqe : Option ℕ}
    {result : EnterResult} {ret : Except RingError ℕ} (timed : get.Timed)
    (answer : answerToNothing params result = some ret)
    (again : Ring.afterEnter get cqe ret = .inl get') : get'.Timed := by
  unfold Ring.afterEnter at again
  split at again
  · cases again
  · split at again
    · cases again
    · cases again
      obtain ⟨none, ext⟩ := timed
      refine ⟨?_, ext⟩
      show get.submit - UInt32.ofNat _ = 0
      rw [none, ok_of_answerToNothing answer]
      rfl

section Quiet

variable {params : RingParams} {s s₂ s' : SQ} {c c' : CQ} {pc pc' : ConsumerAt}

/-- A step inside a call depends on the submission queue through its flags only, and leaves it
alone. -/
theorem consumerNext_congr {result : EnterResult} (quiet : pc.Quiet)
    (flags : s₂.kFlags = s.kFlags) :
    consumerNext params s₂ c result pc =
      (consumerNext params s c result pc).map fun x => (s₂, x.2) := by
  cases pc with
  | idle last => rfl
  | reserve cnt spec again => exact quiet.elim
  | submitting cnt spec stage => exact quiet.elim
  | preparing cnt spec entry => exact quiet.elim
  | flushing cnt => exact quiet.elim
  | loading cnt tail => exact quiet.elim
  | top get => rfl
  | peeked get seen =>
      simp only [consumerNext, SQ.getDecision_congr flags]
      cases s.getDecision params get seen with
      | ret cqe err => rfl
      | enter args cqe => rfl
  | entering get args cqe =>
      simp only [consumerNext, SQ.enter_of_nothing _ params quiet.2, Option.map_map]
      congr 1
      funext ret
      rw [Function.comp_apply, Function.comp_apply, Function.comp_apply]
      cases Ring.afterEnter get cqe ret with
      | inl get' => rfl
      | inr out => rfl
  | batch len =>
      by_cases nothing : c.peekCQEventBatch len = []
      · simp only [consumerNext, if_pos nothing, Option.map_some]
      · simp only [consumerNext, if_neg nothing, Option.map_some]
  | batchEmpty len =>
      have same := SQ.cqNeedFlush_congr flags
      by_cases overflowed : s.cqNeedFlush = true
      · simp only [consumerNext, same, if_pos overflowed, Option.map_some]
      · simp only [consumerNext, same, if_neg overflowed, Option.map_some]
  | batchEntering len =>
      simp only [consumerNext, SQ.enter_of_nothing _ params submitsNothing_batchArgs,
        Option.map_map]
      rfl
  | batchAgain len => rfl

theorem ConsumerAt.Quiet.next {result : EnterResult} (quiet : pc.Quiet)
    (stepped : consumerNext params s c result pc = some (s', c', pc')) : pc'.Quiet := by
  cases pc with
  | idle last => cases stepped
  | top get =>
      cases stepped
      exact quiet
  | peeked get seen =>
      simp only [consumerNext] at stepped
      split at stepped
      · cases stepped
        trivial
      · next decided =>
        cases stepped
        exact ⟨quiet, SQ.getDecision_timed quiet decided⟩
  | entering get args cqe =>
      simp only [consumerNext, SQ.enter_of_nothing _ params quiet.2, Option.map_map] at stepped
      obtain ⟨ret, answer, eq⟩ := Option.map_eq_some_iff.mp stepped
      simp only [Function.comp_apply] at eq
      split at eq
      · next after =>
        cases eq
        exact timed_afterEnter quiet.1 answer after
      · cases eq
        trivial
  | batch len =>
      simp only [consumerNext] at stepped
      split at stepped
      · cases stepped
        trivial
      · cases stepped
        trivial
  | batchEmpty len =>
      simp only [consumerNext] at stepped
      split at stepped
      · cases stepped
        trivial
      · cases stepped
        trivial
  | batchEntering len =>
      obtain ⟨ret, -, eq⟩ := Option.map_eq_some_iff.mp stepped
      cases eq
      trivial
  | batchAgain len =>
      cases stepped
      trivial
  | _ => exact quiet.elim

theorem consumerStep_next (params : RingParams) (s : SQ) (c : CQ) (pc : ConsumerAt)
    (result : EnterResult) :
    consumerStep params s c pc (.next result) = consumerNext params s c result pc := by
  cases pc <;> rfl

theorem consumerStep_congr {move : ConsumerMove} (extArg : params.extArgFeature = true)
    (quiet : pc.Quiet) (flags : s₂.kFlags = s.kFlags) :
    consumerStep params s₂ c pc move =
      (consumerStep params s c pc move).map fun x => (s₂, x.2) := by
  cases move with
  | next result =>
      rw [consumerStep_next, consumerStep_next]
      exact consumerNext_congr quiet flags
  | wait cnt spec =>
      cases pc with
      | idle last => simp only [consumerStep, extArg, if_true, Option.map_some]
      | _ => rfl
  | peekBatch len => cases pc <;> rfl
  | advanceCQ n => cases pc <;> rfl

theorem ConsumerAt.Quiet.step {move : ConsumerMove} (extArg : params.extArgFeature = true)
    (quiet : pc.Quiet) (stepped : consumerStep params s c pc move = some (s', c', pc')) :
    pc'.Quiet := by
  cases move with
  | next result =>
      rw [consumerStep_next] at stepped
      exact quiet.next stepped
  | wait cnt spec =>
      cases pc with
      | idle last =>
          simp only [consumerStep, extArg, if_true] at stepped
          cases stepped
          exact ⟨rfl, rfl⟩
      | _ => cases stepped
  | peekBatch len =>
      cases pc with
      | idle last =>
          cases stepped
          trivial
      | _ => cases stepped
  | advanceCQ n =>
      cases pc with
      | idle last =>
          cases stepped
          trivial
      | _ => cases stepped

/-- **The consumer of a ring with the ext-arg feature** leaves the submission queue as it is, and
does the same with any submission queue that has the same flags. -/
theorem consumerStep_quiet {move : ConsumerMove} (extArg : params.extArgFeature = true)
    (quiet : pc.Quiet) (flags : s₂.kFlags = s.kFlags)
    (stepped : consumerStep params s c pc move = some (s', c', pc')) :
    s' = s ∧ pc'.Quiet ∧ consumerStep params s₂ c pc move = some (s₂, c', pc') := by
  refine ⟨?_, quiet.step extArg stepped, ?_⟩
  · have same : consumerStep params s c pc move = _ := consumerStep_congr extArg quiet rfl
    rw [stepped] at same
    exact congrArg Prod.fst (Option.some.inj same)
  · rw [consumerStep_congr extArg quiet flags, stepped]
    rfl

theorem submitsNothing_of_asks {args : EnterArgs} (quiet : pc.Quiet)
    (asks : pc.asks = some args) : args.SubmitsNothing := by
  cases pc with
  | entering get args' cqe =>
      cases asks
      exact quiet.2
  | batchEntering len =>
      cases asks
      exact submitsNothing_batchArgs
  | submitting cnt spec stage => exact quiet.elim
  | _ => cases asks

end Quiet

/-! ## The flags of the submission queue

Only the kernel writes them, in a step of its own. -/

namespace SQ

theorem kFlags_flushSQ (s : SQ) : s.flushSQ.2.kFlags = s.kFlags := by
  unfold flushSQ
  dsimp only
  split
  · rfl
  · rw [flushLoop_frame]

theorem kFlags_kernelConsume {s s' : SQ} {sqe : SQEntry}
    (read : s.kernelConsume = some (sqe, s')) : s'.kFlags = s.kFlags := by
  unfold kernelConsume at read
  split at read
  · cases read
  · cases read
    rfl

theorem kFlags_consumeMany :
    ∀ (k : ℕ) {s s' : SQ}, s.consumeMany k = some s' → s'.kFlags = s.kFlags := by
  intro k
  induction k with
  | zero =>
      intro s s' done
      cases done
      rfl
  | succ k ih =>
      intro s s' done
      rw [consumeMany, Option.bind_eq_some_iff] at done
      obtain ⟨⟨sqe, next⟩, first, rest⟩ := done
      exact (ih rest).trans (kFlags_kernelConsume first)

theorem kFlags_enter {s s' : SQ} {params : RingParams} {args : EnterArgs} {result : EnterResult}
    {ret : Except RingError ℕ} (entered : s.enter params args result = some (ret, s')) :
    s'.kFlags = s.kFlags := by
  cases result with
  | failed errno =>
      cases entered
      rfl
  | consumed k =>
      simp only [enter, RingParams.enter] at entered
      split at entered
      · cases entered
        rfl
      · split at entered
        · obtain ⟨next, many, eq⟩ := Option.map_eq_some_iff.mp entered
          cases eq
          exact kFlags_consumeMany k many
        · cases entered

theorem kFlags_submitNext {s s' : SQ} {params : RingParams} {result : EnterResult}
    {stage : SubmitStage} {next : SubmitStage ⊕ Except RingError ℕ}
    (stepped : s.submitNext params result stage = some (s', next)) : s'.kFlags = s.kFlags := by
  cases stage with
  | called =>
      cases stepped
      exact s.kFlags_flushSQ
  | stored tail =>
      cases stepped
      rfl
  | loaded flushed =>
      simp only [submitNext] at stepped
      split at stepped
      · cases stepped
        rfl
      · cases stepped
        rfl
  | entering args =>
      obtain ⟨⟨ret, s''⟩, entered, eq⟩ := Option.map_eq_some_iff.mp stepped
      cases eq
      exact kFlags_enter entered

theorem kFlags_nextSQE (s : SQ) : s.nextSQE.2.kFlags = s.kFlags := by
  unfold nextSQE
  dsimp only
  split
  · rfl
  · rfl

/-- Two submission queues with the same flags have the same flags after a step of the kernel. -/
theorem kFlags_afterKernel {s s₂ : SQ} (flags : s₂.kFlags = s.kFlags) (params : RingParams)
    (move : KernelMove) :
    (s₂.afterKernel params move).kFlags = (s.afterKernel params move).kFlags := by
  have thread : ∀ q : SQ, (q.afterKernel params .thread).kFlags = q.kFlags := by
    intro q
    simp only [afterKernel]
    split
    · split
      · next read => exact kFlags_kernelConsume read
      · rfl
    · rfl
  cases move with
  | thread => rw [thread, thread, flags]
  | post cqe => exact flags
  | flush => exact flags
  | flags f => rfl

end SQ

theorem kFlags_publisherStep {params : RingParams} {s s' : SQ} {pc pc' : PublisherAt}
    {move : PublisherMove} (stepped : publisherStep params s pc move = some (s', pc')) :
    s'.kFlags = s.kFlags := by
  cases pc with
  | idle last =>
      cases move with
      | queueSQE op flags userData =>
          have kept := s.kFlags_nextSQE
          simp only [publisherStep] at stepped
          split at stepped
          · next eq =>
            rw [eq] at kept
            cases stepped
            exact kept
          · next eq =>
            rw [eq] at kept
            cases stepped
            exact kept
      | submit =>
          cases stepped
          rfl
      | next result => cases stepped
  | preparing op flags userData entry =>
      cases move with
      | next result =>
          simp only [publisherStep] at stepped
          split at stepped
          · cases stepped
            rfl
          · cases stepped
            rfl
      | _ => cases stepped
  | submitting stage =>
      cases move with
      | next result =>
          obtain ⟨⟨s'', next⟩, submitted, eq⟩ := Option.map_eq_some_iff.mp stepped
          have kept := SQ.kFlags_submitNext submitted
          cases next with
          | inl stage =>
              cases eq
              exact kept
          | inr ret =>
              cases eq
              exact kept
      | _ => cases stepped
  | panicked => cases move <;> cases stepped

/-! ## Deleting one side from a run -/

namespace Sides

/-- The consumer is one of a ring with the ext-arg feature. -/
structure Accepted (s : Sides) : Prop where
  extArg : s.params.extArgFeature = true
  quiet : s.consumer.Quiet

/-- What the publisher can see is the same. -/
structure SamePublisher (s t : Sides) : Prop where
  accepted : s.Accepted
  params : t.params = s.params
  sq : t.sq = s.sq
  publisher : t.publisher = s.publisher

/-- What the consumer can see is the same. -/
structure SameConsumer (s t : Sides) : Prop where
  accepted : s.Accepted
  params : t.params = s.params
  cq : t.cq = s.cq
  backlog : t.backlog = s.backlog
  consumer : t.consumer = s.consumer
  flags : t.sq.kFlags = s.sq.kFlags

theorem accepted_start {r : Ring} (extArg : r.params.extArgFeature = true) :
    (start r).Accepted := ⟨extArg, trivial⟩

theorem Accepted.step {s s' : Sides} {e : SideEvent} (accepted : s.Accepted)
    (stepped : s.step e = some s') : s'.Accepted := by
  cases e with
  | publisher move =>
      obtain ⟨⟨sq, pc⟩, -, eq⟩ := Option.map_eq_some_iff.mp stepped
      cases eq
      exact ⟨accepted.extArg, accepted.quiet⟩
  | consumer move =>
      obtain ⟨⟨sq, cq, pc⟩, moved, eq⟩ := Option.map_eq_some_iff.mp stepped
      cases eq
      exact ⟨accepted.extArg, (consumerStep_quiet accepted.extArg accepted.quiet rfl moved).2.1⟩
  | kernel move =>
      cases stepped
      exact ⟨accepted.extArg, accepted.quiet⟩

theorem SamePublisher.deleted {s t s' : Sides} {e : SideEvent} (same : SamePublisher s t)
    (deleted : e.ofConsumer = true) (stepped : s.step e = some s') : SamePublisher s' t := by
  have accepted := same.accepted.step stepped
  cases e with
  | consumer move =>
      obtain ⟨⟨sq, cq, pc⟩, moved, eq⟩ := Option.map_eq_some_iff.mp stepped
      obtain ⟨rfl, -, -⟩ :=
        consumerStep_quiet same.accepted.extArg same.accepted.quiet rfl moved
      cases eq
      exact ⟨accepted, same.params, same.sq, same.publisher⟩
  | publisher move => cases deleted
  | kernel move => cases deleted

theorem SamePublisher.kept {s t s' : Sides} {e : SideEvent} (same : SamePublisher s t)
    (kept : e.ofConsumer = false) (stepped : s.step e = some s') :
    ∃ t', t.step e = some t' ∧ SamePublisher s' t' := by
  have accepted := same.accepted.step stepped
  cases e with
  | consumer move => cases kept
  | publisher move =>
      obtain ⟨⟨sq, pc⟩, moved, eq⟩ := Option.map_eq_some_iff.mp stepped
      cases eq
      refine ⟨{ t with sq := sq, publisher := pc }, ?_, accepted, same.params, rfl, rfl⟩
      rw [Sides.step, same.params, same.sq, same.publisher, moved]
      rfl
  | kernel move =>
      cases stepped
      refine ⟨_, rfl, accepted, same.params, ?_, same.publisher⟩
      show t.sq.afterKernel t.params move = s.sq.afterKernel s.params move
      rw [same.params, same.sq]

theorem SameConsumer.deleted {s t s' : Sides} {e : SideEvent} (same : SameConsumer s t)
    (deleted : e.ofPublisher = true) (stepped : s.step e = some s') : SameConsumer s' t := by
  have accepted := same.accepted.step stepped
  cases e with
  | publisher move =>
      obtain ⟨⟨sq, pc⟩, moved, eq⟩ := Option.map_eq_some_iff.mp stepped
      cases eq
      exact ⟨accepted, same.params, same.cq, same.backlog, same.consumer,
        same.flags.trans (kFlags_publisherStep moved).symm⟩
  | consumer move => cases deleted
  | kernel move => cases deleted

theorem SameConsumer.kept {s t s' : Sides} {e : SideEvent} (same : SameConsumer s t)
    (kept : e.ofPublisher = false) (stepped : s.step e = some s') :
    ∃ t', t.step e = some t' ∧ SameConsumer s' t' := by
  have accepted := same.accepted.step stepped
  cases e with
  | publisher move => cases kept
  | consumer move =>
      obtain ⟨⟨sq, cq, pc⟩, moved, eq⟩ := Option.map_eq_some_iff.mp stepped
      -- The submission queues differ, but a quiet consumer sees only their flags.
      obtain ⟨rfl, -, there⟩ :=
        consumerStep_quiet same.accepted.extArg same.accepted.quiet same.flags moved
      cases eq
      refine ⟨{ t with sq := t.sq, cq := cq, consumer := pc }, ?_, accepted, same.params, rfl,
        same.backlog, rfl, same.flags⟩
      rw [Sides.step, same.params, same.cq, same.consumer, there]
      rfl
  | kernel move =>
      cases stepped
      refine ⟨_, rfl, accepted, same.params, ?_, ?_, same.consumer, ?_⟩
      · show (t.cq.afterKernel t.backlog move).1 = (s.cq.afterKernel s.backlog move).1
        rw [same.cq, same.backlog]
      · show (t.cq.afterKernel t.backlog move).2 = (s.cq.afterKernel s.backlog move).2
        rw [same.cq, same.backlog]
      · show (t.sq.afterKernel t.params move).kFlags = (s.sq.afterKernel s.params move).kFlags
        rw [same.params]
        exact SQ.kFlags_afterKernel same.flags s.params move

section Run

variable {r : Ring} {p : List (Sides × SideEvent)} {s : Sides}

/-- The submission queue is the one of the run without the consumer. -/
theorem samePublisher_of_path (extArg : r.params.extArgFeature = true)
    (path : Runs.Path step (start r) p s) :
    ∃ q t, Runs.Path step (start r) q t ∧
      q.map Prod.snd = (p.map Prod.snd).filter (fun e => !e.ofConsumer) ∧
      SamePublisher s t :=
  path.project (fun e : SideEvent => !e.ofConsumer) SamePublisher
    ⟨accepted_start extArg, rfl, rfl, rfl⟩
    (fun _ _ _ _ same kept stepped => same.kept (by simpa using kept) stepped)
    (fun _ _ _ _ same gone stepped => same.deleted (by simpa using gone) stepped)

/-- The completion queue is the one of the run without the publisher. -/
theorem sameConsumer_of_path (extArg : r.params.extArgFeature = true)
    (path : Runs.Path step (start r) p s) :
    ∃ q t, Runs.Path step (start r) q t ∧
      q.map Prod.snd = (p.map Prod.snd).filter (fun e => !e.ofPublisher) ∧
      SameConsumer s t :=
  path.project (fun e : SideEvent => !e.ofPublisher) SameConsumer
    ⟨accepted_start extArg, rfl, rfl, rfl, rfl, rfl⟩
    (fun _ _ _ _ same kept stepped => same.kept (by simpa using kept) stepped)
    (fun _ _ _ _ same gone stepped => same.deleted (by simpa using gone) stepped)

/-- The consumer never asks the kernel to submit anything. -/
theorem submitsNothing_of_path (extArg : r.params.extArgFeature = true)
    (path : Runs.Path step (start r) p s) :
    ∀ x ∈ p, ∀ args, asks x.1 x.2 = some args → args.SubmitsNothing := by
  intro x mem args asked
  obtain ⟨q, -, run, -⟩ := path.exists_of_mem mem
  have accepted : x.1.Accepted :=
    run.invariant_of_step Accepted (accepted_start extArg) fun _ _ _ inv stepped =>
      inv.step stepped
  obtain ⟨t, e⟩ := x
  cases e with
  | consumer move =>
      cases move with
      | next result => exact submitsNothing_of_asks accepted.quiet asked
      | _ => cases asked
  | _ => cases asked

end Run

end Sides

end GoUring.Uring
