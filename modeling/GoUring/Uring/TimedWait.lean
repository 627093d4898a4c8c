import GoUring.Uring.CompletionRun
import GoUring.Uring.WaitLoop

/-!
# Waiting with a timeout, without the ext-arg feature

On a ring without the ext-arg feature `WaitCQEventsWithTimeout` queues a timeout of its
own, with the user data `libUserDataTimeout`, and waits like `WaitCQEvents`.  Nobody takes
the timeout back when the call returns: it stays in the submission queue, in the kernel or
in the completion queue, whatever the caller does next.  `peekCQEvent` retires the
timeouts it finds at the head of the queue, and takes one that has expired for an error.

`TimedRun` is one goroutine that uses such a ring, with the kernel moving at any point
in between: while `peekCQEvent` loops, between its counters and the flags, and in each
`io_uring_enter`.  Every SQE is followed on its way with its `Origin`, which the ring does
not know: it is the user's, or the timeout of the timed wait with that number.  Nothing
keeps the user from the library's user data, and a slot in which the user's `PrepSQE`
panicked may hold an old timeout of the library; such an SQE is a `stranger`.

What a step does to the ring is said twice, for the two directions: `Outbox.Move` for what
is on its way to the kernel, `Inbox.Move` for what has come back.  The results about
timeouts are results about moves of the inbox.
-/

namespace GoUring.Uring

open CounterRing Runs

/-! ## One turn of `peekCQEvent` -/

namespace Consumer

/-- The same ring, and no pointers. -/
def release (c : Consumer) : Consumer :=
  { ring := c.ring, buff := [], held := c.ring.cqRing.held_nil }

/-- `AdvanceCQ(n)` by somebody who keeps no pointers. -/
def retire (c : Consumer) (n : UInt32) (le : n.toNat ≤ c.ready.length) : Consumer :=
  { ring := { c.ring with cqRing := c.ring.cqRing.advanceCQ n le }
    buff := []
    held := CompletionQueue.held_nil _ }

theorem ready_retire (c : Consumer) (n : UInt32) (le : n.toNat ≤ c.ready.length) :
    (c.retire n le).ready = c.ready.drop n.toNat := c.ring.cqRing.ready_advanceCQ n le

theorem length_ready_pos {c : Consumer}
    (there : c.ring.cqRing.cq.kTail - c.ring.cqRing.cq.kHead ≠ 0) : 0 < c.ready.length := by
  refine List.length_pos_iff.mpr fun nothing => there ?_
  rw [CQ.ready_eq_nil_iff.mp nothing, UInt32.sub_self]

/-- The pointer to the oldest completion. -/
def hold (c : Consumer) (there : 0 < c.ready.length) : Consumer :=
  { ring := c.ring
    buff := [c.ring.cqRing.cq.cqeAddr c.ring.cqRing.cq.kHead]
    held := by
      refine ⟨?_, there⟩
      show [_] = [CQ.cqeAddr _ (_ + 0)]
      rw [UInt32.add_zero] }

/-- One turn of the loop of `peekCQEvent`: what it returns, unless it goes on, and the
ring with the pointer it returns. -/
def turn (c : Consumer) : Option CQ.Peeked × Consumer :=
  let cq := c.ring.cqRing.cq
  let available := cq.kTail - cq.kHead
  if there : available ≠ 0 then
    let ptr := cq.cqeAddr cq.kHead
    let cqe := cq.cqeBuff ptr
    if !c.ring.params.extArgFeature && cqe.userData == libUserDataTimeout then
      match cqe.error with
      | none => (none, c.retire 1 (length_ready_pos there))
      | some errno =>
          (some { available := available, cqe := none, err := some errno },
            c.retire 1 (length_ready_pos there))
    else
      (some { available := available, cqe := some ptr, err := none },
        c.hold (length_ready_pos there))
  else
    (some { available := 0, cqe := none, err := none }, c.release)

/-- **`peekCQEvent` is its turns** when nobody comes in between. -/
theorem peekCQEvent_eq_turn (c : Consumer) :
    c.ring.peekCQEvent =
      match c.turn with
      | (some seen, c') => (seen, c'.ring)
      | (none, c') => c'.ring.peekCQEvent := by
  by_cases there : c.ring.cqRing.cq.kTail - c.ring.cqRing.cq.kHead = 0
  · simp [Ring.peekCQEvent, CQ.peekCQEvent, CQ.peekLoop, turn, there, release]
  · obtain ⟨n, more⟩ : ∃ n, (c.ring.cqRing.cq.kTail - c.ring.cqRing.cq.kHead).toNat = n + 1 :=
      Nat.exists_eq_succ_of_ne_zero fun zero => there (UInt32.toNat_inj.mp zero)
    have less : (c.ring.cqRing.cq.kTail - (c.ring.cqRing.cq.kHead + 1)).toNat = n := by
      have shorter := @gap_advance c.ring.cqRing.cq.kHead c.ring.cqRing.cq.kTail 1
        (by rw [gap, more]; exact Nat.le_add_left 1 n)
      rwa [gap, gap, more, Nat.add_sub_cancel] at shorter
    simp only [Ring.peekCQEvent, CQ.peekCQEvent, turn, there, more, CQ.peekLoop, ne_eq,
      not_false_eq_true, dite_true]
    by_cases internal : (!c.ring.params.extArgFeature && (c.ring.cqRing.cq.cqeBuff
      (c.ring.cqRing.cq.cqeAddr c.ring.cqRing.cq.kHead)).userData == libUserDataTimeout) = true
    · rcases Option.eq_none_or_eq_some (c.ring.cqRing.cq.cqeBuff
        (c.ring.cqRing.cq.cqeAddr c.ring.cqRing.cq.kHead)).error with error | ⟨errno, error⟩
      · simp only [internal, error, if_true, retire, CompletionQueue.advanceCQ, CQ.seenCQE,
          CQ.advanceCQ, less]
      · simp only [internal, error, if_true]
        rfl
    · simp only [internal]
      rfl

/-- What a turn can do on a ring without the ext-arg feature. -/
inductive Turned (c : Consumer) : Option CQ.Peeked × Consumer → Prop
  /-- There is nothing. -/
  | empty (nothing : c.ready = []) :
      Turned c (some { available := 0, cqe := none, err := none }, c.release)
  /-- A timeout of the library that has not expired: it is retired. -/
  | skipped {cqe : CQEvent} {rest : List CQEvent} (there : 0 < c.ready.length)
      (front : c.ready = cqe :: rest) (internal : cqe.userData = libUserDataTimeout)
      (fine : cqe.error = none) : Turned c (none, c.retire 1 there)
  /-- A timeout of the library that carries an error: it is retired, and the error
  returned. -/
  | expired {cqe : CQEvent} {rest : List CQEvent} {errno : Errno} {available : UInt32}
      (there : 0 < c.ready.length) (front : c.ready = cqe :: rest)
      (internal : cqe.userData = libUserDataTimeout) (error : cqe.error = some errno) :
      Turned c
        (some { available := available, cqe := none, err := some errno }, c.retire 1 there)
  /-- A completion of the user. -/
  | found {cqe : CQEvent} {rest : List CQEvent} {ptr : ℕ} {available : UInt32}
      (there : 0 < c.ready.length) (front : c.ready = cqe :: rest)
      (user : cqe.userData ≠ libUserDataTimeout) :
      Turned c (some { available := available, cqe := some ptr, err := none }, c.hold there)

theorem turned (c : Consumer) (noExtArg : c.ring.params.extArgFeature = false) :
    Turned c c.turn := by
  simp only [turn, noExtArg, Bool.not_false, Bool.true_and, beq_iff_eq]
  split
  · next there =>
    have pos := length_ready_pos there
    have head := CQ.head_ready (CQ.headPtr_eq_some_iff.mpr ⟨List.length_pos_iff.mp pos, rfl⟩)
    obtain ⟨rest, front⟩ := List.head?_eq_some_iff.mp head
    split
    · next internal =>
      split
      · next fine => exact .skipped pos front internal fine
      · next errno error => exact .expired pos front internal error
    · next user => exact .found pos front user
  · next nothing =>
    refine .empty (CQ.ready_eq_nil_iff.mpr (gap_eq_zero_iff.mp ?_))
    rw [gap, not_not.mp nothing]
    rfl

end Consumer

/-! ## What the kernel answers -/

namespace Ring

/-- What an enter reads is the oldest SQEs, and only a failed one gives an error. -/
theorem kernelEnter_spec {r : Ring} {args : EnterArgs} {result : EnterResult}
    {ret : Except RingError ℕ} {sqes : List SQEntry} {sq : SubmissionQueue}
    (done : r.kernelEnter args result = some (ret, sqes, sq)) :
    r.sqRing.pending = sqes ++ sq.pending ∧
      ∀ err, ret = .error err → ∃ errno, result = .failed errno ∧ err = .enter errno := by
  cases result with
  | failed errno =>
      cases done
      refine ⟨rfl, fun err failed => ?_⟩
      cases failed
      exact ⟨errno, rfl, rfl⟩
  | consumed k =>
      obtain ⟨consumed, rfl⟩ := kernelEnter_ok done
      refine ⟨?_, fun err failed => by cases failed⟩
      simp only [kernelEnter, RingParams.enter] at done
      split at done
      · cases done
        rfl
      · split at done
        · obtain ⟨⟨read, sq⟩, many, done⟩ := Option.map_eq_some_iff.mp done
          cases done
          exact (SubmissionQueue.kernelConsumeMany_spec k many).2.1
        · cases done

/-- `Submit` fails only if its enter does. -/
theorem submit_error {r : Ring} {result : EnterResult} {err : RingError}
    {sqes : List SQEntry} {sq : SubmissionQueue}
    (done : r.submit result = some (.error err, sqes, sq)) :
    ∃ errno, result = .failed errno ∧ err = .enter errno := by
  simp only [submit] at done
  split at done
  · exact (kernelEnter_spec done).2 err rfl
  · cases done

/-- A pass without an error of its peek returns no `ETIME`. -/
theorem getDecision_ret {r : Ring} {params : GetParams} {seen : CQ.Peeked} {cqe : Option ℕ}
    {err : Option RingError} (fine : seen.err = none)
    (decided : r.getDecision params seen = .ret cqe err) :
    ∀ err' ∈ err, err'.is .etime = false := by
  simp only [getDecision, SQ.getDecision, fine] at decided
  split at decided
  · cases decided
    rintro _ ⟨⟩
    rfl
  · split at decided
    · cases decided
    · cases decided
      rintro _ ⟨⟩

end Ring

theorem enter_not_etime {result : EnterResult} {errno : Errno} (failed : result = .failed errno)
    (other : result ≠ .failed .etime) : (RingError.enter errno).is .etime = false := by
  refine beq_eq_false_iff_ne.mpr fun same => other ?_
  rw [failed, same]

/-! ## The goroutine and its ring -/

/-- Whose an SQE or a completion is. -/
inductive Origin
  | user
  /-- The timeout of the timed wait with that number. -/
  | timer (call : ℕ)
  /-- It has the user data of the library's timeouts, and no timed wait has queued it. -/
  | stranger
  deriving DecidableEq, Repr

/-- Whose an SQE with this user data is, if no timed wait has queued it. -/
def Origin.ofUser (userData : UInt64) : Origin :=
  if userData = libUserDataTimeout then .stranger else .user

/-- Where the goroutine is.  A wait is a timed one with a number, or a plain one. -/
inductive TimedPC
  /-- Between calls. -/
  | idle
  /-- A timed wait, at `NextSQE`; `again` after the `Submit` that makes room. -/
  | reserve (call : ℕ) (cnt : UInt32) (spec : UInt64) (again : Bool)
  /-- A timed wait that has found no slot, at `Submit`. -/
  | full (call : ℕ) (cnt : UInt32) (spec : UInt64)
  /-- A timed wait, at `flushSQ`. -/
  | flush (call : ℕ) (cnt : UInt32)
  /-- At a turn of `peekCQEvent`. -/
  | peek (caller : Option ℕ) (params : Ring.GetParams)
  /-- After `peekCQEvent`. -/
  | decide (caller : Option ℕ) (params : Ring.GetParams) (seen : CQ.Peeked)
  /-- In the `io_uring_enter` of `getCQEvents`. -/
  | enter (caller : Option ℕ) (params : Ring.GetParams) (args : EnterArgs)
  /-- In the `io_uring_enter` of `PeekCQEventBatch`. -/
  | flushing (len : ℕ)
  deriving DecidableEq, Repr

/-- The goroutine is in a wait that may return what it holds. -/
def TimedPC.holds : TimedPC → Bool
  | .reserve _ _ _ _ => true
  | .full _ _ _ => true
  | .decide _ _ _ => true
  | .enter _ _ _ => true
  | _ => false

/-- A return of a timed wait: its number, its error, and whose completion the error was
taken from. -/
structure TimedReturn where
  call : ℕ
  err : Option RingError
  cause : Option Origin
  deriving DecidableEq, Repr

/-- A ring, the goroutine that uses it, and what happened so far. -/
structure TimedRun where
  consumer : Consumer
  pc : TimedPC
  /-- The SQEs that the kernel has not read, in order. -/
  submissions : List (SQEntry × Origin)
  /-- The SQEs that the kernel has read and not completed. -/
  inflight : List (SQEntry × Origin)
  /-- The completions in the queue, in order. -/
  completions : List (CQEvent × Origin)
  /-- All completions, in order. -/
  posted : List (CQEvent × Origin)
  /-- How many of the oldest completions the caller has pointers to. -/
  given : ℕ
  /-- What the pointers showed when they were handed out. -/
  handed : List CQEvent
  /-- What the caller has retired. -/
  consumed : List CQEvent
  /-- The number of timed waits so far. -/
  calls : ℕ
  returns : List TimedReturn

/-- What can happen. -/
inductive TimedEvent
  /-- The kernel completes a request. -/
  | complete (i : ℕ) (res : Int32) (flags : UInt32)
  /-- The SQ thread of a ring that has one reads an SQE. -/
  | consume
  /-- The kernel changes the flags of the ring. -/
  | flags (flags : UInt32)
  /-- `QueueSQE`. -/
  | queueSQE (op : Operation) (flags : UInt8) (userData : UInt64)
  /-- `Submit`. -/
  | submit (result : EnterResult)
  /-- `WaitCQEventsWithTimeout(cnt, d)` is called; `spec` is the address of its
  timespec. -/
  | timedWait (cnt : UInt32) (spec : UInt64)
  /-- Its `NextSQE`, and the timeout in the slot. -/
  | reserve
  /-- Its `Submit`. -/
  | resubmit (result : EnterResult)
  /-- Its `flushSQ`. -/
  | flush
  /-- `WaitCQEvents(cnt)` is called; `PeekCQE()` is `WaitCQEvents(0)`. -/
  | wait (cnt : UInt32)
  /-- A turn of `peekCQEvent`. -/
  | peek
  /-- The rest of the pass of `getCQEvents`, up to its system call. -/
  | decide
  /-- The `io_uring_enter` of `getCQEvents` returns. -/
  | entered (result : EnterResult)
  /-- `PeekCQEventBatch(buff)` is called on a buffer of length `len`. -/
  | peekBatch (len : ℕ)
  /-- The `io_uring_enter` of `PeekCQEventBatch` returns. -/
  | flushed
  /-- `AdvanceCQ(n)`; `SeenCQE` is `AdvanceCQ(1)`. -/
  | advance (n : UInt32)

namespace TimedRun

/-- A ring on which nothing has happened. -/
def start (ring : Ring) : TimedRun where
  consumer := Consumer.start ring
  pc := .idle
  submissions := []
  inflight := []
  completions := []
  posted := []
  given := 0
  handed := []
  consumed := []
  calls := 0
  returns := []

/-- The ring. -/
def ring (s : TimedRun) : Ring := s.consumer.ring

/-- The goroutine moves on. -/
def goto (s : TimedRun) (pc : TimedPC) : TimedRun := { s with pc := pc }

/-- The submission queue after a `QueueSQE` for somebody. -/
def queued (s : TimedRun) (origin : Origin) (sq : SubmissionQueue) : TimedRun :=
  { s with
    consumer := s.consumer.withSQ sq
    submissions := s.submissions ++
      (sq.pending.drop s.ring.sqRing.pending.length).map fun sqe => (sqe, origin) }

/-- The submission queue after the kernel has read `k` SQEs. -/
def read (s : TimedRun) (k : ℕ) (sq : SubmissionQueue) : TimedRun :=
  { s with
    consumer := s.consumer.withSQ sq
    submissions := s.submissions.drop k
    inflight := s.inflight ++ s.submissions.take k }

/-- The library has retired the oldest completion. -/
def skipped (s : TimedRun) (c : Consumer) : TimedRun :=
  { s with consumer := c, completions := s.completions.drop 1, given := s.given - 1 }

/-- The call returns the pointers it holds, and an error. -/
def ret (s : TimedRun) (caller : Option ℕ) (err : Option RingError) (cause : Option Origin) :
    TimedRun :=
  { s with
    pc := .idle
    given := max s.given s.consumer.buff.length
    handed := s.handed ++ s.consumer.events
    returns := s.returns ++ caller.toList.map fun call =>
      { call := call, err := err, cause := cause } }

/-- One step.  No `io_uring_enter` fails with `ETIME` on such a ring. -/
def step (s : TimedRun) : TimedEvent → Option TimedRun
  | .complete i res flags =>
      s.inflight[i]?.bind fun (sqe, origin) =>
        let cqe := { userData := sqe.userData, res := res, flags := flags }
        (s.consumer.kernelPost cqe).map fun c =>
          { s with
            consumer := c
            inflight := s.inflight.eraseIdx i
            completions := s.completions ++ [(cqe, origin)]
            posted := s.posted ++ [(cqe, origin)] }
  | .consume =>
      if s.ring.params.sqPoll then
        s.ring.sqRing.kernelConsume.map fun (_, sq) => s.read 1 sq
      else none
  | .flags flags => some { s with consumer := s.consumer.kernelFlags flags }
  | .queueSQE op flags userData =>
      match s.pc with
      | .idle =>
          match s.ring.sqRing.queueSQE op flags userData with
          | some (_, sq) => some (s.queued (.ofUser userData) sq)
          | none =>
              -- The caller recovers from the panic of `PrepSQE`.
              some (s.queued (.ofUser s.ring.sqRing.sq.nextSlot.userData)
                s.ring.sqRing.abandonSQE)
      | _ => none
  | .submit result =>
      match s.pc with
      | .idle => (s.ring.submit result).map fun (_, sqes, sq) => s.read sqes.length sq
      | _ => none
  | .timedWait cnt spec =>
      match s.pc with
      | .idle =>
          some
            { s with
              consumer := s.consumer.release
              pc := .reserve s.calls cnt spec false
              calls := s.calls + 1 }
      | _ => none
  | .reserve =>
      match s.pc with
      | .reserve call cnt spec again =>
          (s.ring.sqRing.queueSQE (timeoutOp spec) 0 libUserDataTimeout).map fun (err, sq) =>
            match err with
            | none => (s.queued (.timer call) sq).goto (.flush call cnt)
            | some err =>
                if again then s.ret (some call) (some err) none
                else s.goto (.full call cnt spec)
      | _ => none
  | .resubmit result =>
      match s.pc with
      | .full call cnt spec =>
          if result = .failed .etime then none
          else
            (s.ring.submit result).map fun (ret, sqes, sq) =>
              match ret with
              | .ok _ => (s.read sqes.length sq).goto (.reserve call cnt spec true)
              | .error err => (s.read sqes.length sq).ret (some call) (some err) none
      | _ => none
  | .flush =>
      match s.pc with
      | .flush call cnt =>
          let (toSubmit, sq) := s.ring.sqRing.flushSQ
          some (goto { s with consumer := s.consumer.withSQ sq }
            (.peek (some call) { submit := toSubmit, waitNr := cnt, flags := 0 }))
      | _ => none
  | .wait cnt =>
      match s.pc with
      | .idle =>
          some (goto { s with consumer := s.consumer.release }
            (.peek none (Ring.waitCQEvents cnt)))
      | _ => none
  | .peek =>
      match s.pc with
      | .peek caller params =>
          match s.consumer.turn with
          | (none, c) => some (s.skipped c)
          | (some { err := some errno, .. }, c) =>
              some ((s.skipped c).ret caller (some (.errno errno))
                (s.completions.head?.map Prod.snd))
          | (some seen, c) =>
              some (goto { s with consumer := c } (.decide caller params seen))
      | _ => none
  | .decide =>
      match s.pc with
      | .decide caller params seen =>
          match s.ring.getDecision params seen with
          | .ret _ err => some (s.ret caller err none)
          | .enter args _ => some (s.goto (.enter caller params args))
      | _ => none
  | .entered result =>
      match s.pc with
      | .enter caller params args =>
          if result = .failed .etime then none
          else
            (s.ring.kernelEnter args result).map fun (ret, sqes, sq) =>
              match Ring.afterEnter params s.consumer.buff.head? ret with
              | .inl params => (s.read sqes.length sq).goto (.peek caller params)
              | .inr (_, err) => (s.read sqes.length sq).ret caller err none
      | _ => none
  | .peekBatch len =>
      match s.pc with
      | .idle =>
          let c := s.consumer.peekBatch len
          if c.buff.isEmpty && s.ring.sqRing.sq.cqNeedFlush then
            some (goto { s with consumer := c } (.flushing len))
          else
            some (ret { s with consumer := c } none none none)
      | _ => none
  | .flushed =>
      match s.pc with
      | .flushing len =>
          some (ret { s with consumer := s.consumer.peekBatch len } none none none)
      | _ => none
  | .advance n =>
      match s.pc with
      | .idle =>
          if le : n.toNat ≤ s.given ∧ n.toNat ≤ s.consumer.ready.length then
            some
              { s with
                consumer := s.consumer.retire n le.2
                completions := s.completions.drop n.toNat
                given := s.given - n.toNat
                consumed := s.consumed ++ s.consumer.ready.take n.toNat }
          else none
      | _ => none

end TimedRun

/-! ## On the way to the kernel -/

/-- The user data is the library's exactly if the entry is not the user's. -/
def Tagged (userData : UInt64) (origin : Origin) : Prop :=
  userData = libUserDataTimeout ↔ origin ≠ .user

theorem tagged_ofUser (userData : UInt64) : Tagged userData (.ofUser userData) := by
  rw [Tagged, Origin.ofUser]
  split
  · next library => exact iff_of_true library nofun
  · next other => exact iff_of_false other fun ne => ne rfl

/-- What is on its way to the kernel, and with it. -/
structure Outbox where
  pending : List SQEntry
  submissions : List (SQEntry × Origin)
  inflight : List (SQEntry × Origin)

namespace Outbox

/-- What a step can do to it. -/
inductive Move (o : Outbox) : Outbox → Prop
  | same : Move o o
  | queue {sqe : SQEntry} {origin : Origin} (tagged : Tagged sqe.userData origin) :
      Move o
        { o with
          pending := o.pending ++ [sqe]
          submissions := o.submissions ++ [(sqe, origin)] }
  | read {sqes rest : List SQEntry} (front : o.pending = sqes ++ rest) :
      Move o
        { pending := rest
          submissions := o.submissions.drop sqes.length
          inflight := o.inflight ++ o.submissions.take sqes.length }
  | complete (i : ℕ) : Move o { o with inflight := o.inflight.eraseIdx i }

/-- The origins go with the entries of the queue, and each entry is tagged. -/
structure Sound (o : Outbox) : Prop where
  aligned : o.submissions.map Prod.fst = o.pending
  submitted : ∀ x ∈ o.submissions, Tagged x.1.userData x.2
  inflight : ∀ x ∈ o.inflight, Tagged x.1.userData x.2

theorem Sound.move {o o' : Outbox} (sound : o.Sound) (move : o.Move o') : o'.Sound := by
  cases move with
  | same => exact sound
  | @queue sqe origin tagged =>
      refine ⟨?_, ?_, sound.inflight⟩
      · rw [List.map_append, sound.aligned]
        rfl
      · intro x mem
        rcases List.mem_append.mp mem with old | new
        · exact sound.submitted x old
        · obtain rfl := List.mem_singleton.mp new
          exact tagged
  | @read sqes rest front =>
      refine ⟨?_, fun x mem => sound.submitted x (List.mem_of_mem_drop mem), fun x mem => ?_⟩
      · rw [List.map_drop, sound.aligned, front, List.drop_left]
      · rcases List.mem_append.mp mem with old | new
        · exact sound.inflight x old
        · exact sound.submitted x (List.mem_of_mem_take new)
  | complete i =>
      exact ⟨sound.aligned, sound.submitted,
        fun x mem => sound.inflight x (List.mem_of_mem_eraseIdx mem)⟩

end Outbox

/-! ## On the way back -/

/-- What has come back from the kernel. -/
structure Inbox where
  ready : List CQEvent
  completions : List (CQEvent × Origin)
  posted : List (CQEvent × Origin)
  given : ℕ
  handed : List CQEvent
  consumed : List CQEvent
  returns : List TimedReturn

namespace Inbox

/-- The oldest completion is retired. -/
def skip (b : Inbox) : Inbox :=
  { b with ready := b.ready.drop 1, completions := b.completions.drop 1, given := b.given - 1 }

/-- A call returns: the caller gets pointers to the `m` oldest completions. -/
def give (b : Inbox) (m : ℕ) (caller : Option ℕ) (err : Option RingError)
    (cause : Option Origin) : Inbox :=
  { b with
    given := max b.given m
    handed := b.handed ++ b.ready.take m
    returns := b.returns ++ caller.toList.map fun call =>
      { call := call, err := err, cause := cause } }

/-- What a step can do to it; `batch` is the number of completions it returns in a
batch, if it does, and `waiter` the timed wait that looks at the queue, if one does. -/
inductive Move (b : Inbox) (batch waiter : Option ℕ) : Inbox → Prop
  | same : Move b batch waiter b
  | post {x : CQEvent × Origin} (tagged : Tagged x.1.userData x.2) :
      Move b batch waiter
        { b with
          ready := b.ready ++ [x.1]
          completions := b.completions ++ [x]
          posted := b.posted ++ [x] }
  /-- The library retires one of its timeouts. -/
  | skip {cqe : CQEvent} {rest : List CQEvent} (front : b.ready = cqe :: rest)
      (internal : cqe.userData = libUserDataTimeout) : Move b batch waiter b.skip
  /-- The library retires one of its timeouts, and a wait returns its error. -/
  | expire {cqe : CQEvent} {rest : List CQEvent} {errno : Errno}
      (front : b.ready = cqe :: rest) (internal : cqe.userData = libUserDataTimeout)
      (error : cqe.error = some errno) :
      Move b batch waiter
        (b.skip.give 0 waiter (some (.errno errno)) (b.completions.head?.map Prod.snd))
  /-- Any other return. -/
  | give {m : ℕ} {caller : Option ℕ} {err : Option RingError} (le : m ≤ b.ready.length)
      (how : batch = some m ∨ ∀ cqe ∈ b.ready.take m, cqe.userData ≠ libUserDataTimeout)
      (other : ∀ err' ∈ err, err'.is .etime = false) :
      Move b batch waiter (b.give m caller err none)
  | retire {n : ℕ} (le : n ≤ b.given) :
      Move b batch waiter
        { b with
          ready := b.ready.drop n
          completions := b.completions.drop n
          given := b.given - n
          consumed := b.consumed ++ b.ready.take n }

/-- The origins go with the completions of the queue, which are the last ones posted;
each is tagged; the caller has pointers to no others. -/
structure Sound (b : Inbox) : Prop where
  aligned : b.completions.map Prod.fst = b.ready
  last : b.completions <:+ b.posted
  tagged : ∀ x ∈ b.posted, Tagged x.1.userData x.2
  given_le : b.given ≤ b.ready.length

/-- The oldest completion and its origin. -/
theorem Sound.head {b : Inbox} (sound : b.Sound) {cqe : CQEvent} {rest : List CQEvent}
    (front : b.ready = cqe :: rest) :
    ∃ origin later, b.completions = (cqe, origin) :: later := by
  obtain ⟨⟨cqe', origin⟩, later, split, rfl, -⟩ :=
    List.map_eq_cons_iff.mp (sound.aligned.trans front)
  exact ⟨origin, later, split⟩

theorem Sound.drop {b : Inbox} (sound : b.Sound) (n : ℕ) :
    (b.completions.drop n).map Prod.fst = b.ready.drop n ∧ b.completions.drop n <:+ b.posted ∧
      b.given - n ≤ (b.ready.drop n).length := by
  refine ⟨?_, (List.drop_suffix n _).trans sound.last, ?_⟩
  · rw [List.map_drop, sound.aligned]
  · rw [List.length_drop]
    exact Nat.sub_le_sub_right sound.given_le n

theorem Sound.give {b : Inbox} (sound : b.Sound) {m : ℕ} (le : m ≤ b.ready.length)
    (caller : Option ℕ) (err : Option RingError) (cause : Option Origin) :
    (b.give m caller err cause).Sound :=
  ⟨sound.aligned, sound.last, sound.tagged, max_le sound.given_le le⟩

theorem Sound.skip {b : Inbox} (sound : b.Sound) : b.skip.Sound := by
  obtain ⟨aligned, last, given_le⟩ := sound.drop 1
  exact ⟨aligned, last, sound.tagged, given_le⟩

theorem Sound.move {b b' : Inbox} {batch waiter : Option ℕ} (sound : b.Sound)
    (move : b.Move batch waiter b') : b'.Sound := by
  cases move with
  | same => exact sound
  | @post x tagged =>
      refine ⟨?_, ?_, ?_, ?_⟩
      · rw [List.map_append, sound.aligned]
        rfl
      · obtain ⟨before, whole⟩ := sound.last
        exact ⟨before, by rw [← List.append_assoc, whole]⟩
      · intro y mem
        rcases List.mem_append.mp mem with old | new
        · exact sound.tagged y old
        · obtain rfl := List.mem_singleton.mp new
          exact tagged
      · rw [List.length_append]
        exact Nat.le_add_right_of_le sound.given_le
  | skip front internal => exact sound.skip
  | expire front internal error => exact sound.skip.give (Nat.zero_le _) _ _ _
  | give le how other => exact sound.give le _ _ _
  | @retire n le =>
      obtain ⟨aligned, last, given_le⟩ := sound.drop n
      exact ⟨aligned, last, sound.tagged, given_le⟩

end Inbox

/-! ## What a step does -/

namespace TimedRun

variable {s s' : TimedRun} {e : TimedEvent}

def outbox (s : TimedRun) : Outbox where
  pending := s.ring.sqRing.pending
  submissions := s.submissions
  inflight := s.inflight

def inbox (s : TimedRun) : Inbox where
  ready := s.consumer.ready
  completions := s.completions
  posted := s.posted
  given := s.given
  handed := s.handed
  consumed := s.consumed
  returns := s.returns

/-- How many completions the step returns in a batch, if it does. -/
def batch (s : TimedRun) : TimedEvent → Option ℕ
  | .peekBatch len =>
      match s.pc with
      | .idle => some (min (len % 2 ^ 32) s.consumer.ready.length)
      | _ => none
  | .flushed =>
      match s.pc with
      | .flushing len => some (min (len % 2 ^ 32) s.consumer.ready.length)
      | _ => none
  | _ => none

/-- The timed wait that looks at the queue in the step, if one does. -/
def waiter (s : TimedRun) : TimedEvent → Option ℕ
  | .peek =>
      match s.pc with
      | .peek caller _ => caller
      | _ => none
  | _ => none

/-- A wait holds no timeout of the library, and goes on only without an error. -/
structure Picked (s : TimedRun) : Prop where
  user : s.pc.holds = true → ∀ cqe ∈ s.consumer.events, cqe.userData ≠ libUserDataTimeout
  fine : ∀ caller params seen, s.pc = .decide caller params seen → seen.err = none

/-- **What a step does.** -/
structure Moves (s : TimedRun) (e : TimedEvent) (s' : TimedRun) : Prop where
  params : s'.ring.params = s.ring.params
  outbox : s.outbox.Move s'.outbox
  inbox : s.inbox.Move (s.batch e) (s.waiter e) s'.inbox
  picked : s'.Picked

theorem inbox_ret (s : TimedRun) (caller : Option ℕ) (err : Option RingError)
    (cause : Option Origin) :
    (s.ret caller err cause).inbox = s.inbox.give s.consumer.buff.length caller err cause := by
  simp only [inbox, ret, Inbox.give, Consumer.events_eq_take]

/-- Outside of a wait nothing is asked. -/
theorem picked_of_pc (rest : s.pc.holds = false) : s.Picked where
  user holds := absurd holds (by rw [rest]; exact Bool.false_ne_true)
  fine caller params seen here := by
    rw [here] at rest
    cases rest

/-- A wait that holds nothing. -/
theorem picked_of_nil (none : s.consumer.buff = [])
    (other : ∀ caller params seen, s.pc ≠ .decide caller params seen) : s.Picked where
  user _ cqe mem := by
    rw [Consumer.events, none] at mem
    cases mem
  fine caller params seen here := absurd here (other caller params seen)

theorem Picked.congr (picked : s.Picked) (events : s'.consumer.events = s.consumer.events)
    (pc : s'.pc = s.pc) : s'.Picked := by
  refine ⟨?_, ?_⟩
  · rw [events, pc]
    exact picked.user
  · rw [pc]
    exact picked.fine

/-- One SQE more is in the submission queue. -/
theorem outbox_push {sqe : SQEntry} {origin : Origin} {sq : SubmissionQueue}
    (tagged : Tagged sqe.userData origin) (pending : sq.pending = s.ring.sqRing.pending ++ [sqe]) :
    s.outbox.Move (s.queued origin sq).outbox := by
  have one : (s.queued origin sq).outbox =
      { s.outbox with
        pending := s.outbox.pending ++ [sqe]
        submissions := s.outbox.submissions ++ [(sqe, origin)] } := by
    show Outbox.mk sq.pending (s.submissions ++
      (sq.pending.drop s.ring.sqRing.pending.length).map fun sqe => (sqe, origin)) s.inflight = _
    rw [pending, List.drop_left]
    rfl
  rw [one]
  exact .queue tagged

theorem outbox_queued {op : Operation} {flags : UInt8} {userData : UInt64} {origin : Origin}
    {err : Option RingError} {sq : SubmissionQueue} (tagged : Tagged userData origin)
    (queued : s.ring.sqRing.queueSQE op flags userData = some (err, sq)) :
    s.outbox.Move (s.queued origin sq).outbox := by
  rcases SubmissionQueue.queueSQE_cases queued with
    ⟨-, -, rfl⟩ | ⟨-, -, sqe, encoded, pushed, -, -⟩
  · have same : (s.queued origin s.ring.sqRing).outbox = s.outbox := by
      simp only [TimedRun.queued, outbox, List.drop_length, List.map_nil, List.append_nil]
      rfl
    rw [same]
    exact .same
  · exact outbox_push (Operation.encode_userData encoded ▸ tagged)
      (BoundedFifo.Fifo.push_eq_some_iff.mp pushed).2.1

/-- A step of the goroutine that touches neither queue. -/
theorem moves_idle (params : s'.ring.params = s.ring.params) (outbox : s'.outbox = s.outbox)
    (inbox : s'.inbox = s.inbox) (picked : s'.Picked) : Moves s e s' :=
  ⟨params, outbox ▸ .same, inbox ▸ .same, picked⟩

/-- A return of what the wait holds. -/
theorem moves_ret {caller : Option ℕ} {err : Option RingError} (outbox : s.outbox.Move s'.outbox)
    (params : s'.ring.params = s.ring.params) (inbox : s'.inbox = s.inbox)
    (how : s.batch e = some s'.consumer.buff.length ∨
      ∀ cqe ∈ s'.consumer.events, cqe.userData ≠ libUserDataTimeout)
    (other : ∀ err' ∈ err, err'.is .etime = false) : Moves s e (s'.ret caller err none) := by
  refine ⟨params, outbox, ?_, picked_of_pc rfl⟩
  rw [inbox_ret, inbox]
  refine .give ?_ (how.imp_right fun user => ?_) other
  · rw [← inbox]
    exact s'.consumer.length_buff_le
  · rw [← inbox]
    exact Consumer.events_eq_take _ ▸ user

theorem inbox_skipped (s : TimedRun) (there : 0 < s.consumer.ready.length) :
    (s.skipped (s.consumer.retire 1 there)).inbox = s.inbox.skip := by
  simp only [inbox, skipped, Inbox.skip, Consumer.ready_retire]
  rfl

/-- A turn of `peekCQEvent`. -/
theorem moves_peek {caller : Option ℕ} {params : Ring.GetParams}
    (noExtArg : s.ring.params.extArgFeature = false) (here : s.pc = .peek caller params)
    (stepped : s.step .peek = some s') : Moves s .peek s' := by
  simp only [step, here] at stepped
  have turned := s.consumer.turned noExtArg
  generalize s.consumer.turn = result at stepped turned
  cases turned with
  | empty nothing =>
      cases stepped
      refine moves_idle rfl rfl rfl ⟨fun _ cqe mem => (by cases mem), fun _ _ _ there => ?_⟩
      cases there
      rfl
  | skipped there front internal fine =>
      cases stepped
      refine ⟨rfl, .same, ?_, picked_of_pc ?_⟩
      · rw [inbox_skipped]
        exact .skip front internal
      · show s.pc.holds = false
        rw [here]
        rfl
  | expired there front internal error =>
      cases stepped
      refine ⟨rfl, .same, ?_, picked_of_pc rfl⟩
      have waiting : s.waiter .peek = caller := by simp only [waiter, here]
      rw [inbox_ret, inbox_skipped, waiting]
      exact .expire front internal error
  | @found cqe rest ptr available there front user =>
      cases stepped
      refine moves_idle rfl rfl rfl ⟨fun _ cqe' mem => ?_, fun _ _ _ there => ?_⟩
      · have shown : (s.consumer.hold there).events = [cqe] := by
          rw [Consumer.events_eq_take]
          show s.consumer.ready.take 1 = [cqe]
          rw [front]
          rfl
        obtain rfl := List.mem_singleton.mp (shown ▸ mem)
        exact user
      · cases there
        rfl

/-- The kernel completes a request. -/
theorem moves_complete {i : ℕ} {res : Int32} {flags : UInt32} (picked : s.Picked)
    (sound : s.outbox.Sound) (stepped : s.step (.complete i res flags) = some s') :
    Moves s (.complete i res flags) s' := by
  obtain ⟨⟨sqe, origin⟩, found, done⟩ := Option.bind_eq_some_iff.mp stepped
  obtain ⟨c, posted, rfl⟩ := Option.map_eq_some_iff.mp done
  obtain ⟨ready, -, params, sq, -⟩ := Consumer.kernelPost_spec posted
  have tagged : Tagged sqe.userData origin :=
    sound.inflight (sqe, origin) (List.mem_of_getElem? found)
  refine ⟨params, ?_, ?_, picked.congr (Consumer.events_kernelPost posted) rfl⟩
  · have same : c.ring.sqRing.pending = s.ring.sqRing.pending := congrArg _ sq
    simp only [outbox, ring, same]
    exact .complete i
  · simp only [inbox, ready]
    exact @Inbox.Move.post _ _ _ (⟨sqe.userData, res, flags⟩, origin) tagged

/-- The submission queue gets another SQE, or is full. -/
theorem moves_queued {op : Operation} {flags : UInt8} {userData : UInt64} {origin : Origin}
    {err : Option RingError} {sq : SubmissionQueue} {pc : TimedPC} (rest : pc.holds = false)
    (tagged : Tagged userData origin)
    (queued : s.ring.sqRing.queueSQE op flags userData = some (err, sq)) :
    Moves s e ((s.queued origin sq).goto pc) :=
  ⟨rfl, outbox_queued tagged queued, .same, picked_of_pc rest⟩

/-- The kernel reads from the submission queue. -/
theorem outbox_read {sqes : List SQEntry} {sq : SubmissionQueue}
    (front : s.ring.sqRing.pending = sqes ++ sq.pending) :
    s.outbox.Move (s.read sqes.length sq).outbox := .read front

/-- The length of a batch. -/
theorem length_buff_peekBatch (c : Consumer) (len : ℕ) :
    (c.peekBatch len).buff.length = min (len % 2 ^ 32) c.ready.length := by
  show (c.ring.cqRing.cq.peekCQEventBatch len).length = _
  rw [CQ.peekCQEventBatch_eq, length_slots]
  rfl

/-- The timed wait takes a slot for its timeout, or finds none. -/
theorem moves_reserve (picked : s.Picked) (stepped : s.step .reserve = some s') :
    Moves s .reserve s' := by
  simp only [step] at stepped
  split at stepped
  · next call cnt spec again here =>
    have user := picked.user (by rw [here]; rfl)
    obtain ⟨⟨err, sq⟩, queued, done⟩ := Option.map_eq_some_iff.mp stepped
    have tagged : Tagged libUserDataTimeout (.timer call) :=
      ⟨fun _ => by rintro ⟨⟩, fun _ => rfl⟩
    rcases SubmissionQueue.queueSQE_cases queued with ⟨-, rfl, -⟩ | ⟨-, rfl, -⟩
    · simp only at done
      split at done
      · cases done
        refine moves_ret .same rfl rfl (Or.inr user) ?_
        rintro _ ⟨⟩
        rfl
      · cases done
        exact moves_idle rfl rfl rfl ⟨fun _ => user, fun _ _ _ => by rintro ⟨⟩⟩
    · cases done
      exact moves_queued rfl tagged queued
  · cases stepped

/-- The timed wait submits to make room. -/
theorem moves_resubmit {result : EnterResult} (picked : s.Picked)
    (stepped : s.step (.resubmit result) = some s') : Moves s (.resubmit result) s' := by
  simp only [step] at stepped
  split at stepped
  · next call cnt spec here =>
    have user := picked.user (by rw [here]; rfl)
    split at stepped
    · cases stepped
    · next other =>
      obtain ⟨⟨ret, sqes, sq⟩, submitted, done⟩ := Option.map_eq_some_iff.mp stepped
      have front := (Ring.submit_spec submitted).1
      cases ret with
      | ok n =>
          cases done
          exact ⟨rfl, outbox_read front, .same, ⟨fun _ => user, fun _ _ _ => by rintro ⟨⟩⟩⟩
      | error err =>
          cases done
          obtain ⟨errno, failed, rfl⟩ := Ring.submit_error submitted
          refine moves_ret (outbox_read front) rfl rfl (Or.inr user) ?_
          rintro _ ⟨⟩
          exact enter_not_etime failed other
  · cases stepped

/-- A pass of `getCQEvents` returns or enters the kernel. -/
theorem moves_decide (picked : s.Picked) (stepped : s.step .decide = some s') :
    Moves s .decide s' := by
  simp only [step] at stepped
  split at stepped
  · next caller params seen here =>
    have user := picked.user (by rw [here]; rfl)
    split at stepped
    · next decided =>
      cases stepped
      exact moves_ret .same rfl rfl (Or.inr user)
        (Ring.getDecision_ret (picked.fine _ _ _ here) decided)
    · cases stepped
      exact moves_idle rfl rfl rfl ⟨fun _ => user, fun _ _ _ => by rintro ⟨⟩⟩
  · cases stepped

/-- The `io_uring_enter` of `getCQEvents` returns. -/
theorem moves_entered {result : EnterResult} (picked : s.Picked)
    (stepped : s.step (.entered result) = some s') : Moves s (.entered result) s' := by
  simp only [step] at stepped
  split at stepped
  · next caller params args here =>
    have user := picked.user (by rw [here]; rfl)
    split at stepped
    · cases stepped
    · next other =>
      obtain ⟨⟨ret, sqes, sq⟩, entered, done⟩ := Option.map_eq_some_iff.mp stepped
      obtain ⟨front, errors⟩ := Ring.kernelEnter_spec entered
      simp only at done
      split at done
      · cases done
        exact ⟨rfl, outbox_read front, .same, picked_of_pc rfl⟩
      · next cqe err after =>
        cases done
        refine moves_ret (outbox_read front) rfl rfl (Or.inr user) ?_
        cases ret with
        | error err =>
            cases after
            obtain ⟨errno, failed, rfl⟩ := errors err rfl
            rintro _ ⟨⟩
            exact enter_not_etime failed other
        | ok consumed =>
            simp only [Ring.afterEnter] at after
            split at after
            · cases after
              rintro _ ⟨⟩
            · cases after
  · cases stepped

/-- `PeekCQEventBatch` reads the counters. -/
theorem moves_peekBatch {len : ℕ} (stepped : s.step (.peekBatch len) = some s') :
    Moves s (.peekBatch len) s' := by
  simp only [step] at stepped
  split at stepped
  · next here =>
    have length := length_buff_peekBatch s.consumer len
    split at stepped
    · cases stepped
      exact moves_idle rfl rfl rfl (picked_of_pc rfl)
    · cases stepped
      refine moves_ret .same rfl rfl (Or.inl ?_) (by rintro _ ⟨⟩)
      rw [length]
      simp only [batch, here]
  · cases stepped

/-- **What a step does**, in a state in which waits hold no timeouts and SQEs are
tagged. -/
theorem step_moves (noExtArg : s.ring.params.extArgFeature = false) (picked : s.Picked)
    (sound : s.outbox.Sound) (stepped : s.step e = some s') : Moves s e s' := by
  cases e with
  | complete i res flags => exact moves_complete picked sound stepped
  | consume =>
      simp only [step] at stepped
      split at stepped
      · obtain ⟨⟨sqe, sq⟩, consumed, rfl⟩ := Option.map_eq_some_iff.mp stepped
        exact ⟨rfl, @outbox_read s [sqe] sq (SubmissionQueue.pending_kernelConsume consumed),
          .same, picked.congr rfl rfl⟩
      · cases stepped
  | flags flags =>
      cases stepped
      exact moves_idle rfl rfl rfl (picked.congr rfl rfl)
  | queueSQE op flags userData =>
      simp only [step] at stepped
      split at stepped
      · next here =>
        split at stepped
        · next queued =>
          cases stepped
          exact ⟨rfl, outbox_queued (tagged_ofUser userData) queued, .same,
            picked_of_pc (by rw [TimedRun.queued, here]; rfl)⟩
        · next panics =>
          cases stepped
          exact ⟨rfl, outbox_push (tagged_ofUser _)
            (SubmissionQueue.abandonSQE_of_panic panics).2.1, .same,
            picked_of_pc (by rw [TimedRun.queued, here]; rfl)⟩
      · cases stepped
  | submit result =>
      simp only [step] at stepped
      split at stepped
      · next here =>
        obtain ⟨⟨ret, sqes, sq⟩, submitted, rfl⟩ := Option.map_eq_some_iff.mp stepped
        exact ⟨rfl, outbox_read (Ring.submit_spec submitted).1, .same,
          picked_of_pc (by rw [read, here]; rfl)⟩
      · cases stepped
  | timedWait cnt spec =>
      simp only [step] at stepped
      split at stepped
      · cases stepped
        exact moves_idle rfl rfl rfl (picked_of_nil rfl fun _ _ _ => by rintro ⟨⟩)
      · cases stepped
  | reserve => exact moves_reserve picked stepped
  | resubmit result => exact moves_resubmit picked stepped
  | flush =>
      simp only [step] at stepped
      split at stepped
      · cases stepped
        refine moves_idle rfl ?_ rfl (picked_of_pc rfl)
        simp only [outbox, goto, ring, Consumer.withSQ, SubmissionQueue.pending_flushSQ]
      · cases stepped
  | wait cnt =>
      simp only [step] at stepped
      split at stepped
      · cases stepped
        exact moves_idle rfl rfl rfl (picked_of_pc rfl)
      · cases stepped
  | peek =>
      cases here : s.pc with
      | peek caller params => exact moves_peek noExtArg here stepped
      | _ =>
          simp only [step, here] at stepped
          cases stepped
  | decide => exact moves_decide picked stepped
  | entered result => exact moves_entered picked stepped
  | peekBatch len => exact moves_peekBatch stepped
  | flushed =>
      simp only [step] at stepped
      split at stepped
      · next len here =>
        cases stepped
        refine moves_ret .same rfl rfl (Or.inl ?_) (by rintro _ ⟨⟩)
        rw [length_buff_peekBatch]
        simp only [batch, here]
      · cases stepped
  | advance n =>
      simp only [step] at stepped
      split at stepped
      · next here =>
        split at stepped
        · next le =>
          cases stepped
          refine ⟨rfl, .same, ?_, picked_of_pc (by rw [here]; rfl)⟩
          simp only [inbox, Consumer.ready_retire]
          exact .retire le.1
        · cases stepped
      · cases stepped

/-! ## What holds along every run -/

/-- The queues and their origins agree, and waits hold no timeouts. -/
structure Base (s : TimedRun) : Prop where
  noExtArg : s.ring.params.extArgFeature = false
  picked : s.Picked
  outbox : s.outbox.Sound
  inbox : s.inbox.Sound

theorem base_start {ring : Ring} (noExtArg : ring.params.extArgFeature = false)
    (unused : ring.sqRing.pending = [] ∧ ring.cqRing.ready = []) : (start ring).Base where
  noExtArg := noExtArg
  picked := picked_of_pc rfl
  outbox := ⟨unused.1.symm, fun _ mem => (by cases mem), fun _ mem => (by cases mem)⟩
  inbox := ⟨unused.2.symm, List.suffix_rfl, fun _ mem => (by cases mem), Nat.zero_le _⟩

theorem Base.moves (base : s.Base) (stepped : s.step e = some s') : Moves s e s' :=
  step_moves base.noExtArg base.picked base.outbox stepped

theorem Base.step (base : s.Base) (stepped : s.step e = some s') : s'.Base := by
  have moves := base.moves stepped
  exact ⟨moves.params ▸ base.noExtArg, moves.picked, base.outbox.move moves.outbox,
    base.inbox.move moves.inbox⟩

end TimedRun

end GoUring.Uring
