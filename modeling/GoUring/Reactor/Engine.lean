import GoUring.Uring.Consumer
import Mathlib.Algebra.Order.Group.Multiset

/-!
# The ring of an event loop

The two reactors drive their rings alike: a publisher queues and submits, a
consumer waits, peeks a batch, dispatches the completions of the batch one by one
and retires it.  `Engine` is what they share: the ring, the SQEs the kernel has
read and not completed, and where the loop's consumer is.  The loops differ in
what the consumer does between a successful wait and the first peek: the network
loop signals its publisher a second time.

The user data a loop holds travels from the submission queue through the kernel
to the completion queue and leaves with its dispatch.  `carried` is the bag of
user data under way, and every operation is described by what it does to that
bag: queueing adds, dispatching removes, everything else leaves it as it is.

A reactor accepts only rings with the ext-arg feature (`checkRingReq`), which is
why an engine carries that fact.
-/

namespace GoUring.Reactor

open Uring CounterRing

/-- What `checkRingReq` objects to. -/
inductive RequirementError
  | extArg
  | fastPoll
  deriving DecidableEq, Repr

/-- The text of the error; both wrap `ErrRequirements`. -/
def RequirementError.message : RequirementError → String
  | .extArg => "ring does not meet the requirements: ext arg feature must exists"
  | .fastPoll =>
      "ring does not meet the requirements: fast poll feature must exists for NetReactor"

/-- `checkRingReq`. -/
def checkRingReq (r : Ring) (net : Bool) : Except RequirementError Unit :=
  if !r.params.extArgFeature then
    .error .extArg
  else if net && !r.params.fastPollFeature then
    .error .fastPoll
  else
    .ok ()

theorem extArg_of_checkRingReq {r : Ring} {net : Bool} (accepted : checkRingReq r net = .ok ()) :
    r.params.extArgFeature = true := by
  unfold checkRingReq at accepted
  split at accepted
  · cases accepted
  · next feature => simpa using feature

/-- A ring a reactor is made with: `checkRingReq` accepts it, and as
`io_uring_setup` left it nothing is queued and nothing has completed. -/
structure ReactorRing (net : Bool) where
  ring : Ring
  accepted : checkRingReq ring net = .ok ()
  sq_empty : ring.sqRing.pending = []
  cq_empty : ring.cqRing.ready = []

theorem ReactorRing.extArg {net : Bool} (r : ReactorRing net) :
    r.ring.params.extArgFeature = true :=
  extArg_of_checkRingReq r.accepted

/-- The features of a kernel that has all that a reactor asks for. -/
def fullParams : RingParams := { flags := 0, features := featFastPoll ||| featExtArg }

/-- A ring with all counters at zero, `entries` submission and two completion
slots. -/
def freshRing (net : Bool) (entries : UInt32) (sized : Sized entries (entries - 1))
    (small : entries.toNat ≤ 32768) : ReactorRing net where
  ring :=
    { params := fullParams
      sqRing :=
        { sq :=
            { kHead := 0
              kTail := 0
              kRingMask := entries - 1
              kRingEntries := entries
              kFlags := 0
              kArray := fun _ => 0
              sqeBuff := fun _ => default
              sqeTail := 0
              sqeHead := 0 }
          wf := SQ.Fresh.wf ⟨sized, small, rfl, rfl, rfl⟩ }
      cqRing :=
        { cq :=
            { kHead := 0
              kTail := 0
              kRingMask := 1
              kRingEntries := 2
              cqeBuff := fun _ => default }
          wf := ⟨⟨⟨1, rfl⟩, rfl⟩, by decide⟩ } }
  accepted := by
    have ext : fullParams.extArgFeature = true := by decide
    have fast : fullParams.fastPollFeature = true := by decide
    simp [checkRingReq, ext, fast]
  sq_empty := SQ.Fresh.pending ⟨sized, small, rfl, rfl, rfl⟩
  cq_empty := by
    rw [CompletionQueue.ready, CQ.ready]
    exact window_self 0

/-- Rings with two submission slots. -/
def twoSlots (net : Bool) : ℕ → ReactorRing net :=
  fun _ => freshRing net 2 ⟨⟨1, rfl⟩, rfl⟩ (by decide)

/-- `cqeBuffSize`. -/
def cqeBuffSize : ℕ := 128

/-- Where a `runConsumer` is. -/
inductive ConsumerPC
  /-- At the send to `submitSignal` that starts a round. -/
  | signal
  /-- At the top of the loop of `getCQEvents`. -/
  | wait (params : Ring.GetParams)
  /-- In the `io_uring_enter` of the wait. -/
  | enter (params : Ring.GetParams)
  /-- At the network loop's second send to `submitSignal`. -/
  | resignal
  /-- At `PeekCQEventBatch`. -/
  | peek
  /-- In the `io_uring_enter` of `PeekCQEventBatch`. -/
  | flush
  /-- In the loop over a batch, at the entry with the given index. -/
  | dispatch (i : ℕ)
  /-- At the `select` that polls for the stop. -/
  | poll
  /-- The stop was received; `stopConsumerCh` is to be closed. -/
  | closing
  /-- `runConsumer` has returned. -/
  | returned
  deriving DecidableEq, Repr

/-- How many completions of the batch at hand were dispatched. -/
def ConsumerPC.taken : ConsumerPC → ℕ
  | .dispatch i => i
  | _ => 0

/-- The consumer has received the stop. -/
def ConsumerPC.stopped : ConsumerPC → Bool
  | .closing => true
  | .returned => true
  | _ => false

/-- The parameters of `WaitCQEventsWithTimeout(1, tickDuration)`. -/
def waitParams : Ring.GetParams := { submit := 0, waitNr := 1, flags := sysRingEnterExtArg }

/-- The ring of an event loop.  The consumer has dispatched no more completions
than its batch holds. -/
structure Engine where
  consumer : Consumer
  extArg : consumer.ring.params.extArgFeature = true
  inflight : List SQEntry
  pc : ConsumerPC
  taken_le : pc.taken ≤ consumer.buff.length

/-- What the kernel does on its own. -/
inductive KernelEvent
  /-- The SQ thread of a ring that has one reads an SQE. -/
  | consume
  /-- The request at position `i` of those in flight completes. -/
  | complete (i : ℕ) (res : Int32) (flags : UInt32)
  /-- The flags of the ring change. -/
  | flags (flags : UInt32)

/-- What a consumer does on its own. -/
inductive ConsumerEvent
  /-- One pass of the wait. -/
  | wait
  /-- The `io_uring_enter` of the wait returns. -/
  | entered (err : Option Errno)
  /-- The first read of `PeekCQEventBatch`. -/
  | peek
  /-- The `io_uring_enter` of `PeekCQEventBatch` returns. -/
  | flushed
  /-- `AdvanceCQ(uint32(n))` after the last entry of a batch. -/
  | advance

namespace Engine

/-- The submission queue. -/
def sq (e : Engine) : SubmissionQueue := e.consumer.ring.sqRing

/-- Whether the ring has an SQ thread. -/
def sqPoll (e : Engine) : Bool := e.consumer.ring.params.sqPoll

/-- The engine with another submission queue. -/
def withSQ (e : Engine) (sq : SubmissionQueue) : Engine :=
  { e with consumer := e.consumer.withSQ sq }

/-- A ring before its loop's first step. -/
def start {net : Bool} (r : ReactorRing net) : Engine :=
  { consumer := Consumer.start r.ring
    extArg := r.extArg
    inflight := []
    pc := .signal
    taken_le := Nat.zero_le _ }

/-- The consumer moves on, not into a batch. -/
def goto (e : Engine) (pc : ConsumerPC) (idle : pc.taken = 0) : Engine :=
  { e with pc := pc, taken_le := idle ▸ Nat.zero_le _ }

/-! ## The publisher's side -/

/-- `QueueSQE`. -/
def queueSQE (e : Engine) (op : Operation) (flags : UInt8) (userData : UInt64) :
    Option (Option RingError × Engine) :=
  (e.sq.queueSQE op flags userData).map fun (err, sq) => (err, e.withSQ sq)

/-- The ring after a panic of the `PrepSQE` in `QueueSQE`. -/
def abandonSQE (e : Engine) : Engine := e.withSQ e.sq.abandonSQE

/-- `Submit`; the SQEs the kernel reads in the call are in flight afterwards. -/
def submit (e : Engine) (result : EnterResult) : Option (Except RingError ℕ × Engine) :=
  (e.consumer.ring.submit result).map fun (ret, sqes, sq) =>
    (ret, { e.withSQ sq with inflight := e.inflight ++ sqes })

/-! ## The kernel's side -/

/-- The kernel posts a completion. -/
def kernelPost (e : Engine) (cqe : CQEvent) : Option Engine :=
  match posted : e.consumer.kernelPost cqe with
  | none => none
  | some c =>
      some
        { e with
          consumer := c
          extArg := (Consumer.kernelPost_spec posted).2.2.1 ▸ e.extArg
          taken_le := (Consumer.kernelPost_spec posted).2.1 ▸ e.taken_le }

/-- One step of the kernel.  The completion of a request carries its user
data. -/
def kernelStep (e : Engine) : KernelEvent → Option Engine
  | .consume =>
      if e.sqPoll then
        e.sq.kernelConsume.map fun (sqe, sq) =>
          { e.withSQ sq with inflight := e.inflight ++ [sqe] }
      else none
  | .complete i res flags =>
      e.inflight[i]?.bind fun sqe =>
        (e.kernelPost { userData := sqe.userData, res := res, flags := flags }).map fun e =>
          { e with inflight := e.inflight.eraseIdx i }
  | .flags flags => some (e.withSQ (e.sq.kernelFlags flags))

/-- The SQ thread reads a number of SQEs. -/
def threadReads : ℕ → Engine → Option Engine
  | 0, e => some e
  | reads + 1, e => (e.kernelStep .consume).bind fun e => e.threadReads reads

/-! ## The consumer's side -/

/-- Where the consumer goes after its wait returned: an error of any kind leads
to the poll for the stop. -/
def afterWait (net : Bool) : Option RingError → ConsumerPC
  | none => if net then .resignal else .peek
  | some _ => .poll

theorem taken_afterWait (net : Bool) (err : Option RingError) :
    (afterWait net err).taken = 0 := by
  cases err with
  | none => cases net <;> rfl
  | some err => rfl

theorem pass_extArg (e : Engine) (params : Ring.GetParams) :
    (e.consumer.pass params).2.ring.params.extArgFeature = true := by
  rw [Consumer.ring_pass e.extArg]
  exact e.extArg

/-- One pass of the wait, and where it leads. -/
def pass (e : Engine) (params : Ring.GetParams) (pc : ConsumerPC) (idle : pc.taken = 0) :
    Engine :=
  { e with
    consumer := (e.consumer.pass params).2
    extArg := e.pass_extArg params
    pc := pc
    taken_le := idle ▸ Nat.zero_le _ }

/-- One read of `PeekCQEventBatch(cqeBuff)`, and where it leads. -/
def peekBatch (e : Engine) (pc : ConsumerPC) (idle : pc.taken = 0) : Engine :=
  { e with
    consumer := e.consumer.peekBatch cqeBuffSize
    pc := pc
    taken_le := idle ▸ Nat.zero_le _ }

/-- `AdvanceCQ(uint32(n))`, after which the consumer peeks again. -/
def advanceCQ (e : Engine) : Engine :=
  { e with
    consumer := e.consumer.advanceCQ (UInt32.ofNat e.consumer.buff.length)
      e.consumer.toNat_length_buff.le
    pc := .peek
    taken_le := Nat.zero_le _ }

/-- Where a read of `PeekCQEventBatch` leads when it filled the buffer with `n`
pointers: into the batch, or out of the loop over batches. -/
def afterPeek (n : ℕ) : ConsumerPC := if n = 0 then .poll else .dispatch 0

theorem taken_afterPeek (n : ℕ) : (afterPeek n).taken = 0 := by
  unfold afterPeek
  split
  · rfl
  · rfl

/-- One step of `runConsumer` between its sends, its dispatches and its polls for
the stop. -/
def consumerStep (net : Bool) (e : Engine) : ConsumerEvent → Option Engine
  | .wait =>
      match e.pc with
      | .wait params =>
          match (e.consumer.pass params).1 with
          | .ret _ err => some (e.pass params (afterWait net err) (taken_afterWait net err))
          | .enter _ _ => some (e.pass params (.enter params) rfl)
      | _ => none
  | .entered err =>
      match e.pc with
      | .enter params =>
          let result := match err with
            | none => .ok 0
            | some errno => .error (.enter errno)
          match Ring.afterEnter params e.consumer.buff.head? result with
          | .inr (_, err) => some (e.goto (afterWait net err) (taken_afterWait net err))
          | .inl params => some (e.goto (.wait params) rfl)
      | _ => none
  | .peek =>
      match e.pc with
      | .peek =>
          let n := (e.consumer.peekBatch cqeBuffSize).buff.length
          if n = 0 ∧ e.sq.sq.cqNeedFlush then some (e.peekBatch .flush rfl)
          else some (e.peekBatch (afterPeek n) (taken_afterPeek n))
      | _ => none
  | .flushed =>
      match e.pc with
      | .flush =>
          let n := (e.consumer.peekBatch cqeBuffSize).buff.length
          some (e.peekBatch (afterPeek n) (taken_afterPeek n))
      | _ => none
  | .advance =>
      match e.pc with
      | .dispatch i => if i < e.consumer.buff.length then none else some e.advanceCQ
      | _ => none

theorem dispatch_le {c : Consumer} {i : ℕ} {cqe : CQEvent} (found : c.events[i]? = some cqe) :
    (ConsumerPC.dispatch (i + 1)).taken ≤ c.buff.length := by
  obtain ⟨lt, -⟩ := List.getElem?_eq_some_iff.mp found
  rwa [Consumer.events, List.length_map] at lt

/-- `cqe := cqeBuff[i]`: the completion the consumer looks at, and the engine
when it is done with it. -/
def take (e : Engine) : Option (CQEvent × Engine) :=
  match e.pc with
  | .dispatch i =>
      match found : e.consumer.events[i]? with
      | some cqe =>
          some (cqe, { e with pc := .dispatch (i + 1), taken_le := dispatch_le found })
      | none => none
  | _ => none

/-! ## The user data under way -/

/-- The user data in the submission queue. -/
def inSQ (e : Engine) : Multiset UInt64 := e.sq.pending.map SQEntry.userData

/-- The user data of the requests the kernel has read and not completed. -/
def inKernel (e : Engine) : Multiset UInt64 := e.inflight.map SQEntry.userData

/-- The user data of the completions not dispatched yet. -/
def inCQ (e : Engine) : Multiset UInt64 :=
  (e.consumer.ready.drop e.pc.taken).map CQEvent.userData

/-- The completions not dispatched yet. -/
def cqes (e : Engine) : List CQEvent := e.consumer.ready.drop e.pc.taken

/-- **The user data under way.** -/
def carried (e : Engine) : Multiset UInt64 := e.inSQ + e.inKernel + e.inCQ

@[simp] theorem sq_withSQ (e : Engine) (sq : SubmissionQueue) : (e.withSQ sq).sq = sq := rfl

/-- The same entries carry the same user data. -/
theorem carried_congr {e e' : Engine} (sq : e'.sq = e.sq) (inflight : e'.inflight = e.inflight)
    (cqes : e'.cqes = e.cqes) : e'.carried = e.carried := by
  have queue : e'.inCQ = e.inCQ :=
    congrArg (fun cqes => Multiset.ofList (List.map CQEvent.userData cqes)) cqes
  rw [carried, carried, inSQ, inSQ, inKernel, inKernel, sq, inflight, queue]

/-- Nothing is under way at the start. -/
theorem carried_start {net : Bool} (r : ReactorRing net) : (start r).carried = 0 := by
  show Multiset.ofList (r.ring.sqRing.pending.map _) + Multiset.ofList [] +
    Multiset.ofList ((r.ring.cqRing.ready.drop 0).map _) = 0
  rw [r.sq_empty, r.cq_empty]
  rfl

/-- **Queueing.**  With a free slot the user data is added to the submission
queue; without one nothing changes. -/
theorem queueSQE_spec {e e' : Engine} {op : Operation} {flags : UInt8} {userData : UInt64}
    {err : Option RingError} (queued : e.queueSQE op flags userData = some (err, e')) :
    (e.sq.pending.length = e.sq.entries ∧ err = some .sqOverflow ∧ e' = e) ∨
      (e.sq.pending.length < e.sq.entries ∧ err = none ∧ ∃ sqe sq,
        e' = e.withSQ sq ∧ sqe.userData = userData ∧ sq.pending = e.sq.pending ++ [sqe] ∧
          sq.visible = e.sq.visible ∧ sq.entries = e.sq.entries) := by
  obtain ⟨⟨err', sq⟩, raw, eq⟩ := Option.map_eq_some_iff.mp queued
  cases eq
  rcases SubmissionQueue.queueSQE_cases raw with
    ⟨full, rfl, rfl⟩ | ⟨room, rfl, sqe, encoded, pushed, visible, entries⟩
  · exact Or.inl ⟨full, rfl, rfl⟩
  · refine Or.inr ⟨room, rfl, sqe, sq, rfl, Operation.encode_userData encoded, ?_, visible,
      entries⟩
    exact (BoundedFifo.Fifo.push_eq_some_iff.mp pushed).2.1

/-- `QueueSQE` panics in a free slot only, and then it is `PrepSQE` that does. -/
theorem queueSQE_panics_iff {e : Engine} {op : Operation} {flags : UInt8} {userData : UInt64} :
    e.queueSQE op flags userData = none ↔ ¬ e.sq.sq.Prepares op := by
  rw [queueSQE, Option.map_eq_none_iff, SubmissionQueue.queueSQE_eq_none_iff]

/-- A slot that is abandoned is queued as it is. -/
theorem abandonSQE_spec {e : Engine} {op : Operation} {flags : UInt8} {userData : UInt64}
    (panics : e.queueSQE op flags userData = none) :
    e.sq.pending.length < e.sq.entries ∧
      e.abandonSQE.sq.pending = e.sq.pending ++ [e.sq.sq.nextSlot] ∧
      e.abandonSQE.sq.visible = e.sq.visible ∧ e.abandonSQE.sq.entries = e.sq.entries :=
  SubmissionQueue.abandonSQE_of_panic (Option.map_eq_none_iff.mp panics)

/-- What queueing appends is what the operation encodes. -/
theorem queueSQE_encoded {e e' : Engine} {op : Operation} {flags : UInt8} {userData : UInt64}
    {err : Option RingError} (queued : e.queueSQE op flags userData = some (err, e')) :
    (e.sq.pending.length = e.sq.entries ∧ err = some .sqOverflow ∧ e' = e) ∨
      (e.sq.pending.length < e.sq.entries ∧ err = none ∧ ∃ old sqe,
        op.encode flags userData old = some sqe ∧ e'.sq.pending = e.sq.pending ++ [sqe] ∧
          e'.sq.entries = e.sq.entries) := by
  obtain ⟨⟨err', sq⟩, raw, eq⟩ := Option.map_eq_some_iff.mp queued
  cases eq
  rcases SubmissionQueue.queueSQE_cases raw with
    ⟨full, rfl, rfl⟩ | ⟨room, rfl, sqe, encoded, pushed, -, entries⟩
  · exact Or.inl ⟨full, rfl, rfl⟩
  · exact Or.inr ⟨room, rfl, _, sqe, encoded,
      (BoundedFifo.Fifo.push_eq_some_iff.mp pushed).2.1, entries⟩

/-- The SQE that a `QueueSQE` appends, if it succeeds. -/
def queuedSQE (e : Engine) (op : Operation) (flags : UInt8) (userData : UInt64) :
    List SQEntry :=
  match e.queueSQE op flags userData with
  | some (none, e') => e'.sq.pending.drop e.sq.pending.length
  | _ => []

theorem queuedSQE_of_error {e e' : Engine} {op : Operation} {flags : UInt8} {userData : UInt64}
    {err : RingError} (queued : e.queueSQE op flags userData = some (some err, e')) :
    e.queuedSQE op flags userData = [] := by
  simp only [queuedSQE, queued]

theorem queuedSQE_of_pending {e e' : Engine} {op : Operation} {flags : UInt8}
    {userData : UInt64} {sqe : SQEntry}
    (queued : e.queueSQE op flags userData = some (none, e'))
    (pending : e'.sq.pending = e.sq.pending ++ [sqe]) :
    e.queuedSQE op flags userData = [sqe] := by
  simp only [queuedSQE, queued, pending, List.drop_left]

/-- What is appended is what the operation encodes. -/
theorem mem_queuedSQE {e : Engine} {op : Operation} {flags : UInt8} {userData : UInt64}
    {sqe : SQEntry} (mem : sqe ∈ e.queuedSQE op flags userData) :
    ∃ old, op.encode flags userData old = some sqe := by
  unfold queuedSQE at mem
  split at mem
  · next e' queued =>
    rcases queueSQE_encoded queued with ⟨-, err, -⟩ | ⟨-, -, old, sqe', encoded, pending, -⟩
    · cases err
    · rw [pending, List.drop_left] at mem
      obtain rfl := List.mem_singleton.mp mem
      exact ⟨old, encoded⟩
  · cases mem

/-- Queueing moves nobody. -/
theorem pc_queueSQE {e e' : Engine} {op : Operation} {flags : UInt8} {userData : UInt64}
    {err : Option RingError} (queued : e.queueSQE op flags userData = some (err, e')) :
    e'.pc = e.pc := by
  rcases queueSQE_spec queued with ⟨-, -, rfl⟩ | ⟨-, -, sqe, sq, rfl, -⟩
  · rfl
  · rfl

/-- A queued SQE is under way. -/
theorem carried_withSQ_append {e : Engine} {sq : SubmissionQueue} {sqe : SQEntry}
    (pending : sq.pending = e.sq.pending ++ [sqe]) :
    (e.withSQ sq).carried = sqe.userData ::ₘ e.carried := by
  have queue : (e.withSQ sq).inSQ = sqe.userData ::ₘ e.inSQ := by
    simp only [inSQ, sq_withSQ, pending, List.map_append, List.map_cons, List.map_nil]
    rw [← Multiset.coe_add, Multiset.add_comm]
    rfl
  show (e.withSQ sq).inSQ + e.inKernel + e.inCQ = _
  rw [queue, Multiset.cons_add, Multiset.cons_add]
  rfl

/-- SQEs read by the kernel stay under way. -/
theorem carried_read {e : Engine} {sq : SubmissionQueue} {sqes : List SQEntry}
    (pending : e.sq.pending = sqes ++ sq.pending) :
    ({ e.withSQ sq with inflight := e.inflight ++ sqes } : Engine).carried = e.carried := by
  have before : e.inSQ =
      (sqes.map SQEntry.userData : Multiset UInt64) + (e.withSQ sq).inSQ := by
    simp only [inSQ, sq_withSQ, pending, List.map_append]
    exact (Multiset.coe_add _ _).symm
  have after : ({ e.withSQ sq with inflight := e.inflight ++ sqes } : Engine).inKernel =
      e.inKernel + (sqes.map SQEntry.userData : Multiset UInt64) := by
    simp only [inKernel, List.map_append]
    exact (Multiset.coe_add _ _).symm
  show (e.withSQ sq).inSQ + _ + e.inCQ = e.inSQ + e.inKernel + e.inCQ
  rw [after, before]
  simp only [add_comm, add_left_comm]

/-- **Submitting** moves SQEs from the queue to the kernel. -/
theorem submit_spec {e e' : Engine} {result : EnterResult} {ret : Except RingError ℕ}
    (submitted : e.submit result = some (ret, e')) :
    ∃ sqes sq, e.consumer.ring.submit result = some (ret, sqes, sq) ∧
      e' = { e.withSQ sq with inflight := e.inflight ++ sqes } ∧
      e.sq.pending = sqes ++ sq.pending ∧ sq.visible = sq.pending ∧
      sq.entries = e.sq.entries ∧ e'.carried = e.carried := by
  obtain ⟨⟨ret', sqes, sq⟩, raw, eq⟩ := Option.map_eq_some_iff.mp submitted
  cases eq
  obtain ⟨pending, visible, entries⟩ := Ring.submit_spec raw
  exact ⟨sqes, sq, raw, rfl, pending, visible, entries, carried_read pending⟩

theorem pc_submit {e e' : Engine} {result : EnterResult} {ret : Except RingError ℕ}
    (submitted : e.submit result = some (ret, e')) : e'.pc = e.pc := by
  obtain ⟨sqes, sq, -, rfl, -⟩ := submit_spec submitted
  rfl

/-- A submit comes to an end, if only with an error. -/
theorem exists_submit (e : Engine) : ∃ result, (e.submit result).isSome = true := by
  refine ⟨.failed .eagain, ?_⟩
  simp only [submit, Ring.submit, Option.isSome_map]
  split
  · rfl
  · rfl

/-- On a ring without an SQ thread, a submit takes out of the queue as many SQEs as
it answers, and none when it fails. -/
theorem submit_noThread {e e' : Engine} {result : EnterResult} {ret : Except RingError ℕ}
    (noThread : e.sqPoll = false) (submitted : e.submit result = some (ret, e')) :
    (∃ k, result = .consumed k ∧ ret = .ok k ∧
        e.sq.pending.length = k + e'.sq.pending.length) ∨
      ∃ errno, result = .failed errno ∧ ret = .error (.enter errno) ∧
        e'.sq.pending = e.sq.pending := by
  obtain ⟨sqes, sq, raw, rfl, pending, -, -, -⟩ := submit_spec submitted
  rcases Ring.submit_read noThread raw with ⟨k, rfl, rfl, length⟩ | ⟨errno, rfl, rfl, rfl⟩
  · refine Or.inl ⟨k, rfl, rfl, ?_⟩
    rw [pending, List.length_append, length]
    rfl
  · exact Or.inr ⟨errno, rfl, rfl, pending.symm⟩

theorem kernelPost_spec {e e' : Engine} {cqe : CQEvent} (posted : e.kernelPost cqe = some e') :
    e'.consumer.ready = e.consumer.ready ++ [cqe] ∧ e'.consumer.buff = e.consumer.buff ∧
      e'.sq = e.sq ∧ e'.sqPoll = e.sqPoll ∧ e'.inflight = e.inflight ∧ e'.pc = e.pc := by
  unfold kernelPost at posted
  split at posted
  · cases posted
  · next c raw =>
    cases posted
    obtain ⟨ready, buff, params, sq, -⟩ := Consumer.kernelPost_spec raw
    refine ⟨ready, buff, sq, ?_, rfl, rfl⟩
    show RingParams.sqPoll _ = RingParams.sqPoll _
    rw [params]

theorem taken_le_ready (e : Engine) : e.pc.taken ≤ e.consumer.ready.length :=
  e.taken_le.trans e.consumer.held.2

/-- A completion takes the user data of its request along. -/
theorem carried_complete {e e' : Engine} {i : ℕ} {sqe : SQEntry} {cqe : CQEvent}
    (found : e.inflight[i]? = some sqe) (same : cqe.userData = sqe.userData)
    (posted : e.kernelPost cqe = some e') :
    ({ e' with inflight := e'.inflight.eraseIdx i } : Engine).carried = e.carried := by
  obtain ⟨ready, -, sq, -, inflight, pc⟩ := kernelPost_spec posted
  obtain ⟨lt, eq⟩ := List.getElem?_eq_some_iff.mp found
  have kernel : e.inKernel =
      sqe.userData ::ₘ (((e.inflight.eraseIdx i).map SQEntry.userData : List UInt64) :
        Multiset UInt64) := by
    rw [Multiset.cons_coe, ← List.map_cons, ← eq]
    exact Multiset.coe_eq_coe.mpr ((List.getElem_cons_eraseIdx_perm lt).symm.map _)
  have queue : ({ e' with inflight := e'.inflight.eraseIdx i } : Engine).inCQ =
      sqe.userData ::ₘ e.inCQ := by
    show ((e'.consumer.ready.drop e'.pc.taken).map CQEvent.userData : Multiset UInt64) = _
    rw [ready, pc, List.drop_append_of_le_length e.taken_le_ready, List.map_append,
      ← Multiset.coe_add, Multiset.add_comm, ← same]
    rfl
  show e'.inSQ + _ + _ = e.inSQ + e.inKernel + e.inCQ
  rw [queue, kernel]
  show Multiset.ofList (e'.sq.pending.map _) +
    Multiset.ofList ((e'.inflight.eraseIdx i).map _) + _ = _
  rw [sq, inflight, Multiset.add_cons, Multiset.add_cons, Multiset.cons_add]
  rfl

/-- **The kernel** moves user data and loses none of it.  Only the SQ thread
touches the submission queue. -/
theorem kernelStep_spec {e e' : Engine} {k : KernelEvent}
    (stepped : e.kernelStep k = some e') :
    e'.carried = e.carried ∧ e'.pc = e.pc ∧ e'.sqPoll = e.sqPoll ∧
      e'.sq.entries = e.sq.entries ∧
      (∃ read, e.sq.pending = read ++ e'.sq.pending ∧ e.sq.visible = read ++ e'.sq.visible ∧
        (e.sqPoll = false → read = [])) := by
  cases k with
  | consume =>
      simp only [kernelStep] at stepped
      split at stepped
      · next thread =>
        obtain ⟨⟨sqe, sq⟩, consumed, rfl⟩ := Option.map_eq_some_iff.mp stepped
        obtain ⟨-, visible, entries⟩ := SubmissionQueue.kernelConsume_spec consumed
        have pending : e.sq.pending = [sqe] ++ sq.pending :=
          SubmissionQueue.pending_kernelConsume consumed
        refine ⟨carried_read pending, rfl, rfl, entries, [sqe], pending, visible, ?_⟩
        intro none
        rw [thread] at none
        cases none
      · cases stepped
  | complete i res flags =>
      obtain ⟨sqe, found, done⟩ := Option.bind_eq_some_iff.mp stepped
      obtain ⟨mid, posted, rfl⟩ := Option.map_eq_some_iff.mp done
      obtain ⟨-, -, sq, thread, -, pc⟩ := kernelPost_spec posted
      refine ⟨carried_complete found rfl posted, pc, thread, ?_, [], ?_, ?_, fun _ => rfl⟩
      · exact congrArg SubmissionQueue.entries sq
      · exact congrArg SubmissionQueue.pending sq.symm
      · exact congrArg SubmissionQueue.visible sq.symm
  | flags flags =>
      cases stepped
      exact ⟨rfl, rfl, rfl, rfl, [], rfl, rfl, fun _ => rfl⟩

/-- The SQ thread reads `reads` SQEs from the front; they stay under way. -/
theorem threadReads_spec :
    ∀ (reads : ℕ) {e e' : Engine}, e.threadReads reads = some e' →
      e'.carried = e.carried ∧ e'.pc = e.pc ∧ e'.sqPoll = e.sqPoll ∧
        e'.sq.entries = e.sq.entries ∧
        ∃ read, read.length = reads ∧ e.sq.pending = read ++ e'.sq.pending := by
  intro reads
  induction reads with
  | zero =>
      intro e e' done
      cases done
      exact ⟨rfl, rfl, rfl, rfl, [], rfl, rfl⟩
  | succ reads ih =>
      intro e e' done
      obtain ⟨mid, first, rest⟩ := Option.bind_eq_some_iff.mp done
      obtain ⟨carried, pc, thread, entries, -⟩ := kernelStep_spec first
      obtain ⟨carried', pc', thread', entries', read, length, front⟩ := ih rest
      have one : ∃ sqe, e.sq.pending = sqe :: mid.sq.pending := by
        simp only [kernelStep] at first
        split at first
        · obtain ⟨⟨sqe, sq⟩, consumed, rfl⟩ := Option.map_eq_some_iff.mp first
          exact ⟨sqe, SubmissionQueue.pending_kernelConsume consumed⟩
        · cases first
      obtain ⟨sqe, one⟩ := one
      refine ⟨carried'.trans carried, pc'.trans pc, thread'.trans thread,
        entries'.trans entries, sqe :: read, congrArg Nat.succ length, ?_⟩
      rw [one, front]
      rfl

theorem cqes_goto {e : Engine} (outside : e.pc.taken = 0) (pc : ConsumerPC)
    (idle : pc.taken = 0) : (e.goto pc idle).cqes = e.cqes := by
  show e.consumer.ready.drop pc.taken = e.consumer.ready.drop e.pc.taken
  rw [outside, idle]

/-- Moving on outside a batch changes nothing that is under way. -/
theorem carried_goto {e : Engine} (outside : e.pc.taken = 0) (pc : ConsumerPC)
    (idle : pc.taken = 0) : (e.goto pc idle).carried = e.carried :=
  carried_congr rfl rfl (cqes_goto outside pc idle)

theorem cqes_pass {e : Engine} (outside : e.pc.taken = 0) (params : Ring.GetParams)
    (pc : ConsumerPC) (idle : pc.taken = 0) : (e.pass params pc idle).cqes = e.cqes := by
  show (e.consumer.pass params).2.ready.drop pc.taken = e.consumer.ready.drop e.pc.taken
  rw [Consumer.ready, Consumer.ring_pass e.extArg, outside, idle]
  rfl

theorem cqes_peekBatch {e : Engine} (outside : e.pc.taken = 0) (pc : ConsumerPC)
    (idle : pc.taken = 0) : (e.peekBatch pc idle).cqes = e.cqes := by
  show e.consumer.ready.drop pc.taken = e.consumer.ready.drop e.pc.taken
  rw [outside, idle]

/-- Retiring a batch that was dispatched to its end. -/
theorem cqes_advanceCQ {e : Engine} (done : e.pc.taken = e.consumer.buff.length) :
    e.advanceCQ.cqes = e.cqes := by
  show e.advanceCQ.consumer.ready.drop 0 = e.consumer.ready.drop e.pc.taken
  refine (e.consumer.ready_advanceCQ _ e.consumer.toNat_length_buff.le).trans ?_
  rw [Consumer.toNat_length_buff, done]

theorem stopped_afterWait (net : Bool) (err : Option RingError) :
    (afterWait net err).stopped = false := by
  cases err with
  | none => cases net <;> rfl
  | some err => rfl

theorem stopped_afterPeek (n : ℕ) : (afterPeek n).stopped = false := by
  unfold afterPeek
  split
  · rfl
  · rfl

/-- A consumer that is outside a batch may go to `pc`. -/
structure Onward (net : Bool) (e : Engine) (pc : ConsumerPC) : Prop where
  outside : e.pc.taken = 0
  active : e.pc.stopped = false
  active' : pc.stopped = false
  resignal : net = false → pc ≠ .resignal

/-- The steps of a consumer between its sends, its dispatches and its polls for the stop. -/
inductive ConsumerMove (net : Bool) (e : Engine) : Engine → Prop
  | goto {pc : ConsumerPC} (idle : pc.taken = 0) (on : Onward net e pc) :
      ConsumerMove net e (e.goto pc idle)
  | pass {params : Ring.GetParams} {pc : ConsumerPC} (idle : pc.taken = 0)
      (on : Onward net e pc) : ConsumerMove net e (e.pass params pc idle)
  | peekBatch {pc : ConsumerPC} (idle : pc.taken = 0) (on : Onward net e pc) :
      ConsumerMove net e (e.peekBatch pc idle)
  | advanceCQ (done : e.pc.taken = e.consumer.buff.length) (active : e.pc.stopped = false) :
      ConsumerMove net e e.advanceCQ

theorem Onward.of_afterWait {net : Bool} {e : Engine} (outside : e.pc.taken = 0)
    (active : e.pc.stopped = false) (err : Option RingError) :
    Onward net e (afterWait net err) := by
  refine ⟨outside, active, stopped_afterWait net err, ?_⟩
  rintro rfl
  cases err with
  | none => rintro ⟨⟩
  | some err => rintro ⟨⟩

theorem Onward.of_afterPeek {net : Bool} {e : Engine} (outside : e.pc.taken = 0)
    (active : e.pc.stopped = false) (n : ℕ) : Onward net e (afterPeek n) := by
  refine ⟨outside, active, stopped_afterPeek n, fun _ => ?_⟩
  unfold afterPeek
  split
  · rintro ⟨⟩
  · rintro ⟨⟩

/-- **Every step of a consumer is one of these.** -/
theorem consumerStep_move {net : Bool} {e e' : Engine} {c : ConsumerEvent}
    (stepped : e.consumerStep net c = some e') : ConsumerMove net e e' := by
  have at_pc : ∀ {pc : ConsumerPC}, e.pc = pc → pc.taken = 0 → pc.stopped = false →
      e.pc.taken = 0 ∧ e.pc.stopped = false := by
    rintro pc rfl outside active
    exact ⟨outside, active⟩
  cases c with
  | wait =>
      simp only [consumerStep] at stepped
      split at stepped
      · next params here =>
        obtain ⟨outside, active⟩ := at_pc here rfl rfl
        split at stepped
        · next cqe err _ =>
          cases stepped
          exact .pass _ (.of_afterWait outside active err)
        · cases stepped
          exact .pass _ ⟨outside, active, rfl, fun _ => by rintro ⟨⟩⟩
      · cases stepped
  | entered err =>
      simp only [consumerStep] at stepped
      split at stepped
      · next params here =>
        obtain ⟨outside, active⟩ := at_pc here rfl rfl
        split at stepped
        · next cqe err _ =>
          cases stepped
          exact .goto _ (.of_afterWait outside active err)
        · cases stepped
          exact .goto _ ⟨outside, active, rfl, fun _ => by rintro ⟨⟩⟩
      · cases stepped
  | peek =>
      simp only [consumerStep] at stepped
      split at stepped
      · next here =>
        obtain ⟨outside, active⟩ := at_pc here rfl rfl
        split at stepped
        · cases stepped
          exact .peekBatch _ ⟨outside, active, rfl, fun _ => by rintro ⟨⟩⟩
        · cases stepped
          exact .peekBatch _ (.of_afterPeek outside active _)
      · cases stepped
  | flushed =>
      simp only [consumerStep] at stepped
      split at stepped
      · next here =>
        obtain ⟨outside, active⟩ := at_pc here rfl rfl
        cases stepped
        exact .peekBatch _ (.of_afterPeek outside active _)
      · cases stepped
  | advance =>
      simp only [consumerStep] at stepped
      split at stepped
      · next i here =>
        split at stepped
        · cases stepped
        · next last =>
          cases stepped
          have within := e.taken_le
          rw [here] at within
          refine .advanceCQ ?_ (by rw [here]; rfl)
          rw [here]
          exact Nat.le_antisymm within (Nat.le_of_not_lt last)
      · cases stepped

/-- **The consumer**, between its sends and its dispatches, leaves every entry where it
is, and never touches the submission queue. -/
theorem consumerStep_entries {net : Bool} {e e' : Engine} {c : ConsumerEvent}
    (stepped : e.consumerStep net c = some e') :
    e'.sq = e.sq ∧ e'.inflight = e.inflight ∧ e'.cqes = e.cqes ∧ e'.sqPoll = e.sqPoll := by
  cases consumerStep_move stepped with
  | goto idle on => exact ⟨rfl, rfl, cqes_goto on.outside _ idle, rfl⟩
  | @pass params pc idle on =>
      have ring := Consumer.ring_pass e.extArg params
      exact ⟨congrArg Ring.sqRing ring, rfl, cqes_pass on.outside _ _ idle,
        congrArg (fun r : Ring => r.params.sqPoll) ring⟩
  | peekBatch idle on => exact ⟨rfl, rfl, cqes_peekBatch on.outside _ idle, rfl⟩
  | advanceCQ done active => exact ⟨rfl, rfl, cqes_advanceCQ done, rfl⟩

/-- **The consumer**, between its sends and its dispatches, neither adds nor
removes user data. -/
theorem consumerStep_spec {net : Bool} {e e' : Engine} {c : ConsumerEvent}
    (stepped : e.consumerStep net c = some e') :
    e'.carried = e.carried ∧ e'.sq = e.sq ∧ e'.sqPoll = e.sqPoll ∧
      e.pc.stopped = false ∧ e'.pc.stopped = false := by
  obtain ⟨sq, inflight, cqes, thread⟩ := consumerStep_entries stepped
  refine ⟨carried_congr sq inflight cqes, sq, thread, ?_⟩
  cases consumerStep_move stepped with
  | goto idle on => exact ⟨on.active, on.active'⟩
  | pass idle on => exact ⟨on.active, on.active'⟩
  | peekBatch idle on => exact ⟨on.active, on.active'⟩
  | advanceCQ done active => exact ⟨active, rfl⟩

/-- **Dispatching** takes the oldest completion. -/
theorem take_entries {e e' : Engine} {cqe : CQEvent} (taken : e.take = some (cqe, e')) :
    e'.sq = e.sq ∧ e'.inflight = e.inflight ∧ e.cqes = cqe :: e'.cqes := by
  unfold take at taken
  split at taken
  · next i here =>
    split at taken
    · next head found =>
      cases taken
      refine ⟨rfl, rfl, ?_⟩
      show e.consumer.ready.drop e.pc.taken = cqe :: e.consumer.ready.drop (i + 1)
      rw [here]
      obtain ⟨lt, -⟩ := List.getElem?_eq_some_iff.mp found
      rw [Consumer.events, List.length_map] at lt
      rw [Consumer.events_eq_take, List.getElem?_take_of_lt lt] at found
      obtain ⟨within, eq⟩ := List.getElem?_eq_some_iff.mp found
      show e.consumer.ready.drop i = _
      rw [List.drop_eq_getElem_cons within, eq]
    · cases taken
  · cases taken

/-- **Dispatching** takes the user data of one completion out. -/
theorem take_spec {e e' : Engine} {cqe : CQEvent} (taken : e.take = some (cqe, e')) :
    e.carried = cqe.userData ::ₘ e'.carried ∧ e'.sq = e.sq ∧ e'.sqPoll = e.sqPoll ∧
      e.pc.stopped = false ∧ e'.pc.stopped = false := by
  obtain ⟨sq, inflight, head⟩ := take_entries taken
  have queue : e.inCQ = cqe.userData ::ₘ e'.inCQ :=
    congrArg (fun cqes => Multiset.ofList (List.map CQEvent.userData cqes)) head
  refine ⟨?_, sq, ?_⟩
  · show e.inSQ + e.inKernel + e.inCQ = cqe.userData ::ₘ (e'.inSQ + e'.inKernel + e'.inCQ)
    rw [queue, Multiset.add_cons, inSQ, inSQ, inKernel, inKernel, sq, inflight]
  · unfold take at taken
    split at taken
    · next i here =>
      split at taken
      · cases taken
        exact ⟨rfl, by rw [here]; rfl, rfl⟩
      · cases taken
    · cases taken

/-- **A consumer that was not told to stop can go on**, unless it is at one of its sends
or at its poll for the stop. -/
theorem exists_move (e : Engine) (net : Bool) (active : e.pc.stopped = false) :
    (e.pc = .signal ∨ e.pc = .resignal) ∨ e.pc = .poll ∨
      (∃ c, (e.consumerStep net c).isSome = true) ∨ e.take.isSome = true := by
  cases here : e.pc with
  | signal => exact Or.inl (Or.inl rfl)
  | resignal => exact Or.inl (Or.inr rfl)
  | poll => exact Or.inr (Or.inl rfl)
  | wait params =>
      refine Or.inr (Or.inr (Or.inl ⟨.wait, ?_⟩))
      simp only [consumerStep, here]
      split
      · rfl
      · rfl
  | enter params =>
      refine Or.inr (Or.inr (Or.inl ⟨.entered none, ?_⟩))
      simp only [consumerStep, here]
      split
      · rfl
      · rfl
  | peek =>
      refine Or.inr (Or.inr (Or.inl ⟨.peek, ?_⟩))
      simp only [consumerStep, here]
      split
      · rfl
      · rfl
  | flush => exact Or.inr (Or.inr (Or.inl ⟨.flushed, by simp only [consumerStep, here]; rfl⟩))
  | dispatch i =>
      refine Or.inr (Or.inr ?_)
      by_cases more : i < e.consumer.buff.length
      · refine Or.inr ?_
        have within : i < e.consumer.events.length := by
          rw [Consumer.events, List.length_map]
          exact more
        simp only [take, here]
        split
        · rfl
        · next ended =>
          rw [List.getElem?_eq_getElem within] at ended
          cases ended
      · refine Or.inl ⟨.advance, ?_⟩
        simp only [consumerStep, here, if_neg more]
        rfl
  | closing =>
      rw [here] at active
      cases active
  | returned =>
      rw [here] at active
      cases active

/-- Only the network loop signals a second time. -/
theorem ne_resignal_of_consumerStep {e e' : Engine} {c : ConsumerEvent}
    (stepped : e.consumerStep false c = some e') : e'.pc ≠ .resignal := by
  cases consumerStep_move stepped with
  | goto idle on => exact on.resignal rfl
  | pass idle on => exact on.resignal rfl
  | peekBatch idle on => exact on.resignal rfl
  | advanceCQ done active => rintro ⟨⟩

theorem ne_resignal_of_take {e e' : Engine} {cqe : CQEvent} (taken : e.take = some (cqe, e')) :
    e'.pc ≠ .resignal := by
  unfold take at taken
  split at taken
  · split at taken
    · cases taken
      rintro ⟨⟩
    · cases taken
  · cases taken

/-! ## What the kernel does not see -/

/-- The SQEs queued since the last flush. -/
def unflushed (e : Engine) : List SQEntry := e.sq.pending.drop e.sq.visible.length

theorem mem_inSQ_of_unflushed {e : Engine} {sqe : SQEntry} (mem : sqe ∈ e.unflushed) :
    sqe.userData ∈ e.inSQ :=
  Multiset.mem_coe.mpr (List.mem_map_of_mem (List.mem_of_mem_drop mem))

/-- Queueing adds to what the kernel does not see. -/
theorem unflushed_withSQ_append {e : Engine} {sq : SubmissionQueue} {sqe : SQEntry}
    (pending : sq.pending = e.sq.pending ++ [sqe]) (visible : sq.visible = e.sq.visible) :
    (e.withSQ sq).unflushed = e.unflushed ++ [sqe] := by
  show sq.pending.drop sq.visible.length = e.sq.pending.drop e.sq.visible.length ++ [sqe]
  rw [pending, visible, List.drop_append_of_le_length e.sq.visible_isPrefix.length_le]

/-- From `e` to `e'` nothing was queued and nothing was flushed. -/
structure Undisturbed (e e' : Engine) : Prop where
  thread : e'.sqPoll = e.sqPoll
  unflushed : e'.unflushed = e.unflushed
  pending : e.sqPoll = false → e'.sq.pending = e.sq.pending
  carried : e'.carried ≤ e.carried

theorem Undisturbed.of_sq {e e' : Engine} (sq : e'.sq = e.sq) (thread : e'.sqPoll = e.sqPoll)
    (carried : e'.carried ≤ e.carried) : e.Undisturbed e' where
  thread := thread
  unflushed := by rw [Engine.unflushed, sq]; rfl
  pending := fun _ => by rw [sq]
  carried := carried

theorem consumerStep_undisturbed {net : Bool} {e e' : Engine} {c : ConsumerEvent}
    (stepped : e.consumerStep net c = some e') : e.Undisturbed e' := by
  obtain ⟨carried, sq, thread, -, -⟩ := consumerStep_spec stepped
  exact .of_sq sq thread carried.le

theorem take_undisturbed {e e' : Engine} {cqe : CQEvent} (taken : e.take = some (cqe, e')) :
    e.Undisturbed e' := by
  obtain ⟨carried, sq, thread, -, -⟩ := take_spec taken
  refine .of_sq sq thread ?_
  rw [carried]
  exact Multiset.le_cons_self _ _

/-- What the kernel reads was visible. -/
theorem kernelStep_undisturbed {e e' : Engine} {k : KernelEvent}
    (stepped : e.kernelStep k = some e') : e.Undisturbed e' := by
  obtain ⟨carried, -, thread, -, read, pending, visible, idle⟩ := kernelStep_spec stepped
  refine ⟨thread, ?_, ?_, carried.le⟩
  · rw [unflushed, unflushed, pending, visible, List.length_append, List.drop_append]
    simp
  · intro none
    rw [pending, idle none, List.nil_append]

end Engine

end GoUring.Reactor
