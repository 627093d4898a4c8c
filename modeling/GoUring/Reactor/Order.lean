import GoUring.Reactor.Engine
import GoUring.Reactor.Request

/-!
# The order of what goes through a ring

Both reactors promise their callers an order: requests reach the kernel in the order in which
they are handed to a loop, callbacks run in the order in which the kernel completes.  Here are
the parts of the argument that the two loops share.

`Feeds` is the account of one step on the way to the kernel: what was in the queue, and then
what the step queues, is what the kernel read in the step and then what is in the queue
afterwards.  Such steps compose.

An SQE with `sqeIOLinkFlag` set is linked to whatever stands behind it.  The reactors set the flag
for a request with a timeout only, and mean the link timeout of that request; `Followed` says
that nothing else stands there.
-/

namespace GoUring.Reactor

open Uring

/-! ## The way to the kernel -/

/-- What an SQE is known by. -/
structure Tag where
  flags : UInt8
  userData : UInt64
  deriving DecidableEq, Repr

def Tag.of (sqe : SQEntry) : Tag where
  flags := sqe.flags
  userData := sqe.userData

theorem Tag.of_encode {op : Operation} {flags : UInt8} {userData : UInt64} {old sqe : SQEntry}
    (encoded : op.encode flags userData old = some sqe) :
    Tag.of sqe = { flags := flags, userData := userData } := by
  rw [Tag.of, Operation.encode_flags encoded, Operation.encode_userData encoded]

/-- The link timeout of a request. -/
def Tag.linkTimeout : Tag where
  flags := 0
  userData := timeoutNonce

/-- The SQEs of a request: its operation and, if it has a timeout, the link timeout. -/
def SubSqeRequest.tags (req : SubSqeRequest) : List Tag :=
  if req.timeout = 0 then
    [{ flags := req.flags, userData := req.userData }]
  else
    [{ flags := req.flags ||| sqeIOLinkFlag, userData := req.userData }, Tag.linkTimeout]

theorem SubSqeRequest.tags_ne_nil (req : SubSqeRequest) : req.tags ≠ [] := by
  unfold tags
  split <;> simp

namespace Engine

/-- From `e` to `e'`, `queued` was queued and the kernel read `read`. -/
structure Feeds (e e' : Engine) (queued read : List SQEntry) : Prop where
  inflight : e'.inflight = e.inflight ++ read
  pending : e.sq.pending ++ queued = read ++ e'.sq.pending

variable {e e' e'' : Engine} {queued queued' read read' : List SQEntry}

theorem length_pending_le (e : Engine) : e.sq.pending.length ≤ e.sq.entries := by
  rw [SubmissionQueue.pending, SQ.length_pending]
  exact e.sq.wf.pending_le

theorem Feeds.of_eq (sq : e'.sq = e.sq) (inflight : e'.inflight = e.inflight) :
    e.Feeds e' [] [] where
  inflight := by rw [inflight, List.append_nil]
  pending := by rw [sq, List.append_nil, List.nil_append]

theorem Feeds.trans (first : e.Feeds e' queued read) (second : e'.Feeds e'' queued' read') :
    e.Feeds e'' (queued ++ queued') (read ++ read') where
  inflight := by rw [second.inflight, first.inflight, List.append_assoc]
  pending := by
    rw [← List.append_assoc, first.pending, List.append_assoc, second.pending, List.append_assoc]

theorem Feeds.of_read {sq : SubmissionQueue} (pending : e.sq.pending = read ++ sq.pending) :
    e.Feeds { e.withSQ sq with inflight := e.inflight ++ read } [] read where
  inflight := rfl
  pending := by
    rw [List.append_nil]
    exact pending

theorem feeds_submit {result : EnterResult} {ret : Except RingError ℕ}
    (submitted : e.submit result = some (ret, e')) : ∃ read, e.Feeds e' [] read := by
  obtain ⟨read, sq, -, rfl, pending, -⟩ := submit_spec submitted
  exact ⟨read, .of_read pending⟩

/-- A successful `QueueSQE` queues what the operation encodes. -/
theorem feeds_queueSQE {op : Operation} {flags : UInt8} {userData : UInt64}
    {err : Option RingError} (done : e.queueSQE op flags userData = some (err, e')) :
    (e.sq.pending.length = e.sq.entries ∧ err = some .sqOverflow ∧ e' = e) ∨
      (e.sq.pending.length < e.sq.entries ∧ err = none ∧
        ∃ sqe, Tag.of sqe = { flags := flags, userData := userData } ∧
          e.Feeds e' [sqe] [] ∧ e'.sq.entries = e.sq.entries) := by
  rcases queueSQE_encoded done with full | ⟨room, ok, old, sqe, encoded, pending, entries⟩
  · exact Or.inl full
  · refine Or.inr ⟨room, ok, sqe, Tag.of_encode encoded, ⟨?_, pending.symm⟩, entries⟩
    rcases queueSQE_spec done with ⟨-, -, rfl⟩ | ⟨-, -, -, sq, rfl, -⟩
    · exact (List.append_nil _).symm
    · exact (List.append_nil _).symm

theorem feeds_consume (stepped : e.kernelStep .consume = some e') :
    ∃ sqe, e.Feeds e' [] [sqe] ∧ e'.sq.entries = e.sq.entries := by
  obtain ⟨-, -, -, entries, -⟩ := kernelStep_spec stepped
  simp only [kernelStep] at stepped
  split at stepped
  · obtain ⟨⟨sqe, sq⟩, consumed, rfl⟩ := Option.map_eq_some_iff.mp stepped
    exact ⟨sqe, .of_read (SubmissionQueue.pending_kernelConsume consumed), entries⟩
  · cases stepped

/-- The kernel reads in order; what it completes was read before. -/
theorem feeds_kernelStep {k : KernelEvent} (stepped : e.kernelStep k = some e') :
    ∃ read, e'.inflight.drop e.inflight.length = read ∧
      e.sq.pending = read ++ e'.sq.pending := by
  cases k with
  | consume =>
      obtain ⟨sqe, feeds, -⟩ := feeds_consume stepped
      have pending := feeds.pending
      rw [List.append_nil] at pending
      exact ⟨[sqe], by rw [feeds.inflight, List.drop_left], pending⟩
  | complete i res flags =>
      obtain ⟨sqe, found, done⟩ := Option.bind_eq_some_iff.mp stepped
      obtain ⟨mid, posted, rfl⟩ := Option.map_eq_some_iff.mp done
      obtain ⟨-, -, sq, -, inflight, -⟩ := kernelPost_spec posted
      refine ⟨[], List.drop_eq_nil_of_le ?_, congrArg SubmissionQueue.pending sq.symm⟩
      show (mid.inflight.eraseIdx i).length ≤ e.inflight.length
      rw [inflight]
      exact (List.eraseIdx_sublist _ _).length_le
  | flags flags =>
      cases stepped
      exact ⟨[], List.drop_length, rfl⟩

end Engine

/-! ## Links -/

/-- The SQE is linked to the one behind it. -/
def Tag.Linked (t : Tag) : Prop := t.flags &&& sqeIOLinkFlag ≠ 0

instance (t : Tag) : Decidable t.Linked := inferInstanceAs (Decidable (_ ≠ _))

/-- Behind every linked SQE stands a link timeout. -/
def Followed (tags : List Tag) : Prop :=
  tags.IsChain (fun t next => t.Linked → next = Tag.linkTimeout) ∧
    ∀ t ∈ tags.getLast?, ¬ t.Linked

theorem followed_nil : Followed [] := ⟨.nil, fun t mem => by cases mem⟩

theorem Followed.append {tags tags' : List Tag} (first : Followed tags)
    (second : Followed tags') : Followed (tags ++ tags') := by
  refine ⟨List.isChain_append.mpr ⟨first.1, second.1, ?_⟩, ?_⟩
  · intro t last next _ linked
    exact absurd linked (first.2 t last)
  · intro t last
    rw [List.getLast?_append] at last
    rcases Option.or_eq_some_iff.mp last with here | ⟨-, here⟩
    · exact second.2 t here
    · exact first.2 t here

theorem Followed.of_append {tags tags' : List Tag} (whole : Followed (tags ++ tags')) :
    Followed tags' := by
  refine ⟨whole.1.right_of_append, fun t last => whole.2 t ?_⟩
  rw [List.getLast?_append, last]
  rfl

theorem not_linked_linkTimeout : ¬ Tag.linkTimeout.Linked := by decide

/-- A request whose own flags ask for no link. -/
theorem SubSqeRequest.followed_tags {req : SubSqeRequest} (plain : req.flags = 0) :
    Followed req.tags := by
  unfold tags
  split
  · refine ⟨.singleton _, fun t last => ?_⟩
    cases last
    refine not_not_intro ?_
    show req.flags &&& sqeIOLinkFlag = 0
    rw [plain]
    rfl
  · refine ⟨List.isChain_cons.mpr ⟨fun t here _ => ?_, .singleton _⟩, fun t last => ?_⟩
    · cases here
      rfl
    · cases last
      exact not_linked_linkTimeout

end GoUring.Reactor
