import GoUring.Net.Conn
import GoUring.Reactor.EventDeadline
import GoUring.Reactor.NetCancel

/-!
# Deadlines and no deadline

`QueueWithDeadline` of either reactor looks whether the deadline is the zero time, which
stands for no deadline, and otherwise hands `time.Until(deadline)` down as a
`time.Duration`.  Further down a duration of zero stands for no deadline: `Queue` of a
generic loop and the publisher of a network loop queue such a request alone, and a
request with any other duration, be it negative, with a link timeout behind it.

A duration of zero is also what is left of a deadline that is reached at the reading of
the clock.  So the two are told apart exactly if the deadline is not that reading
(`tellsApart_iff`).  With room for two the two reactors do the same
(`queueSQEs_eq_queueRequest`), and `NetLoop.queueRequest_placed` says what.
-/

namespace GoUring.Net

open Uring Reactor

/-! ## Times -/

/-- What the two clocks show: nanoseconds since the zero time, and since the start of the
process. -/
structure Clock where
  wall : ℤ
  mono : ℤ

/-- A `time.Time`: the wall clock, and the monotonic reading of a time that comes from
`time.Now`. -/
structure Time where
  wall : ℤ
  mono : Option ℤ

namespace Time

/-- `Time.IsZero`. -/
def IsZero (t : Time) : Prop := t.wall = 0

instance (t : Time) : Decidable t.IsZero := inferInstanceAs (Decidable (t.wall = 0))

/-- `time.Until(t)`: only the monotonic clock counts if `t` has a reading of it. -/
def remaining (t : Time) (now : Clock) : Int64 :=
  match t.mono with
  | some mono => timeUntil mono now.mono
  | none => timeUntil t.wall now.wall

/-- The clock that `time.Until` looks at shows just `t`. -/
def IsNow (t : Time) (now : Clock) : Prop :=
  match t.mono with
  | some mono => mono = now.mono
  | none => t.wall = now.wall

end Time

/-- Only the time that is reached now is no time away: `time.Until` saturates, it does not
wrap around. -/
theorem timeUntil_eq_zero_iff (t now : ℤ) : timeUntil t now = 0 ↔ t = now := by
  rw [← Int64.toInt_inj, toInt_timeUntil]
  show max (-2 ^ 63) (min (2 ^ 63 - 1) (t - now)) = 0 ↔ t = now
  omega

theorem Time.remaining_eq_zero_iff (t : Time) (now : Clock) :
    t.remaining now = 0 ↔ t.IsNow now := by
  obtain ⟨wall, _ | mono⟩ := t
  · exact timeUntil_eq_zero_iff wall now.wall
  · exact timeUntil_eq_zero_iff mono now.mono

/-- The timeout `QueueWithDeadline` passes to `queue`, in either reactor. -/
def deadlineTimeout (deadline : Time) (now : Clock) : Int64 :=
  if deadline.IsZero then 0 else deadline.remaining now

/-- The request of `Reactor.QueueWithDeadline(op, cb, deadline)`. -/
def deadlineRequest (op : Operation) (deadline : Time) (now : Clock) (nonce : UInt64)
    (small : nonce < cancelNonce) (draw : ℕ) : SubSqeRequest :=
  (Job.queue op (deadlineTimeout deadline now) nonce small draw).req

/-- The request of `NetworkReactor.QueueWithDeadline(op, cb, deadline)`. -/
def netDeadlineRequest (op : NetOperation) (deadline : Time) (now : Clock) (nonce : UInt32)
    (serial : ℕ) : SubSqeRequest :=
  (op.ticket nonce serial).request op.op (deadlineTimeout deadline now)

/-! ## What a request comes to in the submission queue -/

/-- One SQE, not linked to the next: the operation. -/
def Alone (req : SubSqeRequest) (sqes : List SQEntry) : Prop :=
  ∃ old sqe, req.op.encode 0 req.userData old = some sqe ∧ sqes = [sqe]

/-- The operation with `SqeIOLinkFlag`, and the link timeout right behind it. -/
def WithTimeout (req : SubSqeRequest) (sqes : List SQEntry) : Prop :=
  ∃ old sqe timeout, req.op.encode sqeIOLinkFlag req.userData old = some sqe ∧
    IsLinkTimeout timeout ∧ sqes = [sqe, timeout]

/-- A deadline has a link timeout, and exactly no deadline has none. -/
def TellsApart (deadline : Time) (req : SubSqeRequest) (sqes : List SQEntry) : Prop :=
  (¬ deadline.IsZero → WithTimeout req sqes) ∧ (Alone req sqes ↔ deadline.IsZero)

/-- A request goes in alone if its timeout is zero, and with its link timeout if not. -/
structure FollowsTimeout (req : SubSqeRequest) (sqes : List SQEntry) : Prop where
  alone : req.timeout = 0 → Alone req sqes
  linked : req.timeout ≠ 0 → WithTimeout req sqes

theorem WithTimeout.not_alone {req : SubSqeRequest} {sqes : List SQEntry}
    (linked : WithTimeout req sqes) : ¬ Alone req sqes := by
  obtain ⟨-, sqe, timeout, -, -, rfl⟩ := linked
  rintro ⟨-, sqe', -, same⟩
  cases same

/-- **Where zero means two things.**  Following the timeout tells a deadline from none
exactly if the deadline is not the reading of the clock. -/
theorem tellsApart_iff {req : SubSqeRequest} {sqes : List SQEntry} {deadline : Time}
    {now : Clock} (timeout : req.timeout = deadlineTimeout deadline now)
    (follows : FollowsTimeout req sqes) :
    TellsApart deadline req sqes ↔ (deadline.IsZero ∨ ¬ deadline.IsNow now) := by
  rw [deadlineTimeout] at timeout
  by_cases zero : deadline.IsZero
  · rw [if_pos zero] at timeout
    have alone := follows.alone timeout
    exact ⟨fun _ => Or.inl zero, fun _ => ⟨fun set => absurd zero set, fun _ => zero,
      fun _ => alone⟩⟩
  · rw [if_neg zero] at timeout
    by_cases reached : deadline.IsNow now
    · -- Nothing is left of the deadline, and it is taken for none.
      have alone := follows.alone (timeout.trans ((deadline.remaining_eq_zero_iff now).mpr reached))
      exact ⟨fun apart => absurd (apart.2.mp alone) zero,
        fun either => absurd reached (either.resolve_left zero)⟩
    · have linked : WithTimeout req sqes := follows.linked fun none =>
        reached ((deadline.remaining_eq_zero_iff now).mp (timeout.symm.trans none))
      exact ⟨fun _ => Or.inr reached, fun _ => ⟨fun _ => linked,
        fun alone => absurd alone linked.not_alone, fun set => absurd set zero⟩⟩

end GoUring.Net

namespace GoUring.Reactor

open Uring Net

/-! ## One `QueueSQE` -/

namespace Engine

variable {e e' : Engine} {op : Operation} {flags : UInt8} {userData : UInt64}

/-- At least two slots of the submission queue are free. -/
def RoomForTwo (e : Engine) : Prop := e.sq.pending.length + 2 ≤ e.sq.entries

/-- `PrepSQE` does not panic in the slot that comes next. -/
def Prepares (e : Engine) (op : Operation) : Prop :=
  op.prepSQE (e.sq.sq.sqeBuff (e.sq.sq.sqeAddr e.sq.sq.sqeTail)) ≠ none

/-- With a free slot, only a panic of `PrepSQE` keeps `QueueSQE` from returning. -/
theorem queueSQE_eq_none_iff (room : e.sq.pending.length < e.sq.entries) :
    e.queueSQE op flags userData = none ↔ ¬ e.Prepares op := by
  have slot := e.sq.wf.queueSQE_of_room ((SQ.length_pending e.sq.sq).symm.trans_lt room) op flags
    userData
  have raw : e.sq.queueSQE op flags userData = none ↔
      e.sq.sq.queueSQE op flags userData = none := by
    unfold SubmissionQueue.queueSQE
    split <;> simp_all
  rw [queueSQE, Option.map_eq_none_iff, raw, slot, Option.map_eq_none_iff, Operation.encode,
    Option.map_eq_none_iff, Prepares, not_not]

/-- The link timeout finds its slot if the operation found one of two. -/
theorem queueSQE_linkTimeout (e : Engine) (spec : UInt64)
    (room : e.sq.pending.length < e.sq.entries) :
    ∃ e', e.queueSQE (linkTimeoutOp spec) 0 timeoutNonce = some (none, e') := by
  cases queued : e.queueSQE (linkTimeoutOp spec) 0 timeoutNonce with
  | none => exact absurd (Option.some_ne_none _) ((queueSQE_eq_none_iff room).mp queued)
  | some result =>
      obtain ⟨err, e'⟩ := result
      rcases queueSQE_encoded queued with ⟨full, -, -⟩ | ⟨-, rfl, -⟩
      · exact absurd full room.ne
      · exact ⟨e', rfl⟩

end Engine

/-! ## The publisher of a network loop -/

namespace NetLoop

variable {e e' : Engine} {req : SubSqeRequest} {spec : UInt64} {reads : ℕ}
  {err : Option RingError}

/-- **What the publisher makes of a request with room for two**: no error, and SQEs that
follow the timeout, behind all that was queued; `read` is what the SQ thread has read in
the meantime. -/
theorem queueRequest_placed (two : e.RoomForTwo) (plain : req.flags = 0)
    (done : queueRequest e req spec reads = some (err, e')) :
    err = none ∧ FollowsTimeout req (queuedSQEs e req spec reads) ∧
      ∃ read, read.length = (if req.timeout = 0 then 0 else reads) ∧
        e.sq.pending ++ queuedSQEs e req spec reads = read ++ e'.sq.pending := by
  rw [Engine.RoomForTwo] at two
  rw [queueRequest, plain] at done
  rw [queuedSQEs, plain]
  split at done
  · next untimed =>
    rcases Engine.queueSQE_encoded done with
      ⟨full, -, -⟩ | ⟨-, rfl, old, sqe, encoded, pending, -⟩
    · omega
    · rw [if_pos untimed, if_pos untimed, Engine.queuedSQE_of_pending done pending]
      exact ⟨rfl, ⟨fun _ => ⟨old, sqe, encoded, rfl⟩, fun timed => absurd untimed timed⟩,
        [], rfl, pending.symm⟩
  · next timed =>
    obtain ⟨⟨first, mid⟩, op, rest⟩ := Option.bind_eq_some_iff.mp done
    rcases Engine.queueSQE_encoded op with
      ⟨full, -, -⟩ | ⟨-, rfl, old, sqe, encoded, pending, entries⟩
    · omega
    · obtain ⟨last, reading, link⟩ := Option.bind_eq_some_iff.mp rest
      obtain ⟨-, -, -, entries', read, length, front⟩ := Engine.threadReads_spec reads reading
      have shorter := congrArg List.length (pending.symm.trans front)
      rw [List.length_append, List.length_singleton, List.length_append] at shorter
      rcases Engine.queueSQE_encoded link with
        ⟨full, -, -⟩ | ⟨-, rfl, old', timeout, encoded', pending', -⟩
      · omega
      · rw [if_neg timed, if_neg timed, Engine.queuedSQE_of_pending op pending]
        simp only [op, reading, Option.map_some, Option.getD_some,
          Engine.queuedSQE_of_pending link pending']
        refine ⟨trivial, ⟨fun untimed => absurd untimed timed, fun _ => ⟨old, sqe, timeout,
          encoded, (isLinkTimeout_of_encode encoded').1, rfl⟩⟩, read, length, ?_⟩
        rw [pending', ← List.append_assoc, ← List.append_assoc, ← pending, front]

/-- The publisher gets through a request whose operation it can prepare. -/
theorem queueRequest_zero_ne_none (req : SubSqeRequest) (spec : UInt64)
    (two : e.RoomForTwo) :
    queueRequest e req spec 0 ≠ none ↔ e.Prepares req.op := by
  rw [Engine.RoomForTwo] at two
  have room : e.sq.pending.length < e.sq.entries := by omega
  rw [queueRequest]
  split
  · rw [Ne, Engine.queueSQE_eq_none_iff room, not_not]
  · cases op : e.queueSQE req.op (req.flags ||| sqeIOLinkFlag) req.userData with
    | none =>
        have panics := (Engine.queueSQE_eq_none_iff room).mp op
        exact ⟨fun returns => absurd rfl returns, fun prepares => absurd prepares panics⟩
    | some result =>
        obtain ⟨first, mid⟩ := result
        have prepares : e.Prepares req.op := by
          by_contra panics
          rw [(Engine.queueSQE_eq_none_iff room).mpr panics] at op
          cases op
        refine ⟨fun _ => prepares, fun _ => ?_⟩
        rcases Engine.queueSQE_encoded op with
          ⟨full, -, -⟩ | ⟨-, rfl, old, sqe, encoded, pending, entries⟩
        · omega
        · obtain ⟨last, link⟩ := mid.queueSQE_linkTimeout spec (by
            rw [pending, List.length_append, List.length_singleton, entries]
            omega)
          show mid.queueSQE (linkTimeoutOp spec) 0 timeoutNonce ≠ none
          rw [link]
          exact Option.some_ne_none _

/-- The request gets to the submission queue, as SQEs with the property `P` behind all
that was queued, however many SQEs the SQ thread reads in the meantime. -/
def Reaches (e : Engine) (req : SubSqeRequest) (spec : UInt64) (P : List SQEntry → Prop) :
    Prop :=
  queueRequest e req spec 0 ≠ none ∧
    ∀ reads err e', queueRequest e req spec reads = some (err, e') → err = none ∧
      (∃ read, e.sq.pending ++ queuedSQEs e req spec reads = read ++ e'.sq.pending) ∧
      P (queuedSQEs e req spec reads)

theorem reaches_tellsApart_iff {deadline : Time} {now : Clock} (two : e.RoomForTwo)
    (plain : req.flags = 0) (timeout : req.timeout = deadlineTimeout deadline now) :
    Reaches e req spec (TellsApart deadline req) ↔
      e.Prepares req.op ∧ (deadline.IsZero ∨ ¬ deadline.IsNow now) := by
  rw [← queueRequest_zero_ne_none req spec two]
  refine and_congr_right fun returns => ?_
  constructor
  · intro all
    obtain ⟨⟨err, e'⟩, done⟩ := Option.ne_none_iff_exists'.mp returns
    obtain ⟨-, follows, -⟩ := queueRequest_placed two plain done
    exact (tellsApart_iff timeout follows).mp (all 0 err e' done).2.2
  · intro apart reads err e' done
    obtain ⟨none, follows, read, -, front⟩ := queueRequest_placed two plain done
    exact ⟨none, ⟨read, front⟩, (tellsApart_iff timeout follows).mpr apart⟩

end NetLoop

/-! ## `Queue` of a generic loop -/

namespace EventLoop

variable {loop : EventLoop} {req : SubSqeRequest} {spec : UInt64} {reads : ℕ} {cb : Option ℕ}

/-- **With room for two the reactors do the same**: the error that the generic loop
ignores does not occur. -/
theorem queueSQEs_eq_queueRequest {e : Engine} (two : e.RoomForTwo)
    (prepares : e.Prepares req.op) :
    queueSQEs e req spec reads =
      (NetLoop.queueRequest e req spec reads).map fun (err, e) => (.returned err, e) := by
  rw [Engine.RoomForTwo] at two
  have room : e.sq.pending.length < e.sq.entries := by omega
  rw [queueSQEs, queueOp, NetLoop.queueRequest]
  cases op : e.queueSQE req.op (EventReactor.opFlags req) req.userData with
  | none => exact absurd prepares ((Engine.queueSQE_eq_none_iff room).mp op)
  | some result =>
      obtain ⟨first, mid⟩ := result
      rcases Engine.queueSQE_encoded op with
        ⟨full, -, -⟩ | ⟨-, rfl, old, sqe, encoded, pending, entries⟩
      · omega
      · rw [EventReactor.opFlags] at op
        by_cases untimed : req.timeout = 0
        · rw [if_pos untimed] at op ⊢
          rw [op]
          exact if_pos untimed
        · rw [if_neg untimed] at op ⊢
          rw [op]
          show (if req.timeout = 0 then _ else (mid.threadReads reads).bind _) =
            ((mid.threadReads reads).bind _).map _
          rw [if_neg untimed]
          cases thread : mid.threadReads reads with
          | none => rfl
          | some free =>
              obtain ⟨-, -, -, entries', read, length, front⟩ :=
                Engine.threadReads_spec reads thread
              have shorter := congrArg List.length (pending.symm.trans front)
              rw [List.length_append, List.length_singleton, List.length_append] at shorter
              obtain ⟨last, link⟩ := free.queueSQE_linkTimeout spec (by omega)
              show (free.queueSQE (linkTimeoutOp spec) 0 timeoutNonce).map _ =
                (free.queueSQE (linkTimeoutOp spec) 0 timeoutNonce).map _
              rw [link]
              rfl

/-- An operation that panics is not queued, whatever the thread does. -/
theorem queue_of_panic (two : loop.engine.RoomForTwo) (panics : ¬ loop.engine.Prepares req.op) :
    ∃ loop', loop.queue req cb spec reads = some (.panicked, loop') := by
  rw [Engine.RoomForTwo] at two
  have op : loop.engine.queueSQE req.op (EventReactor.opFlags req) req.userData = none :=
    (Engine.queueSQE_eq_none_iff (by omega)).mpr panics
  refine ⟨{ loop.withEngine loop.engine.abandonSQE with needSubmit := 1 }, ?_⟩
  rw [queue, queueSQEs, queueOp, op]
  rfl

/-- `Queue` returns nil, and has queued SQEs with the property `P` behind all that was
queued, however many SQEs the SQ thread reads between two `QueueSQE`. -/
def Reaches (loop : EventLoop) (req : SubSqeRequest) (cb : Option ℕ) (spec : UInt64)
    (P : List SQEntry → Prop) : Prop :=
  loop.queue req cb spec 0 ≠ none ∧
    ∀ reads ends loop', loop.queue req cb spec reads = some (ends, loop') →
      ends = .returned none ∧ ∃ sqes read,
        read.length = (if req.timeout = 0 then 0 else reads) ∧
        loop.engine.sq.pending ++ sqes = read ++ loop'.engine.sq.pending ∧ P sqes

theorem reaches_tellsApart_iff {deadline : Time} {now : Clock}
    (two : loop.engine.RoomForTwo) (plain : req.flags = 0)
    (timeout : req.timeout = deadlineTimeout deadline now) :
    Reaches loop req cb spec (TellsApart deadline req) ↔
      loop.engine.Prepares req.op ∧ (deadline.IsZero ∨ ¬ deadline.IsNow now) := by
  by_cases prepares : loop.engine.Prepares req.op
  · -- What the loop does, the publisher of a network loop would do.
    have placed : ∀ {reads ends loop'}, loop.queue req cb spec reads = some (ends, loop') →
        ends = .returned none ∧ ∃ sqes read, FollowsTimeout req sqes ∧
          read.length = (if req.timeout = 0 then 0 else reads) ∧
          loop.engine.sq.pending ++ sqes = read ++ loop'.engine.sq.pending := by
      intro reads ends loop' queued
      rw [queue, queueSQEs_eq_queueRequest two prepares, Option.map_map] at queued
      obtain ⟨⟨err, e'⟩, done, same⟩ := Option.map_eq_some_iff.mp queued
      obtain ⟨rfl, follows, read, length, front⟩ := NetLoop.queueRequest_placed two plain done
      cases same
      exact ⟨rfl, _, read, follows, length, front⟩
    have returns : loop.queue req cb spec 0 ≠ none := by
      rw [queue, queueSQEs_eq_queueRequest two prepares, Option.map_map, Ne,
        Option.map_eq_none_iff]
      exact (NetLoop.queueRequest_zero_ne_none req spec two).mpr prepares
    refine ⟨fun reaches => ⟨prepares, ?_⟩,
      fun apart => ⟨returns, fun reads ends loop' queued => ?_⟩⟩
    · obtain ⟨⟨ends, loop'⟩, queued⟩ := Option.ne_none_iff_exists'.mp returns
      obtain ⟨-, sqes, read, length, front, apart⟩ := reaches.2 0 ends loop' queued
      obtain ⟨-, sqes', read', follows, length', front'⟩ := placed queued
      -- Nothing was read, and what was appended is what was appended.
      rw [ite_self, List.length_eq_zero_iff] at length length'
      subst length length'
      obtain rfl := List.append_cancel_left (front'.trans front.symm)
      exact (tellsApart_iff timeout follows).mp apart
    · obtain ⟨returned, sqes, read, follows, length, front⟩ := placed queued
      exact ⟨returned, sqes, read, length, front, (tellsApart_iff timeout follows).mpr apart.2⟩
  · refine iff_of_false (fun reaches => ?_) fun holds => prepares holds.1
    have panics : ∃ loop', loop.queue req cb spec 0 = some (.panicked, loop') :=
      queue_of_panic two prepares
    obtain ⟨loop', queued⟩ := panics
    cases (reaches.2 0 _ _ queued).1

end EventLoop

end GoUring.Reactor

namespace GoUring.Net

open Uring Reactor

/-- **When a deadline is told from no deadline.**  With two free slots, in either reactor,
a request of `QueueWithDeadline` gets to the submission queue with a link timeout right
behind it if the deadline is not zero, and alone exactly if it is, if and only if the
operation's `PrepSQE` does not panic and the deadline is zero or not just what the clock
shows. -/
theorem queueWithDeadline_tells_apart_iff (deadline : Time) (now : Clock) (spec : UInt64) :
    (∀ (loop : EventLoop) (op : Operation) (cb : Option ℕ) (nonce : UInt64)
      (small : nonce < cancelNonce) (draw : ℕ), loop.engine.RoomForTwo →
        (loop.Reaches (deadlineRequest op deadline now nonce small draw) cb spec
            (TellsApart deadline (deadlineRequest op deadline now nonce small draw)) ↔
          loop.engine.Prepares op ∧ (deadline.IsZero ∨ ¬ deadline.IsNow now))) ∧
    (∀ (e : Engine) (op : NetOperation) (nonce : UInt32) (serial : ℕ), e.RoomForTwo →
        (NetLoop.Reaches e (netDeadlineRequest op deadline now nonce serial) spec
            (TellsApart deadline (netDeadlineRequest op deadline now nonce serial)) ↔
          e.Prepares op.op ∧ (deadline.IsZero ∨ ¬ deadline.IsNow now))) := by
  constructor
  · intro loop op cb nonce small draw two
    exact EventLoop.reaches_tellsApart_iff two rfl rfl
  · intro e op nonce serial two
    exact NetLoop.reaches_tellsApart_iff two rfl rfl

/-- `Nop` on the descriptor 5. -/
def nopOnFive : NetOperation where
  op := nopOp
  fd := 5
  fd_lt := by decide

/-- A deadline that passed a nanosecond ago, on fresh rings of two slots. -/
theorem queueWithDeadline_tells_apart_iff_past :
    ((EventReactor.start (twoSlots false)).loops 0).Reaches
      (deadlineRequest nopOp ⟨1000, some 41⟩ ⟨1001, 42⟩ 1 (by decide) 1) (some 0) 64
      (TellsApart ⟨1000, some 41⟩
        (deadlineRequest nopOp ⟨1000, some 41⟩ ⟨1001, 42⟩ 1 (by decide) 1)) ∧
    NetLoop.Reaches (Engine.start (twoSlots true 0))
      (netDeadlineRequest nopOnFive ⟨1000, some 41⟩ ⟨1001, 42⟩ 1 0) 64
      (TellsApart ⟨1000, some 41⟩
        (netDeadlineRequest nopOnFive ⟨1000, some 41⟩ ⟨1001, 42⟩ 1 0)) := by
  obtain ⟨generic, network⟩ :=
    queueWithDeadline_tells_apart_iff ⟨1000, some 41⟩ ⟨1001, 42⟩ 64
  have past : ¬ Time.IsNow ⟨1000, some 41⟩ ⟨1001, 42⟩ := by
    show ¬ (41 : ℤ) = 42
    decide
  constructor
  · refine (generic _ nopOp (some 0) 1 _ 1 (by unfold Engine.RoomForTwo; decide)).mpr
      ⟨?_, Or.inr past⟩
    exact Option.some_ne_none _
  · refine (network _ nopOnFive 1 0 (by unfold Engine.RoomForTwo; decide)).mpr ⟨?_, Or.inr past⟩
    exact Option.some_ne_none _

/-- **A deadline that is reached at the reading of the clock.**  On fresh rings of two
slots both reactors queue the operation alone, as if it had no deadline. -/
theorem queueWithDeadline_takes_now_for_never :
    ¬ Time.IsZero ⟨1000, some 42⟩ ∧
    (∃ loop' sqe,
      ((EventReactor.start (twoSlots false)).loops 0).queue
        (deadlineRequest nopOp ⟨1000, some 42⟩ ⟨1001, 42⟩ 1 (by decide) 1) (some 0) 64 0 =
          some (.returned none, loop') ∧
      loop'.engine.sq.pending = [sqe] ∧ ¬ sqe.IsLinked) ∧
    ∃ e' sqe,
      NetLoop.queueRequest (Engine.start (twoSlots true 0))
        (netDeadlineRequest nopOnFive ⟨1000, some 42⟩ ⟨1001, 42⟩ 1 0) 64 0 = some (none, e') ∧
      e'.sq.pending = [sqe] ∧ ¬ sqe.IsLinked := by
  refine ⟨by decide, ⟨_, _, rfl, rfl, by decide⟩, ⟨_, _, rfl, rfl, by decide⟩⟩

end GoUring.Net
