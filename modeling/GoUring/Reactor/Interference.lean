import GoUring.Reactor.Engine
import GoUring.Uring.TwoSides

/-!
# Publisher and consumer of a ring do not interfere

`runPublisher` and `runConsumer` of a loop share one ring without a lock.  That this is safe rests
on `checkRingReq` (`reactor/requirements.go`).  On a ring it accepts, every interleaving of the
two sides and the kernel leaves the submission queue that the publisher alone would leave, and
the completion queue that the consumer alone would leave (`Sides.NoInterference`).  On a ring it
refuses for want of the ext-arg feature, a timed wait writes the submission queue itself
(`Sides.timedWaitWrites`): it takes a slot, submitting first if there is none, and flushes.
-/

namespace GoUring.Uring

open CounterRing

namespace Sides

/-- What one side leaves behind after the run `p` that ends in `s` does not depend on the other
side. -/
structure NoInterference (r : Ring) (p : List (Sides × SideEvent)) (s : Sides) : Prop where
  /-- The submission queue is that of the run without the consumer. -/
  sq : ∃ q t, Runs.Path step (start r) q t ∧
    q.map Prod.snd = (p.map Prod.snd).filter (fun e => !e.ofConsumer) ∧ t.sq = s.sq
  /-- The completion queue is that of the run without the publisher. -/
  cq : ∃ q t, Runs.Path step (start r) q t ∧
    q.map Prod.snd = (p.map Prod.snd).filter (fun e => !e.ofPublisher) ∧ t.cq = s.cq
  /-- The consumer asks for nothing to be submitted. -/
  asks : ∀ x ∈ p, ∀ args, x.1.asks x.2 = some args →
    args.toSubmit = 0 ∧ args.flags &&& sysRingEnterSQWakeup = 0

theorem noInterference_of_path {r : Ring} (extArg : r.params.extArgFeature = true)
    {p : List (Sides × SideEvent)} {s : Sides} (path : Runs.Path step (start r) p s) :
    NoInterference r p s where
  sq := by
    obtain ⟨q, t, run, events, same⟩ := samePublisher_of_path extArg path
    exact ⟨q, t, run, events, same.sq⟩
  cq := by
    obtain ⟨q, t, run, events, same⟩ := sameConsumer_of_path extArg path
    exact ⟨q, t, run, events, same.cq⟩
  asks := submitsNothing_of_path extArg path

/-! ## The timed wait without the ext-arg feature -/

/-- There is a run from `s` to `t` in which the publisher does nothing. -/
def Reaches (s t : Sides) : Prop :=
  ∃ p, Runs.Path step s p t ∧ ∀ x ∈ p, x.2.ofPublisher = false

theorem Reaches.refl (s : Sides) : Reaches s s := ⟨[], .nil, by simp⟩

theorem Reaches.next {s t t' : Sides} (reached : Reaches s t) (e : SideEvent)
    (idle : e.ofPublisher = false) (stepped : t.step e = some t') : Reaches s t' := by
  obtain ⟨p, run, others⟩ := reached
  refine ⟨p ++ [(t, e)], .snoc run stepped, fun x mem => ?_⟩
  rcases List.mem_append.mp mem with earlier | last
  · exact others x earlier
  · obtain rfl := List.mem_singleton.mp last
    exact idle

/-- The wait for `cnt` completions is at `NextSQE` and will find a slot; the queue is as in `r`
but for what was flushed and read. -/
structure Reserving (r : Ring) (cnt : UInt32) (spec : UInt64) (t : Sides) : Prop where
  consumer : ∃ again, t.consumer = .reserve cnt spec again
  wf : t.sq.WF
  room : gap t.sq.kHead t.sq.sqeTail < t.sq.kRingEntries.toNat
  sqeTail : t.sq.sqeTail = r.sqRing.sq.sqeTail
  kRingMask : t.sq.kRingMask = r.sqRing.sq.kRingMask
  sqeBuff : t.sq.sqeBuff = r.sqRing.sq.sqeBuff

/-- The wait for `cnt` completions has put a timeout of its own into the next slot and made it
visible. -/
structure WroteTimeout (r : Ring) (cnt : UInt32) (spec : UInt64) (s : Sides) : Prop where
  consumer : s.consumer = .loading cnt s.sq.kTail
  sqeTail : s.sq.sqeTail = r.sqRing.sq.sqeTail + 1
  kTail : s.sq.kTail = r.sqRing.sq.sqeTail + 1
  slot : ∃ sqe, (timeoutOp spec).prepSQE
      (r.sqRing.sq.sqeBuff (r.sqRing.sq.sqeAddr r.sqRing.sq.sqeTail)) = some sqe ∧
    s.sq.sqeBuff (r.sqRing.sq.sqeAddr r.sqRing.sq.sqeTail) = sqe.setUserData libUserDataTimeout

section

variable {r : Ring} {cnt : UInt32} {spec : UInt64}

/-- From `NextSQE` on: the slot, its contents, the flush. -/
theorem Reserving.wroteTimeout {s₀ t : Sides} (reserving : Reserving r cnt spec t)
    (reached : Reaches s₀ t) : ∃ s, Reaches s₀ s ∧ WroteTimeout r cnt spec s := by
  obtain ⟨⟨again, pc⟩, wf, room, sqeTail, kRingMask, sqeBuff⟩ := reserving
  have addr : t.sq.sqeAddr t.sq.sqeTail = r.sqRing.sq.sqeAddr r.sqRing.sq.sqeTail := by
    rw [SQ.sqeAddr, SQ.sqeAddr, sqeTail, kRingMask]
  obtain ⟨sqe, prepared⟩ : ∃ sqe, (timeoutOp spec).prepSQE
      (t.sq.sqeBuff (t.sq.sqeAddr t.sq.sqeTail)) = some sqe := ⟨_, rfl⟩
  let pushed := t.sq.pushSQE (sqe.setUserData libUserDataTimeout)
  have reserved : t.step (.consumer (.next (.consumed 0))) = some
      { t with
        sq := { t.sq with sqeTail := t.sq.sqeTail + 1 }
        consumer := .preparing cnt spec ((t.sq.sqeTail &&& t.sq.kRingMask) * sizeofSQEntry) } := by
    simp only [step, pc, consumerStep, consumerNext, wf.nextSQE_of_room room, Option.map_some]
  have written : Sides.step
      { t with
        sq := { t.sq with sqeTail := t.sq.sqeTail + 1 }
        consumer := .preparing cnt spec ((t.sq.sqeTail &&& t.sq.kRingMask) * sizeofSQEntry) }
      (.consumer (.next (.consumed 0))) =
      some { t with sq := pushed, consumer := .flushing cnt } := by
    have here : (timeoutOp spec).prepSQE
        (t.sq.sqeBuff ((t.sq.sqeTail &&& t.sq.kRingMask) * sizeofSQEntry).toNat) = some sqe :=
      prepared
    simp only [step, consumerStep, consumerNext, here, Option.map_some]
    rfl
  obtain ⟨array, flushed, -⟩ := (wf.pushSQE room (sqe.setUserData libUserDataTimeout)).flushSQ_eq
  refine ⟨{ t with sq := pushed.flushSQ.2, consumer := .loading cnt pushed.flushSQ.2.kTail },
    ((reached.next _ rfl reserved).next _ rfl written).next (.consumer (.next (.consumed 0)))
      rfl rfl, rfl, ?_, ?_, sqe, ?_, ?_⟩
  · show pushed.flushSQ.2.sqeTail = _
    rw [flushed, ← sqeTail]
    rfl
  · show pushed.flushSQ.2.kTail = _
    rw [flushed, ← sqeTail]
    rfl
  · rw [← addr, ← sqeBuff]
    exact prepared
  · show pushed.flushSQ.2.sqeBuff _ = _
    rw [flushed, ← addr]
    exact Function.update_self _ _ _

/-- With a free slot the wait is at `NextSQE` at once. -/
theorem reserving_of_room (noExtArg : r.params.extArgFeature = false)
    (room : gap r.sqRing.sq.kHead r.sqRing.sq.sqeTail < r.sqRing.sq.kRingEntries.toNat) :
    ∃ t, Reaches (start r) t ∧ Reserving r cnt spec t := by
  have called : (start r).step (.consumer (.wait cnt spec)) =
      some { start r with consumer := .reserve cnt spec false } := by
    simp only [start, step, consumerStep, noExtArg, Bool.false_eq_true, if_false, Option.map_some]
  exact ⟨_, (Reaches.refl _).next _ rfl called, ⟨false, rfl⟩, r.sqRing.wf, room, rfl, rfl, rfl⟩

/-- The submission queue of `r` after the kernel has cleared the flags and a flush. -/
def flushedQueue (r : Ring) : SubmissionQueue := (r.sqRing.kernelFlags 0).flushSQ.2

theorem exists_flushedQueue_eq (r : Ring) : ∃ array, (flushedQueue r).sq =
    { r.sqRing.sq with
      kFlags := 0
      kTail := r.sqRing.sq.sqeTail
      sqeHead := r.sqRing.sq.sqeTail
      kArray := array } := by
  obtain ⟨array, flushed, -⟩ := (r.sqRing.kernelFlags 0).wf.flushSQ_eq
  exact ⟨array, congrArg Prod.snd flushed⟩

/-- On a full ring the wait goes to `Submit`, which flushes. -/
theorem reaches_stored (cnt : UInt32) (spec : UInt64) (noExtArg : r.params.extArgFeature = false)
    (full : gap r.sqRing.sq.kHead r.sqRing.sq.sqeTail = r.sqRing.sq.kRingEntries.toNat) :
    Reaches (start r)
      { start r with
        sq := (flushedQueue r).sq
        consumer := .submitting cnt spec (.stored (flushedQueue r).sq.kTail) } := by
  let cleared := r.sqRing.kernelFlags 0
  have quiet : (start r).step (.kernel (.flags 0)) = some { start r with sq := cleared.sq } := rfl
  have called : Sides.step { start r with sq := cleared.sq } (.consumer (.wait cnt spec)) =
      some { start r with sq := cleared.sq, consumer := .reserve cnt spec false } := by
    simp only [start, step, consumerStep, noExtArg, Bool.false_eq_true, if_false, Option.map_some]
  have overflowed : Sides.step
      { start r with sq := cleared.sq, consumer := .reserve cnt spec false }
      (.consumer (.next (.consumed 0))) =
      some { start r with sq := cleared.sq, consumer := .submitting cnt spec .called } := by
    simp only [step, consumerStep, consumerNext, cleared.wf.nextSQE_of_full full,
      Bool.false_eq_true, if_false, Option.map_some]
  exact ((((Reaches.refl _).next _ rfl quiet).next _ rfl called).next _ rfl overflowed).next
    (.consumer (.next (.consumed 0))) rfl rfl

/-- The kernel can read an SQE then. -/
theorem kernelConsume_flushedQueue
    (full : gap r.sqRing.sq.kHead r.sqRing.sq.sqeTail = r.sqRing.sq.kRingEntries.toNat) :
    1 ≤ ((flushedQueue r).sq.kTail - (flushedQueue r).sq.kHead).toNat ∧
      ∃ sqe, (flushedQueue r).sq.kernelConsume =
        some (sqe, { (flushedQueue r).sq with kHead := (flushedQueue r).sq.kHead + 1 }) := by
  obtain ⟨array, eq⟩ := exists_flushedQueue_eq r
  have count : 1 ≤ ((flushedQueue r).sq.kTail - (flushedQueue r).sq.kHead).toNat := by
    rw [eq]
    change 1 ≤ gap r.sqRing.sq.kHead r.sqRing.sq.sqeTail
    rw [full]
    exact r.sqRing.wf.sized.pos
  refine ⟨count, _, if_neg fun same => ?_⟩
  rw [same, UInt32.sub_self] at count
  exact absurd count (by decide)

/-- With an SQE read there is a free slot. -/
theorem reserving_of_read {sqe : SQEntry}
    (read : (flushedQueue r).sq.kernelConsume =
      some (sqe, { (flushedQueue r).sq with kHead := (flushedQueue r).sq.kHead + 1 }))
    {t : Sides}
    (here : t.sq = { (flushedQueue r).sq with kHead := (flushedQueue r).sq.kHead + 1 })
    (pc : t.consumer = .reserve cnt spec true) : Reserving r cnt spec t := by
  obtain ⟨wf, pending, -⟩ := (flushedQueue r).wf.kernelConsume_spec read
  have le := (flushedQueue r).wf.pending_le
  have shorter := congrArg List.length pending
  rw [SQ.length_pending, List.length_cons, SQ.length_pending] at shorter
  obtain ⟨array, eq⟩ := exists_flushedQueue_eq r
  refine ⟨⟨true, pc⟩, here ▸ wf, ?_, ?_, ?_, ?_⟩
  · rw [here]
    exact Nat.lt_of_lt_of_le (shorter ▸ Nat.lt_succ_self _) le
  · rw [here, eq]
  · rw [here, eq]
  · rw [here, eq]

/-- The `Submit` of the wait goes on. -/
theorem step_submitting {s : Sides} {sq : SQ} {stage stage' : SubmitStage} (result : EnterResult)
    (pc : s.consumer = .submitting cnt spec stage)
    (next : s.sq.submitNext s.params result stage = some (sq, .inl stage')) :
    s.step (.consumer (.next result)) =
      some { s with sq := sq, consumer := .submitting cnt spec stage' } := by
  simp only [step, pc, consumerStep, consumerNext, next, Option.map_some]

/-- The `Submit` of the wait returns, and the wait tries again. -/
theorem step_submitted {s : Sides} {sq : SQ} {stage : SubmitStage} {n : ℕ} (result : EnterResult)
    (pc : s.consumer = .submitting cnt spec stage)
    (next : s.sq.submitNext s.params result stage = some (sq, .inr (.ok n))) :
    s.step (.consumer (.next result)) =
      some { s with sq := sq, consumer := .reserve cnt spec true } := by
  simp only [step, pc, consumerStep, consumerNext, next, Option.map_some]

/-- On a full ring the wait submits first.  On a ring without an SQ thread the kernel reads an SQE
in the `io_uring_enter`; on one with a thread this reads it after the flush, and with the flags
cleared there is no `io_uring_enter`. -/
theorem reserving_of_full (noExtArg : r.params.extArgFeature = false)
    (full : gap r.sqRing.sq.kHead r.sqRing.sq.sqeTail = r.sqRing.sq.kRingEntries.toNat) :
    ∃ t, Reaches (start r) t ∧ Reserving r cnt spec t := by
  have stored := reaches_stored cnt spec noExtArg full
  obtain ⟨count, sqe, read⟩ := kernelConsume_flushedQueue full
  cases thread : r.params.sqPoll with
  | false =>
      have loaded := stored.next _ rfl (step_submitting (.consumed 0) rfl rfl)
      obtain ⟨args, submits, asked⟩ := SQ.submitNext_loaded_of_noThread (s := (flushedQueue r).sq)
        thread ((flushedQueue r).sq.kTail - (flushedQueue r).sq.kHead)
      have entering := loaded.next _ rfl (step_submitting (.consumed 0) rfl (asked _))
      have answered := SQ.submitNext_entering_of_read thread (submits ▸ count) read
      exact ⟨_, entering.next _ rfl (step_submitted _ rfl answered),
        reserving_of_read read rfl rfl⟩
  | true =>
      let after : SQ := { (flushedQueue r).sq with kHead := (flushedQueue r).sq.kHead + 1 }
      have awake : after.kFlags = 0 := by
        obtain ⟨array, eq⟩ := exists_flushedQueue_eq r
        show (flushedQueue r).sq.kFlags = 0
        rw [eq]
      have consumed : Sides.step
          { start r with
            sq := (flushedQueue r).sq
            consumer := .submitting cnt spec (.stored (flushedQueue r).sq.kTail) }
          (.kernel .thread) =
          some { start r with
            sq := after
            consumer := .submitting cnt spec (.stored (flushedQueue r).sq.kTail) } := by
        simp only [start, step, SQ.afterKernel, thread, if_true, read]
        rfl
      have loaded := (stored.next _ rfl consumed).next _ rfl
        (step_submitting (.consumed 0) rfl rfl)
      have returned := loaded.next _ rfl
        (step_submitted (.consumed 0) rfl (SQ.submitNext_loaded_of_awake thread awake _))
      exact ⟨_, returned, reserving_of_read read rfl rfl⟩

/-- **A timed wait without the ext-arg feature writes the submission queue.** -/
theorem timedWaitWrites (noExtArg : r.params.extArgFeature = false) (cnt : UInt32)
    (spec : UInt64) : ∃ s, Reaches (start r) s ∧ WroteTimeout r cnt spec s := by
  obtain ⟨t, reached, reserving⟩ : ∃ t, Reaches (start r) t ∧ Reserving r cnt spec t := by
    rcases r.sqRing.wf.pending_le.lt_or_eq with room | full
    · exact reserving_of_room noExtArg room
    · exact reserving_of_full noExtArg full
  exact reserving.wroteTimeout reached

end

end Sides

end GoUring.Uring

namespace GoUring.Reactor

open Uring

/-- **Publisher and consumer do not interfere** on a ring that `checkRingReq` accepts.  A ring
without the ext-arg feature it refuses, and there a timed wait, for any number of completions,
can write the submission queue with no step of the publisher. -/
theorem publisher_and_consumer_apart (r : Ring) (net : Bool) :
    (checkRingReq r net = .ok () → ∀ p s, Runs.Path Sides.step (Sides.start r) p s →
      Sides.NoInterference r p s) ∧
    (r.params.extArgFeature = false → checkRingReq r net = .error .extArg ∧
      ∀ (cnt : UInt32) (spec : UInt64),
        ∃ s, Sides.Reaches (Sides.start r) s ∧ Sides.WroteTimeout r cnt spec s) := by
  constructor
  · intro accepted p s path
    exact Sides.noInterference_of_path (extArg_of_checkRingReq accepted) path
  · intro noExtArg
    refine ⟨?_, fun cnt spec => Sides.timedWaitWrites noExtArg cnt spec⟩
    simp only [checkRingReq, noExtArg, Bool.not_false, if_true]

/-- A ring as reactors get it, with two slots. -/
def talkRing : Ring := (twoSlots false 0).ring

/-- The same ring on a kernel without the features. -/
def oldRing : Ring := { talkRing with params := { flags := 0, features := 0 } }

/-- Both sides of a ring at work: an operation is queued and submitted while the consumer is in
its wait, and is completed, found and taken off. -/
def talk : List SideEvent :=
  [.publisher (.queueSQE nopOp 0 5), .consumer (.wait 1 64), .publisher (.next (.consumed 0)),
    .consumer (.next (.consumed 0)), .publisher .submit, .consumer (.next (.consumed 0)),
    .publisher (.next (.consumed 0)), .publisher (.next (.consumed 0)),
    .publisher (.next (.consumed 0)), .consumer (.next (.consumed 0)),
    .publisher (.next (.consumed 1)), .kernel (.post { userData := 5, res := 0, flags := 0 }),
    .consumer (.next (.consumed 0)), .consumer (.next (.consumed 0)), .consumer (.advanceCQ 1)]

/-- Both parts on concrete rings: the first after the run above, the second for a wait with the
timespec at address 64. -/
theorem publisher_and_consumer_apart_talk :
    (∃ p s, Runs.Path Sides.step (Sides.start talkRing) p s ∧ s.sq.kHead = 1 ∧
      s.sq.kTail = 1 ∧ s.cq.kHead = 1 ∧ Sides.NoInterference talkRing p s) ∧
    checkRingReq oldRing false = .error .extArg ∧
      ∃ s, Sides.Reaches (Sides.start oldRing) s ∧ Sides.WroteTimeout oldRing 1 64 s :=
  ⟨⟨_, _, Runs.path_record talk rfl, rfl, rfl, rfl,
      (publisher_and_consumer_apart talkRing false).1 (twoSlots false 0).accepted _ _
        (Runs.path_record talk rfl)⟩,
    ((publisher_and_consumer_apart oldRing false).2 rfl).1,
    ((publisher_and_consumer_apart oldRing false).2 rfl).2 1 64⟩

end GoUring.Reactor
