import GoUring.Uring.ByteRing
import GoUring.Uring.SubmissionRun

/-!
# Runs on bytes and runs on records

The library and the kernel call the functions of `ByteRing` on one memory, in any order.  What a
call returns is given as the values its pointers show.  The same calls are made on the records
of the earlier modules; `LaidRing.call_shows` compares one call, `byte_ring_refines_queues` whole
runs.

A run keeps the entries queued and read and the completions posted and retired.  What these satisfy
is proved on the records (`RingRun.Inv`) and holds of the bytes by the comparison.
-/

namespace GoUring.Uring

open ByteMemory CounterRing Runs

/-- A call of the library on a ring, or of the kernel. -/
inductive RingCall
  | queueSQE (op : Operation) (flags : UInt8) (userData : UInt64)
  | flushSQ
  | peekCQEvent
  | peekCQEventBatch (len : ℕ)
  | advanceCQ (n : UInt32)
  | kernelConsume
  | kernelPost (e : CQEvent)
  | kernelFlags (flags : UInt32)

/-- What a call returns, pointers followed. -/
inductive RingReply
  /-- The entry `QueueSQE` left in its slot. -/
  | queued (result : Except RingError SQEntry)
  /-- `PrepSQE` panicked, and this is in the slot. -/
  | panicked (sqe : SQEntry)
  | flushed (count : UInt32)
  /-- The completions `peekCQEvent` retired itself, and what it returned. -/
  | peeked (skipped : List CQEvent) (available : UInt32) (cqe : Option CQEvent)
      (err : Option Errno)
  | batch (cqes : List CQEvent)
  | advanced (n : UInt32)
  | consumed (sqe : SQEntry)
  | posted (e : CQEvent)
  | done

/-- `QueueSQE` returned an error, or left an entry. -/
def RingReply.ofQueued (err : Option RingError) (sqe : SQEntry) : RingReply :=
  match err with
  | some err => .queued (.error err)
  | none => .queued (.ok sqe)

/-- The completions from the head of the queue up to a counter. -/
def ByteRing.completions (ptr : RingField → ℕ) (b : ByteRing) (upTo : UInt32) : List CQEvent :=
  (List.range (gap (b.word ptr .cqHead) upTo)).map fun i =>
    cqEventCodec.load b.mem (b.cqe ptr (b.word ptr .cqHead + UInt32.ofNat i))

/-- A call on the bytes. -/
def ByteRing.call (ptr : RingField → ℕ) (extArg : Bool) (b : ByteRing) :
    RingCall → Option (RingReply × ByteRing)
  | .queueSQE op flags userData =>
      match b.queueSQE ptr op flags userData with
      | some x => some (.ofQueued x.1 (sqEntryCodec.load x.2.mem (b.sqe ptr b.sqeTail)), x.2)
      | none => some (.panicked (sqEntryCodec.load b.mem (b.sqe ptr b.sqeTail)), b.abandonSQE ptr)
  | .flushSQ => some (.flushed (b.flushSQ ptr).1, (b.flushSQ ptr).2)
  | .peekCQEvent =>
      let x := b.peekCQEvent ptr extArg
      some (.peeked (b.completions ptr (x.2.word ptr .cqHead)) x.1.available
        (x.1.cqe.map (cqEventCodec.load x.2.mem)) x.1.err, x.2)
  | .peekCQEventBatch len =>
      some (.batch ((b.peekCQEventBatch ptr len).map (cqEventCodec.load b.mem)), b)
  | .advanceCQ n => some (.advanced n, b.advanceCQ ptr n)
  | .kernelConsume => (b.kernelConsume ptr).map fun x => (.consumed x.1, x.2)
  | .kernelPost e => (b.kernelPost ptr e).map fun b => (.posted e, b)
  | .kernelFlags flags => some (.done, b.setWord ptr .sqFlags flags)

/-- A call on the records. -/
def Queues.call (extArg : Bool) (q : Queues) : RingCall → Option (RingReply × Queues)
  | .queueSQE op flags userData =>
      match q.sq.queueSQE op flags userData with
      | some x =>
          some (.ofQueued x.1 (x.2.sqeBuff (q.sq.sqeAddr q.sq.sqeTail)), { q with sq := x.2 })
      | none => some (.panicked q.sq.nextSlot, { q with sq := q.sq.abandonSQE })
  | .flushSQ => some (.flushed q.sq.flushSQ.1, { q with sq := q.sq.flushSQ.2 })
  | .peekCQEvent =>
      let x := q.cq.peekCQEvent extArg
      some (.peeked (window q.cq.cqeBuff q.cq.cqeAddr q.cq.kHead x.2.kHead) x.1.available
        (x.1.cqe.map x.2.cqeBuff) x.1.err, { q with cq := x.2 })
  | .peekCQEventBatch len => some (.batch ((q.cq.peekCQEventBatch len).map q.cq.cqeBuff), q)
  | .advanceCQ n => some (.advanced n, { q with cq := q.cq.advanceCQ n })
  | .kernelConsume => q.sq.kernelConsume.map fun x => (.consumed x.1, { q with sq := x.2 })
  | .kernelPost e => (q.cq.kernelPost e).map fun cq => (.posted e, { q with cq := cq })
  | .kernelFlags flags => some (.done, { q with sq := { q.sq with kFlags := flags } })

namespace LaidRing

variable {m : LaidRing} {b : ByteRing}

/-- A completion the record version points to, read at its address. -/
theorem load_of_cqeAddr (holds : m.Holds b) (b' : ByteRing) (c : UInt32) :
    cqEventCodec.load b'.mem (m.pointer .cqeBuff + (m.view b).cq.cqeAddr c) =
      (m.view b').cq.cqeBuff ((m.view b).cq.cqeAddr c) := by
  rw [holds.cqeAddr_eq, load_cqeBuff (Nat.mod_lt _ m.cq_sized.pos)]

/-- Results that correspond still do when both are mapped. -/
theorem rel_map {α β γ δ : Type} {r : α → β → Prop} {r' : γ → δ → Prop} {x : Option α}
    {y : Option β} (rel : Option.Rel r x y) {f : α → γ} {g : β → δ}
    (mapped : ∀ a b, r a b → r' (f a) (g b)) : Option.Rel r' (x.map f) (y.map g) := by
  cases rel with
  | none => exact .none
  | some related => exact .some (mapped _ _ related)

theorem Holds.completions (holds : m.Holds b) (upTo : UInt32) :
    b.completions m.pointer upTo =
      window (m.view b).cq.cqeBuff (m.view b).cq.cqeAddr (m.view b).cq.kHead upTo := by
  rw [ByteRing.completions, window, slots, List.map_map]
  refine List.map_congr_left fun i _ => ?_
  exact holds.load_cqe (b.word m.pointer .cqHead + UInt32.ofNat i)

theorem call_peekCQEvent (holds : m.Holds b) (extArg : Bool) :
    Option.Rel (fun x y => x.1 = y.1 ∧ m.Shows b x.2 y.2)
      (b.call m.pointer extArg .peekCQEvent) ((m.view b).call extArg .peekCQEvent) := by
  obtain ⟨peeked, shown⟩ := holds.peekCQEvent extArg
  have pointed : ∀ ptr, ((m.view b).cq.peekCQEvent extArg).1.cqe = some ptr →
      ∃ counter, ptr = (m.view b).cq.cqeAddr counter := fun ptr picked =>
    CQ.exists_of_peekLoop _ _ picked
  rw [ByteRing.call, Queues.call]
  generalize b.peekCQEvent m.pointer extArg = x at peeked shown ⊢
  generalize (m.view b).cq.peekCQEvent extArg = y at peeked shown pointed ⊢
  obtain ⟨peek, b'⟩ := x
  obtain ⟨peek', cq⟩ := y
  obtain rfl : peek = m.shift peek' := peeked
  have head : b'.word m.pointer .cqHead = cq.kHead := congrArg (fun q => q.cq.kHead) shown.view
  have found : (m.shift peek').cqe.map (cqEventCodec.load b'.mem) = peek'.cqe.map cq.cqeBuff := by
    rw [shift, Option.map_map]
    refine Option.map_congr fun ptr picked => ?_
    obtain ⟨counter, rfl⟩ := pointed ptr picked
    refine (load_of_cqeAddr holds b' counter).trans ?_
    rw [shown.view]
  refine .some ⟨?_, shown⟩
  dsimp only
  rw [holds.completions, head, found]
  rfl

/-- **A call on bytes is the call on records**: the same answer, the bytes show the records
afterwards, and nothing outside the fields has changed. -/
theorem call_shows (holds : m.Holds b) (wf : (m.view b).sq.WF) (extArg : Bool) (call : RingCall) :
    Option.Rel (fun x y => x.1 = y.1 ∧ m.Shows b x.2 y.2) (b.call m.pointer extArg call)
      ((m.view b).call extArg call) := by
  cases call with
  | queueSQE op flags userData =>
      have rel := holds.queueSQE op flags userData
      simp only [ByteRing.call, Queues.call]
      generalize b.queueSQE m.pointer op flags userData = x at rel ⊢
      generalize (m.view b).sq.queueSQE op flags userData = y at rel ⊢
      cases rel with
      | none =>
          exact .some ⟨congrArg RingReply.panicked (holds.load_sqe b.sqeTail), shows_abandonSQE b⟩
      | @some x y related =>
          refine .some ⟨?_, related.2⟩
          have slot : sqEntryCodec.load x.2.mem (b.sqe m.pointer b.sqeTail) =
              y.2.sqeBuff ((m.view b).sq.sqeAddr b.sqeTail) := by
            have place : b.sqe m.pointer b.sqeTail =
                m.pointer .sqeBuff + (m.view b).sq.sqeAddr b.sqeTail := rfl
            rw [place, holds.sqeAddr_eq, load_sqeBuff (Nat.mod_lt _ m.sq_sized.pos),
              related.2.view]
          exact congrArg₂ RingReply.ofQueued related.1 slot
  | flushSQ =>
      obtain ⟨count, shown⟩ := holds.flushSQ
      exact .some ⟨congrArg RingReply.flushed count, shown⟩
  | peekCQEvent => exact call_peekCQEvent holds extArg
  | peekCQEventBatch len =>
      refine .some ⟨?_, .refl b⟩
      simp only [peekCQEventBatch, List.map_map, RingReply.batch.injEq]
      refine List.map_congr_left fun ptr mem => ?_
      rw [CQ.peekCQEventBatch_eq] at mem
      obtain ⟨i, -, rfl⟩ := List.mem_map.mp mem
      exact load_of_cqeAddr holds b _
  | advanceCQ n => exact .some ⟨rfl, shows_advanceCQ b n⟩
  | kernelConsume =>
      exact rel_map (holds.kernelConsume wf) fun x y related =>
        ⟨congrArg RingReply.consumed related.1, related.2⟩
  | kernelPost e => exact rel_map (holds.kernelPost e) fun x y shown => ⟨rfl, shown⟩
  | kernelFlags flags => exact .some ⟨rfl, shows_setWord b .sqFlags flags⟩

end LaidRing

/-- All a peek does to the queue is to move its head past completions that are ready. -/
theorem CQ.peekLoop_eq_advanceCQ (extArg : Bool) :
    ∀ (n : ℕ) (c : CQ), ∃ k ≤ n, (c.peekLoop extArg n).2 = c.advanceCQ (UInt32.ofNat k) := by
  have nothing : ∀ c : CQ, c = c.advanceCQ (UInt32.ofNat 0) := by
    intro c
    rw [CQ.advanceCQ, show c.kHead + UInt32.ofNat 0 = c.kHead from UInt32.add_zero _]
  intro n
  induction n with
  | zero => exact fun c => ⟨0, le_rfl, nothing c⟩
  | succ n ih =>
      intro c
      simp only [CQ.peekLoop]
      split
      · split
        · obtain ⟨k, le, moved⟩ := ih c.seenCQE
          refine ⟨k + 1, Nat.succ_le_succ le, ?_⟩
          rw [moved, CQ.seenCQE, CQ.advanceCQ, CQ.advanceCQ, CQ.advanceCQ, Nat.add_comm k 1,
            ← add_ofNat_add]
          rfl
        · exact ⟨1, Nat.succ_le_succ (Nat.zero_le n), rfl⟩
      · exact ⟨0, Nat.zero_le _, nothing c⟩

/-! ## Runs -/

/-- A ring, on either level, with what happened on it: the completions shown to the consumer and
not yet retired, the entries left in the slots that were handed out, those queued and those read,
and the completions posted and retired. -/
structure RingRun (σ : Type) where
  ring : σ
  held : List CQEvent
  handed : List SQEntry
  queued : List SQEntry
  read : List SQEntry
  posted : List CQEvent
  retired : List CQEvent

namespace RingRun

variable {σ τ : Type}

def start (ring : σ) : RingRun σ where
  ring := ring
  held := []
  handed := []
  queued := []
  read := []
  posted := []
  retired := []

/-- The same run on another level. -/
def map (f : σ → τ) (r : RingRun σ) : RingRun τ := { r with ring := f r.ring }

/-- What an answer adds to the run. -/
def note (r : RingRun σ) : RingReply → RingRun σ
  | .queued (.ok sqe) => { r with handed := r.handed ++ [sqe], queued := r.queued ++ [sqe] }
  | .panicked sqe => { r with handed := r.handed ++ [sqe] }
  | .peeked skipped _ cqe _ =>
      { r with held := cqe.toList, retired := r.retired ++ skipped }
  | .batch cqes => { r with held := cqes }
  | .advanced n =>
      { r with held := r.held.drop n.toNat, retired := r.retired ++ r.held.take n.toNat }
  | .consumed sqe => { r with read := r.read ++ [sqe] }
  | .posted e => { r with posted := r.posted ++ [e] }
  | .queued (.error _) | .flushed _ | .done => r

/-- The consumer retires only what it was shown. -/
def allows (r : RingRun σ) : RingCall → Bool
  | .advanceCQ n => n.toNat ≤ r.held.length
  | _ => true

/-- One call. -/
def step (call : σ → RingCall → Option (RingReply × σ)) (r : RingRun σ) (c : RingCall) :
    Option (RingRun σ) :=
  if r.allows c then (call r.ring c).map fun x => { r with ring := x.2 }.note x.1 else none

theorem map_note (f : σ → τ) (r : RingRun σ) (reply : RingReply) :
    (r.note reply).map f = (r.map f).note reply := by
  rcases reply with ⟨_ | _⟩ | _ | _ | _ | _ | _ | _ | _ | _ <;> rfl

theorem ring_note (r : RingRun σ) (reply : RingReply) : (r.note reply).ring = r.ring := by
  rcases reply with ⟨_ | _⟩ | _ | _ | _ | _ | _ | _ | _ | _ <;> rfl

/-- The submission side of a run. -/
def submission (r : RingRun Queues) : SQRun where
  sq := r.ring.sq
  handed := r.handed
  queued := r.queued
  read := r.read

/-- What holds along every run on records that started on the queues `q₀`. -/
structure Inv (q₀ : Queues) (r : RingRun Queues) : Prop where
  submitted : SQRun.Inv q₀.sq r.submission
  cq : r.ring.cq.WF
  cqEntries : r.ring.cq.kRingEntries = q₀.cq.kRingEntries
  completed : r.posted = r.retired ++ r.ring.cq.ready
  held : r.held <+: r.ring.cq.ready

theorem of_step {call : σ → RingCall → Option (RingReply × σ)} {r r' : RingRun σ} {c : RingCall}
    (stepped : r.step call c = some r') :
    r.allows c = true ∧ ∃ reply ring, call r.ring c = some (reply, ring) ∧
      r' = { r with ring := ring }.note reply := by
  unfold step at stepped
  split at stepped
  · next allowed =>
    obtain ⟨⟨reply, ring⟩, called, rfl⟩ := Option.map_eq_some_iff.mp stepped
    exact ⟨allowed, reply, ring, called, rfl⟩
  · cases stepped

section Invariant

variable {q₀ : Queues} {r : RingRun Queues}

/-- A call that moves only the submission queue. -/
theorem Inv.of_sq (inv : Inv q₀ r) {s : SQRun} (submitted : SQRun.Inv q₀.sq s) :
    Inv q₀ { r with
      ring := { r.ring with sq := s.sq }
      handed := s.handed
      queued := s.queued
      read := s.read } :=
  ⟨submitted, inv.cq, inv.cqEntries, inv.completed, inv.held⟩

theorem Inv.queueSQE (inv : Inv q₀ r) {op : Operation} {flags : UInt8} {userData : UInt64}
    {err : Option RingError} {sq : SQ}
    (queued : r.ring.sq.queueSQE op flags userData = some (err, sq)) :
    Inv q₀ ({ r with ring := { r.ring with sq := sq } }.note
      (.ofQueued err (sq.sqeBuff (r.ring.sq.sqeAddr r.ring.sq.sqeTail)))) := by
  cases err with
  | some err =>
      have stepped : r.submission.step (.queueSQE op flags userData) =
          some { r.submission with sq := sq } := by
        simp only [SQRun.step, submission, queued]
      exact inv.of_sq (SQRun.inv_queueSQE inv.submitted stepped)
  | none =>
      have stepped : r.submission.step (.queueSQE op flags userData) =
          some { r.submission with
            sq := sq
            handed := r.handed ++ [sq.sqeBuff (r.ring.sq.sqeAddr r.ring.sq.sqeTail)]
            queued := r.queued ++ [sq.sqeBuff (r.ring.sq.sqeAddr r.ring.sq.sqeTail)] } := by
        simp only [SQRun.step, submission, queued]
      exact inv.of_sq (SQRun.inv_queueSQE inv.submitted stepped)

theorem Inv.abandonSQE (inv : Inv q₀ r) {op : Operation} {flags : UInt8} {userData : UInt64}
    (panics : r.ring.sq.queueSQE op flags userData = none) :
    Inv q₀ ({ r with ring := { r.ring with sq := r.ring.sq.abandonSQE } }.note
      (.panicked r.ring.sq.nextSlot)) := by
  have stepped : r.submission.step (.queueSQE op flags userData) =
      some { r.submission with
        sq := r.ring.sq.abandonSQE
        handed := r.handed ++ [r.ring.sq.nextSlot] } := by
    simp only [SQRun.step, submission, panics]
  exact inv.of_sq (SQRun.inv_queueSQE inv.submitted stepped)

theorem Inv.kernelConsume (inv : Inv q₀ r) {sqe : SQEntry} {sq : SQ}
    (consumed : r.ring.sq.kernelConsume = some (sqe, sq)) :
    Inv q₀ ({ r with ring := { r.ring with sq := sq } }.note (.consumed sqe)) := by
  have stepped : r.submission.step .kernel =
      some { r.submission with sq := sq, read := r.read ++ [sqe] } := by
    simp only [SQRun.step, submission, consumed, Option.map_some]
  exact inv.of_sq (SQRun.inv_kernel inv.submitted stepped)

theorem Inv.kernelFlags (inv : Inv q₀ r) (flags : UInt32) :
    Inv q₀ { r with ring := { r.ring with sq := { r.ring.sq with kFlags := flags } } } := by
  have wf := (SubmissionQueue.kernelFlags ⟨r.ring.sq, inv.submitted.wf⟩ flags).wf
  exact inv.of_sq (s := { r.submission with sq := { r.ring.sq with kFlags := flags } })
    ⟨wf, inv.submitted.entries, inv.submitted.conserved, inv.submitted.stored⟩

theorem Inv.kernelPost (inv : Inv q₀ r) {e : CQEvent} {cq : CQ}
    (posted : r.ring.cq.kernelPost e = some cq) :
    Inv q₀ ({ r with ring := { r.ring with cq := cq } }.note (.posted e)) := by
  obtain ⟨wf, ready, -, -, entries, -⟩ := inv.cq.kernelPost_spec posted
  refine ⟨inv.submitted, wf, entries.trans inv.cqEntries, ?_, ?_⟩
  · show r.posted ++ [e] = r.retired ++ cq.ready
    rw [ready, ← List.append_assoc, ← inv.completed]
  · show r.held <+: cq.ready
    rw [ready]
    exact inv.held.trans (List.prefix_append _ _)

/-- The head moves past completions that are ready. -/
theorem Inv.retire (inv : Inv q₀ r) {n : UInt32} (le : n.toNat ≤ r.ring.cq.ready.length)
    {held : List CQEvent} (shown : held <+: (r.ring.cq.advanceCQ n).ready) :
    Inv q₀ { r with
      ring := { r.ring with cq := r.ring.cq.advanceCQ n }
      held := held
      retired := r.retired ++ r.ring.cq.ready.take n.toNat } := by
  obtain ⟨wf, ready⟩ := inv.cq.advanceCQ_spec le
  refine ⟨inv.submitted, wf, inv.cqEntries, ?_, shown⟩
  show r.posted = r.retired ++ r.ring.cq.ready.take n.toNat ++ (r.ring.cq.advanceCQ n).ready
  rw [ready, List.append_assoc, List.take_append_drop]
  exact inv.completed

theorem Inv.advanceCQ (inv : Inv q₀ r) {n : UInt32} (le : n.toNat ≤ r.held.length) :
    Inv q₀ ({ r with ring := { r.ring with cq := r.ring.cq.advanceCQ n } }.note (.advanced n)) := by
  have enough : n.toNat ≤ r.ring.cq.ready.length := le.trans inv.held.length_le
  obtain ⟨-, ready⟩ := inv.cq.advanceCQ_spec enough
  have shown : r.held.drop n.toNat <+: (r.ring.cq.advanceCQ n).ready := by
    rw [ready]
    exact inv.held.drop n.toNat
  have same : r.held.take n.toNat = r.ring.cq.ready.take n.toNat := by
    obtain ⟨rest, split⟩ := inv.held
    rw [← split, List.take_append_of_le_length le]
  have retired := inv.retire enough shown
  rw [← same] at retired
  exact retired

/-- A peek shows the oldest completion that is left after those it retired itself. -/
theorem shown_isPrefix {c : CQ} (wf : c.WF) (extArg : Bool) :
    ((c.peekCQEvent extArg).1.cqe.map (c.peekCQEvent extArg).2.cqeBuff).toList <+:
      (c.peekCQEvent extArg).2.ready := by
  obtain ⟨-, first⟩ := Ring.peekLoop_spec extArg _ c wf (CQ.length_ready c).ge
  cases picked : (c.peekCQEvent extArg).1.cqe with
  | none => exact List.nil_prefix
  | some ptr =>
      obtain ⟨pos, rfl⟩ := first ptr picked
      have head := CQ.head_ready (CQ.headPtr_eq_some_iff.mpr ⟨List.ne_nil_of_length_pos pos, rfl⟩)
      exact List.cons_prefix_iff.mpr ⟨_, (List.cons_head?_tail head).symm, List.nil_prefix⟩

theorem Inv.peekCQEvent (inv : Inv q₀ r) (extArg : Bool) {available : UInt32}
    {err : Option Errno} :
    Inv q₀ ({ r with ring := { r.ring with cq := (r.ring.cq.peekCQEvent extArg).2 } }.note
      (.peeked (window r.ring.cq.cqeBuff r.ring.cq.cqeAddr r.ring.cq.kHead
          (r.ring.cq.peekCQEvent extArg).2.kHead) available
        ((r.ring.cq.peekCQEvent extArg).1.cqe.map (r.ring.cq.peekCQEvent extArg).2.cqeBuff)
        err)) := by
  have shown := shown_isPrefix inv.cq extArg
  obtain ⟨k, le, moved⟩ := r.ring.cq.peekLoop_eq_advanceCQ extArg
    (r.ring.cq.kTail - r.ring.cq.kHead).toNat
  change k ≤ gap r.ring.cq.kHead r.ring.cq.kTail at le
  change (r.ring.cq.peekCQEvent extArg).2 = _ at moved
  have small : k < 2 ^ 32 := lt_of_le_of_lt le (gap_lt _ _)
  have count : (UInt32.ofNat k).toNat = k := UInt32.toNat_ofNat_of_lt' small
  have skipped : window r.ring.cq.cqeBuff r.ring.cq.cqeAddr r.ring.cq.kHead
      (r.ring.cq.peekCQEvent extArg).2.kHead = r.ring.cq.ready.take (UInt32.ofNat k).toNat := by
    rw [moved, CQ.advanceCQ, window, gap_add_ofNat _ small, count, CQ.ready, window,
      ← List.map_take, take_slots le]
  rw [skipped]
  generalize (r.ring.cq.peekCQEvent extArg).1.cqe = cqe at shown ⊢
  generalize (r.ring.cq.peekCQEvent extArg).2 = cq at moved shown ⊢
  subst moved
  exact inv.retire (by rw [count, CQ.length_ready]; exact le) shown

theorem Inv.peekCQEventBatch (inv : Inv q₀ r) (len : ℕ) :
    Inv q₀ (r.note (.batch ((r.ring.cq.peekCQEventBatch len).map r.ring.cq.cqeBuff))) := by
  refine ⟨inv.submitted, inv.cq, inv.cqEntries, inv.completed, ?_⟩
  show (r.ring.cq.peekCQEventBatch len).map r.ring.cq.cqeBuff <+: r.ring.cq.ready
  rw [CQ.peekCQEventBatch_eq, CQ.length_ready, CQ.ready, window,
    ← take_slots (Nat.min_le_right _ _), List.map_take]
  exact List.take_prefix _ _

/-- Every call keeps the invariant. -/
theorem Inv.step {extArg : Bool} {c : RingCall} {r' : RingRun Queues} (inv : Inv q₀ r)
    (stepped : r.step (Queues.call extArg) c = some r') : Inv q₀ r' := by
  obtain ⟨allowed, reply, ring, called, rfl⟩ := of_step stepped
  cases c with
  | queueSQE op flags userData =>
      simp only [Queues.call] at called
      split at called
      · next queued =>
        cases called
        exact inv.queueSQE queued
      · next panics =>
        cases called
        exact inv.abandonSQE panics
  | flushSQ =>
      cases called
      exact inv.of_sq (SQRun.inv_flushSQ inv.submitted rfl)
  | peekCQEvent =>
      cases called
      exact inv.peekCQEvent extArg
  | peekCQEventBatch len =>
      cases called
      exact inv.peekCQEventBatch len
  | advanceCQ n =>
      cases called
      exact inv.advanceCQ (of_decide_eq_true allowed)
  | kernelConsume =>
      obtain ⟨⟨sqe, sq⟩, consumed, result⟩ := Option.map_eq_some_iff.mp called
      cases result
      exact inv.kernelConsume consumed
  | kernelPost e =>
      obtain ⟨cq, posted, result⟩ := Option.map_eq_some_iff.mp called
      cases result
      exact inv.kernelPost posted
  | kernelFlags flags =>
      cases called
      exact inv.kernelFlags flags

end Invariant

/-- The operation is not one whose `PrepSQE` panics in the slot it is handed. -/
def Prepares (r : RingRun Queues) : RingCall → Prop
  | .queueSQE op _ _ => r.ring.sq.Prepares op
  | _ => True

/-- Without a panic every slot that was handed out holds an entry that was queued. -/
theorem handed_step {extArg : Bool} {c : RingCall} {r r' : RingRun Queues}
    (prepares : r.Prepares c) (same : r.handed = r.queued)
    (stepped : r.step (Queues.call extArg) c = some r') : r'.handed = r'.queued := by
  obtain ⟨-, reply, ring, called, rfl⟩ := of_step stepped
  cases c with
  | queueSQE op flags userData =>
      simp only [Queues.call] at called
      split at called
      · next err queued =>
        cases called
        rcases err with ⟨_ | err, sq⟩
        · exact congrArg (· ++ [_]) same
        · exact same
      · next panics => exact absurd prepares (SQ.queueSQE_eq_none_iff.mp panics)
  | kernelConsume | kernelPost e =>
      obtain ⟨_, -, result⟩ := Option.map_eq_some_iff.mp called
      cases result
      exact same
  | _ =>
      cases called
      exact same

end RingRun

/-! ## Bytes and records along a run -/

namespace LaidRing

variable {m : LaidRing}

/-- A ring as `CreateMany` finds it after the mappings are made: the sizes are in memory and both
queues are empty. -/
structure Booted (m : LaidRing) (b : ByteRing) : Prop where
  holds : m.Holds b
  sqTail : b.word m.pointer .sqTail = b.word m.pointer .sqHead
  sqeHead : b.sqeHead = b.word m.pointer .sqHead
  sqeTail : b.sqeTail = b.word m.pointer .sqHead
  cqTail : b.word m.pointer .cqTail = b.word m.pointer .cqHead

/-- The sizes a well-formed view shows. -/
theorem Holds.of_inv {q₀ : Queues} {b : ByteRing} (first : q₀.sq.kRingEntries = m.sqEntries)
    (second : q₀.cq.kRingEntries = m.cqEntries) {r : RingRun Queues} (inv : RingRun.Inv q₀ r)
    (shown : m.view b = r.ring) : m.Holds b := by
  have sq : r.ring.sq.kRingEntries = m.sqEntries := inv.submitted.entries.trans first
  have cq : r.ring.cq.kRingEntries = m.cqEntries := inv.cqEntries.trans second
  have sqMask := inv.submitted.wf.sized.mask_eq
  have cqMask := inv.cq.sized.mask_eq
  change r.ring.sq.kRingMask = r.ring.sq.kRingEntries - 1 at sqMask
  rw [sq] at sqMask
  rw [cq] at cqMask
  rw [← shown] at sq cq sqMask cqMask
  exact ⟨sq, sqMask, cq, cqMask⟩

theorem Booted.fresh {b₀ : ByteRing} (booted : m.Booted b₀) : (m.view b₀).sq.Fresh where
  sized := by
    show Sized (b₀.word m.pointer .sqRingEntries) (b₀.word m.pointer .sqRingMask)
    rw [booted.holds.sqEntries, booted.holds.sqMask]
    exact m.sq_sized
  small := by
    show (b₀.word m.pointer .sqRingEntries).toNat ≤ 32768
    rw [booted.holds.sqEntries]
    exact m.sq_le
  kTail := booted.sqTail
  sqeHead := booted.sqeHead
  sqeTail := booted.sqeTail

theorem Booted.inv {b₀ : ByteRing} (booted : m.Booted b₀) :
    RingRun.Inv (m.view b₀) (RingRun.start (m.view b₀)) := by
  have level : (m.view b₀).cq.kTail = (m.view b₀).cq.kHead := booted.cqTail
  refine ⟨SQRun.inv_start booted.fresh, ⟨?_, ?_⟩, rfl, ?_, List.nil_prefix⟩
  · show Sized (b₀.word m.pointer .cqRingEntries) (b₀.word m.pointer .cqRingMask)
    rw [booted.holds.cqEntries, booted.holds.cqMask]
    exact m.cq_sized
  · show gap (m.view b₀).cq.kHead (m.view b₀).cq.kTail ≤ _
    rw [level, gap_self]
    exact Nat.zero_le _
  · show [] = [] ++ (m.view b₀).cq.ready
    rw [CQ.ready, level, window_self, List.append_nil]

/-- **One step on both levels.** -/
theorem step_shows {b₀ : ByteRing} (booted : m.Booted b₀) {r : RingRun ByteRing}
    (inv : RingRun.Inv (m.view b₀) (r.map m.view)) (extArg : Bool) (c : RingCall) :
    Option.Rel (fun r' s' => r'.map m.view = s' ∧ m.layout.Keeps r.ring.mem r'.ring.mem)
      (r.step (ByteRing.call m.pointer extArg) c)
      ((r.map m.view).step (Queues.call extArg) c) := by
  have holds : m.Holds r.ring :=
    .of_inv booted.holds.sqEntries booted.holds.cqEntries inv rfl
  have allowed : (r.map m.view).allows c = r.allows c := by cases c <;> rfl
  unfold RingRun.step
  rw [allowed]
  split
  · refine rel_map (call_shows holds inv.submitted.wf extArg c) ?_
    rintro ⟨reply, b⟩ ⟨reply', q⟩ ⟨rfl, shown⟩
    refine ⟨?_, ?_⟩
    · rw [RingRun.map_note, ← shown.view]
      rfl
    · rw [RingRun.ring_note]
      exact shown.keeps
  · exact .none

/-- What holds along every run on bytes: its view satisfies the invariant, and the bytes outside
the fields are those at the start. -/
structure Tracks (m : LaidRing) (b₀ : ByteRing) (r : RingRun ByteRing) : Prop where
  inv : RingRun.Inv (m.view b₀) (r.map m.view)
  keeps : m.layout.Keeps b₀.mem r.ring.mem

section Steps

variable {b₀ : ByteRing} {r : RingRun ByteRing} {extArg : Bool} {c : RingCall}

/-- A step on bytes is seen as a step on records. -/
theorem Tracks.step (tracks : m.Tracks b₀ r) (booted : m.Booted b₀) {r' : RingRun ByteRing}
    (stepped : r.step (ByteRing.call m.pointer extArg) c = some r') :
    (r.map m.view).step (Queues.call extArg) c = some (r'.map m.view) ∧ m.Tracks b₀ r' := by
  have related := step_shows booted tracks.inv extArg c
  rw [stepped] at related
  generalize next : (r.map m.view).step (Queues.call extArg) c = s' at related
  cases related with
  | some both =>
      obtain ⟨rfl, kept⟩ := both
      exact ⟨rfl, tracks.inv.step next, tracks.keeps.trans kept⟩

/-- A step on the records a run shows is a step on the bytes. -/
theorem Tracks.lift (tracks : m.Tracks b₀ r) (booted : m.Booted b₀) {s : RingRun Queues}
    (stepped : (r.map m.view).step (Queues.call extArg) c = some s) :
    ∃ r', r.step (ByteRing.call m.pointer extArg) c = some r' ∧ r'.map m.view = s ∧
      m.Tracks b₀ r' := by
  have related := step_shows booted tracks.inv extArg c
  rw [stepped] at related
  generalize next : r.step (ByteRing.call m.pointer extArg) c = t at related
  cases related with
  | some both => exact ⟨_, rfl, both.1, (tracks.step booted next).2⟩

end Steps

end LaidRing

end GoUring.Uring
