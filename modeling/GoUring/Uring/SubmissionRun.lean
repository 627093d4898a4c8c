import GoUring.Uring.SubmissionQueue

/-!
# Runs of the submission queue

The library queues and flushes, the kernel consumes, in any order and for any
number of steps — so through any number of wrap-arounds of the counters.  A run
keeps what `QueueSQE` left in the slots it was handed and what the kernel read.
What is invariant along a run is the conservation law of a FIFO: what the slots
were left with is what was read followed by what the ring still holds.

A slot is left with the SQE that was queued, unless `PrepSQE` panicked in it and the
caller recovered.  Then nothing was queued, and the kernel reads the slot all the
same (`sq_run_reads_abandoned_slot`).
-/

namespace GoUring.Uring

open CounterRing BoundedFifo Runs

/-- A submission queue with what happened on it so far. -/
structure SQRun where
  sq : SQ
  /-- What `QueueSQE` left in the slots it was handed. -/
  handed : List SQEntry
  /-- The SQEs that `QueueSQE` queued. -/
  queued : List SQEntry
  /-- The SQEs that the kernel read. -/
  read : List SQEntry

/-- What can happen to a submission queue. -/
inductive SQEvent
  /-- `QueueSQE(op, flags, userData)`. -/
  | queueSQE (op : Operation) (flags : UInt8) (userData : UInt64)
  /-- `flushSQ`, as `Submit` runs it. -/
  | flushSQ
  /-- The kernel reads an SQE. -/
  | kernel

namespace SQRun

/-- Nothing queued, nothing read. -/
def start (s : SQ) : SQRun := { sq := s, handed := [], queued := [], read := [] }

/-- One step.  The SQE that counts as queued is what `QueueSQE` left in the slot
it was handed.  A panic of `PrepSQE` is recovered by the caller. -/
def step (r : SQRun) : SQEvent → Option SQRun
  | .queueSQE op flags userData =>
      match r.sq.queueSQE op flags userData with
      | some (some _, sq) => some { r with sq := sq }
      | some (none, sq) =>
          let sqe := sq.sqeBuff (r.sq.sqeAddr r.sq.sqeTail)
          some { r with sq := sq, handed := r.handed ++ [sqe], queued := r.queued ++ [sqe] }
      | none => some { r with sq := r.sq.abandonSQE, handed := r.handed ++ [r.sq.nextSlot] }
  | .flushSQ => some { r with sq := r.sq.flushSQ.2 }
  | .kernel =>
      r.sq.kernelConsume.map fun (sqe, sq) =>
        { r with sq := sq, read := r.read ++ [sqe] }

/-- The invariant of a run that started on the queue `s₀`. -/
structure Inv (s₀ : SQ) (r : SQRun) : Prop where
  wf : r.sq.WF
  entries : r.sq.kRingEntries = s₀.kRingEntries
  conserved : r.handed = r.read ++ r.sq.pending
  stored : ∀ a, r.sq.kArray a = s₀.kArray a ∨
    (r.sq.kArray a).toNat < s₀.kRingEntries.toNat

theorem inv_start {s₀ : SQ} (fresh : s₀.Fresh) : Inv s₀ (start s₀) where
  wf := fresh.wf
  entries := rfl
  conserved := fresh.pending.symm
  stored := fun _ => Or.inl rfl

/-- A slot is handed out and left with `sqe`. -/
theorem inv_pushSQE {s₀ : SQ} {r : SQRun} (inv : Inv s₀ r)
    (room : gap r.sq.kHead r.sq.sqeTail < r.sq.kRingEntries.toNat) (sqe : SQEntry)
    (queued : List SQEntry) :
    Inv s₀ { r with sq := r.sq.pushSQE sqe, handed := r.handed ++ [sqe], queued := queued } := by
  refine ⟨inv.wf.pushSQE room sqe, inv.entries, ?_, inv.stored⟩
  show r.handed ++ [sqe] = r.read ++ (r.sq.pushSQE sqe).pending
  rw [inv.wf.pending_pushSQE room sqe, inv.conserved, List.append_assoc]

theorem inv_queueSQE {s₀ : SQ} {r r' : SQRun} {op : Operation} {flags : UInt8}
    {userData : UInt64} (inv : Inv s₀ r)
    (stepped : r.step (.queueSQE op flags userData) = some r') : Inv s₀ r' := by
  simp only [step] at stepped
  split at stepped
  · next err sq queued =>
    cases stepped
    rcases inv.wf.queueSQE_cases queued with ⟨-, -, rfl⟩ | ⟨-, ⟨⟩, -⟩
    exact inv
  · next sq queued =>
    cases stepped
    rcases inv.wf.queueSQE_cases queued with ⟨-, ⟨⟩, -⟩ | ⟨room, -, sqe, -, rfl⟩
    have written : (r.sq.pushSQE sqe).sqeBuff (r.sq.sqeAddr r.sq.sqeTail) = sqe :=
      Function.update_self _ _ _
    rw [written]
    exact inv_pushSQE inv room sqe _
  · next panics =>
    cases stepped
    obtain ⟨free, abandoned⟩ := SQ.abandonSQE_of_panic panics
    rw [abandoned]
    exact inv_pushSQE inv (inv.wf.next_le_iff.mp free) _ _

theorem inv_flushSQ {s₀ : SQ} {r r' : SQRun} (inv : Inv s₀ r)
    (stepped : r.step .flushSQ = some r') : Inv s₀ r' := by
  obtain ⟨array, eq, -, -, stored⟩ := inv.wf.flushSQ_eq
  cases stepped
  refine ⟨inv.wf.flushSQ, ?_, ?_, fun a => ?_⟩
  · rw [eq]
    exact inv.entries
  · rw [inv.wf.pending_flushSQ]
    exact inv.conserved
  · rw [eq]
    rcases stored a with kept | bound
    · show array a = _ ∨ (array a).toNat < _
      rw [kept]
      exact inv.stored a
    · rw [inv.entries] at bound
      exact Or.inr bound

theorem inv_kernel {s₀ : SQ} {r r' : SQRun} (inv : Inv s₀ r)
    (stepped : r.step .kernel = some r') : Inv s₀ r' := by
  obtain ⟨⟨sqe, sq⟩, consumed, rfl⟩ := Option.map_eq_some_iff.mp stepped
  obtain ⟨wf, pending, -, array⟩ := inv.wf.kernelConsume_spec consumed
  refine ⟨wf, ?_, ?_, fun a => ?_⟩
  · rw [← inv.entries]
    exact SQ.kernelConsume_entries consumed
  · show r.handed = r.read ++ [sqe] ++ sq.pending
    rw [inv.conserved, pending, List.append_assoc, List.singleton_append]
  · show sq.kArray a = _ ∨ (sq.kArray a).toNat < _
    rw [array]
    exact inv.stored a

theorem inv_step {s₀ : SQ} {r r' : SQRun} {e : SQEvent} (inv : Inv s₀ r)
    (stepped : r.step e = some r') : Inv s₀ r' := by
  cases e with
  | queueSQE op flags userData => exact inv_queueSQE inv stepped
  | flushSQ => exact inv_flushSQ inv stepped
  | kernel => exact inv_kernel inv stepped

/-- The invariant holds in every state of every run. -/
theorem inv_of_path {s₀ : SQ} (fresh : s₀.Fresh) {p : List (SQRun × SQEvent)} {r : SQRun}
    (path : Path step (start s₀) p r) : Inv s₀ r :=
  path.invariant_of_step (Inv s₀) (inv_start fresh) fun _ _ _ inv stepped => inv_step inv stepped

/-- The operation is not one whose `PrepSQE` panics in the slot it is handed. -/
def Prepares (r : SQRun) : SQEvent → Prop
  | .queueSQE op _ _ => r.sq.Prepares op
  | _ => True

/-- Without a panic every slot that was handed out holds an SQE that was queued. -/
theorem handed_step {r r' : SQRun} {e : SQEvent} (prepares : r.Prepares e)
    (same : r.handed = r.queued) (stepped : r.step e = some r') : r'.handed = r'.queued := by
  cases e with
  | queueSQE op flags userData =>
      simp only [step] at stepped
      split at stepped
      · cases stepped
        exact same
      · cases stepped
        exact congrArg (· ++ [_]) same
      · next panics => exact absurd prepares (SQ.queueSQE_eq_none_iff.mp panics)
  | flushSQ =>
      cases stepped
      exact same
  | kernel =>
      obtain ⟨⟨sqe, sq⟩, -, rfl⟩ := Option.map_eq_some_iff.mp stepped
      exact same

theorem handed_eq_queued {s₀ : SQ} {p : List (SQRun × SQEvent)} {r : SQRun}
    (path : Path step (start s₀) p r) (prepared : ∀ x ∈ p, x.1.Prepares x.2) :
    r.handed = r.queued :=
  path.invariant (fun r => r.handed = r.queued) Prepares rfl
    (fun _ _ _ same prepares stepped => handed_step prepares same stepped) prepared

/-- A run read as the history of a bounded FIFO. -/
def history {s₀ : SQ} (r : SQRun) (inv : Inv s₀ r) : History SQEntry where
  queue := SubmissionQueue.abs { sq := r.sq, wf := inv.wf }
  appended := r.handed
  taken := r.read
  split := inv.conserved

end SQRun

/-- **The submission ring refines a bounded FIFO, as long as no `PrepSQE` panics.**  Start
from any queue whose four counters agree, of any power-of-two size up to `32768`, and let
`QueueSQE`, `flushSQ` and the kernel take any number of steps in any order, where no
`QueueSQE` that is handed a slot is for an operation whose `PrepSQE` panics.  Then

* what the kernel read is a prefix of what was queued, and every index stored in
  the array is a slot number;
* the next `QueueSQE` of such an operation returns; it reports `ErrSQOverflow` exactly when
  `entries` SQEs are queued and not consumed, reports no other error, and then changes
  nothing;
* `flushSQ` makes all that is queued visible and returns its number. -/
theorem sq_run_refines_bounded_fifo {s₀ : SQ} (fresh : s₀.Fresh)
    {p : List (SQRun × SQEvent)} {r : SQRun}
    (path : Path SQRun.step (SQRun.start s₀) p r) (prepared : ∀ x ∈ p, x.1.Prepares x.2) :
    (r.read <+: r.queued ∧
      ∀ a, r.sq.kArray a = s₀.kArray a ∨
        (r.sq.kArray a).toNat < s₀.kRingEntries.toNat) ∧
    (∀ (op : Operation) (flags : UInt8) (userData : UInt64), r.sq.Prepares op →
      ∃ err sq, r.sq.queueSQE op flags userData = some (err, sq) ∧
        (err = some .sqOverflow ↔
          r.queued.length = r.read.length + s₀.kRingEntries.toNat) ∧
        (err ≠ some .sqOverflow → err = none) ∧ (err = some .sqOverflow → sq = r.sq)) ∧
    (r.sq.flushSQ.2.visible = r.queued.drop r.read.length ∧
      r.sq.flushSQ.1.toNat + r.read.length = r.queued.length) := by
  have inv := SQRun.inv_of_path fresh path
  have all : r.handed = r.queued := SQRun.handed_eq_queued path prepared
  have items : r.sq.pending = r.queued.drop r.read.length :=
    all ▸ (r.history inv).items_eq_drop
  have count : r.sq.pending.length + r.read.length = r.queued.length :=
    all ▸ (r.history inv).length_items
  refine ⟨⟨all ▸ (r.history inv).taken_isPrefix, inv.stored⟩, ?_, ?_, ?_⟩
  · intro op flags userData prepares
    obtain ⟨⟨err, sq⟩, queued⟩ : ∃ x, r.sq.queueSQE op flags userData = some x := by
      refine Option.ne_none_iff_exists'.mp fun panics => ?_
      exact SQ.queueSQE_eq_none_iff.mp panics prepares
    refine ⟨err, sq, queued, ?_⟩
    rw [SQ.length_pending] at count
    have size : r.sq.kRingEntries.toNat = s₀.kRingEntries.toNat := by rw [inv.entries]
    rcases inv.wf.queueSQE_cases queued with ⟨full, rfl, rfl⟩ | ⟨room, rfl, -⟩
    · refine ⟨⟨fun _ => by omega, fun _ => rfl⟩, fun other => absurd rfl other, fun _ => rfl⟩
    · refine ⟨⟨fun overflow => by simp at overflow, fun full => by omega⟩, fun _ => rfl,
        fun overflow => by simp at overflow⟩
  · rw [inv.wf.visible_flushSQ, items]
  · rw [inv.wf.flushSQ_count, count]

/-! A ring of two slots whose counters stand one short of the wrap-around. -/

/-- Two slots, all counters at `2 ^ 32 - 1`. -/
def wrappingSQ : SQ where
  kHead := 4294967295
  kTail := 4294967295
  kRingMask := 1
  kRingEntries := 2
  kFlags := 0
  kArray := fun _ => 0
  sqeBuff := fun _ => default
  sqeTail := 4294967295
  sqeHead := 4294967295

theorem wrappingSQ_fresh : wrappingSQ.Fresh where
  sized := ⟨⟨1, rfl⟩, rfl⟩
  small := by decide
  kTail := rfl
  sqeHead := rfl
  sqeTail := rfl

/-- Two SQEs queued, flushed, one of them consumed, a third queued. -/
def throughWrap : List SQEvent :=
  [.queueSQE nopOp 0 7, .queueSQE nopOp 0 8, .flushSQ, .kernel, .queueSQE nopOp 0 9]

/-- The law at a run through the wrap-around. -/
theorem sq_run_refines_bounded_fifo_wrapping :
    ∃ p r, Path SQRun.step (SQRun.start wrappingSQ) p r ∧
      r.read.map SQEntry.userData = [7] ∧ r.queued.map SQEntry.userData = [7, 8, 9] ∧
      r.read <+: r.queued :=
  ⟨_, _, path_record throughWrap rfl, rfl, rfl,
    (sq_run_refines_bounded_fifo wrappingSQ_fresh (path_record throughWrap rfl)
      (forall_record (by simp [throughWrap, SQRun.Prepares]))).1.1⟩

/-- Two SQEs are queued, flushed and consumed; a `Recv` into an empty slice panics, and the
caller goes on. -/
def afterRecovery : List SQEvent :=
  [.queueSQE nopOp 0 7, .queueSQE nopOp 0 8, .flushSQ, .kernel, .kernel,
    .queueSQE (recvOp 3 ⟨0, 0⟩ 0) 0 9, .flushSQ, .kernel]

/-- **The kernel reads an SQE that nobody queued**: the slot that `PrepSQE` panicked in still
holds the first one, which is read a second time. -/
theorem sq_run_reads_abandoned_slot :
    ∃ p r, Path SQRun.step (SQRun.start wrappingSQ) p r ∧ wrappingSQ.Fresh ∧
      r.queued.map SQEntry.userData = [7, 8] ∧ r.read.map SQEntry.userData = [7, 8, 7] ∧
      ¬ r.read <+: r.queued := by
  refine ⟨_, _, path_record afterRecovery rfl, wrappingSQ_fresh, rfl, rfl, fun front => ?_⟩
  exact absurd front.length_le (by decide)

end GoUring.Uring
