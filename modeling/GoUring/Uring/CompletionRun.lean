import GoUring.Foundation.Runs
import GoUring.Uring.Consumer
import GoUring.Uring.SubmissionRun

/-!
# Runs of the completion queue

The kernel posts while a consumer waits (`PeekCQE`, `WaitCQEvents`), reads
batches (`PeekCQEventBatch`) and retires (`SeenCQE`, `AdvanceCQ`), in any order.
The calls that enter the kernel are cut there, so posts fall before, inside and
after them.

A run keeps what was posted, what the consumer retired — as its pointers showed
it at that moment —, every pointer ever handed out with its position in the
stream and what it showed when it was handed out, and every batch returned with
the queue it was read from.  The conservation law is the one of a FIFO: what was
posted is what was retired followed by what the queue holds.
-/

namespace GoUring.Uring

open CounterRing Runs

/-- Where the consumer's goroutine is. -/
inductive ReadPC
  /-- Between calls. -/
  | idle
  /-- At the top of the loop of `getCQEvents`. -/
  | waiting (params : Ring.GetParams)
  /-- In the `io_uring_enter` of `getCQEvents`. -/
  | entered (params : Ring.GetParams)
  /-- In the `io_uring_enter` of `PeekCQEventBatch`. -/
  | flushing (len : ℕ)
  deriving DecidableEq, Repr

/-- A pointer handed to the caller: the position of its completion in the stream
of posts, and what it showed. -/
structure Handed where
  position : ℕ
  ptr : ℕ
  event : CQEvent

/-- A return of `PeekCQEventBatch`: the length of the buffer, the queue at its
last read, and the entries filled. -/
structure Batch where
  len : ℕ
  cq : CQ
  returned : List ℕ

/-- A ring with its consumer and what happened to the completion queue so far. -/
structure CQRun where
  consumer : Consumer
  pc : ReadPC
  posted : List CQEvent
  retired : List CQEvent
  handed : List Handed
  batches : List Batch

/-- What can happen to a completion queue. -/
inductive CQRunEvent
  /-- The kernel posts. -/
  | post (e : CQEvent)
  /-- The kernel changes the flags of the ring. -/
  | flags (flags : UInt32)
  /-- `WaitCQEvents(cnt)` is called; `PeekCQE()` is `WaitCQEvents(0)`. -/
  | wait (cnt : UInt32)
  /-- One pass of the loop of `getCQEvents`. -/
  | pass
  /-- The `io_uring_enter` of `getCQEvents` returns. -/
  | enterReturned (err : Option Errno)
  /-- `PeekCQEventBatch(buff)` is called on a buffer of length `len`. -/
  | peekBatch (len : ℕ)
  /-- The `io_uring_enter` of `PeekCQEventBatch` returns. -/
  | flushed
  /-- `AdvanceCQ(n)`; `SeenCQE` is `AdvanceCQ(1)`. -/
  | advance (n : UInt32)

namespace CQRun

/-- Nothing posted, nothing retired. -/
def start (ring : Ring) : CQRun where
  consumer := Consumer.start ring
  pc := .idle
  posted := []
  retired := []
  handed := []
  batches := []

/-- The call returns the pointers the consumer holds. -/
def handOut (r : CQRun) : CQRun :=
  { r with
    pc := .idle
    handed := r.handed ++ r.consumer.buff.mapIdx fun i ptr =>
      { position := r.retired.length + i
        ptr := ptr
        event := r.consumer.ring.cqRing.cq.cqeBuff ptr } }

/-- `PeekCQEventBatch` returns what its last read filled in. -/
def returnBatch (r : CQRun) (len : ℕ) : CQRun :=
  handOut
    { r with
      batches := r.batches ++
        [{ len := len, cq := r.consumer.ring.cqRing.cq, returned := r.consumer.buff }] }

/-- One step. -/
def step (r : CQRun) : CQRunEvent → Option CQRun
  | .post e =>
      (r.consumer.kernelPost e).map fun c =>
        { r with consumer := c, posted := r.posted ++ [e] }
  | .flags flags => some { r with consumer := r.consumer.kernelFlags flags }
  | .wait cnt =>
      match r.pc with
      | .idle => some { r with pc := .waiting (Ring.waitCQEvents cnt) }
      | _ => none
  | .pass =>
      match r.pc with
      | .waiting params =>
          match r.consumer.pass params with
          | (.ret _ _, c) => some (handOut { r with consumer := c })
          | (.enter _ _, c) => some { r with consumer := c, pc := .entered params }
      | _ => none
  | .enterReturned err =>
      match r.pc with
      | .entered params =>
          let result := match err with
            | none => .ok 0
            | some errno => .error (.enter errno)
          match Ring.afterEnter params r.consumer.buff.head? result with
          | .inr _ => some r.handOut
          | .inl params => some { r with pc := .waiting params }
      | _ => none
  | .peekBatch len =>
      match r.pc with
      | .idle =>
          let c := r.consumer.peekBatch len
          if c.buff.isEmpty && c.ring.sqRing.sq.cqNeedFlush then
            some { r with consumer := c, pc := .flushing len }
          else
            some (returnBatch { r with consumer := c } len)
      | _ => none
  | .flushed =>
      match r.pc with
      | .flushing len => some (returnBatch { r with consumer := r.consumer.peekBatch len } len)
      | _ => none
  | .advance n =>
      match r.pc with
      | .idle =>
          if le : n.toNat ≤ r.consumer.buff.length then
            some
              { r with
                consumer := r.consumer.advanceCQ n le
                retired := r.retired ++ r.consumer.events.take n.toNat }
          else none
      | _ => none

/-! ## The invariant -/

/-- The slot of the completion at a position of the stream that is not retired
yet. -/
def slotAt (r : CQRun) (position : ℕ) : ℕ :=
  r.consumer.ring.cqRing.cq.cqeAddr
    (r.consumer.ring.cqRing.cq.kHead + UInt32.ofNat (position - r.retired.length))

/-- What holds along every run. -/
structure Inv (r : CQRun) : Prop where
  extArg : r.consumer.ring.params.extArgFeature = true
  conserved : r.posted = r.retired ++ r.consumer.ready
  shown : ∀ h ∈ r.handed, r.posted[h.position]? = some h.event
  placed : ∀ h ∈ r.handed, r.retired.length ≤ h.position → h.ptr = r.slotAt h.position
  batches : ∀ b ∈ r.batches, b.cq.WF ∧ b.returned = b.cq.peekCQEventBatch b.len

theorem inv_start {ring : Ring} (extArg : ring.params.extArgFeature = true)
    (fresh : ring.cqRing.cq.kHead = ring.cqRing.cq.kTail) : (start ring).Inv where
  extArg := extArg
  conserved := by
    have empty : ring.cqRing.cq.ready = [] := by rw [CQ.ready, fresh, window_self]
    exact empty.symm
  shown := by simp [start]
  placed := by simp [start]
  batches := by simp [start]

/-- A step that changes only where the goroutine is, the pointers held and the
submission queue keeps the invariant. -/
theorem Inv.of_same_queue {r r' : CQRun} (inv : r.Inv)
    (params : r'.consumer.ring.params = r.consumer.ring.params)
    (queue : r'.consumer.ring.cqRing = r.consumer.ring.cqRing)
    (posted : r'.posted = r.posted) (retired : r'.retired = r.retired)
    (handed : r'.handed = r.handed) (batches : r'.batches = r.batches) : r'.Inv where
  extArg := by rw [params]; exact inv.extArg
  conserved := by rw [posted, retired, Consumer.ready, queue]; exact inv.conserved
  shown := by rw [handed, posted]; exact inv.shown
  placed := by
    intro h mem old
    rw [handed] at mem
    rw [retired] at old
    rw [slotAt, queue, retired]
    exact inv.placed h mem old
  batches := by rw [batches]; exact inv.batches

/-- **Handing out.**  A pointer handed out names the slot of its position. -/
theorem inv_handOut {r : CQRun} (inv : r.Inv) : r.handOut.Inv := by
  obtain ⟨named, short⟩ := r.consumer.held
  have split : ∀ h ∈ r.handOut.handed, h ∈ r.handed ∨
      ∃ (i : ℕ) (lt : i < r.consumer.buff.length),
        h = { position := r.retired.length + i
              ptr := r.consumer.buff[i]
              event := r.consumer.ring.cqRing.cq.cqeBuff r.consumer.buff[i] } := by
    intro h mem
    rcases List.mem_append.mp mem with old | new
    · exact Or.inl old
    · obtain ⟨i, lt, eq⟩ := List.mem_mapIdx.mp new
      exact Or.inr ⟨i, lt, eq.symm⟩
  refine ⟨inv.extArg, inv.conserved, fun h mem => ?_, fun h mem live => ?_, inv.batches⟩
  · rcases split h mem with old | ⟨i, lt, rfl⟩
    · exact inv.shown h old
    · show r.posted[r.retired.length + i]? = _
      have read : r.consumer.events[i]? = r.consumer.ready[i]? := by
        rw [r.consumer.events_eq_take, List.getElem?_take_of_lt lt]
      rw [inv.conserved, List.getElem?_append_right (Nat.le_add_right _ _),
        Nat.add_sub_cancel_left, ← read, Consumer.events, List.getElem?_map,
        List.getElem?_eq_getElem lt, Option.map_some]
  · rcases split h mem with old | ⟨i, lt, rfl⟩
    · exact inv.placed h old live
    · show r.consumer.buff[i] =
        CQ.cqeAddr _ (_ + UInt32.ofNat (r.retired.length + i - r.retired.length))
      rw [Nat.add_sub_cancel_left]
      exact (List.getElem_of_eq named lt).trans (getElem_slots _)

theorem inv_returnBatch {r : CQRun} (inv : r.Inv) (len : ℕ) :
    (returnBatch { r with consumer := r.consumer.peekBatch len } len).Inv := by
  refine inv_handOut ⟨inv.extArg, inv.conserved, inv.shown, inv.placed, fun b mem => ?_⟩
  rcases List.mem_append.mp mem with old | new
  · exact inv.batches b old
  · obtain rfl := List.mem_singleton.mp new
    exact ⟨r.consumer.ring.cqRing.wf, rfl⟩

theorem inv_post {r r' : CQRun} {e : CQEvent} (inv : r.Inv)
    (stepped : r.step (.post e) = some r') : r'.Inv := by
  obtain ⟨c, posted, rfl⟩ := Option.map_eq_some_iff.mp stepped
  obtain ⟨ready, -, params, -, head, addr⟩ := Consumer.kernelPost_spec posted
  refine ⟨?_, ?_, fun h mem => ?_, fun h mem live => ?_, inv.batches⟩
  · rw [params]
    exact inv.extArg
  · rw [ready, inv.conserved, List.append_assoc]
  · obtain ⟨lt, -⟩ := List.getElem?_eq_some_iff.mp (inv.shown h mem)
    show (r.posted ++ [e])[h.position]? = _
    rw [List.getElem?_append_left lt]
    exact inv.shown h mem
  · show h.ptr = CQ.cqeAddr _ _
    rw [addr, head]
    exact inv.placed h mem live

/-- **Retiring.**  The completions retired leave the queue, and the position of
every other one keeps its slot. -/
theorem inv_advance {r : CQRun} (inv : r.Inv) {n : UInt32}
    (le : n.toNat ≤ r.consumer.buff.length) :
    ({ r with
        consumer := r.consumer.advanceCQ n le
        retired := r.retired ++ r.consumer.events.take n.toNat } : CQRun).Inv := by
  have gone : r.consumer.events.take n.toNat = r.consumer.ready.take n.toNat := by
    rw [r.consumer.events_eq_take, List.take_take, Nat.min_eq_left le]
  have count : (r.consumer.events.take n.toNat).length = n.toNat := by
    rw [List.length_take, Consumer.events, List.length_map, Nat.min_eq_left le]
  refine ⟨inv.extArg, ?_, inv.shown, fun h mem live => ?_, inv.batches⟩
  · show r.posted = _ ++ Consumer.ready (r.consumer.advanceCQ n le)
    rw [r.consumer.ready_advanceCQ n le, gone, List.append_assoc, List.take_append_drop]
    exact inv.conserved
  · simp only [List.length_append, count] at live
    show h.ptr = CQ.cqeAddr _ (r.consumer.ring.cqRing.cq.kHead + n +
      UInt32.ofNat (h.position - (r.retired ++ _).length))
    obtain ⟨m, hm⟩ := Nat.exists_eq_add_of_le live
    rw [inv.placed h mem (by omega), slotAt, List.length_append, count]
    have shift : h.position - r.retired.length = n.toNat + m := by omega
    rw [shift, hm, Nat.add_sub_cancel_left, ← add_ofNat_add, UInt32.ofNat_toNat]
    rfl

/-- The invariant survives every step. -/
theorem inv_step {r r' : CQRun} {e : CQRunEvent} (inv : r.Inv)
    (stepped : r.step e = some r') : r'.Inv := by
  cases e with
  | post e => exact inv_post inv stepped
  | flags flags =>
      cases stepped
      exact inv.of_same_queue rfl rfl rfl rfl rfl rfl
  | wait cnt =>
      simp only [step] at stepped
      split at stepped
      · cases stepped
        exact inv.of_same_queue rfl rfl rfl rfl rfl rfl
      · cases stepped
  | pass =>
      simp only [step] at stepped
      split at stepped
      · next params _ =>
        have same := Consumer.ring_pass inv.extArg params
        split at stepped
        · next c passed =>
          rw [passed] at same
          cases stepped
          refine inv_handOut (inv.of_same_queue ?_ ?_ rfl rfl rfl rfl)
          · exact congrArg Ring.params same
          · exact congrArg Ring.cqRing same
        · next c passed =>
          rw [passed] at same
          cases stepped
          refine inv.of_same_queue ?_ ?_ rfl rfl rfl rfl
          · exact congrArg Ring.params same
          · exact congrArg Ring.cqRing same
      · cases stepped
  | enterReturned err =>
      simp only [step] at stepped
      split at stepped
      · split at stepped
        · cases stepped
          exact inv_handOut inv
        · cases stepped
          exact inv.of_same_queue rfl rfl rfl rfl rfl rfl
      · cases stepped
  | peekBatch len =>
      simp only [step] at stepped
      split at stepped
      · split at stepped
        · cases stepped
          exact inv.of_same_queue rfl rfl rfl rfl rfl rfl
        · cases stepped
          exact inv_returnBatch inv len
      · cases stepped
  | flushed =>
      simp only [step] at stepped
      split at stepped
      · cases stepped
        exact inv_returnBatch inv _
      · cases stepped
  | advance n =>
      simp only [step] at stepped
      split at stepped
      · split at stepped
        · next le =>
          cases stepped
          exact inv_advance inv le
        · cases stepped
      · cases stepped

/-- The completion at a position not retired yet is in its slot. -/
theorem Inv.getElem?_posted {r : CQRun} (inv : r.Inv) {position : ℕ} {e : CQEvent}
    (live : r.retired.length ≤ position) (posted : r.posted[position]? = some e) :
    r.consumer.ring.cqRing.cq.cqeBuff (r.slotAt position) = e := by
  rw [inv.conserved, List.getElem?_append_right live] at posted
  obtain ⟨lt, eq⟩ := List.getElem?_eq_some_iff.mp posted
  rw [← eq]
  exact (getElem_window lt).symm

/-- The invariant holds in every state of every run. -/
theorem inv_of_path {ring : Ring} (extArg : ring.params.extArgFeature = true)
    (fresh : ring.cqRing.cq.kHead = ring.cqRing.cq.kTail)
    {p : List (CQRun × CQRunEvent)} {r : CQRun} (path : Path step (start ring) p r) : r.Inv :=
  path.invariant_of_step Inv (inv_start extArg fresh) fun _ _ _ inv stepped =>
    inv_step inv stepped

end CQRun

/-- A batch is what the promise of `PeekCQEventBatch` says: as many entries as
fit, the ones that many single peeks would have returned. -/
def Batch.Faithful (b : Batch) : Prop :=
  b.returned.length = min b.len b.cq.ready.length ∧
    b.returned.map some = b.cq.singlePeeks (min b.len b.cq.ready.length)

/-- The length of the buffer fits 32 bits, or what is left of it in 32 bits
still holds all that is ready. -/
def Batch.Fits (b : Batch) : Prop :=
  b.len < 2 ^ 32 ∨ b.cq.ready.length ≤ b.len % 2 ^ 32

instance (b : Batch) : Decidable b.Fits := inferInstanceAs (Decidable (_ ∨ _))

theorem Batch.faithful_iff_fits {b : Batch} (wf : b.cq.WF)
    (returned : b.returned = b.cq.peekCQEventBatch b.len) : b.Faithful ↔ b.Fits := by
  have count : b.returned.length = min (b.len % 2 ^ 32) b.cq.ready.length := by
    rw [returned, CQ.peekCQEventBatch_eq, length_slots]
  have small : b.cq.ready.length < 2 ^ 32 := by
    rw [CQ.length_ready]
    exact gap_lt _ _
  unfold Faithful Fits
  constructor
  · rintro ⟨length, -⟩
    omega
  · intro fits
    have length : b.returned.length = min b.len b.cq.ready.length := by
      rcases fits with narrow | enough
      · rw [count, Nat.mod_eq_of_lt narrow]
      · omega
    refine ⟨length, ?_⟩
    rw [wf.singlePeeks_eq (Nat.min_le_right _ _), ← length, returned,
      CQ.peekCQEventBatch_eq, length_slots]

/-- **The completion ring delivers a faithful stream, batches of `2 ^ 32` and
more apart.**  Start from any empty completion queue of a ring with the ext-arg
feature, of any power-of-two size and at any counter value, and let the kernel's
posts and the consumer's calls interleave in any way.  Then

* what the consumer retired is a prefix of what the kernel posted;
* a pointer handed out shows, until it is retired, what it showed when it was
  handed out;
* each batch returned is the one promised exactly if its buffer is shorter than
  `2 ^ 32` or its length modulo `2 ^ 32` covers all that is ready. -/
theorem cq_run_faithful_stream {ring : Ring} (extArg : ring.params.extArgFeature = true)
    (fresh : ring.cqRing.cq.kHead = ring.cqRing.cq.kTail)
    {p : List (CQRun × CQRunEvent)} {r : CQRun}
    (path : Path CQRun.step (CQRun.start ring) p r) :
    r.retired <+: r.posted ∧
      (∀ h ∈ r.handed, r.retired.length ≤ h.position →
        r.consumer.ring.cqRing.cq.cqeBuff h.ptr = h.event) ∧
      ∀ b ∈ r.batches, b.Faithful ↔ b.Fits := by
  have inv := CQRun.inv_of_path extArg fresh path
  refine ⟨⟨_, inv.conserved.symm⟩, fun h mem live => ?_, fun b mem => ?_⟩
  · rw [inv.placed h mem live]
    exact inv.getElem?_posted live (inv.shown h mem)
  · obtain ⟨wf, returned⟩ := inv.batches b mem
    exact Batch.faithful_iff_fits wf returned

/-! A ring of two completion slots, its counters one short of the wrap-around. -/

/-- Two completion slots and the submission queue of `wrappingSQ`, ext-arg
feature present. -/
def wrappingRing : Ring where
  params := { flags := 0, features := featExtArg }
  sqRing := { sq := wrappingSQ, wf := wrappingSQ_fresh.wf }
  cqRing :=
    { cq :=
        { kHead := 4294967295
          kTail := 4294967295
          kRingMask := 1
          kRingEntries := 2
          cqeBuff := fun _ => default }
      wf := ⟨⟨⟨1, rfl⟩, rfl⟩, by decide⟩ }

/-- The law at a run through the wrap-around: two posts, a batch of both, one of
them retired, a third post, a single peek. -/
theorem cq_run_faithful_stream_wrapping :
    ∃ p r, Path CQRun.step (CQRun.start wrappingRing) p r ∧
      r.retired.map CQEvent.userData = [7] ∧ r.posted.map CQEvent.userData = [7, 8, 9] ∧
      r.retired <+: r.posted :=
  ⟨_, _,
    path_record [.post ⟨7, 0, 0⟩, .post ⟨8, 0, 0⟩, .peekBatch 128, .advance 1,
      .post ⟨9, 0, 0⟩, .wait 0, .pass] rfl,
    rfl, rfl,
    (@cq_run_faithful_stream wrappingRing rfl rfl _ _ (path_record
      [.post ⟨7, 0, 0⟩, .post ⟨8, 0, 0⟩, .peekBatch 128, .advance 1, .post ⟨9, 0, 0⟩,
        .wait 0, .pass] rfl)).1⟩

/-- One completion is ready and the buffer has `2 ^ 32` places: nothing is
returned. -/
theorem peekCQEventBatch_drops_long_buffer :
    ∃ p r, Path CQRun.step (CQRun.start wrappingRing) p r ∧
      ∃ b ∈ r.batches, b.len = 2 ^ 32 ∧ b.cq.ready.length = 1 ∧ b.returned = [] ∧
        ¬ b.Faithful := by
  refine ⟨_, _, path_record [.post ⟨7, 0, 0⟩, .peekBatch (2 ^ 32)] rfl, _,
    List.mem_singleton_self _, rfl, rfl, rfl, ?_⟩
  rintro ⟨length, -⟩
  cases length

end GoUring.Uring
