import GoUring.Uring.Ring

/-!
# A ring and its consumer

The functions that read the completion queue return *pointers* into it.  The
slots they point to may be overwritten by the kernel once they are retired, so
what matters about a pointer is which slot it names relative to the head of the
queue.  `CompletionQueue.Held` says that a list of pointers names the oldest
completions, in order; a `Consumer` is a ring together with the pointers its
consumer was last given, and carries that fact.  The kernel's posts keep it
(they write behind the held slots), retiring drops pointers from the front, and
every reading function establishes it.
-/

namespace GoUring.Uring

open CounterRing

namespace CompletionQueue

/-- The pointers name the slots of the oldest completions, in order. -/
def Held (q : CompletionQueue) (ptrs : List ℕ) : Prop :=
  ptrs = slots q.cq.cqeAddr q.cq.kHead ptrs.length ∧ ptrs.length ≤ q.ready.length

theorem held_nil (q : CompletionQueue) : q.Held [] := ⟨rfl, Nat.zero_le _⟩

/-- A batch is held. -/
theorem held_peekCQEventBatch (q : CompletionQueue) (len : ℕ) :
    q.Held (q.cq.peekCQEventBatch len) := by
  rw [CQ.peekCQEventBatch_eq]
  refine ⟨by rw [length_slots], ?_⟩
  rw [length_slots]
  exact Nat.min_le_right _ _

/-- What held pointers show is the oldest completions. -/
theorem Held.read {q : CompletionQueue} {ptrs : List ℕ} (held : q.Held ptrs) :
    ptrs.map q.cq.cqeBuff = q.ready.take ptrs.length := by
  obtain ⟨named, le⟩ := held
  rw [ready, CQ.length_ready] at le
  rw [ready, CQ.ready, window, ← List.map_take, take_slots le, ← named]

theorem Held.advanceCQ {q : CompletionQueue} {ptrs : List ℕ} (held : q.Held ptrs)
    {n : UInt32} (le : n.toNat ≤ ptrs.length) :
    (q.advanceCQ n (le.trans held.2)).Held (ptrs.drop n.toNat) := by
  obtain ⟨named, short⟩ := held
  obtain ⟨m, hm⟩ := Nat.exists_eq_add_of_le le
  refine ⟨?_, ?_⟩
  · have rest : (ptrs.drop n.toNat).length = m := by
      rw [List.length_drop, hm, Nat.add_sub_cancel_left]
    rw [hm] at named
    rw [rest]
    conv_lhs => rw [named, drop_slots, UInt32.ofNat_toNat]
    rfl
  · rw [List.length_drop, ready_advanceCQ, List.length_drop]
    exact Nat.sub_le_sub_right short _

/-- A post leaves the held slots alone. -/
theorem Held.kernelPost {q q' : CompletionQueue} {ptrs : List ℕ} (held : q.Held ptrs)
    {e : CQEvent} (posted : q.kernelPost e = some q') : q'.Held ptrs := by
  obtain ⟨named, le⟩ := held
  obtain ⟨-, -, head, mask, -⟩ := q.wf.kernelPost_spec (kernelPost_cq posted)
  have addr : q'.cq.cqeAddr = q.cq.cqeAddr := by
    funext counter
    rw [CQ.cqeAddr, CQ.cqeAddr, mask]
  refine ⟨?_, ?_⟩
  · rw [addr, head]
    exact named
  · rw [ready_kernelPost posted, List.length_append]
    exact Nat.le_add_right_of_le le

end CompletionQueue

/-- The pointer a pass of `getCQEvents` picks is held. -/
theorem Ring.held_getIteration (r : Ring) (params : GetParams) :
    (r.getIteration params).2.cqRing.Held (r.getIteration params).1.cqe.toList := by
  obtain ⟨ring, cqe⟩ := r.getIteration_peek params
  rw [ring, cqe]
  have spec := (peekLoop_spec r.params.extArgFeature _ _ r.cqRing.wf
    (CQ.length_ready _).ge).2
  cases picked : r.peekCQEvent.1.cqe with
  | none => exact CompletionQueue.held_nil _
  | some ptr =>
      obtain ⟨nonempty, head⟩ := spec ptr picked
      refine ⟨?_, nonempty⟩
      show [ptr] = [CQ.cqeAddr _ (_ + 0)]
      rw [UInt32.add_zero, head]
      rfl

/-- A ring with the pointers its consumer was last given, less those it has
retired. -/
structure Consumer where
  ring : Ring
  buff : List ℕ
  held : ring.cqRing.Held buff

namespace Consumer

/-- A consumer that was given nothing yet. -/
def start (r : Ring) : Consumer := { ring := r, buff := [], held := r.cqRing.held_nil }

/-- The completions posted and not yet retired. -/
def ready (c : Consumer) : List CQEvent := c.ring.cqRing.ready

/-- What the consumer's pointers show. -/
def events (c : Consumer) : List CQEvent := c.buff.map c.ring.cqRing.cq.cqeBuff

theorem events_eq_take (c : Consumer) : c.events = c.ready.take c.buff.length :=
  c.held.read

theorem length_buff_le (c : Consumer) : c.buff.length ≤ c.ready.length := c.held.2

/-- The buffer holds at most as many pointers as there are completions ready, so
`uint32(n)` loses nothing. -/
theorem toNat_length_buff (c : Consumer) :
    (UInt32.ofNat c.buff.length).toNat = c.buff.length := by
  refine UInt32.toNat_ofNat_of_lt' (lt_of_le_of_lt c.held.2 ?_)
  rw [CompletionQueue.ready, CQ.length_ready]
  exact gap_lt _ _

/-- The ring with another submission queue: the consumer's side is untouched. -/
def withSQ (c : Consumer) (sq : SubmissionQueue) : Consumer :=
  { c with ring := { c.ring with sqRing := sq } }

/-- The kernel posts a completion; `none` while the queue is full. -/
def kernelPost (c : Consumer) (e : CQEvent) : Option Consumer :=
  match posted : c.ring.cqRing.kernelPost e with
  | none => none
  | some cq =>
      some
        { ring := { c.ring with cqRing := cq }
          buff := c.buff
          held := c.held.kernelPost posted }

/-- The kernel changes the flags of the submission queue, among them the one
that reports completions waiting behind a full completion queue. -/
def kernelFlags (c : Consumer) (flags : UInt32) : Consumer :=
  c.withSQ (c.ring.sqRing.kernelFlags flags)

/-- One pass of the loop of `getCQEvents`; the consumer holds the pointer it
picked. -/
def pass (c : Consumer) (params : Ring.GetParams) : Ring.GetOutcome × Consumer :=
  ((c.ring.getIteration params).1,
    { ring := (c.ring.getIteration params).2
      buff := (c.ring.getIteration params).1.cqe.toList
      held := c.ring.held_getIteration params })

/-- One read of `peekCQEventBatch` into a buffer of length `len`. -/
def peekBatch (c : Consumer) (len : ℕ) : Consumer :=
  { ring := c.ring
    buff := c.ring.cqRing.cq.peekCQEventBatch len
    held := c.ring.cqRing.held_peekCQEventBatch len }

/-- `AdvanceCQ(n)` for `n` of the completions held. -/
def advanceCQ (c : Consumer) (n : UInt32) (le : n.toNat ≤ c.buff.length) : Consumer :=
  { ring := { c.ring with cqRing := c.ring.cqRing.advanceCQ n (le.trans c.held.2) }
    buff := c.buff.drop n.toNat
    held := c.held.advanceCQ le }

/-- **A post, seen by the consumer.**  One completion more, the pointers and the
head as before. -/
theorem kernelPost_spec {c c' : Consumer} {e : CQEvent}
    (posted : c.kernelPost e = some c') :
    c'.ready = c.ready ++ [e] ∧ c'.buff = c.buff ∧ c'.ring.params = c.ring.params ∧
      c'.ring.sqRing = c.ring.sqRing ∧
      c'.ring.cqRing.cq.kHead = c.ring.cqRing.cq.kHead ∧
      c'.ring.cqRing.cq.cqeAddr = c.ring.cqRing.cq.cqeAddr := by
  unfold kernelPost at posted
  split at posted
  · cases posted
  · next cq raw =>
    cases posted
    obtain ⟨-, -, head, mask, -⟩ :=
      c.ring.cqRing.wf.kernelPost_spec (CompletionQueue.kernelPost_cq raw)
    refine ⟨CompletionQueue.ready_kernelPost raw, rfl, rfl, rfl, head, ?_⟩
    funext counter
    rw [CQ.cqeAddr, CQ.cqeAddr, mask]

/-- The pointers show what they showed before a post. -/
theorem events_kernelPost {c c' : Consumer} {e : CQEvent}
    (posted : c.kernelPost e = some c') : c'.events = c.events := by
  obtain ⟨ready, buff, -⟩ := kernelPost_spec posted
  rw [events_eq_take, events_eq_take, ready, buff,
    List.take_append_of_le_length c.length_buff_le]

/-- On a ring with the ext-arg feature a pass leaves the ring alone. -/
theorem ring_pass {c : Consumer} (extArg : c.ring.params.extArgFeature = true)
    (params : Ring.GetParams) : (c.pass params).2.ring = c.ring :=
  (Ring.getIteration_extArg extArg params).1

theorem ready_advanceCQ (c : Consumer) (n : UInt32) (le : n.toNat ≤ c.buff.length) :
    (c.advanceCQ n le).ready = c.ready.drop n.toNat :=
  c.ring.cqRing.ready_advanceCQ n (le.trans c.held.2)

end Consumer

end GoUring.Uring
