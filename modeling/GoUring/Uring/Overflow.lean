import GoUring.Uring.CompletionRun

/-!
# Completions that do not fit

When the completion queue is full the kernel keeps further completions in a backlog of
its own and sets `sqCQOverflow`; while the backlog is not empty, new completions go
behind it.  An `io_uring_enter` with `GETEVENTS` moves what fits into the queue.  The
library asks for that in `PeekCQEventBatch`, and only when the queue looks empty.

`Backlogged` is a ring with such a kernel: that the flag says whether there is a backlog
is part of the type.  To the consumer, queue and backlog together are one queue without a
bound (`Backlogged.held`): a post appends to it, a flush leaves it as it is, retiring
drops from its front.  A flush with a backlog leaves something in the queue.

`DrainRun` is the loop over batches of the consumers on such a ring, the kernel posting
at any point.
-/

namespace GoUring.Uring

open CounterRing Runs

/-! ## The flag -/

/-- The flags of the ring, with the one for the backlog set or cleared. -/
def reportOverflow (flags : UInt32) (waiting : Bool) : UInt32 :=
  if waiting then flags ||| sqCQOverflow else flags &&& ~~~sqCQOverflow

theorem reportOverflow_and (flags : UInt32) (waiting : Bool) :
    (reportOverflow flags waiting &&& sqCQOverflow != 0) = waiting := by
  cases waiting with
  | true =>
      refine bne_iff_ne.mpr fun zero => ?_
      have bit := congrArg (fun x : UInt32 => x.toBitVec.getLsbD 1) zero
      simp [reportOverflow, sqCQOverflow] at bit
  | false =>
      have cleared : flags &&& ~~~sqCQOverflow &&& sqCQOverflow = 0 := by
        rw [UInt32.and_assoc, UInt32.not_and_self, UInt32.and_zero]
      show (flags &&& ~~~sqCQOverflow &&& sqCQOverflow != 0) = false
      rw [cleared]
      rfl

/-! ## A ring with a backlog -/

/-- A ring whose kernel keeps a backlog, and its consumer. -/
structure Backlogged where
  consumer : Consumer
  backlog : List CQEvent
  flagged : consumer.ring.sqRing.sq.cqNeedFlush = !backlog.isEmpty

namespace Backlogged

/-- The kernel sets its flags, the one for the backlog as it is. -/
def report (c : Consumer) (backlog : List CQEvent) (flags : UInt32) : Backlogged where
  consumer := c.kernelFlags (reportOverflow flags !backlog.isEmpty)
  backlog := backlog
  flagged := reportOverflow_and flags _

/-- The flags of the ring. -/
def flags (r : Backlogged) : UInt32 := r.consumer.ring.sqRing.sq.kFlags

/-- The completions in the queue. -/
def ready (r : Backlogged) : List CQEvent := r.consumer.ready

/-- **What the kernel has for the consumer**, oldest first. -/
def held (r : Backlogged) : List CQEvent := r.ready ++ r.backlog

/-- A completion goes to the queue if nothing is waiting and a slot is free, else behind
the backlog. -/
def post (r : Backlogged) (e : CQEvent) : Backlogged :=
  match r.backlog, r.consumer.kernelPost e with
  | [], some c => report c [] r.flags
  | backlog, _ => report r.consumer (backlog ++ [e]) r.flags

/-- `io_uring_enter` with `GETEVENTS`. -/
def flush (r : Backlogged) : Backlogged :=
  let (c, backlog) := moveBacklog Consumer.kernelPost r.backlog r.consumer
  report c backlog r.flags

/-- One read of `peekCQEventBatch` into a buffer of length `len`. -/
def peekBatch (r : Backlogged) (len : ℕ) : Backlogged :=
  { r with consumer := r.consumer.peekBatch len }

/-- `AdvanceCQ(uint32(n))` for the `n` completions of the batch. -/
def advanceCQ (r : Backlogged) : Backlogged :=
  { r with
    consumer := r.consumer.advanceCQ (UInt32.ofNat r.consumer.buff.length)
      r.consumer.toNat_length_buff.le }

/-- What a step of the kernel does to a ring, to the consumer's eyes: the batch is left
alone and the queue may get longer. -/
structure Grows (r r' : Backlogged) : Prop where
  buff : r'.consumer.buff = r.consumer.buff
  ready : r.ready <+: r'.ready

theorem grows_report (r : Backlogged) (flags : UInt32) :
    r.Grows (report r.consumer r.backlog flags) := ⟨rfl, List.prefix_rfl⟩

/-- **A post appends.** -/
theorem post_spec (r : Backlogged) (e : CQEvent) :
    (r.post e).held = r.held ++ [e] ∧ r.Grows (r.post e) ∧
      (r.backlog ≠ [] → (r.post e).backlog ≠ []) := by
  rw [post]
  split
  · next c none posted =>
    obtain ⟨ready, buff, -⟩ := Consumer.kernelPost_spec posted
    refine ⟨?_, ⟨buff, ⟨[e], ready.symm⟩⟩, fun some => absurd none some⟩
    rw [held, held, none, List.append_nil]
    exact (List.append_nil _).trans ready
  · refine ⟨?_, ⟨rfl, List.prefix_rfl⟩, fun _ => ?_⟩
    · exact (List.append_assoc _ _ _).symm
    · exact List.append_ne_nil_of_right_ne_nil _ (List.cons_ne_nil e [])

/-- A post fails only if something is ready. -/
theorem ready_ne_nil_of_full {c : Consumer} {e : CQEvent} (full : c.kernelPost e = none) :
    c.ready ≠ [] := by
  intro empty
  have heads := CQ.ready_eq_nil_iff.mp empty
  have free : c.ring.cqRing.cq.kTail - c.ring.cqRing.cq.kHead < c.ring.cqRing.cq.kRingEntries := by
    obtain ⟨k, pow⟩ := c.ring.cqRing.wf.sized.pow
    rw [heads, UInt32.sub_self, UInt32.lt_iff_toNat_lt, pow]
    exact Nat.two_pow_pos k
  unfold Consumer.kernelPost at full
  split at full
  · next none =>
    unfold CompletionQueue.kernelPost at none
    split at none
    · next raw =>
      rw [CQ.kernelPost, if_pos free] at raw
      cases raw
    · cases none
  · cases full

theorem moveBacklog_spec : ∀ (backlog : List CQEvent) (c : Consumer),
    let moved := moveBacklog Consumer.kernelPost backlog c
    moved.1.ready ++ moved.2 = c.ready ++ backlog ∧ moved.1.buff = c.buff ∧
      c.ready <+: moved.1.ready ∧ (backlog ≠ [] → moved.1.ready ≠ []) := by
  intro backlog
  induction backlog with
  | nil => exact fun c => ⟨rfl, rfl, List.prefix_rfl, fun some => absurd rfl some⟩
  | cons e rest ih =>
      intro c
      rw [moveBacklog]
      split
      · next c' posted =>
        obtain ⟨ready, buff, -⟩ := Consumer.kernelPost_spec posted
        obtain ⟨same, buff', more, -⟩ := ih c'
        have first : c.ready ++ [e] <+: (moveBacklog Consumer.kernelPost rest c').1.ready :=
          ready ▸ more
        refine ⟨?_, buff'.trans buff, (List.prefix_append _ _).trans first, fun _ none => ?_⟩
        · rw [same, ready, List.append_assoc, List.singleton_append]
        · rw [none] at first
          exact List.append_ne_nil_of_right_ne_nil _ (List.cons_ne_nil e [])
            (List.prefix_nil.mp first)
      · next full => exact ⟨rfl, rfl, List.prefix_rfl, fun _ => ready_ne_nil_of_full full⟩

/-- **A flush moves and loses nothing**, and if there was a backlog the queue is not empty
afterwards. -/
theorem flush_spec (r : Backlogged) :
    r.flush.held = r.held ∧ r.Grows r.flush ∧ (r.backlog ≠ [] → r.flush.ready ≠ []) := by
  obtain ⟨same, buff, more, some⟩ := moveBacklog_spec r.backlog r.consumer
  exact ⟨same, ⟨buff, more⟩, some⟩

/-- A batch is empty only if nothing is ready or the length of the buffer is zero modulo
`2 ^ 32`. -/
theorem buff_peekBatch_eq_nil_iff (r : Backlogged) (len : ℕ) :
    (r.peekBatch len).consumer.buff = [] ↔ len % 2 ^ 32 = 0 ∨ r.ready = [] := by
  show r.consumer.ring.cqRing.cq.peekCQEventBatch len = [] ↔ _
  rw [CQ.peekCQEventBatch_eq, ← List.length_eq_zero_iff, length_slots, Nat.min_eq_zero_iff,
    List.length_eq_zero_iff]
  rfl

theorem held_advanceCQ (r : Backlogged) :
    r.advanceCQ.held = r.held.drop r.consumer.buff.length := by
  have retired : r.advanceCQ.ready = r.ready.drop r.consumer.buff.length := by
    refine (r.consumer.ready_advanceCQ _ r.consumer.toNat_length_buff.le).trans ?_
    rw [Consumer.toNat_length_buff]
    rfl
  rw [held, held, retired, ready, List.drop_append_of_le_length r.consumer.length_buff_le]
  rfl

end Backlogged

/-! ## The loop over batches -/

/-- Where the consumer's goroutine is. -/
inductive DrainPC
  /-- Before a call of `PeekCQEventBatch`. -/
  | idle
  /-- In the call, before the counters are read. -/
  | count (len : ℕ)
  /-- The batch is empty; `counted` is what the queue held when the counters were read. -/
  | flag (len : ℕ) (counted : List CQEvent)
  /-- In `io_uring_enter`; `waiting` is the backlog when the flag was read. -/
  | enter (len : ℕ) (waiting : List CQEvent)
  /-- Back from it, before the counters are read again. -/
  | recount (len : ℕ) (waiting : List CQEvent)
  /-- `i` events of the batch are processed. -/
  | batch (i : ℕ)
  /-- The call has returned 0; `counted` is what the queue held when it last read the
  counters, `waiting` the backlog when it last read the flag. -/
  | zero (counted waiting : List CQEvent)

/-- How many events of the batch are processed. -/
def DrainPC.taken : DrainPC → ℕ
  | .batch i => i
  | _ => 0

/-- The length of the buffer for which the counters are about to be read. -/
def DrainPC.len : DrainPC → Option ℕ
  | .count len => some len
  | .recount len _ => some len
  | _ => none

/-- A ring with a backlog, its consumer in the loop, what was posted and what was
processed. -/
structure DrainRun where
  ring : Backlogged
  pc : DrainPC
  posted : List CQEvent
  processed : List CQEvent

/-- What can happen. -/
inductive DrainEvent
  /-- The kernel posts. -/
  | post (e : CQEvent)
  /-- The kernel changes the other flags of the ring. -/
  | flags (flags : UInt32)
  /-- `PeekCQEventBatch(buff)` is called on a buffer of length `len`. -/
  | call (len : ℕ)
  /-- It reads the counters and fills the buffer. -/
  | count
  /-- It reads the flag. -/
  | flag
  /-- Its `io_uring_enter` succeeds. -/
  | enter
  /-- The next event of the batch is processed. -/
  | process
  /-- `AdvanceCQ(n)` after the last one. -/
  | advance

namespace DrainRun

/-- A ring without a backlog; what its queue holds was posted before. -/
def start (ring : Ring) : DrainRun where
  ring := .report (Consumer.start ring) [] ring.sqRing.sq.kFlags
  pc := .idle
  posted := ring.cqRing.ready
  processed := []

/-- One step. -/
def step (s : DrainRun) : DrainEvent → Option DrainRun
  | .post e => some { s with ring := s.ring.post e, posted := s.posted ++ [e] }
  | .flags flags =>
      some { s with ring := .report s.ring.consumer s.ring.backlog flags }
  | .call len =>
      match s.pc with
      | .idle | .zero _ _ => if len ≠ 0 then some { s with pc := .count len } else none
      | _ => none
  | .count =>
      match s.pc with
      | .count len =>
          let ring := s.ring.peekBatch len
          let pc := if ring.consumer.buff.isEmpty then .flag len s.ring.ready else .batch 0
          some { s with ring := ring, pc := pc }
      | .recount len waiting =>
          let ring := s.ring.peekBatch len
          let pc := if ring.consumer.buff.isEmpty then .zero s.ring.ready waiting else .batch 0
          some { s with ring := ring, pc := pc }
      | _ => none
  | .flag =>
      match s.pc with
      | .flag len counted =>
          let pc :=
            if s.ring.consumer.ring.sqRing.sq.cqNeedFlush then .enter len s.ring.backlog
            else .zero counted s.ring.backlog
          some { s with pc := pc }
      | _ => none
  | .enter =>
      match s.pc with
      | .enter len waiting => some { s with ring := s.ring.flush, pc := .recount len waiting }
      | _ => none
  | .process =>
      match s.pc with
      | .batch i =>
          s.ring.consumer.events[i]?.map fun e =>
            { s with pc := .batch (i + 1), processed := s.processed ++ [e] }
      | _ => none
  | .advance =>
      match s.pc with
      | .batch i =>
          if i = s.ring.consumer.buff.length then
            some { s with ring := s.ring.advanceCQ, pc := .idle }
          else none
      | _ => none

/-! ## What a step can do -/

/-- The steps, by what they do. -/
inductive Transition (s : DrainRun) : DrainEvent → DrainRun → Prop
  /-- The kernel does something to the ring. -/
  | kernel {event : DrainEvent} {ring : Backlogged} {news : List CQEvent}
      (grows : s.ring.Grows ring) (held : ring.held = s.ring.held ++ news)
      (waits : s.ring.backlog ≠ [] → ring.backlog ≠ []) :
      Transition s event { s with ring := ring, posted := s.posted ++ news }
  | call {len : ℕ} (idle : s.pc.taken = 0) : Transition s (.call len) { s with pc := .count len }
  | full {len : ℕ} (some : (s.ring.peekBatch len).consumer.buff ≠ []) (idle : s.pc.taken = 0) :
      Transition s .count { s with ring := s.ring.peekBatch len, pc := .batch 0 }
  | empty {len : ℕ} (here : s.pc = .count len)
      (none : (s.ring.peekBatch len).consumer.buff = []) :
      Transition s .count { s with ring := s.ring.peekBatch len, pc := .flag len s.ring.ready }
  | emptyAgain {len : ℕ} {waiting : List CQEvent} (here : s.pc = .recount len waiting)
      (none : (s.ring.peekBatch len).consumer.buff = []) :
      Transition s .count
        { s with ring := s.ring.peekBatch len, pc := .zero s.ring.ready waiting }
  | flush {len : ℕ} {counted : List CQEvent} (here : s.pc = .flag len counted)
      (waits : s.ring.backlog ≠ []) :
      Transition s .flag { s with pc := .enter len s.ring.backlog }
  | give {len : ℕ} {counted : List CQEvent} (here : s.pc = .flag len counted)
      (none : s.ring.backlog = []) : Transition s .flag { s with pc := .zero counted [] }
  | enter {len : ℕ} {waiting : List CQEvent} (here : s.pc = .enter len waiting) :
      Transition s .enter { s with ring := s.ring.flush, pc := .recount len waiting }
  | process {i : ℕ} {e : CQEvent} (here : s.pc = .batch i)
      (next : s.ring.consumer.events[i]? = some e) :
      Transition s .process { s with pc := .batch (i + 1), processed := s.processed ++ [e] }
  | advance (here : s.pc = .batch s.ring.consumer.buff.length) :
      Transition s .advance { s with ring := s.ring.advanceCQ, pc := .idle }

theorem call_transition {s s' : DrainRun} {len : ℕ} (idle : s.pc.taken = 0)
    (called : (if len ≠ 0 then some { s with pc := .count len } else none) = some s') :
    Transition s (.call len) s' := by
  split at called
  · cases called
    exact .call idle
  · cases called

theorem step_transition {s s' : DrainRun} {event : DrainEvent}
    (stepped : s.step event = some s') : Transition s event s' := by
  cases event with
  | post e =>
      cases stepped
      obtain ⟨held, grows, waits⟩ := s.ring.post_spec e
      exact .kernel grows held waits
  | flags flags =>
      cases stepped
      have nothing := @Transition.kernel s (.flags flags) _ [] (s.ring.grows_report flags)
        (List.append_nil _).symm id
      rwa [List.append_nil] at nothing
  | call len =>
      simp only [step] at stepped
      split at stepped
      · next here => exact call_transition (here ▸ rfl) stepped
      · next here => exact call_transition (here ▸ rfl) stepped
      · cases stepped
  | count =>
      simp only [step] at stepped
      split at stepped
      · next len here =>
        cases stepped
        split
        · next empty => exact .empty here (List.isEmpty_iff.mp empty)
        · next some => exact .full (mt List.isEmpty_iff.mpr some) (here ▸ rfl)
      · next len waiting here =>
        cases stepped
        split
        · next empty => exact .emptyAgain here (List.isEmpty_iff.mp empty)
        · next some => exact .full (mt List.isEmpty_iff.mpr some) (here ▸ rfl)
      · cases stepped
  | flag =>
      simp only [step] at stepped
      split at stepped
      · next len counted here =>
        cases stepped
        rw [s.ring.flagged]
        split
        · next waits => exact .flush here fun none => by simp [none] at waits
        · next none =>
          have empty : s.ring.backlog = [] := by simpa using none
          rw [empty]
          exact .give here empty
      · cases stepped
  | enter =>
      simp only [step] at stepped
      split at stepped
      · next here =>
        cases stepped
        exact .enter here
      · cases stepped
  | process =>
      simp only [step] at stepped
      split at stepped
      · next here =>
        obtain ⟨e, next, rfl⟩ := Option.map_eq_some_iff.mp stepped
        exact .process here next
      · cases stepped
  | advance =>
      simp only [step] at stepped
      split at stepped
      · next i here =>
        split at stepped
        · next last =>
          cases stepped
          exact .advance (last ▸ here)
        · cases stepped
      · cases stepped

/-! ## The invariant -/

/-- What the place of the consumer says about the ring. -/
def Placed (ring : Backlogged) : DrainPC → Prop
  | .batch i => i ≤ ring.consumer.buff.length
  | .enter _ _ => ring.backlog ≠ []
  | .recount _ _ => ring.ready ≠ []
  | _ => True

/-- What holds along every run. -/
structure Inv (s : DrainRun) : Prop where
  conserved : s.posted = s.processed ++ s.ring.held.drop s.pc.taken
  placed : Placed s.ring s.pc

theorem inv_start (ring : Ring) : (start ring).Inv where
  conserved := (List.append_nil _).symm
  placed := trivial

/-- The kernel does not move the consumer. -/
theorem Placed.grows {ring ring' : Backlogged} {pc : DrainPC} (placed : Placed ring pc)
    (grows : ring.Grows ring') (waits : ring.backlog ≠ [] → ring'.backlog ≠ []) :
    Placed ring' pc := by
  cases pc with
  | batch i => exact placed.trans_eq (congrArg List.length grows.buff.symm)
  | enter len waiting => exact waits placed
  | recount len waiting =>
      intro none
      have short := grows.ready
      rw [none] at short
      exact placed (List.prefix_nil.mp short)
  | _ => trivial

/-- The batch is part of what the kernel has. -/
theorem length_buff_le (ring : Backlogged) : ring.consumer.buff.length ≤ ring.held.length := by
  rw [Backlogged.held, List.length_append]
  exact Nat.le_add_right_of_le ring.consumer.length_buff_le

theorem Placed.taken_le {ring : Backlogged} {pc : DrainPC} (placed : Placed ring pc) :
    pc.taken ≤ ring.held.length := by
  cases pc with
  | batch i => exact placed.trans (length_buff_le ring)
  | _ => exact Nat.zero_le _

/-- The next event of the batch is the next one that the kernel has. -/
theorem drop_held {ring : Backlogged} {i : ℕ} {e : CQEvent}
    (next : ring.consumer.events[i]? = some e) :
    i < ring.consumer.buff.length ∧ ring.held.drop i = e :: ring.held.drop (i + 1) := by
  rw [Consumer.events_eq_take, List.getElem?_take] at next
  split at next
  · next lt =>
    refine ⟨lt, ?_⟩
    have there : ring.held[i]? = some e := List.getElem?_append_left
      (lt.trans_le ring.consumer.length_buff_le) ▸ next
    obtain ⟨short, rfl⟩ := List.getElem?_eq_some_iff.mp there
    exact List.drop_eq_getElem_cons short
  · cases next

theorem Inv.step {s s' : DrainRun} {event : DrainEvent} (inv : s.Inv)
    (stepped : s.step event = some s') : s'.Inv := by
  cases step_transition stepped with
  | @kernel _ ring news grows held waits =>
      refine ⟨?_, inv.placed.grows grows waits⟩
      rw [inv.conserved, held, List.drop_append_of_le_length inv.placed.taken_le,
        List.append_assoc]
  | call idle => exact ⟨by rw [inv.conserved, idle]; rfl, trivial⟩
  | full some idle => exact ⟨by rw [inv.conserved, idle]; rfl, Nat.zero_le _⟩
  | empty here none => exact ⟨by rw [inv.conserved, here]; rfl, trivial⟩
  | emptyAgain here none => exact ⟨by rw [inv.conserved, here]; rfl, trivial⟩
  | flush here waits => exact ⟨by rw [inv.conserved, here]; rfl, waits⟩
  | give here none => exact ⟨by rw [inv.conserved, here]; rfl, trivial⟩
  | @enter len waiting here =>
      obtain ⟨held, -, filled⟩ := s.ring.flush_spec
      have waits : Placed s.ring (.enter len waiting) := here ▸ inv.placed
      exact ⟨by rw [inv.conserved, here, held]; rfl, filled waits⟩
  | @process i e here next =>
      obtain ⟨lt, front⟩ := drop_held next
      refine ⟨?_, lt⟩
      show s.posted = s.processed ++ [e] ++ s.ring.held.drop (i + 1)
      rw [inv.conserved, here, List.append_assoc, List.singleton_append, ← front]
      rfl
  | advance here =>
      refine ⟨?_, trivial⟩
      rw [inv.conserved, here, Backlogged.held_advanceCQ]
      rfl

/-! ## Returning zero -/

/-- When the counters are read, the length of the buffer is not zero modulo `2 ^ 32`, or
nothing is ready. -/
def Fits (s : DrainRun) : DrainEvent → Prop
  | .count => ∀ len ∈ s.pc.len, len % 2 ^ 32 ≠ 0 ∨ s.ring.ready = []
  | _ => True

instance (s : DrainRun) (event : DrainEvent) : Decidable (s.Fits event) :=
  match event with
  | .count => inferInstanceAs
      (Decidable (∀ len ∈ s.pc.len, len % 2 ^ 32 ≠ 0 ∨ s.ring.ready = []))
  | .post _ | .flags _ | .call _ | .flag | .enter | .process | .advance => .isTrue trivial

/-- The queue was empty when the counters were last read, and there was no backlog when
the flag was last read. -/
def Drained : DrainPC → Prop
  | .flag _ counted => counted = []
  | .zero counted waiting => counted = [] ∧ waiting = []
  | _ => True

theorem drained_step {s s' : DrainRun} {event : DrainEvent} (inv : s.Inv)
    (drained : Drained s.pc) (fits : s.Fits event) (stepped : s.step event = some s') :
    Drained s'.pc := by
  cases step_transition stepped with
  | kernel grows held waits => exact drained
  | @empty len here none =>
      have nothing := (s.ring.buff_peekBatch_eq_nil_iff len).mp none
      exact (fits len (by rw [here]; rfl)).elim nothing.resolve_left id
  | @emptyAgain len waiting here none =>
      -- The flush has left something in the queue, and the buffer has room for it.
      have filled : Placed s.ring (.recount len waiting) := here ▸ inv.placed
      have nothing := (s.ring.buff_peekBatch_eq_nil_iff len).mp none
      exact absurd ((fits len (by rw [here]; rfl)).elim nothing.resolve_left id) filled
  | give here none =>
      rw [here] at drained
      exact ⟨drained, rfl⟩
  | _ => trivial

theorem inv_of_path {ring : Ring} {p : List (DrainRun × DrainEvent)} {s : DrainRun}
    (path : Path step (start ring) p s) : s.Inv :=
  path.invariant_of_step Inv (inv_start ring) fun _ _ _ inv stepped => inv.step stepped

end DrainRun

/-- **No completion is lost to an overflow.**  For every ring and every run of the loop
over batches:

* what was processed is a prefix of what was posted, and the rest is what the queue and
  the backlog hold;
* if no length of a buffer is a multiple of `2 ^ 32` while something is ready, a
  `PeekCQEventBatch` that returned 0 last read the counters of an empty queue and the
  flag without a backlog. -/
theorem drain_loses_nothing {ring : Ring} {p : List (DrainRun × DrainEvent)} {s : DrainRun}
    (path : Path DrainRun.step (DrainRun.start ring) p s) :
    s.processed <+: s.posted ∧
      s.posted = s.processed ++ s.ring.held.drop s.pc.taken ∧
      ((∀ x ∈ p, x.1.Fits x.2) → ∀ counted waiting, s.pc = .zero counted waiting →
        counted = [] ∧ waiting = []) := by
  have inv := DrainRun.inv_of_path path
  refine ⟨⟨_, inv.conserved.symm⟩, inv.conserved, fun fits counted waiting here => ?_⟩
  have start : (DrainRun.start ring).Inv ∧ DrainRun.Drained (DrainRun.start ring).pc :=
    ⟨DrainRun.inv_start ring, trivial⟩
  obtain ⟨-, drained⟩ := path.invariant (fun s => s.Inv ∧ DrainRun.Drained s.pc) DrainRun.Fits
    start (fun s event s' ⟨inv, drained⟩ fits stepped =>
      ⟨inv.step stepped, DrainRun.drained_step inv drained fits stepped⟩) fits
  rw [here] at drained
  exact drained

/-- Three completions for two slots: a batch of two, the third one by way of the backlog,
and a call that finds nothing. -/
def burst : List DrainEvent :=
  [.post ⟨7, 0, 0⟩, .post ⟨8, 0, 0⟩, .post ⟨9, 0, 0⟩, .call 128, .count, .process, .process,
    .advance, .call 128, .count, .flag, .enter, .count, .process, .advance, .call 128, .count,
    .flag]

/-- The law at a burst that is larger than the queue. -/
theorem drain_loses_nothing_burst :
    ∃ p s, Path DrainRun.step (DrainRun.start wrappingRing) p s ∧
      s.processed.map CQEvent.userData = [7, 8, 9] ∧ s.processed <+: s.posted ∧
      ∃ counted waiting, s.pc = .zero counted waiting ∧ counted = [] ∧ waiting = [] := by
  have path : Path DrainRun.step (DrainRun.start wrappingRing)
      (record DrainRun.step (DrainRun.start wrappingRing) burst) _ := path_record burst rfl
  obtain ⟨processed, -, zero⟩ := drain_loses_nothing path
  exact ⟨_, _, path, rfl, processed, _, _, rfl, zero (by decide) _ _ rfl⟩

/-- **A buffer of `2 ^ 32` places.**  A completion is ready, and `PeekCQEventBatch` returns
0. -/
theorem drain_stops_at_long_buffer :
    ∃ p s, Path DrainRun.step (DrainRun.start wrappingRing) p s ∧
      s.pc = .zero [⟨7, 0, 0⟩] [] ∧ s.processed = [] ∧ s.posted = [⟨7, 0, 0⟩] :=
  ⟨_, _, path_record [.post ⟨7, 0, 0⟩, .call (2 ^ 32), .count, .flag] rfl, rfl, rfl, rfl⟩

end GoUring.Uring
