import GoUring.Foundation.CounterRing
import GoUring.Uring.Syscall

/-!
# The completion queue

`cq` of `uring/ring.go` and the functions that read it or move its head:
`readyCount`, `peekCQEvent`, `peekCQEventBatch` and `AdvanceCQ`.  A pointer to a
CQE is the byte offset of its slot, so what a pointer shows depends on the
memory at the time it is followed.

The kernel posts a completion by writing the slot of `kTail` and incrementing
`kTail`, only while a slot is free.
-/

namespace GoUring.Uring

open CounterRing

/-- `libUserDataTimeout`: the user data of the library's own timeouts. -/
def libUserDataTimeout : UInt64 := 18446744073709551615

/-- `CQEvent.Error`: the errno a negative result stands for, with the code's
32-bit negation and sign extension. -/
def CQEvent.error (cqe : CQEvent) : Option Errno :=
  if cqe.res < 0 then some ⟨(-cqe.res).toInt64.toUInt64.toNat⟩ else none

/-- `cq`: the completion queue as the library sees it.  `cqeBuff` is indexed by
byte offset. -/
structure CQ where
  kHead : UInt32
  kTail : UInt32
  kRingMask : UInt32
  kRingEntries : UInt32
  cqeBuff : ℕ → CQEvent

/-- The package's `min`. -/
def minUint32 (a b : UInt32) : UInt32 := if a < b then a else b

theorem toNat_minUint32 (a b : UInt32) : (minUint32 a b).toNat = min a.toNat b.toNat := by
  unfold minUint32
  split
  · next lt => exact (Nat.min_eq_left (UInt32.lt_iff_toNat_lt.mp lt).le).symm
  · next ge =>
    rw [UInt32.lt_iff_toNat_lt, Nat.not_lt] at ge
    exact (Nat.min_eq_right ge).symm

/-- Completions that the kernel has kept back go to a queue, oldest first, as long as `post`
finds room for them. -/
def moveBacklog {α : Type} (post : α → CQEvent → Option α) : List CQEvent → α → α × List CQEvent
  | [], q => (q, [])
  | e :: rest, q =>
      match post q e with
      | some q => moveBacklog post rest q
      | none => (q, e :: rest)

namespace CQ

/-- `cq.readyCount`. -/
def readyCount (c : CQ) : UInt32 := c.kTail - c.kHead

/-- The byte offset of the slot of a counter value; the product is a `uintptr`. -/
def cqeAddr (c : CQ) (counter : UInt32) : ℕ :=
  (counter &&& c.kRingMask).toNat * sizeofCQEvent

/-- `Ring.AdvanceCQ`. -/
def advanceCQ (c : CQ) (n : UInt32) : CQ := { c with kHead := c.kHead + n }

/-- `Ring.SeenCQE`. -/
def seenCQE (c : CQ) : CQ := c.advanceCQ 1

/-- The kernel posts a completion; `none` while no slot is free. -/
def kernelPost (c : CQ) (e : CQEvent) : Option CQ :=
  if c.kTail - c.kHead < c.kRingEntries then
    some
      { c with
        cqeBuff := Function.update c.cqeBuff (c.cqeAddr c.kTail) e
        kTail := c.kTail + 1 }
  else none

/-- What `Ring.peekCQEvent` returns: the number of completions available and a
pointer to the first one, if any. -/
structure Peeked where
  available : UInt32
  cqe : Option ℕ
  err : Option Errno
  deriving DecidableEq, Repr

/-- The loop of `Ring.peekCQEvent`, the first argument being the number of
completions available.  On a ring without the ext-arg feature it retires the
library's own timeouts on the way, and stops at one that carries an error. -/
def peekLoop (extArg : Bool) : ℕ → CQ → Peeked × CQ
  | 0, c => ({ available := 0, cqe := none, err := none }, c)
  | n + 1, c =>
      let available := c.kTail - c.kHead
      let cqe := c.cqeAddr c.kHead
      if !extArg && (c.cqeBuff cqe).userData == libUserDataTimeout then
        match (c.cqeBuff cqe).error with
        | none => peekLoop extArg n c.seenCQE
        | some errno =>
            ({ available := available, cqe := none, err := some errno }, c.seenCQE)
      else
        ({ available := available, cqe := some cqe, err := none }, c)

/-- `Ring.peekCQEvent`. -/
def peekCQEvent (extArg : Bool) (c : CQ) : Peeked × CQ :=
  peekLoop extArg (c.kTail - c.kHead).toNat c

/-- The loop of `Ring.peekCQEventBatch`: fill the buffer from `head` on. -/
def fillBatch (c : CQ) : ℕ → UInt32 → List ℕ
  | 0, _ => []
  | n + 1, head => c.cqeAddr head :: fillBatch c n (head + 1)

/-- `Ring.peekCQEventBatch` on a buffer of length `len`: the entries it fills.
The length is narrowed to 32 bits before it is compared. -/
def peekCQEventBatch (c : CQ) (len : ℕ) : List ℕ :=
  let ready := c.readyCount
  let count := minUint32 (UInt32.ofNat len) ready
  if ready ≠ 0 then c.fillBatch count.toNat c.kHead else []

/-! ## The queue between operations -/

/-- The completions posted and not yet retired, oldest first. -/
def ready (c : CQ) : List CQEvent := window c.cqeBuff c.cqeAddr c.kHead c.kTail

/-- **The invariant of the completion queue.** -/
structure WF (c : CQ) : Prop where
  /-- The size is a power of two and the mask is its mask. -/
  sized : Sized c.kRingEntries c.kRingMask
  /-- The ring holds no more than its size. -/
  ready_le : gap c.kHead c.kTail ≤ c.kRingEntries.toNat

@[simp] theorem length_ready (c : CQ) : c.ready.length = gap c.kHead c.kTail :=
  length_window

theorem WF.placement {c : CQ} (wf : c.WF) : Placement c.kRingEntries.toNat c.cqeAddr :=
  placement_strided wf.sized (by decide)

/-- **The kernel posts.**  A post appends one completion, and leaves the slots
of the completions already there alone. -/
theorem WF.kernelPost_spec {c c' : CQ} (wf : c.WF) {e : CQEvent}
    (posted : c.kernelPost e = some c') :
    c'.WF ∧ c'.ready = c.ready ++ [e] ∧ c'.kHead = c.kHead ∧
      c'.kRingMask = c.kRingMask ∧ c'.kRingEntries = c.kRingEntries ∧
      ∀ n ≤ c.ready.length, (slots c.cqeAddr c.kHead n).map c'.cqeBuff =
        (slots c.cqeAddr c.kHead n).map c.cqeBuff := by
  unfold kernelPost at posted
  split at posted
  · next free =>
    cases posted
    have room : gap c.kHead c.kTail < c.kRingEntries.toNat :=
      UInt32.lt_iff_toNat_lt.mp free
    have small : gap c.kHead c.kTail + 1 < 2 ^ 32 := by
      have := c.kRingEntries.toNat_lt
      omega
    refine ⟨⟨wf.sized, ?_⟩, window_push wf.placement room e, rfl, rfl, rfl, fun n le => ?_⟩
    · show gap c.kHead (c.kTail + 1) ≤ _
      rw [gap_add_one small]
      exact room
    · refine List.map_congr_left fun a mem => Function.update_of_ne ?_ _ _
      rintro rfl
      -- The slot written is the one just past the window.
      have fresh := wf.placement.notMem_slots c.kHead room
      rw [add_ofNat_gap, ← length_ready] at fresh
      rw [← take_slots le] at mem
      exact fresh (List.mem_of_mem_take mem)
  · cases posted

/-- **The consumer retires.**  Advancing by `n` drops the `n` oldest. -/
theorem WF.advanceCQ_spec {c : CQ} (wf : c.WF) {n : UInt32} (le : n.toNat ≤ c.ready.length) :
    (c.advanceCQ n).WF ∧ (c.advanceCQ n).ready = c.ready.drop n.toNat := by
  rw [length_ready] at le
  have advanced : gap (c.kHead + n) c.kTail = gap c.kHead c.kTail - n.toNat := by
    have := gap_advance le
    rwa [UInt32.ofNat_toNat] at this
  refine ⟨⟨wf.sized, ?_⟩, ?_⟩
  · show gap (c.kHead + n) c.kTail ≤ _
    rw [advanced]
    exact (Nat.sub_le _ _).trans wf.ready_le
  · have := @window_advance _ c.cqeBuff c.cqeAddr c.kHead c.kTail _ le
    rwa [UInt32.ofNat_toNat] at this

/-! ## Peeking -/

/-- The pointer to the oldest completion, if there is one. -/
def headPtr (c : CQ) : Option ℕ :=
  if c.kHead = c.kTail then none else some (c.cqeAddr c.kHead)

theorem ready_eq_nil_iff {c : CQ} : c.ready = [] ↔ c.kHead = c.kTail := by
  rw [← List.length_eq_zero_iff, length_ready, gap_eq_zero_iff]

theorem headPtr_eq_none_iff {c : CQ} : c.headPtr = none ↔ c.ready = [] := by
  rw [ready_eq_nil_iff]
  unfold headPtr
  split <;> simp_all

theorem headPtr_eq_some_iff {c : CQ} {ptr : ℕ} :
    c.headPtr = some ptr ↔ c.ready ≠ [] ∧ c.cqeAddr c.kHead = ptr := by
  rw [ne_eq, ready_eq_nil_iff]
  unfold headPtr
  split <;> simp_all

/-- What the pointer to the oldest completion shows. -/
theorem head_ready {c : CQ} {ptr : ℕ} (head : c.headPtr = some ptr) :
    c.ready.head? = some (c.cqeBuff ptr) := by
  obtain ⟨some, rfl⟩ := headPtr_eq_some_iff.mp head
  have pos : 0 < c.ready.length := List.length_pos_of_ne_nil some
  rw [List.head?_eq_getElem?, List.getElem?_eq_getElem pos]
  have first := @getElem_window _ c.cqeBuff c.cqeAddr c.kHead c.kTail 0 pos
  exact congrArg Option.some (first.trans (by simp))

/-- On a ring with the ext-arg feature a peek looks at the head and moves
nothing. -/
theorem peekCQEvent_extArg (c : CQ) :
    c.peekCQEvent true =
      ({ available := c.kTail - c.kHead, cqe := c.headPtr, err := none }, c) := by
  by_cases empty : c.kHead = c.kTail
  · simp [peekCQEvent, peekLoop, headPtr, empty]
  · have some : ∃ n, (c.kTail - c.kHead).toNat = n + 1 :=
      Nat.exists_eq_succ_of_ne_zero fun zero => empty (gap_eq_zero_iff.mp zero)
    obtain ⟨n, hn⟩ := some
    simp [peekCQEvent, peekLoop, headPtr, hn, empty]

theorem fillBatch_eq_slots (c : CQ) :
    ∀ (n : ℕ) (head : UInt32), c.fillBatch n head = slots c.cqeAddr head n := by
  intro n
  induction n with
  | zero => intro head; rfl
  | succ n ih =>
      intro head
      rw [fillBatch, ih, Nat.add_comm n 1, slots_add]
      simp [slots]

/-- A batch is the cells of the oldest completions; how many is decided by the
buffer length modulo `2 ^ 32`. -/
theorem peekCQEventBatch_eq (c : CQ) (len : ℕ) :
    c.peekCQEventBatch len =
      slots c.cqeAddr c.kHead (min (len % 2 ^ 32) c.ready.length) := by
  have count : (minUint32 (UInt32.ofNat len) (c.kTail - c.kHead)).toNat =
      min (len % 2 ^ 32) c.ready.length := by
    rw [toNat_minUint32, length_ready, UInt32.toNat_ofNat']
    rfl
  unfold peekCQEventBatch readyCount
  by_cases none : c.kTail - c.kHead = 0
  · have empty : c.ready.length = 0 := by
      rw [length_ready, gap, none]
      rfl
    rw [if_neg (not_not.mpr none), empty, Nat.min_zero, slots_zero]
  · rw [if_pos none, count, fillBatch_eq_slots]

/-- The pointers of `n` single peeks, each followed by `SeenCQE`. -/
def singlePeeks (c : CQ) : ℕ → List (Option ℕ)
  | 0 => []
  | n + 1 => (c.peekCQEvent true).1.cqe :: singlePeeks c.seenCQE n

/-- A batch of `n` is what `n` single peeks return. -/
theorem WF.singlePeeks_eq {c : CQ} (wf : c.WF) {n : ℕ} (le : n ≤ c.ready.length) :
    c.singlePeeks n = (slots c.cqeAddr c.kHead n).map some := by
  induction n generalizing c with
  | zero => rfl
  | succ n ih =>
      have one : (1 : UInt32).toNat ≤ c.ready.length := le_trans (Nat.succ_pos n) le
      have nonempty : c.kHead ≠ c.kTail := by
        intro same
        rw [length_ready, gap_eq_zero_iff.mpr same] at le
        omega
      obtain ⟨wf', ready'⟩ := wf.advanceCQ_spec one
      have rest : n ≤ (c.advanceCQ 1).ready.length := by
        rw [ready', List.length_drop]
        exact Nat.le_sub_of_add_le le
      rw [singlePeeks, peekCQEvent_extArg, headPtr, if_neg nonempty, seenCQE, ih wf' rest,
        Nat.add_comm n 1, slots_add]
      simp [slots, advanceCQ, cqeAddr]

end CQ

/-- A completion queue that satisfies its invariant. -/
structure CompletionQueue where
  cq : CQ
  wf : cq.WF

namespace CompletionQueue

/-- The completions posted and not yet retired, oldest first. -/
def ready (q : CompletionQueue) : List CQEvent := q.cq.ready

/-- A kernel post on a queue with its invariant. -/
def kernelPost (q : CompletionQueue) (e : CQEvent) : Option CompletionQueue :=
  match posted : q.cq.kernelPost e with
  | none => none
  | some cq => some { cq := cq, wf := (q.wf.kernelPost_spec posted).1 }

/-- `AdvanceCQ` by a number of completions that are there. -/
def advanceCQ (q : CompletionQueue) (n : UInt32) (le : n.toNat ≤ q.ready.length) :
    CompletionQueue :=
  { cq := q.cq.advanceCQ n, wf := (q.wf.advanceCQ_spec le).1 }

theorem kernelPost_cq {q q' : CompletionQueue} {e : CQEvent}
    (posted : q.kernelPost e = some q') : q.cq.kernelPost e = some q'.cq := by
  unfold kernelPost at posted
  split at posted
  · cases posted
  · next raw =>
    cases posted
    exact raw

theorem ready_kernelPost {q q' : CompletionQueue} {e : CQEvent}
    (posted : q.kernelPost e = some q') : q'.ready = q.ready ++ [e] :=
  (q.wf.kernelPost_spec (kernelPost_cq posted)).2.1

/-- `q'` is `q` after the kernel posted some completions. -/
structure Extends (q q' : CompletionQueue) : Prop where
  kHead : q'.cq.kHead = q.cq.kHead
  kRingMask : q'.cq.kRingMask = q.cq.kRingMask
  kRingEntries : q'.cq.kRingEntries = q.cq.kRingEntries
  ready : q.ready <+: q'.ready

namespace Extends

variable {q q' q'' : CompletionQueue}

@[refl] theorem refl (q : CompletionQueue) : q.Extends q := ⟨rfl, rfl, rfl, List.prefix_rfl⟩

theorem trans (first : q.Extends q') (second : q'.Extends q'') : q.Extends q'' where
  kHead := second.kHead.trans first.kHead
  kRingMask := second.kRingMask.trans first.kRingMask
  kRingEntries := second.kRingEntries.trans first.kRingEntries
  ready := first.ready.trans second.ready

theorem post {e : CQEvent} (posted : q.kernelPost e = some q') : q.Extends q' := by
  obtain ⟨-, ready, kHead, mask, entries, -⟩ := q.wf.kernelPost_spec (kernelPost_cq posted)
  exact ⟨kHead, mask, entries, ⟨[e], ready.symm⟩⟩

/-- The pointer to the oldest completion survives posts. -/
theorem headPtr (ext : q.Extends q') {ptr : ℕ} (head : q.cq.headPtr = some ptr) :
    q'.cq.headPtr = some ptr := by
  obtain ⟨some, addr⟩ := CQ.headPtr_eq_some_iff.mp head
  refine CQ.headPtr_eq_some_iff.mpr ⟨fun none => some ?_, ?_⟩
  · exact List.prefix_nil.mp (none ▸ ext.ready)
  · rw [← addr, CQ.cqeAddr, CQ.cqeAddr, ext.kHead, ext.kRingMask]

end Extends

theorem ready_advanceCQ (q : CompletionQueue) (n : UInt32)
    (le : n.toNat ≤ q.ready.length) : (q.advanceCQ n le).ready = q.ready.drop n.toNat :=
  (q.wf.advanceCQ_spec le).2

end CompletionQueue

end GoUring.Uring
