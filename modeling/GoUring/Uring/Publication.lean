import GoUring.Foundation.StoreBuffer
import GoUring.Uring.Layout
import GoUring.Uring.Overflow
import GoUring.Uring.SubmissionRun

/-!
# The submission queue on a processor with store buffers

`SmpStoreReleaseUint32` is `atomic.StoreUint32` in `uring/atomic.go` and an ordinary store in
`uring/atomic_amd64.go`, which is built with the tag `amd64_atomic`.  On amd64 the first is a
locked instruction, before which all earlier stores reach memory; the second waits in the store
buffer like any other store.  `SharedSQ` is the submission queue of a ring with an SQ thread on
such a processor.  The slots, the array and `kTail` are written through the buffer, an SQE by any
number of stores; the SQ thread reads memory as it is, and its own `kHead` reaches memory late
too.

Three views of the queue matter.  `sq` is what the library works on: its own stores and the
`kHead` in memory, which may be old.  `seen` is what the SQ thread works on: memory, which may
lack stores, and its own head.  `whole` has the newest of both.  The module shows that `whole`
is a well-formed queue all the time, and that at every point of draining the thread sees a front
part of it (`Inv.grows`).

The thread follows the protocol of the kernel: when it finds nothing it sets `sqNeedWakeup`, with
a full barrier, looks again, and sleeps; an `io_uring_enter` with `SQ_WAKEUP` wakes it.  The
system call takes a lock of the kernel, so it drains the buffer.
-/

namespace GoUring.Uring

open CounterRing BoundedFifo Runs StoreBuffer

/-- What library and kernel share of a submission queue. -/
structure SQMemory where
  kHead : UInt32
  kTail : UInt32
  kFlags : UInt32
  kArray : ℕ → UInt32
  sqeBuff : ℕ → SQEntry

namespace SQMemory

/-- The SQE found through the array at the counter value `c`. -/
def read (m : SQMemory) (mask c : UInt32) : SQEntry :=
  m.sqeBuff ((m.kArray ((c &&& mask).toNat * 4)).toNat * 64)

/-- The SQEs that memory shows to a reader at `head`. -/
def visible (mask head : UInt32) (m : SQMemory) : List SQEntry :=
  (List.range (gap head m.kTail)).map fun i => m.read mask (head + UInt32.ofNat i)

/-- A reader at `head` finds all it found before, and possibly more. -/
def Grows (mask head : UInt32) (m m' : SQMemory) : Prop :=
  m.visible mask head <+: m'.visible mask head

theorem visible_of_ne {mask head : UInt32} {m : SQMemory} (differ : m.kTail ≠ head) :
    m.visible mask head = m.read mask head :: m.visible mask (head + 1) := by
  have some : 1 ≤ gap head m.kTail :=
    Nat.one_le_iff_ne_zero.mpr fun zero => differ (gap_eq_zero_iff.mp zero).symm
  have rest : gap (head + 1) m.kTail = gap head m.kTail - 1 := gap_advance some
  obtain ⟨n, eq⟩ := Nat.exists_eq_add_of_le some
  rw [visible, visible, rest, eq, Nat.add_comm 1 n, Nat.add_sub_cancel, List.range_succ_eq_map,
    List.map_cons, List.map_map]
  congr 1
  · rw [show UInt32.ofNat 0 = 0 from rfl, UInt32.add_zero]
  · refine List.map_congr_left fun i _ => ?_
    rw [Function.comp_apply, SQ.add_one_add_ofNat]

theorem length_visible (mask head : UInt32) (m : SQMemory) :
    (m.visible mask head).length = gap head m.kTail := by
  simp [visible]

end SQMemory

/-- The stores of the library. -/
inductive SQStore
  | slot (a : ℕ) (sqe : SQEntry)
  | array (a : ℕ) (idx : UInt32)
  | kTail (tail : UInt32)

/-- A store reaches memory. -/
def SQStore.write : SQStore → SQMemory → SQMemory
  | .slot a sqe, m => { m with sqeBuff := Function.update m.sqeBuff a sqe }
  | .array a idx, m => { m with kArray := Function.update m.kArray a idx }
  | .kTail tail, m => { m with kTail := tail }

/-- The two implementations of `SmpStoreReleaseUint32`. -/
inductive AtomicBuild
  /-- `atomic.go`. -/
  | atomic
  /-- `atomic_amd64.go`. -/
  | plain
  deriving DecidableEq, Repr

/-- Some stores, the last of them by `SmpStoreReleaseUint32`. -/
def AtomicBuild.release (build : AtomicBuild) (b : Buffered SQMemory SQStore)
    (stores : List SQStore) : Buffered SQMemory SQStore :=
  match build, stores with
  | _, [] => b
  | .plain, w :: ws => b.issue (w :: ws)
  | .atomic, w :: ws => (b.issue (w :: ws)).fence SQStore.write

/-- What the SQ thread does. -/
inductive SQThread
  | running
  /-- It has set `sqNeedWakeup` and is about to look at the queue once more. -/
  | flagged
  | asleep
  deriving DecidableEq, Repr

/-- Where the library is: outside `Submit`, after `flushSQ`, or at `io_uring_enter`. -/
inductive PublishPC
  | idle
  | flushed
  | entering
  deriving DecidableEq, Repr

/-- The submission queue of a ring with an SQ thread.  `head` is the thread's own `kHead`. -/
structure SharedSQ where
  shared : Buffered SQMemory SQStore
  kRingMask : UInt32
  kRingEntries : UInt32
  sqeTail : UInt32
  sqeHead : UInt32
  head : UInt32
  thread : SQThread
  pc : PublishPC
  /-- What `QueueSQE` left in the slots it was handed. -/
  handed : List SQEntry
  /-- The SQEs that `QueueSQE` queued. -/
  queued : List SQEntry
  /-- The SQEs that the thread read. -/
  read : List SQEntry

/-- What can happen. -/
inductive PublishEvent
  /-- `QueueSQE(op, flags, userData)`.  The SQE is written field by field; `partials` are the
  contents of the slot on the way. -/
  | queueSQE (op : Operation) (flags : UInt8) (userData : UInt64) (partials : List SQEntry)
  /-- `Submit` is called and runs `flushSQ`. -/
  | flushSQ
  /-- `needsEnter`. -/
  | needsEnter
  /-- `sysEnter`. -/
  | enter
  /-- A store of the library reaches memory. -/
  | drain
  /-- A store of `kHead` by the SQ thread reaches memory. -/
  | kHead
  /-- The SQ thread reads an SQE. -/
  | consume
  /-- The SQ thread finds nothing and sets `sqNeedWakeup`. -/
  | setFlag
  /-- The SQ thread looks again. -/
  | recheck
  /-- The kernel sets or clears `sqCQOverflow`. -/
  | overflow (raised : Bool)

/-- The stores of one `flushSQ`: the array cells, then `kTail`. -/
def SQ.stores (s : SQ) : List SQStore :=
  if s.sqeTail - s.sqeHead = 0 then []
  else
    s.storesOfFlush.map (fun x => .array x.1 x.2) ++ [.kTail (s.kTail + (s.sqeTail - s.sqeHead))]

namespace SharedSQ

/-- The queue with the memory `m` and the head `head`. -/
def withMemory (s : SharedSQ) (m : SQMemory) (head : UInt32) : SQ where
  kHead := head
  kTail := m.kTail
  kRingMask := s.kRingMask
  kRingEntries := s.kRingEntries
  kFlags := m.kFlags
  kArray := m.kArray
  sqeBuff := m.sqeBuff
  sqeTail := s.sqeTail
  sqeHead := s.sqeHead

/-- Memory as the library sees it. -/
def own (s : SharedSQ) : SQMemory := s.shared.own SQStore.write

/-- The queue the library works on. -/
def sq (s : SharedSQ) : SQ := s.withMemory s.own s.own.kHead

/-- The queue the SQ thread works on. -/
def seen (s : SharedSQ) : SQ := s.withMemory s.shared.memory s.head

/-- The queue with the newest of both. -/
def whole (s : SharedSQ) : SQ := s.withMemory s.own s.head

/-- Nothing was queued yet; the thread is running. -/
def start (s : SQ) : SharedSQ where
  shared :=
    { memory := ⟨s.kHead, s.kTail, s.kFlags, s.kArray, s.sqeBuff⟩
      buffer := [] }
  kRingMask := s.kRingMask
  kRingEntries := s.kRingEntries
  sqeTail := s.sqeTail
  sqeHead := s.sqeHead
  head := s.kHead
  thread := .running
  pc := .idle
  handed := []
  queued := []
  read := []

/-- The kernel changes the flags. -/
def withFlags (s : SharedSQ) (f : UInt32 → UInt32) : SharedSQ :=
  { s with shared := s.shared.env fun m => { m with kFlags := f m.kFlags } }

/-- One step.  A panic of `PrepSQE` is recovered by the caller. -/
def step (build : AtomicBuild) (s : SharedSQ) : PublishEvent → Option SharedSQ
  | .queueSQE op flags userData partials =>
      match s.pc with
      | .idle =>
          match s.sq.queueSQE op flags userData with
          | some (some _, _) => some s
          | some (none, sq) =>
              let a := s.sq.sqeAddr s.sq.sqeTail
              some { s with
                shared := s.shared.issue ((partials ++ [sq.sqeBuff a]).map (.slot a))
                sqeTail := sq.sqeTail
                handed := s.handed ++ [sq.sqeBuff a]
                queued := s.queued ++ [sq.sqeBuff a] }
          | none =>
              some { s with
                sqeTail := s.sq.abandonSQE.sqeTail
                handed := s.handed ++ [s.sq.nextSlot] }
      | _ => none
  | .flushSQ =>
      match s.pc with
      | .idle =>
          some { s with
            shared := build.release s.shared s.sq.stores
            sqeHead := s.sq.flushSQ.2.sqeHead
            pc := .flushed }
      | _ => none
  | .needsEnter =>
      match s.pc with
      | .flushed =>
          if s.own.kFlags &&& sqNeedWakeup != 0 then some { s with pc := .entering }
          else some { s with pc := .idle }
      | _ => none
  | .enter =>
      match s.pc with
      | .entering =>
          let s := { s with shared := s.shared.fence SQStore.write, pc := .idle }
          match s.thread with
          | .asleep =>
              some { s.withFlags (fun flags => flags &&& ~~~sqNeedWakeup) with thread := .running }
          | _ => some s
      | _ => none
  | .drain => (s.shared.drain SQStore.write).map fun shared => { s with shared := shared }
  | .kHead =>
      if s.shared.memory.kHead = s.head then none
      else some { s with shared := s.shared.env fun m => { m with kHead := m.kHead + 1 } }
  | .consume =>
      if s.thread = .running ∧ s.shared.memory.kTail ≠ s.head then
        some { s with
          head := s.head + 1
          read := s.read ++ [s.shared.memory.read s.kRingMask s.head] }
      else none
  | .setFlag =>
      if s.thread = .running ∧ s.shared.memory.kTail = s.head then
        some { s with
          shared := s.shared.env fun m =>
            { m with kHead := s.head, kFlags := m.kFlags ||| sqNeedWakeup }
          thread := .flagged }
      else none
  | .recheck =>
      match s.thread with
      | .flagged =>
          if s.shared.memory.kTail = s.head then some { s with thread := .asleep }
          else
            some { s.withFlags (fun flags => flags &&& ~~~sqNeedWakeup) with thread := .running }
      | _ => none
  | .overflow raised =>
      some (s.withFlags fun flags => reportOverflow flags raised)

end SharedSQ

/-! ## The stores of `QueueSQE` and `flushSQ` -/

/-- Of the stores to one slot the last one counts. -/
theorem commit_slots (a : ℕ) (sqe : SQEntry) :
    ∀ (partials : List SQEntry) (m : SQMemory),
      commit SQStore.write ((partials ++ [sqe]).map (.slot a)) m =
        (SQStore.slot a sqe).write m := by
  intro partials
  induction partials with
  | nil => exact fun m => rfl
  | cons first partials ih =>
      intro m
      rw [List.cons_append, List.map_cons, commit_cons, ih]
      simp only [SQStore.write, Function.update_idem]

theorem commit_array (stores : List (ℕ × UInt32)) :
    ∀ m : SQMemory, commit SQStore.write (stores.map fun x => .array x.1 x.2) m =
      { m with kArray := SQ.applyStores m.kArray stores } := by
  induction stores with
  | nil => exact fun m => rfl
  | cons first stores ih =>
      intro m
      rw [List.map_cons, commit_cons, ih]
      rfl

namespace SQ

/-- The stores of the loop go to the array cells of the counters it runs through. -/
theorem mem_slots_of_flushStores (s : SQ) {store : ℕ × UInt32} :
    ∀ (n : ℕ) (tail head : UInt32), store ∈ flushStores s.kRingMask n tail head →
      store.1 ∈ slots s.arrayAddr tail n := by
  intro n
  induction n with
  | zero =>
      intro tail head mem
      cases mem
  | succ n ih =>
      intro tail head mem
      rw [Nat.add_comm n 1, slots_add]
      rcases List.mem_cons.mp mem with rfl | later
      · exact List.mem_append_left _ (by simp [slots, arrayAddr])
      · exact List.mem_append_right _ (ih _ _ later)

/-- A successful `QueueSQE`, on any queue. -/
theorem pushSQE_of_queueSQE {s s' : SQ} {op : Operation} {flags : UInt8} {userData : UInt64}
    (queued : s.queueSQE op flags userData = some (none, s')) :
    s.sqeTail + 1 - s.kHead ≤ s.kRingEntries ∧ ∃ sqe, s' = s.pushSQE sqe := by
  unfold queueSQE at queued
  split at queued
  · simp at queued
  · next entry t handed =>
    obtain ⟨sqe, -, eq⟩ := Option.map_eq_some_iff.mp queued
    rw [Prod.mk.injEq] at eq
    have addr := sqeAddr_of_nextSQE handed
    unfold nextSQE at handed
    dsimp only at handed
    split at handed
    · next le =>
      rw [Prod.mk.injEq] at handed
      refine ⟨le, sqe, ?_⟩
      rw [← eq.2, ← handed.2, addr]
      rfl
    · simp at handed

/-- `flushSQ` does its stores, and moves `sqeHead` to `sqeTail`. -/
theorem flushSQ_eq_stores (s : SQ) :
    s.flushSQ.2 =
      { s with
        kArray := applyStores s.kArray s.storesOfFlush
        kTail := s.kTail + (s.sqeTail - s.sqeHead)
        sqeHead := s.sqeTail } := by
  have ends : s.sqeHead + UInt32.ofNat (s.sqeTail - s.sqeHead).toNat = s.sqeTail :=
    add_ofNat_gap s.sqeHead s.sqeTail
  rw [← flushSQ_kArray]
  unfold flushSQ
  by_cases none : s.sqeTail - s.sqeHead = 0
  · have same : s.sqeTail = s.sqeHead := by
      rw [← ends, none]
      exact UInt32.add_zero _
    simp only [none, if_true, UInt32.add_zero]
    cases s
    cases same
    rfl
  · simp only [none, if_false]
    rw [flushLoop_frame, ends, UInt32.ofNat_toNat]

theorem commit_stores (s : SQ) (m : SQMemory) (array : m.kArray = s.kArray)
    (tail : m.kTail = s.kTail) :
    commit SQStore.write s.stores m =
      { m with kArray := s.flushSQ.2.kArray, kTail := s.flushSQ.2.kTail } := by
  rw [flushSQ_eq_stores]
  unfold stores
  by_cases none : s.sqeTail - s.sqeHead = 0
  · have nothing : s.storesOfFlush = [] := by
      rw [storesOfFlush, none]
      rfl
    rw [if_pos none, commit_nil, nothing, none, UInt32.add_zero]
    show m = { m with kArray := s.kArray, kTail := s.kTail }
    rw [← array, ← tail]
  · rw [if_neg none, commit_append, commit_array, array]
    rfl

namespace WF

variable {q : SQ}

theorem visible_prefix (wf : q.WF) : q.visible <+: q.pending := by
  rw [wf.visible_eq_take]
  exact List.take_prefix _ _

/-- The cells the kernel may read are not among those `flushSQ` writes. -/
theorem arrayAddr_notMem_slots (wf : q.WF) {i : ℕ} (hi : i < gap q.kHead q.kTail) :
    q.arrayAddr (q.kHead + UInt32.ofNat i) ∉ slots q.arrayAddr q.kTail (gap q.kTail q.sqeTail) := by
  have total := wf.gap_unflushed
  have le := wf.pending_le
  intro mem
  obtain ⟨j, hj, same⟩ := List.mem_map.mp mem
  have lt := List.mem_range.mp hj
  have tail : q.kHead + UInt32.ofNat (gap q.kHead q.kTail) = q.kTail := add_ofNat_gap _ _
  rw [← tail, add_ofNat_add] at same
  have eq := wf.array_placement.add_inj (by omega) (by omega) same
  omega

end WF

end SQ

namespace AtomicBuild

variable (build : AtomicBuild) (b : Buffered SQMemory SQStore) (stores : List SQStore)

/-- Either the stores wait, or all that waited has reached memory. -/
theorem release_eq :
    build.release b stores = b.issue stores ∨
      build.release b stores = (b.issue stores).fence SQStore.write := by
  cases stores with
  | nil =>
      rw [Buffered.issue_nil]
      cases build <;> exact Or.inl rfl
  | cons w ws =>
      cases build with
      | plain => exact Or.inl rfl
      | atomic => exact Or.inr rfl

theorem own_release :
    (build.release b stores).own SQStore.write = (b.issue stores).own SQStore.write := by
  rcases release_eq build b stores with eq | eq
  · rw [eq]
  · rw [eq, Buffered.own_fence]

end AtomicBuild

/-! ## The invariant -/

namespace SQMemory

theorem grows_refl (mask head : UInt32) (m : SQMemory) : Grows mask head m m := List.prefix_rfl

theorem grows_trans (mask head : UInt32) (m m' m'' : SQMemory) (first : Grows mask head m m')
    (second : Grows mask head m' m'') : Grows mask head m m'' :=
  List.IsPrefix.trans first second

/-- For a reader one further on, as long as there was something to read. -/
theorem Grows.advance {mask head : UInt32} {m m' : SQMemory} (grows : Grows mask head m m')
    (some : m.kTail ≠ head) : Grows mask (head + 1) m m' := by
  have some' : m'.kTail ≠ head := by
    intro none
    have le := grows.length_le
    rw [length_visible, length_visible, none, gap_self, Nat.le_zero] at le
    exact some (gap_eq_zero_iff.mp le).symm
  unfold Grows at grows
  rw [visible_of_ne some, visible_of_ne some'] at grows
  exact (List.cons_prefix_cons.mp grows).2

end SQMemory

namespace SharedSQ

/-- **The invariant**, whatever the build. -/
structure Inv (s : SharedSQ) : Prop where
  wf : s.whole.WF
  /-- The `kHead` in memory is behind the thread by no more than the room that is left. -/
  stale : gap s.own.kHead s.head + gap s.head s.sqeTail ≤ s.kRingEntries.toNat
  conserved : s.handed = s.read ++ s.whole.pending
  /-- As the buffer drains, the thread finds more and more. -/
  grows : Ascending SQStore.write (SQMemory.Grows s.kRingMask s.head) s.shared

theorem inv_start {s₀ : SQ} (fresh : s₀.Fresh) : Inv (start s₀) where
  wf := fresh.wf
  stale := by
    show gap s₀.kHead s₀.kHead + gap s₀.kHead s₀.sqeTail ≤ _
    rw [fresh.sqeTail, gap_self]
    exact Nat.zero_le _
  conserved := fresh.pending.symm
  grows := fun done w rest split => by simp [start] at split

variable {s s' : SharedSQ}

/-- Slots of SQEs that are queued next are not among those the thread may read. -/
theorem visible_write_slot (wf : s.whole.WF)
    (room : gap s.head s.sqeTail < s.kRingEntries.toNat) (sqe : SQEntry) :
    ((SQStore.slot (s.whole.sqeAddr s.sqeTail) sqe).write s.own).visible s.kRingMask s.head =
      s.own.visible s.kRingMask s.head :=
  wf.visible_pushSQE room sqe

theorem Inv.room (inv : Inv s)
    (le : s.sq.sqeTail + 1 - s.sq.kHead ≤ s.sq.kRingEntries) :
    gap s.head s.sqeTail < s.kRingEntries.toNat ∧
      gap s.own.kHead s.head + gap s.head (s.sqeTail + 1) ≤ s.kRingEntries.toNat := by
  have small := inv.wf.small
  have stale := inv.stale
  change s.kRingEntries.toNat ≤ 32768 at small
  have whole : gap s.own.kHead s.sqeTail =
      gap s.own.kHead s.head + gap s.head s.sqeTail := by
    have tail : s.sqeTail = s.own.kHead +
        UInt32.ofNat (gap s.own.kHead s.head + gap s.head s.sqeTail) := by
      rw [← add_ofNat_add, add_ofNat_gap, add_ofNat_gap]
    calc gap s.own.kHead s.sqeTail
        = gap s.own.kHead (s.own.kHead +
            UInt32.ofNat (gap s.own.kHead s.head + gap s.head s.sqeTail)) :=
          congrArg (gap s.own.kHead) tail
      _ = _ := gap_add_ofNat _ (by omega)
  have next : gap s.own.kHead (s.sqeTail + 1) ≤ s.kRingEntries.toNat :=
    UInt32.le_iff_toNat_le.mp le
  rw [gap_add_one (by omega), whole] at next
  have more : gap s.head (s.sqeTail + 1) = gap s.head s.sqeTail + 1 := gap_add_one (by omega)
  omega

/-- While a slot is being written, part by part, nothing changes for the thread. -/
theorem grows_slots (wf : s.whole.WF) (room : gap s.head s.sqeTail < s.kRingEntries.toNat)
    (sqes : List SQEntry) :
    Ascending SQStore.write (SQMemory.Grows s.kRingMask s.head)
      { memory := s.own
        buffer := sqes.map (.slot (s.whole.sqeAddr s.sqeTail)) } := by
  let a := s.whole.sqeAddr s.sqeTail
  refine Ascending.of_forall
    (P := fun m => m = s.own ∨ ∃ x, m = (SQStore.slot a x).write s.own) (Or.inl rfl) ?_
  intro w mem m before
  obtain ⟨x, -, rfl⟩ := List.mem_map.mp mem
  have after : (SQStore.slot a x).write m = (SQStore.slot a x).write s.own := by
    rcases before with rfl | ⟨y, rfl⟩
    · rfl
    · simp only [SQStore.write, Function.update_idem]
  have same : m.visible s.kRingMask s.head = s.own.visible s.kRingMask s.head := by
    rcases before with rfl | ⟨y, rfl⟩
    · rfl
    · exact visible_write_slot wf room y
  refine ⟨Or.inr ⟨x, after⟩, ?_⟩
  show m.visible _ _ <+: SQMemory.visible _ _ ((SQStore.slot a x).write m)
  rw [after, same, visible_write_slot wf room x]

theorem Inv.queueSQE {op : Operation} {flags : UInt8} {userData : UInt64}
    {partials : List SQEntry} {sq : SQ} (inv : Inv s)
    (queued : s.sq.queueSQE op flags userData = some (none, sq)) :
    Inv { s with
      shared := s.shared.issue
        ((partials ++ [sq.sqeBuff (s.sq.sqeAddr s.sq.sqeTail)]).map
          (.slot (s.sq.sqeAddr s.sq.sqeTail)))
      sqeTail := sq.sqeTail
      handed := s.handed ++ [sq.sqeBuff (s.sq.sqeAddr s.sq.sqeTail)]
      queued := s.queued ++ [sq.sqeBuff (s.sq.sqeAddr s.sq.sqeTail)] } := by
  obtain ⟨le, sqe, rfl⟩ := SQ.pushSQE_of_queueSQE queued
  obtain ⟨room, stale⟩ := inv.room le
  have written : (s.sq.pushSQE sqe).sqeBuff (s.sq.sqeAddr s.sq.sqeTail) = sqe :=
    Function.update_self _ _ _
  rw [written]
  let a := s.whole.sqeAddr s.sqeTail
  have own : ∀ sqeTail handed queued, SharedSQ.own
      { s with
        shared := s.shared.issue ((partials ++ [sqe]).map (.slot a))
        sqeTail := sqeTail
        handed := handed
        queued := queued } = (SQStore.slot a sqe).write s.own := by
    intro sqeTail handed queued
    exact (Buffered.own_issue _ _ _).trans (commit_slots a sqe partials _)
  have whole : ∀ handed queued, SharedSQ.whole
      { s with
        shared := s.shared.issue ((partials ++ [sqe]).map (.slot a))
        sqeTail := s.sqeTail + 1
        handed := handed
        queued := queued } = s.whole.pushSQE sqe := by
    intro handed queued
    rw [SharedSQ.whole, own]
    rfl
  refine ⟨?_, ?_, ?_, ?_⟩
  · exact (whole _ _).symm ▸ inv.wf.pushSQE room sqe
  · exact (congrArg (fun m => gap (SQMemory.kHead m) s.head + _) (own _ _ _)).trans_le stale
  · show s.handed ++ [sqe] = s.read ++ SQ.pending _
    rw [inv.conserved, List.append_assoc]
    exact congrArg _ ((inv.wf.pending_pushSQE room sqe).symm.trans
      (congrArg SQ.pending (whole _ _).symm))
  · exact inv.grows.issue (grows_slots inv.wf room _)

/-- A slot that is abandoned is queued, with nothing stored. -/
theorem Inv.abandonSQE {op : Operation} {flags : UInt8} {userData : UInt64} (inv : Inv s)
    (panics : s.sq.queueSQE op flags userData = none) :
    Inv { s with
      sqeTail := s.sq.abandonSQE.sqeTail
      handed := s.handed ++ [s.sq.nextSlot] } := by
  obtain ⟨le, abandoned⟩ := SQ.abandonSQE_of_panic panics
  obtain ⟨room, stale⟩ := inv.room le
  rw [abandoned]
  have slot : s.sq.nextSlot = s.whole.nextSlot := rfl
  have wf := inv.wf.pushSQE room s.whole.nextSlot
  have pending := inv.wf.pending_pushSQE room s.whole.nextSlot
  rw [SQ.pushSQE_nextSlot] at wf pending
  refine ⟨wf, stale, ?_, inv.grows⟩
  show s.handed ++ [s.sq.nextSlot] = s.read ++ SQ.pending _
  rw [inv.conserved, List.append_assoc, slot]
  exact congrArg _ pending.symm

/-- While the array is being stored, nothing changes for the thread. -/
theorem grows_array (wf : s.whole.WF) :
    Ascending SQStore.write (SQMemory.Grows s.kRingMask s.head)
      { memory := s.own
        buffer := s.whole.storesOfFlush.map fun x => .array x.1 x.2 } := by
  let cells := slots s.whole.arrayAddr s.whole.kTail (gap s.whole.kTail s.whole.sqeTail)
  refine Ascending.of_forall
    (P := fun m => m.kTail = s.own.kTail ∧ m.sqeBuff = s.own.sqeBuff ∧
      ∀ a ∉ cells, m.kArray a = s.own.kArray a) ⟨rfl, rfl, fun _ _ => rfl⟩ ?_
  intro w mem m ⟨tail, buff, array⟩
  obtain ⟨store, stored, rfl⟩ := List.mem_map.mp mem
  have cell : store.1 ∈ cells := by
    have here := SQ.mem_slots_of_flushStores s.whole _ _ _ stored
    rwa [wf.flushed] at here
  have kept : ∀ a ∉ cells, (SQStore.array store.1 store.2 |>.write m).kArray a = m.kArray a := by
    intro a outside
    have other : a ≠ store.1 := fun same => outside (same.symm ▸ cell)
    exact Function.update_of_ne other _ _
  refine ⟨⟨tail, buff, fun a outside => (kept a outside).trans (array a outside)⟩, ?_⟩
  have same : (SQStore.array store.1 store.2 |>.write m).visible s.kRingMask s.head =
      m.visible s.kRingMask s.head := by
    refine List.map_congr_left fun i mem => ?_
    have lt := List.mem_range.mp mem
    change i < gap s.head m.kTail at lt
    rw [tail] at lt
    have outside := wf.arrayAddr_notMem_slots lt
    have fits := wf.array_fits
    have addr : s.whole.arrayAddr (s.head + UInt32.ofNat i) =
        (s.head + UInt32.ofNat i &&& s.kRingMask).toNat * 4 := by
      rw [SQ.arrayAddr, toNat_and_mul wf.sized fits, ← wf.sized.toNat_and]
      rfl
    rw [show s.whole.kHead = s.head from rfl, addr] at outside
    rw [SQMemory.read, SQMemory.read, kept _ outside]
    rfl
  show _ <+: _
  rw [same]

theorem own_flushSQ (s : SharedSQ) :
    (s.shared.issue s.sq.stores).own SQStore.write =
      { s.own with kArray := s.whole.flushSQ.2.kArray, kTail := s.whole.flushSQ.2.kTail } :=
  (Buffered.own_issue _ _ _).trans (SQ.commit_stores s.whole s.own rfl rfl)

theorem grows_flushSQ (inv : Inv s) :
    Ascending SQStore.write (SQMemory.Grows s.kRingMask s.head)
      (s.shared.issue s.sq.stores) := by
  refine inv.grows.issue ?_
  show Ascending _ _ { memory := s.own, buffer := s.whole.stores }
  unfold SQ.stores
  split
  · intro done w rest split
    simp at split
  · -- The array first, then the one store that shows it.
    refine (grows_array inv.wf).issue ?_
    intro done w rest split
    rcases done with - | ⟨first, done⟩
    · simp only [List.nil_append, List.cons.injEq] at split
      obtain ⟨rfl, -⟩ := split
      let stored := Buffered.own SQStore.write
        { memory := s.own
          buffer := s.whole.storesOfFlush.map fun x => SQStore.array x.1 x.2 }
      have array : stored =
          { s.own with kArray := SQ.applyStores s.own.kArray s.whole.storesOfFlush } :=
        commit_array _ _
      have same : s.own.visible s.kRingMask s.head = stored.visible s.kRingMask s.head := by
        have up := (grows_array inv.wf).memory_own (SQMemory.grows_refl _ _)
          (SQMemory.grows_trans _ _)
        refine up.eq_of_length ?_
        rw [SQMemory.length_visible, SQMemory.length_visible]
        show gap s.head s.own.kTail = gap s.head stored.kTail
        rw [array]
      have after : s.whole.flushSQ.2.visible =
          ((SQStore.kTail (s.whole.kTail + (s.whole.sqeTail - s.whole.sqeHead))).write
            stored).visible s.kRingMask s.head := by
        rw [SQ.flushSQ_eq_stores, array]
        rfl
      show stored.visible s.kRingMask s.head <+:
        ((SQStore.kTail _).write stored).visible s.kRingMask s.head
      rw [← same, ← after, inv.wf.visible_flushSQ]
      exact inv.wf.visible_prefix
    · simp at split

theorem Inv.flushSQ (inv : Inv s) {shared : Buffered SQMemory SQStore}
    (own : shared.own SQStore.write = (s.shared.issue s.sq.stores).own SQStore.write)
    (grows : Ascending SQStore.write (SQMemory.Grows s.kRingMask s.head) shared)
    (pc : PublishPC) :
    Inv { s with shared := shared, sqeHead := s.sq.flushSQ.2.sqeHead, pc := pc } := by
  rw [own_flushSQ] at own
  have kHead : (shared.own SQStore.write).kHead = s.own.kHead := by rw [own]
  have whole : SharedSQ.whole
      { s with shared := shared, sqeHead := s.sq.flushSQ.2.sqeHead, pc := pc } =
      s.whole.flushSQ.2 := by
    rw [SharedSQ.whole, SharedSQ.own, own, SQ.flushSQ_eq_stores, SQ.flushSQ_eq_stores]
    rfl
  refine ⟨?_, ?_, ?_, grows⟩
  · rw [whole]
    exact inv.wf.flushSQ
  · show gap (shared.own SQStore.write).kHead s.head + _ ≤ _
    rw [kHead]
    exact inv.stale
  · rw [whole, inv.wf.pending_flushSQ]
    exact inv.conserved

/-- A step of others that changes at most the flags and `kHead`. -/
theorem Inv.env (inv : Inv s) {f : SQMemory → SQMemory}
    (apart : ∀ w m, SQStore.write w (f m) = f (SQStore.write w m))
    (same : ∀ m, (f m).kTail = m.kTail ∧ (f m).kArray = m.kArray ∧ (f m).sqeBuff = m.sqeBuff)
    (head : gap (f s.own).kHead s.head ≤ gap s.own.kHead s.head) (thread : SQThread) :
    Inv { s with shared := s.shared.env f, thread := thread } := by
  have own : (s.shared.env f).own SQStore.write = f s.own := Buffered.own_env _ apart _
  have visible : ∀ m, (f m).visible s.kRingMask s.head = m.visible s.kRingMask s.head := by
    intro m
    obtain ⟨tail, array, buff⟩ := same m
    simp only [SQMemory.visible, SQMemory.read, tail, array, buff]
  obtain ⟨tail, array, buff⟩ := same s.own
  have pending : SharedSQ.whole { s with shared := s.shared.env f, thread := thread } =
      { s.whole with kFlags := (f s.own).kFlags } := by
    rw [SharedSQ.whole, SharedSQ.own, own, SharedSQ.withMemory, tail, array, buff]
    rfl
  refine ⟨?_, ?_, ?_, inv.grows.env apart fun m m' up => ?_⟩
  · rw [pending]
    exact ⟨inv.wf.sized, inv.wf.small, inv.wf.flushed, inv.wf.visible_le, inv.wf.pending_le,
      inv.wf.array_eq⟩
  · show gap ((s.shared.env f).own SQStore.write).kHead s.head + _ ≤ _
    rw [own]
    exact (Nat.add_le_add_right head _).trans inv.stale
  · rw [pending]
    exact inv.conserved
  · show _ <+: _
    rw [visible, visible]
    exact up

theorem Inv.withFlags (inv : Inv s) (f : UInt32 → UInt32) (thread : SQThread) :
    Inv { s.withFlags f with thread := thread } := by
  refine inv.env (f := fun m => { m with kFlags := f m.kFlags }) (fun w m => ?_)
    (fun m => ⟨rfl, rfl, rfl⟩) (Nat.le_refl _) thread
  cases w <;> rfl

theorem Inv.drain (inv : Inv s) {shared : Buffered SQMemory SQStore}
    (drained : s.shared.drain SQStore.write = some shared) : Inv { s with shared := shared } := by
  have own : shared.own SQStore.write = s.own := Buffered.own_drain _ drained
  have whole : SharedSQ.whole { s with shared := shared } = s.whole := by
    rw [SharedSQ.whole, SharedSQ.own, own]
    rfl
  refine ⟨whole ▸ inv.wf, ?_, ?_, inv.grows.drain drained⟩
  · show gap (shared.own SQStore.write).kHead s.head + _ ≤ _
    rw [own]
    exact inv.stale
  · rw [whole]
    exact inv.conserved

theorem Inv.fence (inv : Inv s) (pc : PublishPC) :
    Inv { s with shared := s.shared.fence SQStore.write, pc := pc } :=
  ⟨inv.wf, inv.stale, inv.conserved, Ascending.fence _⟩

/-- What the thread reads is the oldest SQE. -/
theorem Inv.consume (inv : Inv s) (some : s.shared.memory.kTail ≠ s.head) :
    Inv { s with
      head := s.head + 1
      read := s.read ++ [s.shared.memory.read s.kRingMask s.head] } := by
  have up := inv.grows.memory_own (SQMemory.grows_refl _ _) (SQMemory.grows_trans _ _)
  have owned : s.own.kTail ≠ s.head := by
    intro none
    have le := up.length_le
    rw [SQMemory.length_visible, SQMemory.length_visible] at le
    change gap s.head s.shared.memory.kTail ≤ gap s.head s.own.kTail at le
    rw [none, gap_self, Nat.le_zero] at le
    exact some (gap_eq_zero_iff.mp le).symm
  have first : s.shared.memory.read s.kRingMask s.head = s.own.read s.kRingMask s.head := by
    have both : s.shared.memory.visible s.kRingMask s.head <+: s.own.visible s.kRingMask s.head :=
      up
    rw [SQMemory.visible_of_ne some, SQMemory.visible_of_ne owned] at both
    exact (List.cons_prefix_cons.mp both).1
  have consumed : s.whole.kernelConsume =
      Option.some (s.own.read s.kRingMask s.head, { s.whole with kHead := s.head + 1 }) :=
    if_neg owned.symm
  obtain ⟨wf, pending, -, -⟩ := inv.wf.kernelConsume_spec consumed
  refine ⟨wf, ?_, ?_, inv.grows.imp fun done w rest split grows => ?_⟩
  · have small := inv.wf.small
    have stale := inv.stale
    change s.kRingEntries.toNat ≤ 32768 at small
    have one : 1 ≤ gap s.head s.sqeTail := by
      have length := congrArg List.length pending
      rw [SQ.length_pending, List.length_cons] at length
      exact length ▸ Nat.succ_pos _
    have behind : gap s.own.kHead (s.head + 1) = gap s.own.kHead s.head + 1 :=
      gap_add_one (by omega)
    have ahead : gap (s.head + 1) s.sqeTail = gap s.head s.sqeTail - 1 := gap_advance one
    show gap s.own.kHead (s.head + 1) + gap (s.head + 1) s.sqeTail ≤ s.kRingEntries.toNat
    omega
  · show s.handed = s.read ++ [_] ++ _
    rw [inv.conserved, pending, first, List.append_assoc]
    rfl
  · -- Whatever has been drained, there is something to read.
    refine grows.advance fun none => ?_
    have le := (inv.grows.memory_commit (SQMemory.grows_refl _ _) (SQMemory.grows_trans _ _)
      split).length_le
    rw [SQMemory.length_visible, SQMemory.length_visible, none, gap_self, Nat.le_zero] at le
    exact some (gap_eq_zero_iff.mp le).symm

theorem commit_kHead (ws : List SQStore) (m : SQMemory) :
    (commit SQStore.write ws m).kHead = m.kHead ∧
      (commit SQStore.write ws m).kFlags = m.kFlags := by
  induction ws generalizing m with
  | nil => exact ⟨rfl, rfl⟩
  | cons w ws ih =>
      rw [commit_cons, (ih _).1, (ih _).2]
      cases w <;> exact ⟨rfl, rfl⟩

theorem inv_step {build : AtomicBuild} {e : PublishEvent} (inv : Inv s)
    (stepped : s.step build e = some s') : Inv s' := by
  cases e with
  | queueSQE op flags userData partials =>
      simp only [step] at stepped
      split at stepped
      · split at stepped
        · cases stepped
          exact inv
        · next queued =>
          cases stepped
          exact inv.queueSQE queued
        · next panics =>
          cases stepped
          exact inv.abandonSQE panics
      · cases stepped
  | flushSQ =>
      simp only [step] at stepped
      split at stepped
      · cases stepped
        refine inv.flushSQ (AtomicBuild.own_release _ _ _) ?_ .flushed
        rcases AtomicBuild.release_eq build s.shared s.sq.stores with eq | eq
        · rw [eq]
          exact grows_flushSQ inv
        · rw [eq]
          exact Ascending.fence _
      · cases stepped
  | needsEnter =>
      simp only [step] at stepped
      split at stepped
      · split at stepped <;> cases stepped <;>
          exact ⟨inv.wf, inv.stale, inv.conserved, inv.grows⟩
      · cases stepped
  | enter =>
      simp only [step] at stepped
      split at stepped
      · split at stepped
        · cases stepped
          exact (inv.fence .idle).withFlags _ .running
        · cases stepped
          exact inv.fence .idle
      · cases stepped
  | drain =>
      obtain ⟨shared, drained, rfl⟩ := Option.map_eq_some_iff.mp stepped
      exact inv.drain drained
  | kHead =>
      simp only [step] at stepped
      split at stepped
      · cases stepped
      · next behind =>
        cases stepped
        refine inv.env (f := fun m => { m with kHead := m.kHead + 1 }) (fun w m => ?_)
          (fun m => ⟨rfl, rfl, rfl⟩) ?_ s.thread
        · cases w <;> rfl
        · have own : s.own.kHead = s.shared.memory.kHead := (commit_kHead _ _).1
          have some : 1 ≤ gap s.own.kHead s.head := by
            refine Nat.one_le_iff_ne_zero.mpr fun zero => behind ?_
            rw [← own]
            exact gap_eq_zero_iff.mp zero
          have less : gap (s.own.kHead + 1) s.head = gap s.own.kHead s.head - 1 :=
            gap_advance some
          exact less.trans_le (Nat.sub_le _ _)
  | consume =>
      simp only [step] at stepped
      split at stepped
      · next can =>
        cases stepped
        exact inv.consume can.2
      · cases stepped
  | setFlag =>
      simp only [step] at stepped
      split at stepped
      · cases stepped
        refine inv.env
          (f := fun m => { m with kHead := s.head, kFlags := m.kFlags ||| sqNeedWakeup })
          (fun w m => ?_) (fun m => ⟨rfl, rfl, rfl⟩) ?_ .flagged
        · cases w <;> rfl
        · show gap s.head s.head ≤ _
          rw [gap_self]
          exact Nat.zero_le _
      · cases stepped
  | recheck =>
      simp only [step] at stepped
      split at stepped
      · split at stepped
        · cases stepped
          exact ⟨inv.wf, inv.stale, inv.conserved, inv.grows⟩
        · cases stepped
          exact inv.withFlags _ .running
      · cases stepped
  | overflow raised =>
      cases stepped
      exact inv.withFlags (fun flags => reportOverflow flags raised) s.thread

/-- The invariant holds in every state of every run. -/
theorem inv_of_path {build : AtomicBuild} {s₀ : SQ} (fresh : s₀.Fresh)
    {p : List (SharedSQ × PublishEvent)} {s : SharedSQ}
    (path : Path (step build) (start s₀) p s) : Inv s :=
  path.invariant_of_step Inv (inv_start fresh) fun _ _ _ inv stepped => inv_step inv stepped

theorem Inv.seen_prefix (inv : Inv s) : s.seen.visible <+: s.whole.pending :=
  List.IsPrefix.trans
    (inv.grows.memory_own (SQMemory.grows_refl _ _) (SQMemory.grows_trans _ _))
    inv.wf.visible_prefix

theorem Inv.rest (inv : Inv s) : s.handed.drop s.read.length = s.whole.pending := by
  rw [inv.conserved, List.drop_left]

/-- The operation is not one whose `PrepSQE` panics in the slot it is handed. -/
def Prepares (s : SharedSQ) : PublishEvent → Prop
  | .queueSQE op _ _ _ => s.sq.Prepares op
  | _ => True

/-- Only `QueueSQE` is handed slots. -/
theorem handed_step {build : AtomicBuild} {e : PublishEvent} (prepares : s.Prepares e)
    (same : s.handed = s.queued) (stepped : s.step build e = some s') :
    s'.handed = s'.queued := by
  cases e with
  | queueSQE op flags userData partials =>
      simp only [step] at stepped
      split at stepped
      · split at stepped
        · cases stepped
          exact same
        · cases stepped
          exact congrArg (· ++ [_]) same
        · next panics => exact absurd prepares (SQ.queueSQE_eq_none_iff.mp panics)
      · cases stepped
  | drain =>
      obtain ⟨shared, -, rfl⟩ := Option.map_eq_some_iff.mp stepped
      exact same
  | flushSQ | needsEnter | enter | kHead | consume | setFlag | recheck | overflow raised =>
      simp only [step] at stepped
      repeat' split at stepped
      all_goals
        cases stepped
        try exact same

theorem handed_eq_queued {build : AtomicBuild} {s₀ : SQ} {p : List (SharedSQ × PublishEvent)}
    (path : Path (step build) (start s₀) p s) (prepared : ∀ x ∈ p, x.1.Prepares x.2) :
    s.handed = s.queued :=
  path.invariant (fun s => s.handed = s.queued) Prepares rfl
    (fun _ _ _ same prepares stepped => handed_step prepares same stepped) prepared

end SharedSQ

/-- **The submission ring is a FIFO under either build**, with store buffers.  Whenever the
stores of the library and those of the SQ thread reach memory, and in however many parts an SQE
is written,

* the thread reads what the slots were left with that were handed out, complete and in order;
* what memory shows it is the next of that, and there are never more than `entries`;
* once a flush has reached memory, it is shown all of it;
* and that are the SQEs that were queued, if no `QueueSQE` panicked in the slot it was handed. -/
theorem sqpoll_reads_in_order {s₀ : SQ} (fresh : s₀.Fresh) (build : AtomicBuild)
    {p : List (SharedSQ × PublishEvent)} {s : SharedSQ}
    (path : Path (SharedSQ.step build) (SharedSQ.start s₀) p s) :
    s.read <+: s.handed ∧
    s.seen.visible <+: s.handed.drop s.read.length ∧
    s.handed.length ≤ s.read.length + s.kRingEntries.toNat ∧
    (s.shared.buffer = [] → s.sqeHead = s.sqeTail →
      s.seen.visible = s.handed.drop s.read.length) ∧
    ((∀ x ∈ p, x.1.Prepares x.2) → s.handed = s.queued) := by
  have inv := SharedSQ.inv_of_path fresh path
  refine ⟨?_, ?_, ?_, ?_, SharedSQ.handed_eq_queued path⟩
  · rw [inv.conserved]
    exact List.prefix_append _ _
  · rw [inv.rest]
    exact inv.seen_prefix
  · have le := inv.wf.pending_le
    rw [inv.conserved, List.length_append, SQ.length_pending]
    exact Nat.add_le_add_left le _
  · intro drained flushed
    have whole : s.seen = s.whole := by
      rw [SharedSQ.seen, SharedSQ.whole, SharedSQ.own, Buffered.own, drained, commit_nil]
    have all : gap s.whole.kHead s.whole.kTail = s.whole.pending.length := by
      rw [SQ.length_pending, ← inv.wf.flushed]
      exact congrArg _ flushed
    rw [inv.rest, whole, inv.wf.visible_eq_take, all, List.take_length]

/-- The first SQE is written in two parts, and its slot is used again after the thread's own
`kHead` has reached memory. -/
def writtenInParts : List PublishEvent :=
  [.queueSQE nopOp 0 7 [default], .queueSQE nopOp 0 8 [], .flushSQ, .needsEnter,
    .drain, .drain, .drain, .drain, .drain, .drain, .consume, .kHead,
    .queueSQE nopOp 0 9 [], .flushSQ, .drain, .drain, .drain]

/-- On two slots and through the wrap-around. -/
theorem sqpoll_reads_in_order_wrapping :
    ∃ p s, Path (SharedSQ.step .plain) (SharedSQ.start wrappingSQ) p s ∧
      s.read.map SQEntry.userData = [7] ∧ s.queued.map SQEntry.userData = [7, 8, 9] ∧
      s.seen.visible = s.handed.drop s.read.length ∧ s.handed = s.queued :=
  have reads := sqpoll_reads_in_order wrappingSQ_fresh .plain (path_record writtenInParts rfl)
  ⟨_, _, path_record writtenInParts rfl, rfl, rfl, reads.2.2.2.1 rfl rfl,
    reads.2.2.2.2 (forall_record (by simp [writtenInParts, SharedSQ.Prepares]))⟩

end GoUring.Uring
