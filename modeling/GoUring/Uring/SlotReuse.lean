import GoUring.Uring.Encoding

/-!
# Slots that are used again

A slot of the submission queue keeps its contents when the kernel has read it, and `NextSQE`
hands it out again as it is.  Whoever fills it by hand may leave fields unwritten.  `QueueSQE`
does not: `SQEntry.fill` writes all fields of the slot, and every encoder of
`uring/operation.go` starts with it.

`SlotRun` is a submission queue that is used in both ways.  Positions are handed out by
`QueueSQE` and by `NextSQE`, a caller may write into a slot that `NextSQE` gave it until the slot
is handed out again, and the kernel reads.  What a run keeps (`Inv`) is that the SQE of a
position that was queued is the encoding of its operation, no matter what was in the slot.  It is
therefore the same in any two runs that have queued the operation, whatever else they have done
and whatever memory they have started from.
-/

namespace GoUring.Uring

open CounterRing Runs

namespace PublicOp

/-- **No encoder looks at the slot.** -/
theorem encode_congr (op : PublicOp) (flags : UInt8) (userData : UInt64) (old old' : SQEntry) :
    op.operation.encode flags userData old = op.operation.encode flags userData old' := by
  cases op <;> rfl

/-- **`QueueSQE` on two memories.**  Whatever the slots hold, it leaves the same SQE in the slot
it takes. -/
theorem queueSQE_congr {s s' : SQ} {op : PublicOp} {flags : UInt8} {userData : UInt64}
    (buff : ℕ → SQEntry) (queued : s.queueSQE op.operation flags userData = some (none, s')) :
    ∃ t, SQ.queueSQE { s with sqeBuff := buff } op.operation flags userData = some (none, t) ∧
      t.sqeBuff (s.sqeAddr s.sqeTail) = s'.sqeBuff (s.sqeAddr s.sqeTail) := by
  unfold SQ.queueSQE SQ.nextSQE at queued ⊢
  dsimp only at queued ⊢
  split at queued
  · next slot q handed =>
    split at handed
    · next room => cases handed
    · cases handed
      cases queued
  · next slot q handed =>
    split at handed
    · next room =>
      cases handed
      rw [if_pos room]
      obtain ⟨sqe, encoded, same⟩ := Option.map_eq_some_iff.mp queued
      rw [Prod.mk.injEq] at same
      obtain ⟨-, rfl⟩ := same
      dsimp only
      rw [op.encode_congr flags userData _ (s.sqeBuff _), encoded]
      refine ⟨_, rfl, ?_⟩
      have left := Function.update_self (s.sqeAddr s.sqeTail) sqe buff
      have right := Function.update_self (s.sqeAddr s.sqeTail) sqe s.sqeBuff
      exact left.trans right.symm
    · cases handed

end PublicOp

/-! ## Runs -/

/-- How a position of the queue was filled: by `QueueSQE`, or by hand into the slot at which
`NextSQE` has returned a pointer. -/
inductive Filling
  | queued (op : PublicOp) (flags : UInt8) (userData : UInt64)
  | byHand (entry : UInt32)
  deriving DecidableEq, Repr

/-- The SQE is the encoding of what was queued, whatever the slot held; nothing is said of one
that was written by hand. -/
def Filling.Fills : Filling → SQEntry → Prop
  | .queued op flags userData, sqe => ∀ old, op.operation.encode flags userData old = some sqe
  | .byHand _, _ => True

/-- A submission queue, how its positions were filled so far, and the SQEs the kernel has read.
-/
structure SlotRun where
  sq : SQ
  filled : List Filling
  read : List SQEntry

/-- What can happen to a submission queue whose slots are also filled by hand. -/
inductive SlotEvent
  /-- `QueueSQE(op, flags, userData)`. -/
  | queueSQE (op : PublicOp) (flags : UInt8) (userData : UInt64)
  /-- `NextSQE`. -/
  | nextSQE
  /-- The caller of the `NextSQE` for position `i` writes into its slot. -/
  | write (i : ℕ) (sqe : SQEntry)
  /-- `flushSQ`. -/
  | flushSQ
  /-- The kernel reads an SQE. -/
  | kernel

namespace SlotRun

/-- Nothing queued, nothing read. -/
def start (s : SQ) : SlotRun := { sq := s, filled := [], read := [] }

/-- A slot is handed out and left to the caller. -/
def handOut (r : SlotRun) : SlotRun :=
  match r.sq.nextSQE with
  | (.error _, sq) => { r with sq := sq }
  | (.ok entry, sq) => { r with sq := sq, filled := r.filled ++ [.byHand entry] }

/-- One step.  A panic of `PrepSQE` leaves the slot handed out. -/
def step (r : SlotRun) : SlotEvent → Option SlotRun
  | .queueSQE op flags userData =>
      match r.sq.queueSQE op.operation flags userData with
      | some (none, sq) =>
          some { r with sq := sq, filled := r.filled ++ [.queued op flags userData] }
      | some (some _, sq) => some { r with sq := sq }
      | none => some r.handOut
  | .nextSQE => some r.handOut
  | .write i sqe =>
      match r.filled[i]? with
      | some (.byHand entry) =>
          -- The slot was not handed out again.
          if r.filled.length ≤ i + r.sq.kRingEntries.toNat then
            some { r with
              sq := { r.sq with sqeBuff := Function.update r.sq.sqeBuff entry.toNat sqe } }
          else none
      | _ => none
  | .flushSQ => some { r with sq := r.sq.flushSQ.2 }
  | .kernel => r.sq.kernelConsume.map fun (sqe, sq) =>
      { r with sq := sq, read := r.read ++ [sqe] }

/-- The counter value of a position, for a run that started on `s₀`. -/
def counter (s₀ : SQ) (i : ℕ) : UInt32 := s₀.kHead + UInt32.ofNat i

/-- **The invariant of a run that started on `s₀`.** -/
structure Inv (s₀ : SQ) (r : SlotRun) : Prop where
  wf : r.sq.WF
  mask : r.sq.kRingMask = s₀.kRingMask
  head : r.sq.kHead = counter s₀ r.read.length
  tail : r.sq.sqeTail = counter s₀ r.filled.length
  /-- The positions read and pending hold what they were filled with. -/
  fills : List.Forall₂ Filling.Fills r.filled (r.read ++ r.sq.pending)
  /-- A pointer points at the slot of its position. -/
  pointers : ∀ i entry, r.filled[i]? = some (.byHand entry) →
    entry.toNat = s₀.sqeAddr (counter s₀ i)

theorem inv_start {s₀ : SQ} (fresh : s₀.Fresh) : Inv s₀ (start s₀) where
  wf := fresh.wf
  mask := rfl
  head := (UInt32.add_zero _).symm
  tail := fresh.sqeTail.trans (UInt32.add_zero _).symm
  fills := by
    show List.Forall₂ Filling.Fills [] ([] ++ s₀.pending)
    rw [fresh.pending]
    exact .nil
  pointers i entry found := by cases found

namespace Inv

variable {s₀ : SQ} {r r' : SlotRun}

theorem sqeAddr_eq (inv : Inv s₀ r) (c : UInt32) : r.sq.sqeAddr c = s₀.sqeAddr c := by
  rw [SQ.sqeAddr, SQ.sqeAddr, inv.mask]

theorem length_eq (inv : Inv s₀ r) :
    r.filled.length = r.read.length + r.sq.pending.length := by
  rw [inv.fills.length_eq, List.length_append]

/-- One more position is filled. -/
theorem push (inv : Inv s₀ r) (room : gap r.sq.kHead r.sq.sqeTail < r.sq.kRingEntries.toNat)
    {filling : Filling} {sqe : SQEntry} (fills : filling.Fills sqe)
    (pointer : ∀ entry, filling = .byHand entry → entry.toNat = r.sq.sqeAddr r.sq.sqeTail) :
    Inv s₀ { r with sq := r.sq.pushSQE sqe, filled := r.filled ++ [filling] } where
  wf := inv.wf.pushSQE room sqe
  mask := inv.mask
  head := inv.head
  tail := by
    show r.sq.sqeTail + 1 = counter s₀ (r.filled ++ [filling]).length
    rw [inv.tail, counter, counter, List.length_append, ← add_ofNat_add]
    rfl
  fills := by
    show List.Forall₂ _ _ (r.read ++ (r.sq.pushSQE sqe).pending)
    rw [inv.wf.pending_pushSQE room sqe, ← List.append_assoc]
    exact List.rel_append inv.fills (.cons fills .nil)
  pointers i entry found := by
    rcases Nat.lt_trichotomy i r.filled.length with lt | rfl | gt
    · rw [List.getElem?_append_left lt] at found
      exact inv.pointers i entry found
    · rw [List.getElem?_concat_length, Option.some.injEq] at found
      rw [pointer entry found, inv.tail, inv.sqeAddr_eq]
    · have beyond : (r.filled ++ [filling]).length ≤ i := by
        rw [List.length_append, List.length_singleton]
        exact gt
      rw [List.getElem?_eq_none beyond] at found
      cases found

/-- Handing out a slot is filling it with what it holds. -/
theorem handOut (inv : Inv s₀ r) : Inv s₀ r.handOut := by
  unfold SlotRun.handOut SQ.nextSQE
  dsimp only
  split
  · next err q handed =>
    split at handed
    · cases handed
    · cases handed
      exact inv
  · next entry q handed =>
    split at handed
    · next free =>
      cases handed
      have same : ({ r.sq with sqeTail := r.sq.sqeTail + 1 } : SQ) =
          r.sq.pushSQE (r.sq.sqeBuff (r.sq.sqeAddr r.sq.sqeTail)) := by
        rw [SQ.pushSQE, Function.update_eq_self]
      rw [same]
      refine inv.push (inv.wf.next_le_iff.mp free) trivial fun entry handed => ?_
      cases handed
      rfl
    · cases handed

theorem queueSQE (inv : Inv s₀ r) {op : PublicOp} {flags : UInt8} {userData : UInt64}
    (stepped : r.step (.queueSQE op flags userData) = some r') : Inv s₀ r' := by
  simp only [step] at stepped
  split at stepped
  · next sq queued =>
    cases stepped
    rcases inv.wf.queueSQE_cases queued with ⟨-, failed, -⟩ | ⟨room, -, sqe, encoded, rfl⟩
    · cases failed
    · refine inv.push room (fun old => ?_) fun entry handed => by cases handed
      rw [← encoded]
      exact op.encode_congr flags userData _ _
  · next err sq queued =>
    cases stepped
    rcases inv.wf.queueSQE_cases queued with ⟨-, -, rfl⟩ | ⟨-, fine, -⟩
    · exact inv
    · cases fine
  · cases stepped
    exact inv.handOut

/-- The slot of a position that was not read yet. -/
theorem counter_pending (inv : Inv s₀ r) {j : ℕ} (unread : r.read.length ≤ j) :
    r.sq.kHead + UInt32.ofNat (j - r.read.length) = counter s₀ j := by
  rw [inv.head, counter, counter, add_ofNat_add, Nat.add_sub_cancel' unread]

/-- **A write by hand** reaches no position but the one its slot was handed out for: the positions
in the queue are fewer than the slots apart. -/
theorem pending_write (inv : Inv s₀ r) {i j : ℕ} (sqe : SQEntry) (within : i < r.filled.length)
    (young : r.filled.length ≤ i + r.sq.kRingEntries.toNat) (other : j ≠ i)
    (here : j < (r.read ++ SQ.pending { r.sq with
      sqeBuff := Function.update r.sq.sqeBuff (r.sq.sqeAddr (counter s₀ i)) sqe }).length)
    (there : j < (r.read ++ r.sq.pending).length) :
    (r.read ++ SQ.pending { r.sq with
      sqeBuff := Function.update r.sq.sqeBuff (r.sq.sqeAddr (counter s₀ i)) sqe })[j] =
        (r.read ++ r.sq.pending)[j] := by
  rcases Nat.lt_or_ge j r.read.length with old | unread
  · rw [List.getElem_append_left old, List.getElem_append_left old]
  · have size : gap r.sq.kHead r.sq.sqeTail ≤ r.sq.kRingEntries.toNat := inv.wf.pending_le
    have total := inv.length_eq
    rw [List.length_append] at there
    rw [SQ.length_pending] at total there
    have apart : r.sq.sqeAddr (counter s₀ j) ≠ r.sq.sqeAddr (counter s₀ i) :=
      inv.wf.sqe_placement.ne_of_near s₀.kHead other (by omega) (by omega)
    rw [List.getElem_append_right unread, List.getElem_append_right unread]
    simp only [SQ.pending, getElem_window, inv.counter_pending unread]
    exact Function.update_of_ne apart _ _

theorem write (inv : Inv s₀ r) {i : ℕ} {sqe : SQEntry}
    (stepped : r.step (.write i sqe) = some r') : Inv s₀ r' := by
  simp only [step] at stepped
  split at stepped
  · next entry found =>
    split at stepped
    · next young =>
      cases stepped
      obtain ⟨within, filling⟩ := List.getElem?_eq_some_iff.mp found
      have target : entry.toNat = r.sq.sqeAddr (counter s₀ i) := by
        rw [inv.pointers i entry found, inv.sqeAddr_eq]
      refine ⟨⟨inv.wf.sized, inv.wf.small, inv.wf.flushed, inv.wf.visible_le, inv.wf.pending_le,
        inv.wf.array_eq⟩, inv.mask, inv.head, inv.tail, ?_, inv.pointers⟩
      rw [target]
      obtain ⟨length, each⟩ := List.forall₂_iff_get.mp inv.fills
      refine List.forall₂_iff_get.mpr ⟨?_, fun j here there => ?_⟩
      · rw [length, List.length_append, List.length_append, SQ.length_pending, SQ.length_pending]
      · by_cases this : j = i
        · subst this
          rw [List.get_eq_getElem, filling]
          trivial
        · have kept := each j here (length ▸ here)
          rw [List.get_eq_getElem] at kept ⊢
          rw [List.get_eq_getElem] at kept ⊢
          rw [inv.pending_write sqe within young this there (length ▸ here)]
          exact kept
    · cases stepped
  · cases stepped

theorem flushSQ (inv : Inv s₀ r) (stepped : r.step .flushSQ = some r') : Inv s₀ r' := by
  cases stepped
  obtain ⟨array, eq, -⟩ := inv.wf.flushSQ_eq
  refine ⟨inv.wf.flushSQ, ?_, ?_, ?_, ?_, inv.pointers⟩
  · rw [eq]
    exact inv.mask
  · rw [eq]
    exact inv.head
  · rw [eq]
    exact inv.tail
  · rw [inv.wf.pending_flushSQ]
    exact inv.fills

theorem kernel (inv : Inv s₀ r) (stepped : r.step .kernel = some r') : Inv s₀ r' := by
  obtain ⟨⟨sqe, sq⟩, consumed, rfl⟩ := Option.map_eq_some_iff.mp stepped
  obtain ⟨wf, pending, -, -⟩ := inv.wf.kernelConsume_spec consumed
  have advanced : sq = { r.sq with kHead := r.sq.kHead + 1 } := by
    unfold SQ.kernelConsume at consumed
    split at consumed
    · cases consumed
    · cases consumed
      rfl
  refine ⟨wf, ?_, ?_, ?_, ?_, inv.pointers⟩
  · rw [advanced]
    exact inv.mask
  · show sq.kHead = counter s₀ (r.read ++ [sqe]).length
    rw [advanced, counter, List.length_append, ← add_ofNat_add, ← counter, ← inv.head]
    rfl
  · rw [advanced]
    exact inv.tail
  · show List.Forall₂ Filling.Fills r.filled (r.read ++ [sqe] ++ sq.pending)
    rw [List.append_assoc, List.singleton_append, ← pending]
    exact inv.fills

theorem step (inv : Inv s₀ r) {e : SlotEvent} (stepped : r.step e = some r') : Inv s₀ r' := by
  cases e with
  | queueSQE op flags userData => exact inv.queueSQE stepped
  | nextSQE =>
      cases stepped
      exact inv.handOut
  | write i sqe => exact inv.write stepped
  | flushSQ => exact inv.flushSQ stepped
  | kernel => exact inv.kernel stepped

/-- What the kernel read at a position is what the position was filled with. -/
theorem fills_read (inv : Inv s₀ r) {i : ℕ} {filling : Filling} {sqe : SQEntry}
    (filled : r.filled[i]? = some filling) (read : r.read[i]? = some sqe) :
    filling.Fills sqe := by
  obtain ⟨lt, rfl⟩ := List.getElem?_eq_some_iff.mp filled
  obtain ⟨lt', rfl⟩ := List.getElem?_eq_some_iff.mp read
  obtain ⟨length, each⟩ := List.forall₂_iff_get.mp inv.fills
  have fills := each i lt (length ▸ lt)
  rw [List.get_eq_getElem, List.get_eq_getElem, List.getElem_append_left lt'] at fills
  exact fills

end Inv

theorem inv_of_path {s₀ : SQ} (fresh : s₀.Fresh) {p : List (SlotRun × SlotEvent)} {r : SlotRun}
    (path : Path step (start s₀) p r) : Inv s₀ r :=
  path.invariant_of_step (Inv s₀) (inv_start fresh) fun _ _ _ inv stepped => inv.step stepped

end SlotRun

/-- **Reused slots leak nothing.**  `QueueSQE` leaves the same SQE in its slot whatever the slots
held before.  In two runs, from any two memories and through any steps, an operation that both
have queued with the same flags and user data reaches the kernel as the same SQE, and this is its
encoding into a slot with any contents. -/
theorem reused_slots_leak_nothing :
    (∀ (s s' : SQ) (buff : ℕ → SQEntry) (op : PublicOp) (flags : UInt8) (userData : UInt64),
      s.queueSQE op.operation flags userData = some (none, s') →
        ∃ t, SQ.queueSQE { s with sqeBuff := buff } op.operation flags userData =
            some (none, t) ∧
          t.sqeBuff (s.sqeAddr s.sqeTail) = s'.sqeBuff (s.sqeAddr s.sqeTail)) ∧
    ∀ (s₀ t₀ : SQ), s₀.Fresh → t₀.Fresh →
      ∀ (p q : List (SlotRun × SlotEvent)) (r u : SlotRun),
        Path SlotRun.step (SlotRun.start s₀) p r → Path SlotRun.step (SlotRun.start t₀) q u →
      ∀ (i j : ℕ) (op : PublicOp) (flags : UInt8) (userData : UInt64) (x y : SQEntry),
        r.filled[i]? = some (.queued op flags userData) →
        u.filled[j]? = some (.queued op flags userData) →
        r.read[i]? = some x → u.read[j]? = some y →
          x = y ∧ ∀ old, op.operation.encode flags userData old = some x := by
  refine ⟨fun s s' buff op flags userData queued => PublicOp.queueSQE_congr buff queued, ?_⟩
  intro s₀ t₀ fresh fresh' p q r u path path' i j op flags userData x y filled filled' read read'
  have left := (SlotRun.inv_of_path fresh path).fills_read filled read
  have right := (SlotRun.inv_of_path fresh' path').fills_read filled' read'
  have same : some x = some y := (left default).symm.trans (right default)
  exact ⟨Option.some.inj same, left⟩

/-- An SQE that no encoder would write. -/
def scribble : SQEntry where
  opCode := 255
  flags := 255
  ioPrio := 7
  fd := -1
  off := 1
  addr := 2
  len := 3
  opcodeFlags := 4
  userData := 5
  bufIG := 6
  personality := 8
  spliceFdIn := 9
  pad2 := (10, 11)

/-- Both slots are handed out and written by hand, and the kernel reads them before the first one
is used again. -/
def scribbled : List SlotEvent :=
  [.nextSQE, .write 0 scribble, .nextSQE, .write 1 scribble, .flushSQ, .kernel, .kernel,
    .queueSQE (.close 5) 16 9, .write 1 scribble, .flushSQ, .kernel]

/-- The same operation on a queue that was never used. -/
def clean : List SlotEvent := [.queueSQE (.close 5) 16 9, .flushSQ, .kernel]

/-- The kernel reads the same SQE in both runs. -/
theorem reused_slots_leak_nothing_scribbled :
    ∃ p q r u x y, Path SlotRun.step (SlotRun.start wrappingSQ) p r ∧
      Path SlotRun.step (SlotRun.start wrappingSQ) q u ∧ r.read[0]? = some scribble ∧
      r.read[2]? = some x ∧ u.read[0]? = some y ∧ x = y :=
  ⟨_, _, _, _, _, _, path_record scribbled rfl, path_record clean rfl, rfl, rfl, rfl,
    (reused_slots_leak_nothing.2 wrappingSQ wrappingSQ wrappingSQ_fresh wrappingSQ_fresh _ _ _ _
      (path_record scribbled rfl) (path_record clean rfl) 2 0 (.close 5) 16 9 _ _ rfl rfl rfl
      rfl).1⟩

end GoUring.Uring
