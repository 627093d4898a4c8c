import GoUring.Foundation.ByteMemory
import GoUring.Foundation.Runs
import GoUring.Uring.Layout
import GoUring.Uring.Ring

/-!
# The queues as bytes

The functions of `uring/ring.go` on the memory they work on: the bytes of the mappings, reached
through the pointers `allocRing` (`uring/setup.go`) computes from the offsets the kernel reports,
and entries that are the bytes of `SQEntry` and `CQEvent` (`uring/syscall.go`).  The kernel reads
and writes the same bytes.

`RingMapping.view` reads the two queues of the earlier modules out of the bytes.  As long as the
fields of the mappings do not overlap (`LaidRing`) and the words with the sizes of the rings are
what the kernel reported (`LaidRing.Holds`), each function does to the bytes what its record
version does to the view, and touches no byte outside the fields.
-/

namespace GoUring.Uring

open ByteMemory CounterRing Runs

/-! ## Entries -/

/-- The bytes of an `SQEntry`. -/
def sqEntryCodec : Codec SQEntry :=
  (Codec.uint8.pair <| Codec.uint8.pair <| Codec.uint16.pair <| Codec.int32.pair <|
    Codec.uint64.pair <| Codec.uint64.pair <| Codec.uint32.pair <| Codec.uint32.pair <|
    Codec.uint64.pair <| Codec.uint16.pair <| Codec.uint16.pair <| Codec.int32.pair <|
    Codec.uint64.pair Codec.uint64).map
    (fun e => (e.opCode, e.flags, e.ioPrio, e.fd, e.off, e.addr, e.len, e.opcodeFlags, e.userData,
      e.bufIG, e.personality, e.spliceFdIn, e.pad2))
    (fun (opCode, flags, ioPrio, fd, off, addr, len, opcodeFlags, userData, bufIG, personality,
        spliceFdIn, pad2) =>
      { opCode, flags, ioPrio, fd, off, addr, len, opcodeFlags, userData, bufIG, personality,
        spliceFdIn, pad2 })
    fun _ => rfl

/-- The bytes of a `CQEvent`. -/
def cqEventCodec : Codec CQEvent :=
  (Codec.uint64.pair <| Codec.int32.pair Codec.uint32).map (fun e => (e.userData, e.res, e.flags))
    (fun (userData, res, flags) => { userData, res, flags }) fun _ => rfl

/-! ## The mappings -/

/-- The words of the ring mappings that are read or written. -/
inductive RingWord
  | sqHead
  | sqTail
  | sqRingMask
  | sqRingEntries
  | sqFlags
  | cqHead
  | cqTail
  | cqRingMask
  | cqRingEntries
  deriving DecidableEq, Repr

/-- What the pointers of `sq` and `cq` point to. -/
inductive RingField
  | word (w : RingWord)
  | sqArray
  | sqeBuff
  | cqeBuff
  deriving DecidableEq, Repr

namespace RingField

abbrev Cell : RingField → Type
  | word _ => UInt32
  | sqArray => UInt32
  | sqeBuff => SQEntry
  | cqeBuff => CQEvent

instance : ∀ f : RingField, Inhabited f.Cell
  | word _ => inferInstanceAs (Inhabited UInt32)
  | sqArray => inferInstanceAs (Inhabited UInt32)
  | sqeBuff => inferInstanceAs (Inhabited SQEntry)
  | cqeBuff => inferInstanceAs (Inhabited CQEvent)

def codec : ∀ f : RingField, Codec f.Cell
  | word _ => Codec.uint32
  | sqArray => Codec.uint32
  | sqeBuff => sqEntryCodec
  | cqeBuff => cqEventCodec

end RingField

/-- A mapped ring: what the kernel reported, with the offsets of the words, and the addresses of
the mappings, which are one for both queues with the single-mmap feature. -/
structure RingMapping extends RingGeometry where
  /-- `sqOffset` and `cqOffset` -/
  offset : RingWord → UInt32
  /-- `&sqRing.buff[0]` -/
  sqRingBuff : ℕ
  /-- `&cqRing.buff[0]` -/
  cqRingBuff : ℕ
  /-- `&sqRing.sqeBuff[0]` -/
  sqesBuff : ℕ

namespace RingMapping

variable (m : RingMapping)

/-- The mapping a word is in. -/
def wordBuff : RingWord → ℕ
  | .sqHead | .sqTail | .sqRingMask | .sqRingEntries | .sqFlags => m.sqRingBuff
  | .cqHead | .cqTail | .cqRingMask | .cqRingEntries => m.cqRingBuff

/-- The pointers as `allocRing` sets them. -/
def pointer : RingField → ℕ
  | .word w => m.wordBuff w + (m.offset w).toNat
  | .sqArray => m.sqRingBuff + m.array.toNat
  | .sqeBuff => m.sqesBuff
  | .cqeBuff => m.cqRingBuff + m.cqes.toNat

/-- How many cells a field has. -/
def count : RingField → ℕ
  | .word _ => 1
  | .sqArray => m.sqEntries.toNat
  | .sqeBuff => m.sqEntries.toNat
  | .cqeBuff => m.cqEntries.toNat

end RingMapping

/-- The kernel lays the fields out without overlap. -/
structure LaidRing extends RingMapping where
  apart : ∀ f g : RingField, f ≠ g →
    toRingMapping.pointer f + toRingMapping.count f * f.codec.size ≤ toRingMapping.pointer g ∨
      toRingMapping.pointer g + toRingMapping.count g * g.codec.size ≤ toRingMapping.pointer f

def LaidRing.layout (m : LaidRing) : Layout RingField RingField.Cell where
  codec := RingField.codec
  base := m.pointer
  count := m.count
  pos
    | .word _ => Nat.succ_pos 3
    | .sqArray => Nat.succ_pos 3
    | .sqeBuff => Nat.succ_pos 63
    | .cqeBuff => Nat.succ_pos 15
  apart := m.apart

/-! ## The functions -/

/-- The memory of a ring and the two counters `sq` keeps to itself. -/
structure ByteRing where
  mem : Memory
  sqeTail : UInt32
  sqeHead : UInt32

namespace ByteRing

variable (ptr : RingField → ℕ)

/-- The word a pointer points to. -/
def word (b : ByteRing) (w : RingWord) : UInt32 := Codec.uint32.load b.mem (ptr (.word w))

def setWord (b : ByteRing) (w : RingWord) (x : UInt32) : ByteRing :=
  { b with mem := Codec.uint32.store b.mem (ptr (.word w)) x }

/-- The slot of a counter in `sqeBuff`. -/
def sqe (b : ByteRing) (counter : UInt32) : ℕ :=
  ptr .sqeBuff + ((counter &&& b.word ptr .sqRingMask) * sizeofSQEntry).toNat

/-- The slot of a counter in `cqeBuff`. -/
def cqe (b : ByteRing) (counter : UInt32) : ℕ :=
  ptr .cqeBuff + (counter &&& b.word ptr .cqRingMask).toNat * sizeofCQEvent

/-- `Ring.NextSQE`: the address of the next free slot. -/
def nextSQE (b : ByteRing) : Except RingError ℕ × ByteRing :=
  let head := b.word ptr .sqHead
  let next := b.sqeTail + 1
  if next - head ≤ b.word ptr .sqRingEntries then
    (.ok (b.sqe ptr b.sqeTail), { b with sqeTail := next })
  else
    (.error .sqOverflow, b)

/-- `Ring.QueueSQE`: the operation changes the entry in place. -/
def queueSQE (b : ByteRing) (op : Operation) (flags : UInt8) (userData : UInt64) :
    Option (Option RingError × ByteRing) :=
  match b.nextSQE ptr with
  | (.error err, b) => some (some err, b)
  | (.ok entry, b) =>
      (op.encode flags userData (sqEntryCodec.load b.mem entry)).map fun sqe =>
        (none, { b with mem := sqEntryCodec.store b.mem entry sqe })

/-- The ring after a panic of `PrepSQE`. -/
def abandonSQE (b : ByteRing) : ByteRing := (b.nextSQE ptr).2

/-- The loop of `Ring.flushSQ`. -/
def flushLoop (mask : UInt32) : ℕ → UInt32 → ByteRing → UInt32 × ByteRing
  | 0, tail, b => (tail, b)
  | i + 1, tail, b =>
      flushLoop mask i (tail + 1)
        { b with
          mem := Codec.uint32.store b.mem
            (ptr .sqArray + ((tail &&& mask) * sizeofUint32).toNat) (b.sqeHead &&& mask)
          sqeHead := b.sqeHead + 1 }

/-- `Ring.flushSQ`. -/
def flushSQ (b : ByteRing) : UInt32 × ByteRing :=
  let mask := b.word ptr .sqRingMask
  let tail := b.word ptr .sqTail
  let subCnt := b.sqeTail - b.sqeHead
  if subCnt = 0 then
    (tail - b.word ptr .sqHead, b)
  else
    let (tail, b) := flushLoop ptr mask subCnt.toNat tail b
    let b := b.setWord ptr .sqTail tail
    (tail - b.word ptr .sqHead, b)

/-- The kernel reads an SQE: the index from the array, then the entry of that index. -/
def kernelConsume (b : ByteRing) : Option (SQEntry × ByteRing) :=
  let head := b.word ptr .sqHead
  if head = b.word ptr .sqTail then none
  else
    let idx := Codec.uint32.load b.mem
      (ptr .sqArray + (head &&& b.word ptr .sqRingMask).toNat * 4)
    some (sqEntryCodec.load b.mem (ptr .sqeBuff + idx.toNat * 64),
      b.setWord ptr .sqHead (head + 1))

/-- The kernel posts a completion, while a slot is free. -/
def kernelPost (b : ByteRing) (e : CQEvent) : Option ByteRing :=
  let tail := b.word ptr .cqTail
  if tail - b.word ptr .cqHead < b.word ptr .cqRingEntries then
    let b := { b with mem := cqEventCodec.store b.mem (b.cqe ptr tail) e }
    some (b.setWord ptr .cqTail (tail + 1))
  else none

/-- `Ring.AdvanceCQ`; `SeenCQE` is `AdvanceCQ(1)`. -/
def advanceCQ (b : ByteRing) (n : UInt32) : ByteRing :=
  b.setWord ptr .cqHead (b.word ptr .cqHead + n)

/-- The loop of `Ring.peekCQEvent`; the pointer is an address. -/
def peekLoop (extArg : Bool) : ℕ → ByteRing → CQ.Peeked × ByteRing
  | 0, b => ({ available := 0, cqe := none, err := none }, b)
  | n + 1, b =>
      let available := b.word ptr .cqTail - b.word ptr .cqHead
      let cqe := b.cqe ptr (b.word ptr .cqHead)
      if !extArg && (cqEventCodec.load b.mem cqe).userData == libUserDataTimeout then
        match (cqEventCodec.load b.mem cqe).error with
        | none => peekLoop extArg n (b.advanceCQ ptr 1)
        | some errno =>
            ({ available := available, cqe := none, err := some errno }, b.advanceCQ ptr 1)
      else
        ({ available := available, cqe := some cqe, err := none }, b)

/-- `Ring.peekCQEvent`. -/
def peekCQEvent (extArg : Bool) (b : ByteRing) : CQ.Peeked × ByteRing :=
  peekLoop ptr extArg (b.word ptr .cqTail - b.word ptr .cqHead).toNat b

/-- The loop of `Ring.peekCQEventBatch`. -/
def fillBatch (b : ByteRing) : ℕ → UInt32 → List ℕ
  | 0, _ => []
  | n + 1, head => b.cqe ptr head :: fillBatch b n (head + 1)

/-- `Ring.peekCQEventBatch` on a buffer of length `len`. -/
def peekCQEventBatch (b : ByteRing) (len : ℕ) : List ℕ :=
  let ready := b.word ptr .cqTail - b.word ptr .cqHead
  let count := minUint32 (UInt32.ofNat len) ready
  if ready ≠ 0 then b.fillBatch ptr count.toNat (b.word ptr .cqHead) else []

end ByteRing

/-! ## The queues in the bytes -/

/-- The two queues as records. -/
structure Queues where
  sq : SQ
  cq : CQ

/-- The queues with one of their words changed. -/
def Queues.setWord (q : Queues) (w : RingWord) (x : UInt32) : Queues :=
  match w with
  | .sqHead => { q with sq := { q.sq with kHead := x } }
  | .sqTail => { q with sq := { q.sq with kTail := x } }
  | .sqRingMask => { q with sq := { q.sq with kRingMask := x } }
  | .sqRingEntries => { q with sq := { q.sq with kRingEntries := x } }
  | .sqFlags => { q with sq := { q.sq with kFlags := x } }
  | .cqHead => { q with cq := { q.cq with kHead := x } }
  | .cqTail => { q with cq := { q.cq with kTail := x } }
  | .cqRingMask => { q with cq := { q.cq with kRingMask := x } }
  | .cqRingEntries => { q with cq := { q.cq with kRingEntries := x } }

/-- The queues with one of their cells changed. -/
def Queues.setCell (q : Queues) (f : RingField) (i : ℕ) (x : f.Cell) : Queues :=
  match f with
  | .word w => q.setWord w x
  | .sqArray => { q with sq := { q.sq with kArray := Function.update q.sq.kArray (i * 4) x } }
  | .sqeBuff => { q with sq := { q.sq with sqeBuff := Function.update q.sq.sqeBuff (i * 64) x } }
  | .cqeBuff => { q with cq := { q.cq with cqeBuff := Function.update q.cq.cqeBuff (i * 16) x } }

namespace LaidRing

/-- The queues as the bytes show them. -/
def view (m : LaidRing) (b : ByteRing) : Queues where
  sq :=
    { kHead := b.word m.pointer .sqHead
      kTail := b.word m.pointer .sqTail
      kRingMask := b.word m.pointer .sqRingMask
      kRingEntries := b.word m.pointer .sqRingEntries
      kFlags := b.word m.pointer .sqFlags
      kArray := m.layout.block b.mem .sqArray
      sqeBuff := m.layout.block b.mem .sqeBuff
      sqeTail := b.sqeTail
      sqeHead := b.sqeHead }
  cq :=
    { kHead := b.word m.pointer .cqHead
      kTail := b.word m.pointer .cqTail
      kRingMask := b.word m.pointer .cqRingMask
      kRingEntries := b.word m.pointer .cqRingEntries
      cqeBuff := m.layout.block b.mem .cqeBuff }

/-- The sizes and the masks in memory are those the kernel reported. -/
structure Holds (m : LaidRing) (b : ByteRing) : Prop where
  sqEntries : b.word m.pointer .sqRingEntries = m.sqEntries
  sqMask : b.word m.pointer .sqRingMask = m.sqEntries - 1
  cqEntries : b.word m.pointer .cqRingEntries = m.cqEntries
  cqMask : b.word m.pointer .cqRingMask = m.cqEntries - 1

variable {m : LaidRing} {b : ByteRing}

theorem word_eq_load (b : ByteRing) (w : RingWord) :
    b.word m.pointer w = m.layout.load b.mem (.word w) 0 := rfl

/-! ## What a store does to the view -/

theorem one_cell (w : RingWord) : 0 < m.layout.count (.word w) := Nat.zero_lt_one

theorem mem_setWord (b : ByteRing) (w : RingWord) (x : UInt32) :
    (b.setWord m.pointer w x).mem = m.layout.store b.mem (.word w) 0 x := rfl

theorem word_setWord (b : ByteRing) (w w' : RingWord) (x : UInt32) :
    (b.setWord m.pointer w x).word m.pointer w' = if w' = w then x else b.word m.pointer w' := by
  rw [word_eq_load, word_eq_load, mem_setWord]
  by_cases same : w' = w
  · subst same
    rw [if_pos rfl, Layout.load_store]
  · have ne : RingField.word w' ≠ .word w := fun eq => same (RingField.word.inj eq)
    rw [if_neg same, Layout.load_store_of_ne ne (one_cell w) (one_cell w')]

theorem block_setWord {f : RingField} (w : RingWord) (other : f ≠ .word w) (x : UInt32) :
    m.layout.block (b.setWord m.pointer w x).mem f = m.layout.block b.mem f := by
  rw [mem_setWord, Layout.block_store_of_ne other (one_cell w)]

theorem keeps_setWord (b : ByteRing) (w : RingWord) (x : UInt32) :
    m.layout.Keeps b.mem (b.setWord m.pointer w x).mem := by
  rw [mem_setWord]
  exact Layout.keeps_store (one_cell w) x

/-- A word that was set, as the queues show it. -/
theorem view_setWord (b : ByteRing) (w : RingWord) (x : UInt32) :
    m.view (b.setWord m.pointer w x) = (m.view b).setWord w x := by
  cases w
  all_goals
    simp only [view, Queues.setWord, word_setWord, block_setWord, ne_eq, reduceCtorEq,
      not_false_eq_true, if_true, if_false]
    rfl

section Cells

variable {f : RingField} {i : ℕ}

/-- The memory after a store into a cell of a field. -/
def storeCell (m : LaidRing) (b : ByteRing) (f : RingField) (i : ℕ) (x : f.Cell) : ByteRing :=
  { b with mem := m.layout.store b.mem f i x }

theorem word_storeCell (b : ByteRing) (w : RingWord) (other : .word w ≠ f) (lt : i < m.count f)
    (x : f.Cell) : (m.storeCell b f i x).word m.pointer w = b.word m.pointer w := by
  rw [word_eq_load, word_eq_load]
  exact Layout.load_store_of_ne other lt (one_cell w) x

theorem block_storeCell {g : RingField} (b : ByteRing) (other : g ≠ f) (lt : i < m.count f)
    (x : f.Cell) : m.layout.block (m.storeCell b f i x).mem g = m.layout.block b.mem g :=
  Layout.block_store_of_ne other lt x

theorem keeps_storeCell (b : ByteRing) (lt : i < m.count f) (x : f.Cell) :
    m.layout.Keeps b.mem (m.storeCell b f i x).mem :=
  Layout.keeps_store lt x

/-- A store into a cell, as the queues show it. -/
theorem view_storeCell (b : ByteRing) (lt : i < m.count f) (x : f.Cell) :
    m.view (m.storeCell b f i x) = (m.view b).setCell f i x := by
  have cell : m.layout.block (m.storeCell b f i x).mem f =
      Function.update (m.layout.block b.mem f) (i * f.codec.size) x :=
    Layout.block_store (l := m.layout) lt x
  cases f with
  | word w =>
      obtain rfl : i = 0 := Nat.lt_one_iff.mp lt
      exact view_setWord b w x
  | sqArray | sqeBuff | cqeBuff =>
      simp only [view, Queues.setCell, cell, word_storeCell b _ _ lt, block_storeCell b _ lt, ne_eq,
        reduceCtorEq, not_false_eq_true]
      rfl

end Cells

/-! ## Each function, as the queues show it -/

/-- The bytes of `b'` show the queues `q`, and outside the fields they are those of `b`. -/
structure Shows (m : LaidRing) (b b' : ByteRing) (q : Queues) : Prop where
  view : m.view b' = q
  keeps : m.layout.Keeps b.mem b'.mem

theorem Shows.refl (b : ByteRing) : m.Shows b b (m.view b) := ⟨rfl, .refl _⟩

theorem Shows.trans {b b' b'' : ByteRing} {q q' : Queues} (first : m.Shows b b' q)
    (second : m.Shows b' b'' q') : m.Shows b b'' q' :=
  ⟨second.view, first.keeps.trans second.keeps⟩

theorem shows_setWord (b : ByteRing) (w : RingWord) (x : UInt32) :
    m.Shows b (b.setWord m.pointer w x) ((m.view b).setWord w x) :=
  ⟨view_setWord b w x, keeps_setWord b w x⟩

theorem shows_storeCell {f : RingField} {i : ℕ} (b : ByteRing) (lt : i < m.count f) (x : f.Cell) :
    m.Shows b (m.storeCell b f i x) ((m.view b).setCell f i x) :=
  ⟨view_storeCell b lt x, keeps_storeCell b lt x⟩

section Addresses

theorem load_sqArray {i : ℕ} (lt : i < m.sqEntries.toNat) :
    Codec.uint32.load b.mem (m.pointer .sqArray + i * 4) = (m.view b).sq.kArray (i * 4) :=
  (Layout.block_mul (l := m.layout) (f := .sqArray) b.mem lt).symm

theorem load_sqeBuff {i : ℕ} (lt : i < m.sqEntries.toNat) :
    sqEntryCodec.load b.mem (m.pointer .sqeBuff + i * 64) = (m.view b).sq.sqeBuff (i * 64) :=
  (Layout.block_mul (l := m.layout) (f := .sqeBuff) b.mem lt).symm

theorem load_cqeBuff {i : ℕ} (lt : i < m.cqEntries.toNat) :
    cqEventCodec.load b.mem (m.pointer .cqeBuff + i * 16) = (m.view b).cq.cqeBuff (i * 16) :=
  (Layout.block_mul (l := m.layout) (f := .cqeBuff) b.mem lt).symm

variable (holds : m.Holds b)
include holds

theorem Holds.sqeAddr_eq (c : UInt32) :
    (m.view b).sq.sqeAddr c = c.toNat % m.sqEntries.toNat * 64 :=
  RingGeometry.sqe_strided (s := (m.view b).sq) holds.sqMask c

theorem Holds.arrayAddr_eq (c : UInt32) :
    (m.view b).sq.arrayAddr c = c.toNat % m.sqEntries.toNat * 4 :=
  RingGeometry.array_strided (s := (m.view b).sq) holds.sqMask c

theorem Holds.cqeAddr_eq (c : UInt32) :
    (m.view b).cq.cqeAddr c = c.toNat % m.cqEntries.toNat * 16 :=
  RingGeometry.cqe_strided (c := (m.view b).cq) holds.cqMask c

/-- The entry at the address of a slot is the entry of the queue. -/
theorem Holds.load_sqe (c : UInt32) :
    sqEntryCodec.load b.mem (b.sqe m.pointer c) =
      (m.view b).sq.sqeBuff ((m.view b).sq.sqeAddr c) := by
  have place : b.sqe m.pointer c = m.pointer .sqeBuff + (m.view b).sq.sqeAddr c := rfl
  rw [place, holds.sqeAddr_eq, load_sqeBuff (Nat.mod_lt _ m.sq_sized.pos)]

/-- The completion at the address of a slot is the completion of the queue. -/
theorem Holds.load_cqe (c : UInt32) :
    cqEventCodec.load b.mem (b.cqe m.pointer c) =
      (m.view b).cq.cqeBuff ((m.view b).cq.cqeAddr c) := by
  have place : b.cqe m.pointer c = m.pointer .cqeBuff + (m.view b).cq.cqeAddr c := rfl
  rw [place, holds.cqeAddr_eq, load_cqeBuff (Nat.mod_lt _ m.cq_sized.pos)]

end Addresses

/-- `QueueSQE`. -/
theorem Holds.queueSQE (holds : m.Holds b) (op : Operation) (flags : UInt8) (userData : UInt64) :
    Option.Rel (fun x y => x.1 = y.1 ∧ m.Shows b x.2 { m.view b with sq := y.2 })
      (b.queueSQE m.pointer op flags userData) ((m.view b).sq.queueSQE op flags userData) := by
  have slot : (((m.view b).sq.sqeTail &&& (m.view b).sq.kRingMask) * sizeofSQEntry).toNat =
      b.sqeTail.toNat % m.sqEntries.toNat * 64 := holds.sqeAddr_eq b.sqeTail
  have place : b.sqe m.pointer b.sqeTail =
      m.layout.addr .sqeBuff (b.sqeTail.toNat % m.sqEntries.toNat) :=
    congrArg (m.pointer .sqeBuff + ·) slot
  have old := holds.load_sqe b.sqeTail
  unfold ByteRing.queueSQE ByteRing.nextSQE SQ.queueSQE SQ.nextSQE
  by_cases room : b.sqeTail + 1 - b.word m.pointer .sqHead ≤ b.word m.pointer .sqRingEntries
  · have room' : (m.view b).sq.sqeTail + 1 - (m.view b).sq.kHead ≤ (m.view b).sq.kRingEntries :=
      room
    simp only [if_pos room, if_pos room', old]
    change Option.Rel _ _ (Option.map _ (op.encode flags userData
      ((m.view b).sq.sqeBuff ((m.view b).sq.sqeAddr b.sqeTail))))
    cases op.encode flags userData ((m.view b).sq.sqeBuff ((m.view b).sq.sqeAddr b.sqeTail)) with
    | none => exact .none
    | some sqe =>
        have shown := shows_storeCell (m := m) (f := .sqeBuff) { b with sqeTail := b.sqeTail + 1 }
          (Nat.mod_lt b.sqeTail.toNat m.sq_sized.pos) sqe
        refine .some ⟨rfl, ?_⟩
        simp only [place, slot]
        exact ⟨shown.view, shown.keeps⟩
  · have full : ¬ (m.view b).sq.sqeTail + 1 - (m.view b).sq.kHead ≤ (m.view b).sq.kRingEntries :=
      room
    simp only [if_neg room, if_neg full]
    exact .some ⟨rfl, .refl b⟩

/-- What a panic of `PrepSQE` leaves. -/
theorem shows_abandonSQE (b : ByteRing) :
    m.Shows b (b.abandonSQE m.pointer) { m.view b with sq := (m.view b).sq.abandonSQE } := by
  unfold ByteRing.abandonSQE ByteRing.nextSQE SQ.abandonSQE SQ.nextSQE
  by_cases room : b.sqeTail + 1 - b.word m.pointer .sqHead ≤ b.word m.pointer .sqRingEntries
  · have room' : (m.view b).sq.sqeTail + 1 - (m.view b).sq.kHead ≤ (m.view b).sq.kRingEntries :=
      room
    simp only [if_pos room, if_pos room']
    exact ⟨rfl, .refl _⟩
  · have full : ¬ (m.view b).sq.sqeTail + 1 - (m.view b).sq.kHead ≤ (m.view b).sq.kRingEntries :=
      room
    simp only [if_neg room, if_neg full]
    exact .refl b

/-- The body of the loop of `flushSQ`. -/
theorem shows_flushOne (tail : UInt32) (b : ByteRing) :
    m.Shows b
      { b with
        mem := Codec.uint32.store b.mem
          (m.pointer .sqArray + ((tail &&& (m.sqEntries - 1)) * sizeofUint32).toNat)
          (b.sqeHead &&& (m.sqEntries - 1))
        sqeHead := b.sqeHead + 1 }
      { m.view b with sq := (m.view b).sq.flushOne (m.sqEntries - 1) tail } := by
  have cell : ((tail &&& (m.sqEntries - 1)) * sizeofUint32).toNat =
      tail.toNat % m.sqEntries.toNat * 4 :=
    strided_and_mul32 m.sq_sized m.array_fits tail
  have shown := shows_storeCell (m := m) (f := .sqArray) { b with sqeHead := b.sqeHead + 1 }
    (Nat.mod_lt tail.toNat m.sq_sized.pos) (b.sqeHead &&& (m.sqEntries - 1))
  simp only [SQ.flushOne, cell]
  exact ⟨shown.view, shown.keeps⟩

/-- The loop of `flushSQ`. -/
theorem shows_flushLoop :
    ∀ (n : ℕ) (tail : UInt32) (b : ByteRing),
      (b.flushLoop m.pointer (m.sqEntries - 1) n tail).1 =
          ((m.view b).sq.flushLoop (m.sqEntries - 1) n tail).1 ∧
        m.Shows b (b.flushLoop m.pointer (m.sqEntries - 1) n tail).2
          { m.view b with sq := ((m.view b).sq.flushLoop (m.sqEntries - 1) n tail).2 } := by
  intro n
  induction n with
  | zero => exact fun tail b => ⟨rfl, .refl b⟩
  | succ n ih =>
      intro tail b
      have one := shows_flushOne (m := m) tail b
      obtain ⟨count, rest⟩ := ih (tail + 1) _
      rw [one.view] at count rest
      exact ⟨count, one.trans rest⟩

/-- `flushSQ`. -/
theorem Holds.flushSQ (holds : m.Holds b) :
    (b.flushSQ m.pointer).1 = (m.view b).sq.flushSQ.1 ∧
      m.Shows b (b.flushSQ m.pointer).2 { m.view b with sq := (m.view b).sq.flushSQ.2 } := by
  have mask : (m.view b).sq.kRingMask = m.sqEntries - 1 := holds.sqMask
  unfold ByteRing.flushSQ SQ.flushSQ
  by_cases none : b.sqeTail - b.sqeHead = 0
  · have none' : (m.view b).sq.sqeTail - (m.view b).sq.sqeHead = 0 := none
    simp only [if_pos none, if_pos none']
    exact ⟨rfl, .refl b⟩
  · obtain ⟨count, loop⟩ := shows_flushLoop (m := m) (b.sqeTail - b.sqeHead).toNat
      (b.word m.pointer .sqTail) b
    have counters : (m.view b).sq.sqeTail = b.sqeTail ∧ (m.view b).sq.sqeHead = b.sqeHead ∧
        (m.view b).sq.kTail = b.word m.pointer .sqTail := ⟨rfl, rfl, rfl⟩
    simp only [if_neg none, holds.sqMask, mask, counters]
    generalize b.flushLoop m.pointer (m.sqEntries - 1) (b.sqeTail - b.sqeHead).toNat
      (b.word m.pointer .sqTail) = bytes at count loop ⊢
    generalize (m.view b).sq.flushLoop (m.sqEntries - 1) (b.sqeTail - b.sqeHead).toNat
      (b.word m.pointer .sqTail) = records at count loop ⊢
    have published := shows_setWord (m := m) bytes.2 .sqTail bytes.1
    have head : bytes.2.word m.pointer .sqHead = records.2.kHead :=
      congrArg (fun q => q.sq.kHead) loop.view
    rw [loop.view, count] at published
    rw [word_setWord, if_neg (by decide), head, count]
    exact ⟨rfl, loop.trans published⟩

/-- The kernel's read. -/
theorem Holds.kernelConsume (holds : m.Holds b) (wf : (m.view b).sq.WF) :
    Option.Rel (fun x y => x.1 = y.1 ∧ m.Shows b x.2 { m.view b with sq := y.2 })
      (b.kernelConsume m.pointer) (m.view b).sq.kernelConsume := by
  unfold ByteRing.kernelConsume SQ.kernelConsume
  by_cases empty : b.word m.pointer .sqHead = b.word m.pointer .sqTail
  · have empty' : (m.view b).sq.kHead = (m.view b).sq.kTail := empty
    simp only [if_pos empty, if_pos empty']
    exact .none
  · have some' : ¬ (m.view b).sq.kHead = (m.view b).sq.kTail := empty
    simp only [if_neg empty, if_neg some']
    refine .some ⟨?_, shows_setWord b .sqHead _⟩
    have slot : ((m.view b).sq.kHead &&& (m.view b).sq.kRingMask).toNat =
        (m.view b).sq.kHead.toNat % m.sqEntries.toNat := by
      rw [show (m.view b).sq.kRingMask = m.sqEntries - 1 from holds.sqMask, m.sq_sized.toNat_and]
    have inside : (m.view b).sq.kHead.toNat % m.sqEntries.toNat < m.sqEntries.toNat :=
      Nat.mod_lt _ m.sq_sized.pos
    -- The index in the array is a slot number, so the entry is inside its field.
    have index := wf.array_eq 0 (Nat.pos_of_ne_zero fun none => some' (gap_eq_zero_iff.mp none))
    rw [show (m.view b).sq.kHead + UInt32.ofNat 0 = (m.view b).sq.kHead from UInt32.add_zero _,
      holds.arrayAddr_eq] at index
    change sqEntryCodec.load b.mem (m.pointer .sqeBuff + (Codec.uint32.load b.mem
        (m.pointer .sqArray + ((m.view b).sq.kHead &&& (m.view b).sq.kRingMask).toNat * 4)).toNat *
          64) = (m.view b).sq.kernelRead (m.view b).sq.kHead
    rw [SQ.kernelRead, slot, load_sqArray inside, index, slot, load_sqeBuff inside]

/-- The kernel's post. -/
theorem Holds.kernelPost (holds : m.Holds b) (e : CQEvent) :
    Option.Rel (fun x y => m.Shows b x { m.view b with cq := y })
      (b.kernelPost m.pointer e) ((m.view b).cq.kernelPost e) := by
  unfold ByteRing.kernelPost CQ.kernelPost
  by_cases free : b.word m.pointer .cqTail - b.word m.pointer .cqHead <
      b.word m.pointer .cqRingEntries
  · have free' : (m.view b).cq.kTail - (m.view b).cq.kHead < (m.view b).cq.kRingEntries := free
    have place : b.cqe m.pointer (b.word m.pointer .cqTail) =
        m.layout.addr .cqeBuff ((b.word m.pointer .cqTail).toNat % m.cqEntries.toNat) :=
      congrArg (m.pointer .cqeBuff + ·) (holds.cqeAddr_eq _)
    have slot := holds.cqeAddr_eq (m.view b).cq.kTail
    simp only [if_pos free, if_pos free', place, slot]
    refine .some ?_
    have inside : (b.word m.pointer .cqTail).toNat % m.cqEntries.toNat < m.count .cqeBuff :=
      Nat.mod_lt _ m.cq_sized.pos
    have stored := shows_storeCell b inside e
    have moved := shows_setWord (m := m) (m.storeCell b .cqeBuff
      ((b.word m.pointer .cqTail).toNat % m.cqEntries.toNat) e) .cqTail
      (b.word m.pointer .cqTail + 1)
    rw [stored.view] at moved
    exact stored.trans moved
  · have full : ¬ (m.view b).cq.kTail - (m.view b).cq.kHead < (m.view b).cq.kRingEntries := free
    simp only [if_neg free, if_neg full]
    exact .none

/-- `AdvanceCQ`. -/
theorem shows_advanceCQ (b : ByteRing) (n : UInt32) :
    m.Shows b (b.advanceCQ m.pointer n)
      { m.view b with cq := (m.view b).cq.advanceCQ n } :=
  shows_setWord b .cqHead _

/-- What a peek returns, its pointer an address. -/
def shift (m : LaidRing) (peeked : CQ.Peeked) : CQ.Peeked :=
  { peeked with cqe := peeked.cqe.map (m.pointer .cqeBuff + ·) }

theorem Holds.advanceCQ (holds : m.Holds b) (n : UInt32) : m.Holds (b.advanceCQ m.pointer n) where
  sqEntries := by rw [ByteRing.advanceCQ, word_setWord, if_neg (by decide), holds.sqEntries]
  sqMask := by rw [ByteRing.advanceCQ, word_setWord, if_neg (by decide), holds.sqMask]
  cqEntries := by rw [ByteRing.advanceCQ, word_setWord, if_neg (by decide), holds.cqEntries]
  cqMask := by rw [ByteRing.advanceCQ, word_setWord, if_neg (by decide), holds.cqMask]

/-- The loop of `peekCQEvent`. -/
theorem peekLoop (extArg : Bool) :
    ∀ (n : ℕ) (b : ByteRing), m.Holds b →
      (b.peekLoop m.pointer extArg n).1 = m.shift ((m.view b).cq.peekLoop extArg n).1 ∧
        m.Shows b (b.peekLoop m.pointer extArg n).2
          { m.view b with cq := ((m.view b).cq.peekLoop extArg n).2 } := by
  intro n
  induction n with
  | zero => exact fun b _ => ⟨rfl, .refl b⟩
  | succ n ih =>
      intro b holds
      have seen := shows_advanceCQ (m := m) b 1
      have cqe := holds.load_cqe (b.word m.pointer .cqHead)
      have head : (m.view b).cq.kHead = b.word m.pointer .cqHead := rfl
      simp only [ByteRing.peekLoop, CQ.peekLoop, cqe, head]
      generalize (m.view b).cq.cqeBuff ((m.view b).cq.cqeAddr (b.word m.pointer .cqHead)) = e
      cases !extArg && e.userData == libUserDataTimeout with
      | false => exact ⟨rfl, .refl b⟩
      | true =>
          cases e.error with
          | none =>
              obtain ⟨peeked, rest⟩ := ih _ (holds.advanceCQ 1)
              rw [seen.view] at peeked rest
              exact ⟨peeked, seen.trans rest⟩
          | some errno => exact ⟨rfl, seen⟩

/-- `peekCQEvent`. -/
theorem Holds.peekCQEvent (holds : m.Holds b) (extArg : Bool) :
    (b.peekCQEvent m.pointer extArg).1 = m.shift ((m.view b).cq.peekCQEvent extArg).1 ∧
      m.Shows b (b.peekCQEvent m.pointer extArg).2
        { m.view b with cq := ((m.view b).cq.peekCQEvent extArg).2 } :=
  peekLoop extArg _ b holds

/-- `peekCQEventBatch`. -/
theorem peekCQEventBatch (b : ByteRing) (len : ℕ) :
    b.peekCQEventBatch m.pointer len =
      ((m.view b).cq.peekCQEventBatch len).map (m.pointer .cqeBuff + ·) := by
  have filled : ∀ (n : ℕ) (head : UInt32), b.fillBatch m.pointer n head =
      ((m.view b).cq.fillBatch n head).map (m.pointer .cqeBuff + ·) := by
    intro n
    induction n with
    | zero => exact fun head => rfl
    | succ n ih =>
        intro head
        rw [ByteRing.fillBatch, CQ.fillBatch, List.map_cons, ih]
        rfl
  unfold ByteRing.peekCQEventBatch CQ.peekCQEventBatch
  by_cases ready : b.word m.pointer .cqTail - b.word m.pointer .cqHead ≠ 0
  · have ready' : (m.view b).cq.readyCount ≠ 0 := ready
    simp only [if_pos ready, if_pos ready', filled]
    rfl
  · have none : ¬ (m.view b).cq.readyCount ≠ 0 := ready
    simp only [if_neg ready, if_neg none, List.map_nil]

end LaidRing

end GoUring.Uring
