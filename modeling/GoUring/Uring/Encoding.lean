import GoUring.Uring.SubmissionRun

/-!
# What an SQE says

`PrepSQE` of the fourteen operations of `uring/operation.go` writes the arguments of an
operation into the fields of an SQE, each operation in its own way; `decode` is the way
back, from the fields to the operation they ask for, as the kernel reads them.

Two things come between an operation and its SQE.  An encoder that takes the address of the
first byte of a buffer panics if there is none, and lengths are narrowed to 32 bits: what
the SQE says is the operation with its length modulo `2 ^ 32` (`decode_encode`).
-/

namespace GoUring.Uring

open CounterRing

/-- An operation, as its constructor or `SetBuffer` and `SetTargetUserData` leave it.
The addresses are those that the memory of the operation happens to have. -/
inductive PublicOp
  | nop
  | readV (fd : ℕ) (iovecs : Slice) (offset : UInt64)
  | writeV (fd : ℕ) (iovecs : Slice) (offset : UInt64)
  | timeout (spec : UInt64)
  | accept (fd : ℕ) (flags : UInt32) (addr len : UInt64)
  | cancel (targetUserData : UInt64) (flags : UInt32)
  | linkTimeout (spec : UInt64)
  | recv (fd : ℕ) (buff : Slice) (msgFlags : UInt32)
  | send (fd : ℕ) (buff : Slice) (msgFlags : UInt32)
  | provideBuffers (buff : Slice) (bufferId : UInt64) (groupId : UInt16)
  | close (fd : ℕ)
  | read (fd : ℕ) (buff : Slice) (offset : UInt64)
  | write (fd : ℕ) (buff : Slice) (offset : UInt64)
  | connect (fd : ℕ) (addr : UInt64) (len : UInt32)
  deriving DecidableEq, Repr

namespace PublicOp

/-- The operation's encoder. -/
def operation : PublicOp → Operation
  | .nop => nopOp
  | .readV fd iovecs offset => readVOp fd iovecs offset
  | .writeV fd iovecs offset => writeVOp fd iovecs offset
  | .timeout spec => timeoutOp spec
  | .accept fd flags addr len => acceptOp fd flags addr len
  | .cancel targetUserData flags => cancelOp targetUserData flags
  | .linkTimeout spec => linkTimeoutOp spec
  | .recv fd buff msgFlags => recvOp fd buff msgFlags
  | .send fd buff msgFlags => sendOp fd buff msgFlags
  | .provideBuffers buff bufferId groupId => provideBuffersOp buff bufferId groupId
  | .close fd => closeOp fd
  | .read fd buff offset => readOp fd buff offset
  | .write fd buff offset => writeOp fd buff offset
  | .connect fd addr len => connectOp fd addr len

/-- The descriptor the operation is for. -/
def fd : PublicOp → Option ℕ
  | .readV fd _ _ => some fd
  | .writeV fd _ _ => some fd
  | .accept fd _ _ _ => some fd
  | .recv fd _ _ => some fd
  | .send fd _ _ => some fd
  | .close fd => some fd
  | .read fd _ _ => some fd
  | .write fd _ _ => some fd
  | .connect fd _ _ => some fd
  | _ => none

/-- The buffer or the vector of the operation. -/
def slice : PublicOp → Option Slice
  | .readV _ iovecs _ => some iovecs
  | .writeV _ iovecs _ => some iovecs
  | .recv _ buff _ => some buff
  | .send _ buff _ => some buff
  | .provideBuffers buff _ _ => some buff
  | .read _ buff _ => some buff
  | .write _ buff _ => some buff
  | _ => none

/-- The operation with another buffer or vector. -/
def mapSlice (f : Slice → Slice) : PublicOp → PublicOp
  | .readV fd iovecs offset => .readV fd (f iovecs) offset
  | .writeV fd iovecs offset => .writeV fd (f iovecs) offset
  | .recv fd buff msgFlags => .recv fd (f buff) msgFlags
  | .send fd buff msgFlags => .send fd (f buff) msgFlags
  | .provideBuffers buff bufferId groupId => .provideBuffers (f buff) bufferId groupId
  | .read fd buff offset => .read fd (f buff) offset
  | .write fd buff offset => .write fd (f buff) offset
  | op => op

/-- `ReadV(file, vectors, offset)`, its iovecs being put at `addr`: the address of the
first byte of an empty vector is a panic. -/
def newReadV (fd : ℕ) (vectors : List Slice) (offset addr : UInt64) : Option PublicOp :=
  if ∃ v ∈ vectors, v.len = 0 then none
  else some (.readV fd { addr := addr, len := vectors.length } offset)

/-- `WriteV(file, bytes, offset)`, its iovecs being put at `addr`. -/
def newWriteV (fd : ℕ) (bytes : List Slice) (offset addr : UInt64) : Option PublicOp :=
  if ∃ v ∈ bytes, v.len = 0 then none
  else some (.writeV fd { addr := addr, len := bytes.length } offset)

end PublicOp

/-- What is left of a length in 32 bits. -/
def Slice.narrow (s : Slice) : Slice := { s with len := s.len % 2 ^ 32 }

theorem Slice.narrow_eq_self_iff {s : Slice} : s.narrow = s ↔ s.len < 2 ^ 32 := by
  cases s with
  | mk addr len =>
      simp only [narrow, Slice.mk.injEq, true_and]
      exact Nat.mod_eq_iff_lt (by decide)

/-! ## The way back -/

/-- The code with the given value. -/
def OpCode.ofUInt8 (value : UInt8) : Option OpCode :=
  if (OpCode.ofNat value.toNat).toUInt8 = value then some (OpCode.ofNat value.toNat) else none

theorem OpCode.ofUInt8_toUInt8 (code : OpCode) : OpCode.ofUInt8 code.toUInt8 = some code := by
  cases code <;> rfl

/-- An SQE that was taken for a request: what it asks for, its flags and its user
data. -/
structure Submission where
  op : PublicOp
  flags : UInt8
  userData : UInt64
  deriving DecidableEq, Repr

namespace SQEntry

/-- The address and the length in an SQE, as a slice. -/
def slice (sqe : SQEntry) : Slice := { addr := sqe.addr, len := sqe.len.toNat }

/-- The descriptor of an SQE. -/
def fileno (sqe : SQEntry) : ℕ := sqe.fd.toNatClampNeg

/-- The operation that an SQE with the given code asks for.  The kernel takes timeouts with
one timespec only, and here one buffer is provided at a time. -/
def decodeOp (sqe : SQEntry) : OpCode → Option PublicOp
  | .nop => some .nop
  | .readV => some (.readV sqe.fileno sqe.slice sqe.off)
  | .writeV => some (.writeV sqe.fileno sqe.slice sqe.off)
  | .timeout => if sqe.len = 1 then some (.timeout sqe.addr) else none
  | .accept => some (.accept sqe.fileno sqe.opcodeFlags sqe.addr sqe.off)
  | .asyncCancel => some (.cancel sqe.addr sqe.opcodeFlags)
  | .linkTimeout => if sqe.len = 1 then some (.linkTimeout sqe.addr) else none
  | .recv => some (.recv sqe.fileno sqe.slice sqe.opcodeFlags)
  | .send => some (.send sqe.fileno sqe.slice sqe.opcodeFlags)
  | .provideBuffers =>
      if sqe.fd = 1 then some (.provideBuffers sqe.slice sqe.off sqe.bufIG) else none
  | .close => some (.close sqe.fileno)
  | .read => some (.read sqe.fileno sqe.slice sqe.off)
  | .write => some (.write sqe.fileno sqe.slice sqe.off)
  | .connect => some (.connect sqe.fileno sqe.addr sqe.off.toUInt32)
  | _ => none

/-- The request an SQE stands for. -/
def decode (sqe : SQEntry) : Option Submission :=
  ((OpCode.ofUInt8 sqe.opCode).bind sqe.decodeOp).map fun op =>
    { op := op, flags := sqe.flags, userData := sqe.userData }

end SQEntry

/-! ## There and back -/

section Fields

variable {fd : ℕ} {s : Slice} {flags : UInt8} {userData : UInt64}
  {old sqe : SQEntry}

theorem decode_of_code (code : OpCode) (here : sqe.opCode = code.toUInt8) :
    sqe.decode = (sqe.decodeOp code).map fun op =>
      { op := op, flags := sqe.flags, userData := sqe.userData } := by
  rw [SQEntry.decode, here, OpCode.ofUInt8_toUInt8, Option.bind_some]

theorem toNatClampNeg_ofNat (fits : fd < 2 ^ 31) : (Int32.ofNat fd).toNatClampNeg = fd :=
  Int32.toNatClampNeg_ofNat_of_lt fits

theorem slice_ofNat :
    ({ addr := s.addr, len := (UInt32.ofNat s.len).toNat } : Slice) = s.narrow := by
  rw [UInt32.toNat_ofNat']
  rfl

/-- The fields of an SQE that asks for a transfer. -/
theorem transferOp_fields {code : OpCode} {offset : UInt64} (fits : fd < 2 ^ 31)
    (encoded : (transferOp code fd s offset).encode flags userData old = some sqe) :
    sqe.opCode = code.toUInt8 ∧ sqe.fileno = fd ∧ sqe.slice = s.narrow ∧ sqe.off = offset := by
  obtain ⟨prepared, filled, rfl⟩ := Option.map_eq_some_iff.mp encoded
  obtain ⟨-, ⟨⟩⟩ := Option.ite_none_left_eq_some.mp filled
  exact ⟨rfl, toNatClampNeg_ofNat fits, slice_ofNat, rfl⟩

/-- The fields of an SQE that asks for a message. -/
theorem messageOp_fields {code : OpCode} {msgFlags : UInt32} (fits : fd < 2 ^ 31)
    (encoded : (messageOp code fd s msgFlags).encode flags userData old = some sqe) :
    sqe.opCode = code.toUInt8 ∧ sqe.fileno = fd ∧ sqe.slice = s.narrow ∧
      sqe.opcodeFlags = msgFlags := by
  obtain ⟨prepared, filled, rfl⟩ := Option.map_eq_some_iff.mp encoded
  obtain ⟨-, ⟨⟩⟩ := Option.ite_none_left_eq_some.mp filled
  exact ⟨rfl, toNatClampNeg_ofNat fits, slice_ofNat, rfl⟩

end Fields

namespace PublicOp

variable {op : PublicOp} {flags : UInt8} {userData : UInt64} {old sqe : SQEntry}

/-- **When an encoder panics**: the operation has a slice, and it is empty. -/
theorem encode_eq_none_iff :
    op.operation.encode flags userData old = none ↔ ∃ s ∈ op.slice, s.len = 0 := by
  cases op <;>
    simp [operation, slice, Operation.encode, nopOp, readVOp, writeVOp, readOp, writeOp,
      transferOp, timeoutOp, acceptOp, cancelOp, linkTimeoutOp, recvOp, sendOp, messageOp,
      provideBuffersOp, closeOp, connectOp]

/-- **What the SQE says**: the operation with its length modulo `2 ^ 32`, and its flags and
user data. -/
theorem decode_encode (fits : ∀ fd ∈ op.fd, fd < 2 ^ 31)
    (encoded : op.operation.encode flags userData old = some sqe) :
    sqe.decode =
      some { op := op.mapSlice Slice.narrow, flags := flags, userData := userData } := by
  have kept := Operation.encode_flags encoded
  have tagged := Operation.encode_userData encoded
  cases op with
  | nop =>
    cases encoded
    rfl
  | timeout spec =>
    cases encoded
    rfl
  | linkTimeout spec =>
    cases encoded
    rfl
  | cancel target cancelFlags =>
    cases encoded
    rfl
  | readV fd iovecs offset =>
    obtain ⟨here, file, vector, position⟩ := transferOp_fields (fits fd rfl) encoded
    rw [decode_of_code .readV here, SQEntry.decodeOp, file, vector, position, kept, tagged]
    rfl
  | writeV fd iovecs offset =>
    obtain ⟨here, file, vector, position⟩ := transferOp_fields (fits fd rfl) encoded
    rw [decode_of_code .writeV here, SQEntry.decodeOp, file, vector, position, kept, tagged]
    rfl
  | read fd buff offset =>
    obtain ⟨here, file, buffer, position⟩ := transferOp_fields (fits fd rfl) encoded
    rw [decode_of_code .read here, SQEntry.decodeOp, file, buffer, position, kept, tagged]
    rfl
  | write fd buff offset =>
    obtain ⟨here, file, buffer, position⟩ := transferOp_fields (fits fd rfl) encoded
    rw [decode_of_code .write here, SQEntry.decodeOp, file, buffer, position, kept, tagged]
    rfl
  | recv fd buff msgFlags =>
    obtain ⟨here, socket, buffer, message⟩ := messageOp_fields (fits fd rfl) encoded
    rw [decode_of_code .recv here, SQEntry.decodeOp, socket, buffer, message, kept, tagged]
    rfl
  | send fd buff msgFlags =>
    obtain ⟨here, socket, buffer, message⟩ := messageOp_fields (fits fd rfl) encoded
    rw [decode_of_code .send here, SQEntry.decodeOp, socket, buffer, message, kept, tagged]
    rfl
  | provideBuffers buff bufferId groupId =>
    obtain ⟨prepared, filled, rfl⟩ := Option.map_eq_some_iff.mp encoded
    obtain ⟨-, ⟨⟩⟩ := Option.ite_none_left_eq_some.mp filled
    rw [decode_of_code .provideBuffers rfl]
    simp [SQEntry.decodeOp, SQEntry.slice, SQEntry.fill, SQEntry.setUserData, mapSlice,
      Slice.narrow]
  | accept fd acceptFlags addr len =>
    cases encoded
    rw [decode_of_code .accept rfl]
    simp [SQEntry.decodeOp, SQEntry.fileno, SQEntry.fill, SQEntry.setUserData, mapSlice,
      toNatClampNeg_ofNat (fits fd rfl)]
  | close fd =>
    cases encoded
    rw [decode_of_code .close rfl]
    simp [SQEntry.decodeOp, SQEntry.fileno, SQEntry.fill, SQEntry.setUserData, mapSlice,
      toNatClampNeg_ofNat (fits fd rfl)]
  | connect fd addr len =>
    cases encoded
    rw [decode_of_code .connect rfl]
    simp [SQEntry.decodeOp, SQEntry.fileno, SQEntry.fill, SQEntry.setUserData, mapSlice,
      toNatClampNeg_ofNat (fits fd rfl)]

theorem mapSlice_eq_self_iff {f : Slice → Slice} :
    op.mapSlice f = op ↔ ∀ s ∈ op.slice, f s = s := by
  cases op <;> simp [mapSlice, slice]

/-- `QueueSQE` does not panic, and the SQE it adds to the queue asks for the operation, with
its flags and user data. -/
def Encodes (q : SQ) (op : PublicOp) (flags : UInt8) (userData : UInt64) : Prop :=
  ∃ q' sqe, q.queueSQE op.operation flags userData = some (none, q') ∧
    q'.pending = q.pending ++ [sqe] ∧
    sqe.decode = some { op := op, flags := flags, userData := userData }

/-- **Which operations are encoded faithfully**: those without a slice, and those whose
slice is not empty and has a length of 32 bits. -/
theorem encodes_iff (q : SQ) (wf : q.WF) (room : q.pending.length < q.kRingEntries.toNat)
    (op : PublicOp) (fits : ∀ fd ∈ op.fd, fd < 2 ^ 31) (flags : UInt8) (userData : UInt64) :
    Encodes q op flags userData ↔ ∀ s ∈ op.slice, s.len ≠ 0 ∧ s.len < 2 ^ 32 := by
  rw [SQ.length_pending] at room
  have queued := wf.queueSQE_of_room room op.operation flags userData
  constructor
  · rintro ⟨q', sqe, done, pending, decoded⟩ s mem
    rw [queued] at done
    obtain ⟨written, encoded, same⟩ := Option.map_eq_some_iff.mp done
    rw [Prod.mk.injEq] at same
    obtain ⟨-, rfl⟩ := same
    rw [wf.pending_pushSQE room] at pending
    obtain rfl := List.singleton_injective (List.append_cancel_left pending)
    rw [decode_encode fits encoded, Option.some.injEq, Submission.mk.injEq] at decoded
    have kept := mapSlice_eq_self_iff.mp decoded.1
    refine ⟨fun empty => ?_, Slice.narrow_eq_self_iff.mp (kept s mem)⟩
    rw [encode_eq_none_iff.mpr ⟨s, mem, empty⟩] at encoded
    cases encoded
  · intro sized
    cases encoded : op.operation.encode flags userData (q.sqeBuff (q.sqeAddr q.sqeTail)) with
    | none =>
      obtain ⟨s, mem, empty⟩ := encode_eq_none_iff.mp encoded
      exact absurd empty (sized s mem).1
    | some sqe =>
      refine ⟨q.pushSQE sqe, sqe, ?_, wf.pending_pushSQE room sqe, ?_⟩
      · rw [queued, encoded]
        rfl
      · rw [decode_encode fits encoded, mapSlice_eq_self_iff.mpr]
        exact fun s mem => Slice.narrow_eq_self_iff.mpr (sized s mem).2

/-- A read into two vectors. -/
theorem encodes_iff_two_vectors :
    newReadV 3 [{ addr := 4096, len := 16 }, { addr := 8192, len := 32 }] 512 64 =
        some (.readV 3 { addr := 64, len := 2 } 512) ∧
      Encodes wrappingSQ (.readV 3 { addr := 64, len := 2 } 512) 0 7 :=
  ⟨rfl, (encodes_iff wrappingSQ wrappingSQ_fresh.wf (by decide) _ (by simp [fd]) 0 7).mpr
    (by simp [slice])⟩

/-- With a free slot, receiving into an empty buffer panics, and a write of 4 GiB reaches
the kernel as one of no bytes. -/
theorem encodes_fails_at_the_bounds :
    wrappingSQ.WF ∧ wrappingSQ.pending.length < wrappingSQ.kRingEntries.toNat ∧
      wrappingSQ.queueSQE (recv 3 { addr := 64, len := 0 } 0).operation 0 7 = none ∧
      ¬ Encodes wrappingSQ (.recv 3 { addr := 64, len := 0 } 0) 0 7 ∧
      ¬ Encodes wrappingSQ (.write 3 { addr := 64, len := 4294967296 } 0) 0 7 := by
  have room : gap wrappingSQ.kHead wrappingSQ.sqeTail < wrappingSQ.kRingEntries.toNat := by
    decide
  refine ⟨wrappingSQ_fresh.wf, by decide, rfl, ?_, ?_⟩
  · rintro ⟨q', sqe, queued, -⟩
    cases queued
  · rintro ⟨q', sqe, queued, pending, decoded⟩
    cases queued
    have written := wrappingSQ_fresh.wf.pending_pushSQE room
      { SQEntry.fill default OpCode.write.toUInt8 3 64 0 0 with userData := 7 }
    obtain rfl := List.singleton_injective (List.append_cancel_left (written.symm.trans pending))
    revert decoded
    decide

end PublicOp

end GoUring.Uring
