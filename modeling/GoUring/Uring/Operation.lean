import GoUring.Uring.Syscall

/-!
# Operations

An operation is what encodes itself into an SQE (`uring/operation.go`,
`Operation.PrepSQE`).  `PrepSQE` may panic — several encoders take the address of
the first byte of a buffer — and it writes into a slot that still holds whatever
was queued there before, so it is modelled as a partial function of the slot's
old contents.
-/

namespace GoUring.Uring

/-- `OpCode`, in the order of the source's `iota` block. -/
inductive OpCode
  | nop | readV | writeV | fSync | readFixed | writeFixed | pollAdd | pollRemove
  | syncFileRange | sendMsg | recvMsg | timeout | timeoutRemove | accept
  | asyncCancel | linkTimeout | connect | fAllocate | openAt | close
  | filesUpdate | statX | read | write | fAdvise | mAdvise | send | recv
  | openAt2 | epollCtl | splice | provideBuffers | removeBuffers | tee
  | shutdown | renameAt | unlinkAt | mkdirAt | symlinkAt | linkAt
  deriving DecidableEq, Repr

/-- The value of the `iota` constant. -/
def OpCode.toUInt8 (code : OpCode) : UInt8 := UInt8.ofNat code.ctorIdx

example : OpCode.linkTimeout.toUInt8 = 15 := rfl

namespace SQEntry

/-- `SQEntry.fill` writes every field of the slot. -/
def fill (_sqe : SQEntry) (op : UInt8) (fd : Int32) (addr : UInt64) (len : UInt32)
    (offset : UInt64) : SQEntry where
  opCode := op
  flags := 0
  ioPrio := 0
  fd := fd
  off := offset
  addr := addr
  len := len
  opcodeFlags := 0
  userData := 0
  bufIG := 0
  personality := 0
  spliceFdIn := 0
  pad2 := (0, 0)

/-- `SQEntry.setUserData`. -/
def setUserData (sqe : SQEntry) (ud : UInt64) : SQEntry := { sqe with userData := ud }

end SQEntry

/-- The `Operation` interface; `none` is a panic of `PrepSQE`. -/
structure Operation where
  prepSQE : SQEntry → Option SQEntry

/-- `Nop()`. -/
def nopOp : Operation where
  prepSQE sqe := some (sqe.fill OpCode.nop.toUInt8 (-1) 0 0 0)

/-- `Cancel(targetUserData, flags)`: attempt to cancel an issued request. -/
def cancelOp (targetUserData : UInt64) (flags : UInt32) : Operation where
  prepSQE sqe :=
    some { sqe.fill OpCode.asyncCancel.toUInt8 (-1) targetUserData 0 0 with
      opcodeFlags := flags }

/-- A `[]byte`: the address of its first byte, and its length. -/
structure Slice where
  addr : UInt64
  len : ℕ
  deriving DecidableEq, Repr

/-- `RecvOp` and `SendOp`, which differ in their code.  The encoder takes the address of
the first byte of the buffer, so an empty buffer makes it panic. -/
def messageOp (code : OpCode) (socketFd : ℕ) (buff : Slice) (msgFlags : UInt32) :
    Operation where
  prepSQE sqe :=
    if buff.len = 0 then none
    else
      some { sqe.fill code.toUInt8 (Int32.ofNat socketFd) buff.addr (UInt32.ofNat buff.len) 0 with
        opcodeFlags := msgFlags }

/-- `Recv(socketFd, buff, msgFlags)`. -/
def recvOp (socketFd : ℕ) (buff : Slice) (msgFlags : UInt32) : Operation :=
  messageOp .recv socketFd buff msgFlags

/-- `Send(socketFd, buff, msgFlags)`. -/
def sendOp (socketFd : ℕ) (buff : Slice) (msgFlags : UInt32) : Operation :=
  messageOp .send socketFd buff msgFlags

/-- `Accept(fd, flags)`: the SQE names the buffer the operation has for the address of the
peer and the field that holds its length, `addr` and `len` being their addresses. -/
def acceptOp (fd : ℕ) (flags : UInt32) (addr len : UInt64) : Operation where
  prepSQE sqe :=
    some { sqe.fill OpCode.accept.toUInt8 (Int32.ofNat fd) addr 0 len with opcodeFlags := flags }

/-- `ReadVOp`, `WriteVOp`, `ReadOp` and `WriteOp`, which differ in their code and in
whether the slice is one of bytes or one of iovecs.  The encoder takes the address of the
first element, so an empty slice makes it panic. -/
def transferOp (code : OpCode) (fd : ℕ) (slice : Slice) (offset : UInt64) : Operation where
  prepSQE sqe :=
    if slice.len = 0 then none
    else
      some (sqe.fill code.toUInt8 (Int32.ofNat fd) slice.addr (UInt32.ofNat slice.len) offset)

/-- `ReadVOp`; `iovecs` is the slice of its iovecs. -/
def readVOp (fd : ℕ) (iovecs : Slice) (offset : UInt64) : Operation :=
  transferOp .readV fd iovecs offset

/-- `WriteVOp`; `iovecs` is the slice of its iovecs. -/
def writeVOp (fd : ℕ) (iovecs : Slice) (offset : UInt64) : Operation :=
  transferOp .writeV fd iovecs offset

/-- `Read(fd, buff, offset)`. -/
def readOp (fd : ℕ) (buff : Slice) (offset : UInt64) : Operation :=
  transferOp .read fd buff offset

/-- `Write(fd, buff, offset)`. -/
def writeOp (fd : ℕ) (buff : Slice) (offset : UInt64) : Operation :=
  transferOp .write fd buff offset

/-- `ProvideBuffers(buff, bufferId, groupId)`: one buffer, whose number stands where other
operations have their descriptor. -/
def provideBuffersOp (buff : Slice) (bufferId : UInt64) (groupId : UInt16) : Operation where
  prepSQE sqe :=
    if buff.len = 0 then none
    else
      some { sqe.fill OpCode.provideBuffers.toUInt8 1 buff.addr (UInt32.ofNat buff.len)
          bufferId with
        bufIG := groupId }

/-- `Close(fd)`. -/
def closeOp (fd : ℕ) : Operation where
  prepSQE sqe := some (sqe.fill OpCode.close.toUInt8 (Int32.ofNat fd) 0 0 0)

/-- `Connect(fd, addr)`: the SQE names the raw address the constructor has built, and its
length. -/
def connectOp (fd : ℕ) (addr : UInt64) (len : UInt32) : Operation where
  prepSQE sqe :=
    some (sqe.fill OpCode.connect.toUInt8 (Int32.ofNat fd) addr 0 len.toUInt64)

/-- `Timeout(duration)`: the SQE names the timespec `PrepSQE` builds on its own stack. -/
def timeoutOp (spec : UInt64) : Operation where
  prepSQE sqe := some (sqe.fill OpCode.timeout.toUInt8 (-1) spec 1 0)

/-- `LinkTimeout(duration)`: the SQE names the timespec `PrepSQE` builds on its
own stack, `spec` being the address it happens to have. -/
def linkTimeoutOp (spec : UInt64) : Operation where
  prepSQE sqe := some (sqe.fill OpCode.linkTimeout.toUInt8 (-1) spec 1 0)

end GoUring.Uring
