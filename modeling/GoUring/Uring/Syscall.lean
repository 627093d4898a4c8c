import Mathlib.Data.Nat.Notation

/-!
# The shared data of the io_uring interface

The entries of the two queues (`uring/syscall.go`), the flag words the library
reads or passes to the kernel (`uring/syscall.go`, `uring/setup.go`), and the
errors of the `uring` package.  Every field of an SQE is kept, because
`SQEntry.fill` writes every one of them.
-/

namespace GoUring.Uring

/-- `SQEntry`: one 64-byte submission queue entry. -/
structure SQEntry where
  opCode : UInt8
  flags : UInt8
  ioPrio : UInt16
  fd : Int32
  off : UInt64
  addr : UInt64
  len : UInt32
  opcodeFlags : UInt32
  userData : UInt64
  bufIG : UInt16
  personality : UInt16
  spliceFdIn : Int32
  pad2 : UInt64 × UInt64
  deriving DecidableEq, Repr, Inhabited

/-- `unsafe.Sizeof(SQEntry{})`. -/
def sizeofSQEntry : UInt32 := 64

/-- `_sizeOfUint32`. -/
def sizeofUint32 : UInt32 := 4

/-- `CQEvent`: one completion queue entry. -/
structure CQEvent where
  userData : UInt64
  res : Int32
  flags : UInt32
  deriving DecidableEq, Repr, Inhabited

/-- `unsafe.Sizeof(CQEvent{})`. -/
def sizeofCQEvent : ℕ := 16

/-- `syscall.Errno`. -/
structure Errno where
  code : ℕ
  deriving DecidableEq, Repr

namespace Errno

def eagain : Errno := ⟨11⟩

def ebusy : Errno := ⟨16⟩

def etime : Errno := ⟨62⟩

end Errno

/-- The errors the ring operations return: `ErrSQOverflow`, a bare errno, and an
errno of `io_uring_enter` wrapped by `os.NewSyscallError`. -/
inductive RingError
  | sqOverflow
  | errno (errno : Errno)
  | enter (errno : Errno)
  deriving DecidableEq, Repr

/-- `errors.Is(err, errno)`. -/
def RingError.is (err : RingError) (errno : Errno) : Bool :=
  match err with
  | .sqOverflow => false
  | .errno e => e == errno
  | .enter e => e == errno

/-- SQ ring flag: the kernel's SQ thread sleeps and needs a wakeup. -/
def sqNeedWakeup : UInt32 := 1

/-- SQ ring flag: completions wait in the kernel because the CQ is full. -/
def sqCQOverflow : UInt32 := 2

/-- `io_uring_enter` flags. -/
def sysRingEnterGetEvents : UInt32 := 1

def sysRingEnterSQWakeup : UInt32 := 2

def sysRingEnterExtArg : UInt32 := 8

/-- SQE flag: the next SQE is linked to this one. -/
def sqeIOLinkFlag : UInt8 := 4

/-- `io_uring_setup` flags. -/
def setupIOPoll : UInt32 := 1

def setupSQPoll : UInt32 := 2

/-- Feature flags the kernel reports at setup. -/
def featFastPoll : UInt32 := 32

def featExtArg : UInt32 := 256

/-- The part of `ringParams` that the ring operations read after setup. -/
structure RingParams where
  flags : UInt32
  features : UInt32
  deriving DecidableEq, Repr

namespace RingParams

def extArgFeature (p : RingParams) : Bool := p.features &&& featExtArg != 0

def fastPollFeature (p : RingParams) : Bool := p.features &&& featFastPoll != 0

/-- `Params.flags&setupSQPoll != 0`: the kernel consumes SQEs from a thread of
its own. -/
def sqPoll (p : RingParams) : Bool := p.flags &&& setupSQPoll != 0

end RingParams

/-- The arguments of one `io_uring_enter` call that decide what the kernel
does. -/
structure EnterArgs where
  toSubmit : UInt32
  minComplete : UInt32
  flags : UInt32
  deriving DecidableEq, Repr

end GoUring.Uring
