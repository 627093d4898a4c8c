import GoUring.Foundation.Runs
import GoUring.Net.Conn

/-!
# What `Write` transmits

The writes of a connection follow one another, since each holds `writeLock` until its
completion has come: a stream of bytes is transmitted piece by piece.  `Write` hands its
buffer to one send and returns what the completion says.  The kernel may transmit less than
it was given, and then `Write` returns the smaller number with a nil error; what it does not
do is send the rest.

The SQE and the result are those of `Conn`; the kernel's part is the completion it posts for
a send.
-/

namespace GoUring.Net

open Uring Reactor Runs

/-- What becomes of a send: some bytes are transmitted, or none and the result is an
error. -/
inductive SendOutcome
  | sent (r : ℕ)
  | failed (res : Int32)
  deriving DecidableEq, Repr

namespace SendOutcome

/-- The completion the kernel posts. -/
def completion (userData : UInt64) : SendOutcome → CQEvent
  | .sent r => { userData := userData, res := Int32.ofNat r, flags := 0 }
  | .failed res => { userData := userData, res := res, flags := 0 }

/-- The outcomes of an SQE: no more bytes than it asks for and than its result can say. -/
def Possible (sqe : SQEntry) : SendOutcome → Prop
  | .sent r => r ≤ min sqe.len.toNat (2 ^ 31 - 1)
  | .failed res => res < 0

instance (sqe : SQEntry) : ∀ outcome : SendOutcome, Decidable (outcome.Possible sqe)
  | .sent _ => inferInstanceAs (Decidable (_ ≤ _))
  | .failed _ => inferInstanceAs (Decidable (_ < _))

/-- What is transmitted of a buffer. -/
def transmitted (bytes : List UInt8) : SendOutcome → List UInt8
  | .sent r => bytes.take r
  | .failed _ => []

end SendOutcome

/-- A call `Write(b)`: the bytes and their address, what the reactor puts into the SQE, and
what becomes of it. -/
structure WriteCall where
  addr : UInt64
  bytes : List UInt8
  slot : SQEntry
  flags : UInt8
  userData : UInt64
  outcome : SendOutcome

/-- A call that has returned, and what was transmitted for it. -/
structure Written where
  bytes : List UInt8
  transmitted : List UInt8
  n : Int32
  err : Option OpError
  deriving DecidableEq, Repr

/-- One call.  `none` is a panic of the encoder, or an outcome the kernel does not have. -/
def write (fd : ℕ) (c : WriteCall) : Option Written :=
  ((Direction.write.op fd { addr := c.addr, len := c.bytes.length }).encode c.flags c.userData
    c.slot).bind fun sqe =>
      if c.outcome.Possible sqe then
        let (n, err) := Direction.write.result (c.outcome.completion c.userData)
        some { bytes := c.bytes, transmitted := c.outcome.transmitted c.bytes, n := n, err := err }
      else none

/-- One call after the others. -/
def writeStep (fd : ℕ) (calls : List Written) (c : WriteCall) : Option (List Written) :=
  (write fd c).map fun w => calls ++ [w]

/-- The call keeps the contract of `io.Writer`. -/
def Written.Honest (w : Written) : Prop :=
  w.n.toInt = w.transmitted.length ∧ (w.n.toInt < w.bytes.length → w.err ≠ none)

/-- **Nothing is lost**: calls that all return a nil error have transmitted their buffers,
and every call keeps the contract. -/
def Lossless (calls : List Written) : Prop :=
  ((∀ w ∈ calls, w.err = none) →
    calls.flatMap Written.transmitted = calls.flatMap Written.bytes) ∧
  ∀ w ∈ calls, w.Honest

/-- The send fails, transmits nothing, or transmits all. -/
def WriteCall.AllOrNothing (c : WriteCall) : Prop :=
  match c.outcome with
  | .sent r => r = 0 ∨ r = c.bytes.length
  | .failed _ => True

variable {fd : ℕ} {c : WriteCall} {w : Written}

/-- The length in the SQE is at most the length of the buffer. -/
theorem len_le_of_encode {b : Slice} {flags : UInt8} {userData : UInt64} {old sqe : SQEntry}
    (encoded : (Direction.write.op fd b).encode flags userData old = some sqe) :
    sqe.len.toNat ≤ b.len := by
  obtain ⟨prepared, filled, rfl⟩ := Option.map_eq_some_iff.mp encoded
  obtain ⟨-, ⟨⟩⟩ := Option.ite_none_left_eq_some.mp filled
  show (UInt32.ofNat b.len).toNat ≤ b.len
  rw [UInt32.toNat_ofNat']
  exact Nat.mod_le _ _

/-! ## What a completion is made into -/

theorem result_of_neg (cqe : CQEvent) (negative : cqe.res < 0) (dir : Direction) :
    (dir.result cqe).1 = 0 ∧ (dir.result cqe).2 ≠ none := by
  have error : cqe.error = some ⟨(-cqe.res).toInt64.toUInt64.toNat⟩ := if_pos negative
  rw [Direction.result, error]
  exact ⟨rfl, Option.some_ne_none _⟩

theorem result_of_zero (cqe : CQEvent) (zero : cqe.res = 0) (dir : Direction) :
    (dir.result cqe).1 = 0 ∧ (dir.result cqe).2 ≠ none := by
  have error : cqe.error = none := by
    rw [CQEvent.error, zero]
    rfl
  rw [Direction.result, error]
  simp [zero]

theorem result_of_pos (cqe : CQEvent) (positive : 0 < cqe.res.toInt) (dir : Direction) :
    dir.result cqe = (cqe.res, none) := by
  have error : cqe.error = none := by
    rw [CQEvent.error, if_neg]
    rw [Int32.lt_iff_toInt_lt]
    show ¬ cqe.res.toInt < 0
    omega
  have some : cqe.res ≠ 0 := by
    intro zero
    rw [zero] at positive
    exact absurd positive (by decide)
  rw [Direction.result, error]
  simp [some]

theorem toInt_ofNat {r : ℕ} (fits : r ≤ 2 ^ 31 - 1) : (Int32.ofNat r).toInt = r :=
  Int32.toInt_ofNat_of_lt (by omega)

/-- **What a call returns**: an error and no bytes transmitted, or the number of bytes
transmitted and no error. -/
theorem write_cases (wrote : write fd c = some w) :
    w.bytes = c.bytes ∧
      ((w.transmitted = [] ∧ w.n = 0 ∧ w.err ≠ none ∧ c.AllOrNothing) ∨
        ∃ r, c.outcome = .sent r ∧ r ≠ 0 ∧ r ≤ c.bytes.length ∧
          w.transmitted = c.bytes.take r ∧ w.n.toInt = r ∧ w.err = none) := by
  obtain ⟨sqe, encoded, sent⟩ := Option.bind_eq_some_iff.mp wrote
  have fits := len_le_of_encode encoded
  split at sent
  · next possible =>
    cases sent
    refine ⟨rfl, ?_⟩
    cases outcome : c.outcome with
    | failed res =>
        left
        rw [outcome] at possible
        obtain ⟨n, err⟩ :=
          result_of_neg (SendOutcome.completion c.userData (.failed res)) possible .write
        exact ⟨rfl, n, err, by rw [WriteCall.AllOrNothing, outcome]; trivial⟩
    | sent r =>
        rw [outcome] at possible
        have bound : r ≤ sqe.len.toNat ∧ r ≤ 2 ^ 31 - 1 := le_min_iff.mp possible
        have value := toInt_ofNat bound.2
        by_cases none : r = 0
        · left
          subst none
          obtain ⟨n, err⟩ :=
            result_of_zero (SendOutcome.completion c.userData (.sent 0)) rfl .write
          exact ⟨rfl, n, err, by rw [WriteCall.AllOrNothing, outcome]; exact Or.inl rfl⟩
        · right
          have positive : 0 < (SendOutcome.completion c.userData (.sent r)).res.toInt := by
            show 0 < (Int32.ofNat r).toInt
            omega
          have returned := result_of_pos _ positive .write
          exact ⟨r, rfl, none, bound.1.trans fits, rfl,
            (congrArg (fun answer => answer.1.toInt) returned).trans value,
            congrArg Prod.snd returned⟩
  · cases sent

/-- A call whose send transmits all or nothing is honest, and has transmitted its buffer
if it returns no error. -/
theorem honest_of_allOrNothing (wrote : write fd c = some w) (whole : c.AllOrNothing) :
    w.Honest ∧ (w.err = none → w.transmitted = w.bytes) := by
  obtain ⟨bytes, ⟨nothing, zero, err, -⟩ | ⟨r, outcome, positive, le, piece, n, noErr⟩⟩ :=
    write_cases wrote
  · refine ⟨⟨?_, fun _ => err⟩, fun noErr => absurd noErr err⟩
    rw [zero, nothing]
    rfl
  · have full : r = c.bytes.length := by
      rw [WriteCall.AllOrNothing, outcome] at whole
      exact whole.resolve_left positive
    have all : w.transmitted = w.bytes := by rw [piece, bytes, full, List.take_length]
    refine ⟨⟨?_, fun short => ?_⟩, fun _ => all⟩
    · rw [n, all, bytes, full]
    · rw [n, bytes, full] at short
      exact absurd short (lt_irrefl _)

/-- A call whose send stops in between says so to nobody. -/
theorem not_honest_of_partial (wrote : write fd c = some w) (short : ¬ c.AllOrNothing) :
    ¬ w.Honest := by
  obtain ⟨bytes, ⟨-, -, -, whole⟩ | ⟨r, outcome, positive, le, -, n, noErr⟩⟩ :=
    write_cases wrote
  · exact absurd whole short
  · rintro ⟨-, contract⟩
    rw [WriteCall.AllOrNothing, outcome] at short
    refine contract ?_ noErr
    rw [n, bytes]
    push Not at short
    have ne := short.2
    omega

/-- **When nothing is lost**: in every state of a sequence of writes, exactly if each send
fails, transmits nothing, or transmits all. -/
theorem write_lossless_iff (fd : ℕ) {p : List (List Written × WriteCall)} {calls : List Written}
    (path : Path (writeStep fd) [] p calls) :
    (∀ before ∈ visited p calls, Lossless before) ↔ ∀ x ∈ p, x.2.AllOrNothing := by
  refine path.exact (fun calls => ∀ w ∈ calls, w.Honest ∧ (w.err = none → w.transmitted = w.bytes))
    (fun _ => True) Lossless (fun _ _ => True) (fun _ c => c.AllOrNothing)
    (fun w mem => by cases mem) ?_ ?_ ?_ (fun _ _ => trivial) (fun _ _ => trivial)
  · intro calls honest _
    refine ⟨fun noErr => ?_, fun w mem => (honest w mem).1⟩
    exact List.flatMap_congr fun w mem => (honest w mem).2 (noErr w mem)
  · intro calls c calls' honest _ _ _ whole stepped
    obtain ⟨w, wrote, rfl⟩ := Option.map_eq_some_iff.mp stepped
    intro w' mem
    rcases List.mem_append.mp mem with old | new
    · exact honest w' old
    · obtain rfl := List.mem_singleton.mp new
      exact honest_of_allOrNothing wrote whole
  · intro calls c calls' honest _ _ _ short stepped lossless
    obtain ⟨w, wrote, rfl⟩ := Option.map_eq_some_iff.mp stepped
    exact not_honest_of_partial wrote short (lossless.2 w (by simp))

/-- `Write` of three bytes, of which `r` are transmitted. -/
def writeThree (r : ℕ) : WriteCall where
  addr := 64
  bytes := [1, 2, 3]
  slot := default
  flags := 0
  userData := 7
  outcome := .sent r

/-- Two writes, both transmitted whole. -/
theorem write_lossless_iff_twice :
    ∃ p calls, Path (writeStep 3) [] p calls ∧
      calls.flatMap Written.transmitted = [1, 2, 3, 1, 2, 3] ∧
      ((∀ before ∈ visited p calls, Lossless before) ↔ ∀ x ∈ p, x.2.AllOrNothing) :=
  ⟨_, _, path_record [writeThree 3, writeThree 3] rfl, rfl,
    write_lossless_iff 3 (path_record [writeThree 3, writeThree 3] rfl)⟩

/-- **A byte is lost**: of three bytes two are transmitted, and `Write` returns 2 and a nil
error. -/
theorem write_loses_a_byte :
    ∃ p calls, Path (writeStep 3) [] p calls ∧
      calls = [{ bytes := [1, 2, 3], transmitted := [1, 2], n := 2, err := none }] ∧
      ¬ Lossless calls := by
  refine ⟨_, [{ bytes := [1, 2, 3], transmitted := [1, 2], n := 2, err := none }],
    path_record [writeThree 2] rfl, rfl, ?_⟩
  rintro ⟨whole, -⟩
  exact absurd (whole (by decide)) (by decide)

end GoUring.Net
