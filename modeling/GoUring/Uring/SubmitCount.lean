import Mathlib.Data.List.Perm.Subperm
import GoUring.Uring.CompletionRun
import GoUring.Uring.SubmissionRun

/-!
# What the counts of `Submit` add up to

`Submit` returns the "count of submitted SQEs".  On a ring without an SQ thread this is what
`io_uring_enter` has consumed.  On a ring with one it is the distance from `kHead` to the
tail, that is, the number of SQEs the thread has not read yet, whether or not an earlier
`Submit` has returned them already.

`Submit` is cut where the thread may read an SQE or change the flags: after `kTail` is
stored, after `kHead` is loaded, after the flags are read.  A `Submit` that returns `n` counts
`n` SQEs from the first one that was not read when it loaded `kHead`.  `submit_counts_iff`
says exactly when no SQE is counted twice, in runs in which `QueueSQE` does not panic.  After
a panic of `PrepSQE` the next `Submit` counts the slot that was abandoned, with or without an
SQ thread (`submit_counts_abandoned_slot`).
-/

namespace GoUring.Uring

open CounterRing BoundedFifo Runs

/-- Where the caller is: outside `Submit`, or in it — with `kTail` stored, with the number of
SQEs not read, or about to enter the kernel.  `mark` is the position of the first SQE that was
not read when `kHead` was loaded. -/
inductive SubmitPC
  | idle
  | stored
  | loaded (flushed : UInt32) (mark : ℕ)
  | entering (flushed flags : UInt32) (mark : ℕ)
  deriving DecidableEq, Repr

/-- What a `Submit` that has loaded `kHead` holds. -/
def SubmitPC.held : SubmitPC → Option (UInt32 × ℕ)
  | .loaded flushed mark => some (flushed, mark)
  | .entering flushed _ mark => some (flushed, mark)
  | _ => none

/-- A ring with one caller.  SQEs are numbered in the order they were queued; `counted` are
those that were counted by a `Submit`, and `sum` is the sum of what the calls returned. -/
structure SubmitRun where
  ring : Ring
  pc : SubmitPC
  queued : ℕ
  read : ℕ
  counted : List ℕ
  sum : ℕ

/-- What can happen. -/
inductive SubmitEvent
  /-- `QueueSQE(op, flags, userData)`. -/
  | queueSQE (op : Operation) (flags : UInt8) (userData : UInt64)
  /-- `Submit` is called: `flushSQ` up to the store of `kTail`. -/
  | store
  /-- `flushSQ` loads `kHead` and returns. -/
  | load
  /-- `needsEnter`; without a need `Submit` returns. -/
  | check
  /-- `sysEnter`, and `Submit` returns. -/
  | enter (result : EnterResult)
  /-- The SQ thread reads an SQE. -/
  | kernel
  /-- The kernel changes the flags of the ring. -/
  | kernelFlags (flags : UInt32)

namespace SubmitRun

/-- Nothing was queued yet. -/
def start (r : Ring) : SubmitRun where
  ring := r
  pc := .idle
  queued := 0
  read := 0
  counted := []
  sum := 0

/-- `Submit` returns `n` and counts `n` SQEs from `mark` on. -/
def ret (s : SubmitRun) (mark n : ℕ) : SubmitRun :=
  { s with
    pc := .idle
    counted := s.counted ++ List.range' mark n
    sum := s.sum + n }

/-- One step.  A panic of `PrepSQE` is recovered by the caller; its slot is not queued, but
the kernel will find it. -/
def step (s : SubmitRun) : SubmitEvent → Option SubmitRun
  | .queueSQE op flags userData =>
      match s.pc with
      | .idle =>
          match s.ring.sqRing.queueSQE op flags userData with
          | some (err, sq) =>
              some { s with
                ring := { s.ring with sqRing := sq }
                queued := if err.isNone then s.queued + 1 else s.queued }
          | none => some { s with ring := { s.ring with sqRing := s.ring.sqRing.abandonSQE } }
      | _ => none
  | .store =>
      match s.pc with
      | .idle =>
          some { s with ring := { s.ring with sqRing := s.ring.sqRing.flushSQ.2 }, pc := .stored }
      | _ => none
  | .load =>
      match s.pc with
      | .stored =>
          some { s with pc := .loaded (s.ring.sqRing.sq.kTail - s.ring.sqRing.sq.kHead) s.read }
      | _ => none
  | .check =>
      match s.pc with
      | .loaded flushed mark =>
          let (enter, flags) := s.ring.needsEnter 0
          if enter then
            let flags :=
              if s.ring.params.flags &&& setupIOPoll = 1 then flags ||| sysRingEnterGetEvents
              else flags
            some { s with pc := .entering flushed flags mark }
          else
            some (s.ret mark flushed.toNat)
      | _ => none
  | .enter result =>
      match s.pc with
      | .entering flushed flags mark =>
          (s.ring.kernelEnter { toSubmit := flushed, minComplete := 0, flags := flags }
            result).map fun (answer, sqes, sq) =>
              let s' :=
                { s with
                  ring := { s.ring with sqRing := sq }
                  pc := .idle
                  read := s.read + sqes.length }
              match answer with
              | .error _ => s'
              | .ok n => s'.ret mark n
      | _ => none
  | .kernel =>
      if s.ring.params.sqPoll then
        s.ring.sqRing.kernelConsume.map fun (_, sq) =>
          { s with ring := { s.ring with sqRing := sq }, read := s.read + 1 }
      else none
  | .kernelFlags flags =>
      some { s with ring := { s.ring with sqRing := s.ring.sqRing.kernelFlags flags } }

/-- **All that a step can do.** -/
inductive Transition (s : SubmitRun) : SubmitEvent → SubmitRun → Prop
  | queue {op flags userData err sq} (idle : s.pc = .idle)
      (queued : s.ring.sqRing.queueSQE op flags userData = some (err, sq)) :
      Transition s (.queueSQE op flags userData)
        { s with
          ring := { s.ring with sqRing := sq }
          queued := if err.isNone then s.queued + 1 else s.queued }
  | abandon {op flags userData} (idle : s.pc = .idle)
      (panics : s.ring.sqRing.queueSQE op flags userData = none) :
      Transition s (.queueSQE op flags userData)
        { s with ring := { s.ring with sqRing := s.ring.sqRing.abandonSQE } }
  | store (idle : s.pc = .idle) :
      Transition s .store
        { s with ring := { s.ring with sqRing := s.ring.sqRing.flushSQ.2 }, pc := .stored }
  | load (stored : s.pc = .stored) :
      Transition s .load
        { s with pc := .loaded (s.ring.sqRing.sq.kTail - s.ring.sqRing.sq.kHead) s.read }
  | due {flushed mark flags} (loaded : s.pc = .loaded flushed mark)
      (need : (s.ring.needsEnter 0).1 = true) :
      Transition s .check { s with pc := .entering flushed flags mark }
  | skip {flushed mark} (loaded : s.pc = .loaded flushed mark)
      (noNeed : (s.ring.needsEnter 0).1 = false) :
      Transition s .check (s.ret mark flushed.toNat)
  | failed {flushed flags mark errno} (entering : s.pc = .entering flushed flags mark) :
      Transition s (.enter (.failed errno)) { s with pc := .idle }
  | woken {flushed flags mark k} (entering : s.pc = .entering flushed flags mark)
      (thread : s.ring.params.sqPoll = true) :
      Transition s (.enter (.consumed k)) (s.ret mark flushed.toNat)
  | consumed {flushed flags mark k sqes sq} (entering : s.pc = .entering flushed flags mark)
      (noThread : s.ring.params.sqPoll = false)
      (many : SubmissionQueue.kernelConsumeMany k s.ring.sqRing = some (sqes, sq)) :
      Transition s (.enter (.consumed k))
        (({ s with
            ring := { s.ring with sqRing := sq }
            read := s.read + k } : SubmitRun).ret mark k)
  | kernel {sqe sq} (thread : s.ring.params.sqPoll = true)
      (consumed : s.ring.sqRing.kernelConsume = some (sqe, sq)) :
      Transition s .kernel
        { s with ring := { s.ring with sqRing := sq }, read := s.read + 1 }
  | flags {flags} :
      Transition s (.kernelFlags flags)
        { s with ring := { s.ring with sqRing := s.ring.sqRing.kernelFlags flags } }

theorem step_transition {s s' : SubmitRun} {e : SubmitEvent} (stepped : s.step e = some s') :
    Transition s e s' := by
  cases e with
  | queueSQE op flags userData =>
      simp only [step] at stepped
      split at stepped
      · next idle =>
        split at stepped
        · next queued =>
          cases stepped
          exact .queue idle queued
        · next panics =>
          cases stepped
          exact .abandon idle panics
      · cases stepped
  | store =>
      simp only [step] at stepped
      split at stepped
      · next idle =>
        cases stepped
        exact .store idle
      · cases stepped
  | load =>
      simp only [step] at stepped
      split at stepped
      · next stored =>
        cases stepped
        exact .load stored
      · cases stepped
  | check =>
      simp only [step] at stepped
      split at stepped
      · next flushed mark loaded =>
        split at stepped
        · next need =>
          cases stepped
          exact .due loaded need
        · next noNeed =>
          cases stepped
          exact .skip loaded (Bool.eq_false_iff.mpr noNeed)
      · cases stepped
  | enter result =>
      simp only [step] at stepped
      split at stepped
      · next flushed flags mark entering =>
        obtain ⟨⟨answer, sqes, sq⟩, entered, rfl⟩ := Option.map_eq_some_iff.mp stepped
        cases result with
        | failed errno =>
            cases entered
            exact .failed entering
        | consumed k =>
            simp only [Ring.kernelEnter, RingParams.enter] at entered
            split at entered
            · next thread =>
              cases entered
              exact .woken entering thread
            · next noThread =>
              split at entered
              · obtain ⟨⟨read, sq⟩, many, done⟩ := Option.map_eq_some_iff.mp entered
                cases done
                have length := (SubmissionQueue.kernelConsumeMany_spec k many).1
                rw [length]
                exact .consumed entering (Bool.eq_false_iff.mpr noThread) many
              · cases entered
      · cases stepped
  | kernel =>
      simp only [step] at stepped
      split at stepped
      · next thread =>
        obtain ⟨⟨sqe, sq⟩, consumed, rfl⟩ := Option.map_eq_some_iff.mp stepped
        exact .kernel thread consumed
      · cases stepped
  | kernelFlags flags =>
      cases stepped
      exact .flags

/-! ## The invariant -/

/-- The first SQE that a `Submit` would count. -/
def mark (s : SubmitRun) : ℕ := s.pc.held.elim s.read Prod.snd

/-- **What holds in every state of a run in which no SQE was counted twice.** -/
structure Inv (s : SubmitRun) : Prop where
  conserved : s.read + s.ring.sqRing.pending.length = s.queued
  stored : s.pc = .stored →
    s.ring.sqRing.visible.length = s.ring.sqRing.pending.length
  mark_le : s.mark ≤ s.read
  /-- All that was not read when `kHead` was loaded is counted. -/
  flushed : ∀ flushed mark, s.pc.held = some (flushed, mark) →
    mark + flushed.toNat = s.queued ∧ (s.ring.params.sqPoll = false → mark = s.read)
  below : ∀ c ∈ s.counted, c < s.queued
  /-- Without an SQ thread only SQEs that were read are counted. -/
  own : s.ring.params.sqPoll = false → ∀ c ∈ s.counted, c < s.read
  /-- From `mark` on, what was counted has no gaps. -/
  closed : ∀ c ∈ s.counted, ∀ x, s.mark ≤ x → x ≤ c → x ∈ s.counted
  length : s.counted.length = s.sum
  nodup : s.counted.Nodup

theorem inv_start {r : Ring} (fresh : r.sqRing.sq.Fresh) : Inv (start r) where
  conserved := by
    show 0 + r.sqRing.sq.pending.length = 0
    rw [fresh.pending]
    rfl
  stored := by rintro ⟨⟩
  mark_le := le_rfl
  flushed := by rintro _ _ ⟨⟩
  below := by simp [start]
  own := by simp [start]
  closed := by simp [start]
  length := rfl
  nodup := List.nodup_nil

variable {s s' : SubmitRun} {e : SubmitEvent}

theorem mark_of_held {flushed : UInt32} {mark : ℕ} (held : s.pc.held = some (flushed, mark)) :
    s.mark = mark := by
  rw [SubmitRun.mark, held]
  rfl

theorem mem_ret {mark n c : ℕ} :
    c ∈ (s.ret mark n).counted ↔ c ∈ s.counted ∨ (mark ≤ c ∧ c < mark + n) := by
  simp [ret, List.mem_range'_1]

/-- The sum of the counts grows by what the `Submit` counts. -/
theorem Inv.length_ret (inv : Inv s) (mark n : ℕ) :
    (s.ret mark n).counted.length = s.sum + n := by
  show (s.counted ++ List.range' mark n).length = s.sum + n
  rw [List.length_append, List.length_range', inv.length]

/-- A `Submit` whose count starts after all that was counted counts nothing twice. -/
theorem Inv.nodup_ret (inv : Inv s) {mark : ℕ} (new : ∀ c ∈ s.counted, c < mark) (n : ℕ) :
    (s.ret mark n).counted.Nodup := by
  refine inv.nodup.append List.nodup_range' ?_
  intro c old again
  have lt := new c old
  have le := (List.mem_range'_1.mp again).1
  omega

/-- What a `Submit` counts was queued. -/
theorem Inv.below_ret (inv : Inv s) {mark n : ℕ} (queued : mark + n ≤ s.queued) :
    ∀ c ∈ (s.ret mark n).counted, c < s.queued := by
  intro c mem
  rcases mem_ret.mp mem with old | ⟨-, lt⟩
  · exact inv.below c old
  · exact lt.trans_le queued

/-- A `Submit` that counts no SQE again may return. -/
theorem Inv.ret (inv : Inv s) {flushed : UInt32} {mark : ℕ}
    (held : s.pc.held = some (flushed, mark)) (thread : s.ring.params.sqPoll = true)
    (new : ∀ c ∈ s.counted, c < mark) : Inv (s.ret mark flushed.toNat) where
  conserved := inv.conserved
  stored := by rintro ⟨⟩
  mark_le := le_rfl
  flushed := by rintro _ _ ⟨⟩
  below := inv.below_ret (inv.flushed _ _ held).1.le
  own := by
    intro noThread
    change s.ring.params.sqPoll = false at noThread
    rw [thread] at noThread
    cases noThread
  closed := by
    intro c mem x le_x x_le
    change s.read ≤ x at le_x
    have le := inv.mark_le
    rw [mark_of_held held] at le
    apply mem_ret.mpr
    rcases mem_ret.mp mem with old | ⟨-, lt⟩
    · exact Or.inl (inv.closed c old x (by rw [mark_of_held held]; omega) x_le)
    · exact Or.inr ⟨by omega, by omega⟩
  length := inv.length_ret mark flushed.toNat
  nodup := inv.nodup_ret new flushed.toNat

/-- A `Submit` that counts an SQE again does so for the first one it counts. -/
theorem Inv.not_nodup_ret (inv : Inv s) {flushed : UInt32} {mark : ℕ}
    (held : s.pc.held = some (flushed, mark)) (again : ¬ ∀ c ∈ s.counted, c < mark) :
    ¬ (s.ret mark flushed.toNat).counted.Nodup := by
  push Not at again
  obtain ⟨c, mem, le⟩ := again
  have twice : mark ∈ s.counted :=
    inv.closed c mem mark (mark_of_held held).le le
  have below := inv.below c mem
  have total := (inv.flushed _ _ held).1
  intro nodup
  have apart := (List.nodup_append.mp nodup).2.2
  exact apart mark twice mark (List.mem_range'_1.mpr ⟨le_rfl, by omega⟩) rfl

/-- No SQE is counted again: on a ring with an SQ thread, the thread had read every SQE
that an earlier `Submit` has counted when this one loaded `kHead`. -/
def CountsNew (s : SubmitRun) : SubmitEvent → Prop
  | .check =>
      match s.pc with
      | .loaded _ mark => (s.ring.needsEnter 0).1 = false → ∀ c ∈ s.counted, c < mark
      | _ => True
  | .enter (.consumed _) =>
      match s.pc with
      | .entering _ _ mark => s.ring.params.sqPoll = true → ∀ c ∈ s.counted, c < mark
      | _ => True
  | _ => True

/-- The operation is not one whose `PrepSQE` panics in the slot it is handed. -/
def Prepares (s : SubmitRun) : SubmitEvent → Prop
  | .queueSQE op _ _ => s.ring.sqRing.sq.Prepares op
  | _ => True

theorem Inv.queue (inv : Inv s) {op : Operation} {flags : UInt8} {userData : UInt64}
    {err : Option RingError} {sq : SubmissionQueue} (idle : s.pc = .idle)
    (queued : s.ring.sqRing.queueSQE op flags userData = some (err, sq)) :
    Inv { s with
      ring := { s.ring with sqRing := sq }
      queued := if err.isNone then s.queued + 1 else s.queued } := by
  have conserved := inv.conserved
  rcases SubmissionQueue.queueSQE_cases queued with
    ⟨-, rfl, rfl⟩ | ⟨-, rfl, sqe, -, pushed, -⟩
  · exact inv
  · have pending : sq.pending = s.ring.sqRing.pending ++ [sqe] :=
      (Fifo.push_eq_some_iff.mp pushed).2.1
    refine ⟨?_, ?_, inv.mark_le, ?_, ?_, inv.own, inv.closed, inv.length, inv.nodup⟩
    · show s.read + sq.pending.length = s.queued + 1
      rw [pending, List.length_append, List.length_singleton]
      omega
    · intro stored
      change s.pc = .stored at stored
      rw [idle] at stored
      cases stored
    · intro flushed mark held
      change s.pc.held = some (flushed, mark) at held
      rw [idle] at held
      cases held
    · intro c mem
      exact (inv.below c mem).trans (Nat.lt_succ_self _)

theorem Inv.kernel (inv : Inv s) {sqe : SQEntry} {sq : SubmissionQueue}
    (thread : s.ring.params.sqPoll = true)
    (consumed : s.ring.sqRing.kernelConsume = some (sqe, sq)) :
    Inv { s with ring := { s.ring with sqRing := sq }, read := s.read + 1 } := by
  have pending := SubmissionQueue.pending_kernelConsume consumed
  have visible := (SubmissionQueue.kernelConsume_spec consumed).2.1
  have threaded : ¬ s.ring.params.sqPoll = false := by simp [thread]
  refine ⟨?_, ?_, ?_, ?_, inv.below, fun noThread => absurd noThread threaded, ?_, inv.length,
    inv.nodup⟩
  · show s.read + 1 + sq.pending.length = s.queued
    rw [← inv.conserved, pending, List.length_cons]
    omega
  · intro stored
    show sq.visible.length = sq.pending.length
    have same := inv.stored stored
    rw [visible, pending, List.length_cons, List.length_cons] at same
    omega
  · show s.pc.held.elim (s.read + 1) Prod.snd ≤ s.read + 1
    have le := inv.mark_le
    rw [SubmitRun.mark] at le
    cases held : s.pc.held with
    | none => exact le_rfl
    | some kept =>
        rw [held] at le
        exact Nat.le_succ_of_le le
  · intro flushed mark held
    exact ⟨(inv.flushed flushed mark held).1, fun noThread => absurd noThread threaded⟩
  · intro c mem x le
    apply inv.closed c mem x
    refine le_trans ?_ le
    show s.pc.held.elim s.read Prod.snd ≤ s.pc.held.elim (s.read + 1) Prod.snd
    cases s.pc.held with
    | none => exact Nat.le_succ _
    | some kept => exact le_rfl

/-- Without an SQ thread, `io_uring_enter` reads what `Submit` counts. -/
theorem Inv.consumed (inv : Inv s) {flushed : UInt32} {mark k : ℕ} {sqes : List SQEntry}
    {sq : SubmissionQueue} (held : s.pc.held = some (flushed, mark))
    (noThread : s.ring.params.sqPoll = false)
    (many : SubmissionQueue.kernelConsumeMany k s.ring.sqRing = some (sqes, sq)) :
    Inv (({ s with
        ring := { s.ring with sqRing := sq }
        read := s.read + k } : SubmitRun).ret mark k) := by
  obtain ⟨length, pending, -⟩ := SubmissionQueue.kernelConsumeMany_spec k many
  have total : s.read + (k + sq.pending.length) = s.queued := by
    rw [← inv.conserved, pending, List.length_append, length]
  have here : mark = s.read := (inv.flushed flushed mark held).2 noThread
  have new : ∀ c ∈ s.counted, c < mark := by
    rw [here]
    exact inv.own noThread
  refine ⟨?_, by rintro ⟨⟩, le_rfl, by rintro _ _ ⟨⟩, inv.below_ret (by omega), ?_, ?_,
    inv.length_ret mark k, inv.nodup_ret new k⟩
  · show s.read + k + sq.pending.length = s.queued
    omega
  · intro _ c mem
    show c < s.read + k
    rcases mem_ret.mp mem with old | ⟨-, lt⟩
    · have := new c old
      omega
    · omega
  · intro c mem x le_x x_le
    change s.read + k ≤ x at le_x
    apply mem_ret.mpr
    rcases mem_ret.mp mem with old | ⟨-, lt⟩
    · have := new c old
      omega
    · omega

theorem thread_of_noNeed (noNeed : (s.ring.needsEnter 0).1 = false) :
    s.ring.params.sqPoll = true := by
  unfold Ring.needsEnter SQ.needsEnter at noNeed
  split at noNeed
  · cases noNeed
  · next flag => simpa [RingParams.sqPoll] using flag

/-- **One step**: the invariant is kept if `QueueSQE` does not panic and no SQE is counted
again. -/
theorem Inv.step (inv : Inv s) (prepares : s.Prepares e) (new : s.CountsNew e)
    (stepped : s.step e = some s') : Inv s' := by
  cases step_transition stepped with
  | queue idle queued => exact inv.queue idle queued
  | abandon idle panics => exact absurd prepares (SubmissionQueue.queueSQE_eq_none_iff.mp panics)
  | store idle =>
      refine ⟨?_, fun _ => by simp, ?_, by rintro _ _ ⟨⟩, inv.below, inv.own, ?_, inv.length,
        inv.nodup⟩
      · show s.read + s.ring.sqRing.flushSQ.2.pending.length = s.queued
        rw [SubmissionQueue.pending_flushSQ]
        exact inv.conserved
      · exact le_rfl
      · intro c mem x le
        refine inv.closed c mem x ?_
        rw [SubmitRun.mark, idle]
        exact le
  | load stored =>
      have count : (s.ring.sqRing.sq.kTail - s.ring.sqRing.sq.kHead).toNat =
          s.ring.sqRing.pending.length := by
        rw [← inv.stored stored]
        exact (SQ.length_visible s.ring.sqRing.sq).symm
      refine ⟨inv.conserved, by rintro ⟨⟩, le_rfl, ?_, inv.below, inv.own, ?_, inv.length,
        inv.nodup⟩
      · rintro _ _ ⟨⟩
        refine ⟨?_, fun _ => rfl⟩
        rw [count]
        exact inv.conserved
      · intro c mem x le
        refine inv.closed c mem x ?_
        rw [SubmitRun.mark, stored]
        exact le
  | due loaded need =>
      have mark := inv.mark_le
      have flushed := inv.flushed
      have closed := inv.closed
      rw [SubmitRun.mark, loaded] at mark
      rw [loaded] at flushed
      simp only [SubmitRun.mark, loaded] at closed
      refine ⟨inv.conserved, by rintro ⟨⟩, mark, flushed, inv.below, inv.own, closed,
        inv.length, inv.nodup⟩
  | skip loaded noNeed =>
      simp only [CountsNew, loaded] at new
      exact inv.ret (by rw [loaded]; rfl) (thread_of_noNeed noNeed) (new noNeed)
  | failed entering =>
      refine ⟨inv.conserved, by rintro ⟨⟩, le_rfl, by rintro _ _ ⟨⟩, inv.below, inv.own, ?_,
        inv.length, inv.nodup⟩
      intro c mem x le
      exact inv.closed c mem x (inv.mark_le.trans le)
  | woken entering thread =>
      simp only [CountsNew, entering] at new
      exact inv.ret (by rw [entering]; rfl) thread (new thread)
  | consumed entering noThread many =>
      exact inv.consumed (by rw [entering]; rfl) noThread many
  | kernel thread consumed => exact inv.kernel thread consumed
  | flags =>
      exact ⟨inv.conserved, inv.stored, inv.mark_le, inv.flushed, inv.below, inv.own,
        inv.closed, inv.length, inv.nodup⟩

/-- A step that counts an SQE again ends in a state in which it is counted twice. -/
theorem Inv.not_nodup (inv : Inv s) (again : ¬ s.CountsNew e) (stepped : s.step e = some s') :
    ¬ s'.counted.Nodup := by
  cases step_transition stepped with
  | skip loaded noNeed =>
      simp only [CountsNew, loaded, noNeed, true_implies] at again
      exact inv.not_nodup_ret (by rw [loaded]; rfl) again
  | woken entering thread =>
      simp only [CountsNew, entering, thread, true_implies] at again
      exact inv.not_nodup_ret (by rw [entering]; rfl) again
  | due loaded need =>
      exfalso
      apply again
      simp [CountsNew, loaded, need]
  | consumed entering noThread many =>
      exfalso
      apply again
      simp [CountsNew, entering, noThread]
  | queue idle queued => exact absurd trivial again
  | abandon idle panics => exact absurd trivial again
  | store idle => exact absurd trivial again
  | load stored => exact absurd trivial again
  | failed entering => exact absurd trivial again
  | kernel thread consumed => exact absurd trivial again
  | flags => exact absurd trivial again

/-- Without an SQ thread every `Submit` enters the kernel and counts what is read there. -/
theorem countsNew_of_no_thread (noThread : s.ring.params.sqPoll = false) (e : SubmitEvent) :
    s.CountsNew e := by
  cases e with
  | check =>
      simp only [CountsNew]
      split
      · intro noNeed
        rw [thread_of_noNeed noNeed] at noThread
        cases noThread
      · trivial
  | enter result =>
      cases result with
      | failed errno => trivial
      | consumed k =>
          simp only [CountsNew]
          split
          · intro thread
            rw [thread] at noThread
            cases noThread
          · trivial
  | _ => trivial

theorem params_step (stepped : s.step e = some s') : s'.ring.params = s.ring.params := by
  cases step_transition stepped <;> rfl

theorem Inv.sum_le (inv : Inv s) : s.sum ≤ s.queued := by
  have inside : s.counted ⊆ List.range s.queued := fun c mem =>
    List.mem_range.mpr (inv.below c mem)
  have le := (List.subperm_of_subset inv.nodup inside).length_le
  rwa [inv.length, List.length_range] at le

/-! ## `Submit` in one piece -/

/-- `flushSQ` returns the distance from `kHead` to the tail it has stored. -/
theorem flushSQ_fst (q : SubmissionQueue) :
    q.flushSQ.1 = q.flushSQ.2.sq.kTail - q.flushSQ.2.sq.kHead := by
  obtain ⟨array, eq, -⟩ := q.wf.flushSQ_eq
  simp only [SubmissionQueue.flushSQ, eq]

/-- The state after a `Submit` with the given answer. -/
def answered (s : SubmitRun) (answer : Except RingError ℕ) (sqes : List SQEntry)
    (sq : SubmissionQueue) : SubmitRun :=
  let s' :=
    { s with
      ring := { s.ring with sqRing := sq }
      pc := .idle
      read := s.read + sqes.length }
  match answer with
  | .error _ => s'
  | .ok n => s'.ret s.read n

/-- **`Submit` without a kernel step in between** is `Ring.submit`. -/
theorem replay_submit {result : EnterResult} {answer : Except RingError ℕ}
    {sqes : List SQEntry} {sq : SubmissionQueue} (idle : s.pc = .idle)
    (submitted : s.ring.submit result = some (answer, sqes, sq)) :
    ∃ es, replay SubmitRun.step s ([.store, .load, .check] ++ es) =
      some (s.answered answer sqes sq) := by
  obtain ⟨r, flushed⟩ : ∃ r : Ring, r = { s.ring with sqRing := s.ring.sqRing.flushSQ.2 } :=
    ⟨_, rfl⟩
  have first : s.step .store = some { s with ring := r, pc := .stored } := by
    simp only [SubmitRun.step, idle, flushed]
  have second : ({ s with ring := r, pc := .stored } : SubmitRun).step .load =
      some { s with ring := r, pc := .loaded s.ring.sqRing.flushSQ.1 s.read } := by
    rw [flushSQ_fst, flushed]
    rfl
  simp only [Ring.submit, ← flushed] at submitted
  split at submitted
  · next need =>
    have same : r.params = s.ring.params := by rw [flushed]
    obtain ⟨flags, passed⟩ : ∃ flags, flags =
        if s.ring.params.flags &&& setupIOPoll = 1 then
          (r.needsEnter 0).2 ||| sysRingEnterGetEvents
        else (r.needsEnter 0).2 := ⟨_, rfl⟩
    rw [← passed] at submitted
    have third : ({ s with ring := r, pc := .loaded s.ring.sqRing.flushSQ.1 s.read } :
        SubmitRun).step .check =
          some { s with ring := r, pc := .entering s.ring.sqRing.flushSQ.1 flags s.read } := by
      simp only [SubmitRun.step, need, if_true, same, passed]
    refine ⟨[.enter result], ?_⟩
    rw [List.cons_append, replay, first, Option.bind_some, List.cons_append, replay, second,
      Option.bind_some, List.cons_append, replay, third, Option.bind_some, List.nil_append,
      replay]
    simp only [SubmitRun.step, submitted, Option.map_some, Option.bind_some, replay]
    rw [flushed]
    rfl
  · next noNeed =>
    cases submitted
    have third : ({ s with ring := r, pc := .loaded s.ring.sqRing.flushSQ.1 s.read } :
        SubmitRun).step .check = some
          (({ s with ring := r } : SubmitRun).ret s.read s.ring.sqRing.flushSQ.1.toNat) := by
      simp only [SubmitRun.step, noNeed, Bool.false_eq_true, if_false]
      rfl
    refine ⟨[], ?_⟩
    rw [List.append_nil, replay, first, Option.bind_some, replay, second, Option.bind_some,
      replay, third, Option.bind_some, replay, flushed]
    rfl

end SubmitRun

/-- **When no SQE is counted twice.**  Along every run, with or without an SQ thread, in which
no `QueueSQE` that is handed a slot is for an operation whose `PrepSQE` panics, the counts
`Submit` has returned are those of different SQEs, and so add up to no more than was
queued, in every state exactly if every `Submit` that returns meets `CountsNew`. -/
theorem submit_counts_iff {r : Ring} (fresh : r.sqRing.sq.Fresh)
    {p : List (SubmitRun × SubmitEvent)} {s : SubmitRun}
    (path : Path SubmitRun.step (.start r) p s) (prepared : ∀ x ∈ p, x.1.Prepares x.2) :
    (∀ t ∈ visited p s, t.counted.Nodup ∧ t.sum ≤ t.queued) ↔
      ∀ x ∈ p, x.1.CountsNew x.2 := by
  refine path.exact SubmitRun.Inv (fun _ => True)
    (fun t => t.counted.Nodup ∧ t.sum ≤ t.queued) SubmitRun.Prepares SubmitRun.CountsNew
    (SubmitRun.inv_start fresh) ?_ ?_ ?_ (fun _ _ => trivial) prepared
  · exact fun t inv _ => ⟨inv.nodup, inv.sum_le⟩
  · exact fun t e t' inv _ _ prepares new stepped => inv.step prepares new stepped
  · exact fun t e t' inv _ _ _ again stepped good => inv.not_nodup again stepped good.1

/-- Without an SQ thread there is no other condition. -/
theorem submit_counts_of_no_thread {r : Ring} (fresh : r.sqRing.sq.Fresh)
    (noThread : r.params.sqPoll = false) {p : List (SubmitRun × SubmitEvent)} {s : SubmitRun}
    (path : Path SubmitRun.step (.start r) p s) (prepared : ∀ x ∈ p, x.1.Prepares x.2) :
    s.counted.Nodup ∧ s.sum ≤ s.queued := by
  have inv : SubmitRun.Inv s ∧ s.ring.params = r.params := by
    refine path.invariant (fun s => SubmitRun.Inv s ∧ s.ring.params = r.params)
      SubmitRun.Prepares ⟨SubmitRun.inv_start fresh, rfl⟩ ?_ prepared
    rintro t e t' ⟨inv, same⟩ prepares stepped
    have alone : t.ring.params.sqPoll = false := by rw [same, noThread]
    refine ⟨inv.step prepares (SubmitRun.countsNew_of_no_thread alone e) stepped, ?_⟩
    rw [← same]
    exact SubmitRun.params_step stepped
  exact ⟨inv.1.nodup, inv.1.sum_le⟩

/-- A ring of two entries with an SQ thread. -/
def pollingRing : Ring :=
  { wrappingRing with params := { flags := setupSQPoll, features := featExtArg } }

/-- The thread reads the first SQE before the second `Submit`. -/
def readBetween : List SubmitEvent :=
  [.queueSQE nopOp 0 7, .store, .load, .check, .kernel, .queueSQE nopOp 0 8, .store, .load,
    .check]

/-- The equivalence at a run in which it holds. -/
theorem submit_counts_iff_read_between :
    ∃ p s, Path SubmitRun.step (.start pollingRing) p s ∧ s.counted = [0, 1] ∧
      ((∀ t ∈ visited p s, t.counted.Nodup ∧ t.sum ≤ t.queued) ↔
        ∀ x ∈ p, x.1.CountsNew x.2) :=
  ⟨_, _, path_record readBetween rfl, rfl,
    submit_counts_iff wrappingSQ_fresh (path_record readBetween rfl)
      (forall_record (by simp [readBetween, SubmitRun.Prepares]))⟩

/-- `Submit` is called again before the thread has read anything. -/
def readNothing : List SubmitEvent :=
  [.queueSQE nopOp 0 7, .store, .load, .check, .store, .load, .check]

/-- **One SQE is counted twice**: both calls return 1. -/
theorem submit_counts_twice :
    ∃ p s, Path SubmitRun.step (.start pollingRing) p s ∧ pollingRing.sqRing.sq.Fresh ∧
      s.pc = .idle ∧ s.queued = 1 ∧ s.counted = [0, 0] ∧ s.sum = 2 ∧ ¬ s.sum ≤ s.queued :=
  ⟨_, _, path_record readNothing rfl, wrappingSQ_fresh, rfl, rfl, rfl, rfl, by decide⟩

/-- A `Recv` into an empty slice panics, the caller recovers and submits. -/
def submitAfterPanic : List SubmitEvent :=
  [.queueSQE (recvOp 3 ⟨0, 0⟩ 0) 0 7, .store, .load, .check, .enter (.consumed 1)]

/-- **A slot that was abandoned is counted**, here on a ring without an SQ thread. -/
theorem submit_counts_abandoned_slot :
    ∃ p s, Path SubmitRun.step (.start wrappingRing) p s ∧
      wrappingRing.params.sqPoll = false ∧ s.pc = .idle ∧ s.queued = 0 ∧ s.sum = 1 :=
  ⟨_, _, path_record submitAfterPanic rfl, rfl, rfl, rfl, rfl⟩

end GoUring.Uring
