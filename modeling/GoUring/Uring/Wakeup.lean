import GoUring.Uring.Publication

/-!
# Waking the SQ thread

`Submit` stores `kTail` and then reads the flags; the SQ thread stores `sqNeedWakeup` and then
reads `kTail`.  One of the two must see the other, or the thread sleeps on SQEs that `Submit`
has handed in and nobody wakes it (`Stranded`).  The thread has a full barrier between the two.
Whether the library has one depends on the build: a locked store is one, an ordinary store is
not, and may still be in the buffer when the flags are read.

The argument for the thread side is one invariant of both builds: a thread that is not running
has its flag set in memory (`Wakeable.flagged`), so that a `Submit` that comes later enters the
kernel.  What the locked store adds is that `kTail` never waits in the buffer (`Settled`).
-/

namespace GoUring.Uring

open Runs StoreBuffer

/-! ## The flag -/

theorem or_needWakeup (flags : UInt32) : (flags ||| sqNeedWakeup) &&& sqNeedWakeup ≠ 0 := by
  intro zero
  have bit := congrArg (fun x : UInt32 => x.toBitVec.getLsbD 0) zero
  simp [sqNeedWakeup] at bit

theorem reportOverflow_and_needWakeup (flags : UInt32) (waiting : Bool) :
    reportOverflow flags waiting &&& sqNeedWakeup = flags &&& sqNeedWakeup := by
  cases waiting with
  | true =>
      have apart : sqCQOverflow &&& sqNeedWakeup = 0 := rfl
      show (flags ||| sqCQOverflow) &&& sqNeedWakeup = _
      apply UInt32.toBitVec_inj.mp
      ext i hi
      have bit := congrArg (fun x : UInt32 => x.toBitVec[i]) apart
      simp only [UInt32.toBitVec_and, UInt32.toBitVec_or, BitVec.getElem_and,
        BitVec.getElem_or] at bit ⊢
      rw [Bool.and_or_distrib_right, bit]
      simp
  | false =>
      have other : ~~~sqCQOverflow &&& sqNeedWakeup = sqNeedWakeup := rfl
      show flags &&& ~~~sqCQOverflow &&& sqNeedWakeup = _
      rw [UInt32.and_assoc, other]

namespace SharedSQ

/-- A finished `Submit` has handed in SQEs, and the thread sleeps. -/
def Stranded (s : SharedSQ) : Prop := s.thread = .asleep ∧ s.pc = .idle ∧ s.own.kTail ≠ s.head

/-- The thread looks again after a `Submit` whose store of `kTail` has not reached memory. -/
def LooksEarly (s : SharedSQ) (e : PublishEvent) : Prop :=
  e = .recheck ∧ s.pc = .idle ∧ s.shared.memory.kTail = s.head ∧ s.own.kTail ≠ s.head

/-- A thread that is not running has asked to be woken, and sleeps on an empty queue unless a
`Submit` is about to wake it. -/
structure Wakeable (s : SharedSQ) : Prop where
  flagged : s.thread ≠ .running → s.shared.memory.kFlags &&& sqNeedWakeup ≠ 0
  served : ¬ Stranded s

variable {s s' : SharedSQ} {build : AtomicBuild} {e : PublishEvent}

/-- The library reads the flags the kernel wrote last. -/
theorem own_kFlags (b : Buffered SQMemory SQStore) :
    (b.own SQStore.write).kFlags = b.memory.kFlags :=
  (commit_kHead _ _).2

/-- Others do not touch `kTail`. -/
theorem own_kTail_env {f : SQMemory → SQMemory} (b : Buffered SQMemory SQStore)
    (apart : ∀ w m, SQStore.write w (f m) = f (SQStore.write w m))
    (same : ∀ m, (f m).kTail = m.kTail) :
    ((b.env f).own SQStore.write).kTail = (b.own SQStore.write).kTail := by
  rw [Buffered.own_env _ apart, same]

theorem wakeable_start (s₀ : SQ) : Wakeable (start s₀) where
  flagged := fun stopped => absurd rfl stopped
  served := fun stranded => by simp [Stranded, start] at stranded

/-- Only a thread that looks early is left behind. -/
theorem wakeable_step (wakeable : Wakeable s) (late : ¬ LooksEarly s e)
    (stepped : s.step build e = some s') : Wakeable s' := by
  obtain ⟨flagged, served⟩ := wakeable
  cases e with
  | queueSQE op flags userData partials =>
      simp only [step] at stepped
      split at stepped
      · next pc =>
        split at stepped
        · cases stepped
          exact ⟨flagged, served⟩
        · cases stepped
          refine ⟨flagged, fun stranded => served ⟨stranded.1, pc, ?_⟩⟩
          have tail := stranded.2.2
          rw [SharedSQ.own, Buffered.own_issue, commit_slots] at tail
          exact tail
        · -- Nothing was stored, and nothing was flushed.
          cases stepped
          exact ⟨flagged, fun stranded => served ⟨stranded.1, pc, stranded.2.2⟩⟩
      · cases stepped
  | flushSQ =>
      simp only [step] at stepped
      split at stepped
      · cases stepped
        refine ⟨fun stopped => ?_, fun stranded => by cases stranded.2.1⟩
        show (build.release _ _).memory.kFlags &&& _ ≠ 0
        rw [← own_kFlags, AtomicBuild.own_release, own_kFlags]
        exact flagged stopped
      · cases stepped
  | needsEnter =>
      simp only [step] at stepped
      split at stepped
      · split at stepped
        · cases stepped
          exact ⟨flagged, fun stranded => by cases stranded.2.1⟩
        · next clear =>
          cases stepped
          refine ⟨flagged, fun stranded => ?_⟩
          have asleep : s.thread = .asleep := stranded.1
          have raised := flagged (by rw [asleep]; decide)
          rw [← own_kFlags s.shared] at raised
          exact clear (bne_iff_ne.mpr raised)
      · cases stepped
  | enter =>
      simp only [step] at stepped
      split at stepped
      · split at stepped
        · cases stepped
          exact ⟨fun stopped => absurd rfl stopped, fun stranded => by cases stranded.1⟩
        · next awake =>
          cases stepped
          refine ⟨fun stopped => ?_, fun stranded => awake stranded.1⟩
          show (s.shared.own _).kFlags &&& _ ≠ 0
          rw [own_kFlags]
          exact flagged stopped
      · cases stepped
  | drain =>
      obtain ⟨shared, drained, rfl⟩ := Option.map_eq_some_iff.mp stepped
      have own : shared.own SQStore.write = s.own := Buffered.own_drain _ drained
      refine ⟨?_, fun stranded => served ⟨stranded.1, stranded.2.1, ?_⟩⟩
      · have flags : shared.memory.kFlags = s.shared.memory.kFlags := by
          rw [← own_kFlags, ← own_kFlags, own]
          rfl
        rw [flags]
        exact flagged
      · rw [← own]
        exact stranded.2.2
  | kHead =>
      simp only [step] at stepped
      split at stepped
      · cases stepped
      · cases stepped
        refine ⟨flagged, fun stranded => served ⟨stranded.1, stranded.2.1, ?_⟩⟩
        have tail := stranded.2.2
        rw [SharedSQ.own, own_kTail_env (f := fun m => { m with kHead := m.kHead + 1 }) _
          (fun w m => by cases w <;> rfl) fun m => rfl] at tail
        exact tail
  | consume =>
      simp only [step] at stepped
      split at stepped
      · next can =>
        cases stepped
        have running : s.thread = .running := can.1
        refine ⟨flagged, fun stranded => ?_⟩
        have asleep : s.thread = .asleep := stranded.1
        rw [running] at asleep
        cases asleep
      · cases stepped
  | setFlag =>
      simp only [step] at stepped
      split at stepped
      · cases stepped
        exact ⟨fun _ => or_needWakeup _, fun stranded => by cases stranded.1⟩
      · cases stepped
  | recheck =>
      simp only [step] at stepped
      split at stepped
      · next awake =>
        split at stepped
        · next none =>
          cases stepped
          refine ⟨fun _ => flagged (by rw [awake]; decide), fun stranded => ?_⟩
          exact late ⟨rfl, stranded.2.1, none, stranded.2.2⟩
        · cases stepped
          exact ⟨fun stopped => absurd rfl stopped, fun stranded => by cases stranded.1⟩
      · cases stepped
  | overflow raised =>
      cases stepped
      refine ⟨fun stopped => ?_, fun stranded => served ⟨stranded.1, stranded.2.1, ?_⟩⟩
      · show reportOverflow _ _ &&& _ ≠ 0
        rw [reportOverflow_and_needWakeup]
        exact flagged stopped
      · have tail := stranded.2.2
        rw [SharedSQ.own, withFlags, own_kTail_env
          (f := fun m => { m with kFlags := reportOverflow m.kFlags raised }) _
          (fun w m => by cases w <;> rfl) fun m => rfl] at tail
        exact tail

/-- What is left of a `Submit` that enters the kernel. -/
def finish : PublishPC → List PublishEvent
  | .idle => []
  | .flushed => [.needsEnter, .enter]
  | .entering => [.enter]

theorem replay_enter (build : AtomicBuild) (asleep : s.thread = .asleep)
    (waiting : s.own.kTail ≠ s.head) (entering : s.pc = .entering) :
    ∃ t, replay (step build) s [.enter] = some t ∧
      t.thread = .running ∧ t.shared.memory.kTail ≠ t.head ∧ t.pc = .idle := by
  let entered := { s with shared := s.shared.fence SQStore.write, pc := .idle }
  refine ⟨{ entered.withFlags (fun flags => flags &&& ~~~sqNeedWakeup) with thread := .running },
    ?_, rfl, waiting, rfl⟩
  simp only [replay, step, entering, asleep]
  rfl

/-- A thread that sleeps on SQEs is woken by the `Submit` under way. -/
theorem Wakeable.woken (build : AtomicBuild) (wakeable : Wakeable s) (asleep : s.thread = .asleep)
    (waiting : s.own.kTail ≠ s.head) :
    ∃ t, replay (step build) s (finish s.pc) = some t ∧
      t.thread = .running ∧ t.shared.memory.kTail ≠ t.head ∧ t.pc = .idle := by
  cases pc : s.pc with
  | idle => exact absurd ⟨asleep, pc, waiting⟩ wakeable.served
  | entering => exact replay_enter build asleep waiting pc
  | flushed =>
      have raised := wakeable.flagged (by rw [asleep]; decide)
      rw [← own_kFlags] at raised
      have enters : s.step build .needsEnter = some { s with pc := .entering } := by
        simp only [step, pc]
        exact if_pos (bne_iff_ne.mpr raised)
      obtain ⟨t, rest, woken⟩ := replay_enter build
        (s := { s with pc := .entering }) asleep waiting rfl
      refine ⟨t, ?_, woken⟩
      rw [finish, replay, enters]
      exact rest

/-! ## The locked store -/

/-- No store of `kTail` waits in the buffer. -/
def Settled (s : SharedSQ) : Prop := ∀ w ∈ s.shared.buffer, ∃ a sqe, w = SQStore.slot a sqe

theorem Settled.own_kTail (settled : Settled s) : s.own.kTail = s.shared.memory.kTail := by
  have slots : ∀ (ws : List SQStore) (m : SQMemory), (∀ w ∈ ws, ∃ a sqe, w = SQStore.slot a sqe) →
      (commit SQStore.write ws m).kTail = m.kTail := by
    intro ws
    induction ws with
    | nil => exact fun m _ => rfl
    | cons w ws ih =>
        intro m all
        obtain ⟨a, sqe, rfl⟩ := all w (List.mem_cons_self ..)
        rw [commit_cons, ih _ fun w mem => all w (List.mem_cons_of_mem _ mem)]
        rfl
  exact slots _ _ settled

theorem settled_step (settled : Settled s) (stepped : s.step .atomic e = some s') :
    Settled s' := by
  cases e with
  | queueSQE op flags userData partials =>
      simp only [step] at stepped
      split at stepped
      · split at stepped
        · cases stepped
          exact settled
        · cases stepped
          intro w mem
          rcases List.mem_append.mp mem with old | new
          · exact settled w old
          · obtain ⟨sqe, -, rfl⟩ := List.mem_map.mp new
            exact ⟨_, _, rfl⟩
        · cases stepped
          exact settled
      · cases stepped
  | flushSQ =>
      simp only [step] at stepped
      split at stepped
      · cases stepped
        intro w mem
        change w ∈ (AtomicBuild.release .atomic s.shared s.sq.stores).buffer at mem
        generalize s.sq.stores = stores at mem
        cases stores with
        | nil => exact settled w mem
        | cons first stores => cases mem
      · cases stepped
  | needsEnter =>
      simp only [step] at stepped
      split at stepped
      · split at stepped <;> cases stepped <;> exact settled
      · cases stepped
  | enter =>
      simp only [step] at stepped
      split at stepped
      · split at stepped <;> cases stepped <;> exact fun w mem => by cases mem
      · cases stepped
  | drain =>
      obtain ⟨shared, drained, rfl⟩ := Option.map_eq_some_iff.mp stepped
      intro w mem
      unfold Buffered.drain at drained
      split at drained
      · cases drained
      · next first rest buffer =>
        cases drained
        refine settled w ?_
        rw [buffer]
        exact List.mem_cons_of_mem _ mem
  | kHead | consume | setFlag =>
      simp only [step] at stepped
      split at stepped <;> cases stepped
      exact settled
  | recheck =>
      simp only [step] at stepped
      split at stepped
      · split at stepped <;> cases stepped <;> exact settled
      · cases stepped
  | overflow raised =>
      cases stepped
      exact settled

theorem Settled.not_looksEarly (settled : Settled s) : ¬ LooksEarly s e := by
  rintro ⟨-, -, empty, waiting⟩
  exact waiting (settled.own_kTail.trans empty)

theorem wakeable_of_atomic {s₀ : SQ} {p : List (SharedSQ × PublishEvent)}
    (path : Path (step .atomic) (start s₀) p s) : Wakeable s := by
  refine (path.invariant_of_step (fun s => Settled s ∧ Wakeable s)
    ⟨fun w mem => by simp [start] at mem, wakeable_start s₀⟩ fun s e s' inv stepped => ?_).2
  exact ⟨settled_step inv.1 stepped, wakeable_step inv.2 inv.1.not_looksEarly stepped⟩

/-- Looking early leaves SQEs behind. -/
theorem stranded_of_looksEarly (early : LooksEarly s e) (stepped : s.step build e = some s') :
    Stranded s' := by
  obtain ⟨rfl, idle, empty, waiting⟩ := early
  simp only [step] at stepped
  split at stepped
  · rw [if_pos empty] at stepped
    cases stepped
    exact ⟨rfl, idle, waiting⟩
  · cases stepped

end SharedSQ

/-- **With `atomic.go` no wake-up is lost.**  In every state of every run, if the SQ thread sleeps
while there are SQEs that were handed in, a `Submit` is under way, and it ends with a running
thread that sees them. -/
theorem submit_wakes_sq_thread {s₀ : SQ} {p : List (SharedSQ × PublishEvent)} {s : SharedSQ}
    (path : Path (SharedSQ.step .atomic) (SharedSQ.start s₀) p s) (asleep : s.thread = .asleep)
    (waiting : s.own.kTail ≠ s.head) :
    s.pc ≠ .idle ∧
      ∃ t, replay (SharedSQ.step .atomic) s (SharedSQ.finish s.pc) = some t ∧
        t.thread = .running ∧ t.shared.memory.kTail ≠ t.head ∧ t.pc = .idle := by
  have wakeable := SharedSQ.wakeable_of_atomic path
  exact ⟨fun idle => wakeable.served ⟨asleep, idle, waiting⟩, wakeable.woken .atomic asleep waiting⟩

/-- The thread has gone to sleep when an SQE is handed in. -/
theorem submit_wakes_sq_thread_asleep :
    ∃ p s, Path (SharedSQ.step .atomic) (SharedSQ.start wrappingSQ) p s ∧
      s.thread = .asleep ∧
      ∃ t, replay (SharedSQ.step .atomic) s (SharedSQ.finish s.pc) = some t ∧
        t.thread = .running ∧ t.shared.memory.kTail ≠ t.head ∧ t.pc = .idle := by
  have path : Path (SharedSQ.step .atomic) (SharedSQ.start wrappingSQ) _ _ :=
    path_record [.setFlag, .recheck, .queueSQE nopOp 0 7 [], .flushSQ] rfl
  exact ⟨_, _, path, rfl, (submit_wakes_sq_thread path rfl (by decide)).2⟩

/-- **When a wake-up is lost**, with either build.  SQEs are left behind in a run exactly if the
thread looks again after a `Submit` whose store of `kTail` is still in the buffer. -/
theorem wakeup_lost_iff (build : AtomicBuild) {s₀ : SQ} {p : List (SharedSQ × PublishEvent)}
    {s : SharedSQ} (path : Path (SharedSQ.step build) (SharedSQ.start s₀) p s) :
    (∀ t ∈ visited p s, ¬ t.Stranded) ↔ ∀ x ∈ p, ¬ SharedSQ.LooksEarly x.1 x.2 :=
  path.exact SharedSQ.Wakeable (fun _ => True) (fun t => ¬ t.Stranded) (fun _ _ => True)
    (fun s e => ¬ SharedSQ.LooksEarly s e) (SharedSQ.wakeable_start s₀)
    (fun _ wakeable _ => wakeable.served)
    (fun _ _ _ wakeable _ _ _ late stepped => SharedSQ.wakeable_step wakeable late stepped)
    (fun _ _ _ _ _ _ _ early stepped served =>
      served (SharedSQ.stranded_of_looksEarly (not_not.mp early) stepped))
    (fun _ _ => trivial) fun _ _ => trivial

/-- With the build tag `amd64_atomic` it happens.  `Submit` reads the flags before the thread sets
one, the thread reads `kTail` before the store reaches memory; the SQE then stays in memory, the
thread asleep. -/
theorem wakeup_lost_plain :
    ∃ p s, Path (SharedSQ.step .plain) (SharedSQ.start wrappingSQ) p s ∧
      s.Stranded ∧ s.shared.buffer = [] ∧ s.seen.visible.map SQEntry.userData = [7] ∧
      ¬ ∀ x ∈ p, ¬ SharedSQ.LooksEarly x.1 x.2 := by
  have path : Path (SharedSQ.step .plain) (SharedSQ.start wrappingSQ) _ _ :=
    path_record [.queueSQE nopOp 0 7 [], .flushSQ, .needsEnter, .setFlag, .recheck, .drain,
      .drain, .drain] rfl
  refine ⟨_, _, path, ⟨rfl, rfl, by decide⟩, rfl, rfl, fun late => ?_⟩
  exact (wakeup_lost_iff .plain path).mpr late _ (mem_visited_last _ _) ⟨rfl, rfl, by decide⟩

end GoUring.Uring
