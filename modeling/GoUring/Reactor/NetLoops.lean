import GoUring.Reactor.NetDispatch

/-!
# Submitting and stopping in a network reactor

Two results about the loops of a network reactor, both independent of what the
requests are.

* `submitAllowed` is to be set whenever the submission queue holds SQEs that the
  kernel has not read.  The publisher clears it when it submits and sets it again
  only when the submit failed with `EBUSY` or `EAGAIN`; the count that `Submit`
  returns is thrown away.  So SQEs are stranded exactly when the kernel reads only
  some of those it was offered.
* The stop of the loops is orderly (`Orderly`): neither `Run` nor a consumer nor a
  publisher ever uses a channel that is closed.  Callers do not take part in it: `Queue`
  and `Cancel` send on `reqBuss`, which the publisher closes on its way out.  There is no
  panic if, loop by loop, all calls are over by then and none is begun later
  (`net_no_channel_panic`).
-/

namespace GoUring.Reactor

open Uring

namespace NetReactor

variable {n : ℕ} {s s' : NetReactor} {e : NetEvent}

/-! ## Stranded SQEs -/

/-- **No SQE is stranded.**  If a ring without an SQ thread holds SQEs that the
kernel has not read, the next signal submits them. -/
def NoStrandedSQE (n : ℕ) (s : NetReactor) : Prop :=
  ∀ l < n, (s.loops l).engine.sqPoll = false → (s.loops l).engine.sq.pending ≠ [] →
    (s.loops l).submitAllowed = 1

/-- A submit that fails does so because the kernel is short of resources. -/
def FailsRetryably : NetEvent → Prop
  | .signal _ (.failed errno) => errno = .ebusy ∨ errno = .eagain
  | _ => True

/-- A submit that succeeds has the kernel read all that is queued. -/
def SubmitsAll (s : NetReactor) : NetEvent → Prop
  | .signal l (.consumed k) => (s.loops l).shell.closed .submitSignal = false →
      (s.loops l).engine.sqPoll = false → (s.loops l).submitAllowed = 1 →
        k = (s.loops l).engine.sq.pending.length
  | _ => True

/-- **What a submit does to the flag and to the queue** of a ring without an SQ
thread. -/
theorem submitCase_noThread {e e' : Engine} {result : EnterResult} {flag : UInt32}
    (noThread : e.sqPoll = false)
    (done : NetLoop.submitCase 1 e result = some (flag, e')) :
    (∃ k, result = .consumed k ∧ flag = 0 ∧
        e.sq.pending.length = k + e'.sq.pending.length) ∨
      ∃ errno, result = .failed errno ∧ e'.sq.pending = e.sq.pending ∧
        flag = if errno = .ebusy ∨ errno = .eagain then 1 else 0 := by
  rw [NetLoop.submitCase, if_pos rfl] at done
  obtain ⟨⟨ret, e₁⟩, submitted, eq⟩ := Option.map_eq_some_iff.mp done
  rcases Engine.submit_noThread noThread submitted with
    ⟨k, rfl, rfl, length⟩ | ⟨errno, rfl, rfl, pending⟩
  · cases eq
    exact Or.inl ⟨k, rfl, rfl, length⟩
  · cases eq
    refine Or.inr ⟨errno, rfl, pending, ?_⟩
    simp only [RingError.is, Bool.or_eq_true, beq_iff_eq]

/-- A loop that is replaced by one with its flag set, or by one that has the same
flag and no more SQEs in its queue. -/
theorem noStranded_of_loop (good : s.NoStrandedSQE n) {l : ℕ} {loop : NetLoop}
    (loops : s'.loops = Function.update s.loops l loop)
    (kept : loop.engine.sqPoll = false → loop.engine.sq.pending ≠ [] →
      loop.submitAllowed = 1 ∨ ((s.loops l).engine.sqPoll = false ∧
        (s.loops l).engine.sq.pending ≠ [] ∧
        loop.submitAllowed = (s.loops l).submitAllowed)) : s'.NoStrandedSQE n := by
  intro l' lt noThread waiting
  rw [loops] at noThread waiting ⊢
  by_cases this : l' = l
  · subst this
    rw [Function.update_self] at noThread waiting ⊢
    rcases kept noThread waiting with allowed | ⟨before, waited, same⟩
    · exact allowed
    · rw [same]
      exact good l' lt before waited
  · rw [Function.update_of_ne this] at noThread waiting ⊢
    exact good l' lt noThread waiting

/-- A signal after which the publisher submits, on a ring without an SQ thread. -/
theorem signal_submits {l : ℕ} {result : EnterResult}
    (opened : (s.loops l).shell.closed .submitSignal = false)
    (noThread : (s.loops l).engine.sqPoll = false) (allowed : (s.loops l).submitAllowed = 1)
    (done : s.signalCase l result = some s') :
    ∃ loop, s'.loops = Function.update s.loops l loop ∧ loop.engine.sqPoll = false ∧
      ((∃ k, result = .consumed k ∧ loop.submitAllowed = 0 ∧
          (s.loops l).engine.sq.pending.length = k + loop.engine.sq.pending.length) ∨
        ∃ errno, result = .failed errno ∧
          loop.submitAllowed = if errno = .ebusy ∨ errno = .eagain then 1 else 0) := by
  obtain ⟨-, -, ⟨closed, -⟩ | ⟨pc, idle, flag, e, -, -, -, submitted, rfl⟩⟩ :=
    signalCase_cases done
  · rw [opened] at closed
    cases closed
  · obtain ⟨-, -, thread⟩ := submitCase_spec submitted
    refine ⟨_, rfl, thread.trans noThread, ?_⟩
    rw [allowed] at submitted
    have noThread' : ((s.loops l).engine.goto pc idle).sqPoll = false := noThread
    rcases submitCase_noThread noThread' submitted with
      ⟨k, read, cleared, length⟩ | ⟨errno, failed, -, flagged⟩
    · exact Or.inl ⟨k, read, cleared, length⟩
    · exact Or.inr ⟨errno, failed, flagged⟩

/-- The signal keeps SQEs from being stranded if all of them are read. -/
theorem noStranded_signal (good : s.NoStrandedSQE n) {l : ℕ} {result : EnterResult}
    (retryable : FailsRetryably (.signal l result)) (all : s.SubmitsAll (.signal l result))
    (done : s.signalCase l result = some s') : s'.NoStrandedSQE n := by
  by_cases submits : (s.loops l).shell.closed .submitSignal = false ∧
      (s.loops l).engine.sqPoll = false ∧ (s.loops l).submitAllowed = 1
  · obtain ⟨opened, noThread, allowed⟩ := submits
    obtain ⟨loop, loops, -, ⟨k, rfl, -, length⟩ | ⟨errno, rfl, flag⟩⟩ :=
      signal_submits opened noThread allowed done
    · refine noStranded_of_loop good loops fun _ waiting => ?_
      -- All were read, so none is waiting.
      have read := all opened noThread allowed
      have empty : loop.engine.sq.pending.length = 0 := by omega
      exact absurd (List.length_eq_zero_iff.mp empty) waiting
    · exact noStranded_of_loop good loops fun _ _ => Or.inl (flag.trans (if_pos retryable))
  · obtain ⟨-, -, ⟨-, rfl⟩ | ⟨pc, idle, flag, e, opened, -, -, submitted, rfl⟩⟩ :=
      signalCase_cases done
    · exact good
    · obtain ⟨-, -, thread⟩ := submitCase_spec submitted
      refine noStranded_of_loop good rfl fun noThread waiting => ?_
      have before : (s.loops l).engine.sqPoll = false := thread.symm.trans noThread
      have cleared : (s.loops l).submitAllowed ≠ 1 := fun allowed =>
        submits ⟨opened, before, allowed⟩
      rw [NetLoop.submitCase, if_neg cleared] at submitted
      cases submitted
      exact Or.inr ⟨before, waiting, rfl⟩

/-- A signal with which the kernel reads only some of the SQEs strands the rest. -/
theorem stranded_of_partial {l : ℕ} {result : EnterResult} (lt : l < n)
    (part : ¬ s.SubmitsAll (.signal l result)) (done : s.signalCase l result = some s') :
    ¬ s'.NoStrandedSQE n := by
  intro good
  cases result with
  | failed errno => exact part trivial
  | consumed k =>
      simp only [SubmitsAll, Classical.not_imp] at part
      obtain ⟨opened, noThread, allowed, some_left⟩ := part
      obtain ⟨loop, loops, thread, ⟨j, read, cleared, length⟩ | ⟨errno, failed, -⟩⟩ :=
        signal_submits opened noThread allowed done
      · cases read
        have here : s'.loops l = loop := by rw [loops, Function.update_self]
        have waiting : loop.engine.sq.pending ≠ [] := by
          intro empty
          rw [empty, List.length_nil] at length
          exact some_left length.symm
        have flagged := good l lt
        rw [here] at flagged
        have set := flagged thread waiting
        rw [cleared] at set
        cases set
      · cases failed

theorem noStranded_step (good : s.NoStrandedSQE n) (retryable : FailsRetryably e)
    (all : s.SubmitsAll e) (stepped : s.step n e = some s') : s'.NoStrandedSQE n := by
  obtain ⟨-, transition⟩ := step_transition stepped
  cases transition with
  | @draw k args here =>
      intro l lt
      rw [(s.loops_drawNonce k args).1]
      exact good l lt
  | send here opened =>
      exact noStranded_of_loop good rfl fun noThread waiting => Or.inr ⟨noThread, waiting, rfl⟩
  | sendCancel here opened =>
      exact noStranded_of_loop good rfl fun noThread waiting => Or.inr ⟨noThread, waiting, rfl⟩
  | request lt done =>
      obtain ⟨req, rest, err, e, -, -, -, ⟨loops, -⟩, -⟩ := requestCase_cases done
      exact noStranded_of_loop good loops fun _ _ => Or.inl rfl
  | signal lt done => exact noStranded_signal good retryable all done
  | consumer lt done =>
      obtain ⟨-, sq, thread, -, -⟩ := Engine.consumerStep_spec done
      refine noStranded_of_loop good rfl fun noThread waiting => Or.inr ⟨?_, ?_, rfl⟩
      · exact thread.symm.trans noThread
      · rw [← sq]
        exact waiting
  | @dispatch l _ lt done =>
      obtain ⟨cqe, e, taken, outcome⟩ := dispatchOne_cases done
      obtain ⟨-, sq, thread, -, -⟩ := Engine.take_spec taken
      have kept : ∀ {s' : NetReactor},
          s'.loops = Function.update s.loops l ((s.loops l).withEngine e) →
            s'.NoStrandedSQE n := by
        intro s' loops
        refine noStranded_of_loop good loops fun noThread waiting => Or.inr ⟨?_, ?_, rfl⟩
        · exact thread.symm.trans noThread
        · rw [← sq]
          exact waiting
      rcases outcome with ⟨-, rfl⟩ | ⟨-, k, -, rfl⟩ | ⟨-, -, rfl⟩
      · exact kept rfl
      · exact kept rfl
      · exact good
  | kernel lt done =>
      obtain ⟨-, -, thread, -, read, pending, -, none⟩ := Engine.kernelStep_spec done
      refine noStranded_of_loop good rfl fun noThread waiting => Or.inr ⟨?_, ?_, rfl⟩
      · exact thread.symm.trans noThread
      · rw [pending, none (thread.symm.trans noThread), List.nil_append]
        exact waiting
  | @stop event o done =>
      obtain ⟨-, sq, thread, -⟩ := stopStep_frame done
      refine noStranded_of_loop good rfl fun noThread waiting => Or.inr ⟨?_, ?_, rfl⟩
      · exact thread.symm.trans noThread
      · have same : (s.loops o.loop).engine.sq = o.shell.engine.sq := sq.symm
        rw [same]
        exact waiting
  | _ => exact good

/-- **SQEs are stranded exactly when the kernel reads only some of those offered.**
Along any run in which a failing submit fails with `EBUSY` or `EAGAIN`, no state
has a stranded SQE if and only if no successful submit left an SQE in the
queue. -/
theorem net_no_stranded_sqe_iff (n : ℕ) (some_loop : 0 < n) (rings : ℕ → ReactorRing true)
    {p : List (NetReactor × NetEvent)} {s : NetReactor}
    (path : Runs.Path (step n) (start n some_loop rings) p s)
    (retryable : ∀ x ∈ p, FailsRetryably x.2) :
    (∀ t ∈ Runs.visited p s, t.NoStrandedSQE n) ↔ ∀ x ∈ p, x.1.SubmitsAll x.2 := by
  refine path.exact (NoStrandedSQE n) (fun _ => True) (NoStrandedSQE n)
    (fun _ e => FailsRetryably e) SubmitsAll ?_ (fun _ good _ => good)
    (fun _ _ _ good _ _ retryable all stepped =>
      noStranded_step good retryable all stepped)
    ?_ (fun _ _ => trivial) retryable
  · intro l _ _ waiting
    exact absurd (rings l).sq_empty waiting
  · intro s e s' _ _ _ _ part stepped
    obtain ⟨-, transition⟩ := step_transition stepped
    cases transition with
    | signal lt done => exact stranded_of_partial lt part done
    | _ => exact absurd trivial part

/-- Two requests are queued, and the kernel reads `k` of their SQEs. -/
def twoQueued (k : ℕ) : List NetEvent :=
  [.queue 0 (pingArgs 0), .draw 0, .store 0, .send 0, .queue 1 (pingArgs 0), .draw 1, .store 1,
    .send 1, .request 0 0 0, .request 0 0 0, .signal 0 (.consumed k)]

theorem failsRetryably_of_record {s₀ : NetReactor} {es : List NetEvent}
    (retryable : ∀ e ∈ es, FailsRetryably e) :
    ∀ x ∈ Runs.record (step n) s₀ es, FailsRetryably x.2 :=
  fun _ mem => retryable _ (Runs.mem_of_mem_record es mem)

/-- The equivalence at a run whose submit is read to the end. -/
theorem net_no_stranded_sqe_iff_two_queued :
    ∃ p s, Runs.Path (step 1) (start 1 Nat.one_pos (twoSlots true)) p s ∧
      (s.loops 0).engine.sq.pending = [] ∧
      ((∀ t ∈ Runs.visited p s, t.NoStrandedSQE 1) ↔ ∀ x ∈ p, x.1.SubmitsAll x.2) :=
  ⟨_, _, Runs.path_record (twoQueued 2) rfl, rfl,
    net_no_stranded_sqe_iff 1 Nat.one_pos (twoSlots true) (Runs.path_record (twoQueued 2) rfl)
      (failsRetryably_of_record (by simp [twoQueued, FailsRetryably]))⟩

/-- **The kernel reads one of two SQEs, and the other one is stranded.** -/
theorem net_partial_submit_strands_sqe :
    ∃ p s, Runs.Path (step 1) (start 1 Nat.one_pos (twoSlots true)) p s ∧
      (∀ x ∈ p, FailsRetryably x.2) ∧ (s.loops 0).engine.sqPoll = false ∧
      (s.loops 0).engine.sq.pending.length = 1 ∧ (s.loops 0).submitAllowed = 0 :=
  ⟨_, _, Runs.path_record (twoQueued 1) rfl,
    failsRetryably_of_record (by simp [twoQueued, FailsRetryably]), rfl, rfl, rfl⟩

/-! ## The stop -/

/-- The stop of the loops is orderly. -/
def StopOrderly (n : ℕ) (s : NetReactor) : Prop :=
  Orderly n netExits s.run fun l => (s.loops l).shell

/-- **No channel was misused**: nothing was sent on a closed channel, and no channel
was closed twice. -/
def NoChannelPanic (s : NetReactor) : Prop := ∀ panic, s.panicked ≠ some (.channel panic)

/-- **The calls keep clear of the stop.**  A call of `Queue`, `QueueWithDeadline` or `Cancel`
is begun before the publisher of its loop has closed `reqBuss`, and when the publisher does
so, no call for the loop is in progress. -/
def KeepsClear (n : ℕ) (s : NetReactor) : NetEvent → Prop
  | .queue _ args => (s.loops (loopForFd n args.op.fd)).shell.closed .reqBuss = false
  | .cancel _ id => (s.loops (loopForFd n (RequestID.fd id))).shell.closed .reqBuss = false
  | .stop (.closePublisher l) =>
      (s.loops l).shell.publisher.closes = some .reqBuss →
        ∀ k, (s.calls k).destination n ≠ some l
  | _ => True

/-- No call is in progress for a loop whose `reqBuss` is closed. -/
def Clear (n : ℕ) (s : NetReactor) : Prop :=
  ∀ l k, (s.loops l).shell.closed .reqBuss = true → (s.calls k).destination n ≠ some l

theorem stopOrderly_start (some_loop : 0 < n) (rings : ℕ → ReactorRing true) :
    (start n some_loop rings).StopOrderly n where
  inRange := trivial
  loops := by
    intro l _
    refine ⟨⟨nofun, fun far => ?_⟩, fun far => ?_, ⟨nofun, nofun⟩, ⟨nofun, fun far => ?_⟩, ?_⟩
    · simp only [start, RunPC.progress] at far
      omega
    · simp only [start, RunPC.progress] at far
      omega
    · simp only [start, RunPC.progress] at far
      omega
    · exact fun _ _ => rfl

/-- A step inside a loop that neither stops anybody nor closes anything. -/
theorem StopOrderly.of_loop (orderly : s.StopOrderly n) {l : ℕ} {loop : NetLoop}
    (loops : s'.loops = Function.update s.loops l loop) (run : s'.run = s.run)
    (consumer : loop.engine.pc = (s.loops l).engine.pc ∨
      (s.loops l).engine.pc.stopped = false ∧ loop.engine.pc.stopped = false)
    (publisher : loop.shell.publisher = (s.loops l).shell.publisher)
    (closed : loop.shell.closed = (s.loops l).shell.closed) : s'.StopOrderly n := by
  unfold StopOrderly
  rw [loops, run]
  show Orderly n netExits s.run (NetLoop.shell ∘ Function.update s.loops l loop)
  rw [Function.comp_update]
  exact Orderly.internal orderly consumer (Or.inl publisher) closed

/-- The signal case: the consumer was not told to stop, so `submitSignal` is
open. -/
theorem stopOrderly_signal (orderly : s.StopOrderly n) {l : ℕ} {result : EnterResult}
    (lt : l < n) (done : s.signalCase l result = some s') :
    s'.StopOrderly n ∧ s'.panicked = s.panicked := by
  obtain ⟨-, active, ⟨closed, rfl⟩ | ⟨pc, idle, flag, e, -, -, active', submitted, rfl⟩⟩ :=
    signalCase_cases done
  · have opened := (orderly.loops l lt).submitSignal_open (by decide) active
    rw [closed] at opened
    cases opened
  · obtain ⟨-, pc_eq, -⟩ := submitCase_spec submitted
    refine ⟨orderly.of_loop rfl rfl (Or.inr ⟨active, ?_⟩) rfl rfl, rfl⟩
    show e.pc.stopped = false
    rw [pc_eq]
    exact active'

/-- **A step keeps the stop orderly**, and misuses no channel unless it is the send of a
call on a `reqBuss` that was closed. -/
theorem stopOrderly_step (orderly : s.StopOrderly n) (stepped : s.step n e = some s') :
    s'.StopOrderly n ∧ ∀ panic, s'.panicked = some (.channel panic) →
      panic = .sendOnClosed .reqBuss ∧ ¬ s.Clear n := by
  obtain ⟨alive, transition⟩ := step_transition stepped
  have calm : ∀ {t : NetReactor}, t.panicked = s.panicked → ∀ panic : ChanPanic,
      t.panicked = some (.channel panic) →
        panic = .sendOnClosed .reqBuss ∧ ¬ s.Clear n := by
    intro t same panic misused
    rw [same, alive] at misused
    cases misused
  cases transition with
  | queue here => exact ⟨orderly, calm rfl⟩
  | cancel here => exact ⟨orderly, calm rfl⟩
  | @draw k args here =>
      obtain ⟨loops, run, panicked⟩ := s.loops_drawNonce k args
      refine ⟨?_, calm panicked⟩
      unfold StopOrderly
      rw [loops, run]
      exact orderly
  | store here fast => exact ⟨orderly, calm rfl⟩
  | @sendClosed k l target closed =>
      refine ⟨orderly, fun panic misused => ⟨?_, fun clear => ?_⟩⟩
      · cases misused
        rfl
      · exact clear l k closed (NetCall.destination_of_target target)
  | send here opened => exact ⟨orderly.of_loop rfl rfl (Or.inl rfl) rfl rfl, calm rfl⟩
  | sendCancel here opened => exact ⟨orderly.of_loop rfl rfl (Or.inl rfl) rfl rfl, calm rfl⟩
  | request lt done =>
      obtain ⟨req, rest, err, e, -, -, queued, ⟨loops, -, run, -, -, panicked⟩, -⟩ :=
        requestCase_cases done
      obtain ⟨pc, -, -⟩ := NetLoop.queueRequest_spec queued
      exact ⟨orderly.of_loop loops run (Or.inl pc) rfl rfl, calm panicked⟩
  | signal lt done =>
      obtain ⟨after, panicked⟩ := stopOrderly_signal orderly lt done
      exact ⟨after, calm panicked⟩
  | consumer lt done =>
      obtain ⟨-, -, -, active, active'⟩ := Engine.consumerStep_spec done
      exact ⟨orderly.of_loop rfl rfl (Or.inr ⟨active, active'⟩) rfl rfl, calm rfl⟩
  | dispatch lt done =>
      obtain ⟨cqe, e, taken, outcome⟩ := dispatchOne_cases done
      obtain ⟨-, -, -, active, active'⟩ := Engine.take_spec taken
      rcases outcome with ⟨-, rfl⟩ | ⟨-, k, -, rfl⟩ | ⟨-, -, rfl⟩
      · exact ⟨orderly.of_loop rfl rfl (Or.inr ⟨active, active'⟩) rfl rfl, calm rfl⟩
      · exact ⟨orderly.of_loop rfl rfl (Or.inr ⟨active, active'⟩) rfl rfl, calm rfl⟩
      · exact ⟨orderly, fun panic misused => by cases misused⟩
  | kernel lt done =>
      obtain ⟨-, pc, -⟩ := Engine.kernelStep_spec done
      exact ⟨orderly.of_loop rfl rfl (Or.inl pc) rfl rfl, calm rfl⟩
  | @stop event o done =>
      obtain ⟨quiet, after⟩ := Orderly.stop orderly (by decide) (by decide) (by decide) done
      refine ⟨?_, calm ?_⟩
      · show Orderly n netExits o.run (NetLoop.shell ∘ Function.update s.loops o.loop _)
        rw [Function.comp_update]
        exact after
      · show o.panic.map ReactorPanic.channel = _
        rw [quiet, alive]
        rfl

/-- The stop closes `reqBuss` only where a publisher is about to. -/
theorem closed_of_stopStep {event : StopEvent} {o : StopOutcome Empty} {run : RunPC}
    {shell : ℕ → Shell Empty} (done : stopStep n netExits run shell event = some o)
    (closed : o.shell.closed .reqBuss = true) :
    (shell o.loop).closed .reqBuss = true ∨
      event = .closePublisher o.loop ∧ (shell o.loop).publisher.closes = some .reqBuss := by
  cases stopStep_transition done with
  | @closeConsumer l lt closing => exact Or.inl closed
  | @closePublisher l ch rest lt closing =>
      by_cases this : ch = .reqBuss
      · refine Or.inr ⟨rfl, ?_⟩
        rw [closing, this]
        rfl
      · change Function.update (shell l).closed ch true .reqBuss = true at closed
        rw [Function.update_of_ne (Ne.symm this)] at closed
        exact Or.inl closed
  | _ => exact Or.inl closed

/-- A step inside a loop that neither begins a call nor closes anything. -/
theorem Clear.of_loop (clear : s.Clear n) {l : ℕ} {loop : NetLoop}
    (loops : s'.loops = Function.update s.loops l loop)
    (closed : loop.shell.closed = (s.loops l).shell.closed)
    (calls : ∀ k l', (s'.calls k).destination n = some l' →
      (s.calls k).destination n = some l') : s'.Clear n := by
  intro l' k shut bound
  refine clear l' k ?_ (calls k l' bound)
  rw [loops] at shut
  by_cases this : l' = l
  · subst this
    rw [Function.update_self, closed] at shut
    exact shut
  · rwa [Function.update_of_ne this] at shut

theorem Clear.pushRequest (clear : s.Clear n) (l : ℕ) (req : SubSqeRequest) :
    (s.pushRequest l req).Clear n := clear.of_loop rfl rfl fun _ _ => id

/-- A call moves on, and is bound for a loop that is open, if for any. -/
theorem Clear.of_call (clear : s.Clear n) {k : ℕ} {call : NetCall} (loops : s'.loops = s.loops)
    (calls : s'.calls = Function.update s.calls k call)
    (bound : ∀ l, call.destination n = some l → (s.loops l).shell.closed .reqBuss = false) :
    s'.Clear n := by
  intro l j shut there
  rw [loops] at shut
  rw [calls] at there
  by_cases this : j = k
  · subst this
    rw [Function.update_self] at there
    rw [bound l there] at shut
    cases shut
  · rw [Function.update_of_ne this] at there
    exact clear l j shut there

/-- A loop that a call in progress is bound for has its `reqBuss` open. -/
theorem Clear.opened (clear : s.Clear n) {k l : ℕ} (there : (s.calls k).destination n = some l) :
    (s.loops l).shell.closed .reqBuss = false :=
  Bool.eq_false_iff.mpr fun shut => clear l k shut there

theorem Clear.step (clear : s.Clear n) (keeps : s.KeepsClear n e)
    (stepped : s.step n e = some s') : s'.Clear n := by
  obtain ⟨-, transition⟩ := step_transition stepped
  cases transition with
  | queue here =>
      refine clear.of_call rfl rfl fun l there => ?_
      cases there
      exact keeps
  | cancel here =>
      refine clear.of_call rfl rfl fun l there => ?_
      cases there
      exact keeps
  | @draw k args here =>
      obtain ⟨call, calls, bound⟩ := s.calls_drawNonce k args
      refine clear.of_call (s.loops_drawNonce k args).1 calls fun l there =>
        clear.opened (k := k) ?_
      rw [here]
      exact (bound n).symm.trans there
  | @store k args nonce serial here fast =>
      refine clear.of_call rfl rfl fun l there => clear.opened (k := k) ?_
      rw [here]
      exact there
  | sendClosed target closed => exact clear
  | send here opened => exact (clear.pushRequest _ _).of_call rfl rfl nofun
  | sendCancel here opened => exact (clear.pushRequest _ _).of_call rfl rfl nofun
  | request lt done =>
      obtain ⟨req, rest, err, e, -, -, -, ⟨loops, calls, -⟩, -⟩ := requestCase_cases done
      exact clear.of_loop loops rfl fun k l' there => calls ▸ there
  | signal lt done =>
      obtain ⟨-, -, ⟨-, rfl⟩ | ⟨pc, idle, flag, e, -, -, -, -, rfl⟩⟩ := signalCase_cases done
      · exact clear
      · exact clear.of_loop rfl rfl fun _ _ => id
  | consumer lt done => exact clear.of_loop rfl rfl fun _ _ => id
  | dispatch lt done =>
      obtain ⟨cqe, e, -, ⟨-, rfl⟩ | ⟨-, k, -, rfl⟩ | ⟨-, -, rfl⟩⟩ := dispatchOne_cases done
      · exact clear.of_loop rfl rfl fun _ _ => id
      · exact clear.of_loop rfl rfl fun _ _ => id
      · exact clear
  | kernel lt done => exact clear.of_loop rfl rfl fun _ _ => id
  | @stop event o done =>
      intro l k shut there
      change (Function.update s.loops o.loop { s.loops o.loop with shell := o.shell }
        l).shell.closed .reqBuss = true at shut
      by_cases this : l = o.loop
      · subst this
        rw [Function.update_self] at shut
        rcases closed_of_stopStep done shut with before | ⟨rfl, closes⟩
        · exact clear o.loop k before there
        · -- The publisher is closing the channel in this step.
          exact keeps closes k there
      · rw [Function.update_of_ne this] at shut
        exact clear l k shut there

/-- **When nobody panics on a closed channel.**  In every run the only misuse of a channel is
a send on a closed `reqBuss`: none is closed twice, and `submitSignal` is not sent on after
it was closed.  In every run whose calls keep clear of the stop there is no misuse at
all. -/
theorem net_no_channel_panic (n : ℕ) (some_loop : 0 < n) (rings : ℕ → ReactorRing true)
    {p : List (NetReactor × NetEvent)} {s : NetReactor}
    (path : Runs.Path (step n) (start n some_loop rings) p s) :
    (∀ t ∈ Runs.visited p s, ∀ panic, t.panicked = some (.channel panic) →
      panic = .sendOnClosed .reqBuss) ∧
    ((∀ x ∈ p, x.1.KeepsClear n x.2) → ∀ t ∈ Runs.visited p s, t.NoChannelPanic) := by
  constructor
  · intro t mem
    obtain ⟨q, -, run⟩ := path.exists_of_visited mem
    have inv := run.invariant_of_step (fun s => s.StopOrderly n ∧ ∀ panic,
      s.panicked = some (.channel panic) → panic = .sendOnClosed .reqBuss)
      ⟨stopOrderly_start some_loop rings, nofun⟩ fun s e s' inv stepped => ?_
    · exact inv.2
    · obtain ⟨orderly, misuse⟩ := stopOrderly_step inv.1 stepped
      exact ⟨orderly, fun panic misused => (misuse panic misused).1⟩
  · intro keeps t mem
    obtain ⟨q, short, run⟩ := path.exists_of_visited mem
    have inv := run.invariant (fun s => s.StopOrderly n ∧ s.Clear n ∧ s.NoChannelPanic)
      (KeepsClear n) ⟨stopOrderly_start some_loop rings, nofun, nofun⟩ ?_
      fun x here => keeps x (short.subset here)
    · exact inv.2.2
    · rintro s e s' ⟨orderly, clear, -⟩ keeps stepped
      obtain ⟨orderly', misuse⟩ := stopOrderly_step orderly stepped
      exact ⟨orderly', clear.step keeps stepped,
        fun panic misused => (misuse panic misused).2 clear⟩

/-- A whole stop of one loop, with the calls of `early` before it and those of
`late` after it. -/
def stopping (early late : List NetEvent) : List NetEvent :=
  early ++ [.signal 0 (.consumed 0), .consumer 0 .wait, .consumer 0 (.entered (some .etime)),
    .stop .ctxDone, .stop .stopConsumer, .stop (.closeConsumer 0), .stop .awaitConsumer,
    .stop .stopPublisher, .stop (.closePublisher 0), .stop .awaitPublisher,
    .stop (.closePublisher 0), .stop (.closePublisher 0)] ++ late

/-- A request whose call is over, and then the stop. -/
theorem net_no_channel_panic_stopping :
    ∃ p s, Runs.Path (step 1) (start 1 Nat.one_pos oneSlot) p s ∧ s.run = .returned ∧
      (s.loops 0).shell.closed .reqBuss = true ∧ ∀ t ∈ Runs.visited p s, t.NoChannelPanic := by
  have path : Runs.Path (step 1) (start 1 Nat.one_pos oneSlot)
      (Runs.record (step 1) (start 1 Nat.one_pos oneSlot)
        (stopping [.queue 0 (pingArgs 0), .draw 0, .store 0, .send 0] [])) _ :=
    Runs.path_record _ rfl
  refine ⟨_, _, path, rfl, rfl, (net_no_channel_panic 1 Nat.one_pos oneSlot path).2 ?_⟩
  refine Runs.forall_record_cons rfl rfl ?_
  -- Up to the first close, which is that of `stopPublisherCh`.
  iterate 11 refine Runs.forall_record_cons rfl trivial ?_
  refine Runs.forall_record_cons rfl nofun ?_
  refine Runs.forall_record_cons rfl trivial ?_
  refine Runs.forall_record_cons rfl nofun ?_
  -- The last close is that of `reqBuss`; call 0 has returned, and there is no other one.
  refine Runs.forall_record_cons rfl ?_ nofun
  intro closes k
  match k with
  | 0 => nofun
  | k + 1 => nofun

/-- **A `Queue` after the stop panics**: it sends on the closed `reqBuss`. -/
theorem net_queue_after_stop_panics :
    ∃ p s, Runs.Path (step 1) (start 1 Nat.one_pos oneSlot) p s ∧ s.run = .returned ∧
      s.panicked = some (.channel (.sendOnClosed .reqBuss)) :=
  ⟨_, _, Runs.path_record
    (stopping [] [.queue 0 (pingArgs 0), .draw 0, .store 0, .send 0]) rfl, rfl, rfl⟩

end NetReactor

end GoUring.Reactor
