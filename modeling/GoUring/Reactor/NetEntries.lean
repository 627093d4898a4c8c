import GoUring.Reactor.NetCancel

/-!
# The entries of the rings

The bag of user data under way says which requests a loop holds.  Who wants to know what
the kernel finds in an SQE, or what a completion says, has to follow the entries
themselves.  `Engine.sqes` are the SQEs that are queued or in the kernel and
`Engine.cqes` the completions not dispatched yet, oldest first.

`Entries` says what a step of a network reactor does to them: SQEs appear when the
publisher takes a request, a completion is appended when the kernel completes an SQE, and
a dispatch takes the oldest one off.  Nothing else adds an SQE or touches a completion.
-/

namespace GoUring.Reactor

open Uring

namespace Engine

/-- The SQEs that are queued or in the kernel. -/
def sqes (e : Engine) : List SQEntry := e.sq.pending ++ e.inflight

/-- From `e` to `e'` no SQE was added, and the completions are the same. -/
structure Keeps (e e' : Engine) : Prop where
  sqes : e'.sqes ⊆ e.sqes
  cqes : e'.cqes = e.cqes

variable {e e' e'' : Engine}

theorem Keeps.refl (e : Engine) : e.Keeps e := ⟨fun _ mem => mem, rfl⟩

theorem Keeps.trans (first : e.Keeps e') (second : e'.Keeps e'') : e.Keeps e'' :=
  ⟨fun _ mem => first.sqes (second.sqes mem), second.cqes.trans first.cqes⟩

theorem Keeps.of_eq (sq : e'.sq = e.sq) (inflight : e'.inflight = e.inflight)
    (cqes : e'.cqes = e.cqes) : e.Keeps e' := by
  refine ⟨?_, cqes⟩
  rw [Engine.sqes, Engine.sqes, sq, inflight]
  exact fun _ mem => mem

/-- The kernel reads SQEs. -/
theorem keeps_read {sq : SubmissionQueue} {read : List SQEntry}
    (pending : e.sq.pending = read ++ sq.pending) :
    e.Keeps { e.withSQ sq with inflight := e.inflight ++ read } := by
  refine ⟨fun sqe mem => ?_, rfl⟩
  change sqe ∈ sq.pending ++ (e.inflight ++ read) at mem
  rw [sqes, pending]
  simp only [List.mem_append] at mem ⊢
  tauto

theorem keeps_submit {result : EnterResult} {ret : Except RingError ℕ}
    (submitted : e.submit result = some (ret, e')) : e.Keeps e' := by
  obtain ⟨read, sq, -, rfl, pending, -⟩ := submit_spec submitted
  exact keeps_read pending

theorem keeps_consumerStep {net : Bool} {c : ConsumerEvent}
    (stepped : e.consumerStep net c = some e') : e.Keeps e' := by
  obtain ⟨sq, inflight, cqes, -⟩ := consumerStep_entries stepped
  exact .of_eq sq inflight cqes

/-- The completions a step of the kernel posts. -/
def posts (e : Engine) : KernelEvent → List CQEvent
  | .complete i res flags =>
      (e.inflight[i]?.map fun sqe =>
        { userData := sqe.userData, res := res, flags := flags }).toList
  | _ => []

/-- **The kernel** adds no SQE, and appends what it posts. -/
theorem kernelStep_entries {k : KernelEvent} (stepped : e.kernelStep k = some e') :
    e'.sqes ⊆ e.sqes ∧ e'.cqes = e.cqes ++ e.posts k := by
  cases k with
  | consume =>
      simp only [kernelStep] at stepped
      split at stepped
      · obtain ⟨⟨sqe, sq⟩, consumed, rfl⟩ := Option.map_eq_some_iff.mp stepped
        have pending : e.sq.pending = [sqe] ++ sq.pending :=
          SubmissionQueue.pending_kernelConsume consumed
        obtain ⟨sqes, cqes⟩ := keeps_read pending
        exact ⟨sqes, cqes.trans (List.append_nil _).symm⟩
      · cases stepped
  | complete i res flags =>
      obtain ⟨sqe, found, done⟩ := Option.bind_eq_some_iff.mp stepped
      obtain ⟨mid, posted, rfl⟩ := Option.map_eq_some_iff.mp done
      obtain ⟨ready, -, sq, -, inflight, pc⟩ := kernelPost_spec posted
      refine ⟨fun x mem => ?_, ?_⟩
      · change x ∈ mid.sq.pending ++ mid.inflight.eraseIdx i at mem
        rw [sq, inflight] at mem
        rcases List.mem_append.mp mem with queued | read
        · exact List.mem_append_left _ queued
        · exact List.mem_append_right _ (List.mem_of_mem_eraseIdx read)
      · show mid.consumer.ready.drop mid.pc.taken = _
        rw [ready, pc, List.drop_append_of_le_length e.taken_le_ready, posts, found]
        rfl
  | flags flags =>
      cases stepped
      exact ⟨fun _ mem => mem, (List.append_nil _).symm⟩

theorem keeps_threadReads :
    ∀ (reads : ℕ) {e e' : Engine}, e.threadReads reads = some e' → e.Keeps e' := by
  intro reads
  induction reads with
  | zero =>
      intro e e' done
      cases done
      exact .refl e
  | succ reads ih =>
      intro e e' done
      obtain ⟨mid, first, rest⟩ := Option.bind_eq_some_iff.mp done
      obtain ⟨sqes, cqes⟩ := kernelStep_entries first
      exact Keeps.trans ⟨sqes, cqes.trans (List.append_nil _)⟩ (ih rest)

/-- Queueing adds at most what the operation encodes. -/
theorem queueSQE_entries {op : Operation} {flags : UInt8} {userData : UInt64}
    {err : Option RingError} (queued : e.queueSQE op flags userData = some (err, e')) :
    (∀ sqe ∈ e'.sqes, sqe ∈ e.sqes ∨ ∃ old, op.encode flags userData old = some sqe) ∧
      e'.cqes = e.cqes := by
  rcases queueSQE_spec queued with ⟨-, -, rfl⟩ | ⟨-, -, _, sq, rfl, -⟩
  · exact ⟨fun _ mem => Or.inl mem, rfl⟩
  · refine ⟨fun sqe mem => ?_, rfl⟩
    rcases queueSQE_encoded queued with ⟨-, -, same⟩ | ⟨-, -, old, new, encoded, pending, -⟩
    · exact Or.inl (same ▸ mem)
    · change sqe ∈ (e.withSQ sq).sq.pending ++ e.inflight at mem
      rw [pending, List.append_assoc] at mem
      rcases List.mem_append.mp mem with old' | rest
      · exact Or.inl (List.mem_append_left _ old')
      · rcases List.mem_append.mp rest with last | read
        · obtain rfl := List.mem_singleton.mp last
          exact Or.inr ⟨old, encoded⟩
        · exact Or.inl (List.mem_append_right _ read)

end Engine

/-- **The publisher** adds SQEs for the request it takes. -/
theorem NetLoop.queueRequest_entries {e e' : Engine} {req : SubSqeRequest} {spec : UInt64}
    {reads : ℕ} {err : Option RingError}
    (done : queueRequest e req spec reads = some (err, e')) :
    (∀ sqe ∈ e'.sqes, sqe ∈ e.sqes ∨ req.Encodes sqe) ∧ e'.cqes = e.cqes := by
  unfold queueRequest at done
  split at done
  · obtain ⟨sqes, cqes⟩ := Engine.queueSQE_entries done
    exact ⟨fun sqe mem => (sqes sqe mem).imp_right fun encoded => Or.inl ⟨_, encoded⟩, cqes⟩
  · next timed =>
    obtain ⟨⟨err₁, e₁⟩, first, rest⟩ := Option.bind_eq_some_iff.mp done
    obtain ⟨sqes₁, cqes₁⟩ := Engine.queueSQE_entries first
    have op : ∀ sqe ∈ e₁.sqes, sqe ∈ e.sqes ∨ req.Encodes sqe := fun sqe mem =>
      (sqes₁ sqe mem).imp_right fun encoded => Or.inl ⟨_, encoded⟩
    cases err₁ with
    | some err =>
        cases rest
        exact ⟨op, cqes₁⟩
    | none =>
        obtain ⟨e₂, read, second⟩ := Option.bind_eq_some_iff.mp rest
        obtain ⟨sqes₂, cqes₂⟩ := Engine.keeps_threadReads reads read
        obtain ⟨sqes₃, cqes₃⟩ := Engine.queueSQE_entries second
        refine ⟨fun sqe mem => ?_, cqes₃.trans (cqes₂.trans cqes₁)⟩
        rcases sqes₃ sqe mem with old | link
        · exact op sqe (sqes₂ old)
        · exact Or.inr (Or.inr ⟨timed, spec, link⟩)

theorem NetLoop.keeps_submitCase {flag flag' : UInt32} {e e' : Engine} {result : EnterResult}
    (done : NetLoop.submitCase flag e result = some (flag', e')) : e.Keeps e' := by
  unfold NetLoop.submitCase at done
  split at done
  · obtain ⟨⟨ret, e₁⟩, submitted, eq⟩ := Option.map_eq_some_iff.mp done
    have keeps := Engine.keeps_submit submitted
    cases ret with
    | ok count =>
        cases eq
        exact keeps
    | error err =>
        cases eq
        exact keeps
  · cases done
    exact .refl e

/-- The event may post or take a completion of loop `l`. -/
def NetEvent.Touches (l : ℕ) : NetEvent → Prop
  | .dispatch l' => l' = l
  | .kernel l' _ => l' = l
  | _ => False

namespace NetReactor

/-- **What a step does to the entries of the ring of loop `l`.** -/
inductive Entries (s : NetReactor) (l : ℕ) : NetEvent → NetReactor → Prop
  | keeps {e : NetEvent} {s' : NetReactor} (other : ¬ e.Touches l)
      (keeps : (s.loops l).engine.Keeps (s'.loops l).engine) : Entries s l e s'
  | queue {reads : ℕ} {spec : UInt64} {req : SubSqeRequest} {s' : NetReactor}
      (taken : req ∈ (s.loops l).reqBuss)
      (sqes : ∀ sqe ∈ (s'.loops l).engine.sqes, sqe ∈ (s.loops l).engine.sqes ∨ req.Encodes sqe)
      (cqes : (s'.loops l).engine.cqes = (s.loops l).engine.cqes) :
      Entries s l (.request l spec reads) s'
  | kernel {event : KernelEvent} {s' : NetReactor}
      (sqes : (s'.loops l).engine.sqes ⊆ (s.loops l).engine.sqes)
      (cqes : (s'.loops l).engine.cqes =
        (s.loops l).engine.cqes ++ (s.loops l).engine.posts event) :
      Entries s l (.kernel l event) s'
  /-- A dispatch that finds no callback. -/
  | halt {s' : NetReactor} (loops : s'.loops l = s.loops l) (invoked : s'.invoked = s.invoked) :
      Entries s l (.dispatch l) s'
  /-- A dispatch that skips a completion, or invokes a callback with it. -/
  | dispatch {cqe : CQEvent} {s' : NetReactor}
      (sqes : (s'.loops l).engine.sqes ⊆ (s.loops l).engine.sqes)
      (head : (s.loops l).engine.cqes = cqe :: (s'.loops l).engine.cqes)
      (outcome : (Reserved cqe.userData ∧ s'.invoked = s.invoked) ∨
        ∃ k, s'.invoked = s.invoked ++ [(k, cqe)]) :
      Entries s l (.dispatch l) s'

section Steps

variable {n : ℕ} {s s' : NetReactor} {e : NetEvent}

/-- A step inside one loop is nothing to the others. -/
theorem Entries.of_loop {l l' : ℕ} {loop : NetLoop}
    (loops : s'.loops = Function.update s.loops l' loop) (elsewhere : l ≠ l' → ¬ e.Touches l)
    (inside : l = l' → (s'.loops l).engine = loop.engine → Entries s l e s') :
    Entries s l e s' := by
  by_cases this : l = l'
  · refine inside this ?_
    rw [loops, this, Function.update_self]
  · refine .keeps (elsewhere this) ?_
    rw [loops, Function.update_of_ne this]
    exact .refl _

/-- A step that keeps the entries of the loop it is inside. -/
theorem Entries.of_keeps {l l' : ℕ} {loop : NetLoop}
    (loops : s'.loops = Function.update s.loops l' loop)
    (keeps : (s.loops l').engine.Keeps loop.engine) (other : ¬ e.Touches l) :
    Entries s l e s' := by
  refine .of_loop loops (fun _ => other) fun same engine => ?_
  subst same
  refine .keeps other ?_
  rw [engine]
  exact keeps

/-- A dispatch that takes a completion. -/
theorem entries_take {l l' : ℕ} {cqe : CQEvent} {engine : Engine}
    (taken : (s.loops l').engine.take = some (cqe, engine))
    (loops : s'.loops = Function.update s.loops l' ((s.loops l').withEngine engine))
    (outcome : (Reserved cqe.userData ∧ s'.invoked = s.invoked) ∨
      ∃ k, s'.invoked = s.invoked ++ [(k, cqe)]) : Entries s l (.dispatch l') s' := by
  refine .of_loop loops (fun other same => other same.symm) fun same self => ?_
  subst same
  obtain ⟨sq, inflight, head⟩ := Engine.take_entries taken
  change (s'.loops l).engine = engine at self
  refine .dispatch ?_ (by rw [self, head]) outcome
  rw [self, Engine.sqes, Engine.sqes, sq, inflight]
  exact fun _ mem => mem

/-- **Every step handles the entries as `Entries` says.** -/
theorem step_entries (stepped : s.step n e = some s') (l : ℕ) : Entries s l e s' := by
  have still : (s.loops l).engine.Keeps (s.loops l).engine := .refl _
  obtain ⟨-, transition⟩ := step_transition stepped
  cases transition with
  | @draw k args here =>
      obtain ⟨loops, -, -⟩ := s.loops_drawNonce k args
      exact .keeps id (by rw [loops]; exact still)
  | send here opened => exact .of_keeps rfl (.refl _) id
  | sendCancel here opened => exact .of_keeps rfl (.refl _) id
  | request lt done =>
      obtain ⟨req, rest, err, engine, -, head, queued, ⟨loops, -⟩, -⟩ := requestCase_cases done
      obtain ⟨sqes, cqes⟩ := NetLoop.queueRequest_entries queued
      refine .of_loop loops (fun _ => id) fun same self => ?_
      subst same
      change (s'.loops l).engine = engine at self
      refine .queue ?_ (by rw [self]; exact sqes) (by rw [self]; exact cqes)
      rw [head]
      exact List.mem_cons_self
  | signal lt done =>
      obtain ⟨taken, -, ⟨-, rfl⟩ | ⟨pc, idle, flag, engine, -, -, -, submitted, rfl⟩⟩ :=
        signalCase_cases done
      · exact .keeps id still
      · have moved : (s.loops _).engine.Keeps ((s.loops _).engine.goto pc idle) :=
          .of_eq rfl rfl (Engine.cqes_goto taken pc idle)
        exact .of_keeps rfl (moved.trans (NetLoop.keeps_submitCase submitted)) id
  | consumer lt done => exact .of_keeps rfl (Engine.keeps_consumerStep done) id
  | @dispatch l' _ lt done =>
      obtain ⟨cqe, engine, taken, ⟨reserved, rfl⟩ | ⟨-, k, -, rfl⟩ | ⟨-, -, rfl⟩⟩ :=
        dispatchOne_cases done
      · exact entries_take taken rfl (Or.inl ⟨reserved, rfl⟩)
      · exact entries_take taken rfl (Or.inr ⟨k, rfl⟩)
      · by_cases this : l' = l
        · subst this
          exact .halt rfl rfl
        · exact .keeps this still
  | @kernel l' event engine lt done =>
      obtain ⟨sqes, cqes⟩ := Engine.kernelStep_entries done
      refine .of_loop rfl (fun other same => other same.symm) fun same self => ?_
      subst same
      refine .kernel ?_ ?_
      · rw [self]
        exact sqes
      · rw [self]
        exact cqes
  | @stop event o done =>
      refine .of_keeps rfl ?_ id
      show (s.loops o.loop).shell.engine.Keeps o.shell.engine
      rcases stopStep_engine done with same | ⟨pc, idle, outside, moved⟩
      · rw [same]
        exact .refl _
      · rw [moved]
        exact .of_eq rfl rfl (Engine.cqes_goto outside pc idle)
  | _ => exact .keeps id still

end Steps

end NetReactor

end GoUring.Reactor
