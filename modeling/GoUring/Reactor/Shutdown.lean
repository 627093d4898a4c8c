import GoUring.Reactor.Engine

/-!
# Stopping the event loops

`Run` of both reactors stops the loops one after the other: it sends on
`stopConsumerCh`, waits until the consumer has closed that channel, and then does
the same with the publisher.  A publisher that was told to stop closes
`stopPublisherCh` and then, through its deferred calls, the channels it receives
from.  The two reactors differ only in the list of channels the publisher closes,
so that list is a parameter here, and so is the type `β` of what a publisher can
be busy with.

A send on a closed channel and a second close of a channel panic; the model has
both as outcomes.  `Orderly` is the invariant that rules them out.  It compares
how far `Run` has come (`RunPC.progress`) with where each consumer and each
publisher is.
-/

namespace GoUring.Reactor

open Uring

/-- The channels of an event loop. -/
inductive Chan
  | submitSignal
  | stopConsumerCh
  | stopPublisherCh
  | reqBuss
  deriving DecidableEq, Repr

/-- What a channel operation can panic with. -/
inductive ChanPanic
  | sendOnClosed (ch : Chan)
  | closeOfClosed (ch : Chan)
  deriving DecidableEq, Repr

/-- What a reactor can panic with. -/
inductive ReactorPanic
  | nilCallback
  | channel (panic : ChanPanic)
  /-- `nonce % n` with no loop at all. -/
  | divideByZero
  deriving DecidableEq, Repr

/-- A reactor that has not panicked has not called a nil callback. -/
theorem ne_nilCallback_of_alive {panicked : Option ReactorPanic} (alive : panicked = none) :
    panicked ≠ some .nilCallback := by
  rintro rfl
  cases alive

/-- A misused channel is not a nil callback. -/
theorem channel_ne_nilCallback (panic : Option ChanPanic) :
    panic.map ReactorPanic.channel ≠ some .nilCallback := by
  intro called
  obtain ⟨c, -, clash⟩ := Option.map_eq_some_iff.mp called
  cases clash

/-- Where a `runPublisher` is: at its `select`, in one of its cases, or on its way
out with the channels still to be closed. -/
inductive PublisherPC (β : Type)
  | select
  | busy (stage : β)
  | closing (rest : List Chan)
  deriving DecidableEq, Repr

/-- The publisher was told to stop. -/
def PublisherPC.stopped {β : Type} : PublisherPC β → Bool
  | .closing _ => true
  | _ => false

/-- The channel that a publisher on its way out closes next. -/
def PublisherPC.closes {β : Type} : PublisherPC β → Option Chan
  | .closing (ch :: _) => some ch
  | _ => none

/-- Where `Run` is; the number is the loop it is stopping. -/
inductive RunPC
  /-- At `<-ctx.Done()`. -/
  | running
  /-- At the send on `stopConsumerCh`. -/
  | stopConsumer (l : ℕ)
  /-- At the receive from `stopConsumerCh`. -/
  | awaitConsumer (l : ℕ)
  /-- At the send on `stopPublisherCh`. -/
  | stopPublisher (l : ℕ)
  /-- At the receive from `stopPublisherCh`. -/
  | awaitPublisher (l : ℕ)
  /-- `Run` has returned. -/
  | returned
  deriving DecidableEq, Repr

namespace RunPC

/-- `Run` gets to loop `l` of `n`. -/
def upTo (n l : ℕ) : RunPC := if l < n then .stopConsumer l else .returned

/-- How far `Run` has come. -/
def progress (n : ℕ) : RunPC → ℕ
  | .running => 0
  | .stopConsumer l => 4 * l + 1
  | .awaitConsumer l => 4 * l + 2
  | .stopPublisher l => 4 * l + 3
  | .awaitPublisher l => 4 * l + 4
  | .returned => 4 * n + 1

/-- The loop `Run` is stopping is one of the `n` loops. -/
def InRange (n : ℕ) : RunPC → Prop
  | .running => True
  | .stopConsumer l => l < n
  | .awaitConsumer l => l < n
  | .stopPublisher l => l < n
  | .awaitPublisher l => l < n
  | .returned => True

theorem inRange_upTo (n l : ℕ) : (upTo n l).InRange n := by
  unfold upTo
  split
  · next lt => exact lt
  · trivial

theorem progress_upTo {n l : ℕ} (le : l ≤ n) : (upTo n l).progress n = 4 * l + 1 := by
  unfold upTo
  split
  · rfl
  · simp only [progress]
    omega

end RunPC

/-- What both kinds of event loop have. -/
structure Shell (β : Type) where
  engine : Engine
  publisher : PublisherPC β
  closed : Chan → Bool

/-- The steps of `Run`, and the steps of the loops that belong to the stop. -/
inductive StopEvent
  /-- The context is done. -/
  | ctxDone
  /-- `Run` sends the stop and a consumer at its poll receives it. -/
  | stopConsumer
  /-- A consumer polls and takes the default. -/
  | proceed (l : ℕ)
  /-- A consumer that was stopped closes `stopConsumerCh` and returns. -/
  | closeConsumer (l : ℕ)
  /-- `Run` finds `stopConsumerCh` closed. -/
  | awaitConsumer
  /-- `Run` sends the stop and a publisher at its `select` receives it. -/
  | stopPublisher
  /-- A publisher that was stopped closes its next channel. -/
  | closePublisher (l : ℕ)
  /-- `Run` finds `stopPublisherCh` closed. -/
  | awaitPublisher

/-- What a stop step does: where `Run` is then, and the loop concerned. -/
structure StopOutcome (β : Type) where
  run : RunPC
  loop : ℕ
  shell : Shell β
  panic : Option ChanPanic

namespace Shell

variable {β : Type}

/-- The consumer moves on. -/
def goto (sh : Shell β) (pc : ConsumerPC) (idle : pc.taken = 0) : Shell β :=
  { sh with engine := sh.engine.goto pc idle }

/-- The channel is closed. -/
def close (sh : Shell β) (ch : Chan) : Shell β :=
  { sh with closed := Function.update sh.closed ch true }

theorem closed_close (sh : Shell β) (ch ch' : Chan) :
    (sh.close ch).closed ch' = Function.update sh.closed ch true ch' := rfl

end Shell

/-- One step of the stop.  `exits` is what a stopped publisher closes, in
order. -/
def stopStep {β : Type} (n : ℕ) (exits : List Chan) (run : RunPC) (shell : ℕ → Shell β) :
    StopEvent → Option (StopOutcome β)
  | .ctxDone =>
      match run with
      | .running => some ⟨RunPC.upTo n 0, 0, shell 0, none⟩
      | _ => none
  | .stopConsumer =>
      match run with
      | .stopConsumer l =>
          if (shell l).closed .stopConsumerCh then
            some ⟨run, l, shell l, some (.sendOnClosed .stopConsumerCh)⟩
          else if (shell l).engine.pc = .poll then
            some ⟨.awaitConsumer l, l, (shell l).goto .closing rfl, none⟩
          else none
      | _ => none
  | .proceed l =>
      -- `Run` may be on its way into the send, so the default is always possible.
      if l < n ∧ (shell l).engine.pc = .poll then
        some ⟨run, l, (shell l).goto .signal rfl, none⟩
      else none
  | .closeConsumer l =>
      if l < n ∧ (shell l).engine.pc = .closing then
        if (shell l).closed .stopConsumerCh then
          some ⟨run, l, shell l, some (.closeOfClosed .stopConsumerCh)⟩
        else
          some ⟨run, l, ((shell l).close .stopConsumerCh).goto .returned rfl, none⟩
      else none
  | .awaitConsumer =>
      match run with
      | .awaitConsumer l =>
          if (shell l).closed .stopConsumerCh then
            some ⟨.stopPublisher l, l, shell l, none⟩
          else none
      | _ => none
  | .stopPublisher =>
      match run with
      | .stopPublisher l =>
          if (shell l).closed .stopPublisherCh then
            some ⟨run, l, shell l, some (.sendOnClosed .stopPublisherCh)⟩
          else
            match (shell l).publisher with
            | .select =>
                some ⟨.awaitPublisher l, l, { shell l with publisher := .closing exits }, none⟩
            | _ => none
      | _ => none
  | .closePublisher l =>
      if l < n then
        match (shell l).publisher with
        | .closing (ch :: rest) =>
            if (shell l).closed ch then
              some ⟨run, l, shell l, some (.closeOfClosed ch)⟩
            else
              some ⟨run, l, { (shell l).close ch with publisher := .closing rest }, none⟩
        | _ => none
      else none
  | .awaitPublisher =>
      match run with
      | .awaitPublisher l =>
          if (shell l).closed .stopPublisherCh then
            some ⟨RunPC.upTo n (l + 1), l, shell l, none⟩
          else none
      | _ => none

/-- The transitions of the stop, one for each way a step of it can happen. -/
inductive StopTransition {β : Type} (n : ℕ) (exits : List Chan) (run : RunPC)
    (shell : ℕ → Shell β) : StopEvent → StopOutcome β → Prop
  | ctxDone (here : run = .running) :
      StopTransition n exits run shell .ctxDone ⟨RunPC.upTo n 0, 0, shell 0, none⟩
  | stopConsumer {l : ℕ} (here : run = .stopConsumer l) (poll : (shell l).engine.pc = .poll) :
      StopTransition n exits run shell .stopConsumer
        ⟨.awaitConsumer l, l, (shell l).goto .closing rfl, none⟩
  /-- `Run` sends on a closed `stopConsumerCh`. -/
  | stopConsumerClosed {l : ℕ} (here : run = .stopConsumer l)
      (closed : (shell l).closed .stopConsumerCh = true) :
      StopTransition n exits run shell .stopConsumer
        ⟨run, l, shell l, some (.sendOnClosed .stopConsumerCh)⟩
  | proceed {l : ℕ} (lt : l < n) (poll : (shell l).engine.pc = .poll) :
      StopTransition n exits run shell (.proceed l)
        ⟨run, l, (shell l).goto .signal rfl, none⟩
  | closeConsumer {l : ℕ} (lt : l < n) (closing : (shell l).engine.pc = .closing) :
      StopTransition n exits run shell (.closeConsumer l)
        ⟨run, l, ((shell l).close .stopConsumerCh).goto .returned rfl, none⟩
  /-- A consumer closes its channel a second time. -/
  | closeConsumerTwice {l : ℕ} (lt : l < n) (closing : (shell l).engine.pc = .closing)
      (closed : (shell l).closed .stopConsumerCh = true) :
      StopTransition n exits run shell (.closeConsumer l)
        ⟨run, l, shell l, some (.closeOfClosed .stopConsumerCh)⟩
  | awaitConsumer {l : ℕ} (here : run = .awaitConsumer l)
      (closed : (shell l).closed .stopConsumerCh = true) :
      StopTransition n exits run shell .awaitConsumer ⟨.stopPublisher l, l, shell l, none⟩
  | stopPublisher {l : ℕ} (here : run = .stopPublisher l)
      (select : (shell l).publisher = .select) :
      StopTransition n exits run shell .stopPublisher
        ⟨.awaitPublisher l, l, { shell l with publisher := .closing exits }, none⟩
  /-- `Run` sends on a closed `stopPublisherCh`. -/
  | stopPublisherClosed {l : ℕ} (here : run = .stopPublisher l)
      (closed : (shell l).closed .stopPublisherCh = true) :
      StopTransition n exits run shell .stopPublisher
        ⟨run, l, shell l, some (.sendOnClosed .stopPublisherCh)⟩
  | closePublisher {l : ℕ} {ch : Chan} {rest : List Chan} (lt : l < n)
      (closing : (shell l).publisher = .closing (ch :: rest)) :
      StopTransition n exits run shell (.closePublisher l)
        ⟨run, l, { (shell l).close ch with publisher := .closing rest }, none⟩
  /-- A publisher closes a channel a second time. -/
  | closePublisherTwice {l : ℕ} {ch : Chan} {rest : List Chan} (lt : l < n)
      (closing : (shell l).publisher = .closing (ch :: rest))
      (closed : (shell l).closed ch = true) :
      StopTransition n exits run shell (.closePublisher l)
        ⟨run, l, shell l, some (.closeOfClosed ch)⟩
  | awaitPublisher {l : ℕ} (here : run = .awaitPublisher l)
      (closed : (shell l).closed .stopPublisherCh = true) :
      StopTransition n exits run shell .awaitPublisher ⟨RunPC.upTo n (l + 1), l, shell l, none⟩

section StopTransition

variable {β : Type} {n : ℕ} {exits : List Chan} {run : RunPC} {shell : ℕ → Shell β}
  {e : StopEvent} {o : StopOutcome β}

/-- **Every step of the stop is a transition.** -/
theorem stopStep_transition (stepped : stopStep n exits run shell e = some o) :
    StopTransition n exits run shell e o := by
  cases e with
  | ctxDone =>
      simp only [stopStep] at stepped
      split at stepped
      · cases stepped
        exact .ctxDone rfl
      · cases stepped
  | stopConsumer =>
      simp only [stopStep] at stepped
      split at stepped
      · split at stepped
        · next closed =>
          cases stepped
          exact .stopConsumerClosed rfl closed
        · split at stepped
          · next poll =>
            cases stepped
            exact .stopConsumer rfl poll
          · cases stepped
      · cases stepped
  | proceed l =>
      simp only [stopStep] at stepped
      split at stepped
      · next can =>
        cases stepped
        exact .proceed can.1 can.2
      · cases stepped
  | closeConsumer l =>
      simp only [stopStep] at stepped
      split at stepped
      · next can =>
        split at stepped
        · next closed =>
          cases stepped
          exact .closeConsumerTwice can.1 can.2 closed
        · cases stepped
          exact .closeConsumer can.1 can.2
      · cases stepped
  | awaitConsumer =>
      simp only [stopStep] at stepped
      split at stepped
      · split at stepped
        · next closed =>
          cases stepped
          exact .awaitConsumer rfl closed
        · cases stepped
      · cases stepped
  | stopPublisher =>
      simp only [stopStep] at stepped
      split at stepped
      · split at stepped
        · next closed =>
          cases stepped
          exact .stopPublisherClosed rfl closed
        · split at stepped
          · next select =>
            cases stepped
            exact .stopPublisher rfl select
          · cases stepped
      · cases stepped
  | closePublisher l =>
      simp only [stopStep] at stepped
      split at stepped
      · next lt =>
        split at stepped
        · next closing =>
          split at stepped
          · next closed =>
            cases stepped
            exact .closePublisherTwice lt closing closed
          · cases stepped
            exact .closePublisher lt closing
        · cases stepped
      · cases stepped
  | awaitPublisher =>
      simp only [stopStep] at stepped
      split at stepped
      · split at stepped
        · next closed =>
          cases stepped
          exact .awaitPublisher rfl closed
        · cases stepped
      · cases stepped

/-- A consumer told to stop, or not, is between two batches; nothing else happens to the
engines. -/
theorem stopStep_engine (stepped : stopStep n exits run shell e = some o) :
    o.shell.engine = (shell o.loop).engine ∨
      ∃ pc idle, (shell o.loop).engine.pc.taken = 0 ∧
        o.shell.engine = (shell o.loop).engine.goto pc idle := by
  have moves : ∀ {l : ℕ} {pc : ConsumerPC}, (shell l).engine.pc = pc → pc.taken = 0 →
      (shell l).engine.pc.taken = 0 := fun here idle => by rw [here]; exact idle
  cases stopStep_transition stepped with
  | stopConsumer _ poll => exact Or.inr ⟨.closing, rfl, moves poll rfl, rfl⟩
  | proceed _ poll => exact Or.inr ⟨.signal, rfl, moves poll rfl, rfl⟩
  | closeConsumer _ closing => exact Or.inr ⟨.returned, rfl, moves closing rfl, rfl⟩
  | _ => exact Or.inl rfl

/-- The stop leaves the rings alone, and the publishers that are busy. -/
theorem stopStep_frame (stepped : stopStep n exits run shell e = some o) :
    o.shell.engine.carried = (shell o.loop).engine.carried ∧
      o.shell.engine.sq = (shell o.loop).engine.sq ∧
      o.shell.engine.sqPoll = (shell o.loop).engine.sqPoll ∧
      ∀ stage, o.shell.publisher = .busy stage ↔ (shell o.loop).publisher = .busy stage := by
  have publisher : ∀ stage,
      o.shell.publisher = .busy stage ↔ (shell o.loop).publisher = .busy stage := by
    cases stopStep_transition stepped with
    | stopPublisher _ select => exact fun stage => by simp [select]
    | closePublisher _ closing => exact fun stage => by simp [closing]
    | _ => exact fun _ => Iff.rfl
  rcases stopStep_engine stepped with same | ⟨pc, idle, outside, moved⟩
  · rw [same]
    exact ⟨rfl, rfl, rfl, publisher⟩
  · rw [moved]
    exact ⟨Engine.carried_goto outside pc idle, rfl, rfl, publisher⟩

/-- The stop sends no consumer to a second signal. -/
theorem stopStep_ne_resignal (stepped : stopStep n exits run shell e = some o)
    (before : (shell o.loop).engine.pc ≠ .resignal) : o.shell.engine.pc ≠ .resignal := by
  cases stopStep_transition stepped with
  | stopConsumer _ poll => rintro ⟨⟩
  | proceed _ poll => rintro ⟨⟩
  | closeConsumer _ closing => rintro ⟨⟩
  | _ => exact before

end StopTransition

/-! ## The stop is orderly -/

/-- The channels a publisher has closed so far: none before it was told to stop,
then those of `exits` it no longer has to close. -/
def ClosedSoFar {β : Type} (exits : List Chan) (sh : Shell β) : Prop :=
  match sh.publisher with
  | .closing rest =>
      ∃ done, exits = done ++ rest ∧ ∀ ch ∈ exits, sh.closed ch = true ↔ ch ∈ done
  | _ => ∀ ch ∈ exits, sh.closed ch = false

theorem closedSoFar_iff_of_active {β : Type} {exits : List Chan} {sh : Shell β}
    (active : sh.publisher.stopped = false) :
    ClosedSoFar exits sh ↔ ∀ ch ∈ exits, sh.closed ch = false := by
  unfold ClosedSoFar
  cases here : sh.publisher with
  | select => exact Iff.rfl
  | busy stage => exact Iff.rfl
  | closing rest =>
      rw [here] at active
      cases active

theorem closedSoFar_iff_of_closing {β : Type} {exits rest : List Chan} {sh : Shell β}
    (closing : sh.publisher = .closing rest) :
    ClosedSoFar exits sh ↔
      ∃ done, exits = done ++ rest ∧ ∀ ch ∈ exits, sh.closed ch = true ↔ ch ∈ done := by
  unfold ClosedSoFar
  rw [closing]

/-- Only the publisher and its own channels matter. -/
theorem ClosedSoFar.of_same {β : Type} {exits : List Chan} {sh sh' : Shell β}
    (soFar : ClosedSoFar exits sh) (publisher : sh'.publisher = sh.publisher)
    (closed : ∀ ch ∈ exits, sh'.closed ch = sh.closed ch) : ClosedSoFar exits sh' := by
  cases here : sh.publisher with
  | closing rest =>
      rw [closedSoFar_iff_of_closing here] at soFar
      rw [closedSoFar_iff_of_closing (publisher.trans here)]
      obtain ⟨done, split, closed'⟩ := soFar
      exact ⟨done, split, fun ch mem => by rw [closed ch mem]; exact closed' ch mem⟩
  | _ =>
      rw [closedSoFar_iff_of_active (by rw [here]; rfl)] at soFar
      rw [closedSoFar_iff_of_active (by rw [publisher, here]; rfl)]
      exact fun ch mem => (closed ch mem).trans (soFar ch mem)

/-- What the stop of a loop looks like when `Run` has come as far as `progress`. -/
structure OrderlyLoop {β : Type} (exits : List Chan) (progress l : ℕ) (sh : Shell β) :
    Prop where
  consumer : sh.engine.pc.stopped = true ↔ 4 * l + 2 ≤ progress
  consumer_done : 4 * l + 3 ≤ progress → sh.engine.pc = .returned
  consumer_closed : sh.closed .stopConsumerCh = true ↔ sh.engine.pc = .returned
  publisher : sh.publisher.stopped = true ↔ 4 * l + 4 ≤ progress
  publisher_closed : ClosedSoFar exits sh

/-- **The stop is orderly.** -/
structure Orderly {β : Type} (n : ℕ) (exits : List Chan) (run : RunPC) (shell : ℕ → Shell β) :
    Prop where
  inRange : run.InRange n
  loops : ∀ l < n, OrderlyLoop exits (run.progress n) l (shell l)

section Orderly

variable {β : Type} {n : ℕ} {exits : List Chan} {run : RunPC} {shell : ℕ → Shell β}

/-- A loop whose thresholds `Run` has not crossed stays orderly. -/
theorem OrderlyLoop.of_progress {p p' l : ℕ} {sh : Shell β} (orderly : OrderlyLoop exits p l sh)
    (same : ∀ j ∈ [2, 3, 4], 4 * l + j ≤ p' ↔ 4 * l + j ≤ p) : OrderlyLoop exits p' l sh where
  consumer := orderly.consumer.trans (same 2 (by simp)).symm
  consumer_done := fun far => orderly.consumer_done ((same 3 (by simp)).mp far)
  consumer_closed := orderly.consumer_closed
  publisher := orderly.publisher.trans (same 4 (by simp)).symm
  publisher_closed := orderly.publisher_closed

/-- One loop changes, and `Run` crosses no threshold of another loop. -/
theorem Orderly.update (orderly : Orderly n exits run shell) {run' : RunPC} {l : ℕ}
    {sh : Shell β} (inRange : run'.InRange n)
    (others : ∀ l' < n, l' ≠ l → ∀ j ∈ [2, 3, 4],
      4 * l' + j ≤ run'.progress n ↔ 4 * l' + j ≤ run.progress n)
    (this : l < n → OrderlyLoop exits (run'.progress n) l sh) :
    Orderly n exits run' (Function.update shell l sh) where
  inRange := inRange
  loops := by
    intro l' lt
    by_cases same : l' = l
    · subst same
      rw [Function.update_self]
      exact this lt
    · rw [Function.update_of_ne same]
      exact (orderly.loops l' lt).of_progress (others l' lt same)

/-- **Moves inside a loop** that neither stop anybody nor close anything keep the
stop orderly. -/
theorem Orderly.internal (orderly : Orderly n exits run shell) {l : ℕ} {sh : Shell β}
    (consumer : sh.engine.pc = (shell l).engine.pc ∨
      (shell l).engine.pc.stopped = false ∧ sh.engine.pc.stopped = false)
    (publisher : sh.publisher = (shell l).publisher ∨
      (shell l).publisher.stopped = false ∧ sh.publisher.stopped = false)
    (closed : sh.closed = (shell l).closed) :
    Orderly n exits run (Function.update shell l sh) := by
  refine orderly.update orderly.inRange (fun _ _ _ _ _ => Iff.rfl) fun lt => ?_
  obtain ⟨consumer₀, done₀, closed₀, publisher₀, soFar₀⟩ := orderly.loops l lt
  have same : sh.engine.pc.stopped = (shell l).engine.pc.stopped := by
    rcases consumer with eq | ⟨before, after⟩
    · rw [eq]
    · rw [before, after]
  have returned : sh.engine.pc = .returned ↔ (shell l).engine.pc = .returned := by
    rcases consumer with eq | ⟨before, after⟩
    · rw [eq]
    · constructor
      · intro eq
        rw [eq] at after
        cases after
      · intro eq
        rw [eq] at before
        cases before
  refine ⟨by rw [same]; exact consumer₀, fun far => returned.mpr (done₀ far),
    by rw [closed, returned]; exact closed₀, ?_, ?_⟩
  · rcases publisher with eq | ⟨before, after⟩
    · rw [eq]
      exact publisher₀
    · rw [after, ← before]
      exact publisher₀
  · rcases publisher with eq | ⟨before, after⟩
    · exact soFar₀.of_same eq fun ch _ => by rw [closed]
    · -- Neither before nor after is the publisher on its way out.
      rw [closedSoFar_iff_of_active before] at soFar₀
      rw [closedSoFar_iff_of_active after, closed]
      exact soFar₀

/-- A channel a publisher is yet to close is open. -/
theorem OrderlyLoop.open_of_next {p l : ℕ} {sh : Shell β} (orderly : OrderlyLoop exits p l sh)
    (nodup : exits.Nodup) {ch : Chan} {rest : List Chan}
    (next : sh.publisher = .closing (ch :: rest)) : sh.closed ch = false := by
  obtain ⟨done, split, closed⟩ := (closedSoFar_iff_of_closing next).mp orderly.publisher_closed
  have mem : ch ∈ exits := by
    rw [split]
    simp
  have fresh : ch ∉ done := by
    rw [split, List.nodup_append] at nodup
    exact fun old => nodup.2.2 ch old ch List.mem_cons_self rfl
  rw [Bool.eq_false_iff, Ne, closed ch mem]
  exact fresh

/-- Before the publisher of a loop is told to stop, its channels are open. -/
theorem OrderlyLoop.open_of_running {p l : ℕ} {sh : Shell β}
    (orderly : OrderlyLoop exits p l sh) (running : ¬ 4 * l + 4 ≤ p) {ch : Chan}
    (mem : ch ∈ exits) : sh.closed ch = false := by
  have active : sh.publisher.stopped = false := by
    rw [Bool.eq_false_iff, Ne, orderly.publisher]
    exact running
  exact (closedSoFar_iff_of_active active).mp orderly.publisher_closed ch mem

/-- A consumer that was not told to stop finds `submitSignal` open. -/
theorem OrderlyLoop.submitSignal_open {p l : ℕ} {sh : Shell β}
    (orderly : OrderlyLoop exits p l sh) (mem : Chan.submitSignal ∈ exits)
    (active : sh.engine.pc.stopped = false) : sh.closed .submitSignal = false := by
  refine orderly.open_of_running (fun far => ?_) mem
  have stopped := orderly.consumer.mpr (by omega)
  rw [active] at stopped
  cases stopped

/-- `Run` moves on and no loop changes. -/
theorem Orderly.advance (orderly : Orderly n exits run shell) {run' : RunPC} (l : ℕ)
    (inRange : run'.InRange n)
    (same : ∀ l' < n, ∀ j ∈ [2, 3, 4], l' ≠ l ∨ j ≠ 3 →
      (4 * l' + j ≤ run'.progress n ↔ 4 * l' + j ≤ run.progress n))
    (done : l < n → (shell l).engine.pc = .returned ∨
      (4 * l + 3 ≤ run'.progress n ↔ 4 * l + 3 ≤ run.progress n)) :
    Orderly n exits run' (Function.update shell l (shell l)) := by
  refine orderly.update inRange (fun l' lt other j mem => same l' lt j mem (Or.inl other))
    fun lt => ?_
  have this := orderly.loops l lt
  exact
    { consumer := this.consumer.trans (same l lt 2 (by simp) (Or.inr (by decide))).symm
      consumer_done := fun far => by
        rcases done lt with returned | stays
        · exact returned
        · exact this.consumer_done (stays.mp far)
      consumer_closed := this.consumer_closed
      publisher := this.publisher.trans (same l lt 4 (by simp) (Or.inr (by decide))).symm
      publisher_closed := this.publisher_closed }

theorem threshold_bounds {j : ℕ} (mem : j ∈ [2, 3, 4]) : 2 ≤ j ∧ j ≤ 4 := by
  simp only [List.mem_cons, List.not_mem_nil, or_false] at mem
  omega

/-- `Run` is at the stop of a consumer: the consumer was not stopped yet, and its
channel is open. -/
theorem Orderly.stopConsumer_open {l : ℕ} (orderly : Orderly n exits (.stopConsumer l) shell) :
    (shell l).closed .stopConsumerCh = false := by
  have this := orderly.loops l orderly.inRange
  rw [Bool.eq_false_iff]
  intro closed
  have stopped := this.consumer.mp (by rw [this.consumer_closed.mp closed]; rfl)
  simp only [RunPC.progress] at stopped
  omega

/-- A consumer receives the stop. -/
theorem Orderly.sendConsumer {l : ℕ} (orderly : Orderly n exits (.stopConsumer l) shell) :
    Orderly n exits (.awaitConsumer l)
      (Function.update shell l ((shell l).goto .closing rfl)) := by
  have lt : l < n := orderly.inRange
  have this := orderly.loops l lt
  have fresh := orderly.stopConsumer_open
  refine orderly.update lt ?_ fun _ => ⟨?_, ?_, ?_, ?_, this.publisher_closed⟩
  · intro l' lt' apart j mem
    have := threshold_bounds mem
    simp only [RunPC.progress]
    omega
  · exact ⟨fun _ => le_refl _, fun _ => rfl⟩
  · intro far
    simp only [RunPC.progress] at far
    omega
  · constructor
    · intro closed
      rw [show ((shell l).goto .closing rfl).closed = (shell l).closed from rfl, fresh] at closed
      cases closed
    · intro eq
      cases eq
  · refine this.publisher.trans ?_
    simp only [RunPC.progress]
    omega

/-- A consumer that was stopped closes its channel and returns. -/
theorem Orderly.consumerReturns {l : ℕ} (orderly : Orderly n exits run shell)
    (other : Chan.stopConsumerCh ∉ exits) (here : (shell l).engine.pc = .closing) :
    Orderly n exits run
      (Function.update shell l (((shell l).close .stopConsumerCh).goto .returned rfl)) := by
  refine orderly.update orderly.inRange (fun _ _ _ _ _ => Iff.rfl) fun lt => ?_
  have this := orderly.loops l lt
  have kept : ∀ ch ∈ exits, ((shell l).close .stopConsumerCh).closed ch =
      (shell l).closed ch := by
    intro ch mem
    refine Function.update_of_ne ?_ _ _
    rintro rfl
    exact other mem
  refine ⟨?_, fun _ => rfl, ⟨fun _ => rfl, fun _ => ?_⟩, this.publisher, ?_⟩
  · have stopped := this.consumer
    rw [here] at stopped
    exact stopped
  · show ((shell l).close .stopConsumerCh).closed .stopConsumerCh = true
    rw [Shell.closed_close, Function.update_self]
  · -- The publisher's own channels are not touched.
    exact this.publisher_closed.of_same rfl kept

/-- A publisher receives the stop. -/
theorem Orderly.sendPublisher {l : ℕ} (orderly : Orderly n exits (.stopPublisher l) shell) :
    Orderly n exits (.awaitPublisher l)
      (Function.update shell l { shell l with publisher := .closing exits }) := by
  have lt : l < n := orderly.inRange
  have this := orderly.loops l lt
  refine orderly.update lt ?_ fun _ => ⟨?_, ?_, this.consumer_closed, ?_, ?_⟩
  · intro l' lt' apart j mem
    have := threshold_bounds mem
    simp only [RunPC.progress]
    omega
  · refine this.consumer.trans ?_
    simp only [RunPC.progress]
    omega
  · intro _
    exact this.consumer_done (le_refl _)
  · exact ⟨fun _ => le_refl _, fun _ => rfl⟩
  · refine ⟨[], rfl, fun ch mem => ?_⟩
    have fresh : (shell l).closed ch = false :=
      this.open_of_running (by simp only [RunPC.progress]; omega) mem
    show (shell l).closed ch = true ↔ _
    rw [fresh]
    simp

/-- A publisher on its way out closes its next channel. -/
theorem Orderly.publisherCloses {l : ℕ} (orderly : Orderly n exits run shell)
    (other : Chan.stopConsumerCh ∉ exits) {ch : Chan} {rest : List Chan}
    (here : (shell l).publisher = .closing (ch :: rest)) :
    Orderly n exits run
      (Function.update shell l { (shell l).close ch with publisher := .closing rest }) := by
  refine orderly.update orderly.inRange (fun _ _ _ _ _ => Iff.rfl) fun lt => ?_
  have this := orderly.loops l lt
  obtain ⟨done, split, closed⟩ := (closedSoFar_iff_of_closing here).mp this.publisher_closed
  have apart : Chan.stopConsumerCh ≠ ch := by
    rintro rfl
    exact other (by rw [split]; simp)
  refine ⟨this.consumer, this.consumer_done, ?_, ?_, ?_⟩
  · show ((shell l).close ch).closed .stopConsumerCh = true ↔ _
    rw [Shell.closed_close, Function.update_of_ne apart]
    exact this.consumer_closed
  · have stopped := this.publisher
    rw [here] at stopped
    exact stopped
  · refine ⟨done ++ [ch], by simp [split], fun ch' mem => ?_⟩
    show ((shell l).close ch).closed ch' = true ↔ _
    rw [Shell.closed_close]
    by_cases same : ch' = ch
    · subst same
      simp
    · rw [Function.update_of_ne same, closed ch' mem]
      simp [same]

/-- **Every step of the stop keeps it orderly, and none of them panics**, if the
publisher closes each of its channels once, `stopPublisherCh` among them and
`stopConsumerCh` not. -/
theorem Orderly.stop (orderly : Orderly n exits run shell) (nodup : exits.Nodup)
    (other : Chan.stopConsumerCh ∉ exits) (own : Chan.stopPublisherCh ∈ exits)
    {e : StopEvent} {o : StopOutcome β} (stepped : stopStep n exits run shell e = some o) :
    o.panic = none ∧ Orderly n exits o.run (Function.update shell o.loop o.shell) := by
  cases stopStep_transition stepped with
  | ctxDone here =>
      subst here
      have progress := RunPC.progress_upTo (Nat.zero_le n)
      refine ⟨rfl, orderly.advance 0 (RunPC.inRange_upTo n 0) ?_ fun _ => Or.inr ?_⟩
      · intro l' lt j mem _
        have := threshold_bounds mem
        rw [progress]
        simp only [RunPC.progress]
        omega
      · rw [progress]
        simp only [RunPC.progress]
        omega
  | stopConsumer here poll =>
      subst here
      exact ⟨rfl, orderly.sendConsumer⟩
  | stopConsumerClosed here closed =>
      subst here
      rw [orderly.stopConsumer_open] at closed
      cases closed
  | proceed lt poll =>
      refine ⟨rfl, orderly.internal (Or.inr ⟨?_, rfl⟩) (Or.inl rfl) rfl⟩
      rw [poll]
      rfl
  | closeConsumer lt closing => exact ⟨rfl, orderly.consumerReturns other closing⟩
  | @closeConsumerTwice l lt closing closed =>
      -- The channel is closed by the step after which the consumer has returned.
      have returned := (orderly.loops l lt).consumer_closed.mp closed
      rw [closing] at returned
      cases returned
  | @awaitConsumer l here closed =>
      subst here
      have lt : l < n := orderly.inRange
      refine ⟨rfl, orderly.advance l lt ?_ fun _ => Or.inl ?_⟩
      · intro l' lt' j mem apart
        have := threshold_bounds mem
        simp only [RunPC.progress]
        omega
      · exact (orderly.loops l lt).consumer_closed.mp closed
  | stopPublisher here select =>
      subst here
      exact ⟨rfl, orderly.sendPublisher⟩
  | @stopPublisherClosed l here closed =>
      subst here
      have fresh := (orderly.loops l orderly.inRange).open_of_running
        (by simp only [RunPC.progress]; omega) own
      rw [fresh] at closed
      cases closed
  | closePublisher lt closing => exact ⟨rfl, orderly.publisherCloses other closing⟩
  | @closePublisherTwice l ch rest lt closing closed =>
      rw [(orderly.loops l lt).open_of_next nodup closing] at closed
      cases closed
  | @awaitPublisher l here closed =>
      subst here
      have lt : l < n := orderly.inRange
      have progress := RunPC.progress_upTo (Nat.succ_le_of_lt lt)
      refine ⟨rfl, orderly.advance l (RunPC.inRange_upTo n _) ?_ fun _ => Or.inr ?_⟩
      · intro l' lt' j mem _
        have := threshold_bounds mem
        rw [progress]
        simp only [RunPC.progress]
        omega
      · rw [progress]
        simp only [RunPC.progress]
        omega

/-! ## The stop gets on -/

/-- Who takes a step: `Run`, a consumer or publisher, or somebody outside. -/
inductive Actor
  | run
  | loop (l : ℕ)
  | outside
  deriving DecidableEq, Repr

/-- Who takes a step of the stop; the sends of `Run` are its own steps. -/
def StopEvent.actor : StopEvent → Actor
  | .proceed l => .loop l
  | .closeConsumer l => .loop l
  | .closePublisher l => .loop l
  | _ => .run

/-- The loop `Run` is stopping. -/
def RunPC.loop : RunPC → Option ℕ
  | .stopConsumer l => some l
  | .awaitConsumer l => some l
  | .stopPublisher l => some l
  | .awaitPublisher l => some l
  | _ => none

/-- The step is taken by `Run`, or by the loop it is stopping. -/
def RunPC.Concerned (run : RunPC) (actor : Actor) : Prop :=
  actor = .run ∨ ∃ l, run.loop = some l ∧ actor = .loop l

/-- `Run` waits for a consumer: the consumer returns, or `Run` sees that it has. -/
theorem Orderly.awaitConsumer_moves {l : ℕ}
    (orderly : Orderly n exits (.awaitConsumer l) shell) :
    ∃ e, (stopStep n exits (.awaitConsumer l) shell e).isSome = true ∧
      (RunPC.awaitConsumer l).Concerned e.actor := by
  have lt : l < n := orderly.inRange
  have this := orderly.loops l lt
  have stopped : (shell l).engine.pc.stopped = true := this.consumer.mpr (le_refl _)
  cases here : (shell l).engine.pc with
  | closing =>
      refine ⟨.closeConsumer l, ?_, Or.inr ⟨l, rfl, rfl⟩⟩
      simp only [stopStep, lt, here, and_self, if_true]
      split
      · rfl
      · rfl
  | returned =>
      refine ⟨.awaitConsumer, ?_, Or.inl rfl⟩
      simp only [stopStep, this.consumer_closed.mpr here, if_true]
      rfl
  | _ =>
      rw [here] at stopped
      cases stopped

/-- `Run` waits for a publisher: the publisher closes its next channel, or `Run` sees
that it has closed `stopPublisherCh`. -/
theorem Orderly.awaitPublisher_moves {l : ℕ} (own : Chan.stopPublisherCh ∈ exits)
    (orderly : Orderly n exits (.awaitPublisher l) shell) :
    ∃ e, (stopStep n exits (.awaitPublisher l) shell e).isSome = true ∧
      (RunPC.awaitPublisher l).Concerned e.actor := by
  have lt : l < n := orderly.inRange
  have this := orderly.loops l lt
  by_cases closed : (shell l).closed .stopPublisherCh = true
  · refine ⟨.awaitPublisher, ?_, Or.inl rfl⟩
    simp only [stopStep, closed, if_true]
    rfl
  · have stopped : (shell l).publisher.stopped = true := this.publisher.mpr (le_refl _)
    cases here : (shell l).publisher with
    | closing rest =>
        obtain ⟨done, split, soFar⟩ :=
          (closedSoFar_iff_of_closing here).mp this.publisher_closed
        have next : Chan.stopPublisherCh ∈ rest := by
          rw [split] at own
          rcases List.mem_append.mp own with old | next
          · exact absurd ((soFar _ (split ▸ List.mem_append_left _ old)).mpr old) closed
          · exact next
        obtain ⟨ch, rest, rfl⟩ := List.exists_cons_of_ne_nil (List.ne_nil_of_mem next)
        refine ⟨.closePublisher l, ?_, Or.inr ⟨l, rfl, rfl⟩⟩
        simp only [stopStep, lt, here, if_true]
        split
        · rfl
        · rfl
    | select =>
        rw [here] at stopped
        cases stopped
    | busy stage =>
        rw [here] at stopped
        cases stopped

/-- **`Run` is never stuck** where a consumer that was not told to stop can move, and a
publisher that is busy: `Run` has a step, or the loop it is stopping has one. -/
theorem Orderly.run_moves (orderly : Orderly n exits run shell)
    (own : Chan.stopPublisherCh ∈ exits) {P : ℕ → Prop}
    (consumer : ∀ l < n, (shell l).engine.pc.stopped = false → P l)
    (publisher : ∀ l < n, ∀ stage, (shell l).publisher = .busy stage → P l)
    (going : run ≠ .returned) :
    (∃ e, (stopStep n exits run shell e).isSome = true ∧ run.Concerned e.actor) ∨
      ∃ l, run.loop = some l ∧ P l := by
  cases run with
  | running => exact Or.inl ⟨.ctxDone, rfl, Or.inl rfl⟩
  | stopConsumer l =>
      have lt : l < n := orderly.inRange
      refine Or.inr ⟨l, rfl, consumer l lt ?_⟩
      rw [Bool.eq_false_iff, Ne, (orderly.loops l lt).consumer]
      simp only [RunPC.progress]
      omega
  | awaitConsumer l => exact Or.inl orderly.awaitConsumer_moves
  | stopPublisher l =>
      have lt : l < n := orderly.inRange
      have this := orderly.loops l lt
      have early : ¬ 4 * l + 4 ≤ (RunPC.stopPublisher l).progress n := by
        simp only [RunPC.progress]
        omega
      cases here : (shell l).publisher with
      | select =>
          refine Or.inl ⟨.stopPublisher, ?_, Or.inl rfl⟩
          simp only [stopStep, this.open_of_running early own, here]
          rfl
      | busy stage => exact Or.inr ⟨l, rfl, publisher l lt stage here⟩
      | closing rest => exact absurd (this.publisher.mp (by rw [here]; rfl)) early
  | awaitPublisher l => exact Or.inl (orderly.awaitPublisher_moves own)
  | returned => exact absurd rfl going

/-- Once `Run` has returned, every consumer has, and every publisher is on its way
out. -/
theorem Orderly.over_of_returned (orderly : Orderly n exits .returned shell) {l : ℕ}
    (lt : l < n) :
    (shell l).engine.pc = .returned ∧ ∃ rest, (shell l).publisher = .closing rest := by
  have this := orderly.loops l lt
  have far : 4 * l + 4 ≤ RunPC.returned.progress n := by
    simp only [RunPC.progress]
    omega
  refine ⟨this.consumer_done (by omega), ?_⟩
  have stopped := this.publisher.mpr far
  cases here : (shell l).publisher with
  | closing rest => exact ⟨rest, rfl⟩
  | select =>
      rw [here] at stopped
      cases stopped
  | busy stage =>
      rw [here] at stopped
      cases stopped

end Orderly

end GoUring.Reactor
