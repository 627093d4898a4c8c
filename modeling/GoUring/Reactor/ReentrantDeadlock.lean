import GoUring.Foundation.WaitGraph
import GoUring.Reactor.EventMoves
import GoUring.Reactor.Reentrant

/-!
# Who waits for whom when callbacks call the reactor

The goroutines of a generic reactor wait for each other at two kinds of locks, the
`queueSQELock` and the `callbacksLock` of each loop.  A `Queue` takes the second one
with the first one held, and nobody takes them the other way round; but a consumer
calls its callbacks with the `callbacksLock` of its loop held, and a callback that calls the
reactor waits for the locks of the loop its call is about.

So a cycle of waiting goroutines is a cycle of loops, each with a consumer whose
callback is in a call on the next one (`Reenters`).  Without such a cycle there is no
deadlock (`NestedCalls.waitsFor`), and a run in which no callback begins a call that
leads back to its own loop has none (`reentrant_deadlock_free`).  The loop of a call is
chosen by its nonce: with a single loop every call a callback makes leads back.
-/

namespace GoUring.Reactor

open Uring WaitGraph Relation

/-! ## The calls of a generic reactor, one at a time -/

/-- The call was made and is not over. -/
def Call.busy : Call → Bool
  | .drawing _ _ => true
  | .active _ _ => true
  | _ => false

theorem Call.not_busy_of_isOver {call : Call} (isOver : call.isOver = true) :
    call.busy = false := by
  cases call with
  | returned | recovered => rfl
  | _ => cases isOver

theorem QueueStage.isOver_of_ending {job : Job} {stage : QueueStage} {call : Call}
    (last : stage.ending job = some call) : call.isOver = true := by
  cases stage with
  | failed | registered | panicking =>
      cases last
      rfl
  | _ => cases last

/-- What a step does to call `k`. -/
inductive Call.Next (n : ℕ) (s : EventReactor) (k : ℕ) : ReactorEvent → Call → Call → Prop
  | same {e : ReactorEvent} {call : Call} : Next n s k e call call
  | queue {op : Operation} {timeout : Int64} :
      Next n s k (.queue k op timeout) .free (.drawing op timeout)
  | cancel {nonce : UInt64} : Next n s k (.cancel k nonce) .free (.active (.cancel nonce) .want)
  | draw {op : Operation} {timeout : Int64} {job : Job} (small : s.currentNonce + 1 < cancelNonce)
      (home : job.loop n = loopForNonce n (s.currentNonce + 1)) :
      Next n s k (.draw k) (.drawing op timeout) (.active job .want)
  | move {e : ReactorEvent} {job : Job} {stage stage' : QueueStage} :
      Next n s k e (.active job stage) (.active job stage')
  | leave {e : ReactorEvent} {job : Job} {stage : QueueStage} {call : Call}
      (isOver : call.isOver = true) : Next n s k e (.active job stage) call

namespace Call.Next

variable {n k : ℕ} {s : EventReactor} {e : ReactorEvent} {call call' : Call}

theorem ne_free (next : Next n s k e call call') (made : call ≠ .free) : call' ≠ .free := by
  cases next with
  | same => exact made
  | leave isOver =>
      rintro rfl
      cases isOver
  | _ => rintro ⟨⟩

/-- A call that was made is busy only if it was busy before. -/
theorem busy (next : Next n s k e call call') (made : call ≠ .free)
    (after : call'.busy = true) : call.busy = true := by
  cases next with
  | same => exact after
  | queue | cancel => exact absurd rfl made
  | draw | move | leave => rfl

/-- A call that was made gets to a loop by drawing the nonce of the loop. -/
theorem active {job : Job} {stage : QueueStage} (next : Next n s k e call (.active job stage))
    (made : call ≠ .free) :
    (∃ stage', call = .active job stage') ∨
      (e = .draw k ∧ s.currentNonce + 1 < cancelNonce ∧
        job.loop n = loopForNonce n (s.currentNonce + 1)) := by
  cases next with
  | same => exact Or.inl ⟨stage, rfl⟩
  | cancel => exact absurd rfl made
  | draw small home => exact Or.inr ⟨rfl, small, home⟩
  | move => exact Or.inl ⟨_, rfl⟩
  | leave isOver => cases isOver

end Call.Next

namespace EventReactor

variable {n : ℕ} {s s' : EventReactor} {e : ReactorEvent}

theorem next_of_calls (calls : s'.calls = s.calls) (k : ℕ) :
    Call.Next n s k e (s.calls k) (s'.calls k) := by
  rw [calls]
  exact .same

theorem next_of_update {k : ℕ} {call call' : Call}
    (calls : s'.calls = Function.update s.calls k call')
    (here : s.calls k = call) (next : Call.Next n s k e call call') (j : ℕ) :
    Call.Next n s j e (s.calls j) (s'.calls j) := by
  rw [calls]
  by_cases this : j = k
  · subst this
    rw [Function.update_self, here]
    exact next
  · rw [Function.update_of_ne this]
    exact .same

/-- **What a step does to the calls.** -/
theorem step_calls (stepped : s.step n e = some s') (k : ℕ) :
    Call.Next n s k e (s.calls k) (s'.calls k) := by
  obtain ⟨-, transition⟩ := step_transition stepped
  cases transition with
  | queue here => exact next_of_update rfl here .queue k
  | cancel here => exact next_of_update rfl here .cancel k
  | draw here small => exact next_of_update rfl here (.draw small rfl) k
  | lock _ here | flag _ here | queueOp _ here | abandon _ here | link _ here | register _ here =>
      exact next_of_update rfl here .move k
  | leave _ here last => exact next_of_update rfl here (.leave (QueueStage.isOver_of_ending last)) k
  | _ => exact next_of_calls rfl k

theorem busy_of_newCall {k : ℕ} (stepped : s.step n e = some s') (new : e.newCall = some k) :
    s.calls k = .free ∧ (s'.calls k).busy = true := by
  obtain ⟨-, transition⟩ := step_transition stepped
  cases transition with
  | queue here | cancel here =>
      cases new
      refine ⟨here, ?_⟩
      show (Function.update s.calls k _ k).busy = true
      rw [Function.update_self]
      rfl
  | _ => cases new

end EventReactor

/-! ## Goroutines and locks -/

/-- The goroutines that take locks; a call that no callback makes has one of its
own. -/
inductive Goroutine
  | user (k : ℕ)
  | consumer (l : ℕ)
  | publisher (l : ℕ)

/-- The locks of the loops. -/
inductive LoopLock
  | queueSQELock (l : ℕ)
  | callbacksLock (l : ℕ)

/-- The loop the lock belongs to. -/
def LoopLock.loop : LoopLock → ℕ
  | .queueSQELock l => l
  | .callbacksLock l => l

namespace ReentrantReactor

/-- The goroutine that call `k` runs on. -/
def goroutine (s : ReentrantReactor) (k : ℕ) : Goroutine :=
  match s.maker k with
  | some l => .consumer l
  | none => .user k

/-- The goroutine is at the `Lock()` of the lock. -/
inductive WaitsAt (n : ℕ) (s : ReentrantReactor) (g : Goroutine) : LoopLock → Prop
  | queue {k : ℕ} {job : Job} (on : s.goroutine k = g)
      (here : s.reactor.calls k = .active job .want) :
      WaitsAt n s g (.queueSQELock (job.loop n))
  | register {k : ℕ} {job : Job} (on : s.goroutine k = g)
      (here : s.reactor.calls k = .active job .queued) :
      WaitsAt n s g (.callbacksLock (job.loop n))
  | submit {l : ℕ} (on : g = .publisher l)
      (here : (s.reactor.loops l).shell.publisher = .busy .wantLock) :
      WaitsAt n s g (.queueSQELock l)
  | dispatch {l : ℕ} {cqe : CQEvent} (on : g = .consumer l) (outside : s.frame l = none)
      (here : (s.reactor.loops l).engine.head = some cqe) (request : ¬ Reserved cqe.userData) :
      WaitsAt n s g (.callbacksLock l)

/-- The goroutine has the lock. -/
inductive HeldBy (s : ReentrantReactor) : LoopLock → Goroutine → Prop
  | caller {l k : ℕ} (held : (s.reactor.loops l).queueSQELock = some (.caller k)) :
      HeldBy s (.queueSQELock l) (s.goroutine k)
  | publisher {l : ℕ} (held : (s.reactor.loops l).queueSQELock = some .publisher) :
      HeldBy s (.queueSQELock l) (.publisher l)
  | consumer {l : ℕ} {f : CallbackFrame} (inside : s.frame l = some f) :
      HeldBy s (.callbacksLock l) (.consumer l)

/-- **No deadlock**: no goroutine waits at a lock it holds, and none wait for each
other in a circle. -/
def DeadlockFree (n : ℕ) (s : ReentrantReactor) : Prop :=
  Acyclic (WaitsFor (s.WaitsAt n) s.HeldBy)

/-- The consumer of loop `l` is in a callback that is in a call on loop `m`. -/
def Reenters (n : ℕ) (s : ReentrantReactor) (l m : ℕ) : Prop :=
  ∃ f k job stage, s.frame l = some f ∧ f.inner = some k ∧
    s.reactor.calls k = .active job stage ∧ job.loop n = m

/-- Whoever holds the first lock may wait at the second one. -/
def Leads (n : ℕ) (s : ReentrantReactor) : LoopLock → LoopLock → Prop
  | .queueSQELock l, y => y = .callbacksLock l
  | .callbacksLock l, y => s.Reenters n l y.loop

section Locks

variable {n : ℕ} {s s' : ReentrantReactor} {e : ReentrantEvent}

/-- Along the locks, the loops lead on; only the step from the first lock of a loop to
its second one stays there. -/
theorem transGen_reenters {x y : LoopLock} (path : TransGen (s.Leads n) x y) :
    TransGen (s.Reenters n) x.loop y.loop ∨
      ∃ l, x = .queueSQELock l ∧ y = .callbacksLock l := by
  induction path with
  | @single y edge =>
      cases x with
      | queueSQELock l => exact Or.inr ⟨l, rfl, edge⟩
      | callbacksLock l => exact Or.inl (.single edge)
  | @tail y z before edge ih =>
      cases y with
      | queueSQELock l =>
          obtain rfl : z = .callbacksLock l := edge
          rcases ih with path | ⟨m, -, ⟨⟩⟩
          exact Or.inl path
      | callbacksLock l =>
          rcases ih with path | ⟨m, rfl, ⟨⟩⟩
          · exact Or.inl (path.tail edge)
          · exact Or.inl (.single edge)

theorem acyclic_leads (ordered : Acyclic (s.Reenters n)) : Acyclic (s.Leads n) := by
  intro x cycle
  rcases transGen_reenters cycle with loops | ⟨l, rfl, ⟨⟩⟩
  exact ordered x.loop loops

/-- **The calls that callbacks make.** -/
structure NestedCalls (n : ℕ) (s : ReentrantReactor) : Prop where
  made : ∀ k l, s.maker k = some l → s.reactor.calls k ≠ .free
  /-- A consumer whose callback made a call is in the callback until the call is back. -/
  waits : ∀ k l, s.maker k = some l → (s.reactor.calls k).busy = true →
    ∃ f, s.frame l = some f ∧ f.inner = some k
  makes : ∀ l f k, s.frame l = some f → f.inner = some k → s.maker k = some l
  ordered : Acyclic (s.Reenters n)

namespace NestedCalls

/-- A goroutine is in one call at a time. -/
theorem eq_of_goroutine (nested : NestedCalls n s) {k k' : ℕ}
    (busy : (s.reactor.calls k).busy = true) (busy' : (s.reactor.calls k').busy = true)
    (same : s.goroutine k = s.goroutine k') : k = k' := by
  unfold goroutine at same
  split at same
  · next l made =>
    split at same
    · next l' made' =>
      cases same
      obtain ⟨f, inside, inner⟩ := nested.waits k l made busy
      obtain ⟨f', inside', inner'⟩ := nested.waits k' l made' busy'
      rw [inside] at inside'
      cases inside'
      rw [inner] at inner'
      exact Option.some.inj inner'
    · cases same
  · split at same
    · cases same
    · cases same
      rfl

/-- Two calls on one goroutine are at one place. -/
theorem active_unique (nested : NestedCalls n s) {k k' : ℕ} {job job' : Job}
    {stage stage' : QueueStage} (here : s.reactor.calls k = .active job stage)
    (here' : s.reactor.calls k' = .active job' stage')
    (same : s.goroutine k = s.goroutine k') : job = job' ∧ stage = stage' := by
  have busy : (s.reactor.calls k).busy = true := by
    rw [here]
    rfl
  have busy' : (s.reactor.calls k').busy = true := by
    rw [here']
    rfl
  obtain rfl := nested.eq_of_goroutine busy busy' same
  rw [here] at here'
  cases here'
  exact ⟨rfl, rfl⟩

/-- A consumer in a call is in a callback that made it. -/
theorem reenters_of_goroutine (nested : NestedCalls n s) {k l : ℕ} {job : Job}
    {stage : QueueStage} (here : s.reactor.calls k = .active job stage)
    (on : s.goroutine k = .consumer l) : s.Reenters n l (job.loop n) := by
  have busy : (s.reactor.calls k).busy = true := by
    rw [here]
    rfl
  unfold goroutine at on
  split at on
  · next made =>
    cases on
    obtain ⟨f, inside, inner⟩ := nested.waits k l made busy
    exact ⟨f, k, job, stage, inside, inner, here, rfl⟩
  · cases on

theorem goroutine_ne_consumer (nested : NestedCalls n s) {k l : ℕ} {job : Job}
    {stage : QueueStage} (here : s.reactor.calls k = .active job stage)
    (outside : s.frame l = none) : s.goroutine k ≠ .consumer l := by
  intro on
  obtain ⟨f, -, -, -, inside, -⟩ := nested.reenters_of_goroutine here on
  rw [outside] at inside
  cases inside

theorem goroutine_ne_publisher (k l : ℕ) : s.goroutine k ≠ .publisher l := by
  unfold goroutine
  split
  · rintro ⟨⟩
  · rintro ⟨⟩

/-- A goroutine waits at one lock at a time. -/
theorem waitsAt_unique (nested : NestedCalls n s) {g : Goroutine} {x y : LoopLock}
    (first : s.WaitsAt n g x) (second : s.WaitsAt n g y) : x = y := by
  cases first with
  | queue on here =>
      subst on
      cases second with
      | queue on' here' => rw [(nested.active_unique here here' on'.symm).1]
      | register on' here' => cases (nested.active_unique here here' on'.symm).2
      | submit on' => exact absurd on' (goroutine_ne_publisher _ _)
      | dispatch on' outside => exact absurd on' (nested.goroutine_ne_consumer here outside)
  | register on here =>
      subst on
      cases second with
      | queue on' here' => cases (nested.active_unique here here' on'.symm).2
      | register on' here' => rw [(nested.active_unique here here' on'.symm).1]
      | submit on' => exact absurd on' (goroutine_ne_publisher _ _)
      | dispatch on' outside => exact absurd on' (nested.goroutine_ne_consumer here outside)
  | submit on =>
      subst on
      cases second with
      | queue on' | register on' => exact absurd on' (goroutine_ne_publisher _ _)
      | submit on' =>
          cases on'
          rfl
      | dispatch on' => cases on'
  | dispatch on outside =>
      subst on
      cases second with
      | queue on' here | register on' here =>
          exact absurd on' (nested.goroutine_ne_consumer here outside)
      | submit on' => cases on'
      | dispatch on' =>
          cases on'
          rfl

/-- Whoever holds a lock and waits at one goes from the first lock of a loop to its
second one, or from a callback into a loop. -/
theorem leads (nested : NestedCalls n s) (inside : ∀ l, (s.reactor.view n l).Inside)
    {x y : LoopLock} {g : Goroutine} (held : s.HeldBy x g) (waits : s.WaitsAt n g y) :
    s.Leads n x y := by
  cases held with
  | @caller l k held =>
      obtain ⟨job, stage, active, holds⟩ := (inside l).callers k held
      obtain ⟨here, rfl⟩ := EventReactor.active_eq_some.mp active
      cases waits with
      | queue on here' =>
          -- A call at `queueSQELock.Lock()` does not have the lock.
          obtain ⟨-, rfl⟩ := nested.active_unique here here' on.symm
          cases holds
      | register on here' =>
          obtain ⟨rfl, -⟩ := nested.active_unique here here' on.symm
          rfl
      | submit on => exact absurd on (goroutine_ne_publisher _ _)
      | dispatch on outside => exact absurd on (nested.goroutine_ne_consumer here outside)
  | @publisher l held =>
      obtain ⟨stage, busy, holds⟩ := (inside l).publisher held
      cases waits with
      | queue on | register on => exact absurd on (goroutine_ne_publisher _ _)
      | submit on here =>
          cases on
          cases here.symm.trans busy
          cases holds
      | dispatch on => cases on
  | @consumer l f running =>
      cases waits with
      | queue on here => exact nested.reenters_of_goroutine here on
      | register on here => exact nested.reenters_of_goroutine here on
      | submit on => cases on
      | dispatch on outside =>
          cases on
          rw [outside] at running
          cases running

/-- **Without a circle of loops there is no deadlock.** -/
theorem deadlockFree (nested : NestedCalls n s) (inside : ∀ l, (s.reactor.view n l).Inside) :
    s.DeadlockFree n :=
  acyclic_waitsFor (fun _ _ _ first second => nested.waitsAt_unique first second)
    (fun _ _ _ held waits => nested.leads inside held waits) (acyclic_leads nested.ordered)

/-! ## Steps keep the calls nested -/

theorem start (rings : ℕ → ReactorRing false) (n : ℕ) :
    NestedCalls n (ReentrantReactor.start rings) where
  made := by
    rintro k l ⟨⟩
  waits := by
    rintro k l ⟨⟩
  makes := by
    rintro l f k ⟨⟩
  ordered := by
    intro l cycle
    obtain ⟨m, ⟨f, k, job, stage, inside, -⟩, -⟩ := TransGen.head'_iff.mp cycle
    cases inside

/-- A consumer enters a callback, is back in it, or leaves it. -/
theorem setFrame (nested : NestedCalls n s) {l : ℕ} {f : Option CallbackFrame}
    (idle : ∀ g k, s.frame l = some g → g.inner = some k → (s.reactor.calls k).busy = false)
    (outside : ∀ g, f = some g → g.inner = none) :
    NestedCalls n (s.setFrame l f) where
  made := nested.made
  waits := by
    intro k l' made busy
    obtain ⟨g, inside, inner⟩ := nested.waits k l' made busy
    have other : l' ≠ l := by
      rintro rfl
      cases busy.symm.trans (idle g k inside inner)
    exact ⟨g, (Function.update_of_ne other _ _).trans inside, inner⟩
  makes := by
    intro l' g k inside inner
    rcases frame_setFrame inside with ⟨rfl, new⟩ | ⟨-, old⟩
    · rw [outside g new] at inner
      cases inner
    · exact nested.makes l' g k old inner
  ordered := by
    refine nested.ordered.mono ?_
    rintro l' m ⟨g, k, job, stage, inside, inner, here, home⟩
    rcases frame_setFrame inside with ⟨rfl, new⟩ | ⟨-, old⟩
    · rw [outside g new] at inner
      cases inner
    · exact ⟨g, k, job, stage, old, inner, here, home⟩

/-- The reactor takes a step: the only call that gets to a loop is one that draws its
nonce. -/
theorem reenters_of_step (nested : NestedCalls n s) {e : ReactorEvent} {r : EventReactor}
    (stepped : s.reactor.step n e = some r) {l m : ℕ}
    (after : (s.withReactor r).Reenters n l m) :
    s.Reenters n l m ∨
      ∃ k, e = .draw k ∧ s.maker k = some l ∧ s.reactor.currentNonce + 1 < cancelNonce ∧
        m = loopForNonce n (s.reactor.currentNonce + 1) := by
  obtain ⟨f, k, job, stage, inside, inner, here, home⟩ := after
  have maker := nested.makes l f k inside inner
  have next := EventReactor.step_calls stepped k
  rw [show r.calls k = .active job stage from here] at next
  rcases next.active (nested.made k l maker) with ⟨stage', before⟩ | ⟨draw, small, drawn⟩
  · exact Or.inl ⟨f, k, job, stage', inside, inner, before, home⟩
  · exact Or.inr ⟨k, draw, maker, small, home.symm.trans drawn⟩

/-- The reactor takes a step, and no call gets to a loop that leads back. -/
theorem move (nested : NestedCalls n s) {e : ReactorEvent} {r : EventReactor}
    (stepped : s.reactor.step n e = some r)
    (noWay : ∀ k l, e = .draw k → s.maker k = some l →
      s.reactor.currentNonce + 1 < cancelNonce →
      ¬ ReflTransGen (s.Reenters n) (loopForNonce n (s.reactor.currentNonce + 1)) l) :
    NestedCalls n (s.withReactor r) where
  made := fun k l maker =>
    (EventReactor.step_calls stepped k).ne_free (nested.made k l maker)
  waits := fun k l maker busy =>
    nested.waits k l maker
      ((EventReactor.step_calls stepped k).busy (nested.made k l maker) busy)
  makes := nested.makes
  ordered := by
    by_cases draws : ∃ k l, e = .draw k ∧ s.maker k = some l ∧
        s.reactor.currentNonce + 1 < cancelNonce
    · obtain ⟨k, l, rfl, maker, small⟩ := draws
      refine nested.ordered.insert (noWay k l rfl maker small) fun x y after => ?_
      rcases nested.reenters_of_step stepped after with old | ⟨k', draw, maker', -, loop⟩
      · exact Or.inl old
      · cases draw
        rw [maker] at maker'
        exact Or.inr ⟨(Option.some.inj maker').symm, loop⟩
    · refine nested.ordered.mono fun x y after => ?_
      rcases nested.reenters_of_step stepped after with old | ⟨k, draw, maker, small, -⟩
      · exact old
      · exact absurd ⟨k, x, draw, maker, small⟩ draws

/-- A callback makes a call that does not lead back. -/
theorem push (nested : NestedCalls n s) {l k cb : ℕ} {cqe : CQEvent}
    (inside : s.frame l = some ⟨cb, cqe, none⟩) (fresh : s.maker k = none)
    (busy : (s.reactor.calls k).busy = true)
    (noWay : ∀ job stage, s.reactor.calls k = .active job stage →
      ¬ ReflTransGen (s.Reenters n) (job.loop n) l) :
    NestedCalls n ((s.setFrame l (some ⟨cb, cqe, some k⟩)).setMaker k l) where
  made := by
    intro k' l' maker
    rcases maker_setMaker maker with ⟨rfl, -⟩ | ⟨-, old⟩
    · intro free
      rw [show s.reactor.calls k' = .free from free] at busy
      cases busy
    · exact nested.made k' l' old
  waits := by
    intro k' l' maker busy'
    rcases maker_setMaker maker with ⟨rfl, rfl⟩ | ⟨-, old⟩
    · exact ⟨_, Function.update_self _ _ _, rfl⟩
    · obtain ⟨f, there, inner⟩ := nested.waits k' l' old busy'
      have other : l' ≠ l := by
        rintro rfl
        rw [inside] at there
        cases there
        cases inner
      exact ⟨f, (Function.update_of_ne other _ _).trans there, inner⟩
  makes := by
    intro l' f k' there inner
    rcases frame_setFrame there with ⟨rfl, ⟨⟩⟩ | ⟨-, old⟩
    · cases inner
      exact Function.update_self _ _ _
    · have maker := nested.makes l' f k' old inner
      have other : k' ≠ k := by
        rintro rfl
        rw [fresh] at maker
        cases maker
      exact (Function.update_of_ne other _ _).trans maker
  ordered := by
    have edges : ∀ x y, (s.setFrame l (some ⟨cb, cqe, some k⟩)).Reenters n x y →
        s.Reenters n x y ∨
          (x = l ∧ ∃ job stage, s.reactor.calls k = .active job stage ∧ job.loop n = y) := by
      rintro x y ⟨f, k', job, stage, there, inner, here, home⟩
      rcases frame_setFrame there with ⟨rfl, ⟨⟩⟩ | ⟨-, old⟩
      · cases inner
        exact Or.inr ⟨rfl, job, stage, here, home⟩
      · exact Or.inl ⟨f, k', job, stage, old, inner, here, home⟩
    by_cases active : ∃ job stage, s.reactor.calls k = .active job stage
    · obtain ⟨job, stage, here⟩ := active
      refine nested.ordered.insert (noWay job stage here) fun x y after => ?_
      rcases edges x y after with old | ⟨rfl, job', stage', here', home⟩
      · exact Or.inl old
      · cases here.symm.trans here'
        exact Or.inr ⟨rfl, home.symm⟩
    · refine nested.ordered.mono fun x y after => ?_
      rcases edges x y after with old | ⟨-, job, stage, here, -⟩
      · exact old
      · exact absurd ⟨job, stage, here⟩ active

end NestedCalls

/-- **No callback begins a call that leads back to it**: from the loop of the call, over
the loops whose consumers are in calls of their own, there is no way to the
loop of the callback.  The loop is known when the nonce is drawn, or given. -/
def LeadsAway (n : ℕ) (s : ReentrantReactor) : ReentrantEvent → Prop
  | .base (.draw k) =>
      ∀ l, s.maker k = some l → s.reactor.currentNonce + 1 < cancelNonce →
        ¬ ReflTransGen (s.Reenters n) (loopForNonce n (s.reactor.currentNonce + 1)) l
  | .make l (.cancel _ nonce) => ¬ ReflTransGen (s.Reenters n) (loopForNonce n nonce) l
  | _ => True

theorem NestedCalls.make (nested : NestedCalls n s) {l cb k : ℕ} {cqe : CQEvent}
    {e : ReactorEvent} {r : EventReactor} (inside : s.frame l = some ⟨cb, cqe, none⟩)
    (new : e.newCall = some k) (stepped : s.reactor.step n e = some r)
    (away : s.LeadsAway n (.make l e)) :
    NestedCalls n (((s.withReactor r).setFrame l (some ⟨cb, cqe, some k⟩)).setMaker k l) := by
  have noDraw : ∀ k', e ≠ .draw k' := by
    rintro k' rfl
    cases new
  obtain ⟨free, busy⟩ := EventReactor.busy_of_newCall stepped new
  have fresh : s.maker k = none := by
    refine Option.eq_none_iff_forall_ne_some.mpr fun l' maker => ?_
    exact nested.made k l' maker free
  have moved : NestedCalls n (s.withReactor r) :=
    nested.move stepped fun k' _ draw => absurd draw (noDraw k')
  refine moved.push inside fresh busy fun job stage here back => ?_
  have next := EventReactor.step_calls stepped k
  rw [free, show r.calls k = .active job stage from here] at next
  cases next with
  | cancel =>
      -- What leads back after the step led back before it.
      refine away (ReflTransGen.mono (fun x y after => ?_) _ _ back)
      rcases nested.reenters_of_step stepped after with old | ⟨k', draw, -⟩
      · exact old
      · exact absurd draw (noDraw k')

theorem NestedCalls.step (nested : NestedCalls n s) (away : s.LeadsAway n e)
    (stepped : s.step n e = some s') : NestedCalls n s' := by
  cases step_transition stepped with
  | base _ done =>
      refine nested.move done ?_
      rintro k l rfl
      exact away l
  | enter _ outside _ =>
      refine nested.setFrame ?_ ?_
      · intro g k inside
        rw [outside] at inside
        cases inside
      · rintro g ⟨⟩
        rfl
  | make inside new done => exact nested.make inside new done away
  | back inside isOver =>
      refine nested.setFrame ?_ ?_
      · intro g k there inner
        rw [inside] at there
        cases there
        cases inner
        exact Call.not_busy_of_isOver isOver
      · rintro g ⟨⟩
        rfl
  | leave inside done =>
      have moved := nested.move done (by rintro k l ⟨⟩)
      refine moved.setFrame ?_ ?_
      · intro g k there inner
        change s.frame _ = some g at there
        rw [inside] at there
        cases there
        cases inner
      · rintro g ⟨⟩

/-- Whoever a `queueSQELock` names is inside it. -/
theorem inside_of_path {rings : ℕ → ReactorRing false}
    {p : List (ReentrantReactor × ReentrantEvent)}
    (path : Runs.Path (ReentrantReactor.step n) (ReentrantReactor.start rings) p s) :
    ∀ l, (s.reactor.view n l).Inside := by
  obtain ⟨q, run⟩ := path_reactor path
  refine run.invariant_of_step (fun r => ∀ l, (r.view n l).Inside)
    (EventReactor.inside_start rings n) ?_
  intro r e r' inside stepped
  exact EventReactor.views_step inside (fun l _ => (inside l).move) stepped

/-- **Callbacks whose calls lead away do not deadlock.** -/
theorem reentrant_deadlock_free (n : ℕ) (rings : ℕ → ReactorRing false)
    {p : List (ReentrantReactor × ReentrantEvent)}
    (path : Runs.Path (ReentrantReactor.step n) (ReentrantReactor.start rings) p s)
    (away : ∀ x ∈ p, x.1.LeadsAway n x.2) : ∀ t ∈ Runs.visited p s, t.DeadlockFree n := by
  intro t mem
  obtain ⟨q, short, run⟩ := path.exists_of_visited mem
  have nested : NestedCalls n t := by
    refine run.invariant (NestedCalls n) (LeadsAway n) (.start rings n) ?_ ?_
    · intro s e s' nested away stepped
      exact nested.step away stepped
    · intro x there
      exact away x (short.subset there)
  exact nested.deadlockFree (inside_of_path run)

/-- A callback calls no loop but those whose consumers are in no callback, and not its
own. -/
def callsIdle (n : ℕ) (s : ReentrantReactor) : ReentrantEvent → Bool
  | .base (.draw k) =>
      let m := loopForNonce n (s.reactor.currentNonce + 1)
      (s.maker k).all fun l => (s.frame m).isNone && m != l
  | .make l (.cancel _ nonce) =>
      (s.frame (loopForNonce n nonce)).isNone && loopForNonce n nonce != l
  | _ => true

/-- Nothing leads on from a consumer that is in no callback. -/
theorem leadsAway_of_callsIdle (idle : s.callsIdle n e = true) : s.LeadsAway n e := by
  have stop : ∀ {l m : ℕ}, ((s.frame m).isNone && m != l) = true →
      ¬ ReflTransGen (s.Reenters n) m l := by
    intro l m here path
    obtain ⟨outside, other⟩ := Bool.and_eq_true_iff.mp here
    rcases ReflTransGen.cases_head path with rfl | ⟨x, ⟨f, -, -, -, inside, -⟩, -⟩
    · simp at other
    · rw [inside] at outside
      cases outside
  cases e with
  | base e =>
      cases e with
      | draw k =>
          intro l maker _
          refine stop ?_
          simpa only [callsIdle, maker, Option.all_some] using idle
      | _ => trivial
  | make l e =>
      cases e with
      | cancel k nonce => exact stop idle
      | _ => trivial
  | _ => trivial

/-- Call 0 is a `Queue`; it is served by loop `l`, whose consumer enters its
callback. -/
def entered (l : ℕ) : List ReentrantEvent :=
  [.base (.queue 0 nopOp 0), .base (.draw 0)] ++ List.replicate 5 (.base (.call 0 0)) ++
    [.base (.signal l)] ++ List.replicate 4 (.base (.publish l (.consumed 1))) ++
    [.base (.kernel l (.complete 0 5 0)), .base (.consumer l .wait), .base (.consumer l .peek),
      .enter l]

/-- The callback calls `Queue`, which takes its first steps. -/
def callsQueue (l steps : ℕ) : List ReentrantEvent :=
  [.make l (.queue 1 nopOp 0), .base (.draw 1)] ++ List.replicate steps (.base (.call 1 0))

/-- With two loops the callback of the first request queues a second one, on the other
loop, and returns. -/
theorem reentrant_deadlock_free_two_loops :
    ∃ p s, Runs.Path (ReentrantReactor.step 2) (ReentrantReactor.start (twoSlots false)) p s ∧
      s.reactor.invoked = [(0, ⟨1, 5, 0⟩)] ∧ s.maker 1 = some 1 ∧
      (s.reactor.loops 0).callbacks 2 = some 1 ∧ ∀ t ∈ Runs.visited p s, t.DeadlockFree 2 := by
  refine ⟨_, _, Runs.path_record (entered 1 ++ callsQueue 1 5 ++ [.back 1, .leave 1]) rfl, rfl,
    rfl, rfl, ?_⟩
  refine reentrant_deadlock_free 2 (twoSlots false) (Runs.path_record _ rfl) fun x mem => ?_
  have idle : ∀ x ∈ Runs.record (ReentrantReactor.step 2) (ReentrantReactor.start (twoSlots false))
      (entered 1 ++ callsQueue 1 5 ++ [.back 1, .leave 1]), x.1.callsIdle 2 x.2 = true := by
    decide +kernel
  exact leadsAway_of_callsIdle (idle x mem)

/-- A callback whose `Queue` is about the loop of its own consumer waits for that
consumer as soon as the SQE is queued. -/
theorem waitsFor_self {l k : ℕ} {f : CallbackFrame} {job : Job} (inside : s.frame l = some f)
    (made : s.maker k = some l) (queued : s.reactor.calls k = .active job .queued)
    (home : job.loop n = l) :
    WaitsFor (s.WaitsAt n) s.HeldBy (.consumer l) (.consumer l) := by
  refine ⟨.callbacksLock l, ?_, .consumer inside⟩
  have on : s.goroutine k = .consumer l := by
    rw [goroutine, made]
  rw [← home] at on ⊢
  exact .register on queued

/-- **With one loop the callback waits for its own consumer**: the `Queue` it calls is at
the `callbacksLock` that the consumer holds while it is in the callback. -/
theorem reentrant_queue_deadlocks :
    ∃ p s, Runs.Path (ReentrantReactor.step 1) (ReentrantReactor.start (twoSlots false)) p s ∧
      WaitsFor (s.WaitsAt 1) s.HeldBy (.consumer 0) (.consumer 0) ∧ ¬ s.DeadlockFree 1 := by
  obtain ⟨p, s, path, ⟨f, inside⟩, made, job, queued⟩ : ∃ p s,
      Runs.Path (ReentrantReactor.step 1) (ReentrantReactor.start (twoSlots false)) p s ∧
        (∃ f, s.frame 0 = some f) ∧ s.maker 1 = some 0 ∧
        ∃ job, s.reactor.calls 1 = .active job .queued :=
    ⟨_, _, Runs.path_record (entered 0 ++ callsQueue 0 3) rfl, ⟨_, rfl⟩, rfl, _, rfl⟩
  have home : job.loop 1 = 0 := by
    cases job with
    | queue => exact Nat.mod_one _
    | cancel => exact Nat.mod_one _
  have self := waitsFor_self inside made queued home
  exact ⟨p, s, path, self, fun free => free _ (.single self)⟩

end Locks

end ReentrantReactor

end GoUring.Reactor
