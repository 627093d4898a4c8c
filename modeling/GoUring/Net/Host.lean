import GoUring.Reactor.NetCancel
import GoUring.Reactor.NetFlight

/-!
# Callbacks that wait

The callbacks of the `net` package send the completion on an unbuffered channel, so a
consumer waits inside the callback until somebody receives.  `Host` is a network reactor
together with the callbacks its consumers wait in.

The operations of the package are objects that their owner changes: what the channel
`reqBuss` carries is a pointer, and the publisher encodes what the object holds when it
gets there.  `NetReactor.repoint` puts the object's contents of the moment in the place
of what they were when the request was sent; it is nothing to the bookkeeping of the
reactor (`Alike`).
-/

namespace GoUring.Reactor

open Uring

namespace NetReactor

/-- The first request in the channel of loop `l` carries another operation. -/
def repoint (s : NetReactor) (l : ℕ) (op : Operation) : NetReactor :=
  match (s.loops l).reqBuss with
  | req :: rest => s.setLoop l { s.loops l with reqBuss := { req with op := op } :: rest }
  | [] => s

/-- The two reactors keep the same books. -/
structure Alike (n : ℕ) (s s' : NetReactor) : Prop where
  calls : s'.calls = s.calls
  numbering : s'.numbering = s.numbering
  ledger : s'.ledger n = s.ledger n
  invoked : s'.invoked = s.invoked
  dropped : s'.dropped = s.dropped
  channels : ∀ l, (s'.loops l).reqBuss.map SubSqeRequest.userData =
    (s.loops l).reqBuss.map SubSqeRequest.userData

variable {n : ℕ} {s s' : NetReactor}

theorem Alike.refl (n : ℕ) (s : NetReactor) : Alike n s s :=
  ⟨rfl, rfl, rfl, rfl, rfl, fun _ => rfl⟩

/-- The operation is in none of the books. -/
theorem alike_repoint (n : ℕ) (s : NetReactor) (l : ℕ) (op : Operation) :
    Alike n s (s.repoint l op) := by
  unfold repoint
  split
  · next req rest head =>
    refine ⟨rfl, rfl, Correlation.Ledger.ext rfl rfl ?_, rfl, rfl, fun l' => ?_⟩
    · refine flight_same rfl ?_
      refine congrArg (fun uds => requestIDs (uds + (s.loops l).engine.carried)) ?_
      show Multiset.ofList (List.map _ _) = Multiset.ofList (List.map _ (s.loops l).reqBuss)
      rw [head]
      rfl
    · show (Function.update s.loops l _ l').reqBuss.map _ = _
      by_cases this : l' = l
      · subst this
        rw [Function.update_self, head]
        rfl
      · rw [Function.update_of_ne this]
  · exact .refl n s

theorem Alike.outstanding (alike : Alike n s s') {k : ℕ} {t : Ticket} :
    s'.Outstanding n k t ↔ s.Outstanding n k t := by
  rw [Outstanding, Outstanding, alike.calls, alike.invoked, alike.dropped, alike.ledger]

theorem Alike.lifeBound (alike : Alike n s s') (life : s.LifeBound n) : s'.LifeBound n := by
  intro k t outstanding
  have adds : s'.adds = s.adds := congrArg Numbering.adds alike.numbering
  rw [adds]
  exact life k t (alike.outstanding.mp outstanding)

theorem Alike.base (alike : Alike n s s') (base : Base n s) : Base n s' :=
  base.of_quiet (alike.numbering ▸ base.numbering) (alike.ledger ▸ base.sound)
    (alike.ledger ▸ base.regular) alike.invoked fun _ _ ticket => alike.numbering ▸ ticket

theorem Alike.carried (alike : Alike n s s') (carried : Carried n s) : Carried n s' := by
  have row : s'.row = s.row := congrArg Correlation.Ledger.row alike.ledger
  refine carried.of_le (fun _ _ ticket => alike.numbering ▸ ticket) (fun k => by rw [row])
    (by rw [alike.ledger]) alike.invoked fun k isOver => carried.launched k ?_
  rw [ended, alike.invoked, alike.dropped] at isOver
  exact isOver

end NetReactor

/-- The consumer whose step an event is.  At its other steps it is not inside a batch, so
it does not wait in a callback. -/
def NetEvent.consumerOf : NetEvent → Option ℕ
  | .dispatch l => some l
  | .consumer l _ => some l
  | _ => none

/-- The call that an event makes. -/
def NetEvent.newCall : NetEvent → Option ℕ
  | .queue k _ => some k
  | .cancel k _ => some k
  | _ => none

/-- A call is made only once. -/
theorem NetReactor.free_of_newCall {n k : ℕ} {s s' : NetReactor} {e : NetEvent}
    (stepped : s.step n e = some s') (new : e.newCall = some k) : s.calls k = .free := by
  cases (step_transition stepped).2 with
  | queue here =>
      cases new
      exact here
  | cancel here =>
      cases new
      exact here
  | _ => cases new

namespace NetCall

/-- What a `Queue` or `QueueWithDeadline` was called with. -/
def args : NetCall → Option QueueArgs
  | .called args => some args
  | .drawn args _ _ => some args
  | .stored args _ _ => some args
  | .returned args _ _ => some args
  | _ => none

variable {e : NetEvent} {k : ℕ} {call call' : NetCall}

theorem Next.args_eq (next : Next e k call call') {a : QueueArgs} (known : call.args = some a) :
    call'.args = some a := by
  cases next with
  | queue event => cases known
  | cancel event => cases known
  | sendCancel id => cases known
  | _ => exact known

/-- A call that has returned stays as it is. -/
theorem Next.eq_of_launched (next : Next e k call call') (launched : call.launched = true) :
    call' = call := by
  cases next with
  | stay => rfl
  | _ => cases launched

theorem Next.eq_cancelled (next : Next e k .cancelled call') : call' = .cancelled := by
  cases next
  rfl

theorem Next.of_cancelling {id : RequestID} (next : Next e k (.cancelling id) call') :
    call' = .cancelling id ∨ call' = .cancelled := by
  cases next with
  | stay => exact Or.inl rfl
  | sendCancel => exact Or.inr rfl

/-- Only the event that makes a call moves it off its start. -/
theorem Next.eq_free (next : Next e k .free call') (old : e.newCall ≠ some k) :
    call' = .free := by
  cases next with
  | stay => rfl
  | queue event =>
      subst event
      exact absurd rfl old
  | cancel event =>
      subst event
      exact absurd rfl old

end NetCall

end GoUring.Reactor

namespace GoUring.Net

open Uring Reactor

/-- A network reactor, and for each loop the callback its consumer waits in, with the
completion it was called with. -/
structure Host where
  net : NetReactor
  delivering : ℕ → Option (ℕ × CQEvent)

namespace Host

/-- The callbacks consumers wait in after a step: a callback that waits is entered. -/
def deliveringAfter (blocks : ℕ → Bool) (s : Host) (net : NetReactor) :
    NetEvent → ℕ → Option (ℕ × CQEvent)
  | .dispatch l =>
      match net.invoked.drop s.net.invoked.length with
      | [(k, cqe)] =>
          if blocks k then Function.update s.delivering l (some (k, cqe)) else s.delivering
      | _ => s.delivering
  | _ => s.delivering

/-- A step of the reactor; `blocks k` if the callback of call `k` waits.  A consumer that
waits in a callback takes no step. -/
def step (n : ℕ) (blocks : ℕ → Bool) (s : Host) (e : NetEvent) : Option Host :=
  if (e.consumerOf.bind s.delivering).isSome then none
  else
    (s.net.step n e).map fun net => { net := net, delivering := s.deliveringAfter blocks net e }

/-- The consumer of loop `l` is let go. -/
def release (s : Host) (l : ℕ) : Host :=
  { s with delivering := Function.update s.delivering l none }

variable {n : ℕ} {blocks : ℕ → Bool} {s s' : Host} {e : NetEvent}

/-- **A step of a host** is a step of its reactor.  If it invokes a callback, its consumer
was not waiting in one, and waits in this one if the callback waits. -/
theorem step_spec (stepped : s.step n blocks e = some s') :
    s.net.step n e = some s'.net ∧
      ((s'.net.invoked = s.net.invoked ∧ s'.delivering = s.delivering) ∨
        ∃ l k cqe, e = .dispatch l ∧ s.delivering l = none ∧
          s'.net.invoked = s.net.invoked ++ [(k, cqe)] ∧
          s'.delivering =
            if blocks k then Function.update s.delivering l (some (k, cqe)) else s.delivering) := by
  unfold step at stepped
  split at stepped
  · cases stepped
  · next idle =>
    obtain ⟨net, moved, rfl⟩ := Option.map_eq_some_iff.mp stepped
    refine ⟨moved, ?_⟩
    rcases NetReactor.invoked_step moved with same | ⟨l, k, cqe, rfl, more, -⟩
    · refine Or.inl ⟨same, ?_⟩
      cases e with
      | dispatch l =>
          show s.deliveringAfter blocks net (.dispatch l) = _
          simp only [deliveringAfter, same, List.drop_length]
      | _ => rfl
    · refine Or.inr ⟨l, k, cqe, rfl, ?_, more, ?_⟩
      · simpa [NetEvent.consumerOf] using idle
      · show s.deliveringAfter blocks net (.dispatch l) = _
        simp only [deliveringAfter, more, List.drop_left]

end Host

end GoUring.Net
