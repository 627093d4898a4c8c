import GoUring.Foundation.Correlation
import GoUring.Reactor.NetReactor

/-!
# The requests of a network reactor

What the dispatch of a network reactor rests on, read off its state in two parts.
`Numbering` is how requests get their identifiers: a counter for each descriptor.
`NetReactor.ledger` is the exchange itself, as a `Correlation.Ledger`: the calls
are the rows, the registry is the table, and the identifiers that travel are
those in the channels and rings of all loops.
-/

namespace GoUring.Reactor

open Uring Correlation

/-! ## Numbering -/

/-- The ticket of each call, how many tickets each descriptor has had, and the
nonce it gave out last. -/
@[ext]
structure Numbering where
  ticket : ℕ → Option Ticket
  adds : ℕ → ℕ
  counter : ℕ → UInt32

namespace Numbering

/-- The ticket the next request for an operation gets. -/
def next (N : Numbering) (op : NetOperation) : Ticket :=
  op.ticket (N.counter op.fd + 1) (N.adds op.fd + 1)

/-- Call `k` draws a ticket. -/
def draw (N : Numbering) (k : ℕ) (op : NetOperation) : Numbering where
  ticket := Function.update N.ticket k (some (N.next op))
  adds := Function.update N.adds op.fd (N.adds op.fd + 1)
  counter := Function.update N.counter op.fd (N.counter op.fd + 1)

/-- The tickets of a descriptor are numbered consecutively, and the nonce is the
number modulo `2 ^ 32`. -/
structure WF (N : Numbering) : Prop where
  nonce : ∀ k t, N.ticket k = some t → t.nonce = UInt32.ofNat t.serial
  serial_le : ∀ k t, N.ticket k = some t → t.serial ≤ N.adds t.fd
  serial_inj : ∀ j k t u, N.ticket j = some t → N.ticket k = some u → t.fd = u.fd →
    t.serial = u.serial → j = k
  counter : ∀ fd, N.counter fd = UInt32.ofNat (N.adds fd)

theorem ticket_draw {N : Numbering} {k j : ℕ} {op : NetOperation} {t : Ticket}
    (drawn : (N.draw k op).ticket j = some t) :
    (j = k ∧ t = N.next op) ∨ (j ≠ k ∧ N.ticket j = some t) := by
  by_cases this : j = k
  · subst this
    simp only [draw, Function.update_self, Option.some.injEq] at drawn
    exact Or.inl ⟨rfl, drawn.symm⟩
  · simp only [draw, Function.update_of_ne this] at drawn
    exact Or.inr ⟨this, drawn⟩

theorem le_adds_draw (N : Numbering) (k : ℕ) (op : NetOperation) (fd : ℕ) :
    N.adds fd ≤ (N.draw k op).adds fd := by
  by_cases this : fd = op.fd
  · subst this
    simp [draw]
  · simp [draw, Function.update_of_ne this]

theorem WF.draw {N : Numbering} (wf : N.WF) (k : ℕ) (op : NetOperation) : (N.draw k op).WF := by
  have counter : N.counter op.fd + 1 = UInt32.ofNat (N.adds op.fd + 1) := by
    rw [wf.counter, UInt32.ofNat_add]
    rfl
  -- The new number is above all earlier ones of the descriptor.
  have above : ∀ j t, N.ticket j = some t → t.fd = op.fd → t.serial ≠ N.adds op.fd + 1 := by
    intro j t old fd same
    have le := wf.serial_le j t old
    rw [fd, same] at le
    exact Nat.not_succ_le_self _ le
  refine ⟨?_, ?_, ?_, ?_⟩
  · intro j t drawn
    rcases ticket_draw drawn with ⟨-, rfl⟩ | ⟨-, old⟩
    · exact counter
    · exact wf.nonce j t old
  · intro j t drawn
    rcases ticket_draw drawn with ⟨-, rfl⟩ | ⟨-, old⟩
    · show N.adds op.fd + 1 ≤ Function.update N.adds op.fd _ op.fd
      rw [Function.update_self]
    · exact (wf.serial_le j t old).trans (N.le_adds_draw k op t.fd)
  · intro i j t u drawn drawn' fd serial
    rcases ticket_draw drawn with ⟨rfl, rfl⟩ | ⟨-, old⟩
    · rcases ticket_draw drawn' with ⟨rfl, -⟩ | ⟨-, old'⟩
      · rfl
      · exact absurd serial.symm (above j u old' fd.symm)
    · rcases ticket_draw drawn' with ⟨rfl, rfl⟩ | ⟨-, old'⟩
      · exact absurd serial (above i t old fd)
      · exact wf.serial_inj i j t u old old' fd serial
  · intro fd
    by_cases this : fd = op.fd
    · subst this
      simp only [Numbering.draw, Function.update_self]
      exact counter
    · simp only [Numbering.draw, Function.update_of_ne this]
      exact wf.counter fd

/-- **Identifiers tell requests apart** as long as neither descriptor has had
`2 ^ 32` requests since. -/
theorem WF.eq_of_id_eq {N : Numbering} (wf : N.WF) {j k : ℕ} {t u : Ticket}
    (hj : N.ticket j = some t) (hk : N.ticket k = some u) (same : t.id = u.id)
    (young : N.adds t.fd < t.serial + 2 ^ 32) (young' : N.adds u.fd < u.serial + 2 ^ 32) :
    j = k := by
  have small : ∀ v : Ticket, v.fd < 2 ^ 32 := fun v => lt_trans v.fd_lt (by decide)
  have fd : t.fd = u.fd := by
    have := congrArg RequestID.fd same
    rwa [Ticket.id, Ticket.id, RequestID.fd_pack (small t), RequestID.fd_pack (small u)] at this
  have nonce : t.serial % 2 ^ 32 = u.serial % 2 ^ 32 := by
    have := congrArg RequestID.nonce same
    rw [Ticket.id, Ticket.id, RequestID.nonce_pack (small t), RequestID.nonce_pack (small u),
      wf.nonce j t hj, wf.nonce k u hk] at this
    have := congrArg UInt32.toNat this
    rwa [UInt32.toNat_ofNat', UInt32.toNat_ofNat'] at this
  have le := wf.serial_le j t hj
  have le' := wf.serial_le k u hk
  rw [fd] at le young
  exact wf.serial_inj j k t u hj hk fd (by omega)

end Numbering

/-! ## The ledger of a reactor -/

/-- The user data in a loop's channel. -/
def NetLoop.inReqBuss (loop : NetLoop) : Multiset UInt64 :=
  loop.reqBuss.map SubSqeRequest.userData

/-- The user data a loop is responsible for. -/
def NetLoop.held (loop : NetLoop) : Multiset UInt64 := loop.inReqBuss + loop.engine.carried

namespace NetReactor

/-- The numbering of a reactor. -/
def numbering (s : NetReactor) : Numbering where
  ticket k := (s.calls k).ticket
  adds := s.adds
  counter := s.registry.counter

/-- The callback of call `k` was invoked or dropped. -/
def ended (s : NetReactor) (k : ℕ) : Bool :=
  decide (k ∈ s.invoked.map Prod.fst) || decide (k ∈ s.dropped)

/-- What is known about call `k`. -/
def row (s : NetReactor) (k : ℕ) : Row UInt64 where
  key := (s.calls k).ticket.map Ticket.id
  registered := (s.calls k).registered
  launched := (s.calls k).launched
  ended := s.ended k

/-- The user data the loops are responsible for. -/
def held (n : ℕ) (s : NetReactor) : Multiset UInt64 := ∑ l ∈ Finset.range n, (s.loops l).held

/-- The exchange of a reactor. -/
def ledger (n : ℕ) (s : NetReactor) : Ledger UInt64 where
  row := s.row
  table := s.registry.lookup
  flight := inFlight n fun l => (s.loops l).held

/-- Call `k` has drawn the ticket `t` and its request is not over: its callback
was not invoked, and if it was dropped, then its identifier is still on its way. -/
def Outstanding (n : ℕ) (s : NetReactor) (k : ℕ) (t : Ticket) : Prop :=
  (s.calls k).ticket = some t ∧ k ∉ s.invoked.map Prod.fst ∧
    (k ∈ s.dropped → t.id ∈ (s.ledger n).flight)

/-- **Fewer than `2 ^ 32` requests per descriptor during the life of a request.** -/
def LifeBound (n : ℕ) (s : NetReactor) : Prop :=
  ∀ k t, s.Outstanding n k t → s.adds t.fd < t.serial + 2 ^ 32

section Frames

variable {n l : ℕ} {s s' : NetReactor} {loop : NetLoop}

theorem held_of_ne (loops : s'.loops = Function.update s.loops l loop) (l' : ℕ)
    (other : l' ≠ l) : (s'.loops l').held = (s.loops l').held := by
  rw [loops, Function.update_of_ne other]

theorem held_of_eq (loops : s'.loops = Function.update s.loops l loop) :
    (s'.loops l).held = loop.held := by
  rw [loops, Function.update_self]

/-- One loop changes, and keeps its requests. -/
theorem flight_same (loops : s'.loops = Function.update s.loops l loop)
    (same : requestIDs loop.held = requestIDs (s.loops l).held) :
    (s'.ledger n).flight = (s.ledger n).flight :=
  inFlight_same (held_of_ne loops) (by rw [held_of_eq loops, same])

/-- An identifier more in one loop is an identifier more that travels. -/
theorem flight_cons (lt : l < n) (loops : s'.loops = Function.update s.loops l loop) {ud : UInt64}
    (more : requestIDs loop.held = ud ::ₘ requestIDs (s.loops l).held) :
    (s'.ledger n).flight = ud ::ₘ (s.ledger n).flight :=
  inFlight_cons lt (held_of_ne loops) (by rw [held_of_eq loops, more])

/-- An identifier less in one loop is an identifier less that travels. -/
theorem flight_erase (lt : l < n) (loops : s'.loops = Function.update s.loops l loop)
    {ud : UInt64} (less : requestIDs (s.loops l).held = ud ::ₘ requestIDs loop.held) :
    ud ∈ (s.ledger n).flight ∧ (s'.ledger n).flight = (s.ledger n).flight.erase ud :=
  inFlight_erase lt (held_of_ne loops) (by rw [held_of_eq loops, less])

/-- What is known about the calls, when one call moves on. -/
theorem row_setCall {k : ℕ} {call : NetCall} (calls : s'.calls = Function.update s.calls k call)
    (invoked : s'.invoked = s.invoked) (dropped : s'.dropped = s.dropped) :
    s'.row = Function.update s.row k
      { key := call.ticket.map Ticket.id
        registered := call.registered
        launched := call.launched
        ended := s.ended k } := by
  funext j
  by_cases this : j = k
  · subst this
    simp only [row, ended, calls, invoked, dropped, Function.update_self]
  · simp only [row, ended, calls, invoked, dropped, Function.update_of_ne this]

end Frames

end NetReactor

/-! ## Queueing a request -/

/-- How the publisher gets on with a request. -/
inductive NetLoop.Queued (e : Engine) (req : SubSqeRequest) (reads : ℕ) (e' : Engine) :
    Option RingError → Prop
  /-- The operation, and the link timeout of a timed request, are in the SQ. -/
  | all (room : e.sq.pending.length < e.sq.entries)
      (fits : req.timeout ≠ 0 → e.sq.pending.length + 1 = e.sq.entries → reads ≠ 0)
      (carried : requestIDs e'.carried = requestIDs (req.userData ::ₘ e.carried)) :
      Queued e req reads e' none
  /-- There was no slot for the operation. -/
  | nothing {err : RingError} (full : e.sq.pending.length = e.sq.entries) (same : e' = e) :
      Queued e req reads e' (some err)
  /-- The operation took the last slot, and there was none for its link
  timeout. -/
  | half {err : RingError} (timed : req.timeout ≠ 0)
      (last : e.sq.pending.length + 1 = e.sq.entries) (idle : reads = 0)
      (carried : e'.carried = req.userData ::ₘ e.carried) :
      Queued e req reads e' (some err)

namespace NetLoop

variable {e e' : Engine} {req : SubSqeRequest} {spec : UInt64} {reads : ℕ}
  {err : Option RingError}

/-- **What the publisher does with a request.** -/
theorem queueRequest_spec (done : queueRequest e req spec reads = some (err, e')) :
    e'.pc = e.pc ∧ e'.sqPoll = e.sqPoll ∧ Queued e req reads e' err := by
  unfold queueRequest at done
  split at done
  · next untimed =>
    rcases Engine.queueSQE_spec done with
      ⟨full, rfl, rfl⟩ | ⟨room, rfl, sqe, sq, rfl, ud, pending, -, -⟩
    · exact ⟨rfl, rfl, .nothing full rfl⟩
    · refine ⟨rfl, rfl, .all room (fun timed => absurd untimed timed) ?_⟩
      rw [Engine.carried_withSQ_append pending, ud]
  · next timed =>
    obtain ⟨⟨err₁, e₁⟩, first, rest⟩ := Option.bind_eq_some_iff.mp done
    rcases Engine.queueSQE_spec first with
      ⟨full, rfl, rfl⟩ | ⟨room, rfl, sqe, sq, rfl, ud, pending, -, entries⟩
    · cases rest
      exact ⟨rfl, rfl, .nothing full rfl⟩
    · obtain ⟨e₂, read, second⟩ := Option.bind_eq_some_iff.mp rest
      obtain ⟨carried₂, pc₂, thread₂, entries₂, gone, length, front⟩ :=
        Engine.threadReads_spec reads read
      rw [Engine.sq_withSQ] at entries₂ front
      have length₂ := congrArg List.length front
      rw [pending, List.length_append, List.length_singleton, List.length_append, length] at length₂
      have carried₁ : e₂.carried = req.userData ::ₘ e.carried := by
        rw [carried₂, Engine.carried_withSQ_append pending, ud]
      rcases Engine.queueSQE_spec second with
        ⟨full, rfl, rfl⟩ | ⟨room', rfl, sqe', sq', rfl, ud', pending', -, -⟩
      · -- No slot is left for the link timeout: the thread has read nothing.
        exact ⟨pc₂, thread₂, .half timed (by omega) (by omega) carried₁⟩
      · refine ⟨pc₂, thread₂, .all room (fun _ last => by omega) ?_⟩
        rw [Engine.carried_withSQ_append pending', ud', carried₁]
        exact requestIDs_cons_of_reserved (Or.inl rfl) _

end NetLoop

end GoUring.Reactor
