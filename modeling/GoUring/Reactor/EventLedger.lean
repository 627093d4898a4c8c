import GoUring.Foundation.Correlation
import GoUring.Reactor.EventMoves

/-!
# The requests of a generic reactor

What the dispatch of a generic reactor rests on, read off its state.  `Nonces` is
how requests get their nonces: one counter for the whole reactor, which passes
over the reserved values.  `EventReactor.ledger` is the exchange itself, as a
`Correlation.Ledger`: the calls are the rows, the callbacks of the loop of each
nonce are the table, and the nonces that travel are those in the rings of all
loops.  A call launches its nonce first, with `QueueSQE`, and registers its
callback afterwards.

Two facts about single loops make the ledger whole.  A loop only ever sees the
nonces that `loopForNonce` gives it (`LoopView.Routed`).  And the SQE of a call
that has not registered its callback yet is one that the kernel does not see
(`LoopView.Hidden`): only `Submit` makes SQEs visible, and it takes the lock that
the call holds.
-/

namespace GoUring.Reactor

open Uring Correlation

/-! ## Nonces -/

/-- How many values `nextNonce` can return: all that are below `cancelNonce`. -/
def nonceCount : ℕ := 18446744073709551614

theorem toNat_cancelNonce : cancelNonce.toNat = nonceCount := rfl

/-- The nonce of a job, and the number of the draw that gave it out. -/
def Job.drawn : Job → Option (UInt64 × ℕ)
  | .queue _ _ nonce _ draw => some (nonce, draw)
  | .cancel _ => none

/-- The nonce a call has drawn, and the number of the draw. -/
def Call.drawn : Call → Option (UInt64 × ℕ)
  | .active job _ => job.drawn
  | .returned job _ => job.drawn
  | .recovered job => job.drawn
  | _ => none

/-- The counter, how many nonces were given out, and the nonce of each call. -/
@[ext]
structure Nonces where
  current : UInt64
  draws : ℕ
  drawn : ℕ → Option (UInt64 × ℕ)

namespace Nonces

/-- The counter passes over a reserved value. -/
def skip (N : Nonces) : Nonces := { N with current := N.current + 1 }

/-- Call `k` draws a nonce. -/
def draw (N : Nonces) (k : ℕ) : Nonces where
  current := N.current + 1
  draws := N.draws + 1
  drawn := Function.update N.drawn k (some (N.current + 1, N.draws + 1))

/-- Draws are numbered consecutively, and the nonce is the number modulo
`nonceCount`. -/
structure WF (N : Nonces) : Prop where
  current : N.current.toNat < nonceCount → N.current.toNat = N.draws % nonceCount
  /-- On a reserved value, the last nonce given out was the largest one. -/
  reserved : nonceCount ≤ N.current.toNat → N.draws % nonceCount = nonceCount - 1
  nonce : ∀ k x d, N.drawn k = some (x, d) → x.toNat = d % nonceCount
  draw_le : ∀ k x d, N.drawn k = some (x, d) → d ≤ N.draws
  draw_inj : ∀ j k x y d, N.drawn j = some (x, d) → N.drawn k = some (y, d) → j = k

theorem drawn_draw {N : Nonces} {k j : ℕ} {x : UInt64 × ℕ}
    (drawn : (N.draw k).drawn j = some x) :
    (j = k ∧ x = (N.current + 1, N.draws + 1)) ∨ (j ≠ k ∧ N.drawn j = some x) := by
  by_cases this : j = k
  · subst this
    simp only [draw, Function.update_self, Option.some.injEq] at drawn
    exact Or.inl ⟨rfl, drawn.symm⟩
  · simp only [draw, Function.update_of_ne this] at drawn
    exact Or.inr ⟨this, drawn⟩

theorem WF.skip {N : Nonces} (wf : N.WF) (reserved : cancelNonce ≤ N.current + 1) :
    N.skip.WF where
  current := by
    intro small
    rw [UInt64.le_iff_toNat_le, toNat_cancelNonce] at reserved
    exact absurd small (Nat.not_lt.mpr reserved)
  reserved := by
    intro _
    have current := wf.current
    have before := wf.reserved
    rw [UInt64.le_iff_toNat_le, toNat_cancelNonce, UInt64.toNat_add] at reserved
    simp only [nonceCount, UInt64.reduceToNat] at *
    show N.draws % 18446744073709551614 = 18446744073709551613
    omega
  nonce := wf.nonce
  draw_le := wf.draw_le
  draw_inj := wf.draw_inj

/-- The next nonce is the number of its draw. -/
theorem WF.next {N : Nonces} (wf : N.WF) (small : N.current + 1 < cancelNonce) :
    (N.current + 1).toNat = (N.draws + 1) % nonceCount := by
  have current := wf.current
  have before := wf.reserved
  have lt := N.current.toNat_lt
  rw [UInt64.lt_iff_toNat_lt, toNat_cancelNonce, UInt64.toNat_add] at small
  rw [UInt64.toNat_add]
  simp only [nonceCount, UInt64.reduceToNat] at *
  omega

theorem WF.draw {N : Nonces} (wf : N.WF) (small : N.current + 1 < cancelNonce) (k : ℕ) :
    (N.draw k).WF := by
  have next := wf.next small
  -- The new number is above all earlier ones.
  have above : ∀ j x, N.drawn j ≠ some (x, N.draws + 1) := by
    intro j x old
    exact Nat.not_succ_le_self _ (wf.draw_le j x _ old)
  refine ⟨fun _ => next, ?_, ?_, ?_, ?_⟩
  · intro large
    rw [UInt64.lt_iff_toNat_lt, toNat_cancelNonce] at small
    exact absurd small (Nat.not_lt.mpr large)
  · intro j x d drawn
    rcases drawn_draw drawn with ⟨-, new⟩ | ⟨-, old⟩
    · cases new
      exact next
    · exact wf.nonce j x d old
  · intro j x d drawn
    rcases drawn_draw drawn with ⟨-, new⟩ | ⟨-, old⟩
    · cases new
      exact le_rfl
    · exact (wf.draw_le j x d old).trans (Nat.le_succ _)
  · intro i j x y d drawn drawn'
    rcases drawn_draw drawn with ⟨rfl, new⟩ | ⟨-, old⟩
    · rcases drawn_draw drawn' with ⟨rfl, -⟩ | ⟨-, old'⟩
      · rfl
      · cases new
        exact absurd old' (above j y)
    · rcases drawn_draw drawn' with ⟨rfl, new'⟩ | ⟨-, old'⟩
      · cases new'
        exact absurd old (above i x)
      · exact wf.draw_inj i j x y d old old'

/-- **Nonces tell requests apart** as long as fewer than `nonceCount` were drawn
since either of them. -/
theorem WF.eq_of_nonce_eq {N : Nonces} (wf : N.WF) {j k : ℕ} {x : UInt64} {d d' : ℕ}
    (hj : N.drawn j = some (x, d)) (hk : N.drawn k = some (x, d'))
    (young : N.draws < d + nonceCount) (young' : N.draws < d' + nonceCount) : j = k := by
  have le := wf.draw_le j x d hj
  have le' := wf.draw_le k x d' hk
  have same : d % nonceCount = d' % nonceCount :=
    (wf.nonce j x d hj).symm.trans (wf.nonce k x d' hk)
  obtain rfl : d = d' := by
    have hd := Nat.div_add_mod d nonceCount
    have hd' := Nat.div_add_mod d' nonceCount
    simp only [nonceCount] at *
    omega
  exact wf.draw_inj j k x x d hj hk

end Nonces

/-! ## The ledger of a reactor -/

/-- The call has failed or panicked, or is about to: its SQE was not queued. -/
def Call.refused : Call → Bool
  | .active _ (.failed _) => true
  | .active _ .panicking => true
  | .returned _ (some _) => true
  | .recovered _ => true
  | _ => false

/-- The nonce that `Queue` returns to its caller. -/
def Call.nonce (call : Call) : Option UInt64 := call.drawn.map Prod.fst

/-- The key of a call: its nonce, unless the call was refused. -/
def Call.key (call : Call) : Option UInt64 := if call.refused then none else call.nonce

/-- The callback of the call is registered, or was. -/
def Call.registered : Call → Bool
  | .active job .registered => job.drawn.isSome
  | .returned job none => job.drawn.isSome
  | _ => false

/-- The SQE of the call is queued. -/
def Call.launched : Call → Bool
  | .active job .linking => job.drawn.isSome
  | .active job .queued => job.drawn.isSome
  | .active job .registered => job.drawn.isSome
  | .returned job none => job.drawn.isSome
  | _ => false

namespace EventReactor

/-- The nonces of a reactor. -/
def nonces (s : EventReactor) : Nonces where
  current := s.currentNonce
  draws := s.draws
  drawn k := (s.calls k).drawn

/-- The callback of call `k` was invoked. -/
def ended (s : EventReactor) (k : ℕ) : Bool := decide (k ∈ s.invoked.map Prod.fst)

/-- What is known about call `k`. -/
def row (s : EventReactor) (k : ℕ) : Row UInt64 where
  key := (s.calls k).key
  registered := (s.calls k).registered
  launched := (s.calls k).launched
  ended := s.ended k

/-- The exchange of a reactor with `n` loops. -/
def ledger (n : ℕ) (s : EventReactor) : Ledger UInt64 where
  row := s.row
  table nonce := (s.loops (loopForNonce n nonce)).callbacks nonce
  flight := inFlight n fun l => (s.loops l).engine.carried

/-- **Fewer than `2 ^ 64 - 2` nonces are drawn during the life of a request**, which
is over when its callback was invoked or its `Queue` failed or panicked. -/
def LifeBound (s : EventReactor) : Prop :=
  ∀ k nonce draw, (s.calls k).drawn = some (nonce, draw) → (s.calls k).refused = false →
    k ∉ s.invoked.map Prod.fst → s.draws < draw + (2 ^ 64 - 2)

section Frames

variable {n l k : ℕ} {s s' : EventReactor} {loop : EventLoop} {call : Call}

/-- What is known about the calls, when one call moves on. -/
theorem row_setCall (calls : s'.calls = Function.update s.calls k call)
    (invoked : s'.invoked = s.invoked) :
    s'.row = Function.update s.row k
      { key := call.key
        registered := call.registered
        launched := call.launched
        ended := s.ended k } := by
  funext j
  by_cases this : j = k
  · subst this
    simp only [row, ended, calls, invoked, Function.update_self]
  · simp only [row, ended, calls, invoked, Function.update_of_ne this]

/-- What is known about the calls, when the callback of one is invoked. -/
theorem row_invoked {cqe : CQEvent} (calls : s'.calls = s.calls)
    (invoked : s'.invoked = s.invoked ++ [(k, cqe)]) :
    s'.row = Function.update s.row k { s.row k with ended := true } := by
  funext j
  by_cases this : j = k
  · subst this
    simp [row, ended, calls, invoked]
  · simp only [row, ended, calls, invoked, Function.update_of_ne this, List.map_append,
      List.map_cons, List.map_nil, List.mem_append, List.mem_singleton, this, or_false]

/-- The nonces, when one call moves on and draws none. -/
theorem nonces_setCall (calls : s'.calls = Function.update s.calls k call)
    (drawn : call.drawn = (s.calls k).drawn) (current : s'.currentNonce = s.currentNonce)
    (draws : s'.draws = s.draws) : s'.nonces = s.nonces := by
  refine Nonces.ext current draws ?_
  funext j
  show (s'.calls j).drawn = (s.calls j).drawn
  by_cases this : j = k
  · subst this
    rw [calls, Function.update_self, drawn]
  · rw [calls, Function.update_of_ne this]

/-- The table, when one loop keeps its callbacks. -/
theorem table_same (loops : s'.loops = Function.update s.loops l loop)
    (callbacks : loop.callbacks = (s.loops l).callbacks) :
    (s'.ledger n).table = (s.ledger n).table := by
  funext nonce
  show (s'.loops (loopForNonce n nonce)).callbacks nonce = _
  by_cases this : loopForNonce n nonce = l
  · rw [loops, this, Function.update_self, callbacks, ← this]
    rfl
  · rw [loops, Function.update_of_ne this]
    rfl

/-- The table, when one loop changes what it has under a nonce of its own. -/
theorem table_update {nonce : UInt64} {cb : Option ℕ} (home : loopForNonce n nonce = l)
    (loops : s'.loops = Function.update s.loops l loop)
    (callbacks : loop.callbacks = Function.update (s.loops l).callbacks nonce cb) :
    (s'.ledger n).table = Function.update (s.ledger n).table nonce cb := by
  funext nonce'
  show (s'.loops (loopForNonce n nonce')).callbacks nonce' = _
  by_cases same : nonce' = nonce
  · subst same
    rw [loops, home, Function.update_self, callbacks, Function.update_self, Function.update_self]
  · rw [Function.update_of_ne same]
    show _ = (s.loops (loopForNonce n nonce')).callbacks nonce'
    by_cases this : loopForNonce n nonce' = l
    · rw [loops, this, Function.update_self, callbacks, Function.update_of_ne same]
    · rw [loops, Function.update_of_ne this]

theorem carried_of_ne (loops : s'.loops = Function.update s.loops l loop) (l' : ℕ)
    (other : l' ≠ l) : (s'.loops l').engine.carried = (s.loops l').engine.carried := by
  rw [loops, Function.update_of_ne other]

/-- What travels, when one loop keeps its requests. -/
theorem flight_same (loops : s'.loops = Function.update s.loops l loop)
    (same : requestIDs loop.engine.carried = requestIDs (s.loops l).engine.carried) :
    (s'.ledger n).flight = (s.ledger n).flight :=
  inFlight_same (carried_of_ne loops) (by rw [loops, Function.update_self, same])

/-- What travels, when one loop gets a request. -/
theorem flight_cons (lt : l < n) (loops : s'.loops = Function.update s.loops l loop)
    {ud : UInt64}
    (more : requestIDs loop.engine.carried = ud ::ₘ requestIDs (s.loops l).engine.carried) :
    (s'.ledger n).flight = ud ::ₘ (s.ledger n).flight :=
  inFlight_cons lt (carried_of_ne loops) (by rw [loops, Function.update_self, more])

/-- What travels, when one loop is done with a request. -/
theorem flight_erase (lt : l < n) (loops : s'.loops = Function.update s.loops l loop)
    {ud : UInt64}
    (less : requestIDs (s.loops l).engine.carried = ud ::ₘ requestIDs loop.engine.carried) :
    ud ∈ (s.ledger n).flight ∧ (s'.ledger n).flight = (s.ledger n).flight.erase ud :=
  inFlight_erase lt (carried_of_ne loops) (by rw [loops, Function.update_self, less])

end Frames

end EventReactor

/-! ## What each loop gets to see -/

/-- A call at this stage has queued its SQE and not registered its callback. -/
def QueueStage.unregistered : QueueStage → Bool
  | .linking => true
  | .queued => true
  | _ => false

namespace LoopView

variable {n l : ℕ} {v v' : LoopView} {e : ReactorEvent}

/-- **A loop only sees the nonces of its own requests.** -/
structure Routed (n l : ℕ) (v : LoopView) : Prop where
  callbacks : ∀ nonce k, v.loop.callbacks nonce = some k →
    loopForNonce n nonce = l ∧ ¬ Reserved nonce
  carried : ∀ ud ∈ v.loop.engine.carried, ¬ Reserved ud → loopForNonce n ud = l

/-- The user data of a job that is not reserved is the nonce of its loop. -/
theorem loopForNonce_userData {job : Job} (request : ¬ Reserved job.req.userData) :
    loopForNonce n job.req.userData = job.loop n := by
  cases job with
  | queue op timeout nonce small draw => rfl
  | cancel target => exact absurd (Or.inr rfl) request

/-- What `QueueSQE` adds. -/
theorem mem_carried_queueSQE {e e' : Engine} {op : Operation} {flags : UInt8} {userData ud : UInt64}
    {err : Option RingError} (queued : e.queueSQE op flags userData = some (err, e'))
    (mem : ud ∈ e'.carried) : ud = userData ∨ ud ∈ e.carried := by
  rcases Engine.queueSQE_spec queued with ⟨-, -, rfl⟩ | ⟨-, -, sqe, sq, rfl, rfl, pending, -, -⟩
  · exact Or.inr mem
  · rw [Engine.carried_withSQ_append pending] at mem
    exact Multiset.mem_cons.mp mem

/-- The call is not about to queue an operation whose `PrepSQE` panics in its slot. -/
def Prepares (v : LoopView) : ReactorEvent → Prop
  | .call k _ => ∀ job, v.active k = some (job, .flagged) →
      v.loop.engine.sq.sq.Prepares job.req.op
  | _ => True

/-- A panic is none of the moves. -/
theorem Prepares.not_panics {k : ℕ} {spec : UInt64} {job : Job} {flags : UInt8}
    {userData : UInt64} (prepares : v.Prepares (.call k spec))
    (here : v.active k = some (job, .flagged))
    (panics : v.loop.engine.queueSQE job.req.op flags userData = none) : False :=
  Engine.queueSQE_panics_iff.mp panics (prepares job here)

/-- **Every move keeps to the loop's own nonces**, unless a slot is abandoned with the nonce
of whatever was in it. -/
theorem Routed.move (routed : v.Routed n l) (prepares : v.Prepares e) (move : Move n l v e v') :
    v'.Routed n l := by
  cases move with
  | abandon home here panics => exact (prepares.not_panics here panics).elim
  | quiet quiet =>
      refine ⟨fun nonce k found => routed.callbacks nonce k (quiet.callbacks nonce k found), ?_⟩
      exact fun ud mem => routed.carried ud (Multiset.mem_of_le quiet.ring.carried mem)
  | queueOp home here done =>
      refine ⟨routed.callbacks, fun ud mem request => ?_⟩
      rcases mem_carried_queueSQE done mem with rfl | old
      · exact (loopForNonce_userData request).trans home
      · exact routed.carried ud old request
  | link home here done =>
      refine ⟨routed.callbacks, fun ud mem request => ?_⟩
      rcases mem_carried_queueSQE done mem with rfl | old
      · exact absurd (Or.inl rfl) request
      · exact routed.carried ud old request
  | @register k spec job home here =>
      refine ⟨fun nonce j found => ?_, routed.carried⟩
      change Function.update v.loop.callbacks job.req.userData (job.cb k) nonce = some j at found
      by_cases this : nonce = job.req.userData
      · subst this
        rw [Function.update_self] at found
        cases job with
        | queue op timeout nonce small draw => exact ⟨home, Job.not_reserved small⟩
        | cancel target => cases found
      · rw [Function.update_of_ne this] at found
        exact routed.callbacks nonce j found
  | submit here done =>
      refine ⟨routed.callbacks, fun ud mem => routed.carried ud ?_⟩
      obtain ⟨-, -, -, -, -, -, -, carried⟩ := Engine.submit_spec done
      rw [← carried]
      exact mem
  | _ => exact ⟨routed.callbacks, routed.carried⟩

/-- **The SQE of a call that has not registered its callback yet is hidden** from the
kernel. -/
def Hidden (v : LoopView) : Prop :=
  ∀ k job stage nonce, v.active k = some (job, stage) → stage.unregistered = true →
    job.nonce = some nonce → ∃ sqe ∈ v.loop.engine.unflushed, sqe.userData = nonce

/-- A call moves on, and nothing is flushed. -/
theorem Hidden.call (hidden : v.Hidden) {k : ℕ} {loop : EventLoop}
    {a : Option (Job × QueueStage)}
    (kept : ∀ sqe ∈ v.loop.engine.unflushed, sqe ∈ loop.engine.unflushed)
    (mine : ∀ job stage nonce, a = some (job, stage) → stage.unregistered = true →
      job.nonce = some nonce → ∃ sqe ∈ loop.engine.unflushed, sqe.userData = nonce) :
    Hidden { loop := loop, active := Function.update v.active k a } := by
  intro j job stage nonce here unregistered drawn
  rcases active_update here with ⟨-, new⟩ | ⟨-, old⟩
  · exact mine job stage nonce new unregistered drawn
  · obtain ⟨sqe, mem, same⟩ := hidden j job stage nonce old unregistered drawn
    exact ⟨sqe, kept sqe mem, same⟩

/-- What `QueueSQE` keeps from the kernel. -/
theorem unflushed_queueSQE {e e' : Engine} {op : Operation} {flags : UInt8}
    {userData : UInt64} {err : Option RingError}
    (queued : e.queueSQE op flags userData = some (err, e')) :
    (∀ sqe ∈ e.unflushed, sqe ∈ e'.unflushed) ∧
      (err = none → ∃ sqe ∈ e'.unflushed, sqe.userData = userData) := by
  rcases Engine.queueSQE_spec queued with
    ⟨-, rfl, rfl⟩ | ⟨-, rfl, sqe, sq, rfl, rfl, pending, visible, -⟩
  · refine ⟨fun _ mem => mem, ?_⟩
    rintro ⟨⟩
  · rw [Engine.unflushed_withSQ_append pending visible]
    exact ⟨fun _ mem => List.mem_append_left _ mem,
      fun _ => ⟨sqe, List.mem_append_right _ List.mem_cons_self, rfl⟩⟩

/-- **Every move keeps the SQEs of such calls hidden**: the one that flushes, the
submit, is made with the lock taken by the publisher. -/
theorem Hidden.move (hidden : v.Hidden) (locked : v.Locked) (move : Move n l v e v') :
    v'.Hidden := by
  cases move with
  | quiet quiet =>
      intro k job stage nonce here
      rw [quiet.active] at here
      rw [quiet.ring.unflushed]
      exact hidden k job stage nonce here
  | enter home away =>
      refine hidden.call (fun _ mem => mem) fun job stage nonce new => ?_
      cases new
      rintro ⟨⟩
  | lock home here free =>
      refine hidden.call (fun _ mem => mem) fun job stage nonce new => ?_
      cases new
      rintro ⟨⟩
  | flag home here =>
      refine hidden.call (fun _ mem => mem) fun job stage nonce new => ?_
      cases new
      rintro ⟨⟩
  | @queueOp k spec job err e home here done =>
      obtain ⟨kept, added⟩ := unflushed_queueSQE done
      refine hidden.call kept fun job' stage nonce new unregistered drawn => ?_
      cases new
      have queued : err = .none := by
        cases err with
        | none => rfl
        | some err => cases unregistered
      obtain ⟨sqe, mem, same⟩ := added queued
      refine ⟨sqe, mem, same.trans ?_⟩
      cases job with
      | queue op timeout nonce' small draw => exact Option.some.inj drawn
      | cancel target => cases drawn
  | abandon home here panics =>
      obtain ⟨-, pending, visible, -⟩ := Engine.abandonSQE_spec panics
      refine hidden.call (fun sqe mem => ?_) fun job stage nonce new => ?_
      · have kept : v.loop.engine.abandonSQE.unflushed = _ :=
          Engine.unflushed_withSQ_append pending visible
        show sqe ∈ v.loop.engine.abandonSQE.unflushed
        rw [kept]
        exact List.mem_append_left _ mem
      · cases new
        rintro ⟨⟩
  | link home here done =>
      obtain ⟨kept, -⟩ := unflushed_queueSQE done
      refine hidden.call kept fun job stage nonce new _ drawn => ?_
      cases new
      obtain ⟨sqe, mem, same⟩ := hidden _ _ _ _ here rfl drawn
      exact ⟨sqe, kept sqe mem, same⟩
  | register home here =>
      refine hidden.call (fun _ mem => mem) fun job stage nonce new => ?_
      cases new
      rintro ⟨⟩
  | leave home here last =>
      exact hidden.call (fun _ mem => mem) fun job stage nonce new => by cases new
  | swap here set => exact hidden
  | lockSubmit here free => exact hidden
  | submit here done =>
      intro k job stage nonce active unregistered
      have holds : stage.holds = true := by
        cases stage with
        | want => cases unregistered
        | _ => rfl
      have held := locked.callers k job stage active holds
      rw [locked.publisher _ here rfl] at held
      cases held
  | unlockSubmit here => exact hidden

end LoopView

end GoUring.Reactor
