import GoUring.Reactor.NetLedger

/-!
# What the steps of a network reactor do to its requests

`Effect` lists what a step can do to the numbering and to the ledger, and
`step_effect` derives it from the step function, one lemma for each group of
events.  Most steps do nothing to either.  The two that matter for the results on
dispatching are those of the publisher's error branch: it takes the callback of a
request out of the registry when the submission queue was full (`drop`), and also
when only the link timeout of the request found no slot and the operation is
already in the queue (`half`).
-/

namespace GoUring.Reactor

open Uring Correlation

namespace NetReactor

/-- In this step the publisher of a loop handles no timed request with exactly
one free slot in the submission queue. -/
def LinkTimeoutFits (s : NetReactor) : NetEvent → Prop
  | .request l _ reads => ∀ req rest, (s.loops l).reqBuss = req :: rest → req.timeout ≠ 0 →
      (s.loops l).engine.sq.pending.length + 1 = (s.loops l).engine.sq.entries → reads ≠ 0
  | _ => True

/-- In this step the publisher of a loop handles no request of `Queue` for which
the submission queue has too few free slots. -/
def RoomFor (s : NetReactor) : NetEvent → Prop
  | .request l _ reads => ∀ req rest, (s.loops l).reqBuss = req :: rest →
      ¬ Reserved req.userData →
        (s.loops l).engine.sq.pending.length < (s.loops l).engine.sq.entries ∧
          (req.timeout ≠ 0 →
            (s.loops l).engine.sq.pending.length + 1 = (s.loops l).engine.sq.entries →
              reads ≠ 0)
  | _ => True

/-- No callback is invoked or dropped, and none was found missing. -/
structure Quiet (s s' : NetReactor) : Prop where
  invoked : s'.invoked = s.invoked
  dropped : s'.dropped = s.dropped
  calm : s'.panicked ≠ some .nilCallback

/-- **What a step does to the requests of a reactor.** -/
inductive Effect (n : ℕ) (s : NetReactor) : NetEvent → NetReactor → Prop
  /-- Nothing. -/
  | idle {e : NetEvent} {s' : NetReactor} (numbering : s'.numbering = s.numbering)
      (ledger : s'.ledger n = s.ledger n) (quiet : Quiet s s') (room : s.RoomFor e) :
      Effect n s e s'
  /-- A call draws its identifier. -/
  | draw {k : ℕ} {op : NetOperation} {s' : NetReactor} (fresh : s.numbering.ticket k = none)
      (unregistered : (s.row k).registered = false) (grounded : (s.row k).launched = false)
      (numbering : s'.numbering = s.numbering.draw k op)
      (ledger : s'.ledger n = (s.ledger n).draw k (s.numbering.next op).id)
      (quiet : Quiet s s') : Effect n s (.draw k) s'
  /-- A call draws its identifier and registers its callback. -/
  | add {k : ℕ} {op : NetOperation} {s' : NetReactor} (fresh : s.numbering.ticket k = none)
      (unregistered : (s.row k).registered = false) (grounded : (s.row k).launched = false)
      (numbering : s'.numbering = s.numbering.draw k op)
      (ledger : s'.ledger n = ((s.ledger n).draw k (s.numbering.next op).id).register k
        (s.numbering.next op).id)
      (quiet : Quiet s s') : Effect n s (.draw k) s'
  /-- A call draws its identifier and stores a nil callback. -/
  | addNil {k : ℕ} {op : NetOperation} {s' : NetReactor} (fresh : s.numbering.ticket k = none)
      (unregistered : (s.row k).registered = false) (isNil : (s.calls k).isNil = true)
      (numbering : s'.numbering = s.numbering.draw k op)
      (ledger : s'.ledger n = ((s.ledger n).draw k (s.numbering.next op).id).clear
        (s.numbering.next op).id)
      (quiet : Quiet s s') : Effect n s (.draw k) s'
  /-- A call registers its callback. -/
  | store {k : ℕ} {id : RequestID} {s' : NetReactor} (key : (s.row k).key = some id)
      (unregistered : (s.row k).registered = false) (numbering : s'.numbering = s.numbering)
      (ledger : s'.ledger n = (s.ledger n).register k id) (quiet : Quiet s s') :
      Effect n s (.store k) s'
  /-- A call stores a nil callback. -/
  | storeNil {k : ℕ} {id : RequestID} {s' : NetReactor} (isNil : (s.calls k).isNil = true)
      (numbering : s'.numbering = s.numbering)
      (ledger : s'.ledger n = (s.ledger n).clear id) (quiet : Quiet s s') :
      Effect n s (.store k) s'
  /-- A call sends its request. -/
  | send {k : ℕ} {id : RequestID} {s' : NetReactor} (key : (s.row k).key = some id)
      (grounded : (s.row k).launched = false) (numbering : s'.numbering = s.numbering)
      (ledger : s'.ledger n = (s.ledger n).launch k id) (quiet : Quiet s s') :
      Effect n s (.send k) s'
  /-- A callback is invoked. -/
  | deliver {l k : ℕ} {cqe : CQEvent} {s' : NetReactor}
      (found : s.registry.lookup cqe.userData = some k)
      (travels : cqe.userData ∈ (s.ledger n).flight) (numbering : s'.numbering = s.numbering)
      (ledger : s'.ledger n = (s.ledger n).land k cqe.userData)
      (invoked : s'.invoked = s.invoked ++ [(k, cqe)]) (dropped : s'.dropped = s.dropped)
      (calm : s'.panicked ≠ some .nilCallback) : Effect n s (.dispatch l) s'
  /-- A completion has no callback. -/
  | missing {l : ℕ} {ud : UInt64} (found : s.registry.lookup ud = none)
      (travels : ud ∈ (s.ledger n).flight) :
      Effect n s (.dispatch l) { s with panicked := some .nilCallback }
  /-- The publisher finds no slot for a request and takes its callback out. -/
  | drop {l reads : ℕ} {spec : UInt64} {req : SubSqeRequest} {rest : List SubSqeRequest}
      {s' : NetReactor} (head : (s.loops l).reqBuss = req :: rest)
      (request : ¬ Reserved req.userData)
      (full : (s.loops l).engine.sq.pending.length = (s.loops l).engine.sq.entries)
      (travels : req.userData ∈ (s.ledger n).flight) (numbering : s'.numbering = s.numbering)
      (ledger : s'.ledger n =
        { (s.ledger n).pop req.userData with
          flight := (s.ledger n).flight.erase req.userData })
      (invoked : s'.invoked = s.invoked)
      (dropped : s'.dropped = s.dropped ++ (s.registry.lookup req.userData).toList)
      (calm : s'.panicked ≠ some .nilCallback) : Effect n s (.request l spec reads) s'
  /-- The publisher finds no slot for the link timeout of a request whose
  operation it has queued, and takes its callback out. -/
  | half {l reads : ℕ} {spec : UInt64} {req : SubSqeRequest} {rest : List SubSqeRequest}
      {s' : NetReactor} (lt : l < n) (head : (s.loops l).reqBuss = req :: rest)
      (request : ¬ Reserved req.userData) (timed : req.timeout ≠ 0)
      (last : (s.loops l).engine.sq.pending.length + 1 = (s.loops l).engine.sq.entries)
      (unread : reads = 0) (travels : req.userData ∈ (s.ledger n).flight)
      (carried : req.userData ∈ (s'.loops l).engine.carried)
      (numbering : s'.numbering = s.numbering)
      (ledger : s'.ledger n = (s.ledger n).pop req.userData)
      (invoked : s'.invoked = s.invoked)
      (dropped : s'.dropped = s.dropped ++ (s.registry.lookup req.userData).toList)
      (calm : s'.panicked ≠ some .nilCallback) : Effect n s (.request l spec reads) s'

section Steps

variable {n : ℕ} {s s' : NetReactor} {e : NetEvent}

/-- What the numbering and the ledger read of a call. -/
def summary (call : NetCall) : Option Ticket × Bool × Bool :=
  (call.ticket, call.registered, call.launched)

theorem summary_update {calls : ℕ → NetCall} {k : ℕ} {call : NetCall}
    (same : summary call = summary (calls k)) (j : ℕ) :
    summary (Function.update calls k call j) = summary (calls j) := by
  by_cases this : j = k
  · subst this
    rw [Function.update_self, same]
  · rw [Function.update_of_ne this]

/-- A step that leaves alone all that the numbering and the ledger read. -/
theorem Effect.of_same (calls : ∀ j, summary (s'.calls j) = summary (s.calls j))
    (counter : s'.registry.counter = s.registry.counter)
    (lookup : s'.registry.lookup = s.registry.lookup) (adds : s'.adds = s.adds)
    (flight : (s'.ledger n).flight = (s.ledger n).flight) (quiet : Quiet s s')
    (room : s.RoomFor e) : Effect n s e s' := by
  have ticket : ∀ j, (s'.calls j).ticket = (s.calls j).ticket :=
    fun j => congrArg Prod.fst (calls j)
  have registered : ∀ j, (s'.calls j).registered = (s.calls j).registered :=
    fun j => congrArg (fun x => x.2.1) (calls j)
  have launched : ∀ j, (s'.calls j).launched = (s.calls j).launched :=
    fun j => congrArg (fun x => x.2.2) (calls j)
  have rows : s'.row = s.row := by
    funext j
    simp only [row, ended, ticket, registered, launched, quiet.invoked, quiet.dropped]
  refine .idle ?_ (Ledger.ext rows lookup flight) quiet room
  simp only [numbering, ticket, counter, adds]

/-- A step inside one loop. -/
theorem Effect.of_loop {l : ℕ} {loop : NetLoop}
    (loops : s'.loops = Function.update s.loops l loop)
    (same : requestIDs loop.held = requestIDs (s.loops l).held) (calls : s'.calls = s.calls)
    (registry : s'.registry = s.registry) (adds : s'.adds = s.adds) (quiet : Quiet s s')
    (room : s.RoomFor e) : Effect n s e s' :=
  .of_same (fun j => by rw [calls]) (by rw [registry]) (by rw [registry]) adds
    (flight_same loops same) quiet room

/-- The engine of a loop is replaced by one that has the same user data under
way. -/
theorem held_withEngine {loop : NetLoop} {e : Engine} (carried : e.carried = loop.engine.carried) :
    (loop.withEngine e).held = loop.held := by
  show loop.inReqBuss + e.carried = loop.inReqBuss + loop.engine.carried
  rw [carried]

theorem numbering_draw {k : ℕ} {call : NetCall} {op : NetOperation}
    (calls : s'.calls = Function.update s.calls k call)
    (ticket : call.ticket = some (s.numbering.next op))
    (adds : s'.adds = Function.update s.adds op.fd (s.adds op.fd + 1))
    (counter : s'.registry.counter =
      Function.update s.registry.counter op.fd (s.registry.counter op.fd + 1)) :
    s'.numbering = s.numbering.draw k op := by
  refine Numbering.ext ?_ adds counter
  funext j
  show (s'.calls j).ticket = Function.update (fun j => (s.calls j).ticket) k _ j
  rw [calls]
  by_cases this : j = k
  · subst this
    rw [Function.update_self, Function.update_self, ticket]
  · rw [Function.update_of_ne this, Function.update_of_ne this]

/-- The registry's `add`, up to the point where the nonce is drawn. -/
theorem effect_draw {k : ℕ} {args : QueueArgs} (here : s.calls k = .called args)
    (alive : s.panicked = none) : Effect n s (.draw k) (s.drawNonce k args) := by
  have fresh : s.numbering.ticket k = none := by
    show (s.calls k).ticket = none
    rw [here]
    rfl
  have blank : s.row k =
      { key := none, registered := false, launched := false, ended := s.ended k } := by
    rw [row, here]
    rfl
  have unregistered : (s.row k).registered = false := by rw [blank]
  have grounded : (s.row k).launched = false := by rw [blank]
  have calm := ne_nilCallback_of_alive alive
  by_cases fast : s.registry.raw.fast args.op.fd = true
  · obtain ⟨nonce, counter, lookup⟩ := s.registry.addNonce_spec args.op.fd fast
    have drawn : s.drawNonce k args =
        { s.setCall k (.drawn args (s.registry.addNonce args.op.fd fast).1
            (s.adds args.op.fd + 1)) with
          registry := (s.registry.addNonce args.op.fd fast).2
          adds := Function.update s.adds args.op.fd (s.adds args.op.fd + 1) } := by
      rw [drawNonce, dif_pos fast]
    rw [drawn, nonce]
    refine .draw fresh unregistered grounded (numbering_draw rfl rfl rfl counter) ?_
      ⟨rfl, rfl, calm⟩
    refine Ledger.ext ?_ lookup rfl
    refine Eq.trans (row_setCall (s := s) rfl rfl rfl) ?_
    simp only [ledger, Ledger.draw, blank]
    rfl
  · have slow : s.registry.raw.fast args.op.fd = false := Bool.eq_false_iff.mpr fast
    have small : args.op.fd < 2 ^ 32 := lt_trans args.op.fd_lt (by decide)
    obtain ⟨nonce, counter, lookup⟩ := s.registry.slowAdd_spec small (args.cb k) slow
    have added : s.drawNonce k args =
        { s.setCall k (.stored args (s.registry.slowAdd args.op.fd (args.cb k) slow).1
            (s.adds args.op.fd + 1)) with
          registry := (s.registry.slowAdd args.op.fd (args.cb k) slow).2
          adds := Function.update s.adds args.op.fd (s.adds args.op.fd + 1) } := by
      rw [drawNonce, dif_neg fast]
    rw [added, nonce]
    cases isNil : args.nilCallback with
    | false =>
        have cb : args.cb k = some k := by rw [QueueArgs.cb, isNil]; rfl
        refine .add fresh unregistered grounded (numbering_draw rfl rfl rfl counter) ?_
          ⟨rfl, rfl, calm⟩
        refine Ledger.ext ?_ (lookup.trans (congrArg _ cb)) rfl
        refine Eq.trans (row_setCall (s := s) rfl rfl rfl) ?_
        simp only [ledger, Ledger.draw, Ledger.register, blank, Function.update_self,
          Function.update_idem, NetCall.registered, isNil]
        rfl
    | true =>
        have cb : args.cb k = none := by rw [QueueArgs.cb, isNil]; rfl
        refine .addNil fresh unregistered (by rw [here]; exact isNil)
          (numbering_draw rfl rfl rfl counter) ?_ ⟨rfl, rfl, calm⟩
        refine Ledger.ext ?_ (lookup.trans (congrArg _ cb)) rfl
        refine Eq.trans (row_setCall (s := s) rfl rfl rfl) ?_
        simp only [ledger, Ledger.draw, Ledger.clear, blank, NetCall.registered, isNil]
        rfl

/-- The second step of the registry's `add` on the fast path. -/
theorem effect_store {k : ℕ} {args : QueueArgs} {nonce : UInt32} {serial : ℕ}
    (here : s.calls k = .drawn args nonce serial)
    (fast : s.registry.raw.fast args.op.fd = true) (alive : s.panicked = none) :
    Effect n s (.store k)
      { s.setCall k (.stored args nonce serial) with
        registry := s.registry.storeCallback args.op.fd nonce (args.cb k) fast } := by
  have small : args.op.fd < 2 ^ 32 := lt_trans args.op.fd_lt (by decide)
  obtain ⟨counter, lookup⟩ := s.registry.storeCallback_spec small nonce (args.cb k) fast
  have before : s.row k =
      { key := some (args.op.ticket nonce serial).id
        registered := false
        launched := false
        ended := s.ended k } := by
    rw [row, here]
    rfl
  have calm := ne_nilCallback_of_alive alive
  have ticket : ∀ j, (Function.update s.calls k (.stored args nonce serial) j).ticket =
      (s.calls j).ticket := by
    intro j
    by_cases this : j = k
    · subst this
      rw [Function.update_self, here]
      rfl
    · rw [Function.update_of_ne this]
  cases isNil : args.nilCallback with
  | false =>
      have cb : args.cb k = some k := by rw [QueueArgs.cb, isNil]; rfl
      refine @Effect.store n s k (args.op.ticket nonce serial).id _ ?_ ?_
        (Numbering.ext (funext ticket) rfl counter) ?_ ⟨rfl, rfl, calm⟩
      · rw [before]
      · rw [before]
      · refine Ledger.ext ?_ (lookup.trans (congrArg _ cb)) rfl
        refine Eq.trans (row_setCall (s := s) rfl rfl rfl) ?_
        simp only [ledger, Ledger.register, before, NetCall.registered, isNil]
        rfl
  | true =>
      have cb : args.cb k = none := by rw [QueueArgs.cb, isNil]; rfl
      refine @Effect.storeNil n s k (args.op.ticket nonce serial).id _
        (by rw [here]; exact isNil)
        (Numbering.ext (funext ticket) rfl counter) ?_ ⟨rfl, rfl, calm⟩
      refine Ledger.ext ?_ (lookup.trans (congrArg _ cb)) rfl
      refine Eq.trans (row_setCall (s := s) rfl rfl rfl) ?_
      refine Function.update_eq_self_iff.mpr ?_
      simp only [before, NetCall.registered, isNil]
      rfl

/-- The user data of no request has no callback. -/
theorem lookup_reserved (sound : (s.ledger n).Sound) {ud : UInt64} (reserved : Reserved ud) :
    s.registry.lookup ud = none := by
  cases found : s.registry.lookup ud with
  | none => rfl
  | some k =>
      obtain ⟨⟨key, -⟩, -⟩ := sound ud k found
      obtain ⟨t, -, rfl⟩ := Option.map_eq_some_iff.mp key
      exact absurd reserved t.not_reserved

theorem loopForFd_lt (some_loop : 0 < n) (fd : ℕ) : loopForFd n fd < n :=
  Nat.mod_lt _ some_loop

/-- A request sent to a loop is held by the loop. -/
theorem held_send (loop : NetLoop) (req : SubSqeRequest) :
    ({ loop with reqBuss := loop.reqBuss ++ [req] } : NetLoop).held =
      req.userData ::ₘ loop.held := by
  show Multiset.ofList ((loop.reqBuss ++ [req]).map _) + loop.engine.carried = _
  rw [List.map_append, ← Multiset.coe_add, add_comm (Multiset.ofList _)]
  show (req.userData ::ₘ loop.inReqBuss) + loop.engine.carried = _
  rw [Multiset.cons_add]
  rfl

/-- A call of `queue` sends its request. -/
theorem effect_send (some_loop : 0 < n) {k : ℕ} {args : QueueArgs} {nonce : UInt32}
    {serial : ℕ} (here : s.calls k = .stored args nonce serial) (alive : s.panicked = none) :
    Effect n s (.send k)
      ((s.pushRequest (loopForFd n args.op.fd)
        ((args.op.ticket nonce serial).request args.op.op args.timeout)).setCall k
          (.returned args nonce serial)) := by
  have before : s.row k =
      { key := some (args.op.ticket nonce serial).id
        registered := !args.nilCallback
        launched := false
        ended := s.ended k } := by
    rw [row, here]
    rfl
  refine @Effect.send n s k (args.op.ticket nonce serial).id _ ?_ ?_ ?_ ?_
    ⟨rfl, rfl, ne_nilCallback_of_alive alive⟩
  · rw [before]
  · rw [before]
  · refine Numbering.ext ?_ rfl rfl
    funext j
    show (Function.update s.calls k _ j).ticket = (s.calls j).ticket
    by_cases this : j = k
    · subst this
      rw [Function.update_self, here]
      rfl
    · rw [Function.update_of_ne this]
  · refine Ledger.ext ?_ rfl ?_
    · refine Eq.trans (row_setCall (s := s) rfl rfl rfl) ?_
      simp only [ledger, Ledger.launch, before]
      rfl
    · refine flight_cons (loopForFd_lt some_loop args.op.fd) rfl ?_
      rw [held_send]
      exact requestIDs_cons (args.op.ticket nonce serial).not_reserved _

/-- The publisher's request case, taken apart. -/
theorem requestCase_cases {l reads : ℕ} {spec : UInt64}
    (stepped : s.requestCase l spec reads = some s') :
    ∃ req rest err e, (s.loops l).shell.publisher = .select ∧
      (s.loops l).reqBuss = req :: rest ∧
      NetLoop.queueRequest (s.loops l).engine req spec reads = some (err, e) ∧
      (s'.loops = Function.update s.loops l
          { (s.loops l).withEngine e with reqBuss := rest, submitAllowed := 1 } ∧
        s'.calls = s.calls ∧ s'.run = s.run ∧ s'.invoked = s.invoked ∧ s'.adds = s.adds ∧
        s'.panicked = s.panicked) ∧
      ((err = none ∧ s'.registry = s.registry ∧ s'.dropped = s.dropped) ∨
        (err ≠ none ∧ s'.registry = (s.registry.pop req.userData).2 ∧
          s'.dropped = s.dropped ++ (s.registry.lookup req.userData).toList)) := by
  unfold requestCase at stepped
  split at stepped
  · next req rest publisher bus =>
    obtain ⟨⟨err, e⟩, queued, rfl⟩ := Option.map_eq_some_iff.mp stepped
    refine ⟨req, rest, err, e, publisher, bus, queued, ?_, ?_⟩
    · cases err with
      | none => exact ⟨rfl, rfl, rfl, rfl, rfl, rfl⟩
      | some err => exact ⟨rfl, rfl, rfl, rfl, rfl, rfl⟩
    · cases err with
      | none => exact Or.inl ⟨rfl, rfl, rfl⟩
      | some err =>
          refine Or.inr ⟨nofun, rfl, ?_⟩
          rw [← (s.registry.pop_spec req.userData).1]
          rfl
  · cases stepped

/-- The publisher takes a callback out of the registry. -/
theorem ledger_pop {ud : UInt64} (calls : s'.calls = s.calls) (invoked : s'.invoked = s.invoked)
    (dropped : s'.dropped = s.dropped ++ (s.registry.lookup ud).toList)
    (registry : s'.registry = (s.registry.pop ud).2) :
    s'.row = ((s.ledger n).pop ud).row ∧
      s'.registry.lookup = ((s.ledger n).pop ud).table := by
  have lookup : s'.registry.lookup = Function.update s.registry.lookup ud none := by
    rw [registry, (s.registry.pop_spec ud).2.2]
  cases found : s.registry.lookup ud with
  | none =>
      have nothing : (s.ledger n).pop ud = s.ledger n := by
        simp only [Ledger.pop, ledger, found]
      rw [nothing]
      refine ⟨?_, ?_⟩
      · funext j
        simp only [ledger, row, ended, calls, invoked, dropped, found, Option.toList_none,
          List.append_nil]
      · rw [lookup]
        exact Function.update_eq_self_iff.mpr found.symm
  | some k =>
      have closed : (s.ledger n).pop ud = (s.ledger n).close k ud := by
        simp only [Ledger.pop, ledger, found]
      rw [closed]
      refine ⟨?_, lookup⟩
      funext j
      by_cases this : j = k
      · subst this
        simp [ledger, Ledger.close, row, ended, calls, invoked, dropped, found]
      · simp only [ledger, Ledger.close, row, ended, calls, invoked, dropped, found,
          Function.update_of_ne this, Option.toList_some, List.mem_append, List.mem_singleton,
          this, or_false]

/-- The publisher takes a request out of the channel. -/
theorem held_receive {loop : NetLoop} {req : SubSqeRequest} {rest : List SubSqeRequest}
    (head : loop.reqBuss = req :: rest) :
    loop.held = req.userData ::ₘ (Multiset.ofList (rest.map SubSqeRequest.userData) +
      loop.engine.carried) := by
  show Multiset.ofList (loop.reqBuss.map _) + _ = _
  rw [head, List.map_cons, ← Multiset.cons_coe, Multiset.cons_add]

theorem effect_request (sound : (s.ledger n).Sound) {l reads : ℕ} {spec : UInt64} (lt : l < n)
    (alive : s.panicked = none) (stepped : s.requestCase l spec reads = some s') :
    Effect n s (.request l spec reads) s' := by
  obtain ⟨req, rest, err, e, -, head, queued, ⟨loops, calls, -, invoked, adds, panicked⟩, error⟩ :=
    requestCase_cases stepped
  have calm := ne_nilCallback_of_alive (panicked.trans alive)
  have received := held_receive head
  -- What the loop holds afterwards.
  have after : ({ (s.loops l).withEngine e with reqBuss := rest, submitAllowed := 1 } :
      NetLoop).held = Multiset.ofList (rest.map SubSqeRequest.userData) + e.carried := rfl
  have numbering_pop : s'.registry = (s.registry.pop req.userData).2 →
      s'.numbering = s.numbering := by
    intro registry
    refine Numbering.ext ?_ adds ?_
    · simp only [numbering, calls]
    · show s'.registry.counter = s.registry.counter
      rw [registry, (s.registry.pop_spec req.userData).2.1]
  obtain ⟨-, -, outcome⟩ := NetLoop.queueRequest_spec queued
  cases outcome with
  | all room fits carried =>
      rcases error with ⟨-, registry, dropped⟩ | ⟨absurd', -⟩
      · refine .of_loop loops ?_ calls registry adds ⟨invoked, dropped, calm⟩ ?_
        · rw [after, received, ← Multiset.add_cons, requestIDs_add, requestIDs_add, carried]
        · intro req' rest' head' _
          rw [head] at head'
          cases head'
          exact ⟨room, fits⟩
      · exact absurd rfl absurd'
  | nothing full same =>
      subst same
      rcases error with ⟨absurd', -⟩ | ⟨-, registry, dropped⟩
      · cases absurd'
      · by_cases reserved : Reserved req.userData
        · -- A cancel is lost, but it has no callback.
          have none' := lookup_reserved sound reserved
          rw [none', Option.toList_none, List.append_nil] at dropped
          refine .of_same (fun j => by rw [calls]) ?_ ?_ adds ?_ ⟨invoked, dropped, calm⟩ ?_
          · rw [registry, (s.registry.pop_spec req.userData).2.1]
          · rw [registry, (s.registry.pop_spec req.userData).2.2]
            exact Function.update_eq_self_iff.mpr none'.symm
          · refine flight_same loops ?_
            rw [after, received, requestIDs_cons_of_reserved reserved]
          · intro req' rest' head' request
            rw [head] at head'
            cases head'
            exact absurd reserved request
        · obtain ⟨travels, flight⟩ := flight_erase (n := n) lt loops
            (received ▸ requestIDs_cons reserved _)
          obtain ⟨rows, table⟩ := ledger_pop (n := n) calls invoked dropped registry
          exact .drop head reserved full travels (numbering_pop registry)
            (Ledger.ext rows table flight) invoked dropped calm
  | half timed last idle carried =>
      rcases error with ⟨absurd', -⟩ | ⟨-, registry, dropped⟩
      · cases absurd'
      · have request : ¬ Reserved req.userData := fun reserved => timed (req.untimed reserved)
        have same : (s'.ledger n).flight = (s.ledger n).flight := by
          refine flight_same loops ?_
          rw [after, received, carried, Multiset.add_cons]
        obtain ⟨rows, table⟩ := ledger_pop (n := n) calls invoked dropped registry
        have here : (s'.loops l).engine = e := by
          rw [loops, Function.update_self]
          rfl
        refine .half lt head request timed last idle ?_ ?_ (numbering_pop registry)
          (Ledger.ext rows table (same.trans (Ledger.flight_pop _ _).symm)) invoked dropped calm
        · refine mem_inFlight lt ?_ request
          rw [received]
          exact Multiset.mem_cons_self _ _
        · rw [here, carried]
          exact Multiset.mem_cons_self _ _

theorem afterSignal_spec {pc pc' : ConsumerPC} (next : afterSignal pc = some pc') :
    pc.taken = 0 ∧ pc.stopped = false ∧ pc'.stopped = false := by
  cases pc with
  | signal => cases next; exact ⟨rfl, rfl, rfl⟩
  | resignal => cases next; exact ⟨rfl, rfl, rfl⟩
  | _ => cases next

/-- **What the publisher does with a signal.** -/
theorem submitCase_spec {flag flag' : UInt32} {e e' : Engine} {result : EnterResult}
    (done : NetLoop.submitCase flag e result = some (flag', e')) :
    e'.carried = e.carried ∧ e'.pc = e.pc ∧ e'.sqPoll = e.sqPoll := by
  unfold NetLoop.submitCase at done
  split at done
  · obtain ⟨⟨ret, e₁⟩, submitted, eq⟩ := Option.map_eq_some_iff.mp done
    obtain ⟨sqes, sq, -, rfl, -, -, -, carried⟩ := Engine.submit_spec submitted
    cases ret with
    | ok count =>
        cases eq
        exact ⟨carried, rfl, rfl⟩
    | error err =>
        cases eq
        exact ⟨carried, rfl, rfl⟩
  · cases done
    exact ⟨rfl, rfl, rfl⟩

/-- A signal of the consumer, taken apart. -/
theorem signalCase_cases {l : ℕ} {result : EnterResult}
    (stepped : s.signalCase l result = some s') :
    (s.loops l).engine.pc.taken = 0 ∧ (s.loops l).engine.pc.stopped = false ∧
      (((s.loops l).shell.closed .submitSignal = true ∧
          s' = { s with panicked := some (.channel (.sendOnClosed .submitSignal)) }) ∨
        ∃ pc idle flag e, (s.loops l).shell.closed .submitSignal = false ∧
          (s.loops l).shell.publisher = .select ∧ pc.stopped = false ∧
          NetLoop.submitCase (s.loops l).submitAllowed ((s.loops l).engine.goto pc idle)
            result = some (flag, e) ∧
          s' = s.setLoop l { (s.loops l).withEngine e with submitAllowed := flag }) := by
  unfold signalCase at stepped
  split at stepped
  · cases stepped
  · next pc next =>
    obtain ⟨taken, active, active'⟩ := afterSignal_spec next
    refine ⟨taken, active, ?_⟩
    split at stepped
    · next closed =>
      cases stepped
      exact Or.inl ⟨closed, rfl⟩
    · next opened =>
      split at stepped
      · next publisher =>
        obtain ⟨⟨flag, e⟩, submitted, rfl⟩ := Option.map_eq_some_iff.mp stepped
        exact Or.inr ⟨pc, taken_afterSignal next, flag, e, Bool.eq_false_iff.mpr opened,
          publisher, active', submitted, rfl⟩
      · cases stepped

theorem effect_signal {l : ℕ} {result : EnterResult} (alive : s.panicked = none)
    (stepped : s.signalCase l result = some s') : Effect n s (.signal l result) s' := by
  obtain ⟨taken, -, ⟨-, rfl⟩ | ⟨pc, idle, flag, e, -, -, -, submitted, rfl⟩⟩ :=
    signalCase_cases stepped
  · exact .idle rfl rfl ⟨rfl, rfl, channel_ne_nilCallback (some _)⟩ trivial
  · obtain ⟨carried, -, -⟩ := submitCase_spec submitted
    refine .of_loop rfl ?_ rfl rfl rfl ⟨rfl, rfl, ne_nilCallback_of_alive alive⟩ trivial
    refine congrArg requestIDs (@held_withEngine (s.loops l) e ?_)
    exact carried.trans (Engine.carried_goto taken pc idle)

/-- One turn of the loop over a batch, taken apart. -/
theorem dispatchOne_cases {l : ℕ} (stepped : s.dispatchOne l = some s') :
    ∃ cqe e, (s.loops l).engine.take = some (cqe, e) ∧
      ((Reserved cqe.userData ∧ s' = s.setLoop l ((s.loops l).withEngine e)) ∨
        (¬ Reserved cqe.userData ∧ ∃ k, s.registry.lookup cqe.userData = some k ∧
          s' = { s.setLoop l ((s.loops l).withEngine e) with
            registry := (s.registry.pop cqe.userData).2
            invoked := s.invoked ++ [(k, cqe)] }) ∨
        (¬ Reserved cqe.userData ∧ s.registry.lookup cqe.userData = none ∧
          s' = { s with panicked := some .nilCallback })) := by
  obtain ⟨⟨cqe, e⟩, taken, done⟩ := Option.map_eq_some_iff.mp stepped
  have popped := (s.registry.pop_spec cqe.userData).1
  refine ⟨cqe, e, taken, ?_⟩
  dsimp only at done
  split at done
  · next reserved =>
    exact Or.inl ⟨reserved, done.symm⟩
  · next request =>
    split at done
    · next k found =>
      exact Or.inr (Or.inl ⟨request, k, popped.symm.trans found, done.symm⟩)
    · next found =>
      exact Or.inr (Or.inr ⟨request, popped.symm.trans found, done.symm⟩)

/-- A loop whose consumer took a completion held its user data. -/
theorem held_take {loop : NetLoop} {cqe : CQEvent} {e : Engine}
    (taken : loop.engine.take = some (cqe, e)) :
    loop.held = cqe.userData ::ₘ (loop.withEngine e).held := by
  show loop.inReqBuss + loop.engine.carried = _
  rw [(Engine.take_spec taken).1, Multiset.add_cons]
  rfl

theorem effect_dispatch {l : ℕ} (lt : l < n) (alive : s.panicked = none)
    (stepped : s.dispatchOne l = some s') : Effect n s (.dispatch l) s' := by
  obtain ⟨cqe, e, taken, outcome⟩ := dispatchOne_cases stepped
  have before := held_take taken
  have calm := ne_nilCallback_of_alive alive
  rcases outcome with
    ⟨reserved, rfl⟩ | ⟨request, k, found, after⟩ | ⟨request, found, rfl⟩
  · refine .of_loop rfl ?_ rfl rfl rfl ⟨rfl, rfl, calm⟩ trivial
    rw [before, requestIDs_cons_of_reserved reserved]
  · have loops : s'.loops = Function.update s.loops l ((s.loops l).withEngine e) := by
      rw [after]
      rfl
    have calls : s'.calls = s.calls := by rw [after]; rfl
    have invoked : s'.invoked = s.invoked ++ [(k, cqe)] := by rw [after]
    have dropped : s'.dropped = s.dropped := by rw [after]; rfl
    obtain ⟨travels, flight⟩ := flight_erase (n := n) lt loops
      (before ▸ requestIDs_cons request _)
    obtain ⟨-, counter, lookup⟩ := s.registry.pop_spec cqe.userData
    have rows : s'.row = Function.update s.row k { s.row k with ended := true } := by
      funext j
      by_cases this : j = k
      · subst this
        simp [row, ended, calls, invoked, dropped]
      · simp only [row, ended, calls, invoked, dropped, Function.update_of_ne this,
          List.map_append, List.map_cons, List.map_nil, List.mem_append, List.mem_singleton, this,
          or_false]
    refine .deliver found travels ?_ (Ledger.ext rows ?_ flight) invoked dropped ?_
    · rw [after]
      exact Numbering.ext rfl rfl counter
    · rw [after]
      exact lookup
    · rw [after]
      exact calm
  · refine .missing found (mem_inFlight lt ?_ request)
    rw [before]
    exact Multiset.mem_cons_self _ _

/-- **Every step has one of the effects.** -/
theorem step_effect (some_loop : 0 < n) (sound : (s.ledger n).Sound)
    (stepped : s.step n e = some s') : Effect n s e s' := by
  obtain ⟨alive, transition⟩ := step_transition stepped
  have calm := ne_nilCallback_of_alive alive
  cases transition with
  | queue here =>
      refine .of_same (summary_update ?_) rfl rfl rfl rfl ⟨rfl, rfl, calm⟩ trivial
      rw [here]
      rfl
  | cancel here =>
      refine .of_same (summary_update ?_) rfl rfl rfl rfl ⟨rfl, rfl, calm⟩ trivial
      rw [here]
      rfl
  | draw here => exact effect_draw here alive
  | store here fast => exact effect_store here fast alive
  | sendClosed => exact .idle rfl rfl ⟨rfl, rfl, channel_ne_nilCallback (some _)⟩ trivial
  | send here => exact effect_send some_loop here alive
  | @sendCancel k id here =>
      refine .of_same (summary_update ?_) rfl rfl rfl ?_ ⟨rfl, rfl, calm⟩ trivial
      · show summary .cancelled = summary (s.calls k)
        rw [here]
        rfl
      · -- A cancel carries reserved user data.
        refine flight_same rfl ?_
        rw [held_send]
        exact requestIDs_cons_of_reserved (Or.inr rfl) _
  | request lt done => exact effect_request sound lt alive done
  | signal lt done => exact effect_signal alive done
  | consumer lt done =>
      refine .of_loop rfl ?_ rfl rfl rfl ⟨rfl, rfl, calm⟩ trivial
      exact congrArg requestIDs (held_withEngine (Engine.consumerStep_spec done).1)
  | dispatch lt done => exact effect_dispatch lt alive done
  | kernel lt done =>
      refine .of_loop rfl ?_ rfl rfl rfl ⟨rfl, rfl, calm⟩ trivial
      exact congrArg requestIDs (held_withEngine (Engine.kernelStep_spec done).1)
  | @stop event o done =>
      refine .of_loop rfl ?_ rfl rfl rfl ⟨rfl, rfl, channel_ne_nilCallback o.panic⟩ trivial
      refine congrArg requestIDs ?_
      show (s.loops o.loop).inReqBuss + o.shell.engine.carried = _
      rw [(stopStep_frame done).1]
      rfl

/-! ## The two halves of an `add` -/

/-- A call between the two halves of an `add` is on the fast path. -/
def FastPath (s : NetReactor) : Prop :=
  ∀ k args nonce serial, s.calls k = .drawn args nonce serial →
    s.registry.raw.fast args.op.fd = true

/-- A call moves on, not into the middle of an `add`. -/
theorem FastPath.of_call (fastPath : s.FastPath) {k : ℕ} {call : NetCall}
    (calls : s'.calls = Function.update s.calls k call)
    (apart : ∀ args nonce serial, call ≠ .drawn args nonce serial)
    (registry : ∀ fd, s'.registry.raw.fast fd = s.registry.raw.fast fd) : s'.FastPath := by
  intro j args nonce serial here
  rw [calls] at here
  rw [registry]
  by_cases this : j = k
  · subst this
    rw [Function.update_self] at here
    exact absurd here (apart args nonce serial)
  · rw [Function.update_of_ne this] at here
    exact fastPath j args nonce serial here

/-- No call moves on. -/
theorem FastPath.of_calls (fastPath : s.FastPath) (calls : s'.calls = s.calls)
    (registry : ∀ fd, s'.registry.raw.fast fd = s.registry.raw.fast fd) : s'.FastPath := by
  intro j args nonce serial here
  rw [calls] at here
  rw [registry]
  exact fastPath j args nonce serial here

theorem FastPath.draw (fastPath : s.FastPath) (k : ℕ) (args : QueueArgs) :
    (s.drawNonce k args).FastPath := by
  unfold drawNonce
  dsimp only
  split
  · next fast =>
    intro j args' nonce serial here
    refine (s.registry.fast_addNonce args.op.fd fast args'.op.fd).trans ?_
    change Function.update s.calls k _ j = _ at here
    by_cases this : j = k
    · subst this
      rw [Function.update_self] at here
      cases here
      exact fast
    · rw [Function.update_of_ne this] at here
      exact fastPath j args' nonce serial here
  · next slow =>
    exact fastPath.of_call rfl (by rintro _ _ _ ⟨⟩)
      (s.registry.fast_slowAdd args.op.fd (args.cb k) (Bool.eq_false_iff.mpr slow))

theorem FastPath.step (fastPath : s.FastPath) (stepped : s.step n e = some s') :
    s'.FastPath := by
  obtain ⟨-, transition⟩ := step_transition stepped
  cases transition with
  | queue here => exact fastPath.of_call rfl (fun _ _ _ => nofun) fun _ => rfl
  | cancel here => exact fastPath.of_call rfl (fun _ _ _ => nofun) fun _ => rfl
  | @draw k args here => exact fastPath.draw k args
  | store here fast =>
      exact fastPath.of_call rfl (fun _ _ _ => nofun)
        (s.registry.fast_storeCallback _ _ _ fast)
  | send here opened => exact fastPath.of_call rfl (fun _ _ _ => nofun) fun _ => rfl
  | sendCancel here opened => exact fastPath.of_call rfl (fun _ _ _ => nofun) fun _ => rfl
  | request lt done =>
      obtain ⟨req, -, -, -, -, -, -, ⟨-, calls, -⟩, ⟨-, registry, -⟩ | ⟨-, registry, -⟩⟩ :=
        requestCase_cases done
      · exact fastPath.of_calls calls fun _ => by rw [registry]
      · exact fastPath.of_calls calls fun fd => by
          rw [registry]
          exact s.registry.fast_pop req.userData fd
  | signal lt done =>
      obtain ⟨-, -, ⟨-, rfl⟩ | ⟨-, -, -, -, -, -, -, -, rfl⟩⟩ := signalCase_cases done
      · exact fastPath
      · exact fastPath
  | dispatch lt done =>
      obtain ⟨cqe, e, -, ⟨-, rfl⟩ | ⟨-, k, -, rfl⟩ | ⟨-, -, rfl⟩⟩ := dispatchOne_cases done
      · exact fastPath
      · exact fastPath.of_calls rfl (s.registry.fast_pop cqe.userData)
      · exact fastPath
  | _ => exact fastPath

/-- **An `add` is never stuck between its halves**: in every run, a call that has
drawn its nonce on the fast path can store its callback. -/
theorem store_enabled (some_loop : 0 < n) {rings : ℕ → ReactorRing true}
    {p : List (NetReactor × NetEvent)}
    (path : Runs.Path (step n) (start n some_loop rings) p s) (alive : s.panicked = none)
    {k : ℕ} {args : QueueArgs} {nonce : UInt32} {serial : ℕ}
    (here : s.calls k = .drawn args nonce serial) :
    ∃ s', s.step n (.store k) = some s' := by
  have fastPath : s.FastPath :=
    path.invariant_of_step FastPath (fun _ _ _ _ drawn => by cases drawn)
      fun _ _ _ fastPath stepped => fastPath.step stepped
  have fast := fastPath k args nonce serial here
  refine ⟨{ s.setCall k (.stored args nonce serial) with
    registry := s.registry.storeCallback args.op.fd nonce (args.cb k) fast }, ?_⟩
  rw [NetReactor.step, if_pos alive]
  simp only [stepLive, here, dif_pos fast]

end Steps

end NetReactor

end GoUring.Reactor
