import GoUring.Net.Listener

/-!
# Connections a listener returns

Two things are asked of concurrent calls of `Accept`: that no connection is returned
twice, and that the address a connection is returned with is that of its peer.

The first one holds in every run.  All requests for the listener's descriptor go to one
loop, so their completions pass through one queue, whose consumer waits in each callback
until the completion is received.  The connections the kernel has accepted are therefore
those that were received, followed by those in that queue, in order (`Fifo`).

The second one does not.  The buffer for the address belongs to the operation, and the
next connection the kernel accepts overwrites it.  It holds in the runs in which the
kernel accepts a connection only when all earlier ones were returned (`Undisturbed`).
-/

namespace GoUring.Reactor

namespace NetCall

variable {e : NetEvent} {k : ℕ} {call call' : NetCall}

/-- The arguments of a call are those of the event that made it. -/
theorem Next.args_cases (next : Next e k call call') {a : QueueArgs} (known : call'.args = some a) :
    (call.args = some a ∧ call ≠ .free) ∨ e = .queue k a := by
  cases next with
  | stay =>
      refine Or.inl ⟨known, ?_⟩
      rintro rfl
      cases known
  | queue event =>
      cases known
      exact Or.inr event
  | cancel event => cases known
  | sendCancel id => cases known
  | _ => exact Or.inl ⟨known, by rintro ⟨⟩⟩

/-- The ticket of a call is for the descriptor of its operation. -/
theorem fd_of_ticket {t : Ticket} (ticket : call.ticket = some t) :
    ∃ a, call.args = some a ∧ t.fd = a.op.fd := by
  cases call with
  | drawn args nonce serial =>
      cases ticket
      exact ⟨args, rfl, rfl⟩
  | stored args nonce serial =>
      cases ticket
      exact ⟨args, rfl, rfl⟩
  | returned args nonce serial =>
      cases ticket
      exact ⟨args, rfl, rfl⟩
  | _ => cases ticket

end NetCall

theorem Ticket.fd_id (t : Ticket) : RequestID.fd t.id = t.fd :=
  RequestID.fd_pack (lt_trans t.fd_lt (by decide)) t.nonce

end GoUring.Reactor

namespace GoUring.Net

open Uring Reactor

namespace Listener

variable {n : ℕ} {w : Listener}

/-- The loop all requests of the listener go to. -/
def home (w : Listener) (n : ℕ) : ℕ := loopForFd n w.fd

/-- The user data is of a request for the listener's descriptor. -/
def Mine (w : Listener) (ud : UInt64) : Prop := RequestID.fd ud = w.fd

instance (w : Listener) (ud : UInt64) : Decidable (w.Mine ud) :=
  inferInstanceAs (Decidable (_ = _))

/-- The accepts into the buffer are the requests for the descriptor, and they are in the
ring of one loop. -/
def Proper (w : Listener) (n l : ℕ) (sqe : SQEntry) : Prop :=
  (w.Names sqe ↔ w.Mine sqe.userData) ∧ (w.Mine sqe.userData → l = w.home n)

theorem not_mine_of_reserved (w : Listener) {ud : UInt64} (reserved : Reserved ud) :
    ¬ w.Mine ud := by
  have small := w.fd_lt
  intro mine
  rcases reserved with rfl | rfl
  · have : RequestID.fd timeoutNonce = 4294967295 := rfl
    rw [Mine, this] at mine
    omega
  · have : RequestID.fd cancelNonce = 4294967294 := rfl
    rw [Mine, this] at mine
    omega

/-- SQEs that have nothing to do with the listener. -/
theorem proper_of_not {l : ℕ} {sqe : SQEntry} (names : ¬ w.Names sqe)
    (mine : ¬ w.Mine sqe.userData) : w.Proper n l sqe :=
  ⟨⟨fun h => absurd h names, fun h => absurd h mine⟩, fun h => absurd h mine⟩

theorem names_acceptOp {flags : UInt8} {ud : UInt64} {old sqe : SQEntry}
    (encoded : w.queueArgs.op.op.encode flags ud old = some sqe) : w.Names sqe := by
  obtain ⟨prepared, filled, rfl⟩ := Option.map_eq_some_iff.mp encoded
  cases filled
  exact ⟨rfl, rfl⟩

theorem not_names_linkTimeoutOp {spec : UInt64} {flags : UInt8} {ud : UInt64} {old sqe : SQEntry}
    (encoded : (linkTimeoutOp spec).encode flags ud old = some sqe) : ¬ w.Names sqe := by
  obtain ⟨prepared, filled, rfl⟩ := Option.map_eq_some_iff.mp encoded
  cases filled
  rintro ⟨⟨⟩, -⟩

theorem not_names_cancelOp {target : UInt64} {flags : UInt8} {ud : UInt64} {old sqe : SQEntry}
    (encoded : (cancelOp target 0).encode flags ud old = some sqe) : ¬ w.Names sqe := by
  obtain ⟨prepared, filled, rfl⟩ := Option.map_eq_some_iff.mp encoded
  cases filled
  rintro ⟨⟨⟩, -⟩

/-- What a call was made with: `Accept` with the listener's operation, everybody else with
another one. -/
def Suits (w : Listener) (accept : Bool) (args : QueueArgs) : Prop :=
  if accept then args = w.queueArgs else w.Alien args

theorem Suits.fd_iff {accept : Bool} {args : QueueArgs} (suits : w.Suits accept args) :
    args.op.fd = w.fd ↔ accept = true := by
  unfold Suits at suits
  split at suits
  · next own =>
    rw [suits]
    exact ⟨fun _ => own, fun _ => rfl⟩
  · next other => exact ⟨fun same => absurd same suits.fd, fun own => absurd own other⟩

/-- What a call sends is proper. -/
theorem proper_of_outgoing {l : ℕ} {call : NetCall} {req : SubSqeRequest} {accept : Bool}
    (suits : ∀ a, call.args = some a → w.Suits accept a)
    (out : call.outgoing n = some (l, req)) {sqe : SQEntry} (encodes : req.Encodes sqe) :
    w.Proper n l sqe := by
  rcases encodes with ⟨flags, old, encoded⟩ | ⟨-, spec, old, encoded⟩
  · have ud := Operation.encode_userData encoded
    cases call with
    | stored args nonce serial =>
        cases out
        have fd : RequestID.fd sqe.userData = args.op.fd := by
          rw [ud]
          exact Ticket.fd_id (args.op.ticket nonce serial)
        have suits := suits args rfl
        unfold Suits at suits
        split at suits
        · subst suits
          exact ⟨⟨fun _ => fd, fun _ => names_acceptOp encoded⟩, fun _ => rfl⟩
        · refine proper_of_not (suits.buffer _ _ _ _ encoded) fun mine => suits.fd ?_
          exact fd.symm.trans mine
    | cancelling id =>
        cases out
        refine proper_of_not (not_names_cancelOp encoded) ?_
        rw [ud]
        exact w.not_mine_of_reserved (Or.inr rfl)
    | _ => cases out
  · refine proper_of_not (not_names_linkTimeoutOp encoded) ?_
    rw [Operation.encode_userData encoded]
    exact w.not_mine_of_reserved (Or.inl rfl)

/-- **Requests and completions go where they belong.** -/
structure Routed (w : Listener) (n : ℕ) (net : NetReactor) (accepts : ℕ → Bool) : Prop where
  base : NetReactor.Base n net
  args : ∀ k a, (net.calls k).args = some a → w.Suits (accepts k) a
  requests : ∀ l, ∀ req ∈ (net.loops l).reqBuss, ∀ sqe, req.Encodes sqe → w.Proper n l sqe
  sqes : ∀ l, ∀ sqe ∈ (net.loops l).engine.sqes, w.Proper n l sqe
  cqes : ∀ l, l ≠ w.home n → ∀ cqe ∈ (net.loops l).engine.cqes, ¬ w.Mine cqe.userData

theorem routed_start (some_loop : 0 < n) (rings : ℕ → ReactorRing true) (accepts : ℕ → Bool) :
    w.Routed n (NetReactor.start n some_loop rings) accepts where
  base := NetReactor.base_start some_loop rings
  args := fun _ _ known => by cases known
  requests := fun _ _ mem => by cases mem
  sqes := by
    intro l sqe mem
    change sqe ∈ (rings l).ring.sqRing.pending ++ [] at mem
    rw [(rings l).sq_empty] at mem
    cases mem
  cqes := by
    intro l _ cqe mem
    change cqe ∈ (rings l).ring.cqRing.ready.drop 0 at mem
    rw [(rings l).cq_empty] at mem
    cases mem

section Routed

variable {net net' : NetReactor} {accepts accepts' : ℕ → Bool} {e : NetEvent}

/-- A completion for the listener belongs to a call of `Accept`. -/
theorem Routed.accepts_iff (inv : w.Routed n net accepts) {k : ℕ} {t : Ticket}
    (ticket : net.numbering.ticket k = some t) : w.Mine t.id ↔ accepts k = true := by
  obtain ⟨a, known, fd⟩ := NetCall.fd_of_ticket ticket
  rw [Mine, Ticket.fd_id, fd]
  exact (inv.args k a known).fd_iff

theorem Routed.requests_step (inv : w.Routed n net accepts) (stepped : net.step n e = some net') :
    ∀ l, ∀ req ∈ (net'.loops l).reqBuss, ∀ sqe, req.Encodes sqe → w.Proper n l sqe := by
  intro l req mem
  cases NetReactor.step_traffic stepped with
  | quiet _ channels _ =>
      rw [channels] at mem
      exact inv.requests l req mem
  | @send k l' req' _ out _ channel others _ =>
      by_cases this : l = l'
      · subst this
        rw [channel] at mem
        rcases List.mem_append.mp mem with old | last
        · exact inv.requests l req old
        · obtain rfl := List.mem_singleton.mp last
          exact fun sqe encodes => proper_of_outgoing (inv.args k) out encodes
      · rw [others l this] at mem
        exact inv.requests l req mem
  | @take l' reads spec head rest _ bus _ channel others _ =>
      by_cases this : l = l'
      · subst this
        rw [channel] at mem
        refine inv.requests l req ?_
        rw [bus]
        exact List.mem_cons_of_mem _ mem
      · rw [others l this] at mem
        exact inv.requests l req mem

theorem Routed.sqes_step (inv : w.Routed n net accepts) (stepped : net.step n e = some net') :
    ∀ l, ∀ sqe ∈ (net'.loops l).engine.sqes, w.Proper n l sqe := by
  intro l sqe mem
  cases NetReactor.step_entries stepped l with
  | keeps _ keeps => exact inv.sqes l sqe (keeps.sqes mem)
  | @queue _ _ req _ taken sqes _ =>
      rcases sqes sqe mem with old | new
      · exact inv.sqes l sqe old
      · exact inv.requests l req taken sqe new
  | kernel sqes _ => exact inv.sqes l sqe (sqes mem)
  | halt loops _ =>
      rw [loops] at mem
      exact inv.sqes l sqe mem
  | dispatch sqes _ _ => exact inv.sqes l sqe (sqes mem)

/-- What the kernel posts is for an SQE it has. -/
theorem Routed.posts (inv : w.Routed n net accepts) {l : ℕ} {event : KernelEvent} {cqe : CQEvent}
    (mem : cqe ∈ (net.loops l).engine.posts event) :
    ∃ i res flags sqe, event = .complete i res flags ∧
      (net.loops l).engine.inflight[i]? = some sqe ∧ w.Proper n l sqe ∧
      cqe = { userData := sqe.userData, res := res, flags := flags } := by
  cases event with
  | complete i res flags =>
      obtain ⟨sqe, found, rfl⟩ := Option.map_eq_some_iff.mp (Option.mem_toList.mp mem)
      exact ⟨i, res, flags, sqe, rfl, found,
        inv.sqes l sqe (List.mem_append_right _ (List.mem_of_getElem? found)), rfl⟩
  | consume => cases mem
  | flags flags => cases mem

theorem Routed.cqes_step (inv : w.Routed n net accepts) (stepped : net.step n e = some net') :
    ∀ l, l ≠ w.home n → ∀ cqe ∈ (net'.loops l).engine.cqes, ¬ w.Mine cqe.userData := by
  intro l away cqe mem
  cases NetReactor.step_entries stepped l with
  | keeps _ keeps =>
      rw [keeps.cqes] at mem
      exact inv.cqes l away cqe mem
  | queue _ _ cqes =>
      rw [cqes] at mem
      exact inv.cqes l away cqe mem
  | kernel _ cqes =>
      rw [cqes] at mem
      rcases List.mem_append.mp mem with old | new
      · exact inv.cqes l away cqe old
      · obtain ⟨i, res, flags, sqe, -, -, proper, rfl⟩ := inv.posts new
        exact fun mine => away (proper.2 mine)
  | halt loops _ =>
      rw [loops] at mem
      exact inv.cqes l away cqe mem
  | dispatch _ head _ =>
      refine inv.cqes l away cqe ?_
      rw [head]
      exact List.mem_cons_of_mem _ mem

/-- **A step of the reactor** keeps the routes, if the call it makes is made with what it
should be. -/
theorem Routed.step (inv : w.Routed n net accepts) (some_loop : 0 < n)
    (stepped : net.step n e = some net')
    (kept : ∀ k, net.calls k ≠ .free → accepts' k = accepts k)
    (new : ∀ k a, e = .queue k a → w.Suits (accepts' k) a) : w.Routed n net' accepts' where
  base := inv.base.step some_loop stepped
  args := by
    intro k a known
    rcases (NetReactor.step_next stepped k).args_cases known with ⟨old, made⟩ | event
    · rw [kept k made]
      exact inv.args k a old
    · exact new k a event
  requests := inv.requests_step stepped
  sqes := inv.sqes_step stepped
  cqes := inv.cqes_step stepped

end Routed

/-- The completion reports a connection of the listener. -/
def Reports (w : Listener) (cqe : CQEvent) : Prop := w.Mine cqe.userData ∧ cqe.error = none

instance (w : Listener) (cqe : CQEvent) : Decidable (w.Reports cqe) :=
  inferInstanceAs (Decidable (_ ∧ _))

end Listener

namespace ListenSystem

variable {n : ℕ} {w : Listener} {s s' : ListenSystem}

/-- The completions on the listener's loop that nobody has received, oldest first. -/
def backlog (w : Listener) (n : ℕ) (s : ListenSystem) : List CQEvent :=
  ((s.host.delivering (w.home n)).map Prod.snd).toList ++ (s.net.loops (w.home n)).engine.cqes

/-- Those of them that report a connection. -/
def reports (w : Listener) (n : ℕ) (s : ListenSystem) : List CQEvent :=
  (s.backlog w n).filter fun cqe => w.Reports cqe

/-- Only the consumer of the listener's loop waits in a callback, and with a completion for
the listener. -/
structure OneLane (w : Listener) (n : ℕ) (s : ListenSystem) : Prop where
  elsewhere : ∀ l, l ≠ w.home n → s.host.delivering l = none
  mine : ∀ k cqe, s.host.delivering (w.home n) = some (k, cqe) → w.Mine cqe.userData

/-- What the kernel posts on the listener's loop in a step. -/
def posted (w : Listener) (n : ℕ) (s : ListenSystem) : NetEvent → List CQEvent
  | .kernel l event => if l = w.home n then (s.net.loops l).engine.posts event else []
  | _ => []

theorem posted_of_not_touches {e : NetEvent} (other : ¬ e.Touches (w.home n)) :
    s.posted w n e = [] := by
  cases e with
  | kernel l event => exact if_neg other
  | _ => rfl

/-- A completion that is not for the listener may be left out. -/
theorem filter_reports_of_not_mine {before after : List CQEvent} {cqe : CQEvent}
    (other : ¬ w.Mine cqe.userData) :
    ((before ++ cqe :: after).filter fun cqe => w.Reports cqe) =
      (before ++ after).filter fun cqe => w.Reports cqe := by
  rw [List.filter_append, List.filter_append, List.filter_cons_of_neg]
  simpa using fun reports : w.Reports cqe => other reports.1

section Host

variable {e : NetEvent}

/-- What a dispatch that invokes a callback takes is the completion it is invoked with. -/
theorem HostMove.head {l k : ℕ} {cqe : CQEvent} (moved : HostMove n s (.dispatch l) s')
    (more : s'.net.invoked = s.net.invoked ++ [(k, cqe)]) :
    (s.net.loops l).engine.cqes = cqe :: (s'.net.loops l).engine.cqes := by
  have grown : s'.net.invoked ≠ s.net.invoked := by
    intro same
    have lengths := congrArg List.length (more.symm.trans same)
    simp at lengths
  cases NetReactor.step_entries moved.stepped l with
  | keeps other _ => exact absurd rfl other
  | halt _ invoked => exact absurd invoked grown
  | dispatch _ head outcome =>
      rcases outcome with ⟨-, same⟩ | ⟨k', more'⟩
      · exact absurd same grown
      · obtain ⟨-, last⟩ := List.append_inj' (more.symm.trans more') rfl
        cases last
        exact head

/-- A callback that is invoked waits if and only if the completion is for the listener. -/
theorem HostMove.mine_iff {l k : ℕ} {cqe : CQEvent} (moved : HostMove n s (.dispatch l) s')
    (routed : w.Routed n s.net s.accepts)
    (more : s'.net.invoked = s.net.invoked ++ [(k, cqe)]) :
    w.Mine cqe.userData ↔ s.accepts k = true := by
  rcases NetReactor.invoked_step moved.stepped with same | ⟨l', k', cqe', -, more', found⟩
  · have lengths := congrArg List.length (more.symm.trans same)
    simp at lengths
  · obtain ⟨-, last⟩ := List.append_inj' (more.symm.trans more') rfl
    cases last
    obtain ⟨⟨key, -⟩, -⟩ := routed.base.sound _ _ found
    obtain ⟨t, ticket, id⟩ := Option.map_eq_some_iff.mp key
    rw [← id]
    exact routed.accepts_iff ticket

/-- **A step of the reactor** appends to the reports what the kernel posts, and nothing
else changes them. -/
theorem HostMove.reports (moved : HostMove n s e s') (lane : s.OneLane w n)
    (routed : w.Routed n s.net s.accepts) :
    s'.OneLane w n ∧
      s'.reports w n = s.reports w n ++ (s.posted w n e).filter fun cqe => w.Reports cqe := by
  rcases moved.delivering with ⟨same, waits⟩ | ⟨l, k, cqe, rfl, idle, more, waits⟩
  · refine ⟨⟨fun l away => by rw [waits]; exact lane.elsewhere l away,
      fun k cqe there => lane.mine k cqe (waits ▸ there)⟩, ?_⟩
    rw [ListenSystem.reports, ListenSystem.reports, backlog, backlog, waits]
    cases NetReactor.step_entries moved.stepped (w.home n) with
    | keeps other keeps =>
        rw [keeps.cqes, posted_of_not_touches other, List.filter_nil, List.append_nil]
    | queue _ _ cqes =>
        rw [cqes]
        exact (List.append_nil _).symm
    | kernel _ cqes => rw [cqes, posted, if_pos rfl, ← List.append_assoc, List.filter_append]
    | halt loops _ =>
        rw [loops]
        exact (List.append_nil _).symm
    | @dispatch cqe _ _ head outcome =>
        rcases outcome with ⟨reserved, -⟩ | ⟨k, more⟩
        · rw [head, filter_reports_of_not_mine (w.not_mine_of_reserved reserved)]
          exact (List.append_nil _).symm
        · have lengths := congrArg List.length (more.symm.trans same)
          simp at lengths
  · have head := moved.head more
    have mine := moved.mine_iff routed more
    refine (List.append_nil (s.reports w n)).symm ▸ ?_
    by_cases accepts : s.accepts k = true
    · -- A call of `Accept` is answered, so this is the listener's loop.
      rw [if_pos accepts] at waits
      obtain rfl : l = w.home n := by
        by_contra away
        refine routed.cqes l away cqe ?_ (mine.mpr accepts)
        rw [head]
        exact List.mem_cons_self
      refine ⟨⟨fun l away => ?_, fun k' cqe' there => ?_⟩, ?_⟩
      · rw [waits, Function.update_of_ne away]
        exact lane.elsewhere l away
      · rw [waits, Function.update_self] at there
        cases there
        exact mine.mpr accepts
      · rw [ListenSystem.reports, ListenSystem.reports, backlog, backlog, waits,
          Function.update_self, idle, head]
        rfl
    · rw [if_neg accepts] at waits
      refine ⟨⟨fun l away => by rw [waits]; exact lane.elsewhere l away,
        fun k cqe there => lane.mine k cqe (waits ▸ there)⟩, ?_⟩
      rw [ListenSystem.reports, ListenSystem.reports, backlog, backlog, waits]
      by_cases here : l = w.home n
      · subst here
        rw [head, filter_reports_of_not_mine (mt mine.mp accepts)]
      · cases NetReactor.step_entries moved.stepped (w.home n) with
        | keeps _ keeps => rw [keeps.cqes]
        | halt _ _ => exact absurd rfl here
        | dispatch _ _ _ => exact absurd rfl here

end Host

/-! ## No connection is returned twice -/

/-- The descriptors that were accepted and that nobody has received. -/
def pendingFds (w : Listener) (n : ℕ) (s : ListenSystem) : List Int32 :=
  (s.reports w n).map CQEvent.res

theorem pendingFds_of_host (host : s'.host = s.host) : s'.pendingFds w n = s.pendingFds w n := by
  have net : s'.net = s.net := congrArg Host.net host
  rw [pendingFds, pendingFds, reports, reports, backlog, backlog, host, net]

/-- **The order of the connections.**  What the kernel has accepted was received, or is
pending in the order in which it was accepted; and no two calls have received the same. -/
structure Fifo (w : Listener) (n : ℕ) (s : ListenSystem) : Prop where
  routed : w.Routed n s.net s.accepts
  lane : s.OneLane w n
  fresh : (s.accepted.map Prod.fst).Nodup
  split : ∃ gone, s.accepted.map Prod.fst = gone ++ s.pendingFds w n ∧
    ∀ k fd, (s.calls k).fd = some fd → fd ∈ gone
  once : ∀ j k fd, (s.calls j).fd = some fd → (s.calls k).fd = some fd → j = k

theorem fifo_start (some_loop : 0 < n) (rings : ℕ → ReactorRing true) :
    (start n some_loop rings).Fifo w n where
  routed := Listener.routed_start some_loop rings _
  lane := ⟨fun _ _ => rfl, fun _ _ there => by cases there⟩
  fresh := List.nodup_nil
  split := by
    have none : (rings (w.home n)).ring.cqRing.ready = [] := (rings (w.home n)).cq_empty
    refine ⟨[], ?_, fun _ _ held => by cases held⟩
    show [] = List.map _ (List.filter _ ([] ++ List.drop 0 (rings (w.home n)).ring.cqRing.ready))
    rw [none]
    rfl
  once := fun _ _ _ held => by cases held

/-- A call moves on and holds the same descriptor as before. -/
theorem fd_setCall {calls : ℕ → AcceptCall} {k : ℕ} {call : AcceptCall}
    (same : call.fd = (calls k).fd) (j : ℕ) :
    (Function.update calls k call j).fd = (calls j).fd := by
  by_cases this : j = k
  · subst this
    rw [Function.update_self, same]
  · rw [Function.update_of_ne this]

/-- A call that the reactor knows does not change its kind when another one is made. -/
theorem accepts_setCall {calls : ℕ → AcceptCall} {k j : ℕ} {call : AcceptCall} (other : j ≠ k) :
    (Function.update calls k call j).isAccept = (calls j).isAccept := by
  rw [Function.update_of_ne other]

/-- The reactor stands still, and no call gives up a descriptor or gets one. -/
theorem Fifo.of_calls (inv : s.Fifo w n) (host : s'.host = s.host)
    (accepted : s'.accepted = s.accepted) (accepts : s'.accepts = s.accepts)
    (fd : ∀ k, (s'.calls k).fd = (s.calls k).fd) : s'.Fifo w n := by
  have net : s'.net = s.net := congrArg Host.net host
  have pending : s'.pendingFds w n = s.pendingFds w n := pendingFds_of_host host
  refine ⟨?_, ?_, ?_, ?_, ?_⟩
  · rw [net, accepts]
    exact inv.routed
  · exact ⟨by rw [host]; exact inv.lane.elsewhere, by rw [host]; exact inv.lane.mine⟩
  · rw [accepted]
    exact inv.fresh
  · rw [accepted, pending]
    simpa only [fd] using inv.split
  · simpa only [fd] using inv.once

/-- What the kernel posts on the listener's loop, when it accepts no connection. -/
theorem Fifo.posted_eq_nil (inv : s.Fifo w n) {e : NetEvent} (other : s.isAcceptance w e = false) :
    ((s.posted w n e).filter fun cqe => w.Reports cqe) = [] := by
  refine List.filter_eq_nil_iff.mpr fun cqe mem reports => ?_
  obtain ⟨mine, success⟩ := of_decide_eq_true reports
  cases e with
  | kernel l event =>
      simp only [posted] at mem
      split at mem
      · next here =>
        obtain ⟨i, res, flags, sqe, rfl, found, proper, rfl⟩ := inv.routed.posts mem
        have positive : ¬ res < 0 := by
          intro negative
          simp [CQEvent.error, negative] at success
        rw [isAcceptance, found] at other
        exact of_decide_eq_false other ⟨proper.1.mpr mine, positive⟩
      · cases mem
  | _ => cases mem

/-- A step of the reactor in which the kernel accepts no connection is nothing to what is
pending. -/
theorem Fifo.pendingFds_host (inv : s.Fifo w n) {e : NetEvent} (moved : HostMove n s e s')
    (other : s.isAcceptance w e = false) :
    s'.OneLane w n ∧ s'.pendingFds w n = s.pendingFds w n := by
  obtain ⟨lane, reports⟩ := moved.reports inv.lane inv.routed
  rw [inv.posted_eq_nil other, List.append_nil] at reports
  exact ⟨lane, congrArg (List.map CQEvent.res) reports⟩

/-- The reactor makes a step in which the kernel accepts no connection. -/
theorem Fifo.of_host (inv : s.Fifo w n) (some_loop : 0 < n) {e : NetEvent} {mid : ListenSystem}
    (moved : HostMove n s e mid) (other : s.isAcceptance w e = false) (host : s'.host = mid.host)
    (accepted : s'.accepted = s.accepted)
    (kept : ∀ k, s.net.calls k ≠ .free → s'.accepts k = s.accepts k)
    (new : ∀ k a, e = .queue k a → w.Suits (s'.accepts k) a)
    (fd : ∀ k, (s'.calls k).fd = (s.calls k).fd) : s'.Fifo w n := by
  obtain ⟨lane, same⟩ := inv.pendingFds_host moved other
  have net : s'.net = mid.net := congrArg Host.net host
  have pending : s'.pendingFds w n = s.pendingFds w n := (pendingFds_of_host host).trans same
  refine ⟨?_, ?_, ?_, ?_, ?_⟩
  · rw [net]
    exact inv.routed.step some_loop moved.stepped kept new
  · exact ⟨by rw [host]; exact lane.elsewhere, by rw [host]; exact lane.mine⟩
  · rw [accepted]
    exact inv.fresh
  · rw [accepted, pending]
    simpa only [fd] using inv.split
  · simpa only [fd] using inv.once

/-- A call of the reactor is made. -/
theorem Fifo.make (inv : s.Fifo w n) (some_loop : 0 < n) {e : NetEvent} {mid : ListenSystem}
    {k : ℕ} {call : AcceptCall} (moved : HostMove n s e mid) (new : e.newCall = some k)
    (here : s.calls k = .free) (fd : call.fd = none)
    (suits : ∀ a, e = .queue k a → w.Suits call.isAccept a) : (mid.setCall k call).Fifo w n := by
  have unknown := NetReactor.free_of_newCall moved.stepped new
  have other : s.isAcceptance w e = false := by
    cases e with
    | kernel l event => cases new
    | _ => rfl
  refine inv.of_host some_loop moved other rfl moved.accepted (fun j known => ?_)
    (fun j a event => ?_) fun j => ?_
  · show (Function.update mid.calls k call j).isAccept = _
    rw [moved.calls, accepts_setCall]
    · rfl
    · rintro rfl
      exact known unknown
  · obtain rfl : k = j := by
      rw [event] at new
      exact (Option.some.inj new).symm
    show w.Suits (Function.update mid.calls k call k).isAccept a
    rw [Function.update_self]
    exact suits a event
  · show (Function.update mid.calls k call j).fd = _
    rw [moved.calls]
    exact fd_setCall (by rw [here, fd]; rfl) j

/-- A connection the kernel accepts is pending. -/
theorem Fifo.pendingFds_complete (inv : s.Fifo w n) {l i : ℕ} {fd : Int32} {flags : UInt32}
    {sqe : SQEntry} (found : (s.net.loops l).engine.inflight[i]? = some sqe)
    (names : w.Names sqe) (success : ¬ fd < 0)
    (moved : HostMove n s (.kernel l (.complete i fd flags)) s') :
    s'.OneLane w n ∧ s'.pendingFds w n = s.pendingFds w n ++ [fd] := by
  obtain ⟨lane, reports⟩ := moved.reports inv.lane inv.routed
  obtain ⟨mine, home⟩ :=
    inv.routed.sqes l sqe (List.mem_append_right _ (List.mem_of_getElem? found))
  have reported : w.Reports { userData := sqe.userData, res := fd, flags := flags } :=
    ⟨mine.mp names, if_neg success⟩
  refine ⟨lane, ?_⟩
  rw [pendingFds, reports, posted, if_pos (home (mine.mp names)), Engine.posts, found]
  simp [pendingFds, reported]

/-- **The kernel accepts a connection.** -/
theorem Fifo.complete (inv : s.Fifo w n) (some_loop : 0 < n) {l i : ℕ} {fd : Int32}
    {flags : UInt32} {sqe : SQEntry} {mid : ListenSystem}
    (found : (s.net.loops l).engine.inflight[i]? = some sqe) (names : w.Names sqe)
    (success : ¬ fd < 0) (fresh : fd ∉ s.accepted.map Prod.fst)
    (moved : HostMove n s (.kernel l (.complete i fd flags)) mid) (peer : TCPAddr) :
    ({ mid with buffer := some peer, accepted := mid.accepted ++ [(fd, peer)] }
      : ListenSystem).Fifo w n := by
  obtain ⟨lane, pending⟩ := inv.pendingFds_complete found names success moved
  refine ⟨?_, ⟨lane.elsewhere, lane.mine⟩, ?_, ?_, ?_⟩
  · refine inv.routed.step some_loop moved.stepped (fun k _ => ?_) (by rintro _ _ ⟨⟩)
    show (mid.calls k).isAccept = (s.calls k).isAccept
    rw [moved.calls]
  · show (List.map Prod.fst (mid.accepted ++ [(fd, peer)])).Nodup
    rw [moved.accepted, List.map_append]
    refine List.nodup_append.mpr ⟨inv.fresh, List.nodup_singleton _, ?_⟩
    rintro x old y new rfl
    obtain rfl := List.mem_singleton.mp new
    exact fresh old
  · obtain ⟨gone, split, held⟩ := inv.split
    refine ⟨gone, ?_, ?_⟩
    · show List.map Prod.fst (mid.accepted ++ [(fd, peer)]) = gone ++ mid.pendingFds w n
      rw [moved.accepted, List.map_append, split, pending, List.append_assoc]
      rfl
    · show ∀ k x, (mid.calls k).fd = some x → _
      rw [moved.calls]
      exact held
  · show ∀ j k x, (mid.calls j).fd = some x → (mid.calls k).fd = some x → j = k
    rw [moved.calls]
    exact inv.once

/-- What was pending, when the consumer of the listener's loop is let go. -/
theorem OneLane.reports_release {l j : ℕ} {cqe : CQEvent} (lane : s.OneLane w n)
    (there : s.host.delivering l = some (j, cqe)) {call : AcceptCall} {k : ℕ} :
    l = w.home n ∧ w.Mine cqe.userData ∧
      s.reports w n =
        (if cqe.error = none then [cqe] else []) ++
          ({ s with host := s.host.release l }.setCall k call).reports w n := by
  obtain rfl : l = w.home n := by
    by_contra away
    rw [lane.elsewhere l away] at there
    cases there
  have mine := lane.mine j cqe there
  refine ⟨rfl, mine, ?_⟩
  have after : ({ s with host := s.host.release (w.home n) }.setCall k call).backlog w n =
      (s.net.loops (w.home n)).engine.cqes := by
    show (Option.map _ (Function.update s.host.delivering (w.home n) none (w.home n))).toList ++ _ =
      _
    rw [Function.update_self]
    rfl
  rw [reports, reports, after, backlog, there]
  by_cases success : cqe.error = none
  · rw [if_pos success]
    exact List.filter_cons_of_pos (decide_eq_true ⟨mine, success⟩)
  · rw [if_neg success]
    exact List.filter_cons_of_neg fun reports => success (of_decide_eq_true reports).2

/-- **A call of `Accept` receives.** -/
theorem Fifo.receive (inv : s.Fifo w n) {k l j : ℕ} {cqe : CQEvent} (here : s.calls k = .waiting)
    (there : s.host.delivering l = some (j, cqe)) :
    ({ s with host := s.host.release l }.setCall k (.received cqe)).Fifo w n := by
  obtain ⟨rfl, mine, reports⟩ :=
    @OneLane.reports_release n w s l j cqe inv.lane there (.received cqe) k
  set s' := { s with host := s.host.release (w.home n) }.setCall k (.received cqe)
  have old : ∀ {i}, i ≠ k → s'.calls i = s.calls i := fun other => Function.update_of_ne other _ _
  have new : s'.calls k = .received cqe := Function.update_self _ _ _
  obtain ⟨gone, split, held⟩ := inv.split
  -- What was received was the first of what was pending.
  have moves : s.accepted.map Prod.fst =
      (gone ++ (AcceptCall.received cqe).fd.toList) ++ s'.pendingFds w n := by
    rw [split, pendingFds, reports, List.map_append, ← List.append_assoc, AcceptCall.fd]
    congr 2
    split
    · rfl
    · rfl
  have first : ∀ fd, (AcceptCall.received cqe).fd = some fd → fd ∉ gone := by
    intro fd received mem
    have fresh := inv.fresh
    rw [moves, received, List.append_assoc, List.nodup_append] at fresh
    exact fresh.2.2 fd mem fd List.mem_cons_self rfl
  refine ⟨?_, ⟨fun l away => ?_, fun i cqe' waits => ?_⟩, inv.fresh,
    ⟨_, moves, fun i fd holds => ?_⟩, fun i i' fd holds holds' => ?_⟩
  · have accepts : s'.accepts = s.accepts := by
      funext i
      show (Function.update s.calls k _ i).isAccept = (s.calls i).isAccept
      by_cases this : i = k
      · subst this
        rw [Function.update_self, here]
        rfl
      · rw [accepts_setCall this]
    rw [accepts]
    exact inv.routed
  · show Function.update s.host.delivering (w.home n) none l = none
    rw [Function.update_of_ne away]
    exact inv.lane.elsewhere l away
  · change Function.update s.host.delivering (w.home n) none (w.home n) = _ at waits
    rw [Function.update_self] at waits
    cases waits
  · by_cases this : i = k
    · subst this
      rw [new] at holds
      rw [holds]
      exact List.mem_append_right _ List.mem_cons_self
    · rw [old this] at holds
      exact List.mem_append_left _ (held i fd holds)
  · by_cases this : i = k
    · by_cases that : i' = k
      · rw [this, that]
      · subst this
        rw [new] at holds
        rw [old that] at holds'
        exact absurd (held i' fd holds') (first fd holds)
    · rw [old this] at holds
      by_cases that : i' = k
      · subst that
        rw [new] at holds'
        exact absurd (held i fd holds) (first fd holds')
      · rw [old that] at holds'
        exact inv.once i i' fd holds holds'

/-- The descriptor in the result is the one that was received. -/
theorem fd_acceptResult (s : ListenSystem) (cqe : CQEvent) :
    (AcceptCall.returned (s.acceptResult cqe)).fd = (AcceptCall.received cqe).fd := by
  unfold acceptResult
  split
  · next errno failed =>
    show none = if cqe.error = none then _ else _
    rw [if_neg (by rw [failed]; rintro ⟨⟩)]
  · next success =>
    show some cqe.res = if cqe.error = none then _ else _
    rw [if_pos success]

/-- **Every step keeps the order of the connections.** -/
theorem Fifo.step (inv : s.Fifo w n) (some_loop : 0 < n) {e : ListenEvent w}
    (stepped : s.step n w e = some s') : s'.Fifo w n := by
  -- A call of `Accept` moves on.
  have moves : ∀ {k : ℕ} {call call' : AcceptCall}, s.calls k = call → call.isAccept = true →
      call'.isAccept = true → call'.fd = call.fd → (s.setCall k call').Fifo w n := by
    intro k call call' here accept accept' same
    refine inv.of_calls rfl rfl ?_ (fd_setCall (by rw [here, same]))
    funext j
    show (Function.update s.calls k call' j).isAccept = (s.calls j).isAccept
    by_cases this : j = k
    · subst this
      rw [Function.update_self, here, accept, accept']
    · rw [accepts_setCall this]
  cases step_transition stepped with
  | accept here moved =>
      refine inv.make some_loop moved rfl here rfl fun a event => ?_
      cases event
      show w.queueArgs = w.queueArgs
      rfl
  | queued here => exact moves here rfl rfl rfl
  | finish here => exact moves here rfl rfl (s.fd_acceptResult _)
  | receive here there => exact inv.receive here there
  | @queue k args _ here moved =>
      refine inv.make some_loop moved rfl here rfl fun a event => ?_
      cases event
      exact args.alien
  | complete found names success fresh moved =>
      exact inv.complete some_loop found names success fresh moved _
  | cancel here moved => exact inv.make some_loop moved rfl here rfl (by rintro _ ⟨⟩)
  | net oldCalls other moved =>
      refine inv.of_host some_loop moved other rfl moved.accepted (fun k _ => ?_)
        (fun k a event => ?_) fun k => by rw [moved.calls]
      · rw [accepts, accepts, moved.calls]
      · rw [event] at oldCalls
        cases oldCalls

/-! ## The address of the peer -/

/-- The buffer holds the address of the peer of this connection. -/
def Shows (s : ListenSystem) (fd : Int32) : Prop :=
  ∃ peer, (fd, peer) ∈ s.accepted ∧ s.buffer = some peer

/-- The kernel accepts a connection only if all that it has accepted before were
returned. -/
def Undisturbed (s : ListenSystem) (e : ListenEvent w) : Prop :=
  e.accepts = true → ∀ x ∈ s.accepted, ∃ k, (s.calls k).returnedFd = some x.1

/-- **No connection is returned twice**: the descriptors that calls of `Accept` return are
descriptors the kernel has accepted, which are all different, and no two calls return the
same. -/
structure OneCallEach (s : ListenSystem) : Prop where
  fresh : (s.accepted.map Prod.fst).Nodup
  accepted : ∀ k conn, s.calls k = .returned (.ok conn) → conn.fd ∈ s.accepted.map Prod.fst
  once : ∀ j k conn conn', s.calls j = .returned (.ok conn) → s.calls k = .returned (.ok conn') →
    conn.fd = conn'.fd → j = k

/-- **Every connection is returned with the address of its peer.** -/
def OwnPeers (s : ListenSystem) : Prop :=
  ∀ k conn, s.calls k = .returned (.ok conn) →
    ∃ peer, (conn.fd, peer) ∈ s.accepted ∧ conn.rAddr = some peer

theorem Fifo.oneCallEach (inv : s.Fifo w n) : s.OneCallEach where
  fresh := inv.fresh
  accepted := by
    intro k conn here
    obtain ⟨gone, split, held⟩ := inv.split
    rw [split]
    exact List.mem_append_left _ (held k conn.fd (by rw [here]; rfl))
  once := by
    intro j k conn conn' here there same
    exact inv.once j k conn.fd (by rw [here]; rfl) (by rw [there, same]; rfl)

/-- What holds along an undisturbed run. -/
structure Peers (w : Listener) (n : ℕ) (s : ListenSystem) : Prop where
  pending : ∀ fd ∈ s.pendingFds w n, s.Shows fd
  received : ∀ k cqe, s.calls k = .received cqe → cqe.error = none → s.Shows cqe.res
  returned : s.OwnPeers

theorem peers_start (some_loop : 0 < n) (rings : ℕ → ReactorRing true) :
    (start n some_loop rings).Peers w n where
  pending := by
    obtain ⟨gone, split, -⟩ := (fifo_start (w := w) some_loop rings).split
    rw [(List.append_eq_nil_iff.mp split.symm).2]
    exact fun _ mem => by cases mem
  received := fun _ _ here => by cases here
  returned := fun _ _ here => by cases here

/-- A call moves on, and the kernel accepts no connection. -/
theorem Peers.move (inv : s.Peers w n) {k : ℕ} {call : AcceptCall}
    (calls : s'.calls = Function.update s.calls k call) (buffer : s'.buffer = s.buffer)
    (accepted : s'.accepted = s.accepted) (pending : s'.pendingFds w n ⊆ s.pendingFds w n)
    (received : ∀ cqe, call = .received cqe → cqe.error = none → s.Shows cqe.res)
    (returned : ∀ conn, call = .returned (.ok conn) →
      ∃ peer, (conn.fd, peer) ∈ s.accepted ∧ conn.rAddr = some peer) : s'.Peers w n := by
  have shows : ∀ {fd}, s.Shows fd → s'.Shows fd := by
    rintro fd ⟨peer, mem, here⟩
    exact ⟨peer, by rw [accepted]; exact mem, by rw [buffer]; exact here⟩
  refine ⟨fun fd mem => shows (inv.pending fd (pending mem)), fun j cqe here success => ?_,
    fun j conn here => ?_⟩
  · rw [calls] at here
    by_cases this : j = k
    · subst this
      rw [Function.update_self] at here
      exact shows (received cqe here success)
    · rw [Function.update_of_ne this] at here
      exact shows (inv.received j cqe here success)
  · rw [calls] at here
    rw [accepted]
    by_cases this : j = k
    · subst this
      rw [Function.update_self] at here
      exact returned conn here
    · rw [Function.update_of_ne this] at here
      exact inv.returned j conn here

/-- When all connections were returned, none is pending and no call has one it has not
returned. -/
theorem Fifo.idle (inv : s.Fifo w n)
    (taken : ∀ x ∈ s.accepted, ∃ k, (s.calls k).returnedFd = some x.1) :
    s.pendingFds w n = [] ∧ ∀ k cqe, s.calls k = .received cqe → cqe.error ≠ none := by
  have holds : ∀ {k fd}, (s.calls k).returnedFd = some fd → (s.calls k).fd = some fd := by
    intro k fd returned
    unfold AcceptCall.returnedFd at returned
    split at returned
    · next conn here =>
      rw [here]
      exact returned
    · cases returned
  obtain ⟨gone, split, held⟩ := inv.split
  have all : ∀ fd ∈ s.accepted.map Prod.fst, ∃ k, (s.calls k).returnedFd = some fd := by
    intro fd mem
    obtain ⟨x, there, rfl⟩ := List.mem_map.mp mem
    exact taken x there
  refine ⟨List.eq_nil_iff_forall_not_mem.mpr fun fd mem => ?_, fun k cqe here success => ?_⟩
  · -- It would be both received and pending.
    obtain ⟨k, returned⟩ := all fd (by rw [split]; exact List.mem_append_right _ mem)
    have fresh := inv.fresh
    rw [split, List.nodup_append] at fresh
    exact fresh.2.2 fd (held k fd (holds returned)) fd mem rfl
  · -- The call that has returned it would be this one.
    have mine : (s.calls k).fd = some cqe.res := by
      rw [here]
      exact if_pos success
    obtain ⟨j, returned⟩ :=
      all cqe.res (by rw [split]; exact List.mem_append_left _ (held k cqe.res mine))
    obtain rfl := inv.once k j cqe.res mine (holds returned)
    rw [here] at returned
    cases returned

/-- **An undisturbed step** keeps the addresses right. -/
theorem Peers.step (inv : s.Peers w n) (fifo : s.Fifo w n) {e : ListenEvent w}
    (calm : s.Undisturbed e) (stepped : s.step n w e = some s') : s'.Peers w n := by
  -- A call of the reactor is made.
  have make : ∀ {e : NetEvent} {mid : ListenSystem} {k : ℕ} {call : AcceptCall},
      HostMove n s e mid → s.isAcceptance w e = false → (∀ cqe, call ≠ .received cqe) →
      (∀ result, call ≠ .returned result) → (mid.setCall k call).Peers w n := by
    intro e mid k call moved other noReceive noReturn
    have calls : (mid.setCall k call).calls = Function.update s.calls k call := by
      show Function.update mid.calls k call = _
      rw [moved.calls]
    refine inv.move calls moved.buffer moved.accepted ?_
      (fun cqe here => absurd here (noReceive cqe)) fun conn here => absurd here (noReturn _)
    show mid.pendingFds w n ⊆ s.pendingFds w n
    rw [(fifo.pendingFds_host moved other).2]
    exact fun _ mem => mem
  cases step_transition stepped with
  | accept here moved => exact make moved rfl (by rintro _ ⟨⟩) (by rintro _ ⟨⟩)
  | queue here moved => exact make moved rfl (by rintro _ ⟨⟩) (by rintro _ ⟨⟩)
  | cancel here moved => exact make moved rfl (by rintro _ ⟨⟩) (by rintro _ ⟨⟩)
  | queued here =>
      exact inv.move rfl rfl rfl (fun _ mem => mem) (by rintro _ ⟨⟩) (by rintro _ ⟨⟩)
  | @finish k cqe here =>
      refine inv.move rfl rfl rfl (fun _ mem => mem) (by rintro _ ⟨⟩) fun conn result => ?_
      -- The address is read from the buffer.
      have eq := AcceptCall.returned.inj result
      unfold acceptResult at eq
      split at eq
      · cases eq
      · next success =>
        cases eq
        exact inv.received k cqe here success
  | @receive k l j cqe here there =>
      obtain ⟨-, -, reports⟩ :=
        @OneLane.reports_release n w s l j cqe fifo.lane there (.received cqe) k
      have pending : s.pendingFds w n = (if cqe.error = none then [cqe] else []).map CQEvent.res ++
          ({ s with host := s.host.release l }.setCall k (.received cqe)).pendingFds w n := by
        rw [pendingFds, reports, List.map_append]
        rfl
      refine inv.move rfl rfl rfl (fun fd mem => ?_) ?_ (by rintro _ ⟨⟩)
      · rw [pending]
        exact List.mem_append_right _ mem
      · rintro _ ⟨⟩ success
        refine inv.pending cqe.res ?_
        rw [pending, if_pos success]
        exact List.mem_cons_self
  | @complete l i fd flags peer sqe mid found names success fresh moved =>
      obtain ⟨none, noneReceived⟩ := fifo.idle (calm rfl)
      obtain ⟨-, pending⟩ := fifo.pendingFds_complete found names success moved
      refine ⟨fun x mem => ?_, fun k cqe here ok => ?_, fun k conn here => ?_⟩
      · change x ∈ mid.pendingFds w n at mem
        rw [pending, none] at mem
        obtain rfl := List.mem_singleton.mp mem
        exact ⟨peer, List.mem_append_right _ (List.mem_singleton.mpr rfl), rfl⟩
      · change mid.calls k = _ at here
        rw [moved.calls] at here
        exact absurd ok (noneReceived k cqe here)
      · change mid.calls k = _ at here
        rw [moved.calls] at here
        obtain ⟨peer', mem, addr⟩ := inv.returned k conn here
        refine ⟨peer', ?_, addr⟩
        show _ ∈ mid.accepted ++ [(fd, peer)]
        rw [moved.accepted]
        exact List.mem_append_left _ mem
  | net oldCalls other moved =>
      obtain ⟨-, pending⟩ := fifo.pendingFds_host moved other
      have shows : ∀ {fd}, s.Shows fd → s'.Shows fd := by
        rintro fd ⟨peer, mem, here⟩
        exact ⟨peer, by rw [moved.accepted]; exact mem, by rw [moved.buffer]; exact here⟩
      refine ⟨?_, ?_, ?_⟩
      · rw [pending]
        exact fun fd mem => shows (inv.pending fd mem)
      · rw [moved.calls]
        exact fun k cqe here ok => shows (inv.received k cqe here ok)
      · rw [OwnPeers, moved.calls, moved.accepted]
        exact inv.returned

/-! ## Runs -/

/-- **Concurrent calls of `Accept`.**  In every run no connection is returned twice; and in
every run in which the kernel accepts a connection only when all earlier ones were returned,
every connection is returned with the address of its peer. -/
theorem accept_consistent (n : ℕ) (some_loop : 0 < n) (rings : ℕ → ReactorRing true)
    (w : Listener) {p : List (ListenSystem × ListenEvent w)} {s : ListenSystem}
    (path : Runs.Path (step n w) (start n some_loop rings) p s) :
    s.OneCallEach ∧ ((∀ x ∈ p, x.1.Undisturbed x.2) → s.OwnPeers) := by
  constructor
  · refine Fifo.oneCallEach (w := w) (n := n) ?_
    exact path.invariant_of_step (fun s => s.Fifo w n) (fifo_start some_loop rings)
      fun s e s' fifo stepped => fifo.step some_loop stepped
  · intro calm
    have inv : s.Fifo w n ∧ s.Peers w n := by
      refine path.invariant (fun s => s.Fifo w n ∧ s.Peers w n) Undisturbed
        ⟨fifo_start some_loop rings, peers_start some_loop rings⟩ ?_ calm
      rintro s e s' ⟨fifo, peers⟩ calm stepped
      exact ⟨fifo.step some_loop stepped, peers.step fifo calm stepped⟩
    exact inv.2.returned

/-- The listener of the runs below. -/
def listener : Listener where
  fd := 4
  fd_lt := by decide
  addr := 4096
  len := 4208

/-- The peers of the runs below. -/
def peer (port : UInt16) : TCPAddr := { ip := 2130706433, port := port }

/-- Call `k` is made and runs up to its wait. -/
def acceptCall (k : ℕ) : List (ListenEvent listener) :=
  [.accept k, .net (.draw k), .net (.store k), .net (.send k), .step k, .net (.request 0 0 0)]

/-- The consumer of the loop goes to its batch. -/
def peeked : List (ListenEvent listener) :=
  [.net (.consumer 0 .wait), .net (.signal 0 (.consumed 0)), .net (.consumer 0 .peek)]

/-- Call `k` is handed the next completion of the batch, and returns. -/
def answered (k : ℕ) : List (ListenEvent listener) :=
  [.net (.dispatch 0), .receive k 0, .step k]

/-- Two calls, the first of which returns before the second connection comes. -/
def quietRun : List (ListenEvent listener) :=
  acceptCall 0 ++ acceptCall 1 ++
    [.net (.signal 0 (.consumed 2)), .complete 0 0 5 0 (peer 80)] ++ peeked ++ answered 0 ++
    [.complete 0 0 6 0 (peer 90), .net (.consumer 0 .advance), .net (.consumer 0 .peek)] ++
    answered 1

theorem accept_consistent_quiet :
    ∃ p s, Runs.Path (step 1 listener) (start 1 Nat.one_pos (twoSlots true)) p s ∧
      s.calls 0 = .returned (.ok ⟨5, some (peer 80)⟩) ∧
      s.calls 1 = .returned (.ok ⟨6, some (peer 90)⟩) ∧
      (∀ x ∈ p, x.1.Undisturbed x.2) ∧ s.OneCallEach ∧ s.OwnPeers := by
  have path : Runs.Path (step 1 listener) (start 1 Nat.one_pos (twoSlots true))
      (Runs.record (step 1 listener) (start 1 Nat.one_pos (twoSlots true)) quietRun) _ :=
    Runs.path_record quietRun rfl
  have checked : ∀ x ∈ Runs.record (step 1 listener) (start 1 Nat.one_pos (twoSlots true)) quietRun,
      x.2.accepts = true → ∀ y ∈ x.1.accepted, ∃ k < 2, (x.1.calls k).returnedFd = some y.1 := by
    decide +kernel
  have calm : ∀ x ∈ Runs.record (step 1 listener) (start 1 Nat.one_pos (twoSlots true)) quietRun,
      x.1.Undisturbed x.2 := by
    intro x mem accepts y taken
    obtain ⟨k, -, returned⟩ := checked x mem accepts y taken
    exact ⟨k, returned⟩
  obtain ⟨once, peers⟩ := accept_consistent 1 Nat.one_pos (twoSlots true) listener path
  exact ⟨_, _, path, rfl, rfl, calm, once, peers calm⟩

/-- Two connections come before the first call reads the address. -/
def overwrittenRun : List (ListenEvent listener) :=
  acceptCall 0 ++ acceptCall 1 ++
    [.net (.signal 0 (.consumed 2)), .complete 0 0 5 0 (peer 80), .complete 0 0 6 0 (peer 90)] ++
    peeked ++ answered 0

/-- **A connection can be returned with the address of another one.** -/
theorem accept_returns_strange_peer :
    ∃ p s, Runs.Path (step 1 listener) (start 1 Nat.one_pos (twoSlots true)) p s ∧
      s.calls 0 = .returned (.ok ⟨5, some (peer 90)⟩) ∧
      s.accepted = [(5, peer 80), (6, peer 90)] ∧ ¬ s.OwnPeers := by
  obtain ⟨p, s, path, returned, accepted⟩ :
      ∃ p s, Runs.Path (step 1 listener) (start 1 Nat.one_pos (twoSlots true)) p s ∧
        s.calls 0 = .returned (.ok ⟨5, some (peer 90)⟩) ∧
        s.accepted = [(5, peer 80), (6, peer 90)] :=
    ⟨_, _, Runs.path_record overwrittenRun rfl, rfl, rfl⟩
  refine ⟨p, s, path, returned, accepted, fun peers => ?_⟩
  obtain ⟨found, mem, same⟩ := peers 0 _ returned
  cases same
  rw [accepted] at mem
  exact absurd mem (by decide)

end ListenSystem

end GoUring.Net
