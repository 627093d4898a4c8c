import Mathlib.Data.List.Perm.Subperm
import GoUring.Example.EchoServer
import GoUring.Uring.TimedWait

/-!
# The runs of the echo server

One descriptor has one operation at a time.  The SQE queued for it, the operation under way in the
kernel and the completion not handled yet are three stages of it, so the descriptors of all three
are distinct, and as the submission queue has a slot for each descriptor it never overflows.

`Live` is the invariant.  The program can move (`Goes`) or the kernel can complete an operation; an
operation is handled by queueing the next one of its descriptor.
-/

namespace GoUring.Echo

open Uring Runs

/-! ## The queues -/

/-- With a free slot an operation that can be encoded is queued. -/
theorem exists_queueSQE {q : SubmissionQueue} {op : Operation} {flags : UInt8} {userData : UInt64}
    (room : q.pending.length < q.entries)
    (encodes : ∀ old, op.encode flags userData old ≠ none) :
    ∃ q' sqe old, q.queueSQE op flags userData = some (none, q') ∧
      op.encode flags userData old = some sqe ∧ q'.pending = q.pending ++ [sqe] ∧
      q'.entries = q.entries := by
  have slot := q.wf.queueSQE_of_room ((SQ.length_pending q.sq).symm.trans_lt room) op flags userData
  cases queued : q.queueSQE op flags userData with
  | none =>
      have raw : q.sq.queueSQE op flags userData = none := by
        unfold SubmissionQueue.queueSQE at queued
        split at queued
        · next raw => exact raw
        · cases queued
      rw [slot, Option.map_eq_none_iff] at raw
      exact absurd raw (encodes _)
  | some result =>
      obtain ⟨err, q'⟩ := result
      rcases SubmissionQueue.queueSQE_cases queued with
        ⟨full, -⟩ | ⟨-, rfl, sqe, encoded, pushed, -, same⟩
      · exact absurd full room.ne
      · exact ⟨q', sqe, _, rfl, encoded, (BoundedFifo.Fifo.push_eq_some_iff.mp pushed).2.1, same⟩

theorem entries_kernelEnter {r : Ring} {args : EnterArgs} {result : EnterResult}
    {ret : Except RingError ℕ} {sqes : List SQEntry} {sq : SubmissionQueue}
    (entered : r.kernelEnter args result = some (ret, sqes, sq)) :
    sq.entries = r.sqRing.entries := by
  cases result with
  | failed errno =>
      cases entered
      rfl
  | consumed k =>
      simp only [Ring.kernelEnter, RingParams.enter] at entered
      split at entered
      · cases entered
        rfl
      · obtain ⟨-, entered⟩ := Option.ite_none_right_eq_some.mp entered
        obtain ⟨⟨read, sq⟩, many, done⟩ := Option.map_eq_some_iff.mp entered
        cases done
        exact (SubmissionQueue.kernelConsumeMany_spec k many).2.2.2

/-- A ring whose completions are all the user's is left alone by a pass of `getCQEvents`, and the
only error it returns by itself is `EAGAIN`. -/
theorem pass_of_users {c : Consumer} (users : ∀ q ∈ c.ready, q.userData ≠ libUserDataTimeout)
    (params : Ring.GetParams) :
    (c.pass params).2.ring = c.ring ∧
      ∀ cqe err, (c.pass params).1 = .ret cqe (some err) → err = .errno .eagain := by
  have raw : ∃ peeked, c.ring.cqRing.cq.peekCQEvent c.ring.params.extArgFeature =
      (peeked, c.ring.cqRing.cq) ∧ peeked.err = none := by
    unfold CQ.peekCQEvent
    cases available : (c.ring.cqRing.cq.kTail - c.ring.cqRing.cq.kHead).toNat with
    | zero => exact ⟨_, rfl, rfl⟩
    | succ k =>
        have some : c.ring.cqRing.cq.ready ≠ [] := by
          rw [ne_eq, ← List.length_eq_zero_iff, CQ.length_ready, CounterRing.gap, available]
          exact Nat.succ_ne_zero k
        have oldest := CQ.head_ready (CQ.headPtr_eq_some_iff.mpr ⟨some, rfl⟩)
        have own := users _ (List.mem_of_head? oldest)
        rw [CQ.peekLoop, if_neg (by simp [own])]
        exact ⟨_, rfl, rfl⟩
  obtain ⟨peeked, raw, fine⟩ := raw
  have peek : c.ring.peekCQEvent = (peeked, c.ring) := by
    simp only [Ring.peekCQEvent, raw]
  refine ⟨(c.ring.getIteration_peek params).1.trans (by rw [peek]), fun cqe err => ?_⟩
  show (c.ring.getIteration params).1 = _ → _
  simp only [Ring.getIteration, Ring.getDecision, SQ.getDecision, peek, fine]
  split
  · rintro ⟨⟩
    rfl
  · split
    · rintro ⟨⟩
    · rintro ⟨⟩

namespace EchoServer

/-- The SQEs queued and not read by the kernel. -/
def pending (s : EchoServer) : List SQEntry := s.c.ring.sqRing.pending

/-- The descriptors with an operation queued, under way, or completed and not handled. -/
def tokens (s : EchoServer) : List ℕ :=
  (s.pending ++ s.flight).map (fun e => e.userData.toNat) ++
    s.c.ready.map fun q => q.userData.toNat

/-- The invariant of the queues. -/
structure Orderly (w : EchoSetup) (s : EchoServer) : Prop where
  entries : s.c.ring.sqRing.entries = maxConns
  single : s.tokens.Nodup
  asks : ∀ e ∈ s.pending ++ s.flight, Asks w s.conns s.net e
  answers : ∀ q ∈ s.c.ready, Answers w s.conns s.net q
  used : ∀ f, (s.conns f).typ ≠ .none →
    (s.conns f).fd = f ∧ f < maxConns ∧ f ∈ w.inherited ++ s.net.accepted

variable {w : EchoSetup} {s s' : EchoServer} {f : ℕ}

theorem mem_tokens_of_sqe {e : SQEntry} (mem : e ∈ s.pending ++ s.flight) :
    e.userData.toNat ∈ s.tokens :=
  List.mem_append_left _ (List.mem_map_of_mem mem)

theorem mem_tokens_of_cqe {q : CQEvent} (mem : q ∈ s.c.ready) : q.userData.toNat ∈ s.tokens :=
  List.mem_append_right _ (List.mem_map_of_mem mem)

/-- A descriptor with an operation is in use. -/
theorem Orderly.typ_of_mem (ord : s.Orderly w) (mem : f ∈ s.tokens) : (s.conns f).typ ≠ .none := by
  rcases List.mem_append.mp mem with sqe | cqe
  · obtain ⟨e, there, rfl⟩ := List.mem_map.mp sqe
    exact (ord.asks e there).typ_ne
  · obtain ⟨q, there, rfl⟩ := List.mem_map.mp cqe
    exact (ord.answers q there).typ_ne

theorem Orderly.lt_of_mem (ord : s.Orderly w) (mem : f ∈ s.tokens) : f < maxConns :=
  (ord.used f (ord.typ_of_mem mem)).2.1

/-- **There is room for one more**: the queue has a slot for each descriptor. -/
theorem Orderly.room (ord : s.Orderly w) (free : f ∉ s.tokens) (small : f < maxConns) :
    s.pending.length < s.c.ring.sqRing.entries := by
  -- The descriptors with an operation and `f` are distinct places in the tables.
  have distinct : (f :: s.tokens).Nodup := List.nodup_cons.mpr ⟨free, ord.single⟩
  have inside : f :: s.tokens ⊆ List.range maxConns := by
    intro g mem
    rcases List.mem_cons.mp mem with rfl | there
    · exact List.mem_range.mpr small
    · exact List.mem_range.mpr (ord.lt_of_mem there)
  have le := (distinct.subperm inside).length_le
  rw [List.length_cons, List.length_range, tokens, List.length_append, List.length_map,
    List.length_append] at le
  rw [ord.entries]
  omega

/-- Setting an entry of `conns` for a descriptor that is open. -/
theorem Orderly.used_update {typ : ConnType} (ord : s.Orderly w) (small : f < maxConns)
    (known : f ∈ w.inherited ++ s.net.accepted) (g : ℕ)
    (typed : (Function.update s.conns f { fd := f, typ := typ } g).typ ≠ .none) :
    (Function.update s.conns f { fd := f, typ := typ } g).fd = g ∧ g < maxConns ∧
      g ∈ w.inherited ++ s.net.accepted := by
  by_cases here : g = f
  · subst here
    rw [Function.update_self]
    exact ⟨rfl, small, known⟩
  · rw [Function.update_of_ne here] at typed ⊢
    exact ord.used g typed

/-- An operation was queued for a descriptor. -/
structure Queued (w : EchoSetup) (s : EchoServer) (f : ℕ) (typ : ConnType) (s' : EchoServer) :
    Prop extends Orderly w s' where
  tokens : s'.tokens.Perm (f :: s.tokens)
  ready : s'.c.ready = s.c.ready
  conns : s'.conns = Function.update s.conns f { fd := f, typ := typ }
  net : s'.net = s.net
  pc : s'.pc = s.pc

/-- **Queueing an operation** for a descriptor that has none. -/
theorem Orderly.queue {op : Operation} {typ : ConnType} (ord : s.Orderly w) (free : f ∉ s.tokens)
    (small : f < maxConns) (known : f ∈ w.inherited ++ s.net.accepted)
    (kept : w.server ∈ s.tokens → (s.conns f).typ ≠ .none)
    (encodes : ∀ old, op.encode 0 (UInt64.ofNat f) old ≠ none)
    (asks : ∀ old e, op.encode 0 (UInt64.ofNat f) old = some e →
      Asks w (Function.update s.conns f { fd := f, typ := typ }) s.net e) :
    ∃ s', (s.setConn f typ).queueSQE op f = .ok s' ∧ Queued w s f typ s' := by
  obtain ⟨sq, e, old, queued, encoded, pending, entries⟩ :=
    exists_queueSQE (ord.room free small) encodes
  have tagged : e.userData.toNat = f := by
    rw [Operation.encode_userData encoded, toNat_userData small]
  have perm : ((s.setConn f typ).withSQ sq).tokens.Perm (f :: s.tokens) := by
    have middle : (s.pending ++ [e] ++ s.flight).Perm (e :: (s.pending ++ s.flight)) := by
      rw [List.append_assoc]
      exact List.perm_middle
    have moved := (middle.map fun e => e.userData.toNat).append_right
      (s.c.ready.map fun q => q.userData.toNat)
    rw [List.map_cons, tagged, ← show sq.pending = s.pending ++ [e] from pending] at moved
    exact moved
  refine ⟨(s.setConn f typ).withSQ sq, ?_, ?_⟩
  · have there : (s.setConn f typ).c.ring.sqRing.queueSQE op 0 (UInt64.ofNat f) = some (none, sq) :=
      queued
    rw [queueSQE, there]
  · refine ⟨⟨?_, ?_, ?_, ?_, ?_⟩, perm, rfl, rfl, rfl, rfl⟩
    · exact entries.trans ord.entries
    · exact perm.nodup_iff.mpr (List.nodup_cons.mpr ⟨free, ord.single⟩)
    · intro e' mem
      show Asks w (Function.update s.conns f { fd := f, typ := typ }) s.net e'
      have mem : e' ∈ s.pending ++ [e] ++ s.flight := pending ▸ mem
      by_cases new : e' = e
      · subst new
        exact asks old e' encoded
      · have there : e' ∈ s.pending ++ s.flight := by
          simp only [List.mem_append, List.mem_singleton, new, or_false] at mem ⊢
          exact mem
        refine (ord.asks e' there).update _ ?_
        rintro rfl
        exact free (mem_tokens_of_sqe there)
    · intro q mem
      show Answers w (Function.update s.conns f { fd := f, typ := typ }) s.net q
      refine (ord.answers q mem).update _ ?_ fun own => ?_
      · rintro rfl
        exact free (mem_tokens_of_cqe mem)
      · exact kept (own ▸ mem_tokens_of_cqe mem)
    · exact ord.used_update small known

/-- `addAccept` while no accept is under way. -/
theorem Orderly.addAccept (ord : s.Orderly w) (free : w.server ∉ s.tokens)
    (small : w.server < maxConns) (owes : s.net.Owes w.server []) :
    ∃ s', s.addAccept w = .ok s' ∧ Queued w s w.server .accept s' := by
  unfold EchoServer.addAccept
  rw [if_pos small]
  refine ord.queue free small (List.mem_append_left _ w.own) (fun there => absurd there free)
    (fun old none => by cases none) fun old e encoded => ?_
  exact asks_acceptOp small (by rw [Function.update_self]) owes encoded

/-- `addRead` on a connection without an operation. -/
theorem Orderly.addRead (ord : s.Orderly w) (free : f ∉ s.tokens) (small : f < maxConns)
    (known : f ∈ w.inherited ++ s.net.accepted)
    (kept : w.server ∈ s.tokens → (s.conns f).typ ≠ .none) (owes : s.net.Owes f []) :
    ∃ s', s.addRead w f = .ok s' ∧ Queued w s f .read s' := by
  unfold EchoServer.addRead
  rw [if_pos ⟨Int.natCast_nonneg f, Int.ofNat_lt.mpr small⟩, Int.toNat_natCast]
  refine ord.queue free small known kept (fun old none => ?_) fun old e encoded => ?_
  · have panics : (PublicOp.recv f { addr := w.buff f, len := maxMsgLen } 0).operation.encode 0
        (UInt64.ofNat f) old = Option.none := none
    obtain ⟨slice, ⟨⟩, empty⟩ := PublicOp.encode_eq_none_iff.mp panics
    exact absurd (show maxMsgLen = 0 from empty) (by decide)
  · exact asks_recvOp small (by rw [Function.update_self]) owes encoded

/-- `addWrite` of a message received. -/
theorem Orderly.addWrite {res : Int32} {bytes : List UInt8} (ord : s.Orderly w)
    (free : f ∉ s.tokens) (small : f < maxConns) (known : f ∈ w.inherited ++ s.net.accepted)
    (kept : w.server ∈ s.tokens → (s.conns f).typ ≠ .none) (read : res.toInt = bytes.length)
    (filled : bytes ≠ []) (fits : bytes.length ≤ maxMsgLen) (owes : s.net.Owes f [bytes])
    (stored : bytes <+: s.net.memory (w.buff f)) :
    ∃ s', s.addWrite w f res = .ok s' ∧ Queued w s f .write s' := by
  unfold EchoServer.addWrite
  rw [if_pos small, read, if_pos ⟨Int.natCast_nonneg _, Int.ofNat_le.mpr fits⟩, Int.toNat_natCast]
  refine ord.queue free small known kept (fun old none => ?_) fun old e encoded => ?_
  · have panics : (PublicOp.send f { addr := w.buff f, len := bytes.length } 0).operation.encode 0
        (UInt64.ofNat f) old = Option.none := none
    obtain ⟨slice, ⟨⟩, empty⟩ := PublicOp.encode_eq_none_iff.mp panics
    exact filled (List.length_eq_zero_iff.mp empty)
  · exact asks_sendOp small (by rw [Function.update_self]) filled fits owes stored encoded

/-- The completion held first is the oldest one. -/
theorem ready_of_held {c : Consumer} {ptr : ℕ} {rest : List ℕ} (held : c.buff = ptr :: rest) :
    ∃ later, c.ready = c.ring.cqRing.cq.cqeBuff ptr :: later ∧
      (seenCQE c ptr rest held).ready = later := by
  have shown := c.events_eq_take
  rw [Consumer.events, held, List.map_cons, List.length_cons] at shown
  cases ready : c.ready with
  | nil =>
      rw [ready] at shown
      cases shown
  | cons q later =>
      rw [ready, List.take_succ_cons] at shown
      refine ⟨later, by rw [(List.cons.inj shown).1], ?_⟩
      rw [seenCQE, Consumer.ready_advanceCQ, ready]
      rfl

/-- The oldest completion was retired. -/
structure Retired (w : EchoSetup) (s : EchoServer) (q : CQEvent) (t : EchoServer) :
    Prop extends Orderly w t where
  tokens : s.tokens.Perm (q.userData.toNat :: t.tokens)
  ready : s.c.ready = q :: t.c.ready
  conns : t.conns = s.conns
  net : t.net = s.net
  pc : t.pc = s.pc

theorem Orderly.retire {c : Consumer} {q : CQEvent} {later : List CQEvent} (ord : s.Orderly w)
    (oldest : s.c.ready = q :: later) (ring : c.ring.sqRing = s.c.ring.sqRing)
    (ready : c.ready = later) : Retired w s q { s with c := c } := by
  have pending : ({ s with c := c } : EchoServer).pending = s.pending := by
    rw [EchoServer.pending, ring, EchoServer.pending]
  have perm : s.tokens.Perm (q.userData.toNat :: ({ s with c := c } : EchoServer).tokens) := by
    rw [tokens, oldest, tokens, pending, ready, List.map_cons]
    exact List.perm_middle
  refine ⟨⟨?_, ?_, ?_, ?_, ord.used⟩, perm, by rw [oldest, ready], rfl, rfl, rfl⟩
  · show c.ring.sqRing.entries = maxConns
    rw [ring, ord.entries]
  · exact (List.nodup_cons.mp (perm.nodup_iff.mp ord.single)).2
  · rw [pending]
    exact ord.asks
  · intro q' mem
    have mem : q' ∈ later := ready ▸ mem
    exact ord.answers q' (oldest ▸ List.mem_cons_of_mem q mem)

theorem Retired.free {t : EchoServer} {q : CQEvent} (retired : Retired w s q t)
    (ord : s.Orderly w) : q.userData.toNat ∉ t.tokens :=
  (List.nodup_cons.mp (retired.tokens.nodup_iff.mp ord.single)).1

/-! ## Whole runs -/

/-- How the program can end: `io_uring_enter` fails, or an accept has failed or has given a
descriptor beyond the tables. -/
inductive Ends (w : EchoSetup) (s : EchoServer) : Stop → Prop
  | enter (errno : Errno) : Ends w s (.fatal (.enter errno))
  | accept (q : CQEvent) (oldest : s.c.ready.head? = some q) (own : q.userData.toNat = w.server)
      (range : ¬ (0 ≤ q.res.toInt ∧ q.res.toInt < maxConns)) : Ends w s (.index q.res.toInt)

/-- The completion that ends the program stays the oldest one. -/
theorem Ends.later {stop : Stop} (ends : Ends w s stop) (grown : s.c.ready <+: s'.c.ready) :
    Ends w s' stop := by
  cases ends with
  | enter errno => exact .enter errno
  | accept q oldest own range =>
      obtain ⟨rest, grown⟩ := grown
      refine .accept q ?_ own range
      rw [← grown, List.head?_append, oldest]
      rfl

/-- **The invariant of the server.** -/
structure Live (w : EchoSetup) (s : EchoServer) : Prop extends Orderly w s where
  /-- Where nothing is under way, nothing is owed. -/
  idle : ∀ f, f ∉ s.tokens → s.net.Owes f []
  listening : w.server ∈ s.tokens
  door : (s.conns w.server).typ = .accept
  ending : ∀ stop, s.pc = .stopped stop → Ends w s stop

/-- The program moves: the sockets are left alone, and an accept is handled only if its descriptor
is in the tables. -/
structure Goes (w : EchoSetup) (s s' : EchoServer) : Prop where
  live : s'.Live w
  net : s'.net = s.net
  handled : ∀ q ∈ s.c.ready, q.userData.toNat = w.server →
    q ∈ s'.c.ready ∨ q.res.toInt < maxConns

/-- No descriptor loses its operation. -/
theorem Live.keep (live : s.Live w) (ord : s'.Orderly w) (net : s'.net = s.net)
    (kept : s.tokens ⊆ s'.tokens) (door : (s'.conns w.server).typ = .accept)
    (running : ∀ stop, s'.pc ≠ .stopped stop) : s'.Live w where
  toOrderly := ord
  idle f free := by
    rw [net]
    exact live.idle f fun mem => free (kept mem)
  listening := kept live.listening
  door := door
  ending stop stopped := absurd stopped (running stop)

section Dispatch

variable {t : EchoServer} {q : CQEvent} {typ : ConnType}

/-- The completions behind the oldest one stay. -/
theorem Retired.handled (retired : Retired w s q t)
    (first : q.userData.toNat = w.server → q.res.toInt < maxConns)
    (ready : s'.c.ready = t.c.ready) {q' : CQEvent} (mem : q' ∈ s.c.ready)
    (own : q'.userData.toNat = w.server) : q' ∈ s'.c.ready ∨ q'.res.toInt < maxConns := by
  rw [retired.ready] at mem
  rcases List.mem_cons.mp mem with rfl | later
  · exact Or.inr (first own)
  · rw [ready]
    exact Or.inl later

/-- The next operation of a descriptor is queued. -/
theorem Live.next (live : s.Live w) (running : ∀ stop, s.pc ≠ .stopped stop)
    (retired : Retired w s q t) (other : q.userData.toNat ≠ w.server)
    (queued : Queued w t q.userData.toNat typ s') : Goes w s s' := by
  have net : s'.net = s.net := queued.net.trans retired.net
  refine ⟨live.keep queued.toOrderly net ?_ ?_ fun stop => ?_, net, fun q' =>
    retired.handled (fun own => absurd own other) queued.ready⟩
  · exact fun g mem => queued.tokens.symm.subset (retired.tokens.subset mem)
  · rw [queued.conns, Function.update_of_ne other.symm, retired.conns]
    exact live.door
  · rw [queued.pc, retired.pc]
    exact running stop

/-- A connection is accepted: its first receive, and the next accept. -/
theorem Live.accepted {fd : ℕ} (live : s.Live w) (running : ∀ stop, s.pc ≠ .stopped stop)
    (retired : Retired w s q t) (own : q.userData.toNat = w.server) (owes : s.net.Owes w.server [])
    (result : q.res.toInt = fd) (inside : fd < maxConns) (accepted : fd ∈ s.net.accepted)
    (unused : (s.conns fd).typ = .none) :
    ∃ s', (t.addRead w fd).bind (addAccept w) = .ok s' ∧ Goes w s s' := by
  have free : w.server ∉ t.tokens := own ▸ retired.free live.toOrderly
  have idle : fd ∉ s.tokens := fun mem => live.typ_of_mem mem unused
  have idle' : fd ∉ t.tokens := fun mem =>
    idle (retired.tokens.symm.subset (List.mem_cons_of_mem _ mem))
  obtain ⟨mid, reads, queued⟩ := retired.toOrderly.addRead idle' inside
    (retired.net ▸ List.mem_append_right _ accepted) (fun there => absurd there free)
    (retired.net ▸ live.idle fd idle)
  -- The descriptor accepted is not the socket itself, which has an operation.
  have still : w.server ∉ mid.tokens := by
    intro mem
    rcases List.mem_cons.mp (queued.tokens.subset mem) with rfl | there
    · exact idle live.listening
    · exact free there
  obtain ⟨last, accepts, listening⟩ := queued.toOrderly.addAccept still
    (live.lt_of_mem live.listening) (by rw [queued.net, retired.net]; exact owes)
  have net : last.net = s.net := listening.net.trans (queued.net.trans retired.net)
  refine ⟨last, by rw [reads]; exact accepts, live.keep listening.toOrderly net ?_ ?_ ?_, net, ?_⟩
  · intro g mem
    have there := retired.tokens.subset mem
    rw [own] at there
    rcases List.mem_cons.mp there with rfl | there
    · exact listening.tokens.symm.subset List.mem_cons_self
    · exact listening.tokens.symm.subset (List.mem_cons_of_mem _
        (queued.tokens.symm.subset (List.mem_cons_of_mem _ there)))
  · rw [listening.conns, Function.update_self]
  · intro stop
    rw [listening.pc, queued.pc, retired.pc]
    exact running stop
  · intro q'
    refine retired.handled (fun _ => ?_) (listening.ready.trans queued.ready)
    rw [result]
    exact Int.ofNat_lt.mpr inside

/-- The connection has no operation any more. -/
theorem Live.closed (live : s.Live w) (running : ∀ stop, s.pc ≠ .stopped stop)
    (retired : Retired w s q t) (other : q.userData.toNat ≠ w.server)
    (owes : s.net.Owes q.userData.toNat []) : Goes w s t := by
  refine ⟨⟨retired.toOrderly, fun f free => ?_, ?_, retired.conns ▸ live.door, fun stop stopped =>
    absurd (retired.pc ▸ stopped) (running stop)⟩, retired.net, fun q' =>
    retired.handled (fun own => absurd own other) rfl⟩
  · rw [retired.net]
    by_cases here : f = q.userData.toNat
    · rw [here]
      exact owes
    · refine live.idle f fun mem => ?_
      rcases List.mem_cons.mp (retired.tokens.subset mem) with same | there
      · exact here same
      · exact free there
  · rcases List.mem_cons.mp (retired.tokens.subset live.listening) with same | there
    · exact absurd same.symm other
    · exact there

/-- **One completion.**  The operation after it is queued, unless it is an accept that has failed or
has given a descriptor beyond the tables. -/
theorem Live.dispatch (live : s.Live w) (running : ∀ stop, s.pc ≠ .stopped stop)
    (oldest : s.c.ready.head? = some q) (retired : Retired w s q t) :
    (∃ s', t.dispatch w (s.conns q.userData.toNat) q.res = .ok s' ∧ Goes w s s') ∨
      ∃ stop, t.dispatch w (s.conns q.userData.toNat) q.res = .error stop ∧ Ends w s stop := by
  have first : q ∈ s.c.ready := List.mem_of_head? oldest
  have free := retired.free live.toOrderly
  obtain ⟨named, small, known⟩ := live.used _ (live.answers q first).typ_ne
  have known' : q.userData.toNat ∈ w.inherited ++ t.net.accepted := retired.net ▸ known
  have kept : w.server ∈ t.tokens → (t.conns q.userData.toNat).typ ≠ .none := fun _ =>
    retired.conns ▸ (live.answers q first).typ_ne
  have other : (s.conns q.userData.toNat).typ ≠ .accept → q.userData.toNat ≠ w.server := by
    intro typ here
    rw [here] at typ
    exact typ live.door
  unfold EchoServer.dispatch
  cases live.answers q first with
  | accept typ own owes fresh =>
      rw [typ]
      show (∃ s', (t.addRead w q.res.toInt).bind (addAccept w) = .ok s' ∧ _) ∨
        ∃ stop, (t.addRead w q.res.toInt).bind (addAccept w) = .error stop ∧ _
      by_cases range : 0 ≤ q.res.toInt ∧ q.res.toInt < maxConns
      · obtain ⟨accepted, unused⟩ := fresh range.1
        obtain ⟨fd, result⟩ := Int.eq_ofNat_of_zero_le range.1
        rw [result, Int.toNat_natCast] at accepted unused
        rw [result] at range ⊢
        have inside : fd < maxConns := Int.ofNat_lt.mp range.2
        exact Or.inl (live.accepted running retired own (own ▸ owes) result inside accepted unused)
      · refine Or.inr ⟨_, ?_, .accept q oldest own range⟩
        rw [EchoServer.addRead, if_neg range]
        rfl
  | read bytes typ res filled fits owes stored =>
      have positive : ¬ q.res.toInt ≤ 0 := by
        have := List.length_pos_of_ne_nil filled
        omega
      obtain ⟨s', writes, queued⟩ := retired.toOrderly.addWrite free small known' kept res filled
        fits (retired.net ▸ owes) (retired.net ▸ stored)
      refine Or.inl ⟨s', ?_, live.next running retired (other (by simp [typ])) queued⟩
      rw [typ, named]
      show (if q.res.toInt ≤ 0 then _ else _) = _
      rw [if_neg positive, writes]
  | ended typ res owes =>
      refine Or.inl ⟨t, ?_, live.closed running retired (other (by simp [typ])) owes⟩
      rw [typ]
      show (if q.res.toInt ≤ 0 then _ else _) = _
      rw [if_pos res]
  | write typ owes =>
      obtain ⟨s', reads, queued⟩ := retired.toOrderly.addRead free small known' kept
        (retired.net ▸ owes)
      refine Or.inl ⟨s', ?_, live.next running retired (other (by simp [typ])) queued⟩
      rw [typ, named]
      exact reads

end Dispatch

/-- **A pass over a completion held.** -/
theorem Live.handle (live : s.Live w) (running : ∀ stop, s.pc ≠ .stopped stop) :
    (∃ s', s.handle w = .ok s' ∧ Goes w s s') ∨
      ∃ stop, s.handle w = .error stop ∧ Ends w s stop := by
  unfold EchoServer.handle
  split
  · refine Or.inl ⟨_, rfl, ?_, rfl, fun q mem _ => Or.inl mem⟩
    exact live.keep ⟨live.entries, live.single, live.asks, live.answers, live.used⟩ rfl
      (fun _ mem => mem) live.door fun stop stopped => by cases stopped
  · next ptr rest held =>
    obtain ⟨later, oldest, ready⟩ := ready_of_held held
    have first := mem_tokens_of_cqe (s := s) (oldest ▸ List.mem_cons_self)
    rw [if_pos (live.lt_of_mem first)]
    exact live.dispatch running (by rw [oldest]; rfl) (live.retire oldest rfl ready)

/-- The kernel reads what was queued, or nothing happens to the queues. -/
structure Reads (s s' : EchoServer) : Prop where
  entries : s'.c.ring.sqRing.entries = s.c.ring.sqRing.entries
  pending : ∃ sqes, s.pending = sqes ++ s'.pending ∧ s'.flight = s.flight ++ sqes
  ready : s'.c.ready = s.c.ready
  conns : s'.conns = s.conns
  net : s'.net = s.net
  stops : ∀ stop, s'.pc = .stopped stop → ∃ errno, stop = .fatal (.enter errno)

theorem Reads.perm (reads : Reads s s') :
    (s'.pending ++ s'.flight).Perm (s.pending ++ s.flight) := by
  obtain ⟨sqes, front, back⟩ := reads.pending
  rw [front, back, List.append_assoc, ← List.append_assoc]
  exact List.perm_append_comm

theorem Reads.tokens (reads : Reads s s') : s'.tokens.Perm s.tokens := by
  rw [EchoServer.tokens, EchoServer.tokens, reads.ready]
  exact (reads.perm.map _).append_right _

theorem Reads.goes (reads : Reads s s') (live : s.Live w) : Goes w s s' := by
  refine ⟨⟨⟨?_, ?_, ?_, ?_, ?_⟩, ?_, ?_, ?_, ?_⟩, reads.net, fun q mem _ =>
    Or.inl (reads.ready ▸ mem)⟩
  · exact reads.entries.trans live.entries
  · exact reads.tokens.nodup_iff.mpr live.single
  · intro e mem
    rw [reads.conns, reads.net]
    exact live.asks e (reads.perm.subset mem)
  · intro q mem
    rw [reads.conns, reads.net]
    exact live.answers q (reads.ready ▸ mem)
  · rw [reads.conns, reads.net]
    exact live.used
  · intro f free
    rw [reads.net]
    exact live.idle f fun mem => free (reads.tokens.symm.subset mem)
  · exact reads.tokens.symm.subset live.listening
  · rw [reads.conns]
    exact live.door
  · intro stop stopped
    obtain ⟨errno, rfl⟩ := reads.stops stop stopped
    exact .enter errno

/-- Other completions than those of the library. -/
theorem Orderly.users (ord : s.Orderly w) :
    ∀ q ∈ s.c.ready, q.userData ≠ libUserDataTimeout := by
  intro q mem own
  have small := ord.lt_of_mem (mem_tokens_of_cqe mem)
  rw [own] at small
  exact absurd small (by decide)

/-- `WaitCQEvents` returns: at most the pointers held are others. -/
theorem Reads.waited {err : Option RingError} (reads : Reads s s')
    (known : ∀ failure ∈ err, failure = .errno .eagain ∨ ∃ errno, failure = .enter errno) :
    Reads s (s'.waited err) := by
  cases err with
  | none =>
      exact { reads with stops := fun stop stopped => by cases stopped }
  | some failure =>
      unfold EchoServer.waited
      dsimp only
      split
      · exact { reads with stops := fun stop stopped => by cases stopped }
      · next fatal =>
        refine { reads with stops := fun stop stopped => ?_ }
        cases stopped
        rcases known failure rfl with rfl | ⟨errno, rfl⟩
        · exact absurd (by decide) fatal
        · exact ⟨errno, rfl⟩

theorem reads_submit {result : EnterResult} (stepped : step w s (.submit result) = some s') :
    Reads s s' := by
  simp only [step] at stepped
  split at stepped
  · obtain ⟨⟨ret, sqes, sq⟩, submitted, done⟩ := Option.map_eq_some_iff.mp stepped
    obtain ⟨pending, -, entries⟩ := Ring.submit_spec submitted
    cases ret with
    | ok _ =>
        cases done
        exact ⟨entries, ⟨sqes, pending, rfl⟩, rfl, rfl, rfl, fun stop stopped => by cases stopped⟩
    | error err =>
        cases done
        obtain ⟨errno, -, rfl⟩ := Ring.submit_error submitted
        refine ⟨entries, ⟨sqes, pending, rfl⟩, rfl, rfl, rfl, fun stop stopped => ?_⟩
        cases stopped
        exact ⟨errno, rfl⟩
  · cases stepped

theorem Orderly.reads_pass (ord : s.Orderly w) (stepped : step w s .pass = some s') :
    Reads s s' := by
  simp only [step] at stepped
  split at stepped
  · next params waiting =>
    obtain ⟨ring, eagain⟩ := pass_of_users ord.users params
    have held : ∀ pc, (∀ stop, pc ≠ .stopped stop) →
        Reads s { s with c := (s.c.pass params).2, pc := pc } := by
      intro pc running
      refine ⟨?_, ⟨[], ?_, ?_⟩, ?_, rfl, rfl, fun stop stopped => absurd stopped (running stop)⟩
      · show (s.c.pass params).2.ring.sqRing.entries = _
        rw [ring]
      · show s.c.ring.sqRing.pending = (s.c.pass params).2.ring.sqRing.pending
        rw [ring]
      · exact (List.append_nil _).symm
      · show (s.c.pass params).2.ring.cqRing.ready = s.c.ring.cqRing.ready
        rw [ring]
    split at stepped
    · next cqe err returned =>
      cases stepped
      refine (held s.pc fun stop stopped => ?_).waited fun failure mem => ?_
      · rw [waiting] at stopped
        cases stopped
      · cases mem
        exact Or.inl (eagain cqe failure returned)
    · cases stepped
      exact held _ fun stop stopped => by cases stopped
  · cases stepped

theorem reads_enter {result : EnterResult} (stepped : step w s (.enter result) = some s') :
    Reads s s' := by
  simp only [step] at stepped
  split at stepped
  · next params args cqe entering =>
    obtain ⟨⟨ret, sqes, sq⟩, entered, done⟩ := Option.map_eq_some_iff.mp stepped
    obtain ⟨pending, failed⟩ := Ring.kernelEnter_spec entered
    have read : ∀ pc, (∀ stop, pc ≠ .stopped stop) →
        Reads s { s with c := s.c.withSQ sq, flight := s.flight ++ sqes, pc := pc } := by
      intro pc running
      exact ⟨entries_kernelEnter entered, ⟨sqes, pending, rfl⟩, rfl, rfl, rfl,
        fun stop stopped => absurd stopped (running stop)⟩
    cases ret with
    | error err =>
        obtain ⟨errno, -, rfl⟩ := failed err rfl
        cases done
        refine (read s.pc fun stop stopped => ?_).waited fun failure mem => ?_
        · rw [entering] at stopped
          cases stopped
        · cases mem
          exact Or.inr ⟨errno, rfl⟩
    | ok consumed =>
        cases cqe with
        | none =>
            cases done
            exact read _ fun stop stopped => by cases stopped
        | some ptr =>
            cases done
            refine (read s.pc fun stop stopped => ?_).waited fun failure mem => by cases mem
            rw [entering] at stopped
            cases stopped
  · cases stepped

/-- What a step can do: the program moves and leaves the sockets alone, or the kernel completes an
operation. -/
inductive Move (w : EchoSetup) (s : EchoServer) : EchoEvent → EchoServer → Prop
  | program {event : EchoEvent} {s' : EchoServer}
      (own : ∀ j outcome, event ≠ .complete j outcome) (goes : Goes w s s') : Move w s event s'
  | complete {j : ℕ} {outcome : Outcome} {e : SQEntry} {res : Int32} {net : Sockets} {c : Consumer}
      (found : s.flight[j]? = some e) (finished : s.net.finish w e outcome = some (res, net))
      (posted : s.c.kernelPost { userData := e.userData, res := res, flags := 0 } = some c) :
      Move w s (.complete j outcome) { s with c := c, flight := s.flight.eraseIdx j, net := net }

theorem Live.move {event : EchoEvent} (live : s.Live w) (stepped : step w s event = some s') :
    Move w s event s' := by
  cases event with
  | submit result =>
      exact .program (fun _ _ => nofun) ((reads_submit stepped).goes live)
  | pass =>
      exact .program (fun _ _ => nofun) ((live.reads_pass stepped).goes live)
  | enter result =>
      exact .program (fun _ _ => nofun) ((reads_enter stepped).goes live)
  | handle =>
      simp only [step] at stepped
      split at stepped
      · next batch =>
        have running : ∀ stop, s.pc ≠ .stopped stop := fun stop stopped => by
          rw [batch] at stopped
          cases stopped
        rcases live.handle running with ⟨t, done, goes⟩ | ⟨stop, done, ends⟩
        · rw [done] at stepped
          cases stepped
          exact .program (fun _ _ => nofun) goes
        · rw [done] at stepped
          cases stepped
          refine .program (fun _ _ => nofun) ⟨?_, rfl, fun q mem _ => Or.inl mem⟩
          refine ⟨⟨live.entries, live.single, live.asks, live.answers, live.used⟩, live.idle,
            live.listening, live.door, fun stop' stopped => ?_⟩
          cases stopped
          exact ends.later List.prefix_rfl
      · cases stepped
  | complete j outcome =>
      obtain ⟨e, found, stepped⟩ := Option.bind_eq_some_iff.mp stepped
      obtain ⟨⟨res, net⟩, finished, stepped⟩ := Option.bind_eq_some_iff.mp stepped
      obtain ⟨c, posted, rfl⟩ := Option.map_eq_some_iff.mp stepped
      exact .complete found finished posted

/-- What is left of the tokens when an operation is taken out. -/
theorem tokens_eraseIdx {j : ℕ} {e : SQEntry} (found : s.flight[j]? = some e) :
    s.tokens.Perm (e.userData.toNat :: ((s.pending ++ s.flight.eraseIdx j).map
      (fun e => e.userData.toNat) ++ s.c.ready.map fun q => q.userData.toNat)) := by
  obtain ⟨lt, here⟩ := List.getElem?_eq_some_iff.mp found
  have taken : (e :: s.flight.eraseIdx j).Perm s.flight := here ▸ List.getElem_cons_eraseIdx_perm lt
  have out : (s.pending ++ s.flight).Perm (e :: (s.pending ++ s.flight.eraseIdx j)) :=
    (taken.symm.append_left _).trans List.perm_middle
  exact (out.map fun e => e.userData.toNat).append_right _

/-- **The kernel completes an operation**, and the completion takes the place of the SQE. -/
theorem Live.complete {j : ℕ} {outcome : Outcome} {e : SQEntry} {res : Int32} {net : Sockets}
    {c : Consumer} (live : s.Live w) (found : s.flight[j]? = some e)
    (finished : s.net.finish w e outcome = some (res, net))
    (posted : s.c.kernelPost { userData := e.userData, res := res, flags := 0 } = some c)
    (after : s' = { s with c := c, flight := s.flight.eraseIdx j, net := net }) : s'.Live w := by
  obtain ⟨ready, -, -, sq, -⟩ := Consumer.kernelPost_spec posted
  have under : e ∈ s.pending ++ s.flight :=
    List.mem_append_right _ (List.mem_of_getElem? found)
  obtain ⟨answer, touches⟩ := (live.asks e under).finish (live.lt_of_mem (mem_tokens_of_sqe under))
    (fun f typ => (live.used f typ).2.2) finished
  have pending : s'.pending = s.pending := by
    rw [after, EchoServer.pending, sq, EchoServer.pending]
  have taken := tokens_eraseIdx found
  have perm : s'.tokens.Perm s.tokens := by
    have added : c.ready.map (fun q => q.userData.toNat) =
        s.c.ready.map (fun q => q.userData.toNat) ++ [e.userData.toNat] := by
      rw [ready, List.map_append]
      rfl
    refine List.Perm.trans ?_ taken.symm
    rw [tokens, pending, after, added, ← List.append_assoc]
    exact List.perm_append_singleton _ _
  -- No other SQE or completion is of this descriptor, so the others are not touched.
  have others := (List.nodup_cons.mp (taken.nodup_iff.mp live.single)).1
  subst after
  refine ⟨⟨?_, ?_, ?_, ?_, ?_⟩, ?_, ?_, live.door, ?_⟩
  · show c.ring.sqRing.entries = maxConns
    rw [sq, live.entries]
  · exact perm.nodup_iff.mpr live.single
  · intro e' mem
    rw [pending] at mem
    have kept : e' ∈ s.pending ++ s.flight := by
      rcases List.mem_append.mp mem with queued | flying
      · exact List.mem_append_left _ queued
      · exact List.mem_append_right _ (List.mem_of_mem_eraseIdx flying)
    refine (live.asks e' kept).touch touches (fun same => others ?_)
      (live.lt_of_mem (mem_tokens_of_sqe kept))
    rw [← same]
    exact List.mem_append_left _ (List.mem_map_of_mem mem)
  · intro q mem
    have mem : q ∈ s.c.ready ++ [{ userData := e.userData, res := res, flags := 0 }] := ready ▸ mem
    rcases List.mem_append.mp mem with old | new
    · refine (live.answers q old).touch touches (fun same => others ?_)
        (live.lt_of_mem (mem_tokens_of_cqe old))
      rw [← same]
      exact List.mem_append_right _ (List.mem_map_of_mem old)
    · rw [List.mem_singleton.mp new]
      exact answer
  · intro f typ
    obtain ⟨named, small, known⟩ := live.used f typ
    refine ⟨named, small, ?_⟩
    rcases List.mem_append.mp known with inherited | accepted
    · exact List.mem_append_left _ inherited
    · exact List.mem_append_right _ (touches.accepted.subset accepted)
  · intro f free
    have idle : f ∉ s.tokens := fun mem => free (perm.symm.subset mem)
    refine touches.owes ?_ (live.idle f idle)
    rintro rfl
    exact idle (mem_tokens_of_sqe under)
  · exact perm.symm.subset live.listening
  · intro stop stopped
    refine (live.ending stop stopped).later ?_
    show s.c.ready <+: c.ready
    rw [ready]
    exact List.prefix_append _ _

/-- **The server is live after every step.** -/
theorem Live.step {event : EchoEvent} (live : s.Live w)
    (stepped : EchoServer.step w s event = some s') : s'.Live w := by
  cases live.move stepped with
  | program own goes => exact goes.live
  | complete found finished posted => exact live.complete found finished posted rfl

section Started

variable {r : Ring} {s₀ : EchoServer} {p : List (EchoServer × EchoEvent)}

/-- `main` has queued its first accept on a new ring. -/
structure Started (w : EchoSetup) (r : Ring) (s₀ : EchoServer) : Prop where
  entries : r.sqRing.entries = maxConns
  pending : r.sqRing.pending = []
  ready : r.cqRing.ready = []
  first : (init r).addAccept w = .ok s₀

/-- The invariant holds at the start, with nothing accepted, received or sent. -/
theorem Started.live (started : Started w r s₀) : s₀.Live w ∧ s₀.net = (init r).net := by
  have tokens : (init r).tokens = [] := by
    show (r.sqRing.pending ++ []).map _ ++ r.cqRing.ready.map _ = []
    rw [started.pending, started.ready]
    rfl
  have ord : (init r).Orderly w := by
    refine ⟨started.entries, by rw [tokens]; exact List.nodup_nil, fun e mem => ?_, fun q mem => ?_,
      fun f typ => absurd rfl typ⟩
    · have token := mem_tokens_of_sqe mem
      rw [tokens] at token
      cases token
    · have token := mem_tokens_of_cqe mem
      rw [tokens] at token
      cases token
  have quiet : ∀ f, (init r).net.Owes f [] := fun f => ⟨[], rfl, .nil⟩
  have small : w.server < maxConns := by
    by_contra large
    have first := started.first
    rw [EchoServer.addAccept, if_neg large] at first
    cases first
  obtain ⟨s', added, queued⟩ := ord.addAccept (by rw [tokens]; exact List.not_mem_nil) small
    (quiet w.server)
  rw [started.first] at added
  cases added
  refine ⟨⟨queued.toOrderly, fun f _ => ?_, queued.tokens.symm.subset List.mem_cons_self, ?_, ?_⟩,
    queued.net⟩
  · rw [queued.net]
    exact quiet f
  · rw [queued.conns, Function.update_self]
  · intro stop stopped
    rw [queued.pc] at stopped
    cases stopped

theorem Started.run (started : Started w r s₀) (path : Path (step w) s₀ p s) : s.Live w :=
  path.invariant_of_step (fun s => s.Live w) started.live.1
    fun _ _ _ live stepped => live.step stepped

/-- **One operation for each descriptor, whatever the kernel does.**  In every state the operations
that are queued, under way or completed belong to different descriptors, one of them to the socket
that listens; each SQE and each completion is that of the operation `conns` has for its descriptor.
So the queue never overflows and no `PrepSQE` panics: the program ends only when `io_uring_enter`
fails, or when an accept fails or gives a descriptor beyond the tables. -/
theorem one_operation_each (started : Started w r s₀) (path : Path (step w) s₀ p s) :
    s.tokens.Nodup ∧ w.server ∈ s.tokens ∧
      (∀ e ∈ s.pending ++ s.flight, Asks w s.conns s.net e) ∧
      (∀ q ∈ s.c.ready, Answers w s.conns s.net q) ∧
      ∀ stop, s.pc = .stopped stop → Ends w s stop := by
  have live := started.run path
  exact ⟨live.single, live.listening, live.asks, live.answers, live.ending⟩

end Started

/-! The server on a ring of 4096 slots, its socket being the descriptor 4. -/

def echoSQ : SQ where
  kHead := 0
  kTail := 0
  kRingMask := 4095
  kRingEntries := 4096
  kFlags := 0
  kArray := fun _ => 0
  sqeBuff := fun _ => default
  sqeTail := 0
  sqeHead := 0

theorem echoSQ_fresh : echoSQ.Fresh where
  sized := ⟨⟨12, rfl⟩, rfl⟩
  small := by decide
  kTail := rfl
  sqeHead := rfl
  sqeTail := rfl

def echoCQ : CQ where
  kHead := 0
  kTail := 0
  kRingMask := 8191
  kRingEntries := 8192
  cqeBuff := fun _ => default

theorem echoCQ_wf : echoCQ.WF where
  sized := ⟨⟨13, rfl⟩, rfl⟩
  ready_le := by decide

def echoRing : Ring where
  params := { flags := 0, features := featFastPoll }
  sqRing := { sq := echoSQ, wf := echoSQ_fresh.wf }
  cqRing := { cq := echoCQ, wf := echoCQ_wf }

/-- Buffers one after the other. -/
def echoBuff (f : ℕ) : UInt64 := UInt64.ofNat (maxMsgLen * f)

theorem toNat_echoBuff {f : ℕ} (small : f < maxConns) : (echoBuff f).toNat = maxMsgLen * f := by
  refine UInt64.toNat_ofNat_of_lt' ?_
  unfold maxConns at small
  unfold maxMsgLen UInt64.size
  omega

theorem echoBuff_apart (f g : ℕ) (small : f < maxConns) (small' : g < maxConns)
    (same : echoBuff f = echoBuff g) : f = g := by
  have numbers := congrArg UInt64.toNat same
  rw [toNat_echoBuff small, toNat_echoBuff small'] at numbers
  exact Nat.eq_of_mul_eq_mul_left (Nat.succ_pos 2047) numbers

def echoSetup : EchoSetup where
  server := 4
  inherited := [0, 1, 2, 3, 4]
  buff := echoBuff
  rawAddr := 8388608
  addrLen := 8388736
  own := List.mem_of_getElem? (i := 4) rfl
  apart := echoBuff_apart

def firstState : EchoServer :=
  match (init echoRing).addAccept echoSetup with
  | .ok s => s
  | .error _ => init echoRing

theorem started_firstState : Started echoSetup echoRing firstState where
  entries := rfl
  pending := rfl
  ready := rfl
  first := rfl

/-- The first accept fails with `EMFILE`. -/
def failedAccept : List EchoEvent :=
  [.submit (.consumed 1), .pass, .complete 0 (.failed 24), .enter (.consumed 0), .pass, .handle]

/-- The result of the accept is the index that ends the program. -/
theorem one_operation_each_failed_accept :
    ∃ p s, Path (step echoSetup) firstState p s ∧ s.pc = .stopped (.index (-24)) ∧
      Ends echoSetup s (.index (-24)) := by
  have path : Path (step echoSetup) firstState _ _ := path_record failedAccept rfl
  refine ⟨_, _, path, rfl, ?_⟩
  exact (one_operation_each started_firstState path).2.2.2.2 _ rfl

end EchoServer

end GoUring.Echo
