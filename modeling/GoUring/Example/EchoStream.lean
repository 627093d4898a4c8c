import Mathlib.Data.List.TakeDrop
import GoUring.Example.EchoRun

/-!
# What the echo server echoes

A message received on a connection is sent back before the next one is received.  `addWrite` sends
it with one send and does not look at how much of it was sent: of each message an initial part comes
back, and the messages that come back are those received exactly if every send was whole.

No descriptor is ever closed, so each connection takes one more place in the tables.  The accept
after the last place ends the program.
-/

namespace GoUring.Echo

open Uring Runs

/-! ## Messages and their echoes -/

namespace Sockets

variable {w : EchoSetup} {n n' : Sockets} {e : SQEntry} {outcome : Outcome} {res : Int32} {f : ℕ}

theorem Owes.length_le {chunks : List (List UInt8)} (owes : n.Owes f chunks) :
    (n.sent f).length ≤ (n.received f).length := by
  obtain ⟨answered, received, sent⟩ := owes
  rw [received, List.length_append, sent.length_eq]
  exact Nat.le_add_right _ _

/-- An operation that is no send sends nothing, and what was received stays. -/
theorem finish_of_ne (finished : n.finish w e outcome = some (res, n'))
    (code : e.opCode ≠ OpCode.send.toUInt8) :
    n'.sent = n.sent ∧ n.received f <+: n'.received f := by
  cases outcome with
  | accepted fd =>
      obtain ⟨-, done⟩ := Option.ite_none_right_eq_some.mp finished
      cases done
      exact ⟨rfl, List.prefix_rfl⟩
  | received bytes =>
      obtain ⟨-, done⟩ := Option.ite_none_right_eq_some.mp finished
      obtain ⟨rfl, rfl⟩ := Prod.mk.inj (Option.some.inj done)
      split
      · exact ⟨rfl, List.prefix_rfl⟩
      · refine ⟨rfl, ?_⟩
        show n.received f <+: Function.update n.received e.fileno _ f
        by_cases here : f = e.fileno
        · rw [here, Function.update_self]
          exact List.prefix_append _ _
        · rewrite [Function.update_of_ne here]
          exact List.prefix_rfl
  | sent k =>
      obtain ⟨⟨send, -⟩, -⟩ := Option.ite_none_right_eq_some.mp finished
      exact absurd send code
  | failed errno =>
      obtain ⟨-, done⟩ := Option.ite_none_right_eq_some.mp finished
      rw [if_neg code] at done
      cases done
      exact ⟨rfl, List.prefix_rfl⟩

/-- **How a send ends**: a part of its bytes was sent, and that is all of them exactly if the result
is their number. -/
theorem finish_of_send {bytes : List UInt8} (finished : n.finish w e outcome = some (res, n'))
    (code : e.opCode = OpCode.send.toUInt8)
    (slice : e.slice = { addr := w.buff f, len := bytes.length }) (filled : bytes ≠ [])
    (stored : bytes <+: n.memory (w.buff f)) :
    ∃ out, n' = n.send e.fileno out ∧ (out = bytes ↔ outcome = .sent e.len.toNat) := by
  have address : e.addr = w.buff f := congrArg Slice.addr slice
  have length : e.len.toNat = bytes.length := congrArg Slice.len slice
  cases outcome with
  | accepted fd =>
      obtain ⟨⟨accept, -⟩, -⟩ := Option.ite_none_right_eq_some.mp finished
      exact absurd (accept.symm.trans code) (by decide)
  | received bytes =>
      obtain ⟨⟨recv, -⟩, -⟩ := Option.ite_none_right_eq_some.mp finished
      exact absurd (recv.symm.trans code) (by decide)
  | sent k =>
      obtain ⟨⟨-, le, -⟩, done⟩ := Option.ite_none_right_eq_some.mp finished
      cases done
      obtain ⟨rest, stored⟩ := stored
      rw [length] at le
      refine ⟨_, rfl, ?_⟩
      rw [address, ← stored, List.take_append_of_le_length le, List.take_eq_self_iff, length,
        Outcome.sent.injEq]
      exact ⟨le.antisymm, ge_of_eq⟩
  | failed errno =>
      obtain ⟨-, done⟩ := Option.ite_none_right_eq_some.mp finished
      rw [if_pos code] at done
      cases done
      exact ⟨[], rfl, fun same => absurd same.symm filled, nofun⟩

/-- **One more echo.**  The echoes are the messages received exactly if they were so far and this
one is the message owed. -/
theorem Owes.sent_prefix_iff {bytes out : List UInt8} (owes : n.Owes f [bytes]) :
    (n.send f out).sent f <+: (n.send f out).received f ↔
      n.sent f <+: n.received f ∧ out = bytes := by
  obtain ⟨answered, received, sent⟩ := owes
  have length := sent.length_eq
  show Function.update n.sent f (n.sent f ++ [out]) f <+: n.received f ↔ _
  rw [Function.update_self, received]
  constructor
  · intro echoed
    -- Both sides are as long as the messages answered and one more, so they are equal.
    have same := echoed.eq_of_length (by simp [length])
    obtain ⟨front, last⟩ := List.append_inj same length
    rw [front]
    exact ⟨List.prefix_append _ _, List.singleton_injective last⟩
  · rintro ⟨echoed, rfl⟩
    have front := List.prefix_of_prefix_length_le echoed (List.prefix_append _ _) length.le
    rewrite [front.eq_of_length length]
    exact List.prefix_rfl

/-- What an operation adds to the descriptors accepted. -/
theorem accepted_finish (finished : n.finish w e outcome = some (res, n')) :
    n'.accepted = n.accepted ∨
      ∃ fd : ℕ, n'.accepted = n.accepted ++ [fd] ∧ res.toInt = fd ∧ fd ∉ w.inherited ++ n.accepted ∧
        e.opCode = OpCode.accept.toUInt8 := by
  cases outcome with
  | accepted fd =>
      obtain ⟨⟨code, fresh, fits⟩, done⟩ := Option.ite_none_right_eq_some.mp finished
      cases done
      exact Or.inr ⟨fd, rfl, Int32.toInt_ofNat_of_lt fits, fresh, code⟩
  | received bytes =>
      obtain ⟨-, done⟩ := Option.ite_none_right_eq_some.mp finished
      obtain ⟨rfl, rfl⟩ := Prod.mk.inj (Option.some.inj done)
      split <;> exact Or.inl rfl
  | sent k =>
      obtain ⟨-, done⟩ := Option.ite_none_right_eq_some.mp finished
      cases done
      exact Or.inl rfl
  | failed errno =>
      obtain ⟨-, done⟩ := Option.ite_none_right_eq_some.mp finished
      obtain ⟨rfl, rfl⟩ := Prod.mk.inj (Option.some.inj done)
      split <;> exact Or.inl rfl

end Sockets

namespace EchoServer

variable {w : EchoSetup} {r : Ring} {s₀ s s' : EchoServer} {p : List (EchoServer × EchoEvent)}

/-- If a send on `f` ends here, all of its bytes were sent. -/
def WholeSend (f : ℕ) (s : EchoServer) : EchoEvent → Prop
  | .complete j outcome => ∀ e ∈ s.flight[j]?, e.opCode = OpCode.send.toUInt8 → e.fileno = f →
      outcome = .sent e.len.toNat
  | _ => True

theorem wholeSend_of_ne {f : ℕ} {event : EchoEvent}
    (other : ∀ j outcome, event ≠ .complete j outcome) : s.WholeSend f event := by
  cases event with
  | complete j outcome => exact absurd rfl (other j outcome)
  | _ => trivial

/-- On each descriptor at most one message is owed. -/
theorem Live.owes (live : s.Live w) (f : ℕ) :
    ∃ chunks, chunks.length ≤ 1 ∧ s.net.Owes f chunks := by
  by_cases mem : f ∈ s.tokens
  · rcases List.mem_append.mp mem with sqe | cqe
    · obtain ⟨e, there, rfl⟩ := List.mem_map.mp sqe
      cases live.asks e there with
      | accept typ own code owes => exact ⟨[], Nat.zero_le 1, owes⟩
      | read typ code fd slice owes => exact ⟨[], Nat.zero_le 1, owes⟩
      | write bytes typ code fd slice filled owes => exact ⟨[bytes], le_rfl, owes⟩
    · obtain ⟨q, there, rfl⟩ := List.mem_map.mp cqe
      cases live.answers q there with
      | accept typ own owes => exact ⟨[], Nat.zero_le 1, owes⟩
      | read bytes typ res filled fits owes => exact ⟨[bytes], le_rfl, owes⟩
      | ended typ res owes => exact ⟨[], Nat.zero_le 1, owes⟩
      | write typ owes => exact ⟨[], Nat.zero_le 1, owes⟩
  · exact ⟨[], Nat.zero_le 1, live.idle f mem⟩

/-- A step leaves the echoes on `f` what they are meant to be, unless it ends a send that was not
whole. -/
theorem Live.echoed_iff {event : EchoEvent} (live : s.Live w) (f : ℕ)
    (stepped : EchoServer.step w s event = some s') :
    s'.net.sent f <+: s'.net.received f ↔
      s.net.sent f <+: s.net.received f ∧ s.WholeSend f event := by
  cases live.move stepped with
  | program own goes =>
      rw [goes.net]
      exact (and_iff_left (wholeSend_of_ne own)).symm
  | @complete j outcome e res net c found finished posted =>
      have under : e ∈ s.pending ++ s.flight :=
        List.mem_append_right _ (List.mem_of_getElem? found)
      have asks := live.asks e under
      have small := live.lt_of_mem (mem_tokens_of_sqe under)
      have touches := (asks.finish small (fun f typ => (live.used f typ).2.2) finished).2
      have only : s.WholeSend f (.complete j outcome) ↔
          (e.opCode = OpCode.send.toUInt8 → e.fileno = f → outcome = .sent e.len.toNat) := by
        refine ⟨fun whole => whole e found, fun whole e' there => ?_⟩
        rw [Option.mem_def, found] at there
        cases there
        exact whole
      show net.sent f <+: net.received f ↔ _
      rw [only]
      by_cases send : e.opCode = OpCode.send.toUInt8
      · cases asks with
        | accept _ _ code => exact absurd (code.symm.trans send) (by decide)
        | read _ code => exact absurd (code.symm.trans send) (by decide)
        | write bytes typ code fd slice filled owes stored =>
            by_cases here : f = e.userData.toNat
            · obtain ⟨out, rfl, whole⟩ := Sockets.finish_of_send finished send slice filled stored
              rw [← here] at fd owes
              rw [fd, owes.sent_prefix_iff, whole]
              exact and_congr_right fun _ => ⟨fun all _ _ => all, fun all => all send rfl⟩
            · rw [touches.received f here, touches.sent f here]
              refine (and_iff_left fun _ same => ?_).symm
              exact absurd (same.symm.trans fd) here
      · obtain ⟨sent, grown⟩ := Sockets.finish_of_ne (f := f) finished send
        obtain ⟨chunks, -, owes⟩ := live.owes f
        rw [sent]
        constructor
        · intro echoed
          refine ⟨?_, fun code => absurd code send⟩
          exact List.prefix_of_prefix_length_le echoed grown owes.length_le
        · exact fun echoed => echoed.1.trans grown

/-- **What comes back.**  On every connection of every run, of each message but the last an initial
part was sent back, in the order in which the messages were received, and of the last one if it is
not owed any more.  The messages sent back are those received exactly if every send on the
connection was whole. -/
theorem echoes_iff (started : Started w r s₀) (path : Path (step w) s₀ p s) (f : ℕ) :
    (∃ owed, owed.length ≤ 1 ∧ s.net.Owes f owed) ∧
      (s.net.sent f <+: s.net.received f ↔ ∀ x ∈ p, x.1.WholeSend f x.2) := by
  refine ⟨(started.run path).owes f, ?_⟩
  refine path.tally (fun s => s.Live w) (fun s => s.net.sent f <+: s.net.received f)
    (fun s event => s.WholeSend f event) started.live.1 ?_
    (fun _ _ _ live stepped => live.step stepped)
    fun _ _ _ live stepped => live.echoed_iff f stepped
  rw [started.live.2]
  exact List.nil_prefix

/-- Of a message of two bytes one is sent back. -/
def shortSend : List EchoEvent :=
  [.submit (.consumed 1), .complete 0 (.accepted 5), .pass, .handle, .handle,
    .submit (.consumed 2), .complete 0 (.received [104, 105]), .pass, .handle, .handle,
    .submit (.consumed 1), .complete 1 (.sent 1)]

/-- The other byte is lost. -/
theorem echoes_iff_short_send :
    ∃ p s, Path (step echoSetup) firstState p s ∧ s.net.received 5 = [[104, 105]] ∧
      s.net.sent 5 = [[104]] ∧ ¬ ∀ x ∈ p, x.1.WholeSend 5 x.2 := by
  have path : Path (step echoSetup) firstState _ _ := path_record shortSend rfl
  refine ⟨_, _, path, rfl, rfl, fun whole => ?_⟩
  have echoed := (echoes_iff started_firstState path 5).2.mpr whole
  revert echoed
  show ¬ [[104]] <+: [[104, 105]]
  decide

/-! ## How many connections there can be -/

/-- The descriptors accepted are distinct, and all of them but one that the program has not looked
at are in the tables. -/
structure Counted (w : EchoSetup) (s : EchoServer) : Prop where
  distinct : s.net.accepted.Nodup
  apart : ∀ fd ∈ s.net.accepted, fd ∉ w.inherited
  tables : ∀ fd ∈ s.net.accepted, fd < maxConns ∨
    ∃ q ∈ s.c.ready, q.userData.toNat = w.server ∧ q.res.toInt = fd

/-- Completions are posted, none of them a new descriptor. -/
theorem Counted.post (counted : Counted w s) (same : s'.net.accepted = s.net.accepted)
    (grown : s.c.ready <+: s'.c.ready) : Counted w s' := by
  refine ⟨same ▸ counted.distinct, same ▸ counted.apart, fun fd mem => ?_⟩
  rw [same] at mem
  exact (counted.tables fd mem).imp_right fun ⟨q, there, result⟩ => ⟨q, grown.subset there, result⟩

/-- A descriptor is accepted that was not open. -/
theorem Counted.accept {fd : ℕ} (counted : Counted w s)
    (new : s'.net.accepted = s.net.accepted ++ [fd]) (fresh : fd ∉ w.inherited ++ s.net.accepted)
    (grown : s.c.ready <+: s'.c.ready)
    (posted : ∃ q ∈ s'.c.ready, q.userData.toNat = w.server ∧ q.res.toInt = fd) :
    Counted w s' := by
  refine ⟨?_, fun fd' mem => ?_, fun fd' mem => ?_⟩
  · rw [new]
    refine List.nodup_append.mpr ⟨counted.distinct, List.nodup_singleton fd, ?_⟩
    rintro old mem _ last rfl
    rw [List.mem_singleton.mp last] at mem
    exact fresh (List.mem_append_right _ mem)
  · rw [new] at mem
    rcases List.mem_append.mp mem with old | last
    · exact counted.apart fd' old
    · rw [List.mem_singleton.mp last]
      exact fun there => fresh (List.mem_append_left _ there)
  · rw [new] at mem
    rcases List.mem_append.mp mem with old | last
    · exact (counted.tables fd' old).imp_right fun ⟨q, there, result⟩ =>
        ⟨q, grown.subset there, result⟩
    · rw [List.mem_singleton.mp last]
      exact Or.inr posted

theorem Counted.step {event : EchoEvent} (counted : Counted w s) (live : s.Live w)
    (stepped : EchoServer.step w s event = some s') : Counted w s' := by
  cases live.move stepped with
  | program own goes =>
      refine ⟨goes.net ▸ counted.distinct, goes.net ▸ counted.apart, fun fd mem => ?_⟩
      rw [goes.net] at mem
      rcases counted.tables fd mem with small | ⟨q, there, listening, result⟩
      · exact Or.inl small
      · rcases goes.handled q there listening with still | small
        · exact Or.inr ⟨q, still, listening, result⟩
        · rw [result] at small
          exact Or.inl (Int.ofNat_lt.mp small)
  | @complete j outcome e res net c found finished posted =>
      obtain ⟨ready, -⟩ := Consumer.kernelPost_spec posted
      have grown : s.c.ready <+: c.ready := ready ▸ List.prefix_append _ _
      rcases Sockets.accepted_finish finished with same | ⟨fd, new, result, fresh, code⟩
      · exact counted.post same grown
      · -- Of the operations under way only that of the listening socket is an accept.
        have own : e.userData.toNat = w.server := by
          cases live.asks e (List.mem_append_right _ (List.mem_of_getElem? found)) with
          | accept _ own => exact own
          | read _ recv => exact absurd (recv.symm.trans code) (by decide)
          | write _ _ send => exact absurd (send.symm.trans code) (by decide)
        refine counted.accept new fresh grown
          ⟨{ userData := e.userData, res := res, flags := 0 }, ?_, own, result⟩
        exact ready ▸ List.mem_append_right _ (List.mem_singleton_self _)

/-- Two descriptors accepted that the program has not looked at are one. -/
theorem Counted.eq_of_large {fd fd' : ℕ} (counted : Counted w s) (live : s.Live w)
    (mem : fd ∈ s.net.accepted) (mem' : fd' ∈ s.net.accepted) (large : ¬ fd < maxConns)
    (large' : ¬ fd' < maxConns) : fd = fd' := by
  obtain ⟨q, there, own, result⟩ := (counted.tables fd mem).resolve_left large
  obtain ⟨q', there', own', result'⟩ := (counted.tables fd' mem').resolve_left large'
  have single := (List.nodup_append.mp live.single).2.1
  have same := List.inj_on_of_nodup_map single there there' (own.trans own'.symm)
  rw [same, result'] at result
  exact (Int.ofNat_inj.mp result).symm

/-- The place of a descriptor: its own in the tables, that of the listening socket beyond them. -/
def place (w : EchoSetup) (fd : ℕ) : ℕ := if fd < maxConns then fd else w.server

theorem Counted.place_injective (counted : Counted w s) (live : s.Live w) :
    ∀ fd ∈ s.net.accepted, ∀ fd' ∈ s.net.accepted, place w fd = place w fd' → fd = fd' := by
  intro fd mem fd' mem' same
  unfold place at same
  split at same
  · split at same
    · exact same
    · exact absurd (same ▸ w.own) (counted.apart fd mem)
  · next large =>
    split at same
    · exact absurd (same ▸ w.own) (counted.apart fd' mem')
    · next large' => exact counted.eq_of_large live mem mem' large large'

/-- **The server accepts at most `MaxConns` connections in its life**, however many of them have
ended. -/
theorem connections_bounded (started : Started w r s₀) (path : Path (step w) s₀ p s) :
    s.net.accepted.length ≤ maxConns := by
  have both : s.Live w ∧ Counted w s := by
    refine path.invariant_of_step (fun s => s.Live w ∧ Counted w s) ⟨started.live.1, ?_⟩
      fun _ _ _ inv stepped => ⟨inv.1.step stepped, inv.2.step inv.1 stepped⟩
    have none : s₀.net.accepted = [] := by
      rw [started.live.2]
      rfl
    constructor <;> simp [none]
  obtain ⟨live, counted⟩ := both
  have distinct := counted.distinct.map_on (counted.place_injective live)
  have inside : s.net.accepted.map (place w) ⊆ List.range maxConns := by
    intro g mem
    obtain ⟨fd, -, rfl⟩ := List.mem_map.mp mem
    rw [List.mem_range, place]
    split
    · next small => exact small
    · exact live.lt_of_mem live.listening
  have le := (distinct.subperm inside).length_le
  rwa [List.length_map, List.length_range] at le

/-- The connection with the descriptor 5 is one of them. -/
theorem connections_bounded_one :
    ∃ p s, Path (step echoSetup) firstState p s ∧ s.net.accepted = [5] ∧
      s.net.accepted.length ≤ maxConns := by
  have path : Path (step echoSetup) firstState _ _ := path_record shortSend rfl
  exact ⟨_, _, path, rfl, connections_bounded started_firstState path⟩

end EchoServer

end GoUring.Echo
