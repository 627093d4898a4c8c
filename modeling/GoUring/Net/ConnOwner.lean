import GoUring.Net.ConnCalls

/-!
# Buffers and results of connections

All `Read`s of a connection share one operation object and one channel.  The object is
read by the publisher long after the `Read` has handed it over, and the channel does not
say whose completion it carries.  What makes both safe is that `readLock` is held until
the completion is received, and that the reactor matches completions to callbacks.

`Owned` puts the two together.  A call whose request is still in a channel has not been
answered, so it still holds the lock and its buffer is the one in the operation; the
callback a consumer waits in belongs to a call that has not been answered either, so the
call that receives from it is that call.  Like the matching in the reactor this needs
that fewer than `2 ^ 32` requests are made for a descriptor during the life of a request.
Connections need not have different descriptors.
-/

namespace GoUring.Reactor

namespace NetCall

/-- The call is over and may have sent user data `ud` to loop `l`. -/
def Carries (n l : ℕ) (ud : UInt64) : NetCall → Prop
  | .returned args nonce serial =>
      l = loopForFd n args.op.fd ∧ ud = (args.op.ticket nonce serial).id
  | .cancelled => True
  | _ => False

variable {n l : ℕ} {ud : UInt64} {call call' : NetCall}

theorem carries_of_mayHaveSent {req : SubSqeRequest} (may : call.MayHaveSent n l req) :
    call.Carries n l req.userData := by
  cases call with
  | returned args nonce serial =>
      obtain ⟨home, rfl⟩ := may
      exact ⟨home, rfl⟩
  | cancelled => trivial
  | _ => exact may

theorem Carries.next {e : NetEvent} {k : ℕ} (carries : call.Carries n l ud)
    (next : Next e k call call') : call'.Carries n l ud := by
  cases next with
  | stay => exact carries
  | _ => exact carries.elim

end NetCall

end GoUring.Reactor

namespace GoUring.Net

open Uring Reactor

namespace ConnCall

/-- The call has handed its request over, or is about to, and was not answered. -/
def Open : ConnCall → Prop
  | .queueing _ _ => True
  | .waiting _ _ => True
  | _ => False

/-- If the call was answered, then with a completion that `mine` says is its own. -/
def Answered (mine : CQEvent → Prop) : ConnCall → Prop
  | .received _ _ cqe => mine cqe
  | .returned h _ result => ∃ cqe, mine cqe ∧ result = h.dir.result cqe
  | _ => True

theorem Answered.mono {mine mine' : CQEvent → Prop} (more : ∀ cqe, mine cqe → mine' cqe)
    {call : ConnCall} (answered : call.Answered mine) : call.Answered mine' := by
  cases call with
  | received h b cqe => exact more cqe answered
  | returned h b r =>
      obtain ⟨cqe, own, eq⟩ := answered
      exact ⟨cqe, more cqe own, eq⟩
  | _ => trivial

/-- An open call holds the lock of its direction. -/
theorem Open.holds {call : ConnCall} (isOpen : call.Open) : call.holds = call.half := by
  cases call with
  | queueing h b => rfl
  | waiting h b => rfl
  | _ => exact isOpen.elim

end ConnCall

namespace ConnSystem

variable {n : ℕ} {fds : Sockets} {s s' : ConnSystem} {e : ConnEvent}

/-- **Who owns what.** -/
structure Owned (n : ℕ) (s : ConnSystem) : Prop where
  base : NetReactor.Base n s.net
  carried : NetReactor.Carried n s.net
  /-- The senders have sent what is in the channels. -/
  senders : ∀ l, List.Forall₂ (fun k ud => (s.net.calls k).Carries n l ud) (s.senders l)
    ((s.net.loops l).reqBuss.map SubSqeRequest.userData)
  /-- A call whose request is in a channel was not answered. -/
  unanswered : ∀ l, ∀ k ∈ s.senders l, k ∉ s.net.invoked.map Prod.fst
  /-- A consumer waits in a callback that was invoked, for a call that is open. -/
  delivering : ∀ l k cqe, s.host.delivering l = some (k, cqe) →
    (k, cqe) ∈ s.net.invoked ∧ (s.calls k).Open
  /-- No two consumers wait for the same call. -/
  apart : ∀ l l' k cqe cqe', s.host.delivering l = some (k, cqe) →
    s.host.delivering l' = some (k, cqe') → l = l'
  /-- A call that was answered was answered with the completion of its request. -/
  answered : ∀ k, (s.calls k).Answered fun cqe => (k, cqe) ∈ s.net.invoked

theorem owned_start (some_loop : 0 < n) (rings : ℕ → ReactorRing true) (now : ℤ) :
    Owned n (start n some_loop rings now) where
  base := NetReactor.base_start some_loop rings
  carried := NetReactor.carried_start some_loop rings
  senders := fun _ => .nil
  unanswered := fun _ _ mem => by cases mem
  delivering := fun _ _ _ there => by cases there
  apart := fun _ _ _ _ _ there => by cases there
  answered := fun _ => trivial

/-- The reactor stands still and a call moves on. -/
theorem Owned.of_local (inv : Owned n s) {k : ℕ} {call : ConnCall} (host : s'.host = s.host)
    (senders : s'.senders = s.senders) (calls : s'.calls = Function.update s.calls k call)
    (stays : (s.calls k).Open → call.Open)
    (mine : call.Answered fun cqe => (k, cqe) ∈ s.net.invoked) : Owned n s' := by
  have net : s'.net = s.net := congrArg Host.net host
  refine ⟨?_, ?_, ?_, ?_, ?_, ?_, fun j => ?_⟩
  · rw [net]
    exact inv.base
  · rw [net]
    exact inv.carried
  · rw [net, senders]
    exact inv.senders
  · rw [net, senders]
    exact inv.unanswered
  · intro l j cqe there
    rw [host] at there
    obtain ⟨invoked, isOpen⟩ := inv.delivering l j cqe there
    rw [net, calls]
    refine ⟨invoked, ?_⟩
    by_cases this : j = k
    · subst this
      rw [Function.update_self]
      exact stays isOpen
    · rw [Function.update_of_ne this]
      exact isOpen
  · rw [host]
    exact inv.apart
  · rw [net, calls]
    by_cases this : j = k
    · subst this
      rw [Function.update_self]
      exact mine
    · rw [Function.update_of_ne this]
      exact inv.answered j

/-! ## Steps of the reactor -/

section Host

variable {e : NetEvent}

theorem HostMove.invoked_cases (moved : HostMove n fds s e s') :
    s'.net.invoked = s.net.invoked ∨
      ∃ k cqe, s'.net.invoked = s.net.invoked ++ [(k, cqe)] ∧
        s.net.registry.lookup cqe.userData = some k := by
  have alike := alike_resolve n fds s e
  rcases NetReactor.invoked_step moved.stepped with same | ⟨l, k, cqe, -, more, found⟩
  · exact Or.inl (same.trans alike.invoked)
  · refine Or.inr ⟨k, cqe, more.trans (by rw [alike.invoked]), ?_⟩
    have table := congrArg Correlation.Ledger.table alike.ledger
    exact (congrFun table cqe.userData).symm.trans found

theorem HostMove.mem_invoked (moved : HostMove n fds s e s') {x : ℕ × CQEvent}
    (mem : x ∈ s.net.invoked) : x ∈ s'.net.invoked := by
  rcases moved.invoked_cases with same | ⟨k, cqe, more, -⟩
  · rw [same]
    exact mem
  · rw [more]
    exact List.mem_append_left _ mem

/-- What a step of the reactor does to the senders. -/
theorem Owned.senders_host (inv : Owned n s) (moved : HostMove n fds s e s') (l : ℕ) :
    List.Forall₂ (fun k ud => (s'.net.calls k).Carries n l ud) (s'.senders l)
      ((s'.net.loops l).reqBuss.map SubSqeRequest.userData) := by
  have alike := alike_resolve n fds s e
  have kept : List.Forall₂ (fun k ud => (s'.net.calls k).Carries n l ud) (s.senders l)
      (((s.resolve fds e).loops l).reqBuss.map SubSqeRequest.userData) := by
    rw [alike.channels]
    exact (inv.senders l).imp fun k ud carries => carries.next (moved.next k)
  have after := moved.senders
  cases NetReactor.step_traffic moved.stepped with
  | quiet none channels _ =>
      rw [none] at after
      rw [after, channels]
      exact kept
  | @send k l' req _ out one channel others calls =>
      rw [one] at after
      rw [after]
      by_cases this : l = l'
      · subst this
        show List.Forall₂ _ (Function.update s.senders l _ l) _
        rw [Function.update_self, channel, List.map_append]
        refine List.rel_append kept (.cons ?_ .nil)
        rw [calls, Function.update_self]
        exact NetCall.carries_of_mayHaveSent (NetCall.mayHaveSent_afterSend out)
      · show List.Forall₂ _ (Function.update s.senders l' _ l) _
        rw [Function.update_of_ne this, others l this]
        exact kept
  | @take l' reads spec req rest _ head one channel others calls =>
      rw [one] at after
      rw [after]
      by_cases this : l = l'
      · subst this
        show List.Forall₂ _ (Function.update s.senders l _ l) _
        rw [Function.update_self, channel]
        rw [head] at kept
        generalize s.senders l = waiting at kept
        cases kept with
        | cons first rest => exact rest
      · show List.Forall₂ _ (Function.update s.senders l' _ l) _
        rw [Function.update_of_ne this, others l this]
        exact kept

/-- Whoever is among the senders was there before, or has just sent. -/
theorem HostMove.mem_senders (moved : HostMove n fds s e s') {l k : ℕ} (mem : k ∈ s'.senders l) :
    k ∈ s.senders l ∨ ((s.net.calls k).outgoing n).isSome = true := by
  have alike := alike_resolve n fds s e
  rw [moved.senders] at mem
  cases NetReactor.step_traffic moved.stepped with
  | quiet none channels _ =>
      rw [none] at mem
      exact Or.inl mem
  | @send k' l' req _ out one channel others calls =>
      rw [one] at mem
      change k ∈ Function.update s.senders l' _ l at mem
      by_cases this : l = l'
      · subst this
        rw [Function.update_self] at mem
        rcases List.mem_append.mp mem with old | last
        · exact Or.inl old
        · obtain rfl := List.mem_singleton.mp last
          rw [alike.calls] at out
          exact Or.inr (Option.isSome_iff_exists.mpr ⟨_, out⟩)
      · rw [Function.update_of_ne this] at mem
        exact Or.inl mem
  | @take l' reads spec req rest _ head one channel others calls =>
      rw [one] at mem
      change k ∈ Function.update s.senders l' _ l at mem
      by_cases this : l = l'
      · subst this
        rw [Function.update_self] at mem
        exact Or.inl (List.mem_of_mem_tail mem)
      · rw [Function.update_of_ne this] at mem
        exact Or.inl mem

/-- The identifier of a `Queue` call among the senders is on its way. -/
theorem travels_of_sender (some_loop : 0 < n) {k l : ℕ} {t : Ticket}
    (senders : List.Forall₂ (fun k ud => (s.net.calls k).Carries n l ud) (s.senders l)
      ((s.net.loops l).reqBuss.map SubSqeRequest.userData))
    (mem : k ∈ s.senders l) (ticket : (s.net.calls k).ticket = some t) :
    t.id ∈ (s.net.ledger n).flight := by
  obtain ⟨i, at_i⟩ := List.mem_iff_getElem?.mp mem
  obtain ⟨lt, here⟩ := List.getElem?_eq_some_iff.mp at_i
  have lt' := lt
  rw [senders.length_eq] at lt'
  have carries := senders.get lt lt'
  rw [List.get_eq_getElem, List.get_eq_getElem, here] at carries
  cases call : s.net.calls k with
  | returned args nonce serial =>
      rw [call] at carries ticket
      cases ticket
      obtain ⟨home, ud⟩ := carries
      refine mem_inFlight (l := l) ?_ ?_ (args.op.ticket nonce serial).not_reserved
      · rw [home]
        exact NetReactor.loopForFd_lt some_loop _
      · refine Multiset.mem_add.mpr (Or.inl ?_)
        rw [← ud]
        exact Multiset.mem_coe.mpr (List.getElem_mem lt')
  | _ =>
      rw [call] at carries ticket
      first
        | exact carries.elim
        | cases ticket

/-- **A call whose request is in a channel is not answered** by a step of the reactor. -/
theorem Owned.unanswered_host (inv : Owned n s) (some_loop : 0 < n)
    (moved : HostMove n fds s e s') (l k : ℕ) (mem : k ∈ s'.senders l) :
    k ∉ s'.net.invoked.map Prod.fst := by
  have alike := alike_resolve n fds s e
  have before : k ∉ s.net.invoked.map Prod.fst := by
    rcases moved.mem_senders mem with old | sends
    · exact inv.unanswered l k old
    · -- Only a call that has sent its request is answered.
      intro invoked
      have isOver : s.net.ended k = true := by
        simp [NetReactor.ended, invoked]
      have launched : (s.net.calls k).launched = true := inv.carried.launched k isOver
      cases call : s.net.calls k with
      | returned args nonce serial =>
          rw [call] at sends
          cases sends
      | _ =>
          rw [call] at launched
          cases launched
  rcases moved.invoked_cases with same | ⟨j, cqe, more, -⟩
  · rw [same]
    exact before
  · rw [more, List.map_append, List.mem_append]
    rintro (old | last)
    · exact before old
    · obtain rfl := List.mem_singleton.mp last
      have base' : NetReactor.Base n s'.net :=
        (alike.base inv.base).step some_loop moved.stepped
      obtain ⟨t, ticket, ud⟩ := base'.own (k, cqe) (by rw [more]; simp)
      -- Its identifier would be in the channel and back at the same time.
      refine (alike.carried inv.carried).landed some_loop (alike.base inv.base) moved.stepped
        (by rw [alike.invoked]; exact more) ?_
      rw [ud]
      exact travels_of_sender some_loop (inv.senders_host moved l) mem ticket

/-- A callback that is invoked belongs to an open call. -/
theorem Owned.open_of_invoked (inv : Owned n s) (fit : s.AllFit) (some_loop : 0 < n)
    (moved : HostMove n fds s e s') {k : ℕ} {cqe : CQEvent}
    (half : (s.calls k).half.isSome = true)
    (more : s'.net.invoked = s.net.invoked ++ [(k, cqe)]) : (s.calls k).Open := by
  have alike := alike_resolve n fds s e
  have base' : NetReactor.Base n s'.net := (alike.base inv.base).step some_loop moved.stepped
  -- It was not invoked before.
  have fresh : ∀ cqe', (k, cqe') ∉ s.net.invoked := by
    intro cqe' old
    have once := base'.once
    rw [more, List.map_append, List.nodup_append] at once
    exact once.2.2 k (List.mem_map_of_mem old) k (List.mem_singleton.mpr rfl) rfl
  -- It has an identifier, so the reactor knows the call.
  have known : s.net.calls k ≠ .free := by
    intro free
    rcases moved.invoked_cases with same | ⟨j, cqe', more', found⟩
    · rw [same] at more
      have lengths := congrArg List.length more
      simp at lengths
    · obtain ⟨-, last⟩ := List.append_inj' (more'.symm.trans more) rfl
      cases last
      obtain ⟨⟨key, -⟩, -⟩ := inv.base.sound _ _ found
      obtain ⟨t, ticket, -⟩ := Option.map_eq_some_iff.mp key
      rw [free] at ticket
      cases ticket
  have fits := fit k
  have answered := inv.answered k
  cases call : s.calls k with
  | queueing h b => trivial
  | waiting h b => trivial
  | received h b cqe' =>
      rw [call] at answered
      exact absurd answered (fresh cqe')
  | returned h b r =>
      rw [call] at answered
      obtain ⟨cqe', own, -⟩ := answered
      exact absurd own (fresh cqe')
  | _ =>
      rw [call] at half fits
      first
        | exact absurd fits known
        | cases half

/-- **A step of the reactor keeps who owns what.** -/
theorem Owned.of_host (inv : Owned n s) (fit : s.AllFit) (some_loop : 0 < n)
    (life : s.net.LifeBound n) (moved : HostMove n fds s e s') : Owned n s' := by
  have alike := alike_resolve n fds s e
  have base' := (alike.base inv.base).step some_loop moved.stepped
  refine ⟨base', (alike.carried inv.carried).step some_loop (alike.base inv.base)
    (alike.lifeBound life) moved.stepped, inv.senders_host moved,
    fun l k mem => inv.unanswered_host some_loop moved l k mem, ?_, ?_, fun k => ?_⟩
  · intro l k cqe there
    rw [moved.calls]
    rcases moved.delivering with same | ⟨l', k', cqe', -, -, half, more, update⟩
    · rw [same] at there
      obtain ⟨invoked, isOpen⟩ := inv.delivering l k cqe there
      exact ⟨moved.mem_invoked invoked, isOpen⟩
    · rw [update] at there
      by_cases this : l = l'
      · subst this
        rw [Function.update_self] at there
        cases there
        refine ⟨?_, inv.open_of_invoked fit some_loop moved half more⟩
        rw [more]
        exact List.mem_append_right _ (List.mem_singleton.mpr rfl)
      · rw [Function.update_of_ne this] at there
        obtain ⟨invoked, isOpen⟩ := inv.delivering l k cqe there
        exact ⟨moved.mem_invoked invoked, isOpen⟩
  · rcases moved.delivering with same | ⟨l', k', cqe', -, -, -, more, update⟩
    · rw [same]
      exact inv.apart
    · -- The callback that was just invoked was not invoked before.
      have fresh : ∀ l cqe, s.host.delivering l ≠ some (k', cqe) := by
        intro l cqe there
        obtain ⟨invoked, -⟩ := inv.delivering l k' cqe there
        have once := base'.once
        rw [more, List.map_append, List.nodup_append] at once
        exact once.2.2 k' (List.mem_map_of_mem invoked) k' (List.mem_singleton.mpr rfl) rfl
      intro l₁ l₂ k cqe₁ cqe₂ first second
      rw [update] at first second
      by_cases this : l₁ = l'
      · by_cases that : l₂ = l'
        · rw [this, that]
        · subst this
          rw [Function.update_self] at first
          cases first
          rw [Function.update_of_ne that] at second
          exact absurd second (fresh l₂ cqe₂)
      · rw [Function.update_of_ne this] at first
        by_cases that : l₂ = l'
        · subst that
          rw [Function.update_self] at second
          cases second
          exact absurd first (fresh l₁ cqe₁)
        · rw [Function.update_of_ne that] at second
          exact inv.apart l₁ l₂ k cqe₁ cqe₂ first second
  · rw [moved.calls]
    exact (inv.answered k).mono fun cqe mem => moved.mem_invoked mem

end Host

/-! ## Runs -/

/-- **Every step keeps who owns what.** -/
theorem Owned.step (inv : Owned n s) (fit : s.AllFit) (locks : s.Disciplined)
    (some_loop : 0 < n) (life : s.net.LifeBound n) (stepped : s.step n fds e = some s') :
    Owned n s' := by
  -- A call that is not open before a step leaves no consumer waiting for it.
  have closed : ∀ {k : ℕ} {call call' : ConnCall}, s.calls k = call → ¬ call.Open →
      (s.calls k).Open → call'.Open := by
    intro k call call' here shut isOpen
    rw [here] at isOpen
    exact absurd isOpen shut
  cases step_transition stepped with
  | io here => exact inv.of_local rfl rfl rfl (closed here id) trivial
  | setDeadline here => exact inv.of_local rfl rfl rfl (closed here id) trivial
  | lock here free => exact inv.of_local rfl rfl rfl (closed here id) trivial
  | setBuffer here => exact inv.of_local rfl rfl rfl (closed here id) trivial
  | sample here => exact inv.of_local rfl rfl rfl (closed here id) trivial
  | queue here moved =>
      exact (inv.of_host fit some_loop life moved).of_local rfl rfl rfl (fun _ => trivial) trivial
  | storeID here returned => exact inv.of_local rfl rfl rfl (fun _ => trivial) trivial
  | @finish k h b cqe here =>
      refine inv.of_local rfl rfl rfl (closed here id) ?_
      have mine := inv.answered k
      rw [here] at mine
      exact ⟨cqe, mine, rfl⟩
  | expire here expired => exact inv.of_local rfl rfl rfl (closed here id) trivial
  | keep here => exact inv.of_local rfl rfl rfl (closed here id) trivial
  | cancel here moved =>
      refine (inv.of_host fit some_loop life moved).of_local rfl rfl rfl ?_ trivial
      rw [moved.calls]
      exact closed here id
  | cancelled here sent => exact inv.of_local rfl rfl rfl (closed here id) trivial
  | store here => exact inv.of_local rfl rfl rfl (closed here id) trivial
  | @receive k l j h b cqe here there same =>
      obtain ⟨invoked, isOpen⟩ := inv.delivering l j cqe there
      -- The call the consumer waits for is inside the lock as well.
      obtain rfl : j = k :=
        locks.eq (isOpen.holds.trans same) (by rw [here]; rfl)
      refine ⟨inv.base, inv.carried, inv.senders, inv.unanswered, ?_, ?_, fun i => ?_⟩
      · intro l' i cqe' there'
        change Function.update s.host.delivering l none l' = _ at there'
        by_cases this : l' = l
        · subst this
          rw [Function.update_self] at there'
          cases there'
        · rw [Function.update_of_ne this] at there'
          obtain ⟨invoked', isOpen'⟩ := inv.delivering l' i cqe' there'
          refine ⟨invoked', ?_⟩
          have other : i ≠ j := by
            rintro rfl
            exact this (inv.apart l' l i cqe' cqe there' there)
          show (Function.update s.calls j _ i).Open
          rw [Function.update_of_ne other]
          exact isOpen'
      · intro l₁ l₂ i cqe₁ cqe₂ first second
        change Function.update s.host.delivering l none l₁ = _ at first
        change Function.update s.host.delivering l none l₂ = _ at second
        have kept : ∀ {l' x}, Function.update s.host.delivering l none l' = some x →
            s.host.delivering l' = some x := by
          intro l' x there'
          by_cases this : l' = l
          · subst this
            rw [Function.update_self] at there'
            cases there'
          · rwa [Function.update_of_ne this] at there'
        exact inv.apart l₁ l₂ i cqe₁ cqe₂ (kept first) (kept second)
      · show (Function.update s.calls j _ i).Answered _
        by_cases this : i = j
        · subst this
          rw [Function.update_self]
          exact invoked
        · rw [Function.update_of_ne this]
          exact inv.answered i
  | foreign here new moved =>
      refine (inv.of_host fit some_loop life moved).of_local rfl rfl rfl ?_ trivial
      rw [moved.calls]
      exact closed here id
  | net old moved => exact inv.of_host fit some_loop life moved
  | tick => exact ⟨inv.base, inv.carried, inv.senders, inv.unanswered, inv.delivering, inv.apart,
      inv.answered⟩

/-- The operation of a direction encodes its buffer. -/
theorem buffer_of_encode {dir : Direction} {fd : ℕ} {b : Slice} {flags : UInt8} {ud : UInt64}
    {old sqe : SQEntry} (encoded : (dir.op fd b).encode flags ud old = some sqe) :
    sqe.addr = b.addr ∧ sqe.len = UInt32.ofNat b.len := by
  obtain ⟨prepared, filled, rfl⟩ := Option.map_eq_some_iff.mp encoded
  cases dir with
  | read =>
      simp only [Direction.op, recvOp, messageOp] at filled
      split at filled
      · cases filled
      · cases filled
        exact ⟨rfl, rfl⟩
  | write =>
      simp only [Direction.op, sendOp, messageOp] at filled
      split at filled
      · cases filled
      · cases filled
        exact ⟨rfl, rfl⟩

/-- **The publisher encodes the buffer of the call that waits for it.**  If in this step a
publisher takes the request of a `Read` or `Write`, then that call has not returned, and
the SQE of its operation, which carries the identifier the call was given, names the
buffer the call was made with. -/
def EncodesOwnBuffer (n : ℕ) (fds : Sockets) (s : ConnSystem) (e : ConnEvent) : Prop :=
  ∀ l spec reads k h, e = .net (.request l spec reads) → (s.senders l).head? = some k →
    (s.calls k).half = some h →
      ∃ b, (s.calls k = .queueing h b ∨ s.calls k = .waiting h b) ∧
        ∀ sqe ∈ encoded n fds s e, sqe.userData ≠ timeoutNonce →
          (s.net.calls k).HasReturned sqe.userData ∧ sqe.addr = b.addr ∧
            sqe.len = UInt32.ofNat b.len

/-- **Every `Read` and `Write` has returned the result of its own request**: of the
completion its own callback was invoked with, which carries the identifier its own
`QueueWithDeadline` returned.  Outstanding requests have different identifiers, and an
identifier is on its way at most once. -/
structure OwnResults (n : ℕ) (s : ConnSystem) : Prop where
  own : ∀ k h b result, s.calls k = .returned h b result →
    ∃ id cqe, (s.net.calls k).HasReturned id ∧ (k, cqe) ∈ s.net.invoked ∧ cqe.userData = id ∧
      result = h.dir.result cqe
  distinct : s.net.DistinctIDs n
  once : ∀ id, (s.net.ledger n).flight.count id ≤ 1

theorem Owned.ownResults (inv : Owned n s) (fit : s.AllFit) (life : s.net.LifeBound n) :
    s.OwnResults n where
  own := by
    intro k h b result here
    have answered := inv.answered k
    have fits := fit k
    rw [here] at answered fits
    obtain ⟨cqe, invoked, eq⟩ := answered
    obtain ⟨t, ticket, ud⟩ := inv.base.own (k, cqe) invoked
    cases call : s.net.calls k with
    | returned args nonce serial =>
        refine ⟨_, cqe, ⟨args, nonce, serial, rfl, rfl⟩, invoked, ?_, eq⟩
        change (s.net.calls k).ticket = some t at ticket
        rw [call] at ticket
        cases ticket
        exact ud
    | _ =>
        rw [call] at fits
        cases fits
  distinct := inv.base.distinctIDs life
  once := inv.carried.once

/-- A request in a channel belongs to an open call. -/
theorem Owned.open_of_sender (inv : Owned n s) (fit : s.AllFit) {l k : ℕ} {ud : UInt64}
    (mem : k ∈ s.senders l) (carries : (s.net.calls k).Carries n l ud) {h : HalfID}
    (half : (s.calls k).half = some h) :
    (∃ b, s.calls k = .queueing h b ∨ s.calls k = .waiting h b) ∧
      (s.net.calls k).HasReturned ud := by
  have fits := fit k
  have answered := inv.answered k
  have unanswered : ∀ cqe, (k, cqe) ∉ s.net.invoked := fun cqe invoked =>
    inv.unanswered l k mem (List.mem_map_of_mem invoked)
  have returned : (s.net.calls k).args.isSome = true → (s.net.calls k).HasReturned ud := by
    intro known
    cases call : s.net.calls k with
    | returned args nonce serial =>
        rw [call] at carries
        exact ⟨args, nonce, serial, rfl, carries.2⟩
    | cancelled =>
        rw [call] at known
        cases known
    | _ =>
        rw [call] at carries
        exact carries.elim
  have gone : s.net.calls k ≠ .free := by
    intro free
    rw [free] at carries
    exact carries
  have sent : (s.net.calls k).launched = true → (s.net.calls k).args.isSome = true := by
    intro launched
    cases call : s.net.calls k with
    | returned args nonce serial => rfl
    | _ =>
        rw [call] at launched
        cases launched
  cases call : s.calls k with
  | queueing h' b =>
      rw [call] at half fits
      cases half
      exact ⟨⟨b, Or.inl rfl⟩, returned fits⟩
  | waiting h' b =>
      rw [call] at half fits
      cases half
      exact ⟨⟨b, Or.inr rfl⟩, returned (sent fits)⟩
  | received h' b cqe =>
      rw [call] at answered
      exact absurd answered (unanswered cqe)
  | returned h' b r =>
      rw [call] at answered
      obtain ⟨cqe, own, -⟩ := answered
      exact absurd own (unanswered cqe)
  | _ =>
      rw [call] at half fits
      first
        | exact absurd fits gone
        | cases half

theorem Owned.encodesOwnBuffer (inv : Owned n s) (fit : s.AllFit) (locks : s.Disciplined)
    (fds : Sockets) (e : ConnEvent) : s.EncodesOwnBuffer n fds e := by
  rintro l spec reads k h rfl head half
  obtain ⟨rest, senders⟩ : ∃ rest, s.senders l = k :: rest := List.head?_eq_some_iff.mp head
  have carries := inv.senders l
  rw [senders] at carries
  -- The request at the head of the channel.
  cases bus : (s.net.loops l).reqBuss with
  | nil =>
      rw [bus] at carries
      cases carries
  | cons req others =>
      rw [bus] at carries
      cases carries with
      | cons first _ =>
          obtain ⟨⟨b, blocked⟩, returned⟩ :=
            inv.open_of_sender fit (by rw [senders]; exact List.mem_cons_self) first half
          have holds : (s.calls k).holds = some h := by
            rcases blocked with here | here
            · rw [here]
              rfl
            · rw [here]
              rfl
          have buff : (s.halves h).buff = b := by
            obtain ⟨-, finds⟩ := locks k h holds
            rcases blocked with here | here
            · rw [here] at finds
              exact finds
            · rw [here] at finds
              exact finds.1
          refine ⟨b, blocked, fun sqe mem request => ?_⟩
          have resolved : s.resolve fds (.request l spec reads) =
              s.net.setLoop l { s.net.loops l with
                reqBuss := { req with op := s.op fds h } :: others } := by
            have pointee : s.pointee l = some h := by
              rw [pointee, head]
              exact half
            simp only [resolve, pointee, NetReactor.repoint, bus]
          have queued : sqe ∈ NetLoop.queuedSQEs (s.net.loops l).engine
              { req with op := s.op fds h } spec reads := by
            simpa [encoded, resolved, NetReactor.note, NetReactor.setLoop, NetLoop.engine] using mem
          rcases NetLoop.encodes_of_mem_queuedSQEs queued with
            ⟨flags, old, encoded⟩ | ⟨-, spec, old, encoded⟩
          · obtain ⟨addr, len⟩ := buffer_of_encode encoded
            rw [buff] at addr len
            refine ⟨?_, addr, len⟩
            rw [Operation.encode_userData encoded]
            exact returned
          · exact absurd (Operation.encode_userData encoded) request

/-- **Each call owns its buffer and its result.**  For any number of connections on a
reactor and every run in which fewer than `2 ^ 32` requests are made for a descriptor
during the life of a request: whenever a publisher encodes the operation of a `Read` or
`Write`, the buffer is that of the call whose request it is, and which has not returned;
and every `Read` and `Write` that has returned has returned the result of its own
request. -/
theorem conn_call_owns_buffer_and_result (n : ℕ) (some_loop : 0 < n)
    (rings : ℕ → ReactorRing true) (fds : Sockets) (now : ℤ)
    {p : List (ConnSystem × ConnEvent)} {s : ConnSystem}
    (path : Runs.Path (step n fds) (start n some_loop rings now) p s)
    (life : ∀ t ∈ Runs.visited p s, t.net.LifeBound n) :
    (∀ x ∈ p, x.1.EncodesOwnBuffer n fds x.2) ∧ s.OwnResults n := by
  have good : ∀ {q : List (ConnSystem × ConnEvent)} {t : ConnSystem},
      Runs.Path (step n fds) (start n some_loop rings now) q t →
      (∀ u ∈ Runs.visited q t, u.net.LifeBound n) →
        t.AllFit ∧ t.Disciplined ∧ Owned n t := by
    intro q t run within
    refine run.invariant_within (fun t => t.AllFit ∧ t.Disciplined ∧ Owned n t)
      (fun t => t.net.LifeBound n) (fun _ _ => True)
      ⟨allFit_start some_loop rings now, disciplined_start some_loop rings now,
        owned_start some_loop rings now⟩ ?_ within fun _ _ => trivial
    rintro s e s' ⟨fit, locks, inv⟩ life - - stepped
    exact ⟨fit.step stepped, locks.step stepped, inv.step fit locks some_loop life stepped⟩
  obtain ⟨fit, -, inv⟩ := good path life
  refine ⟨fun x mem => ?_, inv.ownResults fit (life s (Runs.mem_visited_last p s))⟩
  obtain ⟨q, run, part⟩ := path.exists_within mem
  obtain ⟨fit, locks, inv⟩ := good run fun t there => life t (part t there)
  exact inv.encodesOwnBuffer fit locks fds x.2

/-- The books of the reactor are in order in every run. -/
theorem base_of_path (some_loop : 0 < n) {rings : ℕ → ReactorRing true} {now : ℤ}
    {p : List (ConnSystem × ConnEvent)}
    (path : Runs.Path (step n fds) (start n some_loop rings now) p s) :
    NetReactor.Base n s.net := by
  refine path.invariant_of_step (fun s => NetReactor.Base n s.net)
    (NetReactor.base_start some_loop rings) fun s e s' base stepped => ?_
  rcases net_step stepped with same | ⟨e', moved⟩
  · rw [same]
    exact base
  · exact ((alike_resolve n fds s e').base base).step some_loop moved

/-- **A run of fewer than `2 ^ 32` steps uses up no identifiers.** -/
theorem lifeBound_of_short (some_loop : 0 < n) {rings : ℕ → ReactorRing true} {now : ℤ}
    {p : List (ConnSystem × ConnEvent)}
    (path : Runs.Path (step n fds) (start n some_loop rings now) p s)
    (short : p.length < 2 ^ 32) : ∀ t ∈ Runs.visited p s, t.net.LifeBound n := by
  have few : ∀ {q : List (ConnSystem × ConnEvent)} {t : ConnSystem},
      Runs.Path (step n fds) (start n some_loop rings now) q t →
        ∀ fd, t.net.adds fd ≤ q.length := by
    intro q t run
    induction run with
    | nil => exact fun fd => le_refl 0
    | @snoc q s s' e before stepped ih =>
        intro fd
        rw [List.length_append, List.length_singleton]
        refine le_trans ?_ (Nat.succ_le_succ (ih fd))
        rcases net_step stepped with same | ⟨e', moved⟩
        · rw [same]
          exact Nat.le_succ _
        · have alike := alike_resolve n fds s e'
          have bound := NetReactor.adds_step some_loop
            (alike.base (base_of_path some_loop before)) moved fd
          rwa [show (s.resolve fds e').adds = s.net.adds from
            congrArg Numbering.adds alike.numbering] at bound
  intro t mem k ticket _
  obtain ⟨q, part, run⟩ := path.exists_of_visited mem
  have bound := few run ticket.fd
  have := part.length_le
  omega

/-- The connections of the runs below: connection `c` has descriptor `c + 3`, modulo the
number of descriptors. -/
def sockets : Sockets where
  fd c := (c + 3) % 2 ^ 31
  fd_lt c := Nat.mod_lt _ (by decide)

/-- The reads of connection 0. -/
def readHalf : HalfID := ⟨0, .read⟩

/-- Call `k` is made and runs up to its send on `reqBuss`. -/
def queuedIO (k : ℕ) (h : HalfID) (b : Slice) : List ConnEvent :=
  [.io k h b, .step k, .step k, .step k, .step k, .net (.draw k), .net (.store k), .net (.send k)]

/-- A `Read` and a `Write` of connection 0 at the same time, whose operations complete in the
other order. -/
def readAndWriteRun : List ConnEvent :=
  queuedIO 0 readHalf ⟨4096, 16⟩ ++ queuedIO 1 ⟨0, .write⟩ ⟨8192, 3⟩ ++
    [.step 0, .step 1, .net (.request 0 0 0), .net (.request 0 0 0),
      .net (.signal 0 (.consumed 2)), .net (.kernel 0 (.complete 1 3 0)),
      .net (.kernel 0 (.complete 0 5 0)), .net (.consumer 0 .wait),
      .net (.signal 0 (.consumed 0)), .net (.consumer 0 .peek), .net (.dispatch 0), .receive 1 0,
      .net (.dispatch 0), .receive 0 0, .step 1, .step 0]

/-- A `Read` of five bytes into a buffer of sixteen, and a `Write` of three. -/
theorem conn_call_owns_buffer_and_result_both :
    ∃ p s, Runs.Path (step 1 sockets) (start 1 Nat.one_pos (twoSlots true) 0) p s ∧
      s.calls 0 = .returned readHalf ⟨4096, 16⟩ (5, none) ∧
      s.calls 1 = .returned ⟨0, .write⟩ ⟨8192, 3⟩ (3, none) ∧
      (∀ x ∈ p, x.1.EncodesOwnBuffer 1 sockets x.2) ∧ s.OwnResults 1 := by
  have path : Runs.Path (step 1 sockets) (start 1 Nat.one_pos (twoSlots true) 0)
      (Runs.record (step 1 sockets) (start 1 Nat.one_pos (twoSlots true) 0) readAndWriteRun) _ :=
    Runs.path_record readAndWriteRun rfl
  obtain ⟨buffers, results⟩ := conn_call_owns_buffer_and_result 1 Nat.one_pos (twoSlots true)
    sockets 0 path (lifeBound_of_short Nat.one_pos path
      ((Runs.length_record_le readAndWriteRun _).trans_lt (by decide)))
  exact ⟨_, _, path, rfl, rfl, buffers, results⟩

end ConnSystem

end GoUring.Net
