import GoUring.Reactor.NetDispatch

/-!
# Cancelling a request of a network reactor

`Cancel(id)` sends a request of its own to the loop of the descriptor in `id`.  Whether
it reaches the request it names rests on two queues: the channel `reqBuss` of a loop,
which is first in, first out, and the submission queue, which the publisher fills in the
order of the channel.

Calls and publishers note down what they send and queue (`note`).  `ringOrder` reads off
the notes of a run what was queued on a loop and for which call: the `i`-th request the
publisher takes is the `i`-th one that was sent.  `Journal` says that this is so, and
that every call sends at most once, to the loop of its descriptor.
-/

namespace GoUring.Reactor

open Uring

/-- The SQEs the publisher queues for a request: the operation, and the link timeout of a
timed one. -/
def NetLoop.queuedSQEs (e : Engine) (req : SubSqeRequest) (spec : UInt64) (reads : ℕ) :
    List SQEntry :=
  if req.timeout = 0 then
    e.queuedSQE req.op req.flags req.userData
  else
    e.queuedSQE req.op (req.flags ||| sqeIOLinkFlag) req.userData ++
      match e.queueSQE req.op (req.flags ||| sqeIOLinkFlag) req.userData with
      | some (none, e) =>
          ((e.threadReads reads).map fun e =>
            e.queuedSQE (linkTimeoutOp spec) 0 timeoutNonce).getD []
      | _ => []

/-- The SQE is the request's operation, or the link timeout of a timed request. -/
def SubSqeRequest.Encodes (req : SubSqeRequest) (sqe : SQEntry) : Prop :=
  (∃ flags old, req.op.encode flags req.userData old = some sqe) ∨
    (req.timeout ≠ 0 ∧ ∃ spec old, (linkTimeoutOp spec).encode 0 timeoutNonce old = some sqe)

theorem NetLoop.encodes_of_mem_queuedSQEs {e : Engine} {req : SubSqeRequest} {spec : UInt64}
    {reads : ℕ} {sqe : SQEntry} (mem : sqe ∈ queuedSQEs e req spec reads) : req.Encodes sqe := by
  unfold queuedSQEs at mem
  split at mem
  · exact Or.inl ⟨_, Engine.mem_queuedSQE mem⟩
  · next timed =>
    rcases List.mem_append.mp mem with op | link
    · exact Or.inl ⟨_, Engine.mem_queuedSQE op⟩
    · split at link
      · next e₁ first =>
        cases read : e₁.threadReads reads with
        | none =>
            rw [read] at link
            cases link
        | some e₂ =>
            rw [read] at link
            exact Or.inr ⟨timed, spec, Engine.mem_queuedSQE link⟩
      · cases link

/-- What a call at its send on `reqBuss` sends, and to which of `n` loops. -/
def NetCall.outgoing (n : ℕ) : NetCall → Option (ℕ × SubSqeRequest)
  | .stored args nonce serial =>
      some (loopForFd n args.op.fd,
        (args.op.ticket nonce serial).request args.op.op args.timeout)
  | .cancelling id => some (loopForFd n (RequestID.fd id), cancelRequest id)
  | _ => none

namespace NetReactor

/-- What is noted down along a run. -/
inductive Note
  /-- Call `k` sends a request to loop `l`. -/
  | sent (l k : ℕ) (req : SubSqeRequest)
  /-- The publisher of loop `l` takes a request and queues SQEs for it. -/
  | queued (l : ℕ) (sqes : List SQEntry)

/-- What a step notes down. -/
def note (n : ℕ) (s : NetReactor) : NetEvent → List Note
  | .send k =>
      match (s.calls k).outgoing n with
      | some (l, req) => if (s.loops l).shell.closed .reqBuss then [] else [.sent l k req]
      | none => []
  | .request l spec reads =>
      match (s.loops l).reqBuss with
      | req :: _ => [.queued l (NetLoop.queuedSQEs (s.loops l).engine req spec reads)]
      | [] => []
  | _ => []

/-- What was sent to loop `l`, and by which calls. -/
def sentOn (l : ℕ) (j : List Note) : List (ℕ × SubSqeRequest) :=
  j.filterMap fun
    | .sent l' k req => if l' = l then some (k, req) else none
    | .queued _ _ => none

/-- What the publisher of loop `l` queued for each request it took. -/
def queuedOn (l : ℕ) (j : List Note) : List (List SQEntry) :=
  j.filterMap fun
    | .sent _ _ _ => none
    | .queued l' sqes => if l' = l then some sqes else none

/-- The SQEs queued for a list of requests, each with its call. -/
def tagged (sent : List (ℕ × SubSqeRequest)) (queued : List (List SQEntry)) :
    List (ℕ × SQEntry) :=
  (List.zipWith (fun x sqes => sqes.map fun sqe => (x.1, sqe)) sent queued).flatten

/-- **The SQEs of loop `l` in the order of its ring**, each with the call it was queued
for: the `i`-th request taken from the channel is the `i`-th one sent. -/
def ringOrder (l : ℕ) (j : List Note) : List (ℕ × SQEntry) := tagged (sentOn l j) (queuedOn l j)

theorem sentOn_append (l : ℕ) (j j' : List Note) :
    sentOn l (j ++ j') = sentOn l j ++ sentOn l j' := List.filterMap_append

theorem queuedOn_append (l : ℕ) (j j' : List Note) :
    queuedOn l (j ++ j') = queuedOn l j ++ queuedOn l j' := List.filterMap_append

theorem mem_tagged {sent : List (ℕ × SubSqeRequest)} :
    ∀ {queued : List (List SQEntry)} {x : ℕ × SQEntry}, x ∈ tagged sent queued →
      ∃ (i : ℕ) (req : SubSqeRequest) (sqes : List SQEntry),
        sent[i]? = some (x.1, req) ∧ queued[i]? = some sqes ∧ x.2 ∈ sqes := by
  intro queued x mem
  obtain ⟨xs, here, mem⟩ := List.mem_flatten.mp mem
  obtain ⟨i, at_i⟩ := List.mem_iff_getElem?.mp here
  rw [List.getElem?_zipWith] at at_i
  split at at_i
  · next y sqes sent queued =>
    cases at_i
    obtain ⟨sqe, own, rfl⟩ := List.mem_map.mp mem
    exact ⟨i, y.2, sqes, sent, queued, own⟩
  · cases at_i

theorem tagged_append (sent sent' : List (ℕ × SubSqeRequest)) :
    ∀ queued : List (List SQEntry), tagged (sent ++ sent') queued =
      tagged sent (queued.take sent.length) ++ tagged sent' (queued.drop sent.length) := by
  induction sent with
  | nil => intro queued; simp [tagged]
  | cons x sent ih =>
      intro queued
      cases queued with
      | nil => simp [tagged]
      | cons sqes queued =>
          have rest := ih queued
          simp only [tagged, List.cons_append, List.zipWith_cons_cons, List.flatten_cons,
            List.length_cons, List.take_succ_cons, List.drop_succ_cons] at rest ⊢
          rw [rest, List.append_assoc]

/-- **Requests that were sent earlier come first in the ring.** -/
theorem lt_of_tagged {sent sent' : List (ℕ × SubSqeRequest)} {queued : List (List SQEntry)}
    {k c i i' : ℕ} {x y : SQEntry} (early : ∀ req, (k, req) ∉ sent')
    (late : ∀ req, (c, req) ∉ sent) (first : (tagged (sent ++ sent') queued)[i]? = some (k, x))
    (second : (tagged (sent ++ sent') queued)[i']? = some (c, y)) : i < i' := by
  rw [tagged_append] at first second
  have before : i < (tagged sent (queued.take sent.length)).length := by
    by_contra beyond
    rw [List.getElem?_append_right (Nat.le_of_not_lt beyond)] at first
    obtain ⟨_, req, _, there, -⟩ := mem_tagged (List.mem_of_getElem? first)
    exact early req (List.mem_of_getElem? there)
  refine before.trans_le (Nat.le_of_not_lt fun within => ?_)
  rw [List.getElem?_append_left within] at second
  obtain ⟨_, req, _, there, -⟩ := mem_tagged (List.mem_of_getElem? second)
  exact late req (List.mem_of_getElem? there)

end NetReactor

/-! ## What the steps send and queue -/

namespace NetCall

/-- The call changes only by its send, or not any more. -/
def Settled : NetCall → Prop
  | .cancelling _ => True
  | .returned _ _ _ => True
  | .cancelled => True
  | _ => False

/-- The call after its send. -/
def afterSend : NetCall → NetCall
  | .stored args nonce serial => .returned args nonce serial
  | .cancelling _ => .cancelled
  | call => call

/-- What a step with event `e` can do to call `k`. -/
inductive Next (e : NetEvent) (k : ℕ) : NetCall → NetCall → Prop
  | stay (call : NetCall) : Next e k call call
  | queue {args : QueueArgs} (event : e = .queue k args) : Next e k .free (.called args)
  | cancel {id : RequestID} (event : e = .cancel k id) : Next e k .free (.cancelling id)
  | draw (args : QueueArgs) (nonce : UInt32) (serial : ℕ) :
      Next e k (.called args) (.drawn args nonce serial)
  | add (args : QueueArgs) (nonce : UInt32) (serial : ℕ) :
      Next e k (.called args) (.stored args nonce serial)
  | store (args : QueueArgs) (nonce : UInt32) (serial : ℕ) :
      Next e k (.drawn args nonce serial) (.stored args nonce serial)
  | send (args : QueueArgs) (nonce : UInt32) (serial : ℕ) :
      Next e k (.stored args nonce serial) (.returned args nonce serial)
  | sendCancel (id : RequestID) : Next e k (.cancelling id) .cancelled

/-- The call is over and may have sent `req` to loop `l`. -/
def MayHaveSent (n l : ℕ) (req : SubSqeRequest) : NetCall → Prop
  | .returned args nonce serial =>
      l = loopForFd n args.op.fd ∧
        req = (args.op.ticket nonce serial).request args.op.op args.timeout
  | .cancelled => True
  | _ => False

theorem settled_of_mayHaveSent {n l : ℕ} {req : SubSqeRequest} {call : NetCall}
    (may : call.MayHaveSent n l req) : call.Settled := by
  cases call with
  | returned args nonce serial => trivial
  | cancelled => trivial
  | _ => exact may.elim

theorem settled_of_hasReturned {n : ℕ} {id : RequestID} {call : NetCall}
    (returned : call.HasReturned id) : call.Settled ∧ call.outgoing n = none := by
  obtain ⟨args, nonce, serial, rfl, -⟩ := returned
  exact ⟨trivial, rfl⟩

/-- The identifier that was returned is that of the ticket. -/
theorem HasReturned.id_eq {id : RequestID} {call : NetCall} {t : Ticket}
    (returned : call.HasReturned id) (ticket : call.ticket = some t) : t.id = id := by
  obtain ⟨args, nonce, serial, rfl, rfl⟩ := returned
  cases ticket
  rfl

theorem mayHaveSent_afterSend {n l : ℕ} {req : SubSqeRequest} {call : NetCall}
    (out : call.outgoing n = some (l, req)) : call.afterSend.MayHaveSent n l req := by
  cases call with
  | stored args nonce serial =>
      cases out
      exact ⟨rfl, rfl⟩
  | cancelling id => trivial
  | _ => cases out

/-- A call at its send has sent nothing. -/
theorem not_mayHaveSent_of_outgoing {n l l' : ℕ} {req req' : SubSqeRequest} {call : NetCall}
    (out : call.outgoing n = some (l, req)) : ¬ call.MayHaveSent n l' req' := by
  cases call with
  | returned args nonce serial => cases out
  | cancelled => cases out
  | _ => exact id

theorem outgoing_of_target {n l : ℕ} {call : NetCall} (target : call.target n = some l) :
    ∃ req, call.outgoing n = some (l, req) := by
  cases call with
  | stored args nonce serial =>
      cases target
      exact ⟨_, rfl⟩
  | cancelling id =>
      cases target
      exact ⟨_, rfl⟩
  | _ => cases target

end NetCall

namespace NetReactor

/-- The channels of two reactors are the same, except for that of one loop. -/
def SameChannelsBut (l : ℕ) (s s' : NetReactor) : Prop :=
  ∀ l', l' ≠ l → (s'.loops l').reqBuss = (s.loops l').reqBuss

/-- **What a step sends and queues.** -/
inductive Traffic (n : ℕ) (s : NetReactor) : NetEvent → NetReactor → Prop
  | quiet {e : NetEvent} {s' : NetReactor} (none : note n s e = [])
      (channels : ∀ l, (s'.loops l).reqBuss = (s.loops l).reqBuss)
      (kept : ∀ k, (s.calls k).Settled → s'.calls k = s.calls k) : Traffic n s e s'
  | send {k l : ℕ} {req : SubSqeRequest} {s' : NetReactor}
      (out : (s.calls k).outgoing n = some (l, req))
      (one : note n s (.send k) = [.sent l k req])
      (channel : (s'.loops l).reqBuss = (s.loops l).reqBuss ++ [req])
      (others : SameChannelsBut l s s')
      (calls : s'.calls = Function.update s.calls k (s.calls k).afterSend) :
      Traffic n s (.send k) s'
  | take {l reads : ℕ} {spec : UInt64} {req : SubSqeRequest} {rest : List SubSqeRequest}
      {s' : NetReactor} (head : (s.loops l).reqBuss = req :: rest)
      (one : note n s (.request l spec reads) =
        [.queued l (NetLoop.queuedSQEs (s.loops l).engine req spec reads)])
      (channel : (s'.loops l).reqBuss = rest) (others : SameChannelsBut l s s')
      (calls : s'.calls = s.calls) : Traffic n s (.request l spec reads) s'

section Steps

variable {n : ℕ} {s s' : NetReactor} {e : NetEvent}

/-- A call that is not settled moves on. -/
theorem kept_setCall {k : ℕ} (open_ : ¬ (s.calls k).Settled) {call : NetCall} (j : ℕ)
    (settled : (s.calls j).Settled) : Function.update s.calls k call j = s.calls j := by
  refine Function.update_of_ne ?_ _ _
  rintro rfl
  exact open_ settled

/-- A step inside one loop leaves its channel alone. -/
theorem channels_setLoop {l : ℕ} {loop : NetLoop} (same : loop.reqBuss = (s.loops l).reqBuss)
    (l' : ℕ) : (Function.update s.loops l loop l').reqBuss = (s.loops l').reqBuss := by
  by_cases this : l' = l
  · subst this
    rw [Function.update_self, same]
  · rw [Function.update_of_ne this]

/-- A send that goes through. -/
theorem traffic_send {k l : ℕ} {req : SubSqeRequest}
    (out : (s.calls k).outgoing n = some (l, req))
    (opened : (s.loops l).shell.closed .reqBuss = false) :
    Traffic n s (.send k) ((s.pushRequest l req).setCall k (s.calls k).afterSend) := by
  refine .send out ?_ ?_ ?_ rfl
  · simp only [note, out, opened, Bool.false_eq_true, if_false]
  · show (Function.update s.loops l _ l).reqBuss = _
    rw [Function.update_self]
  · intro l' other
    show (Function.update s.loops l _ l').reqBuss = _
    rw [Function.update_of_ne other]

/-- **Every step sends and queues as `Traffic` says.** -/
theorem step_traffic (stepped : s.step n e = some s') : Traffic n s e s' := by
  obtain ⟨-, transition⟩ := step_transition stepped
  cases transition with
  | queue here => exact .quiet rfl (fun _ => rfl) (kept_setCall (by rw [here]; exact id))
  | cancel here => exact .quiet rfl (fun _ => rfl) (kept_setCall (by rw [here]; exact id))
  | @draw k args here =>
      obtain ⟨call, calls, -⟩ := calls_drawNonce s k args
      refine .quiet rfl (fun l => by rw [(s.loops_drawNonce k args).1]) ?_
      rw [calls]
      exact kept_setCall (by rw [here]; exact id)
  | store here fast => exact .quiet rfl (fun _ => rfl) (kept_setCall (by rw [here]; exact id))
  | sendClosed target closed =>
      obtain ⟨req, out⟩ := NetCall.outgoing_of_target target
      refine .quiet ?_ (fun _ => rfl) fun _ _ => rfl
      simp only [note, out, closed, if_true]
  | @send k args nonce serial here opened =>
      have sent := traffic_send (n := n) (by rw [here]; rfl) opened
      rwa [here] at sent
  | @sendCancel k id here opened =>
      have sent := traffic_send (n := n) (by rw [here]; rfl) opened
      rwa [here] at sent
  | request lt done =>
      obtain ⟨req, rest, err, e, -, head, -, ⟨loops, calls, -⟩, -⟩ := requestCase_cases done
      refine .take head (by simp only [note, head]) ?_ ?_ calls
      · rw [loops, Function.update_self]
      · intro l' other
        rw [loops, Function.update_of_ne other]
  | signal lt done =>
      obtain ⟨-, -, ⟨-, rfl⟩ | ⟨-, -, -, -, -, -, -, -, rfl⟩⟩ := signalCase_cases done
      · exact .quiet rfl (fun _ => rfl) fun _ _ => rfl
      · exact .quiet rfl (channels_setLoop rfl) fun _ _ => rfl
  | consumer lt done => exact .quiet rfl (channels_setLoop rfl) fun _ _ => rfl
  | dispatch lt done =>
      obtain ⟨cqe, e, -, ⟨-, rfl⟩ | ⟨-, k, -, rfl⟩ | ⟨-, -, rfl⟩⟩ := dispatchOne_cases done
      · exact .quiet rfl (channels_setLoop rfl) fun _ _ => rfl
      · exact .quiet rfl (channels_setLoop rfl) fun _ _ => rfl
      · exact .quiet rfl (fun _ => rfl) fun _ _ => rfl
  | kernel lt done => exact .quiet rfl (channels_setLoop rfl) fun _ _ => rfl
  | stop done => exact .quiet rfl (channels_setLoop rfl) fun _ _ => rfl

/-- **A step moves each call on by at most one stage.** -/
theorem step_next (stepped : s.step n e = some s') (k : ℕ) :
    NetCall.Next e k (s.calls k) (s'.calls k) := by
  -- One call moves.
  have moves : ∀ {j : ℕ} {call : NetCall}, NetCall.Next e j (s.calls j) call →
      NetCall.Next e k (s.calls k) (Function.update s.calls j call k) := by
    intro j call next
    by_cases this : k = j
    · subst this
      rw [Function.update_self]
      exact next
    · rw [Function.update_of_ne this]
      exact .stay _
  obtain ⟨-, transition⟩ := step_transition stepped
  cases transition with
  | @queue j args here => exact moves (by rw [here]; exact .queue rfl)
  | @cancel j id here => exact moves (by rw [here]; exact .cancel rfl)
  | @draw j args here =>
      unfold drawNonce
      dsimp only
      split
      · exact moves (by rw [here]; exact .draw _ _ _)
      · exact moves (by rw [here]; exact .add _ _ _)
  | store here fast => exact moves (by rw [here]; exact .store _ _ _)
  | send here opened => exact moves (by rw [here]; exact .send _ _ _)
  | sendCancel here opened => exact moves (by rw [here]; exact .sendCancel _)
  | request lt done =>
      obtain ⟨-, -, -, -, -, -, -, ⟨-, calls, -⟩, -⟩ := requestCase_cases done
      rw [calls]
      exact .stay _
  | signal lt done =>
      obtain ⟨-, -, ⟨-, rfl⟩ | ⟨-, -, -, -, -, -, -, -, rfl⟩⟩ := signalCase_cases done
      · exact .stay _
      · exact .stay _
  | dispatch lt done =>
      obtain ⟨cqe, e, -, ⟨-, rfl⟩ | ⟨-, k, -, rfl⟩ | ⟨-, -, rfl⟩⟩ := dispatchOne_cases done
      · exact .stay _
      · exact .stay _
      · exact .stay _
  | _ => exact .stay _

/-- **Callbacks are invoked by a dispatch, one at a time.** -/
theorem invoked_step (stepped : s.step n e = some s') :
    s'.invoked = s.invoked ∨
      ∃ l k cqe, e = .dispatch l ∧ s'.invoked = s.invoked ++ [(k, cqe)] ∧
        s.registry.lookup cqe.userData = some k := by
  obtain ⟨-, transition⟩ := step_transition stepped
  cases transition with
  | @draw k args here =>
      refine Or.inl ?_
      unfold drawNonce
      dsimp only
      split
      · rfl
      · rfl
  | request lt done =>
      obtain ⟨-, -, -, -, -, -, -, ⟨-, -, -, invoked, -⟩, -⟩ := requestCase_cases done
      exact Or.inl invoked
  | signal lt done =>
      obtain ⟨-, -, ⟨-, rfl⟩ | ⟨-, -, -, -, -, -, -, -, rfl⟩⟩ := signalCase_cases done
      · exact Or.inl rfl
      · exact Or.inl rfl
  | @dispatch l _ lt done =>
      obtain ⟨cqe, e, -, ⟨-, rfl⟩ | ⟨-, k, found, rfl⟩ | ⟨-, -, rfl⟩⟩ := dispatchOne_cases done
      · exact Or.inl rfl
      · exact Or.inr ⟨l, k, cqe, rfl, rfl, found⟩
      · exact Or.inl rfl
  | _ => exact Or.inl rfl

/-! ## The order of the ring -/

/-- **The notes of a run fit its state.**  On every loop what was sent is what the
publisher took, each with SQEs that encode it, and what waits in the channel; and what a
call sent is what it is now known to have sent. -/
structure Journal (n : ℕ) (j : List Note) (s : NetReactor) : Prop where
  channel : ∀ l, ∃ taken waiting, sentOn l j = taken ++ waiting ∧
    waiting.map Prod.snd = (s.loops l).reqBuss ∧
    List.Forall₂ (fun x sqes => ∀ sqe ∈ sqes, x.2.Encodes sqe) taken (queuedOn l j)
  sender : ∀ l k req, (k, req) ∈ sentOn l j → (s.calls k).MayHaveSent n l req

theorem journal_start (some_loop : 0 < n) (rings : ℕ → ReactorRing true) :
    Journal n [] (start n some_loop rings) where
  channel := fun _ => ⟨[], [], rfl, rfl, .nil⟩
  sender := fun _ _ _ mem => by cases mem

theorem sentOn_sent (l l' k : ℕ) (req : SubSqeRequest) :
    sentOn l' [.sent l k req] = if l = l' then [(k, req)] else [] := by
  simp only [sentOn, List.filterMap_cons, List.filterMap_nil]
  split
  · next none => rw [if_neg (by rintro rfl; simp at none)]
  · next x some =>
    by_cases this : l = l'
    · rw [if_pos this] at some ⊢
      rw [Option.some.inj some]
    · rw [if_neg this] at some
      cases some

theorem queuedOn_sent (l l' k : ℕ) (req : SubSqeRequest) : queuedOn l' [.sent l k req] = [] := rfl

theorem sentOn_queued (l l' : ℕ) (sqes : List SQEntry) : sentOn l' [.queued l sqes] = [] := rfl

theorem queuedOn_queued_self (l : ℕ) (sqes : List SQEntry) :
    queuedOn l [.queued l sqes] = [sqes] := by
  simp [queuedOn]

theorem queuedOn_queued_of_ne {l l' : ℕ} (other : l' ≠ l) (sqes : List SQEntry) :
    queuedOn l' [.queued l sqes] = [] := by
  simp [queuedOn, other.symm]

/-- Nothing happened to a channel. -/
theorem Journal.channel_same {j j' : List Note} {l : ℕ} (journal : Journal n j s)
    (sent : sentOn l j' = []) (queued : queuedOn l j' = [])
    (same : (s'.loops l).reqBuss = (s.loops l).reqBuss) :
    ∃ taken waiting, sentOn l (j ++ j') = taken ++ waiting ∧
      waiting.map Prod.snd = (s'.loops l).reqBuss ∧
      List.Forall₂ (fun x sqes => ∀ sqe ∈ sqes, x.2.Encodes sqe) taken (queuedOn l (j ++ j')) := by
  rw [sentOn_append, sent, List.append_nil, queuedOn_append, queued, List.append_nil, same]
  exact journal.channel l

/-- **Every step keeps the notes right.** -/
theorem Journal.step {j : List Note} (journal : Journal n j s) (stepped : s.step n e = some s') :
    Journal n (j ++ note n s e) s' := by
  cases step_traffic stepped with
  | quiet none channels kept =>
      rw [none]
      refine ⟨fun l => journal.channel_same rfl rfl (channels l), fun l k req mem => ?_⟩
      rw [List.append_nil] at mem
      have may := journal.sender l k req mem
      rw [kept k (NetCall.settled_of_mayHaveSent may)]
      exact may
  | @send k l req _ out one channel others calls =>
      rw [one]
      refine ⟨fun l' => ?_, fun l' k' req' mem => ?_⟩
      · by_cases this : l' = l
        · subst this
          obtain ⟨taken, waiting, sent, wait, encoded⟩ := journal.channel l'
          refine ⟨taken, waiting ++ [(k, req)], ?_, ?_, ?_⟩
          · rw [sentOn_append, sentOn_sent, if_pos rfl, sent, List.append_assoc]
          · rw [List.map_append, wait, channel]
            rfl
          · rw [queuedOn_append, queuedOn_sent, List.append_nil]
            exact encoded
        · refine journal.channel_same ?_ rfl (others l' this)
          rw [sentOn_sent, if_neg (Ne.symm this)]
      · rw [sentOn_append, sentOn_sent] at mem
        rw [calls]
        rcases List.mem_append.mp mem with old | new
        · have may := journal.sender l' k' req' old
          -- A call that sends now has not sent before.
          have other : k' ≠ k := by
            rintro rfl
            exact NetCall.not_mayHaveSent_of_outgoing out may
          rw [Function.update_of_ne other]
          exact may
        · split at new
          · next here =>
            subst here
            cases List.mem_singleton.mp new
            rw [Function.update_self]
            exact NetCall.mayHaveSent_afterSend out
          · cases new
  | @take l reads spec req rest _ head one channel others calls =>
      rw [one]
      refine ⟨fun l' => ?_, fun l' k' req' mem => ?_⟩
      · by_cases this : l' = l
        · subst this
          obtain ⟨taken, waiting, sent, wait, encoded⟩ := journal.channel l'
          rw [head] at wait
          -- The request taken is the first one that waits.
          cases waiting with
          | nil => cases wait
          | cons first waiting =>
              obtain ⟨rfl, later⟩ := List.cons.inj wait
              refine ⟨taken ++ [first], waiting, ?_, later.trans channel.symm, ?_⟩
              · rw [sentOn_append, sentOn_queued, List.append_nil, sent, List.append_assoc]
                rfl
              · rw [queuedOn_append, queuedOn_queued_self]
                refine List.rel_append encoded (.cons (fun sqe mem => ?_) .nil)
                exact NetLoop.encodes_of_mem_queuedSQEs mem
        · exact journal.channel_same rfl (queuedOn_queued_of_ne this _) (others l' this)
      · rw [sentOn_append, sentOn_queued, List.append_nil] at mem
        rw [calls]
        exact journal.sender l' k' req' mem

/-- What is in the ring for a call encodes a request the call has sent. -/
theorem Journal.encodes {j : List Note} (journal : Journal n j s) {l k : ℕ} {x : SQEntry}
    (mem : (k, x) ∈ ringOrder l j) : ∃ req, (k, req) ∈ sentOn l j ∧ req.Encodes x := by
  obtain ⟨i, req, sqes, sent, queued, own⟩ := mem_tagged mem
  obtain ⟨taken, waiting, split, -, encoded⟩ := journal.channel l
  have lt : i < taken.length := by
    rw [encoded.length_eq]
    exact (List.getElem?_eq_some_iff.mp queued).1
  refine ⟨req, List.mem_of_getElem? sent, ?_⟩
  rw [split, List.getElem?_append_left lt] at sent
  obtain ⟨lt', sent⟩ := List.getElem?_eq_some_iff.mp sent
  obtain ⟨lt'', queued⟩ := List.getElem?_eq_some_iff.mp queued
  have here := encoded.get lt' lt''
  rw [List.get_eq_getElem, List.get_eq_getElem, sent, queued] at here
  exact here x own

/-! ## Cancelling -/

/-- After `Cancel(id)` was called by `c`, with the request of `k` sent before: `k` sends no
more, and `c` sends the cancel of `id`. -/
structure Cancelling (n : ℕ) (k c : ℕ) (id : RequestID) (j : List Note) (s : NetReactor) :
    Prop where
  sent : (s.calls k).HasReturned id
  silent : ∀ l req, (k, req) ∉ sentOn l j
  cancels : s.calls c = .cancelling id ∨ s.calls c = .cancelled
  names : ∀ l req, (c, req) ∈ sentOn l j → l = loopForFd n (RequestID.fd id) ∧
    req = cancelRequest id

theorem Cancelling.step {k c : ℕ} {id : RequestID} {j : List Note}
    (inv : Cancelling n k c id j s) (stepped : s.step n e = some s') :
    Cancelling n k c id (j ++ note n s e) s' := by
  obtain ⟨isOver, idle⟩ := NetCall.settled_of_hasReturned (n := n) inv.sent
  have settled : (s.calls c).Settled := by
    rcases inv.cancels with here | here
    · rw [here]
      trivial
    · rw [here]
      trivial
  cases step_traffic stepped with
  | quiet none channels kept =>
      rw [none, List.append_nil]
      refine ⟨?_, inv.silent, ?_, inv.names⟩
      · rw [kept k isOver]
        exact inv.sent
      · rw [kept c settled]
        exact inv.cancels
  | @send k' l req _ out one channel others calls =>
      have other : k ≠ k' := by
        rintro rfl
        rw [idle] at out
        cases out
      rw [one]
      refine ⟨?_, fun l' req' mem => ?_, ?_, fun l' req' mem => ?_⟩
      · rw [calls, Function.update_of_ne other]
        exact inv.sent
      · rw [sentOn_append, sentOn_sent] at mem
        rcases List.mem_append.mp mem with old | new
        · exact inv.silent l' req' old
        · split at new
          · cases List.mem_singleton.mp new
            exact other rfl
          · cases new
      · rw [calls]
        by_cases this : c = k'
        · subst this
          rw [Function.update_self]
          rcases inv.cancels with here | here
          · rw [here]
            exact Or.inr rfl
          · rw [here]
            exact Or.inr rfl
        · rw [Function.update_of_ne this]
          exact inv.cancels
      · rw [sentOn_append, sentOn_sent] at mem
        rcases List.mem_append.mp mem with old | new
        · exact inv.names l' req' old
        · split at new
          · next here =>
            subst here
            cases List.mem_singleton.mp new
            rcases inv.cancels with here | here
            · rw [here] at out
              cases out
              exact ⟨rfl, rfl⟩
            · rw [here] at out
              cases out
          · cases new
  | @take l reads spec req rest _ head one channel others calls =>
      rw [one]
      have same : ∀ l', sentOn l' (j ++ [.queued l (NetLoop.queuedSQEs (s.loops l).engine req
          spec reads)]) = sentOn l' j := fun l' => by
        rw [sentOn_append, sentOn_queued, List.append_nil]
      refine ⟨?_, fun l' req' mem => ?_, ?_, fun l' req' mem => ?_⟩
      · rw [calls]
        exact inv.sent
      · rw [same] at mem
        exact inv.silent l' req' mem
      · rw [calls]
        exact inv.cancels
      · rw [same] at mem
        exact inv.names l' req' mem

/-- What holds after `Cancel(id)` was called. -/
theorem cancelling_of_called {k c : ℕ} {id : RequestID} (returned : (s.calls k).HasReturned id)
    (stepped : s.step n (.cancel c id) = some s') : Cancelling n k c id [] s' := by
  obtain ⟨-, transition⟩ := step_transition stepped
  cases transition with
  | cancel free =>
      have other : k ≠ c := by
        rintro rfl
        obtain ⟨args, nonce, serial, here, -⟩ := returned
        rw [here] at free
        cases free
      refine ⟨?_, fun _ _ => List.not_mem_nil, Or.inl (Function.update_self _ _ _), ?_⟩
      · show (Function.update s.calls c _ k).HasReturned id
        rw [Function.update_of_ne other]
        exact returned
      · intro l req mem
        cases mem

/-- A call that has not been made has sent nothing. -/
theorem Journal.notMem_of_free {j : List Note} (journal : Journal n j s) {c : ℕ}
    (free : s.calls c = .free) (l : ℕ) (req : SubSqeRequest) : (c, req) ∉ sentOn l j := by
  intro mem
  have may := journal.sender l c req mem
  rw [free] at may
  exact may

/-- The SQE of a cancel names the user data to cancel. -/
theorem addr_of_encodes_cancel {id : RequestID} {sqe : SQEntry}
    (encodes : (cancelRequest id).Encodes sqe) :
    sqe.addr = id ∧ sqe.opCode = OpCode.asyncCancel.toUInt8 := by
  rcases encodes with ⟨flags, old, encoded⟩ | ⟨timed, -⟩
  · cases encoded
    exact ⟨rfl, rfl⟩
  · exact absurd rfl timed

end Steps

/-- **A cancel reaches the request it names.**  `Queue` call `k` has returned `id` when
call `c` calls `Cancel(id)`.  If SQEs of both are placed, then on the same loop and that
of the cancel behind that of the operation; its address is the operation's user data,
which is `id`; and no other outstanding request has it, as long as fewer than `2 ^ 32`
requests are made for a descriptor during the life of a request. -/
theorem cancel_reaches_request (n : ℕ) (some_loop : 0 < n) (rings : ℕ → ReactorRing true)
    {before after : List (NetReactor × NetEvent)} {t s : NetReactor} {k c : ℕ} {id : RequestID}
    (path : Runs.Path (step n) (start n some_loop rings) (before ++ (t, .cancel c id) :: after) s)
    (returned : (t.calls k).HasReturned id) {l l' i i' : ℕ} {x y : SQEntry}
    (op : (ringOrder l (Runs.log (note n) (before ++ (t, .cancel c id) :: after)))[i]? =
      some (k, x))
    (request : x.userData ≠ timeoutNonce)
    (cancel : (ringOrder l' (Runs.log (note n) (before ++ (t, .cancel c id) :: after)))[i']? =
      some (c, y)) :
    l' = l ∧ i < i' ∧ y.opCode = OpCode.asyncCancel.toUInt8 ∧ y.addr = x.userData ∧
      x.userData = id ∧
      ∀ u, (s.calls k).ticket = some u → s.LifeBound n →
        (s.Outstanding n k u ∨ s.adds u.fd < u.serial + 2 ^ 32) →
          ∀ k' u', s.Outstanding n k' u' → u'.id = x.userData → k' = k := by
  obtain ⟨first, t', called, second⟩ := path.split
  have journal : Journal n (Runs.log (note n) (before ++ (t, .cancel c id) :: after)) s :=
    path.log_invariant (note n) (Journal n) (fun _ _ => True) (journal_start some_loop rings)
      (fun _ _ _ _ journal _ stepped => journal.step stepped) fun _ _ => trivial
  have early : Journal n (Runs.log (note n) before) t :=
    first.log_invariant (note n) (Journal n) (fun _ _ => True) (journal_start some_loop rings)
      (fun _ _ _ _ journal _ stepped => journal.step stepped) fun _ _ => trivial
  have late : Cancelling n k c id (Runs.log (note n) after) s :=
    second.log_invariant (note n) (Cancelling n k c id) (fun _ _ => True)
      (cancelling_of_called returned called)
      (fun _ _ _ _ inv _ stepped => inv.step stepped) fun _ _ => trivial
  -- The notes before and after the `Cancel`, which notes nothing down itself.
  have whole : Runs.log (note n) (before ++ (t, .cancel c id) :: after) =
      Runs.log (note n) before ++ Runs.log (note n) after := Runs.log_append _ _ _
  have free : t.calls c = .free := by
    obtain ⟨-, transition⟩ := step_transition called
    cases transition with
    | cancel free => exact free
  obtain ⟨req, sent, encodes⟩ := journal.encodes (List.mem_of_getElem? op)
  obtain ⟨req', sent', encodes'⟩ := journal.encodes (List.mem_of_getElem? cancel)
  rw [whole, sentOn_append] at sent sent'
  have own := (List.mem_append.mp sent).resolve_right (late.silent l req)
  obtain ⟨rfl, rfl⟩ := late.names l' req'
    ((List.mem_append.mp sent').resolve_left (early.notMem_of_free free l' req'))
  obtain ⟨args, nonce, serial, here, rfl⟩ := returned
  have may := early.sender l k req own
  rw [here] at may
  obtain ⟨rfl, rfl⟩ := may
  have home : RequestID.fd (args.op.ticket nonce serial).id = args.op.fd :=
    RequestID.fd_pack (lt_trans args.op.fd_lt (by decide)) nonce
  have ud : x.userData = (args.op.ticket nonce serial).id := by
    rcases encodes with ⟨flags, old, encoded⟩ | ⟨-, spec, old, encoded⟩
    · exact Operation.encode_userData encoded
    · exact absurd (Operation.encode_userData encoded) request
  obtain ⟨addr, code⟩ := addr_of_encodes_cancel encodes'
  rw [home] at cancel ⊢
  refine ⟨rfl, ?_, code, addr.trans ud.symm, ud, ?_⟩
  · rw [ringOrder, whole, sentOn_append] at op cancel
    exact lt_of_tagged (late.silent _) (early.notMem_of_free free _) op cancel
  · intro u ticket life young k' u' outstanding same
    have base := base_of_path some_loop path
    have young' : s.adds u.fd < u.serial + 2 ^ 32 := young.elim (life k u) id
    refine base.numbering.eq_of_id_eq outstanding.1 ticket ?_ (life k' u' outstanding) young'
    rw [same, ud, late.sent.id_eq ticket]

/-- Descriptor 3 gets a request, up to its `Queue` returning. -/
def queuedPing : List NetEvent := [.queue 0 (pingArgs 0), .draw 0, .store 0, .send 0]

/-- The cancel is sent, and the publisher queues both. -/
def bothPlaced : List NetEvent := [.send 1, .request 0 0 0, .request 0 0 0]

/-- The SQE of the request. -/
def pingSQE : SQEntry :=
  ((default : SQEntry).fill OpCode.nop.toUInt8 (-1) 0 0 0).setUserData (packRequestID 3 1)

/-- The SQE of its cancel. -/
def cancelSQE : SQEntry :=
  ((default : SQEntry).fill OpCode.asyncCancel.toUInt8 (-1) (packRequestID 3 1) 0 0).setUserData
    cancelNonce

/-- A request and its cancel, the operation in front. -/
theorem cancel_reaches_request_placed :
    ∃ (before after : List (NetReactor × NetEvent)) (t s : NetReactor),
      Runs.Path (step 1) (start 1 Nat.one_pos (twoSlots true))
        (before ++ (t, .cancel 1 (packRequestID 3 1)) :: after) s ∧
      (t.calls 0).HasReturned (packRequestID 3 1) ∧
      ringOrder 0 (Runs.log (note 1) (before ++ (t, .cancel 1 (packRequestID 3 1)) :: after)) =
        [(0, pingSQE), (1, cancelSQE)] ∧
      cancelSQE.addr = pingSQE.userData ∧ pingSQE.userData = packRequestID 3 1 := by
  have first : Runs.Path (step 1) (start 1 Nat.one_pos (twoSlots true)) _ _ :=
    Runs.path_record queuedPing rfl
  obtain ⟨before, after, t, s, path, returned, order⟩ :
      ∃ (before after : List (NetReactor × NetEvent)) (t s : NetReactor),
        Runs.Path (step 1) (start 1 Nat.one_pos (twoSlots true))
          (before ++ (t, .cancel 1 (packRequestID 3 1)) :: after) s ∧
        (t.calls 0).HasReturned (packRequestID 3 1) ∧
        ringOrder 0 (Runs.log (note 1)
          (before ++ (t, .cancel 1 (packRequestID 3 1)) :: after)) =
            [(0, pingSQE), (1, cancelSQE)] :=
    ⟨_, _, _, _, first.join rfl (Runs.path_record bothPlaced rfl),
      ⟨pingArgs 0, 1, 1, rfl, rfl⟩, by decide +kernel⟩
  obtain ⟨-, -, -, addr, ud, -⟩ :=
    cancel_reaches_request 1 Nat.one_pos (twoSlots true) path returned (congrArg (·[0]?) order)
      (by decide) (congrArg (·[1]?) order)
  exact ⟨before, after, t, s, path, returned, order, addr, ud⟩

end NetReactor

end GoUring.Reactor
