import GoUring.Reactor.NetEntries
import GoUring.Reactor.NetLoops
import GoUring.Reactor.Order

/-!
# Order in the network reactor

A loop of the network reactor is two queues in a row, the channel `reqBuss` and the submission
queue, and then the completion queue on the way back.  What goes in at one end comes out at the
other in the same order: the kernel reads the SQEs of the requests as they were sent to the loop,
and the callbacks are invoked as the kernel posted.

A request that finds the submission queue full is thrown away, and with it its place in the
order.  A request with a timeout needs two slots; when only one is free, its operation is queued
with the link flag and its link timeout is not, so that the operation is linked to whatever is
queued next.
-/

namespace GoUring.Reactor

open Uring Runs

theorem Engine.feeds_threadReads :
    ∀ (reads : ℕ) {e e' : Engine}, e.threadReads reads = some e' →
      ∃ read, e.Feeds e' [] read ∧ read.length = reads ∧ e'.sq.entries = e.sq.entries := by
  intro reads
  induction reads with
  | zero =>
      intro e e' done
      cases done
      exact ⟨[], .of_eq rfl rfl, rfl, rfl⟩
  | succ reads ih =>
      intro e e' done
      obtain ⟨mid, first, rest⟩ := Option.bind_eq_some_iff.mp done
      obtain ⟨sqe, one, entries⟩ := Engine.feeds_consume first
      obtain ⟨read, many, length, entries'⟩ := ih rest
      exact ⟨sqe :: read, one.trans many, congrArg Nat.succ length, entries'.trans entries⟩

/-- **What the publisher queues of a request**: nothing when the queue is full; of a request with a
timeout only the operation, when there is one slot; and else all of it. -/
theorem NetLoop.queueRequest_feeds {e e' : Engine} {req : SubSqeRequest} {spec : UInt64}
    {reads : ℕ} {err : Option RingError}
    (done : queueRequest e req spec reads = some (err, e')) :
    (e.sq.pending.length = e.sq.entries ∧ err = some .sqOverflow ∧ e' = e) ∨
      (req.timeout ≠ 0 ∧ reads = 0 ∧ e.sq.pending.length + 1 = e.sq.entries ∧
        err = some .sqOverflow ∧ ∃ sqe,
          Tag.of sqe = { flags := req.flags ||| sqeIOLinkFlag, userData := req.userData } ∧
          e.Feeds e' [sqe] []) ∨
      (err = none ∧ ∃ queued read, e.Feeds e' queued read ∧ queued.map Tag.of = req.tags ∧
        (req.timeout ≠ 0 → read.length = reads) ∧ e'.sq.entries = e.sq.entries) := by
  unfold queueRequest at done
  split at done
  · next untimed =>
    rcases Engine.feeds_queueSQE done with full | ⟨-, ok, sqe, tag, feeds, entries⟩
    · exact Or.inl full
    · refine Or.inr (Or.inr ⟨ok, [sqe], [], feeds, ?_, absurd untimed, entries⟩)
      rw [SubSqeRequest.tags, if_pos untimed, ← tag]
      rfl
  · next timed =>
    obtain ⟨⟨err₁, e₁⟩, first, rest⟩ := Option.bind_eq_some_iff.mp done
    rcases Engine.feeds_queueSQE first with
      ⟨full, rfl, rfl⟩ | ⟨room, rfl, sqe, tag, feeds₁, entries₁⟩
    · cases rest
      exact Or.inl ⟨full, rfl, rfl⟩
    · obtain ⟨e₂, thread, second⟩ := Option.bind_eq_some_iff.mp rest
      obtain ⟨read, feeds₂, length, entries₂⟩ := Engine.feeds_threadReads reads thread
      rcases Engine.feeds_queueSQE second with
        ⟨full, rfl, rfl⟩ | ⟨-, rfl, link, linkTag, feeds₃, entries₃⟩
      · -- The queue was filled by the operation itself, so the thread has not read.
        have count := congrArg List.length (feeds₁.trans feeds₂).pending
        simp only [List.length_append, List.length_cons, List.length_nil, length, full, entries₂,
          entries₁] at count
        obtain rfl : reads = 0 := by omega
        obtain rfl := List.length_eq_zero_iff.mp length
        exact Or.inr (Or.inl ⟨timed, rfl, by omega, rfl, sqe, tag, feeds₁.trans feeds₂⟩)
      · refine Or.inr (Or.inr ⟨rfl, [sqe, link], read, ?_, ?_, fun _ => length, ?_⟩)
        · simpa using (feeds₁.trans feeds₂).trans feeds₃
        · rw [SubSqeRequest.tags, if_neg timed, ← tag]
          show [Tag.of sqe, Tag.of link] = _
          rw [linkTag]
          rfl
        · rw [entries₃, entries₂, entries₁]

/-- With one free slot, a request with a timeout is split. -/
theorem NetLoop.queueRequest_of_one {e e' : Engine} {req : SubSqeRequest} {spec : UInt64}
    {err : Option RingError} (timed : req.timeout ≠ 0)
    (one : e.sq.pending.length + 1 = e.sq.entries)
    (done : queueRequest e req spec 0 = some (err, e')) :
    err = some .sqOverflow ∧ ∃ sqe,
      Tag.of sqe = { flags := req.flags ||| sqeIOLinkFlag, userData := req.userData } ∧
      e.Feeds e' [sqe] [] := by
  rcases queueRequest_feeds done with
    ⟨full, -⟩ | ⟨-, -, -, overflow, half⟩ | ⟨-, queued, read, feeds, tags, length, entries⟩
  · omega
  · exact ⟨overflow, half⟩
  · -- Both SQEs would be in the queue.
    obtain rfl := List.length_eq_zero_iff.mp (length timed)
    have two : queued.length = 2 := by
      rw [← List.length_map Tag.of, tags, SubSqeRequest.tags, if_neg timed]
      rfl
    have count := congrArg List.length feeds.pending
    have le := e'.length_pending_le
    rw [List.length_append, two, List.nil_append] at count
    omega

theorem NetLoop.feeds_submitCase {flag flag' : UInt32} {e e' : Engine} {result : EnterResult}
    (done : NetLoop.submitCase flag e result = some (flag', e')) :
    ∃ read, e.Feeds e' [] read := by
  unfold NetLoop.submitCase at done
  split at done
  · obtain ⟨⟨ret, e₁⟩, submitted, eq⟩ := Option.map_eq_some_iff.mp done
    have feeds := Engine.feeds_submit submitted
    cases ret with
    | ok count =>
        cases eq
        exact feeds
    | error err =>
        cases eq
        exact feeds
  · cases done
    exact ⟨[], .of_eq rfl rfl⟩

/-- The event takes a request from the channel of loop `l`. -/
def NetEvent.Takes (l : ℕ) : NetEvent → Prop
  | .request l' _ _ => l' = l
  | _ => False

namespace NetReactor

variable {n l : ℕ} {s s' : NetReactor} {e : NetEvent}

/-- The requests in the channel of loop `l`. -/
def bus (l : ℕ) (s : NetReactor) : List SubSqeRequest := (s.loops l).reqBuss

/-- The SQEs of loop `l` that the kernel has read and not completed. -/
def inflight (l : ℕ) (s : NetReactor) : List SQEntry := (s.loops l).engine.inflight

/-- What is on its way to the kernel: the submission queue, then the channel. -/
def underway (l : ℕ) (s : NetReactor) : List Tag :=
  (s.loops l).engine.sq.pending.map Tag.of ++ (s.bus l).flatMap SubSqeRequest.tags

/-- The SQEs of the requests a run has sent to loop `l`. -/
def sentTags (n l : ℕ) (p : List (NetReactor × NetEvent)) : List Tag :=
  (log (appends (step n) (bus l)) p).flatMap SubSqeRequest.tags

/-- The SQEs the kernel has read from the ring of loop `l` in a run. -/
def readTags (n l : ℕ) (p : List (NetReactor × NetEvent)) : List Tag :=
  (log (appends (step n) (inflight l)) p).map Tag.of

/-- The publisher of loop `l` takes a request and finds the submission queue full. -/
def Rejects (l : ℕ) (s : NetReactor) : NetEvent → Prop
  | .request l' spec reads =>
      l' = l ∧ ∃ req ∈ (s.bus l).head?, ∃ err e,
        NetLoop.queueRequest (s.loops l).engine req spec reads = some (some err, e)
  | _ => False

/-- The publisher of loop `l` takes a request with a timeout, there is one free slot, and the SQ
thread reads nothing between the two SQEs. -/
def Splits (l : ℕ) (s : NetReactor) : NetEvent → Prop
  | .request l' _ reads =>
      l' = l ∧ reads = 0 ∧ (∃ req ∈ (s.bus l).head?, req.timeout ≠ 0) ∧
        (s.loops l).engine.sq.pending.length + 1 = (s.loops l).engine.sq.entries
  | _ => False

/-- What becomes of the SQEs that are taken from the channel of loop `l`. -/
inductive Outcome (l : ℕ) (s : NetReactor) (e : NetEvent) : List Tag → List Tag → Prop
  /-- All of them are queued, if there are any. -/
  | whole {tags : List Tag} (fine : ¬ Rejects l s e) (plenty : ¬ Splits l s e)
      (source : tags = [] ∨ ∃ req ∈ s.bus l, tags = req.tags) : Outcome l s e tags tags
  /-- None is. -/
  | lost {req : SubSqeRequest} (rejects : Rejects l s e) (plenty : ¬ Splits l s e) :
      Outcome l s e [] req.tags
  /-- The operation is, and its link timeout is not. -/
  | half {t : Tag} (rejects : Rejects l s e) (splits : Splits l s e) (linked : t.Linked) :
      Outcome l s e [t] [t, Tag.linkTimeout]

/-- Nothing is taken. -/
theorem Outcome.of_not_takes (other : ¬ e.Takes l) : Outcome l s e [] [] := by
  cases e with
  | request l' spec reads =>
      exact .whole (fun rejects => other rejects.1) (fun splits => other splits.1) (Or.inl rfl)
  | _ => exact .whole id id (Or.inl rfl)

theorem Outcome.sublist {queued taken : List Tag} (outcome : Outcome l s e queued taken) :
    queued.Sublist taken := by
  cases outcome with
  | whole fine plenty source => exact List.Sublist.refl _
  | lost rejects plenty => exact List.nil_sublist _
  | half rejects splits linked => simp

theorem Outcome.eq_iff {queued taken : List Tag} (outcome : Outcome l s e queued taken) :
    queued = taken ↔ ¬ Rejects l s e := by
  cases outcome with
  | whole fine plenty source => exact iff_of_true rfl fine
  | lost rejects plenty =>
      exact iff_of_false (SubSqeRequest.tags_ne_nil _).symm (not_not_intro rejects)
  | half rejects splits linked => exact iff_of_false (by simp) (not_not_intro rejects)

/-- **One step on the way to the kernel.**  `taken` leaves the channel, and `queued` of it reaches
the submission queue. -/
def Forwards (n l : ℕ) (s : NetReactor) (e : NetEvent) (s' : NetReactor) : Prop :=
  ∃ queued taken : List Tag,
    (s.loops l).engine.sq.pending.map Tag.of ++ queued =
      (appends (step n) (inflight l) s e).map Tag.of ++
        (s'.loops l).engine.sq.pending.map Tag.of ∧
    (s.bus l).flatMap SubSqeRequest.tags ++
        (appends (step n) (bus l) s e).flatMap SubSqeRequest.tags =
      taken ++ (s'.bus l).flatMap SubSqeRequest.tags ∧
    Outcome l s e queued taken

/-- A step that leaves the channel alone. -/
theorem forwards_of_read (stepped : s.step n e = some s') (read : List SQEntry)
    (reads : (s'.inflight l).drop (s.inflight l).length = read)
    (pending : (s.loops l).engine.sq.pending = read ++ (s'.loops l).engine.sq.pending)
    (same : s'.bus l = s.bus l) (fine : ¬ e.Takes l) : Forwards n l s e s' := by
  refine ⟨[], [], ?_, ?_, .of_not_takes fine⟩
  · rw [appends_eq stepped, reads, pending, List.append_nil, List.map_append]
  · rw [appends_of_length_le stepped (by rw [same]), same]
    simp

theorem forwards_of_feeds (stepped : s.step n e = some s') (read : List SQEntry)
    (feeds : (s.loops l).engine.Feeds (s'.loops l).engine [] read)
    (same : s'.bus l = s.bus l) (fine : ¬ e.Takes l) : Forwards n l s e s' := by
  refine forwards_of_read stepped read ?_ ?_ same fine
  · show (s'.loops l).engine.inflight.drop _ = read
    rw [feeds.inflight]
    exact List.drop_left
  · have pending := feeds.pending
    rwa [List.append_nil] at pending

theorem forwards_of_same (stepped : s.step n e = some s') (loop : s'.loops l = s.loops l)
    (fine : ¬ e.Takes l) : Forwards n l s e s' := by
  refine forwards_of_feeds stepped [] ?_ ?_ fine
  · rw [loop]
    exact .of_eq rfl rfl
  · rw [bus, loop]
    rfl

/-- A step inside one loop is nothing to the others. -/
theorem forwards_of_loop (stepped : s.step n e = some s') {l' : ℕ} {loop : NetLoop}
    (loops : s'.loops = Function.update s.loops l' loop)
    (elsewhere : l ≠ l' → ¬ e.Takes l)
    (inside : l = l' → s'.loops l = loop → Forwards n l s e s') : Forwards n l s e s' := by
  by_cases this : l = l'
  · refine inside this ?_
    rw [loops, this, Function.update_self]
  · refine forwards_of_same stepped ?_ (elsewhere this)
    rw [loops, Function.update_of_ne this]

/-- A step inside one loop that leaves its channel alone. -/
theorem forwards_inside (stepped : s.step n e = some s') {l' : ℕ} {loop : NetLoop}
    (loops : s'.loops = Function.update s.loops l' loop) {read : List SQEntry}
    (feeds : (s.loops l').engine.Feeds loop.engine [] read)
    (same : loop.reqBuss = (s.loops l').reqBuss) (fine : ¬ e.Takes l) :
    Forwards n l s e s' := by
  refine forwards_of_loop stepped loops (fun _ => fine) fun this here => ?_
  subst this
  refine forwards_of_feeds stepped read ?_ ?_ fine
  · rw [here]
    exact feeds
  · rw [bus, here]
    exact same

/-- A request is sent to a loop. -/
theorem forwards_send (stepped : s.step n e = some s') {l' : ℕ} {req : SubSqeRequest}
    (loops : s'.loops = (s.pushRequest l' req).loops) (fine : ¬ e.Takes l) :
    Forwards n l s e s' := by
  refine forwards_of_loop stepped loops (fun _ => fine) fun this here => ?_
  subst this
  have grown : s'.bus l = s.bus l ++ [req] := by
    rw [bus, here]
    rfl
  have still : s'.inflight l = s.inflight l := by
    rw [inflight, here]
    rfl
  refine ⟨[], [], ?_, ?_, .of_not_takes fine⟩
  · rw [appends_of_length_le stepped (by rw [still]), here]
    simp [NetLoop.engine]
  · rw [appends_of_append stepped grown, grown]
    simp

/-- A request is taken from the channel. -/
theorem forwards_request {l' reads : ℕ} {spec : UInt64}
    (stepped : s.step n (.request l' spec reads) = some s')
    (done : s.requestCase l' spec reads = some s') :
    Forwards n l s (.request l' spec reads) s' := by
  obtain ⟨req, rest, err, engine, -, head, queued, ⟨loops, -⟩, -⟩ := requestCase_cases done
  refine forwards_of_loop stepped loops (fun other takes => other takes.symm)
    fun this here => ?_
  subst this
  have after : (s'.loops l).engine = engine := by
    rw [here]
    rfl
  have taken : (s.bus l).flatMap SubSqeRequest.tags ++
      (appends (step n) (bus l) s (.request l spec reads)).flatMap SubSqeRequest.tags =
        req.tags ++ (s'.bus l).flatMap SubSqeRequest.tags := by
    have shorter : s'.bus l = rest := by
      rw [bus, here]
    rw [appends_of_length_le stepped (by rw [shorter, bus, head]; exact Nat.le_succ _), shorter,
      bus, head]
    simp
  have fed : ∀ {sqes read : List SQEntry}, (s.loops l).engine.Feeds engine sqes read →
      (s.loops l).engine.sq.pending.map Tag.of ++ sqes.map Tag.of =
        (appends (step n) (inflight l) s (.request l spec reads)).map Tag.of ++
          (s'.loops l).engine.sq.pending.map Tag.of := by
    intro sqes read feeds
    have grown : s'.inflight l = s.inflight l ++ read := by
      rw [inflight, after]
      exact feeds.inflight
    rw [appends_of_append stepped grown, after, ← List.map_append, ← List.map_append, feeds.pending]
  have rejects : Rejects l s (.request l spec reads) ↔ err ≠ none := by
    constructor
    · rintro ⟨-, req', here', err', e', failed⟩
      rw [bus, head] at here'
      cases here'
      rw [queued] at failed
      cases failed
      simp
    · intro failed
      obtain ⟨err', rfl⟩ := Option.ne_none_iff_exists'.mp failed
      exact ⟨rfl, req, by rw [bus, head]; rfl, err', engine, queued⟩
  rcases NetLoop.queueRequest_feeds queued with
    ⟨full, rfl, rfl⟩ | ⟨timed, rfl, one, rfl, sqe, tag, feeds⟩ |
      ⟨rfl, sqes, read, feeds, tags, -⟩
  · refine ⟨[], req.tags, fed (.of_eq rfl rfl), taken, .lost (rejects.mpr (by simp)) ?_⟩
    rintro ⟨-, -, -, one⟩
    omega
  · refine ⟨[Tag.of sqe], req.tags, fed feeds, taken, ?_⟩
    have both : req.tags = [Tag.of sqe, Tag.linkTimeout] := by
      rw [SubSqeRequest.tags, if_neg timed, tag]
    rw [both]
    refine .half (rejects.mpr (by simp)) ⟨rfl, rfl, ⟨req, ?_, timed⟩, one⟩ ?_
    · rw [bus, head]
      rfl
    · rw [tag]
      exact isLinked_or _
  · refine ⟨sqes.map Tag.of, req.tags, fed feeds, taken, ?_⟩
    rw [tags]
    refine .whole (fun bad => rejects.mp bad rfl) ?_ (Or.inr ⟨req, ?_, rfl⟩)
    · rintro ⟨-, rfl, ⟨req', here', timed⟩, one⟩
      rw [bus, head] at here'
      cases here'
      cases (NetLoop.queueRequest_of_one timed one queued).1
    · rw [bus, head]
      exact List.mem_cons_self

theorem step_forwards (stepped : s.step n e = some s') (l : ℕ) : Forwards n l s e s' := by
  obtain ⟨-, transition⟩ := step_transition stepped
  cases transition with
  | @draw k args here =>
      obtain ⟨loops, -, -⟩ := s.loops_drawNonce k args
      exact forwards_of_same stepped (by rw [loops]) id
  | send here opened => exact forwards_send stepped rfl id
  | sendCancel here opened => exact forwards_send stepped rfl id
  | request lt done => exact forwards_request stepped done
  | signal lt done =>
      obtain ⟨taken, -, ⟨-, rfl⟩ | ⟨pc, idle, flag, engine, -, -, -, submitted, rfl⟩⟩ :=
        signalCase_cases done
      · exact forwards_of_same stepped rfl id
      · obtain ⟨read, feeds⟩ := NetLoop.feeds_submitCase submitted
        exact forwards_inside stepped rfl ⟨feeds.inflight, feeds.pending⟩ rfl id
  | consumer lt done =>
      obtain ⟨sq, inflight, -, -⟩ := Engine.consumerStep_entries done
      exact forwards_inside stepped rfl (.of_eq sq inflight) rfl id
  | dispatch lt done =>
      obtain ⟨cqe, engine, took, ⟨-, rfl⟩ | ⟨-, k, -, rfl⟩ | ⟨-, -, rfl⟩⟩ := dispatchOne_cases done
      · obtain ⟨sq, inflight, -⟩ := Engine.take_entries took
        exact forwards_inside stepped rfl (.of_eq sq inflight) rfl id
      · obtain ⟨sq, inflight, -⟩ := Engine.take_entries took
        exact forwards_inside stepped rfl (.of_eq sq inflight) rfl id
      · exact forwards_of_same stepped rfl id
  | @kernel l' event engine lt done =>
      refine forwards_of_loop stepped rfl (fun _ => id) fun this here => ?_
      subst this
      obtain ⟨read, reads, pending⟩ := Engine.feeds_kernelStep done
      refine forwards_of_read stepped read ?_ ?_ ?_ id
      · rw [inflight, inflight, here]
        exact reads
      · rw [here]
        exact pending
      · rw [bus, here]
        rfl
  | @stop event o done =>
      have feeds : (s.loops o.loop).shell.engine.Feeds o.shell.engine [] [] := by
        rcases stopStep_engine done with same | ⟨pc, idle, outside, moved⟩
        · rw [same]
          exact .of_eq rfl rfl
        · rw [moved]
          exact .of_eq rfl rfl
      exact forwards_inside stepped rfl feeds rfl id
  | _ => exact forwards_of_same stepped rfl id

/-- Two sublists in a row are the whole exactly if both are. -/
theorem sublist_eq_iff {α : Type*} {xs ys zs : List α} (first : xs.Sublist ys)
    (second : ys.Sublist zs) : xs = zs ↔ xs = ys ∧ ys = zs := by
  constructor
  · rintro rfl
    have same : xs = ys := first.antisymm second
    exact ⟨same, same.symm⟩
  · rintro ⟨rfl, rfl⟩
    rfl

theorem order_of_path {s₀ : NetReactor} (empty : s₀.underway l = [])
    {p : List (NetReactor × NetEvent)} (path : Path (step n) s₀ p s) :
    (readTags n l p ++ s.underway l).Sublist (sentTags n l p) ∧
      (readTags n l p ++ s.underway l = sentTags n l p ↔ ∀ x ∈ p, ¬ Rejects l x.1 x.2) := by
  induction path with
  | nil =>
      rw [empty]
      exact ⟨List.Sublist.slnil, iff_of_true rfl fun x mem => by cases mem⟩
  | @snoc p s s' e before stepped ih =>
      obtain ⟨sub, exactly⟩ := ih
      obtain ⟨queued, taken, pending, channel, outcome⟩ := step_forwards stepped l
      -- What is there now, what would be there if all that was taken had been queued, and all
      -- that was sent.
      let kept := readTags n l p ++ (s.loops l).engine.sq.pending.map Tag.of
      let rest := (s'.bus l).flatMap SubSqeRequest.tags
      let more := (appends (step n) (bus l) s e).flatMap SubSqeRequest.tags
      have now : readTags n l (p ++ [(s, e)]) ++ s'.underway l = kept ++ (queued ++ rest) := by
        show (log _ (p ++ [(s, e)])).map Tag.of ++ (_ ++ rest) = _ ++ _ ++ _
        rw [log_snoc, List.map_append, List.append_assoc, List.append_assoc,
          ← List.append_assoc _ _ rest, ← pending, List.append_assoc]
        rfl
      have full : kept ++ (taken ++ rest) = readTags n l p ++ s.underway l ++ more := by
        rw [← channel]
        simp only [kept, more, underway, List.append_assoc]
      have sent : sentTags n l (p ++ [(s, e)]) = sentTags n l p ++ more := by
        rw [sentTags, log_snoc, List.flatMap_append]
        rfl
      have first : (kept ++ (queued ++ rest)).Sublist (kept ++ (taken ++ rest)) :=
        (List.append_sublist_append_left _).mpr
          ((List.append_sublist_append_right _).mpr outcome.sublist)
      have second : (kept ++ (taken ++ rest)).Sublist (sentTags n l p ++ more) := by
        rw [full]
        exact (List.append_sublist_append_right _).mpr sub
      rw [now, sent]
      refine ⟨first.trans second, (sublist_eq_iff first second).trans ?_⟩
      rw [List.append_cancel_left_eq, List.append_cancel_right_eq, outcome.eq_iff, full,
        List.append_cancel_right_eq, exactly]
      simp only [List.mem_append, List.mem_singleton, or_imp, forall_and, forall_eq]
      exact and_comm

/-- **The kernel reads the SQEs of a loop in the order in which their requests were sent to it.**
In every state of every run, what the kernel has read from the ring, then what is in the
submission queue and then what is in the channel is what was sent to the loop, with no change of
order and nothing twice; and nothing is missing exactly if no request has found the submission
queue full. -/
theorem net_requests_read_in_order (n : ℕ) (some_loop : 0 < n) (rings : ℕ → ReactorRing true)
    {p : List (NetReactor × NetEvent)} {s : NetReactor}
    (path : Path (step n) (start n some_loop rings) p s) (l : ℕ) :
    (readTags n l p ++ s.underway l).Sublist (sentTags n l p) ∧
      (readTags n l p ++ s.underway l = sentTags n l p ↔ ∀ x ∈ p, ¬ Rejects l x.1 x.2) := by
  refine order_of_path ?_ path
  show (rings l).ring.sqRing.pending.map Tag.of ++ _ = _
  rw [(rings l).sq_empty]
  rfl

/-- Two requests for one descriptor, of which the kernel has read one. -/
theorem net_requests_read_in_order_two_queued :
    ∃ p s, Path (step 1) (start 1 Nat.one_pos (twoSlots true)) p s ∧
      readTags 1 0 p = [{ flags := 0, userData := packRequestID 3 1 }] ∧
      s.underway 0 = [{ flags := 0, userData := packRequestID 3 2 }] ∧
      (readTags 1 0 p ++ s.underway 0).Sublist (sentTags 1 0 p) :=
  ⟨_, _, path_record (twoQueued 1) rfl, rfl, rfl,
    (net_requests_read_in_order 1 Nat.one_pos (twoSlots true)
      (path_record (twoQueued 1) rfl) 0).1⟩

/-! ## Links -/

/-- In the submission queue of every loop, behind every linked SQE stands a link timeout. -/
def LinksFollowed (n : ℕ) (s : NetReactor) : Prop :=
  ∀ l < n, Followed ((s.loops l).engine.sq.pending.map Tag.of)

/-- The requests in the channels ask for no links. -/
def PlainBus (s : NetReactor) : Prop := ∀ l, ∀ req ∈ s.bus l, req.flags = 0

theorem plainBus_of_loop (plain : PlainBus s) {l' : ℕ} {loop : NetLoop}
    (loops : s'.loops = Function.update s.loops l' loop)
    (inside : ∀ req ∈ loop.reqBuss, req ∈ s.bus l' ∨ req.flags = 0) : PlainBus s' := by
  intro l req mem
  rw [bus, loops] at mem
  by_cases this : l = l'
  · subst this
    rw [Function.update_self] at mem
    exact (inside req mem).elim (plain l req) id
  · rw [Function.update_of_ne this] at mem
    exact plain l req mem

theorem plainBus_step (plain : PlainBus s) (stepped : s.step n e = some s') : PlainBus s' := by
  have sent : ∀ {l' : ℕ} {req : SubSqeRequest} {t : NetReactor}, req.flags = 0 →
      t.loops = (s.pushRequest l' req).loops → PlainBus t := by
    intro l' req t zero loops
    refine plainBus_of_loop plain loops fun req' mem => ?_
    rcases List.mem_append.mp mem with old | new
    · exact Or.inl old
    · rw [List.mem_singleton.mp new]
      exact Or.inr zero
  obtain ⟨-, transition⟩ := step_transition stepped
  cases transition with
  | @draw k args here =>
      obtain ⟨loops, -, -⟩ := s.loops_drawNonce k args
      intro l req mem
      rw [bus, loops] at mem
      exact plain l req mem
  | send here opened => exact sent rfl rfl
  | sendCancel here opened => exact sent rfl rfl
  | request lt done =>
      obtain ⟨req, rest, err, engine, -, head, -, ⟨loops, -⟩, -⟩ := requestCase_cases done
      refine plainBus_of_loop plain loops fun req' mem => Or.inl ?_
      rw [bus, head]
      exact List.mem_cons_of_mem _ mem
  | signal lt done =>
      obtain ⟨-, -, ⟨-, rfl⟩ | ⟨pc, idle, flag, engine, -, -, -, -, rfl⟩⟩ := signalCase_cases done
      · exact plain
      · exact plainBus_of_loop plain rfl fun _ mem => Or.inl mem
  | dispatch lt done =>
      obtain ⟨cqe, engine, -, ⟨-, rfl⟩ | ⟨-, k, -, rfl⟩ | ⟨-, -, rfl⟩⟩ := dispatchOne_cases done
      · exact plainBus_of_loop plain rfl fun _ mem => Or.inl mem
      · exact plainBus_of_loop plain rfl fun _ mem => Or.inl mem
      · exact plain
  | consumer lt done => exact plainBus_of_loop plain rfl fun _ mem => Or.inl mem
  | kernel lt done => exact plainBus_of_loop plain rfl fun _ mem => Or.inl mem
  | stop done => exact plainBus_of_loop plain rfl fun _ mem => Or.inl mem
  | _ => exact plain

/-- What is queued without splitting a request is followed. -/
theorem Outcome.followed (plain : PlainBus s) {queued taken : List Tag}
    (outcome : Outcome l s e queued taken) (plenty : ¬ Splits l s e) : Followed queued := by
  cases outcome with
  | whole fine plenty source =>
      rcases source with rfl | ⟨req, mem, rfl⟩
      · exact followed_nil
      · exact SubSqeRequest.followed_tags (plain l req mem)
  | lost rejects plenty => exact followed_nil
  | half rejects splits linked => exact absurd splits plenty

theorem linksFollowed_step (plain : PlainBus s) (good : LinksFollowed n s)
    (plenty : ∀ l < n, ¬ Splits l s e) (stepped : s.step n e = some s') :
    LinksFollowed n s' := by
  intro l lt
  obtain ⟨queued, taken, pending, -, outcome⟩ := step_forwards stepped l
  have whole := (good l lt).append (outcome.followed plain (plenty l lt))
  rw [pending] at whole
  exact whole.of_append

/-- A split request leaves a linked SQE with nothing behind it. -/
theorem not_linksFollowed_of_splits {l : ℕ} (lt : l < n) (splits : Splits l s e)
    (stepped : s.step n e = some s') : ¬ LinksFollowed n s' := by
  intro good
  obtain ⟨-, transition⟩ := step_transition stepped
  cases transition with
  | request lt' done =>
      obtain ⟨rfl, rfl, ⟨req, here, timed⟩, one⟩ := splits
      obtain ⟨req', rest, err, engine, -, head, queued, ⟨loops, -⟩, -⟩ := requestCase_cases done
      rw [bus, head] at here
      cases here
      obtain ⟨-, sqe, tag, feeds⟩ := NetLoop.queueRequest_of_one timed one queued
      refine (good _ lt).2 (Tag.of sqe) ?_ (tag ▸ isLinked_or _)
      rw [loops, Function.update_self]
      show (engine.sq.pending.map Tag.of).getLast? = some (Tag.of sqe)
      rw [← List.nil_append engine.sq.pending, ← feeds.pending, List.map_append]
      exact List.getLast?_concat
  | _ => exact splits

/-- **When a link timeout is missing.**  In every state of a run each linked SQE is followed by a
link timeout, exactly if the publisher never takes a request with a timeout while there is just
one free slot and the SQ thread reads nothing in between. -/
theorem net_links_followed_iff (n : ℕ) (some_loop : 0 < n) (rings : ℕ → ReactorRing true)
    {p : List (NetReactor × NetEvent)} {s : NetReactor}
    (path : Path (step n) (start n some_loop rings) p s) :
    (∀ t ∈ visited p s, t.LinksFollowed n) ↔ ∀ x ∈ p, ∀ l < n, ¬ Splits l x.1 x.2 := by
  refine path.exact (fun s => PlainBus s ∧ LinksFollowed n s) (fun _ => True) (LinksFollowed n)
    (fun _ _ => True) (fun s e => ∀ l < n, ¬ Splits l s e) ?_ (fun _ inv _ => inv.2) ?_ ?_
    (fun _ _ => trivial) fun _ _ => trivial
  · refine ⟨fun l req mem => (List.not_mem_nil mem).elim, fun l _ => ?_⟩
    show Followed ((rings l).ring.sqRing.pending.map Tag.of)
    rw [(rings l).sq_empty]
    exact followed_nil
  · intro s e s' inv _ _ _ plenty stepped
    exact ⟨plainBus_step inv.1 stepped, linksFollowed_step inv.1 inv.2 plenty stepped⟩
  · intro s e s' _ _ _ _ split stepped
    push Not at split
    obtain ⟨l, lt, splits⟩ := split
    exact not_linksFollowed_of_splits lt splits stepped

/-- A request without a timeout, and one with a timeout for which one slot is left.  Its operation
is linked to the next request, which the kernel reads behind it. -/
def splitQueued : List NetEvent :=
  [.queue 0 (pingArgs 0), .draw 0, .store 0, .send 0, .queue 1 (pingArgs 1), .draw 1, .store 1,
    .send 1, .queue 2 (pingArgs 0), .draw 2, .store 2, .send 2, .request 0 0 0, .request 0 0 0,
    .signal 0 (.consumed 1), .request 0 0 0]

theorem net_links_followed_iff_split :
    ∃ p s, Path (step 1) (start 1 Nat.one_pos (twoSlots true)) p s ∧
      (s.loops 0).engine.sq.pending.map Tag.of =
        [{ flags := sqeIOLinkFlag, userData := packRequestID 3 2 },
          { flags := 0, userData := packRequestID 3 3 }] ∧
      ¬ ∀ x ∈ p, ∀ l < 1, ¬ Splits l x.1 x.2 := by
  have path : Path (step 1) (start 1 Nat.one_pos (twoSlots true)) _ _ :=
    path_record splitQueued rfl
  refine ⟨_, _, path, rfl, fun plenty => ?_⟩
  have good := (net_links_followed_iff 1 Nat.one_pos (twoSlots true) path).mpr plenty _
    (mem_visited_last _ _) 0 Nat.one_pos
  have next := (List.isChain_cons.mp good.1).1 { flags := 0, userData := packRequestID 3 3 } rfl
    (by decide)
  exact absurd next (by decide)

/-! ## The way back -/

/-- The completions of requests; those of link timeouts and cancels have no callback. -/
def ofRequests (cqes : List CQEvent) : List CQEvent :=
  cqes.filter fun cqe => ¬ Reserved cqe.userData

/-- The completions of loop `l` that were posted and not dispatched. -/
def completions (l : ℕ) (s : NetReactor) : List CQEvent := (s.loops l).engine.cqes

/-- What the kernel has posted on the ring of loop `l` in a run. -/
def posted (n l : ℕ) (p : List (NetReactor × NetEvent)) : List CQEvent :=
  log (appends (step n) (completions l)) p

/-- The callbacks that a step of the consumer of loop `l` invokes. -/
def invokes (n l : ℕ) (s : NetReactor) (e : NetEvent) : List (ℕ × CQEvent) :=
  match e with
  | .dispatch l' => if l' = l then appends (step n) invoked s e else []
  | _ => []

theorem answers_of_same (stepped : s.step n e = some s') (none : invokes n l s e = [])
    (same : s'.completions l = s.completions l) :
    (invokes n l s e).map Prod.snd ++ ofRequests (s'.completions l) =
      ofRequests (s.completions l) ++ ofRequests (appends (step n) (completions l) s e) := by
  rw [appends_of_length_le stepped (by rw [same]), none, same]
  simp [ofRequests]

theorem completions_of_loops {t : NetReactor} {engine : Engine}
    (loops : t.loops = Function.update s.loops l ((s.loops l).withEngine engine)) :
    t.completions l = engine.cqes := by
  rw [completions, loops, Function.update_self]
  rfl

/-- A dispatch takes the oldest completion, and invokes the callback if it is one of a request. -/
theorem dispatch_answers (stepped : s.step n (.dispatch l) = some s')
    (done : s.dispatchOne l = some s') :
    (invokes n l s (.dispatch l)).map Prod.snd ++ ofRequests (s'.completions l) =
      ofRequests (s.completions l) ++
        ofRequests (appends (step n) (completions l) s (.dispatch l)) := by
  have here : invokes n l s (.dispatch l) = appends (step n) invoked s (.dispatch l) := if_pos rfl
  obtain ⟨cqe, engine, taken, cases⟩ := dispatchOne_cases done
  obtain ⟨-, -, head⟩ := Engine.take_entries taken
  have shorter : s'.completions l = engine.cqes →
      appends (step n) (completions l) s (.dispatch l) = [] := by
    intro after
    refine appends_of_length_le stepped ?_
    rw [after, completions, head]
    exact Nat.le_succ _
  rcases cases with ⟨reserved, rfl⟩ | ⟨request, k, -, rfl⟩ | ⟨-, -, rfl⟩
  · have after := completions_of_loops (t := s.setLoop l ((s.loops l).withEngine engine)) rfl
    rw [here, shorter after, after, appends_of_length_le stepped (Nat.le_refl _), completions, head]
    simp [ofRequests, reserved]
  · have after := completions_of_loops
      (t := { s.setLoop l ((s.loops l).withEngine engine) with
        registry := (s.registry.pop cqe.userData).2
        invoked := s.invoked ++ [(k, cqe)] }) rfl
    rw [here, shorter after, after, appends_of_append stepped rfl, completions, head]
    simp [ofRequests, request]
  · refine answers_of_same stepped ?_ rfl
    rw [here]
    exact appends_of_length_le stepped (Nat.le_refl _)

/-- **One step on the way back.** -/
theorem step_answers (stepped : s.step n e = some s') (l : ℕ) :
    (invokes n l s e).map Prod.snd ++ ofRequests (s'.completions l) =
      ofRequests (s.completions l) ++ ofRequests (appends (step n) (completions l) s e) := by
  have quiet : ¬ e.Touches l → invokes n l s e = [] := by
    intro other
    unfold invokes
    split
    · exact if_neg other
    · rfl
  have dispatched : e = .dispatch l →
      (invokes n l s e).map Prod.snd ++ ofRequests (s'.completions l) =
        ofRequests (s.completions l) ++ ofRequests (appends (step n) (completions l) s e) := by
    rintro rfl
    obtain ⟨-, transition⟩ := step_transition stepped
    cases transition with
    | dispatch lt done => exact dispatch_answers stepped done
  cases step_entries stepped l with
  | keeps other keeps => exact answers_of_same stepped (quiet other) keeps.cqes
  | queue taken sqes cqes => exact answers_of_same stepped rfl cqes
  | kernel sqes cqes =>
      rw [appends_of_append stepped cqes, completions, cqes, ofRequests, List.filter_append]
      rfl
  | halt loops same => exact dispatched rfl
  | dispatch sqes head outcome => exact dispatched rfl

theorem answers_of_path {s₀ : NetReactor} (empty : s₀.completions l = [])
    {p : List (NetReactor × NetEvent)} (path : Path (step n) s₀ p s) :
    (log (invokes n l) p).map Prod.snd ++ ofRequests (s.completions l) =
      ofRequests (posted n l p) := by
  induction path with
  | nil =>
      rw [empty]
      rfl
  | @snoc p s s' e before stepped ih =>
      have last := step_answers stepped l
      rw [posted, log_snoc, log_snoc, List.map_append, List.append_assoc, last,
        ← List.append_assoc, ih, ofRequests, ofRequests, ofRequests, List.filter_append]
      rfl

/-- **A loop invokes its callbacks in the order in which the kernel has completed their
requests.**  In every state of every run, the completions with which the consumer of the loop has
invoked callbacks, and then those that still wait, are all the completions of requests that the
kernel has posted on its ring. -/
theorem net_callbacks_in_completion_order (n : ℕ) (some_loop : 0 < n)
    (rings : ℕ → ReactorRing true) {p : List (NetReactor × NetEvent)} {s : NetReactor}
    (path : Path (step n) (start n some_loop rings) p s) (l : ℕ) :
    (log (invokes n l) p).map Prod.snd ++ ofRequests (s.completions l) =
      ofRequests (posted n l p) := by
  refine answers_of_path ?_ path
  show (rings l).ring.cqRing.ready.drop 0 = []
  rw [(rings l).cq_empty]
  rfl

/-- Two requests that complete in the other order, one of them dispatched. -/
def crossed : List NetEvent :=
  twoQueued 2 ++
    [.kernel 0 (.complete 1 8 0), .kernel 0 (.complete 0 7 0), .consumer 0 .wait,
      .signal 0 (.consumed 0), .consumer 0 .peek, .dispatch 0]

theorem net_callbacks_in_completion_order_crossed :
    ∃ p s, Path (step 1) (start 1 Nat.one_pos (twoSlots true)) p s ∧
      (log (invokes 1 0) p).map (fun x => (x.1, x.2.res)) = [(1, 8)] ∧
      (s.completions 0).map CQEvent.res = [7] ∧
      (log (invokes 1 0) p).map Prod.snd ++ ofRequests (s.completions 0) =
        ofRequests (posted 1 0 p) :=
  ⟨_, _, path_record crossed rfl, rfl, rfl,
    net_callbacks_in_completion_order 1 Nat.one_pos (twoSlots true) (path_record crossed rfl) 0⟩

end NetReactor

end GoUring.Reactor
