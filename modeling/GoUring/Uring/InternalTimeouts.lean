import GoUring.Uring.TimedWait

/-!
# Internal timeouts stay internal, except in batches

A caller of a ring without the ext-arg feature should see nothing of the timeouts that
`WaitCQEventsWithTimeout` queues: no pointer to one of their completions, and, retired by
the caller, just the user's completions in order.

The waits keep to that.  `peekCQEvent` goes past internal completions one by one and
retires them itself, so what it finds is the user's, and it never goes past a completion
that the caller still has a pointer to.  `PeekCQEventBatch` does not look at the user data
at all.  So the timeouts stay hidden exactly if no batch ever covers one
(`internal_timeouts_hidden_iff`).
-/

namespace GoUring.Uring

open Runs

/-- The user's completions among those given, in order. -/
def users (xs : List (CQEvent × Origin)) : List CQEvent :=
  (xs.filter fun x => x.2 = .user).map Prod.fst

theorem users_append (xs ys : List (CQEvent × Origin)) :
    users (xs ++ ys) = users xs ++ users ys := by
  rw [users, List.filter_append, List.map_append]
  rfl

theorem users_eq_map {xs : List (CQEvent × Origin)} (all : ∀ x ∈ xs, x.2 = .user) :
    users xs = xs.map Prod.fst := by
  rw [users, List.filter_eq_self.mpr fun x mem => decide_eq_true (all x mem)]

/-- The completion is not one of the library's timeouts. -/
def CQEvent.IsUsers (cqe : CQEvent) : Prop := cqe.userData ≠ libUserDataTimeout

instance (cqe : CQEvent) : Decidable cqe.IsUsers :=
  inferInstanceAs (Decidable (cqe.userData ≠ libUserDataTimeout))

namespace Inbox

variable {b b' : Inbox} {batch waiter : Option ℕ}

/-- **The timeouts are hidden**: the caller was given none, and has retired the user's
completions, in order and each once, as far as they are not in the queue any more. -/
structure Hidden (b : Inbox) : Prop where
  handed : ∀ cqe ∈ b.handed, cqe.IsUsers
  stream : users b.posted = b.consumed ++ users b.completions

/-- What the caller has a pointer to is the user's. -/
structure Kept (b : Inbox) : Prop extends Sound b, Hidden b where
  front : ∀ cqe ∈ b.ready.take b.given, cqe.IsUsers

theorem Sound.origin (sound : b.Sound) {x : CQEvent × Origin} (mem : x ∈ b.completions) :
    x.1.IsUsers ↔ x.2 = .user := by
  have tagged : x.1.userData = libUserDataTimeout ↔ x.2 ≠ .user :=
    sound.tagged x (sound.last.subset mem)
  rw [CQEvent.IsUsers, Ne, tagged, not_not]

/-- Retiring the user's completions takes them off the stream. -/
theorem Sound.users_take (sound : b.Sound) {n : ℕ}
    (user : ∀ cqe ∈ b.ready.take n, cqe.IsUsers) :
    users b.completions = b.ready.take n ++ users (b.completions.drop n) := by
  have shown : (b.completions.take n).map Prod.fst = b.ready.take n := by
    rw [List.map_take, sound.aligned]
  conv_lhs => rw [← List.take_append_drop n b.completions]
  rw [users_append, users_eq_map, shown]
  intro x mem
  refine (sound.origin (List.mem_of_mem_take mem)).mp (user x.1 ?_)
  rw [← shown]
  exact List.mem_map_of_mem mem

/-- Retiring a timeout does not change the stream. -/
theorem Sound.users_skip (sound : b.Sound) {cqe : CQEvent} {rest : List CQEvent}
    (front : b.ready = cqe :: rest) (internal : ¬ cqe.IsUsers) :
    users (b.completions.drop 1) = users b.completions := by
  obtain ⟨origin, later, split⟩ := sound.head front
  have timer : ¬ origin = .user := fun user => internal
    ((sound.origin (x := (cqe, origin)) (by rw [split]; exact List.mem_cons_self)).mpr user)
  rw [split, users, users, List.filter_cons_of_neg (by simpa using timer)]
  rfl

/-- The library goes past nothing that the caller has a pointer to. -/
theorem Kept.skip (kept : b.Kept) {cqe : CQEvent} {rest : List CQEvent}
    (front : b.ready = cqe :: rest) (internal : ¬ cqe.IsUsers) : b.skip.Kept := by
  have none : b.given = 0 := by
    by_contra some
    obtain ⟨n, more⟩ := Nat.exists_eq_succ_of_ne_zero some
    refine internal (kept.front cqe ?_)
    rw [front, more]
    exact List.mem_cons_self
  refine { kept.toSound.skip with handed := kept.handed, stream := ?_, front := ?_ }
  · exact kept.stream.trans (congrArg _ (kept.toSound.users_skip front internal).symm)
  · show ∀ cqe' ∈ (b.ready.drop 1).take (b.given - 1), cqe'.IsUsers
    rw [none]
    intro cqe' mem
    cases mem

theorem Kept.give (kept : b.Kept) {m : ℕ} (le : m ≤ b.ready.length)
    (user : ∀ cqe ∈ b.ready.take m, cqe.IsUsers) (caller : Option ℕ) (err : Option RingError)
    (cause : Option Origin) : (b.give m caller err cause).Kept := by
  refine { kept.toSound.give le caller err cause with
    handed := ?_, stream := kept.stream, front := ?_ }
  · intro cqe mem
    rcases List.mem_append.mp mem with old | new
    · exact kept.handed cqe old
    · exact user cqe new
  · intro cqe mem
    rcases le_total b.given m with less | more
    · rw [Inbox.give, max_eq_right less] at mem
      exact user cqe mem
    · rw [Inbox.give, max_eq_left more] at mem
      exact kept.front cqe mem

/-- **A step keeps the timeouts hidden** if a batch covers none. -/
theorem Kept.move (kept : b.Kept) (move : b.Move batch waiter b')
    (user : ∀ m ∈ batch, ∀ cqe ∈ b.ready.take m, cqe.IsUsers) : b'.Kept := by
  have sound := kept.toSound.move move
  cases move with
  | same => exact kept
  | @post x tagged =>
      refine { sound with handed := kept.handed, stream := ?_, front := ?_ }
      · rw [users_append, users_append, kept.stream, List.append_assoc]
      · show ∀ cqe ∈ (b.ready ++ [x.1]).take b.given, cqe.IsUsers
        rw [List.take_append_of_le_length kept.given_le]
        exact kept.front
  | skip front internal => exact kept.skip front (not_not.mpr internal)
  | expire front internal error =>
      exact (kept.skip front (not_not.mpr internal)).give (Nat.zero_le _)
        (fun cqe mem => by cases mem) _ _ _
  | @give m caller err le how other =>
      exact kept.give le (how.elim (fun returned => user m returned) id) _ _ _
  | @retire n le =>
      have mine : ∀ cqe ∈ b.ready.take n, cqe.IsUsers := fun cqe mem =>
        kept.front cqe (List.take_subset_take_left _ le mem)
      refine { sound with handed := kept.handed, stream := ?_, front := ?_ }
      · rw [kept.stream, kept.toSound.users_take mine, List.append_assoc]
      · show ∀ cqe ∈ (b.ready.drop n).take (b.given - n), cqe.IsUsers
        rw [← List.drop_take]
        exact fun cqe mem => kept.front cqe (List.mem_of_mem_drop mem)

end Inbox

namespace TimedRun

variable {s s' : TimedRun} {e : TimedEvent}

/-- A batch that the step returns covers none of the library's timeouts. -/
def SparesTimeouts (s : TimedRun) (e : TimedEvent) : Prop :=
  ∀ m ∈ s.batch e, ∀ cqe ∈ s.consumer.ready.take m, cqe.IsUsers

instance (s : TimedRun) (e : TimedEvent) : Decidable (s.SparesTimeouts e) :=
  inferInstanceAs (Decidable (∀ m ∈ s.batch e, ∀ cqe ∈ s.consumer.ready.take m, cqe.IsUsers))

/-- A batch is handed out as it is. -/
theorem handed_batch {m : ℕ} (returned : s.batch e = some m) (stepped : s.step e = some s') :
    s'.handed = s.handed ++ s.consumer.ready.take m := by
  have events (len : ℕ) : (s.consumer.peekBatch len).events =
      s.consumer.ready.take (min (len % 2 ^ 32) s.consumer.ready.length) := by
    rw [Consumer.events_eq_take, length_buff_peekBatch]
    rfl
  cases e with
  | peekBatch len =>
      simp only [batch] at returned
      split at returned
      · next here =>
        cases returned
        simp only [step, here] at stepped
        split at stepped
        · -- Nothing is returned yet, and there is nothing to return.
          next empty =>
          cases stepped
          rw [Bool.and_eq_true, List.isEmpty_iff] at empty
          have none := congrArg List.length empty.1
          rw [length_buff_peekBatch, List.length_nil] at none
          rw [none, List.take_zero, List.append_nil]
          rfl
        · cases stepped
          exact congrArg (s.handed ++ ·) (events len)
      · cases returned
  | flushed =>
      simp only [batch] at returned
      split at returned
      · next len here =>
        cases returned
        simp only [step, here] at stepped
        cases stepped
        exact congrArg (s.handed ++ ·) (events len)
      · cases returned
  | _ => cases returned

/-- A batch with a timeout in it is a timeout handed out. -/
theorem not_hidden_of_batch (covers : ¬ s.SparesTimeouts e) (stepped : s.step e = some s') :
    ¬ s'.inbox.Hidden := by
  intro hidden
  refine covers fun m returned cqe mem => hidden.handed cqe ?_
  show cqe ∈ s'.handed
  rw [handed_batch returned stepped]
  exact List.mem_append_right _ mem

end TimedRun

/-- **When internal timeouts stay internal.**  On a ring without the ext-arg feature, along
every run: no completion of the library's timeouts is ever handed out, and what the caller
has retired is the user's completions in order, each once, less those in the queue, if and
only if no batch of `PeekCQEventBatch` covers a timeout. -/
theorem internal_timeouts_hidden_iff {ring : Ring}
    (noExtArg : ring.params.extArgFeature = false)
    (unused : ring.sqRing.pending = [] ∧ ring.cqRing.ready = [])
    {p : List (TimedRun × TimedEvent)} {s : TimedRun}
    (path : Path TimedRun.step (TimedRun.start ring) p s) :
    (∀ t ∈ visited p s, t.inbox.Hidden) ↔ ∀ x ∈ p, x.1.SparesTimeouts x.2 := by
  have base := TimedRun.base_start noExtArg unused
  refine path.exact (fun s => s.Base ∧ s.inbox.Kept) (fun _ => True) (fun s => s.inbox.Hidden)
    (fun _ _ => True) TimedRun.SparesTimeouts ⟨base, ?_⟩ (fun s inv _ => inv.2.toHidden) ?_ ?_
    (fun _ _ => trivial) fun _ _ => trivial
  · exact { base.inbox with
      handed := fun cqe mem => (by cases mem), stream := rfl,
      front := fun cqe mem => (by cases mem) }
  · rintro s e s' ⟨base, kept⟩ - - - spares stepped
    exact ⟨base.step stepped, kept.move (base.moves stepped).inbox spares⟩
  · rintro s e s' - - - - covers stepped
    exact TimedRun.not_hidden_of_batch covers stepped

/-- The ring of `wrappingRing`, without the ext-arg feature. -/
def plainRing : Ring := { wrappingRing with params := { flags := 0, features := 0 } }

/-- A request, and a timed wait that returns its completion. -/
def servedWait : List TimedEvent :=
  [.queueSQE nopOp 0 7, .timedWait 1 64, .reserve, .flush, .peek, .decide, .entered (.consumed 2),
    .complete 0 0 0, .peek, .decide, .advance 1]

/-- The law at a run in which the timeout of the wait expires and is skipped, and a batch
covers a completion of the user. -/
theorem internal_timeouts_hidden_iff_skipped :
    ∃ p s, Path TimedRun.step (TimedRun.start plainRing) p s ∧
      s.posted.map (fun x => (x.1.userData, x.2)) =
        [(7, .user), (libUserDataTimeout, .timer 0), (8, .user)] ∧
      s.consumed.map CQEvent.userData = [7, 8] ∧ ∀ t ∈ visited p s, t.inbox.Hidden := by
  have path : Path TimedRun.step (TimedRun.start plainRing) (record TimedRun.step
      (TimedRun.start plainRing) (servedWait ++ [.complete 0 (-62) 0, .wait 0, .peek,
        .queueSQE nopOp 0 8, .submit (.consumed 1), .complete 0 0 0, .peekBatch 128,
        .advance 1])) _ :=
    path_record _ rfl
  exact ⟨_, _, path, rfl, rfl,
    (internal_timeouts_hidden_iff rfl ⟨rfl, rfl⟩ path).mpr (by decide)⟩

/-- **A timeout in a batch.**  The timed wait has returned the user's completion; its
timeout expires, and `PeekCQEventBatch` returns the completion of the timeout. -/
theorem batch_exposes_timeout :
    ∃ p s, Path TimedRun.step (TimedRun.start plainRing) p s ∧
      s.handed.map CQEvent.userData = [7, libUserDataTimeout] ∧ ¬ s.inbox.Hidden := by
  refine ⟨_, _, path_record (servedWait ++ [.complete 0 (-62) 0, .peekBatch 128]) rfl, rfl, ?_⟩
  intro hidden
  exact hidden.handed ⟨libUserDataTimeout, -62, 0⟩ (by decide) rfl

end GoUring.Uring
