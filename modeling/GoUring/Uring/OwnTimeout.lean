import GoUring.Uring.InternalTimeouts

/-!
# Whose timeout a timed wait reports

A timed wait on a ring without the ext-arg feature returns `ETIME` when it finds an
expired timeout of the library at the head of the completion queue.  All these timeouts
carry the same user data, and each outlives the call that queued it: with `Off = 0` the
kernel does not cancel it when something else completes.  So a later wait may find the
timeout of an earlier one, and report that its own time is up.  It does the same with an
expired timeout that the user has queued with that user data.

A run notes for each return of a timed wait whose completion the error was taken from.
The timeouts reported are the waits' own exactly if no timed wait ever finds an expired
timeout at the head of the queue that it has not queued itself (`own_timeout_iff`).
-/

namespace GoUring.Uring

open Runs

/-- The call returned `ETIME`. -/
def TimedReturn.TimedOut (r : TimedReturn) : Prop := ∃ err ∈ r.err, err.is .etime = true

namespace Inbox

variable {b b' : Inbox} {batch waiter : Option ℕ}

/-- **A timed wait reports only its own timeout**: the error comes from the completion of
the timeout that this call has queued. -/
def OwnTimeouts (b : Inbox) : Prop :=
  ∀ r ∈ b.returns, r.TimedOut →
    r.cause = some (.timer r.call) ∧ ∃ x ∈ b.posted, x.2 = .timer r.call

/-- An expired timeout that the timed wait finds at the head of the queue is its own. -/
def FindsOwn (b : Inbox) (waiter : Option ℕ) : Prop :=
  ∀ call ∈ waiter, ∀ x ∈ b.completions.head?,
    x.1.userData = libUserDataTimeout → x.1.error = some .etime → x.2 = .timer call

theorem timedOut_errno {call : ℕ} {errno : Errno} {cause : Option Origin}
    (out : TimedReturn.TimedOut ⟨call, some (.errno errno), cause⟩) : errno = .etime := by
  obtain ⟨_, ⟨⟩, is⟩ := out
  exact beq_iff_eq.mp is

/-- A return that is no timeout, or an own one, is all right. -/
theorem OwnTimeouts.give (own : b.OwnTimeouts) {m : ℕ} {caller : Option ℕ}
    {err : Option RingError} {cause : Option Origin}
    (fine : ∀ call ∈ caller, TimedReturn.TimedOut ⟨call, err, cause⟩ →
      cause = some (.timer call) ∧ ∃ x ∈ b.posted, x.2 = .timer call) :
    (b.give m caller err cause).OwnTimeouts := by
  intro r mem out
  rcases List.mem_append.mp mem with old | new
  · exact own r old out
  · obtain ⟨call, here, rfl⟩ := List.mem_map.mp new
    exact fine call (Option.mem_toList.mp here) out

theorem OwnTimeouts.move (own : b.OwnTimeouts) (sound : b.Sound)
    (move : b.Move batch waiter b') (finds : b.FindsOwn waiter) : b'.OwnTimeouts := by
  cases move with
  | same => exact own
  | post tagged =>
      intro r mem out
      obtain ⟨cause, x, posted, timer⟩ := own r mem out
      exact ⟨cause, x, List.mem_append_left _ posted, timer⟩
  | skip front internal => exact own
  | @expire cqe rest errno front internal error =>
      refine OwnTimeouts.give (b := b.skip) own fun call waits out => ?_
      obtain rfl := timedOut_errno out
      obtain ⟨origin, later, split⟩ := sound.head front
      have mine : origin = .timer call :=
        finds call waits (cqe, origin) (by rw [split]; rfl) internal error
      rw [split, ← mine]
      refine ⟨rfl, (cqe, origin), sound.last.subset ?_, rfl⟩
      rw [split]
      exact List.mem_cons_self
  | give le how other =>
      refine own.give fun call _ out => ?_
      obtain ⟨err, mem, is⟩ := out
      rw [other err mem] at is
      cases is
  | retire le => exact own

end Inbox

namespace TimedRun

variable {s s' : TimedRun} {e : TimedEvent}

/-- If a timed wait looks at the queue in the step and finds an expired timeout at its head,
it is its own. -/
def FindsOwn (s : TimedRun) (e : TimedEvent) : Prop := s.inbox.FindsOwn (s.waiter e)

instance (s : TimedRun) (e : TimedEvent) : Decidable (s.FindsOwn e) :=
  inferInstanceAs (Decidable (∀ call ∈ s.waiter e, ∀ x ∈ s.completions.head?,
    x.1.userData = libUserDataTimeout → x.1.error = some .etime → x.2 = .timer call))

/-- The error of an expired timeout at the head of the queue is returned. -/
theorem returns_expired (base : s.Base) {call : ℕ} {x : CQEvent × Origin} {errno : Errno}
    (waits : s.waiter e = some call) (head : s.completions.head? = some x)
    (internal : x.1.userData = libUserDataTimeout) (error : x.1.error = some errno)
    (stepped : s.step e = some s') :
    ⟨call, some (.errno errno), some x.2⟩ ∈ s'.returns := by
  obtain ⟨later, split⟩ := List.head?_eq_some_iff.mp head
  have front : s.consumer.ready = x.1 :: later.map Prod.fst := by
    rw [← List.map_cons, ← split]
    exact base.inbox.aligned.symm
  cases e with
  | peek =>
      simp only [waiter] at waits
      split at waits
      · next caller params here =>
        simp only [step, here] at stepped
        have turned := s.consumer.turned base.noExtArg
        generalize s.consumer.turn = result at stepped turned
        cases turned with
        | empty nothing =>
            rw [nothing] at front
            cases front
        | skipped there front' internal' fine =>
            cases front.symm.trans front'
            rw [error] at fine
            cases fine
        | expired there front' internal' error' =>
            cases front.symm.trans front'
            rw [error] at error'
            cases error'
            cases stepped
            refine List.mem_append_right _ (List.mem_map.mpr ⟨call, ?_, ?_⟩)
            · rw [waits]
              exact List.mem_singleton_self call
            · rw [head]
              rfl
        | found there front' user =>
            cases front.symm.trans front'
            exact absurd internal user
      · cases waits
  | _ => cases waits

/-- A stranger's timeout at the head of the queue is reported. -/
theorem not_own_of_stranger (base : s.Base) (stranger : ¬ s.FindsOwn e)
    (stepped : s.step e = some s') : ¬ s'.inbox.OwnTimeouts := by
  intro own
  refine stranger fun call waits x head internal error => ?_
  have returned := returns_expired base waits head internal error stepped
  have cause := (own _ returned ⟨_, rfl, rfl⟩).1
  exact Option.some.inj cause

end TimedRun

/-- **When a timed wait reports only its own timeout.**  On a ring without the ext-arg
feature, along every run: each timed wait that returned `ETIME` did so because of the
completion of the timeout that it has queued itself, if and only if no timed wait ever
finds an expired timeout at the head of the completion queue that is another call's, or
that the user has queued with the library's user data. -/
theorem own_timeout_iff {ring : Ring} (noExtArg : ring.params.extArgFeature = false)
    (unused : ring.sqRing.pending = [] ∧ ring.cqRing.ready = [])
    {p : List (TimedRun × TimedEvent)} {s : TimedRun}
    (path : Path TimedRun.step (TimedRun.start ring) p s) :
    (∀ t ∈ visited p s, t.inbox.OwnTimeouts) ↔ ∀ x ∈ p, x.1.FindsOwn x.2 := by
  refine path.exact (fun s => s.Base ∧ s.inbox.OwnTimeouts) (fun _ => True)
    (fun s => s.inbox.OwnTimeouts) (fun _ _ => True) TimedRun.FindsOwn
    ⟨TimedRun.base_start noExtArg unused, fun r mem => (by cases mem)⟩ (fun s inv _ => inv.2) ?_ ?_
    (fun _ _ => trivial) fun _ _ => trivial
  · rintro s e s' ⟨base, own⟩ - - - finds stepped
    exact ⟨base.step stepped, own.move base.inbox (base.moves stepped).inbox finds⟩
  · rintro s e s' ⟨base, -⟩ - - - stranger stepped
    exact TimedRun.not_own_of_stranger base stranger stepped

/-- A timed wait whose own timeout expires. -/
def expiredWait : List TimedEvent :=
  [.timedWait 1 64, .reserve, .flush, .peek, .decide, .entered (.consumed 1), .complete 0 (-62) 0,
    .peek]

/-- The law at a timed wait whose own timeout expires. -/
theorem own_timeout_iff_expired :
    ∃ p s, Path TimedRun.step (TimedRun.start plainRing) p s ∧
      s.returns = [⟨0, some (.errno .etime), some (.timer 0)⟩] ∧
      ∀ t ∈ visited p s, t.inbox.OwnTimeouts := by
  have path : Path TimedRun.step (TimedRun.start plainRing)
      (record TimedRun.step (TimedRun.start plainRing) expiredWait) _ := path_record expiredWait rfl
  exact ⟨_, _, path, rfl, (own_timeout_iff rfl ⟨rfl, rfl⟩ path).mpr (by decide)⟩

/-- **The timeout of an earlier call.**  The first timed wait returns the user's
completion and leaves its timeout behind.  While the second one waits, that timeout
expires, and the second one returns `ETIME` with its own timeout still in flight. -/
theorem timed_wait_reports_stranger :
    ∃ p s, Path TimedRun.step (TimedRun.start plainRing) p s ∧
      s.returns = [⟨0, none, none⟩, ⟨1, some (.errno .etime), some (.timer 0)⟩] ∧
      s.inflight.map Prod.snd = [.timer 1] ∧ ¬ s.inbox.OwnTimeouts := by
  refine ⟨_, _, path_record (servedWait ++ [.timedWait 1 64, .reserve, .flush, .peek, .decide,
    .entered (.consumed 1), .complete 0 (-62) 0, .peek]) rfl, rfl, rfl, ?_⟩
  intro own
  have cause := (own ⟨1, some (.errno .etime), some (.timer 0)⟩ (by decide) ⟨_, rfl, rfl⟩).1
  cases cause

/-- A timeout that the user queues with the library's user data, and a timed wait during
which it expires. -/
def usersTimeout : List TimedEvent :=
  [.queueSQE (timeoutOp 32) 0 libUserDataTimeout, .timedWait 1 64, .reserve, .flush, .peek,
    .decide, .entered (.consumed 2), .complete 0 (-62) 0, .peek]

/-- **The timeout of the user.**  The timed wait returns `ETIME` with its own timeout still
in flight. -/
theorem timed_wait_reports_users_timeout :
    ∃ p s, Path TimedRun.step (TimedRun.start plainRing) p s ∧
      s.returns = [⟨0, some (.errno .etime), some .stranger⟩] ∧
      s.inflight.map Prod.snd = [.timer 0] :=
  ⟨_, _, path_record usersTimeout rfl, rfl, rfl⟩

end GoUring.Uring
