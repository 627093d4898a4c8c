import GoUring.Uring.Operation
import Mathlib.Algebra.BigOperators.Group.Finset.Basic
import Mathlib.Algebra.Order.Group.Multiset
import Mathlib.Data.Multiset.Filter

/-!
# Requests of the reactors

What both reactors hand to their rings: `subSqeRequest` of `reactor/net.go`, and
the user data it travels with.  Two values of the user data are reserved for the
link timeouts and the cancels, which have no callback; all others identify
requests.
-/

namespace GoUring.Reactor

open Uring

/-- `timeoutNonce`: the user data of link timeouts. -/
def timeoutNonce : UInt64 := 18446744073709551615

/-- `cancelNonce`: the user data of cancels. -/
def cancelNonce : UInt64 := 18446744073709551614

/-- The user data that stands for no request. -/
def Reserved (userData : UInt64) : Prop := userData = timeoutNonce ∨ userData = cancelNonce

instance (userData : UInt64) : Decidable (Reserved userData) :=
  inferInstanceAs (Decidable (_ ∨ _))

/-- The link flag, set, is there. -/
theorem isLinked_or (flags : UInt8) : (flags ||| sqeIOLinkFlag) &&& sqeIOLinkFlag ≠ 0 := by
  intro zero
  have bit := congrArg (fun x : UInt8 => x.toBitVec.getLsbD 2) zero
  simp [sqeIOLinkFlag] at bit

/-- `subSqeRequest`.  Only requests of `Queue` have a timeout. -/
structure SubSqeRequest where
  op : Operation
  flags : UInt8
  userData : UInt64
  timeout : Int64
  untimed : Reserved userData → timeout = 0

/-- The request `cancel` makes. -/
def cancelRequest (target : UInt64) : SubSqeRequest where
  op := cancelOp target 0
  flags := 0
  userData := cancelNonce
  timeout := 0
  untimed := fun _ => rfl

/-- The user data of requests in a bag of user data. -/
def requestIDs (uds : Multiset UInt64) : Multiset UInt64 :=
  uds.filter fun ud => ¬ Reserved ud

theorem requestIDs_add (uds uds' : Multiset UInt64) :
    requestIDs (uds + uds') = requestIDs uds + requestIDs uds' :=
  Multiset.filter_add _ _ _

theorem requestIDs_cons_of_reserved {ud : UInt64} (reserved : Reserved ud)
    (uds : Multiset UInt64) : requestIDs (ud ::ₘ uds) = requestIDs uds :=
  Multiset.filter_cons_of_neg _ (not_not_intro reserved)

theorem requestIDs_cons {ud : UInt64} (request : ¬ Reserved ud) (uds : Multiset UInt64) :
    requestIDs (ud ::ₘ uds) = ud ::ₘ requestIDs uds :=
  Multiset.filter_cons_of_pos _ request

theorem mem_requestIDs {ud : UInt64} {uds : Multiset UInt64} :
    ud ∈ requestIDs uds ↔ ud ∈ uds ∧ ¬ Reserved ud :=
  Multiset.mem_filter

/-! ## What the loops of a reactor hold -/

section InFlight

variable {n l : ℕ} {held held' : ℕ → Multiset UInt64} {ud : UInt64}

/-- The user data of the requests held by `n` loops. -/
def inFlight (n : ℕ) (held : ℕ → Multiset UInt64) : Multiset UInt64 :=
  requestIDs (∑ l ∈ Finset.range n, held l)

theorem mem_inFlight (lt : l < n) (mem : ud ∈ held l) (request : ¬ Reserved ud) :
    ud ∈ inFlight n held :=
  mem_requestIDs.mpr
    ⟨Multiset.mem_sum.mpr ⟨l, Finset.mem_range.mpr lt, mem⟩, request⟩

/-- What one loop holds is part of the whole. -/
theorem requestIDs_le_inFlight (lt : l < n) (held : ℕ → Multiset UInt64) :
    requestIDs (held l) ≤ inFlight n held := by
  rw [inFlight, ← Finset.add_sum_erase _ _ (Finset.mem_range.mpr lt)]
  exact Multiset.filter_le_filter _ (Multiset.le_add_right _ _)

/-- One loop changes. -/
theorem inFlight_add (lt : l < n) (others : ∀ l', l' ≠ l → held' l' = held l') :
    inFlight n held' + requestIDs (held l) = inFlight n held + requestIDs (held' l) := by
  have mem : l ∈ Finset.range n := Finset.mem_range.mpr lt
  have rest : ∑ l' ∈ (Finset.range n).erase l, held' l' =
      ∑ l' ∈ (Finset.range n).erase l, held l' :=
    Finset.sum_congr rfl fun l' within => others l' (Finset.ne_of_mem_erase within)
  rw [inFlight, inFlight, ← requestIDs_add, ← requestIDs_add, ← Finset.add_sum_erase _ _ mem,
    ← Finset.add_sum_erase _ _ mem, rest, add_comm (held' l), add_comm (held l), add_right_comm]

/-- One loop changes, and keeps the user data of its requests. -/
theorem inFlight_same (others : ∀ l', l' ≠ l → held' l' = held l')
    (same : requestIDs (held' l) = requestIDs (held l)) : inFlight n held' = inFlight n held := by
  by_cases lt : l < n
  · have total := inFlight_add lt others
    rw [same] at total
    exact add_right_cancel total
  · -- A loop beyond the last one counts for nothing.
    refine congrArg requestIDs (Finset.sum_congr rfl fun l' within => others l' ?_)
    rintro rfl
    exact lt (Finset.mem_range.mp within)

/-- One loop gets a request. -/
theorem inFlight_cons (lt : l < n) (others : ∀ l', l' ≠ l → held' l' = held l')
    (more : requestIDs (held' l) = ud ::ₘ requestIDs (held l)) :
    inFlight n held' = ud ::ₘ inFlight n held := by
  have total := inFlight_add lt others
  rw [more, Multiset.add_cons, ← Multiset.cons_add] at total
  exact add_right_cancel total

/-- One loop is done with a request. -/
theorem inFlight_erase (lt : l < n) (others : ∀ l', l' ≠ l → held' l' = held l')
    (less : requestIDs (held l) = ud ::ₘ requestIDs (held' l)) :
    ud ∈ inFlight n held ∧ inFlight n held' = (inFlight n held).erase ud := by
  have total := inFlight_add lt others
  rw [less, Multiset.add_cons, ← Multiset.cons_add] at total
  rw [← add_right_cancel total]
  exact ⟨Multiset.mem_cons_self _ _, (Multiset.erase_cons_head _ _).symm⟩

end InFlight

end GoUring.Reactor
