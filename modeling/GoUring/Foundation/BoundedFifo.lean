import Mathlib.Data.List.Basic

/-!
# Bounded FIFO queues with a publication point

What a submission queue is for, in its own terms: a producer appends items to a
queue of bounded capacity, `publish`es what it has appended so far, and a
consumer takes published items from the front.  The queue carries the fact that
no more is published than was appended.

`History` is a queue together with everything ever appended to it and everything
ever taken from it; that the first list is the second followed by what is still
queued is a field, so it needs no proof along a run.
-/

namespace BoundedFifo

universe u

variable {α : Type u}

/-- Items waiting in the queue, of which the first `published` may be taken. -/
@[ext]
structure Fifo (α : Type u) where
  items : List α
  published : ℕ
  published_le : published ≤ items.length

namespace Fifo

/-- Append an item; `none` when the queue is at its capacity. -/
def push (capacity : ℕ) (q : Fifo α) (x : α) : Option (Fifo α) :=
  if q.items.length < capacity then
    some
      { items := q.items ++ [x]
        published := q.published
        published_le := by
          have := q.published_le
          simp
          omega }
  else none

/-- Make everything that was appended available to the consumer. -/
def publish (q : Fifo α) : Fifo α where
  items := q.items
  published := q.items.length
  published_le := Nat.le_refl _

/-- Take the oldest published item. -/
def take (q : Fifo α) : Option (α × Fifo α) :=
  match q with
  | ⟨x :: rest, n + 1, h⟩ =>
      some (x, { items := rest, published := n, published_le := by simpa using h })
  | _ => none

theorem push_eq_some_iff {capacity : ℕ} {q q' : Fifo α} {x : α} :
    push capacity q x = some q' ↔
      q.items.length < capacity ∧ q'.items = q.items ++ [x] ∧
        q'.published = q.published := by
  unfold push
  by_cases room : q.items.length < capacity
  · rw [if_pos room, Option.some.injEq]
    constructor
    · rintro rfl
      exact ⟨room, rfl, rfl⟩
    · rintro ⟨-, items, published⟩
      exact Fifo.ext items.symm published.symm
  · simp [room]

theorem take_eq_some_iff {q q' : Fifo α} {x : α} :
    take q = some (x, q') ↔
      q.items = x :: q'.items ∧ q.published = q'.published + 1 := by
  obtain ⟨items, published, le⟩ := q
  obtain ⟨items', published', le'⟩ := q'
  cases items with
  | nil => simp [take]
  | cons y rest =>
      cases published with
      | zero => simp [take]
      | succ n => simp [take, and_assoc]

end Fifo

/-- A queue together with all that was ever appended and all that was ever
taken. -/
structure History (α : Type u) where
  queue : Fifo α
  appended : List α
  taken : List α
  split : appended = taken ++ queue.items

namespace History

/-- What was taken is a prefix of what was appended: nothing is lost,
duplicated or reordered. -/
theorem taken_isPrefix (h : History α) : h.taken <+: h.appended :=
  ⟨h.queue.items, h.split.symm⟩

/-- What is still queued is what was appended and not taken. -/
theorem items_eq_drop (h : History α) :
    h.queue.items = h.appended.drop h.taken.length := by
  rw [h.split, List.drop_left]

theorem length_items (h : History α) :
    h.queue.items.length + h.taken.length = h.appended.length := by
  rw [h.split, List.length_append, Nat.add_comm]

end History

end BoundedFifo
