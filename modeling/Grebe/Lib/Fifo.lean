import Grebe.Lib.Lts

/-!
# Lib.Fifo — the history of a bounded first-in first-out store

`Fifo α bound` is a store with its history: everything accepted so far, everything removed so far, and what is
stored.  The two facts that make it a bounded FIFO are fields, so every value of the type is one:

* `split`: what was accepted is what was removed followed by what is stored, in that order;
* `bounded`: at most `bound` items are stored.

`Fifo.accept` appends a block that fits, `Fifo.remove` takes a block off the front.  `Fifo.system` is the
transition system of the two, to be refined by a concrete store.
-/

namespace Lib

universe u

/-- A bounded FIFO store with its history. -/
structure Fifo (α : Type u) (bound : ℕ) where
  accepted : List α
  removed : List α
  items : List α
  split : accepted = removed ++ items
  bounded : items.length ≤ bound

namespace Fifo

variable {α : Type u} {bound : ℕ}

/-! ## Facts about every store -/

section Facts

variable (q : Fifo α bound)

theorem removed_prefix : q.removed <+: q.accepted :=
  ⟨q.items, q.split.symm⟩

theorem length_accepted : q.accepted.length = q.removed.length + q.items.length := by
  rw [q.split, List.length_append]

theorem removed_length_le : q.removed.length ≤ q.accepted.length := by
  rw [q.length_accepted]
  omega

theorem stored_le : q.accepted.length - q.removed.length ≤ bound := by
  have := q.length_accepted
  have := q.bounded
  omega

theorem ext_of {q q' : Fifo α bound} (ha : q.accepted = q'.accepted) (hr : q.removed = q'.removed) : q = q' := by
  have hi : q.items = q'.items := by
    have h := q.split
    rw [ha, hr, q'.split] at h
    exact (List.append_cancel_left h).symm
  cases q
  cases q'
  simp only at ha hr hi
  subst ha hr hi
  rfl

end Facts

/-! ## Operations -/

/-- The empty store. -/
def empty : Fifo α bound := ⟨[], [], [], rfl, Nat.zero_le _⟩

/-- Append a block that fits. -/
def accept (q : Fifo α bound) (xs : List α) (h : q.items.length + xs.length ≤ bound) : Fifo α bound where
  accepted := q.accepted ++ xs
  removed := q.removed
  items := q.items ++ xs
  split := by rw [q.split, List.append_assoc]
  bounded := by rwa [List.length_append]

/-- Take the first `n` items off the front. -/
def remove (q : Fifo α bound) (n : ℕ) : Fifo α bound where
  accepted := q.accepted
  removed := q.removed ++ q.items.take n
  items := q.items.drop n
  split := by rw [q.split, List.append_assoc, List.take_append_drop]
  bounded := by
    have := q.bounded
    rw [List.length_drop]
    omega

/-- The two moves of the store. -/
inductive Move (α : Type u)
  | accept (xs : List α)
  | remove (n : ℕ)

/-- The transition system of a bounded FIFO store. -/
def system (α : Type u) (bound : ℕ) : Lts (Fifo α bound) (Move α) where
  init q := q = empty
  step q
    | .accept xs => if h : q.items.length + xs.length ≤ bound then some (q.accept xs h) else none
    | .remove n => if n ≤ q.items.length then some (q.remove n) else none

theorem exec_accept {q : Fifo α bound} {xs : List α} (h : q.items.length + xs.length ≤ bound) :
    (system α bound).exec q [.accept xs] = some (q.accept xs h) := by
  simp [system, h]

theorem exec_remove {q : Fifo α bound} {n : ℕ} (h : n ≤ q.items.length) :
    (system α bound).exec q [.remove n] = some (q.remove n) := by
  simp [system, h]

end Fifo

end Lib
