import Mathlib.Tactic
import Mathlib.Data.List.DropRight

/-!
# Lib.Deferred — clean-ups that can be put off

A state takes items one by one, and now and then it is cleaned up.

* `Deferrable step norm`: cleaning up before an item changes nothing once it is done after the item too.
* `Deferrable.batches`: so it does not matter after which items it is done.
* `rtake_rtake_append`, `dropWhile_dropWhile_append`: two clean-ups of this kind, keeping the last `n` items of a list
  and dropping its stale front.

The library names no program.
-/

namespace Lib

universe u v

section Deferrable

variable {σ : Type u} {α : Type v}

structure Deferrable (step : σ → α → σ) (norm : σ → σ) : Prop where
  norm_norm : ∀ s, norm (norm s) = norm s
  norm_step : ∀ s x, norm (step (norm s) x) = norm (step s x)

namespace Deferrable

variable {step : σ → α → σ} {norm : σ → σ}

theorem foldl (d : Deferrable step norm) (xs : List α) (s : σ) :
    norm (xs.foldl step (norm s)) = norm (xs.foldl step s) := by
  induction xs generalizing s with
  | nil => exact d.norm_norm s
  | cons x xs ih =>
    -- both runs continue from states with one normal form
    rw [List.foldl_cons, List.foldl_cons, ← ih (step (norm s) x), d.norm_step, ih]

/-- **Batching is irrelevant**: cleaning up after every batch comes to the same as cleaning up once. -/
theorem batches (d : Deferrable step norm) (bs : List (List α)) (xs : List α) (s : σ) :
    norm (xs.foldl step (bs.foldl (fun s b => norm (b.foldl step s)) s)) = norm ((bs.flatten ++ xs).foldl step s) := by
  induction bs generalizing s with
  | nil => rfl
  | cons b bs ih =>
    rw [List.foldl_cons, ih, d.foldl, ← List.foldl_append, List.flatten_cons, List.append_assoc]

end Deferrable

end Deferrable

section Clean

variable {α : Type u}

theorem length_rtake (n : ℕ) (l : List α) : (l.rtake n).length = min l.length n := by
  rw [List.rtake, List.length_drop]
  omega

theorem rtake_of_suffix {l l' : List α} (h : l <:+ l') {n : ℕ} (hn : n ≤ l.length) : l'.rtake n = l.rtake n := by
  obtain ⟨front, rfl⟩ := h
  have hlen : (front ++ l).length - n = front.length + (l.length - n) := by
    rw [List.length_append]
    omega
  rw [List.rtake, hlen, ← List.drop_drop, List.drop_left, List.rtake]

/-- The last `n` items of an extended list are those of its last `n` items extended. -/
theorem rtake_rtake_append (n : ℕ) (l xs : List α) : (l.rtake n ++ xs).rtake n = (l ++ xs).rtake n := by
  have hsplit : l ++ xs = l.take (l.length - n) ++ (l.rtake n ++ xs) := by
    rw [← List.append_assoc, List.rtake, List.take_append_drop]
  have hlen : (l ++ xs).length - n = (l.take (l.length - n)).length + ((l.rtake n ++ xs).length - n) := by
    simp only [List.length_append, List.length_take, length_rtake]
    omega
  conv_rhs => rw [List.rtake, hlen, ← List.drop_drop, hsplit, List.drop_left]
  rfl

theorem dropWhile_dropWhile_append {p q : α → Bool} (h : ∀ x, p x → q x) (l xs : List α) :
    (l.dropWhile p ++ xs).dropWhile q = (l ++ xs).dropWhile q := by
  induction l with
  | nil => rfl
  | cons x l ih =>
    by_cases hx : p x
    · rw [List.dropWhile_cons_of_pos hx, ih, List.cons_append, List.dropWhile_cons_of_pos (h x hx)]
    · rw [List.dropWhile_cons_of_neg hx]

end Clean

end Lib
