import Mathlib.Tactic

/-!
# Lib.Cycle — a list read over and over

`cycle l s n` are `n` items of the endless repetition of `l`, from item number `s` on.

* `cycle_add`: two consecutive stretches are one.
* `cycle_of_fits`: a stretch that does not cross the end of the list is a piece of it.
* `cycle_mod`: whole rounds can be left out.

The library names no program.
-/

namespace Lib

universe u

variable {α : Type u}

/-- `n` items of the repeated list, from number `s` on. -/
def cycle (l : List α) (s n : ℕ) : List α := (List.range' s n).filterMap fun i => l[i % l.length]?

@[simp] theorem cycle_zero (l : List α) (s : ℕ) : cycle l s 0 = [] := rfl

theorem cycle_add (l : List α) (s m n : ℕ) : cycle l s (m + n) = cycle l s m ++ cycle l (s + m) n := by
  rw [cycle, ← List.range'_append_1, List.filterMap_append]
  rfl

/-- Whole rounds can be left out. -/
theorem cycle_mod (l : List α) (s n : ℕ) : cycle l (s % l.length) n = cycle l s n := by
  simp only [cycle, List.range'_eq_map_range, List.filterMap_map]
  apply List.filterMap_congr
  intro i _
  simp only [Function.comp_apply, Nat.mod_add_mod]

/-- **Within one round** it is a piece of the list. -/
theorem cycle_of_fits {l : List α} {s n : ℕ} (h : s + n ≤ l.length) : cycle l s n = (l.drop s).take n := by
  induction n generalizing s with
  | zero => simp
  | succ n ih =>
    have hs : s < l.length := by omega
    rw [Nat.add_comm n 1, cycle_add, ih (by omega), List.drop_eq_getElem_cons hs, Nat.add_comm 1 n, List.take_succ_cons]
    simp [cycle, Nat.mod_eq_of_lt hs, hs]

theorem length_cycle {l : List α} (hl : 0 < l.length) (s n : ℕ) : (cycle l s n).length = n := by
  induction n generalizing s with
  | zero => rfl
  | succ n ih =>
    have hlt : s % l.length < l.length := Nat.mod_lt s hl
    rw [Nat.add_comm n 1, cycle_add, List.length_append, ih]
    simp [cycle, hlt]

end Lib
