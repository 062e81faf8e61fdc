import Mathlib.Data.List.DropRight
import Mathlib.Data.List.Rotate
import Mathlib.Tactic

/-!
# Lib.RollingWindow — the last items in a ring of slots

An item goes into the slot at `index`, and the index to the next slot, around the ring.  As long as a slot has no item of
its own, `count` tells how many have one.

* `Keeps.push`: from `index` on, around the ring, stand the last items, in their order.
* `Keeps.inUse_perm`: the slots in use hold the last items, in some order.
* `sum_drop_differences`: differences of consecutive items, summed.
-/

namespace Lib

universe u

variable {α : Type u}

/-! ## Rotation -/

theorem rotate_of_lt {l : List α} {i : ℕ} (hi : i < l.length) : l.rotate i = l[i] :: (l.drop (i + 1) ++ l.take i) := by
  rw [List.rotate_eq_drop_append_take hi.le, List.drop_eq_getElem_cons hi, List.cons_append]

/-- The oldest item makes room for the newest. -/
theorem rotate_set_succ {l : List α} {i : ℕ} (hi : i < l.length) (x : α) :
    (l.set i x).rotate (i + 1) = (l.rotate i).tail ++ [x] := by
  have hlen : i + 1 ≤ (l.set i x).length := by rw [List.length_set]; exact hi
  rw [List.rotate_eq_drop_append_take hlen, rotate_of_lt hi, List.tail_cons, List.take_add_one,
    List.drop_set_of_lt (Nat.lt_succ_self i), List.take_set_of_le (Nat.le_refl i), List.getElem?_set_self hi,
    Option.toList_some, List.append_assoc]

/-! ## The ring -/

structure RollingWindow (α : Type u) where
  slots : List α
  index : ℕ
  count : ℕ

namespace RollingWindow

variable {w : RollingWindow α} {blank : α} {n : ℕ} {items : List α} {x : α}

def push (w : RollingWindow α) (x : α) : RollingWindow α where
  slots := w.slots.set w.index x
  index := (w.index + 1) % w.slots.length
  count := if w.count < w.slots.length then w.count + 1 else w.count

/-- The slots in use. -/
def inUse (w : RollingWindow α) : List α := w.slots.take w.count

/-- The ring of `n` slots, blank at first, after these items. -/
structure Keeps (w : RollingWindow α) (blank : α) (n : ℕ) (items : List α) : Prop where
  index_eq : w.index = items.length % n
  count_eq : w.count = min items.length n
  rotate_eq : w.slots.rotate w.index = (List.replicate n blank ++ items).drop items.length

theorem Keeps.length (h : w.Keeps blank n items) : w.slots.length = n := by
  rw [← List.length_rotate w.slots w.index, h.rotate_eq]
  simp

theorem Keeps.empty (blank : α) (n : ℕ) : (⟨List.replicate n blank, 0, 0⟩ : RollingWindow α).Keeps blank n [] := by
  constructor <;> simp

theorem Keeps.push (hn : 0 < n) (h : w.Keeps blank n items) (x : α) : (w.push x).Keeps blank n (items ++ [x]) := by
  have hlen := h.length
  have hindex : w.index < w.slots.length := by
    rw [h.index_eq, hlen]
    exact Nat.mod_lt _ hn
  constructor
  · simp [RollingWindow.push, hlen, h.index_eq]
  · simp only [RollingWindow.push, hlen, h.count_eq, List.length_append, List.length_singleton]
    split_ifs <;> omega
  · have hmod : (w.slots.set w.index x).rotate ((w.index + 1) % w.slots.length) =
        (w.slots.set w.index x).rotate (w.index + 1) := by
      rw [← List.rotate_mod, List.length_set, Nat.mod_mod, ← List.length_set (i := w.index) (a := x), List.rotate_mod]
    have hle : items.length + 1 ≤ (List.replicate n blank ++ items).length := by
      simp only [List.length_append, List.length_replicate]
      omega
    change (w.slots.set w.index x).rotate ((w.index + 1) % w.slots.length) = _
    rw [hmod, rotate_set_succ hindex, h.rotate_eq, List.tail_drop, List.length_append, List.length_singleton,
      ← List.append_assoc, ← List.drop_append_of_le_length hle]

theorem Keeps.foldl (hn : 0 < n) (h : w.Keeps blank n items) (more : List α) :
    (more.foldl RollingWindow.push w).Keeps blank n (items ++ more) := by
  induction more generalizing w items with
  | nil => rwa [List.append_nil]
  | cons x more ih =>
    rw [List.append_cons]
    exact ih (h.push hn x)

/-- **The slots in use hold the last items.** -/
theorem Keeps.inUse_perm (h : w.Keeps blank n items) : w.inUse.Perm (items.rtake n) := by
  have hlen := h.length
  obtain hlt | hge := lt_or_ge items.length n
  · -- not once around
    have hindex : w.index = items.length := by rw [h.index_eq, Nat.mod_eq_of_lt hlt]
    have hrotate := h.rotate_eq
    rw [hindex, List.rotate_eq_drop_append_take (by omega), List.drop_append_of_le_length (by simpa using hlt.le)]
      at hrotate
    have hslots := (List.append_inj hrotate (by simp [hlen])).2
    rw [inUse, h.count_eq, min_eq_left hlt.le, hslots, List.rtake, Nat.sub_eq_zero_of_le hlt.le, List.drop_zero]
  · have hdrop : (List.replicate n blank ++ items).drop items.length = items.rtake n := by
      rw [List.drop_append, List.drop_eq_nil_of_le (by simpa using hge), List.nil_append, List.length_replicate,
        List.rtake]
    rw [inUse, h.count_eq, min_eq_right hge, ← hlen, List.take_length, hlen, ← hdrop, ← h.rotate_eq]
    exact (List.rotate_perm w.slots w.index).symm

end RollingWindow

/-! ## Differences -/

section Differences

variable {β : Type u} [AddCommGroup β]

/-- What each item is more than the one before it. -/
def differences (ts : List β) : List β := List.zipWith (fun later earlier => later - earlier) ts.tail ts

@[simp] theorem length_differences (ts : List β) : (differences ts).length = ts.length - 1 := by
  simp [differences]

theorem differences_cons (a b : β) (ts : List β) : differences (a :: b :: ts) = (b - a) :: differences (b :: ts) := rfl

theorem differences_concat {ts : List β} {s : β} (hs : ts.getLast? = some s) (t : β) :
    differences (ts ++ [t]) = differences ts ++ [t - s] := by
  induction ts with
  | nil => cases hs
  | cons a ts ih =>
    cases ts with
    | nil =>
      obtain rfl : a = s := by simpa using hs
      rfl
    | cons b ts =>
      rw [List.getLast?_cons_cons] at hs
      simp only [List.cons_append] at ih ⊢
      rw [differences_cons, differences_cons, ih hs, List.cons_append]

/-- **The differences from an item on take the sum from it to the last one.** -/
theorem sum_drop_differences {ts : List β} {i : ℕ} {s t : β} (hs : ts[i]? = some s) (ht : ts.getLast? = some t) :
    ((differences ts).drop i).sum = t - s := by
  induction ts generalizing i s with
  | nil => cases hs
  | cons a ts ih =>
    cases ts with
    | nil =>
      obtain ⟨rfl, rfl⟩ : i = 0 ∧ a = s := by
        cases i with
        | zero => simpa using hs
        | succ i => cases hs
      obtain rfl : a = t := by simpa using ht
      simp [differences]
    | cons b ts =>
      rw [List.getLast?_cons_cons] at ht
      rw [differences_cons]
      cases i with
      | zero =>
        obtain rfl : a = s := by simpa using hs
        have hsum : (differences (b :: ts)).sum = t - b := by simpa using ih (i := 0) rfl ht
        rw [List.drop_zero, List.sum_cons, hsum]
        abel
      | succ i =>
        rw [List.drop_succ_cons]
        exact ih hs ht

end Differences

end Lib
