import Mathlib.Tactic
import Mathlib.Data.List.Basic

/-!
# Lib.Circular — blocks of a circular memory

A stream of items is kept in a memory of `c` slots: item number `k` lives in slot `k % c`.  A block of consecutive
items that does not cross the end of the memory is one linear block of slots (`store`, `load`).

* `mod_ne_of_window`: two item numbers less than `c` apart live in different slots.
* `add_mod_cases`: the slot of item `a + d`, for `d < c`, from the slot of item `a`.
* `store_hit` / `store_miss`: a linear block written for the items from `a` on sets exactly their slots.
* `Blocks c a bs`: the linear blocks `bs` are where the items from number `a` on live.
-/

namespace Lib.Circular

universe u

variable {α : Type u}

/-! ## Slots -/

theorem mod_ne_of_window {i j c : ℕ} (hij : i < j) (hj : j < i + c) : i % c ≠ j % c := by
  intro h
  have hd : (j - i) % c = 0 := Nat.sub_mod_eq_zero_of_mod_eq h.symm
  have : j - i < c := by omega
  rw [Nat.mod_eq_of_lt this] at hd
  omega

/-- The slot `d < c` places after the slot of `a`. -/
theorem add_mod_cases {a d c : ℕ} (hd : d < c) :
    (a + d) % c = if a % c + d < c then a % c + d else a % c + d - c := by
  have ha : a % c < c := Nat.mod_lt _ (by omega)
  rw [← Nat.mod_add_mod]
  split_ifs with h
  · exact Nat.mod_eq_of_lt h
  · rw [Nat.mod_eq_sub_mod (by omega)]
    exact Nat.mod_eq_of_lt (by omega)

theorem add_mod_of_fits {a d c : ℕ} (h : a % c + d < c) : (a + d) % c = a % c + d := by
  rw [add_mod_cases (by omega), if_pos h]

/-! ## Linear blocks -/

/-- Write the block `ys` from slot `p` on. -/
def store (mem : ℕ → α) (p : ℕ) (ys : List α) : ℕ → α :=
  fun i => if p ≤ i then (ys[i - p]?).getD (mem i) else mem i

/-- Read `n` slots from slot `p` on. -/
def load (mem : ℕ → α) (p n : ℕ) : List α := (List.range n).map fun j => mem (p + j)

@[simp] theorem length_load (mem : ℕ → α) (p n : ℕ) : (load mem p n).length = n := by
  simp [load]

theorem store_inside {mem : ℕ → α} {p j : ℕ} {ys : List α} (h : j < ys.length) :
    store mem p ys (p + j) = ys[j] := by
  simp [store, h]

theorem store_outside {mem : ℕ → α} {p i : ℕ} {ys : List α} (h : i < p ∨ p + ys.length ≤ i) :
    store mem p ys i = mem i := by
  unfold store
  split_ifs with hp
  · rw [List.getElem?_eq_none (by omega), Option.getD_none]
  · rfl

/-- A block reads back as it was written. -/
theorem load_store (mem : ℕ → α) (p : ℕ) (ys : List α) : load (store mem p ys) p ys.length = ys := by
  apply List.ext_getElem (length_load ..)
  intro j _ hj
  simp only [load, List.getElem_map, List.getElem_range]
  exact store_inside hj

/-- A block does not show elsewhere. -/
theorem load_store_before (mem : ℕ → α) {p q n : ℕ} (ys : List α) (h : q + n ≤ p) :
    load (store mem p ys) q n = load mem q n := by
  refine List.map_congr_left fun j hj => store_outside (.inl ?_)
  have := List.mem_range.mp hj
  omega

/-- A part of a block. -/
theorem take_drop_load (mem : ℕ → α) {p q m n : ℕ} (h : q + m ≤ n) :
    ((load mem p n).drop q).take m = load mem (p + q) m := by
  apply List.ext_getElem (by simp; omega)
  intro j _ _
  simp [load, Nat.add_assoc]

/-- The items `a, …` written to their slots. -/
theorem store_hit (mem : ℕ → α) {a c j : ℕ} (ys : List α) (hfit : a % c + ys.length ≤ c) (hj : j < ys.length) :
    store mem (a % c) ys ((a + j) % c) = ys[j] := by
  rw [add_mod_of_fits (by omega)]
  exact store_inside hj

/-- Every other item within one revolution keeps its slot. -/
theorem store_miss {mem : ℕ → α} {a c i : ℕ} {ys : List α} (hfit : a % c + ys.length ≤ c) (hi : i < a)
    (hw : a + ys.length ≤ i + c) : store mem (a % c) ys (i % c) = mem (i % c) := by
  apply store_outside
  by_contra hcon
  push Not at hcon
  obtain ⟨h1, h2⟩ := hcon
  have hslot : (a + (i % c - a % c)) % c = i % c := by
    rw [add_mod_of_fits (by omega)]
    omega
  exact mod_ne_of_window (i := i) (j := a + (i % c - a % c)) (c := c) (by omega) (by omega) hslot.symm

theorem load_eq_slots {mem : ℕ → α} {a c n : ℕ} (hfit : a % c + n ≤ c) :
    load mem (a % c) n = (List.range n).map fun j => mem ((a + j) % c) := by
  apply List.map_congr_left
  intro j hj
  rw [List.mem_range] at hj
  rw [add_mod_of_fits (by omega)]

/-! ## Chains of linear blocks -/

/-- The linear blocks `(slot, length)` are where the items from number `a` on live, one block after the other. -/
def Blocks (c : ℕ) : ℕ → List (ℕ × ℕ) → Prop
  | _, [] => True
  | a, (p, n) :: bs => p = a % c ∧ p + n ≤ c ∧ Blocks c (a + n) bs

/-- The number of items in a chain of blocks. -/
def total (bs : List (ℕ × ℕ)) : ℕ := (bs.map Prod.snd).sum

/-- The slots of a chain of blocks. -/
def slots (bs : List (ℕ × ℕ)) : List ℕ := bs.flatMap fun b => (List.range b.2).map fun j => b.1 + j

@[simp] theorem total_nil : total [] = 0 := rfl

@[simp] theorem total_cons (b : ℕ × ℕ) (bs : List (ℕ × ℕ)) : total (b :: bs) = b.2 + total bs := rfl

/-- Every slot of a chain belongs to one of its items. -/
theorem Blocks.slot {c a : ℕ} {bs : List (ℕ × ℕ)} (h : Blocks c a bs) {i : ℕ} (hi : i ∈ slots bs) :
    ∃ j, j < total bs ∧ i = (a + j) % c := by
  induction bs generalizing a with
  | nil => simp [slots] at hi
  | cons b bs ih =>
    obtain ⟨p, n⟩ := b
    obtain ⟨rfl, hfit, hrest⟩ := h
    rw [slots, List.flatMap_cons, List.mem_append] at hi
    rcases hi with hi | hi
    · simp only [List.mem_map, List.mem_range] at hi
      obtain ⟨j, hj, rfl⟩ := hi
      refine ⟨j, by rw [total_cons]; omega, ?_⟩
      rw [add_mod_of_fits (by omega)]
    · obtain ⟨j, hj, rfl⟩ := ih hrest hi
      refine ⟨n + j, by rw [total_cons]; omega, ?_⟩
      rw [Nat.add_assoc]

theorem Blocks.slot_lt {c a : ℕ} {bs : List (ℕ × ℕ)} (hc : 0 < c) (h : Blocks c a bs) {i : ℕ} (hi : i ∈ slots bs) :
    i < c := by
  obtain ⟨j, -, rfl⟩ := h.slot hi
  exact Nat.mod_lt _ hc

/-- Chains for items less than one revolution apart use different slots. -/
theorem Blocks.disjoint {c a a' : ℕ} {bs bs' : List (ℕ × ℕ)} (h : Blocks c a bs) (h' : Blocks c a' bs')
    (hlt : a + total bs ≤ a') (hw : a' + total bs' ≤ a + c) : ∀ i ∈ slots bs, i ∉ slots bs' := by
  intro i hi hi'
  obtain ⟨j, hj, hij⟩ := h.slot hi
  obtain ⟨j', hj', hij'⟩ := h'.slot hi'
  exact mod_ne_of_window (i := a + j) (j := a' + j') (c := c) (by omega) (by omega) (hij.symm.trans hij')

/-- The block split around the end of the memory: `min n (c - h)` slots from `h`, the rest from slot `0`. -/
def wrap (c h n : ℕ) : List (ℕ × ℕ) :=
  let first := min n (c - h)
  if n > first then [(h, first), (0, n - first)] else [(h, first)]

@[simp] theorem total_wrap (c h n : ℕ) : total (wrap c h n) = n := by
  unfold wrap
  dsimp only
  split_ifs with hn
  · simp only [total_cons, total_nil]
    omega
  · simp only [total_cons, total_nil]
    omega

/-- The split block is where the items from number `a` on live. -/
theorem blocks_wrap {c a n : ℕ} (hc : 0 < c) (hn : n ≤ c) : Blocks c a (wrap c (a % c) n) := by
  have ha : a % c < c := Nat.mod_lt _ hc
  unfold wrap
  dsimp only
  split_ifs with hlt
  · have hfirst : min n (c - a % c) = c - a % c := by omega
    rw [hfirst]
    refine ⟨rfl, by omega, ?_, by omega, trivial⟩
    rw [← Nat.mod_add_mod, show a % c + (c - a % c) = c by omega, Nat.mod_self]
  · exact ⟨rfl, by omega, trivial⟩

end Lib.Circular
