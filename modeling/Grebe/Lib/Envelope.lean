import Mathlib.Tactic
import Mathlib.Data.List.MinMax
import Grebe.Lib.Tiling

/-!
# Lib.Envelope — lists that stand for the extremes of longer ones

* `Envelope ys xs`: `ys` has nothing that is not in `xs`, and nothing in `xs` lies outside `ys`.  It is a preorder and
  goes through concatenation, so that reductions of pieces compose.
* `cut xs c b`: the piece of `xs` between the cuts `c b` and `c (b + 1)`; with `flatMap_cut` the pieces make up the list.
* `foldl_min_mem`, `foldl_min_le`, and for `max`: what a running minimum or maximum of a piece is.
* `foldl_argmax`: the same with the place of the maximum, the first of several.
* `PairEnvelope xs ys c m`: `ys` has the minimum and the maximum of each of the `m` pieces of `xs`, in pairs.  If the
  pieces tile `xs`, `ys` is an envelope of it.

The library names no program.
-/

namespace Lib

universe u v

/-! ## Envelopes -/

section Envelope

variable {α : Type u}

/-- `ys` has the extremes of `xs`, and only items of it. -/
structure Envelope [LE α] (ys xs : List α) : Prop where
  subset : ys ⊆ xs
  below : ∀ x ∈ xs, ∃ y ∈ ys, y ≤ x
  above : ∀ x ∈ xs, ∃ y ∈ ys, x ≤ y

namespace Envelope

section Preorder

variable [Preorder α] {xs ys zs : List α}

theorem refl (xs : List α) : Envelope xs xs :=
  ⟨List.Subset.refl xs, fun x hx => ⟨x, hx, le_rfl⟩, fun x hx => ⟨x, hx, le_rfl⟩⟩

theorem trans (h : Envelope zs ys) (h' : Envelope ys xs) : Envelope zs xs where
  subset := List.Subset.trans h.subset h'.subset
  below x hx := by
    obtain ⟨y, hy, hyx⟩ := h'.below x hx
    obtain ⟨z, hz, hzy⟩ := h.below y hy
    exact ⟨z, hz, hzy.trans hyx⟩
  above x hx := by
    obtain ⟨y, hy, hxy⟩ := h'.above x hx
    obtain ⟨z, hz, hyz⟩ := h.above y hy
    exact ⟨z, hz, hxy.trans hyz⟩

/-- Envelopes of the pieces make an envelope of the whole. -/
theorem flatMap {ι : Type v} {l : List ι} {f g : ι → List α} (h : ∀ i ∈ l, Envelope (f i) (g i)) :
    Envelope (l.flatMap f) (l.flatMap g) where
  subset y hy := by
    obtain ⟨i, hi, hy⟩ := List.mem_flatMap.mp hy
    exact List.mem_flatMap.mpr ⟨i, hi, (h i hi).subset hy⟩
  below x hx := by
    obtain ⟨i, hi, hx⟩ := List.mem_flatMap.mp hx
    obtain ⟨y, hy, hyx⟩ := (h i hi).below x hx
    exact ⟨y, List.mem_flatMap.mpr ⟨i, hi, hy⟩, hyx⟩
  above x hx := by
    obtain ⟨i, hi, hx⟩ := List.mem_flatMap.mp hx
    obtain ⟨y, hy, hxy⟩ := (h i hi).above x hx
    exact ⟨y, List.mem_flatMap.mpr ⟨i, hi, hy⟩, hxy⟩

/-- A least and a greatest item are an envelope. -/
theorem of_extremes {lo hi : α} (hlo : lo ∈ xs ∧ ∀ x ∈ xs, lo ≤ x) (hhi : hi ∈ xs ∧ ∀ x ∈ xs, x ≤ hi) :
    Envelope [lo, hi] xs where
  subset y hy := by
    obtain rfl | rfl : y = lo ∨ y = hi := by simpa using hy
    · exact hlo.1
    · exact hhi.1
  below x hx := ⟨lo, by simp, hlo.2 x hx⟩
  above x hx := ⟨hi, by simp, hhi.2 x hx⟩

end Preorder

section LinearOrder

variable [LinearOrder α] {xs ys : List α}

theorem minimum_eq (h : Envelope ys xs) : ys.minimum = xs.minimum := by
  refine le_antisymm (List.le_minimum_of_forall_le fun x hx => ?_)
    (List.le_minimum_of_forall_le fun y hy => List.minimum_le_of_mem' (h.subset hy))
  obtain ⟨y, hy, hyx⟩ := h.below x hx
  exact (List.minimum_le_of_mem' hy).trans (WithTop.coe_le_coe.mpr hyx)

theorem maximum_eq (h : Envelope ys xs) : ys.maximum = xs.maximum := by
  refine le_antisymm (List.maximum_le_of_forall_le fun y hy => List.le_maximum_of_mem' (h.subset hy))
    (List.maximum_le_of_forall_le fun x hx => ?_)
  obtain ⟨y, hy, hxy⟩ := h.above x hx
  exact (WithBot.coe_le_coe.mpr hxy).trans (List.le_maximum_of_mem' hy)

end LinearOrder

end Envelope

end Envelope

/-! ## Pieces of a list -/

section Cut

variable {α : Type u}

/-- The piece of `xs` from `c b` to `c (b + 1)`. -/
def cut (xs : List α) (c : ℕ → ℕ) (b : ℕ) : List α := (xs.drop (c b)).take (c (b + 1) - c b)

/-- The pieces up to a cut make up the list up to there. -/
theorem flatMap_cut (xs : List α) {c : ℕ → ℕ} (h0 : c 0 = 0) (hmono : ∀ b, c b ≤ c (b + 1)) (m : ℕ) :
    (List.range m).flatMap (cut xs c) = xs.take (c m) := by
  induction m with
  | zero => simp [h0]
  | succ m ih =>
    have hsum : c (m + 1) = c m + (c (m + 1) - c m) := by
      have := hmono m
      omega
    rw [List.range_succ, List.flatMap_append, ih, hsum, List.take_add]
    simp [cut]

theorem length_cut {xs : List α} {c : ℕ → ℕ} {b : ℕ} (h : c (b + 1) ≤ xs.length) :
    (cut xs c b).length = c (b + 1) - c b := by
  rw [cut, List.length_take, List.length_drop]
  omega

end Cut

/-! ## Running minimum and maximum -/

section Running

variable {α : Type u} [LinearOrder α]

theorem foldl_min_le_init (xs : List α) (init : α) : xs.foldl min init ≤ init := by
  induction xs generalizing init with
  | nil => exact le_rfl
  | cons x xs ih => exact (ih (min init x)).trans (min_le_left _ _)

theorem foldl_min_le (xs : List α) (init : α) : ∀ x ∈ xs, xs.foldl min init ≤ x := by
  induction xs generalizing init with
  | nil => simp
  | cons y xs ih =>
    intro x hx
    obtain rfl | hx := List.mem_cons.mp hx
    · exact (foldl_min_le_init xs _).trans (min_le_right _ _)
    · exact ih _ x hx

theorem foldl_min_eq_or_mem (xs : List α) (init : α) : xs.foldl min init = init ∨ xs.foldl min init ∈ xs := by
  induction xs generalizing init with
  | nil => exact .inl rfl
  | cons y xs ih =>
    rcases ih (min init y) with h | h
    · rcases min_choice init y with hm | hm
      · exact .inl (h.trans hm)
      · exact .inr (by rw [List.foldl_cons, h, hm]; simp)
    · exact .inr (List.mem_cons_of_mem _ h)

/-- The running minimum is one of the items once it starts at or above one of them. -/
theorem foldl_min_mem {xs : List α} {init : α} (hne : xs ≠ []) (hinit : ∀ x ∈ xs, x ≤ init) :
    xs.foldl min init ∈ xs := by
  obtain ⟨x, xs, rfl⟩ := List.exists_cons_of_ne_nil hne
  rw [List.foldl_cons, min_eq_right (hinit x (by simp))]
  rcases foldl_min_eq_or_mem xs x with h | h
  · rw [h]
    simp
  · exact List.mem_cons_of_mem _ h

/-- The running minimum from the first item on is the minimum. -/
theorem minimum_cons_eq_foldl (x : α) (xs : List α) : (x :: xs).minimum = xs.foldl min x := by
  rw [List.minimum_eq_coe_iff]
  refine ⟨?_, List.forall_mem_cons.mpr ⟨foldl_min_le_init xs x, foldl_min_le xs x⟩⟩
  rcases foldl_min_eq_or_mem xs x with h | h
  · rw [h]
    exact List.mem_cons_self
  · exact List.mem_cons_of_mem _ h

theorem maximum_cons_eq_foldl (x : α) (xs : List α) : (x :: xs).maximum = xs.foldl max x :=
  minimum_cons_eq_foldl (α := αᵒᵈ) x xs

theorem le_foldl_max (xs : List α) (init : α) : ∀ x ∈ xs, x ≤ xs.foldl max init :=
  foldl_min_le (α := αᵒᵈ) xs init

theorem foldl_max_mem {xs : List α} {init : α} (hne : xs ≠ []) (hinit : ∀ x ∈ xs, init ≤ x) :
    xs.foldl max init ∈ xs :=
  foldl_min_mem (α := αᵒᵈ) hne hinit

/-- **The running extremes of a piece are an envelope of it.** -/
theorem envelope_running {xs : List α} {top bot : α} (hne : xs ≠ []) (htop : ∀ x ∈ xs, x ≤ top)
    (hbot : ∀ x ∈ xs, bot ≤ x) : Envelope [xs.foldl min top, xs.foldl max bot] xs :=
  .of_extremes ⟨foldl_min_mem hne htop, foldl_min_le xs top⟩ ⟨foldl_max_mem hne hbot, le_foldl_max xs bot⟩

/-- A running maximum that keeps the item it was found at finds the first one. -/
theorem foldl_argmax {ι : Type v} (f : ι → α) (l : List ι) {low : α} (start : ι) (hlow : ∀ i ∈ l, low < f i) :
    l.foldl (fun (best : α × ι) i => if f i > best.1 then (f i, i) else best) (low, start) =
      (l.argmax f).elim (low, start) fun m => (f m, m) := by
  induction l using List.reverseRecOn with
  | nil => rfl
  | append_singleton l i ih =>
    rw [List.foldl_concat, ih fun j hj => hlow j (List.mem_append_left _ hj), List.argmax_concat]
    cases List.argmax f l with
    | none => exact if_pos (hlow i (by simp))
    | some m =>
      change (if f m < f i then (f i, i) else (f m, m)) =
        (if f m < f i then some i else some m).elim (low, start) fun m => (f m, m)
      split_ifs <;> rfl

end Running

/-! ## Pairs of extremes -/

section Pairs

variable {α : Type u}

/-- What `xs` has from place `i` up to place `j`. -/
def between (xs : List α) (i j : ℕ) : Set α := { v | ∃ k, i ≤ k ∧ k < j ∧ xs[k]? = some v }

/-- The pairs of extremes of the pieces of `xs`, one after the other. -/
structure PairEnvelope [LE α] (xs ys : List α) (c : ℕ → ℕ) (m : ℕ) : Prop where
  length_eq : ys.length = 2 * m
  least : ∀ b < m, ∃ lo, ys[2 * b]? = some lo ∧ IsLeast (between xs (c b) (c (b + 1))) lo
  greatest : ∀ b < m, ∃ hi, ys[2 * b + 1]? = some hi ∧ IsGreatest (between xs (c b) (c (b + 1))) hi

variable {xs ys : List α} {c : ℕ → ℕ} {m b : ℕ}

theorem mem_of_mem_between {i j : ℕ} {v : α} (h : v ∈ between xs i j) : v ∈ xs := by
  obtain ⟨k, -, -, hk⟩ := h
  exact List.mem_of_getElem? hk

theorem mem_take_drop {i j : ℕ} {v : α} : v ∈ (xs.drop i).take (j - i) ↔ v ∈ between xs i j := by
  simp only [List.mem_iff_getElem?, List.getElem?_take, List.getElem?_drop, between, Set.mem_ofPred_eq]
  constructor
  · rintro ⟨k, hk⟩
    split_ifs at hk with hlt
    exact ⟨i + k, by omega, by omega, hk⟩
  · rintro ⟨k, hik, hkj, hk⟩
    refine ⟨k - i, ?_⟩
    rw [if_pos (by omega), show i + (k - i) = k by omega, hk]

/-- A read inside of a list finds what a read with a default finds. -/
theorem getElem?_of_lt {l : List α} {i : ℕ} (d : α) (h : i < l.length) : l[i]? = some (l.getD i d) := by
  rw [List.getElem?_eq_getElem h, List.getElem_eq_getD d]

/-- Steps of which none fails. -/
theorem mapM_eq_map {β : Type u} {l : List β} {f : β → Option α} {g : β → α} (h : ∀ b ∈ l, f b = some (g b)) :
    l.mapM f = some (l.map g) := by
  induction l with
  | nil => rfl
  | cons b l ih =>
    rw [List.mapM_cons, h b List.mem_cons_self, ih fun b' hb' => h b' (List.mem_cons_of_mem _ hb')]
    rfl

/-- The pairs of a list of pairs, read one after the other. -/
theorem getElem?_pairs (f g : ℕ → α) (hb : b < m) :
    ((List.range m).flatMap fun b => [f b, g b])[2 * b]? = some (f b) ∧
      ((List.range m).flatMap fun b => [f b, g b])[2 * b + 1]? = some (g b) := by
  induction m with
  | zero => exact absurd hb (Nat.not_lt_zero b)
  | succ m ih =>
    have hlen : ((List.range m).flatMap fun b => [f b, g b]).length = 2 * m := by
      simp [Nat.mul_comm]
    rw [List.range_succ, List.flatMap_append, List.flatMap_singleton]
    obtain hlt | rfl := Nat.lt_succ_iff_lt_or_eq.mp hb
    · rw [List.getElem?_append_left (by omega), List.getElem?_append_left (by omega)]
      exact ih hlt
    · rw [List.getElem?_append_right (by omega), List.getElem?_append_right (by omega), hlen, Nat.sub_self,
        Nat.add_sub_cancel_left]
      exact ⟨rfl, rfl⟩

theorem map_range_pairs (g : ℕ → α) (m : ℕ) :
    (List.range (2 * m)).map g = (List.range m).flatMap fun b => [g (2 * b), g (2 * b + 1)] := by
  induction m with
  | zero => rfl
  | succ m ih =>
    rw [show 2 * (m + 1) = 2 * m + 1 + 1 by omega, List.range_succ, List.range_succ, List.range_succ, List.map_append,
      List.map_append, ih, List.flatMap_append, List.append_assoc]
    rfl

theorem pairEnvelope_flatMap [LE α] {f g : ℕ → α} (hf : ∀ b < m, IsLeast (between xs (c b) (c (b + 1))) (f b))
    (hg : ∀ b < m, IsGreatest (between xs (c b) (c (b + 1))) (g b)) :
    PairEnvelope xs ((List.range m).flatMap fun b => [f b, g b]) c m where
  length_eq := by simp [Nat.mul_comm]
  least b hb := ⟨f b, (getElem?_pairs f g hb).1, hf b hb⟩
  greatest b hb := ⟨g b, (getElem?_pairs f g hb).2, hg b hb⟩

/-- **The extremes of the pieces have those of the whole.** -/
theorem PairEnvelope.envelope [Preorder α] (h : PairEnvelope xs ys c m) (ht : Tiles c m 0 xs.length) :
    Envelope ys xs where
  subset y hy := by
    obtain ⟨j, hj, rfl⟩ := List.mem_iff_getElem.mp hy
    have hlen := h.length_eq
    have hb : j / 2 < m := by omega
    obtain ⟨lo, hlo, hleast⟩ := h.least (j / 2) hb
    obtain ⟨hi, hhi, hgreatest⟩ := h.greatest (j / 2) hb
    rcases Nat.mod_two_eq_zero_or_one j with heven | hodd
    · rw [show 2 * (j / 2) = j by omega, List.getElem?_eq_getElem hj, Option.some_inj] at hlo
      rw [hlo]
      exact mem_of_mem_between hleast.1
    · rw [show 2 * (j / 2) + 1 = j by omega, List.getElem?_eq_getElem hj, Option.some_inj] at hhi
      rw [hhi]
      exact mem_of_mem_between hgreatest.1
  below x hx := by
    obtain ⟨i, hi, rfl⟩ := List.mem_iff_getElem.mp hx
    obtain ⟨b, ⟨hb, hle, hlt⟩, -⟩ := ht.existsUnique (Nat.zero_le i) hi
    obtain ⟨lo, hlo, hleast⟩ := h.least b hb
    exact ⟨lo, List.mem_of_getElem? hlo, hleast.2 ⟨i, hle, hlt, List.getElem?_eq_getElem hi⟩⟩
  above x hx := by
    obtain ⟨i, hi, rfl⟩ := List.mem_iff_getElem.mp hx
    obtain ⟨b, ⟨hb, hle, hlt⟩, -⟩ := ht.existsUnique (Nat.zero_le i) hi
    obtain ⟨hi', hhi', hgreatest⟩ := h.greatest b hb
    exact ⟨hi', List.mem_of_getElem? hhi', hgreatest.2 ⟨i, hle, hlt, List.getElem?_eq_getElem hi⟩⟩

end Pairs

end Lib
