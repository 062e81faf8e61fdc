import Mathlib.Tactic
import Grebe.Lib.Lts

/-!
# Lib.Pipeline — a line of stages with buffers between them, which may lose items

A `Link` is the history of what one stage sends through the bounded buffer behind it.  What makes it an honest link is
in its fields, so every value of the type is one:

* `ordered`: a link may lose items, but neither reorders nor repeats them;
* `counted`: every item emitted is somewhere in the link or counted as lost.

`Link.system` is the transition system of the moves of a link, to be refined by a concrete queue and its users.  In a
line, stage `i + 1` takes the items of link `i` and maps each by `f (i + 1)`:

* `Line.through f i xs`: what becomes of `xs` on its way through the stages `1, …, i`;
* `Line.inFlight`: the items between stage `0` and the end of link `i`, each carried through the stages left;
* `Line.taken_sublist_through`, `Line.taken_append_inFlight`: order over the whole line, and conservation without
  losses.

The library names no program.
-/

namespace Lib

universe u

/-- The history of a link: what its stage emitted, the part of it not yet handed over (`pending`), what is in the
buffer and what was taken out of it, and how many items the buffer lost. -/
structure Link (α : Type u) where
  emitted : List α
  pending : List α
  stored : List α
  taken : List α
  lost : ℕ
  ordered : List.Sublist (taken ++ stored ++ pending) emitted
  counted : emitted.length = taken.length + stored.length + pending.length + lost

namespace Link

variable {α : Type u}

/-! ## Facts about every link -/

section Facts

variable (b : Link α)

theorem taken_sublist : List.Sublist b.taken b.emitted := by
  have h := b.ordered
  rw [List.append_assoc] at h
  exact (List.sublist_append_left _ _).trans h

/-- A link that has lost nothing still has everything, in order. -/
theorem lossless (h : b.lost = 0) : b.taken ++ b.stored ++ b.pending = b.emitted := by
  apply b.ordered.eq_of_length
  have := b.counted
  simp only [List.length_append]
  omega

theorem lost_eq (hp : b.pending = []) : b.lost = b.emitted.length - (b.taken.length + b.stored.length) := by
  have := b.counted
  rw [hp, List.length_nil] at this
  omega

end Facts

/-! ## Moves -/

section Moves

/-- A link before anything was emitted. -/
def empty : Link α := ⟨[], [], [], [], 0, List.Sublist.slnil, rfl⟩

/-- The stage emits `xs`. -/
def emit (b : Link α) (xs : List α) (h : b.pending = []) : Link α where
  emitted := b.emitted ++ xs
  pending := xs
  stored := b.stored
  taken := b.taken
  lost := b.lost
  ordered := by
    have hb := b.ordered
    rw [h, List.append_nil] at hb
    exact hb.append (List.Sublist.refl xs)
  counted := by
    have hb := b.counted
    rw [h, List.length_nil] at hb
    rw [List.length_append]
    omega

/-- The buffer accepts the next pending item. -/
def store (b : Link α) (x : α) (rest : List α) (h : b.pending = x :: rest) : Link α where
  emitted := b.emitted
  pending := rest
  stored := b.stored ++ [x]
  taken := b.taken
  lost := b.lost
  ordered := by
    have hb := b.ordered
    rw [h] at hb
    simpa using hb
  counted := by
    have hb := b.counted
    rw [h, List.length_cons] at hb
    rw [List.length_append, List.length_singleton]
    omega

/-- The buffer turns the next pending item away. -/
def refuse (b : Link α) (x : α) (rest : List α) (h : b.pending = x :: rest) : Link α where
  emitted := b.emitted
  pending := rest
  stored := b.stored
  taken := b.taken
  lost := b.lost + 1
  ordered := by
    have hb := b.ordered
    rw [h] at hb
    exact ((List.Sublist.refl _).append (List.sublist_cons_self x rest)).trans hb
  counted := by
    have hb := b.counted
    rw [h, List.length_cons] at hb
    omega

/-- The buffer loses its oldest item. -/
def evict (b : Link α) (x : α) (rest : List α) (h : b.stored = x :: rest) : Link α where
  emitted := b.emitted
  pending := b.pending
  stored := rest
  taken := b.taken
  lost := b.lost + 1
  ordered := by
    have hb := b.ordered
    rw [h] at hb
    exact (((List.Sublist.refl _).append (List.sublist_cons_self x rest)).append (List.Sublist.refl _)).trans hb
  counted := by
    have hb := b.counted
    rw [h, List.length_cons] at hb
    omega

/-- The oldest item is taken out of the buffer. -/
def take (b : Link α) (x : α) (rest : List α) (h : b.stored = x :: rest) : Link α where
  emitted := b.emitted
  pending := b.pending
  stored := rest
  taken := b.taken ++ [x]
  lost := b.lost
  ordered := by
    have hb := b.ordered
    rw [h] at hb
    simpa using hb
  counted := by
    have hb := b.counted
    rw [h, List.length_cons] at hb
    rw [List.length_append, List.length_singleton]
    omega

/-- The moves of a link; those of an item name it and what is behind it. -/
inductive Move (α : Type u)
  | emit (xs : List α)
  | store (x : α) (rest : List α)
  | refuse (x : α) (rest : List α)
  | evict (x : α) (rest : List α)
  | take (x : α) (rest : List α)

open Classical in
/-- The transition system of a link. -/
noncomputable def system (α : Type u) : Lts (Link α) (Move α) where
  init b := b = empty
  step b
    | .emit xs => if h : b.pending = [] then some (b.emit xs h) else none
    | .store x rest => if h : b.pending = x :: rest then some (b.store x rest h) else none
    | .refuse x rest => if h : b.pending = x :: rest then some (b.refuse x rest h) else none
    | .evict x rest => if h : b.stored = x :: rest then some (b.evict x rest h) else none
    | .take x rest => if h : b.stored = x :: rest then some (b.take x rest h) else none

variable {b : Link α} {x : α} {rest : List α}

theorem step_emit {xs : List α} (h : b.pending = []) : (system α).step b (.emit xs) = some (b.emit xs h) :=
  dif_pos h

theorem step_store (h : b.pending = x :: rest) : (system α).step b (.store x rest) = some (b.store x rest h) :=
  dif_pos h

theorem step_refuse (h : b.pending = x :: rest) : (system α).step b (.refuse x rest) = some (b.refuse x rest h) :=
  dif_pos h

theorem step_evict (h : b.stored = x :: rest) : (system α).step b (.evict x rest) = some (b.evict x rest h) :=
  dif_pos h

theorem step_take (h : b.stored = x :: rest) : (system α).step b (.take x rest) = some (b.take x rest h) :=
  dif_pos h

end Moves

end Link

/-! ## Links in a line -/

namespace Line

variable {α : Type u}

/-- The items `xs` of stage `0` after the stages `1, …, i` have mapped them in turn. -/
def through (f : ℕ → α → List α) : ℕ → List α → List α
  | 0, xs => xs
  | i + 1, xs => (through f i xs).flatMap (f (i + 1))

@[simp] theorem through_zero (f : ℕ → α → List α) (xs : List α) : through f 0 xs = xs := rfl

@[simp] theorem through_succ (f : ℕ → α → List α) (i : ℕ) (xs : List α) :
    through f (i + 1) xs = (through f i xs).flatMap (f (i + 1)) := rfl

/-- The items on their way to the end of link `i`, each carried through its remaining stages, in pipeline order:
`waiting i` are those in link `i`, `input i` those that stage `i` has taken and made nothing of yet. -/
def inFlight (waiting input : ℕ → List α) (f : ℕ → α → List α) : ℕ → List α
  | 0 => waiting 0
  | i + 1 => waiting (i + 1) ++ (input (i + 1) ++ inFlight waiting input f i).flatMap (f (i + 1))

variable (L : ℕ → Link α) (input : ℕ → List α) (f : ℕ → α → List α)

/-- Stage `i + 1` has emitted exactly what it makes of the items it took, but for its input in hand. -/
def Maps (i : ℕ) : Prop :=
  (L (i + 1)).emitted ++ (input (i + 1)).flatMap (f (i + 1)) = (L i).taken.flatMap (f (i + 1))

variable {L input f} {k : ℕ}

/-- **In order, at most once.**  What is taken from link `k` is a sublist of what the stages make of the items of
stage `0`. -/
theorem taken_sublist_through (hmaps : ∀ i < k, Maps L input f i) :
    List.Sublist (L k).taken (through f k (L 0).emitted) := by
  induction k with
  | zero => exact (L 0).taken_sublist
  | succ k ih =>
    have hk := ih fun i hi => hmaps i (by omega)
    have hemitted : List.Sublist (L (k + 1)).emitted ((L k).taken.flatMap (f (k + 1))) := by
      rw [← hmaps k (by omega)]
      exact List.sublist_append_left _ _
    exact (L (k + 1)).taken_sublist.trans (hemitted.trans (hk.flatMap _))

/-- **Nothing lost.**  What was taken from link `k` and what is in flight to its end are all that the stages make of
the items of stage `0`. -/
theorem taken_append_inFlight {waiting : ℕ → List α} (hw : ∀ i ≤ k, waiting i = (L i).stored ++ (L i).pending)
    (hmaps : ∀ i < k, Maps L input f i) (hall : ∀ i ≤ k, (L i).lost = 0) :
    (L k).taken ++ inFlight waiting input f k = through f k (L 0).emitted := by
  induction k with
  | zero =>
    have h0 := (L 0).lossless (hall 0 le_rfl)
    rw [inFlight, hw 0 le_rfl, ← List.append_assoc, h0, through_zero]
  | succ k ih =>
    have hk := ih (fun i hi => hw i (by omega)) (fun i hi => hmaps i (by omega)) (fun i hi => hall i (by omega))
    have hlast := (L (k + 1)).lossless (hall (k + 1) le_rfl)
    have hmap : Maps L input f k := hmaps k (by omega)
    calc (L (k + 1)).taken ++ inFlight waiting input f (k + 1)
        = ((L (k + 1)).taken ++ (L (k + 1)).stored ++ (L (k + 1)).pending)
            ++ (input (k + 1) ++ inFlight waiting input f k).flatMap (f (k + 1)) := by
          rw [inFlight, hw (k + 1) le_rfl]
          simp only [List.append_assoc]
      _ = ((L (k + 1)).emitted ++ (input (k + 1)).flatMap (f (k + 1)))
            ++ (inFlight waiting input f k).flatMap (f (k + 1)) := by
          rw [hlast, List.flatMap_append, List.append_assoc]
      _ = ((L k).taken ++ inFlight waiting input f k).flatMap (f (k + 1)) := by
          rw [show _ ++ _ = (L k).taken.flatMap (f (k + 1)) from hmap, List.flatMap_append]
      _ = through f (k + 1) (L 0).emitted := by rw [hk, through_succ]

end Line

end Lib
