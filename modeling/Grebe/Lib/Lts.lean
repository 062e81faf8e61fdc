import Mathlib.Data.List.Basic
import Mathlib.Tactic

/-!
# Lib.Lts — labelled transition systems with a computable step

`Lts σ ℓ` has an initial predicate and a partial step function `σ → ℓ → Option σ`: every
nondeterministic choice (which thread moves, what the environment delivers) is in the label.

* `M.Reach C s`: `s` is the end of a run of `M` each of whose steps meets the condition `C`.  `M.Reachable` has
  no condition, so "in every run whose steps meet `C`" is a statement about `M.Reach C`.
* `Reach.invariant`: the induction over runs, made once.  An invariant needs the initial states and one step.
* `M.exec`, `execIn C M`: the run along a list of labels, so that a concrete run is computed; the second one checks
  `C` at each step.  `M.Meets D s ls` says that it holds at each step of a run.
* `M.since mark`: with each state the one after the last step that `mark` tells, so that a statement can compare the two;
  `since_rule` is the invariant rule for such statements.
* `Simulates M A R`: a forward simulation, each step of `M` matched by a run of `A`.
* `M.CanReach L s t`: `t` is reached from `s` by steps whose labels satisfy `L`.
* `Trap`: a set of states that the steps with labels in `L` never leave.

The library names no program.
-/

namespace Lib

universe u v

/-- A labelled transition system; `step s l = none` means that `l` is not enabled in `s`. -/
structure Lts (σ : Type u) (ℓ : Type v) where
  init : σ → Prop
  step : σ → ℓ → Option σ

namespace Lts

variable {σ : Type u} {ℓ : Type v} (M : Lts σ ℓ)

/-! ## Runs -/

section Runs

/-- `s` is the last state of a run of `M` from an initial state, each step of which meets `C`. -/
inductive Reach (C : σ → ℓ → Prop) : σ → Prop
  | init {s : σ} : M.init s → Reach C s
  | step {s s' : σ} {l : ℓ} : Reach C s → C s l → M.step s l = some s' → Reach C s'

/-- Reachable by any run. -/
abbrev Reachable : σ → Prop := M.Reach fun _ _ => True

variable {M}

theorem Reach.mono {C D : σ → ℓ → Prop} (hCD : ∀ s l, C s l → D s l) {s : σ} (h : M.Reach C s) : M.Reach D s := by
  induction h with
  | init h0 => exact .init h0
  | step _ hC hst ih => exact .step ih (hCD _ _ hC) hst

theorem Reach.reachable {C : σ → ℓ → Prop} {s : σ} (h : M.Reach C s) : M.Reachable s :=
  h.mono fun _ _ _ => trivial

/-- **Invariant rule.**  What holds initially and is kept by every step that meets `C` holds at the end of every
run whose steps meet `C`. -/
theorem Reach.invariant {C : σ → ℓ → Prop} {I : σ → Prop} (h0 : ∀ s, M.init s → I s)
    (hstep : ∀ s l s', I s → C s l → M.step s l = some s' → I s') {s : σ} (h : M.Reach C s) : I s := by
  induction h with
  | init hi => exact h0 _ hi
  | step _ hC hst ih => exact hstep _ _ _ ih hC hst

/-- The invariant rule with an invariant `J` already known of the states passed. -/
theorem Reach.invariant_of {C : σ → ℓ → Prop} {I J : σ → Prop} (hJ : ∀ s, M.Reach C s → J s)
    (h0 : ∀ s, M.init s → I s)
    (hstep : ∀ s l s', J s → I s → C s l → M.step s l = some s' → I s') {s : σ} (h : M.Reach C s) : I s := by
  induction h with
  | init hi => exact h0 _ hi
  | step hr hC hst ih => exact hstep _ _ _ (hJ _ hr) ih hC hst

/-- **The marks tell the runs that met `D`**, where exactly the steps that break `D` leave one, and it stays. -/
theorem Reach.unmarked_iff (D : σ → ℓ → Prop) (Mark : σ → Prop) (h0 : ∀ s, M.init s → ¬ Mark s)
    (hkeep : ∀ s l s', M.step s l = some s' → Mark s → Mark s')
    (hmark : ∀ s l s', M.Reach D s → ¬ Mark s → M.step s l = some s' → (Mark s' ↔ ¬ D s l)) {s : σ}
    (h : M.Reachable s) : ¬ Mark s ↔ M.Reach D s := by
  constructor
  · intro hs
    induction h with
    | init hi => exact .init hi
    | @step s s' l _ _ hst ih =>
      have hm : ¬ Mark s := fun hm => hs (hkeep _ _ _ hst hm)
      have hD : D s l := by
        by_contra hD
        exact hs ((hmark _ _ _ (ih hm) hm hst).mpr hD)
      exact .step (ih hm) hD hst
  · intro hs
    induction hs with
    | init hi => exact h0 _ hi
    | step hr hD hst ih => exact fun hm => (hmark _ _ _ hr (ih hr.reachable) hst).mp hm hD

end Runs

/-! ## Computed runs -/

section Exec

/-- The state after the labels `ls`, if each is enabled in turn. -/
def exec (s : σ) : List ℓ → Option σ
  | [] => some s
  | l :: ls => (M.step s l).bind fun s' => exec s' ls

variable {M}

@[simp] theorem exec_nil (s : σ) : M.exec s [] = some s := rfl

@[simp] theorem exec_cons (s : σ) (l : ℓ) (ls : List ℓ) :
    M.exec s (l :: ls) = (M.step s l).bind fun s' => M.exec s' ls := rfl

theorem exec_single {s t : σ} {l : ℓ} (h : M.step s l = some t) : M.exec s [l] = some t := by
  rw [exec_cons, h, Option.bind_some, exec_nil]

theorem exec_append (s : σ) (l l' : List ℓ) : M.exec s (l ++ l') = (M.exec s l).bind fun t => M.exec t l' := by
  induction l generalizing s with
  | nil => rfl
  | cons x l ih => simp only [List.cons_append, exec_cons, Option.bind_assoc, ih]

theorem Reach.exec {s t : σ} {ls : List ℓ} (h : M.Reachable s) (he : M.exec s ls = some t) : M.Reachable t := by
  induction ls generalizing s with
  | nil =>
    cases he
    exact h
  | cons l ls ih =>
    rw [exec_cons, Option.bind_eq_some_iff] at he
    obtain ⟨s', hst, he⟩ := he
    exact ih (.step h trivial hst) he

/-- What every step keeps is kept by a computed run from any state. -/
theorem exec_invariant {I : σ → Prop} (hstep : ∀ s l s', I s → M.step s l = some s' → I s') {s t : σ} {ls : List ℓ}
    (h : I s) (he : M.exec s ls = some t) : I t := by
  induction ls generalizing s with
  | nil =>
    cases he
    exact h
  | cons l ls ih =>
    rw [exec_cons, Option.bind_eq_some_iff] at he
    obtain ⟨s', hst, he⟩ := he
    exact ih (hstep _ _ _ h hst) he

/-- A computed run from an initial state reaches its last state. -/
theorem reachable_of_exec {s t : σ} (ls : List ℓ) (h0 : M.init s) (he : M.exec s ls = some t) : M.Reachable t :=
  Reach.exec (.init h0) he

/-- Each step of the run along `ls` meets `D`. -/
def Meets (M : Lts σ ℓ) (D : σ → ℓ → Prop) (s : σ) : List ℓ → Prop
  | [] => True
  | l :: ls => D s l ∧ ∀ s', M.step s l = some s' → Meets M D s' ls

theorem meets_cons {D : σ → ℓ → Prop} {s s' : σ} {l : ℓ} {ls : List ℓ} (hst : M.step s l = some s') :
    M.Meets D s (l :: ls) ↔ D s l ∧ M.Meets D s' ls := by
  constructor
  · rintro ⟨hD, hmeets⟩
    exact ⟨hD, hmeets s' hst⟩
  · rintro ⟨hD, hmeets⟩
    refine ⟨hD, fun t ht => ?_⟩
    obtain rfl := Option.some.inj (hst.symm.trans ht)
    exact hmeets

/-- **The marks tell whether a run met `D`**, where, with an invariant `J`, exactly the steps that break `D` leave one, and
it stays. -/
theorem unmarked_iff_meets {J : σ → Prop} (hJ : ∀ s l s', J s → M.step s l = some s' → J s') (D : σ → ℓ → Prop)
    (Mark : σ → Prop) (hkeep : ∀ s l s', J s → M.step s l = some s' → Mark s → Mark s')
    (hmark : ∀ s l s', J s → ¬ Mark s → M.step s l = some s' → (Mark s' ↔ ¬ D s l)) {s t : σ} {ls : List ℓ} (hs : J s)
    (hno : ¬ Mark s) (he : M.exec s ls = some t) : ¬ Mark t ↔ M.Meets D s ls := by
  induction ls generalizing s with
  | nil =>
    cases he
    exact iff_of_true hno trivial
  | cons l ls ih =>
    rw [exec_cons, Option.bind_eq_some_iff] at he
    obtain ⟨s', hst, he⟩ := he
    have hs' := hJ _ _ _ hs hst
    rw [meets_cons hst]
    by_cases hD : D s l
    · have hno' : ¬ Mark s' := fun hm => (hmark _ _ _ hs hno hst).mp hm hD
      rw [ih hs' hno' he, and_iff_right hD]
    · -- the mark stays up to the end
      have hm : Mark s' := (hmark _ _ _ hs hno hst).mpr hD
      have hend : J t ∧ Mark t := exec_invariant (I := fun s => J s ∧ Mark s)
        (fun _ _ _ h hst => ⟨hJ _ _ _ h.1 hst, hkeep _ _ _ h.1 hst h.2⟩) ⟨hs', hm⟩ he
      exact iff_of_false (not_not.mpr hend.2) fun h => hD h.1

/-- The state after the labels `ls`, if each is enabled in turn and meets `C` there. -/
def execIn (C : σ → ℓ → Prop) [∀ s l, Decidable (C s l)] (M : Lts σ ℓ) (s : σ) : List ℓ → Option σ
  | [] => some s
  | l :: ls => if C s l then (M.step s l).bind fun s' => execIn C M s' ls else none

theorem Reach.execIn {C : σ → ℓ → Prop} [∀ s l, Decidable (C s l)] {s t : σ} {ls : List ℓ} (h : M.Reach C s)
    (he : execIn C M s ls = some t) : M.Reach C t := by
  induction ls generalizing s with
  | nil =>
    cases he
    exact h
  | cons l ls ih =>
    unfold Lts.execIn at he
    by_cases hC : C s l
    · rw [if_pos hC, Option.bind_eq_some_iff] at he
      obtain ⟨s', hst, he⟩ := he
      exact ih (.step h hC hst) he
    · rw [if_neg hC] at he
      cases he

end Exec

/-! ## The last marked step -/

section Since

/-- The system with a second state: the one after the last step that `mark` tells, or else the initial one. -/
def since (M : Lts σ ℓ) (mark : σ → σ → Bool) : Lts (σ × σ) ℓ where
  init p := M.init p.1 ∧ p.2 = p.1
  step p l := (M.step p.1 l).map fun s => (s, if mark p.1 s then s else p.2)

variable {M} {mark : σ → σ → Bool}

theorem since_step {p : σ × σ} {l : ℓ} {s : σ} (h : M.step p.1 l = some s) :
    (M.since mark).step p l = some (s, if mark p.1 s then s else p.2) := by
  show (M.step p.1 l).map _ = _
  rw [h, Option.map_some]

/-- The second state is only looked at. -/
theorem since_fst {p : σ × σ} (h : (M.since mark).Reachable p) : M.Reachable p.1 := by
  refine h.invariant (I := fun p => M.Reachable p.1) (fun q hq => ?_) fun q l q' hr _ hst => ?_
  · exact .init (show M.init q.1 ∧ _ from hq).1
  · obtain ⟨s, hs, rfl⟩ := Option.map_eq_some_iff.mp hst
    exact .step hr trivial hs

/-- Every run is one with a second state. -/
theorem exists_since (mark : σ → σ → Bool) {s : σ} (h : M.Reachable s) : ∃ s₀, (M.since mark).Reachable (s, s₀) := by
  induction h with
  | @init s h0 => exact ⟨s, .init ⟨h0, rfl⟩⟩
  | step _ _ hst ih =>
    obtain ⟨s₀, hs⟩ := ih
    exact ⟨_, .step hs trivial (since_step hst)⟩

/-- **Two-state rule.**  A relation to the state after the last marked step needs that state itself, and one step. -/
theorem since_rule {J : σ → σ → Prop} (h0 : ∀ s, M.init s → J s s)
    (hmark : ∀ s s₀ l s', M.Reachable s → J s s₀ → M.step s l = some s' → mark s s' = true → J s' s')
    (hstep : ∀ s s₀ l s', M.Reachable s → J s s₀ → M.step s l = some s' → mark s s' = false → J s' s₀)
    {p : σ × σ} (h : (M.since mark).Reachable p) : J p.1 p.2 := by
  refine h.invariant_of (I := fun p => J p.1 p.2) (fun _ => since_fst) (fun q hq => ?_) fun q l q' hr hJ _ hst => ?_
  · rw [hq.2]
    exact h0 _ hq.1
  · obtain ⟨s, hs, rfl⟩ := Option.map_eq_some_iff.mp hst
    dsimp only
    cases hm : mark q.1 s with
    | true => exact hmark _ _ l s hr hJ hs hm
    | false => exact hstep _ _ l s hr hJ hs hm

end Since

/-! ## Forward simulation -/

section Simulation

variable {τ : Type u} {κ : Type v}

/-- `R` is a forward simulation of `M` by `A`: each step of `M` is matched by a run of `A`, perhaps an empty one. -/
structure Simulates (M : Lts σ ℓ) (A : Lts τ κ) (R : σ → τ → Prop) : Prop where
  init : ∀ s, M.init s → ∃ t, A.init t ∧ R s t
  step : ∀ s l s' t, R s t → M.step s l = some s' → ∃ ks t', A.exec t ks = some t' ∧ R s' t'

variable {M} {A : Lts τ κ} {R : σ → τ → Prop}

/-- Every reachable state of a simulated system represents a reachable state of the abstract one. -/
theorem Simulates.reachable (h : Simulates M A R) {s : σ} (hs : M.Reachable s) : ∃ t, A.Reachable t ∧ R s t := by
  induction hs with
  | init h0 =>
    obtain ⟨t, ht, hR⟩ := h.init _ h0
    exact ⟨t, .init ht, hR⟩
  | step _ _ hst ih =>
    obtain ⟨t, ht, hR⟩ := ih
    obtain ⟨ks, t', hks, hR'⟩ := h.step _ _ _ t hR hst
    exact ⟨t', ht.exec hks, hR'⟩

end Simulation

/-! ## Paths along a class of labels -/

section Paths

/-- `t` is reached from `s` by steps whose labels satisfy `L`. -/
inductive CanReach (L : ℓ → Prop) : σ → σ → Prop
  | refl (s : σ) : CanReach L s s
  | head {s s' t : σ} {l : ℓ} : L l → M.step s l = some s' → CanReach L s' t → CanReach L s t

/-- The steps with labels in `L` never leave `T`. -/
def Trap (L : ℓ → Prop) (T : σ → Prop) : Prop :=
  ∀ s l s', T s → L l → M.step s l = some s' → T s'

variable {M} {L : ℓ → Prop}

theorem CanReach.trans {s t w : σ} (h1 : M.CanReach L s t) (h2 : M.CanReach L t w) : M.CanReach L s w := by
  induction h1 with
  | refl _ => exact h2
  | head hl hst _ ih => exact .head hl hst (ih h2)

theorem CanReach.single {s t : σ} {l : ℓ} (hl : L l) (hst : M.step s l = some t) : M.CanReach L s t :=
  .head hl hst (.refl t)

/-- No path along `L` leaves a trap. -/
theorem Trap.canReach {T : σ → Prop} (hT : M.Trap L T) {s t : σ} (hs : T s) (h : M.CanReach L s t) : T t := by
  induction h with
  | refl _ => exact hs
  | head hl hst _ ih => exact ih (hT _ _ _ hs hl hst)

/-- A path can be followed while a measure strictly decreases until the goal is met. -/
theorem CanReach.of_measure {I G : σ → Prop} (μ : σ → ℕ)
    (hstep : ∀ s, I s → ¬ G s → ∃ l s', L l ∧ M.step s l = some s' ∧ I s' ∧ μ s' < μ s) :
    ∀ s, I s → ∃ t, I t ∧ G t ∧ M.CanReach L s t := by
  suffices key : ∀ n s, μ s ≤ n → I s → ∃ t, I t ∧ G t ∧ M.CanReach L s t from
    fun s hs => key (μ s) s le_rfl hs
  intro n
  induction n with
  | zero =>
    intro s hμ hs
    by_cases hG : G s
    · exact ⟨s, hs, hG, .refl s⟩
    · obtain ⟨l, s', -, -, -, hlt⟩ := hstep s hs hG
      omega
  | succ n ih =>
    intro s hμ hs
    by_cases hG : G s
    · exact ⟨s, hs, hG, .refl s⟩
    · obtain ⟨l, s', hl, hst, hs', hlt⟩ := hstep s hs hG
      obtain ⟨t, ht, hGt, hp⟩ := ih s' (by omega) hs'
      exact ⟨t, ht, hGt, .head hl hst hp⟩

end Paths

end Lts

end Lib
