import Grebe.Lib.Lts

/-!
# Lib.Sharing — two systems on one part of their states

A `Part` of a state can be read and replaced.  `M.share A p q owns owns'` runs `M` and `A` side by side on one part: what a
step of either leaves in it, the other finds there.  Each makes the labels that it owns; its other labels stand for what it
allows others to do to the part.

* `Allows`: whoever is in the middle of a run of `M` takes a change of the part as steps of its own.
* `reach_fst`, `reach_snd`: where each allows what the other's own steps do to the part, a run of both is a run of either.
  What is known of one system among all that it allows for then holds of the two together.

The library names no program.
-/

namespace Lib

universe u v w

/-- A part of a state. -/
structure Part (σ : Type u) (ρ : Type w) where
  get : σ → ρ
  put : ρ → σ → σ
  get_put : ∀ r s, get (put r s) = r
  put_get : ∀ s, put (get s) s = s

attribute [simp] Part.get_put Part.put_get

namespace Lts

variable {σ τ : Type u} {ℓ κ : Type v} {ρ : Type w}

section Sharing

/-- In any state whose part is `r` a run of `M` leads to the same state with `r'`. -/
def Allows (M : Lts σ ℓ) (p : Part σ ρ) (r r' : ρ) : Prop := ∀ s, p.get s = r → ∃ ls, M.exec s ls = some (p.put r' s)

theorem allows_refl (M : Lts σ ℓ) (p : Part σ ρ) (r : ρ) : M.Allows p r r := by
  rintro s rfl
  exact ⟨[], by rw [exec_nil, p.put_get]⟩

theorem allows_of_step {M : Lts σ ℓ} {p : Part σ ρ} {r r' : ρ} (l : ℓ)
    (h : ∀ s, p.get s = r → M.step s l = some (p.put r' s)) : M.Allows p r r' := by
  intro s hs
  exact ⟨[l], exec_single (h s hs)⟩

variable (M : Lts σ ℓ) (A : Lts τ κ) (p : Part σ ρ) (q : Part τ ρ) (owns : ℓ → Bool) (owns' : κ → Bool)

/-- `M` and `A` on one part. -/
def share : Lts (σ × τ) (ℓ ⊕ κ) where
  init x := M.init x.1 ∧ A.init x.2 ∧ p.get x.1 = q.get x.2
  step x
    | .inl l => if owns l then (M.step x.1 l).map fun s => (s, q.put (p.get s) x.2) else none
    | .inr k => if owns' k then (A.step x.2 k).map fun t => (p.put (q.get t) x.1, t) else none

variable {M A p q owns owns'} {x x' : σ × τ}

theorem share_cases {l : ℓ ⊕ κ} (h : (M.share A p q owns owns').step x l = some x') :
    (∃ l s, owns l = true ∧ M.step x.1 l = some s ∧ x' = (s, q.put (p.get s) x.2)) ∨
      ∃ k t, owns' k = true ∧ A.step x.2 k = some t ∧ x' = (p.put (q.get t) x.1, t) := by
  rcases l with l | k
  · simp only [share] at h
    split_ifs at h with hl
    obtain ⟨s, hs, rfl⟩ := Option.map_eq_some_iff.mp h
    exact .inl ⟨l, s, hl, hs, rfl⟩
  · simp only [share] at h
    split_ifs at h with hk
    obtain ⟨t, ht, rfl⟩ := Option.map_eq_some_iff.mp h
    exact .inr ⟨k, t, hk, ht, rfl⟩

/-- Both find the same. -/
theorem reach_agree (hx : (M.share A p q owns owns').Reachable x) : p.get x.1 = q.get x.2 := by
  refine hx.invariant (I := fun x => p.get x.1 = q.get x.2) (fun y h0 => ?_) fun y l y' _ _ hst => ?_
  · obtain ⟨-, -, hagree⟩ := h0
    exact hagree
  · rcases share_cases hst with ⟨l, s, -, -, rfl⟩ | ⟨k, t, -, -, rfl⟩
    · exact (q.get_put _ _).symm
    · exact p.get_put _ _

/-- **A run of both is a run of the first**, if it allows what the second does to the part. -/
theorem reach_fst (hA : ∀ t k t', owns' k = true → A.step t k = some t' → M.Allows p (q.get t) (q.get t'))
    (hx : (M.share A p q owns owns').Reachable x) : M.Reachable x.1 := by
  refine hx.invariant_of (I := fun x => M.Reachable x.1) (fun _ hy => reach_agree hy) (fun y h0 => ?_)
    fun y l y' hagree h _ hst => ?_
  · obtain ⟨hinit, -, -⟩ := h0
    exact .init hinit
  · rcases share_cases hst with ⟨l, s, -, hs, rfl⟩ | ⟨k, t, hk, ht, rfl⟩
    · exact .step h trivial hs
    · obtain ⟨ls, hls⟩ := hA _ _ _ hk ht y.1 hagree
      exact h.exec hls

/-- **And one of the second**, if it allows what the first does. -/
theorem reach_snd (hM : ∀ s l s', owns l = true → M.step s l = some s' → A.Allows q (p.get s) (p.get s'))
    (hx : (M.share A p q owns owns').Reachable x) : A.Reachable x.2 := by
  refine hx.invariant_of (I := fun x => A.Reachable x.2) (fun _ hy => reach_agree hy) (fun y h0 => ?_)
    fun y l y' hagree h _ hst => ?_
  · obtain ⟨-, hinit, -⟩ := h0
    exact .init hinit
  · rcases share_cases hst with ⟨l, s, hl, hs, rfl⟩ | ⟨k, t, -, ht, rfl⟩
    · obtain ⟨ks, hks⟩ := hM _ _ _ hl hs y.2 hagree.symm
      exact h.exec hks
    · exact .step h trivial ht

end Sharing

end Lts

end Lib
