import Grebe.DecimationRun
import Grebe.Frame

/-!
# Grebe.DecimationFrames — when a published frame can be cut into slices

`DecimationOutput` has one vertex count for all channels.  A cycle stores that of the last channel, and the channels are
decimated each from its own history: one that is shorter than the target passes through with its own length.

* `sliced_iff`: a concatenation can be cut into the slices it should have exactly when they all have one length.
* `frames_sliced_iff`: which published frames are so, on both paths and in every run.
* `uneven_published`: a run whose two channels have histories of 3 and of 5 samples.
-/

namespace Grebe

open DecimationCycle

/-! ## Slices -/

namespace Publication

section Slices

variable {N : ℕ} (p : Publication N)

/-- What the slice of channel `ch` is to hold: its history decimated, or the padding. -/
def content (ch : Fin N) : List Int16 :=
  if p.histories ch = [] then padding p.target
  else Decimator.decimate (p.histories ch) (p.settings ch).effectiveMode (p.settings ch).targetPoints.toNat

/-- The data is as many slices of the vertex count as there are channels, and each holds what it is to hold. -/
def Sliced : Prop :=
  p.frame.data.length = N * p.frame.perChVtx.toNat ∧
    ∀ ch : Fin N, (p.frame.data.drop (ch * p.frame.perChVtx.toNat)).take p.frame.perChVtx.toNat = p.content ch

/-- How many samples a mode leaves of `len`. -/
def decimatedLength (mode : DecimationMode) (target len : ℕ) : ℕ :=
  match mode with
  | .none => len
  | .minMax => if target < 2 then 0 else if len ≤ target then len else 2 * (target / 2)
  | .lttb => if target < 3 then 0 else if len ≤ target then len else target

/-- How many vertices channel `ch` is to have. -/
def vertices (ch : Fin N) : ℕ :=
  if (p.histories ch).length = 0 then p.target.toNat
  else decimatedLength (p.settings ch).effectiveMode (p.settings ch).targetPoints.toNat (p.histories ch).length

/-- All channels are to have the same number of vertices, which fits the count. -/
def Even : Prop := ∃ v < 2 ^ 32, ∀ ch, p.vertices ch = v

variable {p}

theorem content_of_nil {ch : Fin N} (h : p.histories ch = []) : p.content ch = padding p.target := by
  rw [content, if_pos h]

theorem content_of_ne {ch : Fin N} (h : p.histories ch ≠ []) :
    p.content ch = Decimator.decimate (p.histories ch) (p.settings ch).effectiveMode
      (p.settings ch).targetPoints.toNat := by
  rw [content, if_neg h]

theorem length_content (ch : Fin N) : (p.content ch).length = p.vertices ch := by
  by_cases hne : p.histories ch = []
  · rw [content_of_nil hne, vertices, if_pos (by rw [hne, List.length_nil])]
    exact List.length_replicate
  · rw [content_of_ne hne, vertices, if_neg (by rwa [List.length_eq_zero_iff])]
    unfold decimatedLength
    cases (p.settings ch).effectiveMode with
    | none => rfl
    | minMax => exact Decimator.length_minmax ..
    | lttb => exact Decimator.length_lttb ..

/-- The vertex count of pieces of one length is that length. -/
theorem foldl_length {pieces : List (List Int16)} {v : ℕ} (h : ∀ piece ∈ pieces, piece.length = v)
    (hne : pieces ≠ []) : pieces.foldl (fun _ dec => UInt32.ofNat dec.length) 0 = UInt32.ofNat v := by
  rcases List.eq_nil_or_concat pieces with rfl | ⟨front, last, rfl⟩
  · exact absurd rfl hne
  · rw [List.concat_eq_append, List.foldl_append, List.foldl_cons, List.foldl_nil, h last (by simp)]

/-- **A concatenation can be cut into the slices that it should have** if and only if it is made of them and they all
have one length. -/
theorem sliced_iff {piece : Fin N → List Int16} {raw : Fin N → ℕ} (hframe : p.frame = gather piece raw)
    (hpiece : ∀ ch, piece ch = p.content ch ∨ p.content ch = []) :
    p.Sliced ↔ p.Even ∧ ∀ ch, piece ch = p.content ch := by
  have hdata : p.frame.data = ((List.finRange N).map piece).flatten := by rw [hframe, gather]
  have hvtx : p.frame.perChVtx = ((List.finRange N).map piece).foldl (fun _ dec => UInt32.ofNat dec.length) 0 := by
    rw [hframe, gather]
  constructor
  · rintro ⟨hlen, hslice⟩
    have hcontent (ch : Fin N) : (p.content ch).length = p.frame.perChVtx.toNat := by
      have hfit : ch.val * p.frame.perChVtx.toNat + p.frame.perChVtx.toNat ≤ N * p.frame.perChVtx.toNat := by
        rw [← Nat.succ_mul]
        exact Nat.mul_le_mul_right _ ch.isLt
      rw [← hslice ch, List.length_take, List.length_drop, hlen]
      omega
    refine ⟨⟨_, p.frame.perChVtx.toNat_lt, fun ch => by rw [← length_content, hcontent]⟩, ?_⟩
    intro ch
    rcases hpiece ch with hsame | hnil
    · exact hsame
    · -- the count is then 0, and so nothing was published
      have hzero : p.frame.perChVtx.toNat = 0 := by rw [← hcontent ch, hnil, List.length_nil]
      rw [hzero, Nat.mul_zero, List.length_eq_zero_iff, hdata, List.flatten_eq_nil_iff] at hlen
      rw [hnil]
      exact hlen _ (List.mem_map_of_mem (List.mem_finRange ch))
  · rintro ⟨⟨v, hv, heven⟩, hsame⟩
    have hpieces : ∀ q ∈ (List.finRange N).map piece, q.length = v := by
      intro q hq
      obtain ⟨ch, -, rfl⟩ := List.mem_map.mp hq
      rw [hsame, length_content, heven]
    have hcount : ((List.finRange N).map piece).length = N := by rw [List.length_map, List.length_finRange]
    rcases Nat.eq_zero_or_pos N with hN | hN
    · subst hN
      exact ⟨by rw [hdata]; simp, fun ch => ch.elim0⟩
    · have hne : (List.finRange N).map piece ≠ [] := by
        rw [← List.length_pos_iff, hcount]
        exact hN
      have hvtx' : p.frame.perChVtx.toNat = v := by
        rw [hvtx, foldl_length hpieces hne, UInt32.toNat_ofNat', Nat.mod_eq_of_lt hv]
      refine ⟨by rw [hdata, length_flatten_of_forall hpieces, hcount, hvtx'], ?_⟩
      intro ch
      rw [hdata, hvtx', take_drop_flatten hpieces (by rw [hcount]; exact ch.isLt), List.getElem_map,
        List.getElem_finRange]
      exact hsame ch

end Slices

end Publication

/-! ## The runs -/

section Runs

variable {n N : ℕ} {toSize : Double → Double → ℕ}

/-- On the single path the slices are what they should be. -/
theorem SingleRun.sliced_decimated_iff (s : SingleRun N) (σ : DecimationSettings) :
    (s.decimated σ).Sliced ↔ (s.decimated σ).Even := by
  have hsame (ch : Fin N) : singlePiece σ (s.histories ch) = (s.decimated σ).content ch := by
    by_cases hne : s.histories ch = []
    · rw [Publication.content_of_nil (p := s.decimated σ) hne, hne]
      rfl
    · rw [Publication.content_of_ne (p := s.decimated σ) hne, singlePiece_of_ne hne]
      rfl
  rw [Publication.sliced_iff rfl fun ch => .inl (hsame ch)]
  exact and_iff_left hsame

theorem SingleRun.reach_published {s : SingleRun N} (hs : (SingleRun.threads toSize N).Reachable s) :
    ∀ p ∈ s.published, p.Sliced ↔ p.Even := by
  refine hs.invariant (I := fun s => ∀ p ∈ s.published, p.Sliced ↔ p.Even) ?_ ?_
  · intro t h0
    obtain ⟨rings, rfl⟩ := h0
    exact nofun
  · intro t l t' h _ hst
    rcases SingleRun.published_cases hst with hsame | ⟨σ, happend⟩
    · rw [hsame]
      exact h
    · rw [happend]
      intro p hp
      rcases List.mem_append.mp hp with hp | hp
      · exact h p hp
      · rw [List.mem_singleton.mp hp]
        exact t.sliced_decimated_iff σ

variable [NeZero n]

/-- Each slot holds the decimation of its history, with the settings that were last used. -/
def DecimationRun.ResultsOk (s : DecimationRun n N) : Prop :=
  ∀ w i, (s.states w).decResults i = decResult (s.used w i) ((s.states w).historyBufs i)

theorem DecimationRun.resultsOk_step {s s' : DecimationRun n N} {l : DecimationRun.Label n N} (h : s.ResultsOk)
    (hst : DecimationRun.Step toSize s l s') : s'.ResultsOk := by
  rcases hst with _ | _ | _ | _ | _ | _ | _ | _ | _ | _ | _ | _
  case pop w _ σ _ j _ _ _ _ d _ _ _ =>
    intro v i
    show (Function.update s.states w _ v).decResults i =
      decResult (Function.update s.used w _ v i) ((Function.update s.states w _ v).historyBufs i)
    by_cases hv : v = w
    · subst hv
      simp only [Function.update_self, DecimationCycle.WorkerState.store]
      by_cases hi : i = j
      · subst hi
        simp only [Function.update_self]
      · simp only [Function.update_of_ne hi]
        exact h v i
    · simp only [Function.update_of_ne hv]
      exact h v i
  all_goals exact h

/-- What a step publishes: nothing, or what is gathered. -/
theorem DecimationRun.published_cases {s s' : DecimationRun n N} {l : DecimationRun.Label n N}
    (hst : DecimationRun.Step toSize s l s') :
    s'.published = s.published ∨ ∃ target, s'.published = s.published ++ [s.gathered target] := by
  rcases hst with _ | _ | _ | _ | _ | _ | _ | _ | _ | _ | _ | _
  case publish => exact .inr ⟨_, rfl⟩
  all_goals exact .inl rfl

/-- The gathering pads a channel whose history leaves nothing. -/
theorem DecimationRun.sliced_gathered_iff {s : DecimationRun n N} (h : s.ResultsOk) (target : UInt32) :
    (s.gathered target).Sliced ↔
      (s.gathered target).Even ∧ ∀ ch, (s.gathered target).vertices ch = 0 → target = 0 := by
  have hdec (ch : Fin N) : (s.states (owner ch)).decResults (slot n ch) =
      if (s.gathered target).histories ch = [] then [] else (s.gathered target).content ch := by
    rw [h]
    by_cases hne : (s.gathered target).histories ch = []
    · rw [if_pos hne, show (s.states (owner ch)).historyBufs (slot n ch) = [] from hne]
      rfl
    · rw [if_neg hne, Publication.content_of_ne hne]
      exact decResult_of_ne hne
  have hpad : padding target = [] ↔ target = 0 := by
    rw [padding, List.replicate_eq_nil_iff, ← UInt32.toNat_inj]
    rfl
  have hpiece (ch : Fin N) : (gatherPiece target ((s.states (owner ch)).decResults (slot n ch)) =
      (s.gathered target).content ch ∨ (s.gathered target).content ch = []) ∧
      (gatherPiece target ((s.states (owner ch)).decResults (slot n ch)) = (s.gathered target).content ch ↔
        ((s.gathered target).vertices ch = 0 → target = 0)) := by
    rw [← Publication.length_content, List.length_eq_zero_iff, hdec]
    by_cases hne : (s.gathered target).histories ch = []
    · have hcontent : (s.gathered target).content ch = padding target := Publication.content_of_nil hne
      rw [if_pos hne, hcontent, hpad]
      exact ⟨.inl rfl, fun _ => id, fun _ => rfl⟩
    · rw [if_neg hne, gatherPiece]
      by_cases hnil : (s.gathered target).content ch = []
      · rw [hnil, if_pos List.isEmpty_nil, hpad]
        exact ⟨.inr rfl, fun h0 _ => h0, fun h0 => h0 rfl⟩
      · rw [if_neg (by rwa [List.isEmpty_iff])]
        exact ⟨.inl rfl, fun _ h0 => absurd h0 hnil, fun _ => rfl⟩
  rw [Publication.sliced_iff rfl fun ch => (hpiece ch).1]
  exact and_congr_right fun _ => forall_congr' fun ch => (hpiece ch).2

theorem DecimationRun.reach_published {s : DecimationRun n N} (hs : (DecimationRun.threads toSize n N).Reachable s) :
    s.ResultsOk ∧ ∀ p ∈ s.published, p.Sliced ↔ p.Even ∧ ∀ ch, p.vertices ch = 0 → p.target = 0 := by
  refine hs.invariant
    (I := fun s => s.ResultsOk ∧ ∀ p ∈ s.published, p.Sliced ↔ p.Even ∧ ∀ ch, p.vertices ch = 0 → p.target = 0)
    (fun t h0 => ?_) fun t l t' h _ hst => ?_
  · obtain ⟨rings, rfl⟩ := h0
    exact ⟨fun _ _ => rfl, nofun⟩
  · have hst' := DecimationRun.step_cases hst
    refine ⟨DecimationRun.resultsOk_step h.1 hst', ?_⟩
    rcases DecimationRun.published_cases hst' with hsame | ⟨target, happend⟩
    · rw [hsame]
      exact h.2
    · rw [happend]
      intro p hp
      rcases List.mem_append.mp hp with hp | hp
      · exact h.2 p hp
      · rw [List.mem_singleton.mp hp]
        exact DecimationRun.sliced_gathered_iff h.1 target

end Runs

section Results

/-- **Which published frames can be cut into slices**, in every run: on the single path those whose channels are all to
have one number of vertices, and with workers too, unless they are all to have none and the gathering pads them. -/
theorem frames_sliced_iff (toSize : Double → Double → ℕ) (N : ℕ) :
    (∀ s, (SingleRun.threads toSize N).Reachable s → ∀ p ∈ s.published, p.Sliced ↔ p.Even) ∧
      ∀ (n : ℕ) [NeZero n] (s), (DecimationRun.threads toSize n N).Reachable s →
        ∀ p ∈ s.published, p.Sliced ↔ p.Even ∧ ∀ ch, p.vertices ch = 0 → p.target = 0 :=
  ⟨fun _ hs => SingleRun.reach_published hs, fun _ _ _ hs => (DecimationRun.reach_published hs).2⟩

/-- A cycle of two workers with a channel each. -/
def DecimationRun.oneCycle (w w' : Fin 2) : List (DecimationRun.Label 2 2) :=
  List.replicate 5 (.coordinator 3840) ++ List.replicate 6 (.worker w (minMaxAt 3840)) ++
    List.replicate 6 (.worker w' (minMaxAt 3840)) ++ List.replicate 2 (.coordinator 3840)

/-- Two channels with histories of three samples. -/
theorem frames_sliced_two :
    ∃ s : DecimationRun 2 2, s.published.length = 1 ∧
      ∀ p ∈ s.published, p.Sliced ↔ p.Even ∧ ∀ ch, p.vertices ch = 0 → p.target = 0 := by
  have hrun : ((DecimationRun.threads (fun _ _ => 10000) 2 2).exec (.started ![ringOf [1, 2, 3], ringOf [4, 5, 6]])
      (DecimationRun.oneCycle 0 1)).map (fun s => s.published.length) = some 1 := by decide +kernel
  obtain ⟨s, hs, hlen⟩ := Option.map_eq_some_iff.mp hrun
  exact ⟨s, hlen, (frames_sliced_iff (fun _ _ => 10000) 2).2 2 s (Lib.Lts.reachable_of_exec _ ⟨_, rfl⟩ hs)⟩

/-- **Two channels with histories of three and of five samples** are published as eight samples and the count 5. -/
theorem uneven_published :
    ∃ s : DecimationRun 2 2, (DecimationRun.threads (fun _ _ => 10000) 2 2).Reachable s ∧
      ∃ p ∈ s.published, p.frame.data = [1, 2, 3, 4, 5, 6, 7, 8] ∧ p.frame.perChVtx = 5 ∧ ¬ p.Sliced := by
  have hrun : ((DecimationRun.threads (fun _ _ => 10000) 2 2).exec
      (.started ![ringOf [1, 2, 3], ringOf [4, 5, 6, 7, 8]]) (DecimationRun.oneCycle 0 1)).map
        (fun s => s.published.map fun p => (p.frame.data, p.frame.perChVtx)) =
      some [([1, 2, 3, 4, 5, 6, 7, 8], 5)] := by decide +kernel
  obtain ⟨s, hs, hpublished⟩ := Option.map_eq_some_iff.mp hrun
  obtain ⟨p, hp, hframe⟩ : ∃ p ∈ s.published, (p.frame.data, p.frame.perChVtx) = ([1, 2, 3, 4, 5, 6, 7, 8], 5) :=
    List.mem_map.mp (by rw [hpublished]; exact List.mem_singleton_self _)
  obtain ⟨hdata, hvtx⟩ := Prod.mk.inj hframe
  refine ⟨s, Lib.Lts.reachable_of_exec _ ⟨_, rfl⟩ hs, p, hp, hdata, hvtx, ?_⟩
  intro hsliced
  have hlen := hsliced.1
  rw [hdata, hvtx] at hlen
  exact absurd hlen (by decide)

end Results

end Grebe
