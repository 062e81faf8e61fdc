import Mathlib.Tactic
import Grebe.Lib.SlidingMin
import Grebe.Lib.BinarySearch
import Grebe.EnvelopeVerifier

/-!
# Grebe.WindowSet — the window set is exact

`buildWindowSetAt` is `build_window_set` with its one loop over both deques and every access checked: `none` is a read of
an empty deque or outside of a vector.

* `enterDeque_eq`: one index enters a deque as `Lib.slideMin` lets it in.
* `buildWindowSetAt_eq`: no access fails, and the set is the one of `Grebe.EnvelopeVerifier`.
* `buildWindowSetAt_exact`: the set increases strictly and has exactly the extremes of the cyclic windows.
-/

namespace Grebe.EnvelopeVerifier

open Lib

/-! ## The loop -/

section Loop

/-- `pop_front` -/
def popFront : List ℕ → Option (List ℕ)
  | [] => none
  | _ :: dq => some dq

/-- While the deque is not empty and `out` holds of the sample at its back, the back leaves. -/
def popLoop (buf : List Int16) (out : Int16 → Bool) (dq : List ℕ) : Option (List ℕ) :=
  if dq = [] then some []
  else
    dq.getLast?.bind fun back =>
      buf[back]?.bind fun y => if out y then popLoop buf out dq.dropLast else some dq
termination_by dq.length
decreasing_by
  rw [List.length_dropLast]
  have := List.length_pos_iff.mpr ‹dq ≠ []›
  omega

/-- Index `i` enters a deque: `out y x` says that a sample `y` at the back makes room for a sample `x`. -/
def enterDeque (buf : List Int16) (out : Int16 → Int16 → Bool) (windowSize : ℕ) (dq : List ℕ) (i : ℕ) :
    Option (List ℕ) :=
  buf[i]?.bind fun x =>
    (popLoop buf (fun y => out y x) dq).bind fun dq =>
      let dq := dq ++ [i]
      dq.head?.bind fun front => if front + windowSize ≤ i then popFront dq else some dq

/-- `xs[s] = x` -/
def assign (xs : List Int16) (s : ℕ) (x : Int16) : Option (List Int16) := if s < xs.length then some (xs.set s x) else none

structure WindowLoop where
  dqMin : List ℕ
  dqMax : List ℕ
  wmins : List Int16
  wmaxs : List Int16

/-- One iteration. -/
def windowStep (buf : List Int16) (windowSize : ℕ) (st : WindowLoop) (i : ℕ) : Option WindowLoop :=
  (enterDeque buf (fun y x => y ≥ x) windowSize st.dqMin i).bind fun dqMin =>
    (enterDeque buf (fun y x => y ≤ x) windowSize st.dqMax i).bind fun dqMax =>
      if windowSize - 1 ≤ i then
        let s := i + 1 - windowSize
        (dqMin.head?.bind fun front => buf[front]?.bind fun x => assign st.wmins s x).bind fun wmins =>
          (dqMax.head?.bind fun front => buf[front]?.bind fun x => assign st.wmaxs s x).bind fun wmaxs =>
            some ⟨dqMin, dqMax, wmins, wmaxs⟩
      else some ⟨dqMin, dqMax, st.wmins, st.wmaxs⟩

/-- `EnvelopeVerifier::build_window_set` -/
def buildWindowSetAt (periodBuf : List Int16) (windowSize : ℕ) : Option (List UInt32) :=
  let periodLen := periodBuf.length
  if windowSize = 0 ∨ periodLen = 0 then some []
  else if periodLen ≤ windowSize then
    periodBuf[0]?.map fun first =>
      [packPair (periodBuf.tail.foldl Decimator.lower first) (periodBuf.tail.foldl Decimator.upper first)]
  else
    let total := periodLen + windowSize - 1
    let buf := extended periodBuf windowSize
    ((List.range total).foldlM (windowStep buf windowSize)
      ⟨[], [], List.replicate periodLen 0, List.replicate periodLen 0⟩).bind fun st =>
        ((List.range periodLen).mapM fun s =>
          st.wmins[s]?.bind fun lo => st.wmaxs[s]?.map fun hi => packPair lo hi).map fun out =>
            unique (out.mergeSort (· ≤ ·))

end Loop

/-! ## One index enters -/

section Enter

variable {buf : List Int16} {out : Int16 → Int16 → Bool} {w i : ℕ} {dq : List ℕ}

theorem popLoop_eq (x : Int16) (h : ∀ j ∈ dq, j < buf.length) :
    popLoop buf (fun y => out y x) dq = some (dq.rdropWhile fun j => out (buf.getD j 0) x) := by
  induction dq using List.reverseRecOn with
  | nil =>
    rw [popLoop.eq_def, if_pos rfl]
    rfl
  | append_singleton dq j ih =>
    have hread := getElem?_of_lt 0 (h j (by simp))
    rw [popLoop.eq_def, if_neg (by simp), List.getLast?_concat, Option.bind_some, hread, Option.bind_some,
      List.dropLast_concat, List.rdropWhile_concat]
    split_ifs
    · exact ih fun k hk => h k (List.mem_append_left _ hk)
    · rfl

/-- The deque is not empty when its front is looked at. -/
theorem enterDeque_eq (hi : i < buf.length) (h : ∀ j ∈ dq, j < buf.length) :
    enterDeque buf out w dq i = some
      (match dq.rdropWhile (fun j => out (buf.getD j 0) (buf.getD i 0)) ++ [i] with
      | [] => []
      | front :: rest => if front + w ≤ i then rest else front :: rest) := by
  rw [enterDeque, getElem?_of_lt 0 hi, Option.bind_some, popLoop_eq _ h, Option.bind_some]
  cases hq : dq.rdropWhile (fun j => out (buf.getD j 0) (buf.getD i 0)) ++ [i] with
  | nil => simp at hq
  | cons front rest =>
    simp only [List.head?_cons, Option.bind_some, popFront]
    split_ifs <;> rfl

end Enter

/-! ## The whole loop -/

section Run

variable {period : List Int16} {w n s : ℕ} {x : UInt32}

/-- `buf[i]` -/
abbrev bufAt (period : List Int16) (w i : ℕ) : Int16 := (extended period w).getD i 0

theorem length_extended (period : List Int16) (w : ℕ) : (extended period w).length = period.length + w - 1 := by
  simp [extended]

/-- The state before index `n`, from the loops over the one deque and over the other. -/
def windowLoopAt (period : List Int16) (w n : ℕ) : WindowLoop where
  dqMin := (List.range n).foldl (slideMin (bufAt period w) w) []
  dqMax := (List.range n).foldl (slideMax (bufAt period w) w) []
  wmins := ((List.range n).foldl (extremeStep w (slideMin (bufAt period w) w) (extended period w))
    ([], List.replicate period.length 0)).2
  wmaxs := ((List.range n).foldl (extremeStep w (slideMax (bufAt period w) w) (extended period w))
    ([], List.replicate period.length 0)).2

theorem foldl_range_succ {β : Type} (f : β → ℕ → β) (b : β) (n : ℕ) :
    (List.range (n + 1)).foldl f b = f ((List.range n).foldl f b) n := by
  rw [List.range_succ, List.foldl_append]
  rfl

/-- What a half of the loop makes of its results at index `n`. -/
theorem assign_front (slide : List ℕ → ℕ → List ℕ) (hn : n < period.length + w - 1) (hw : w - 1 ≤ n)
    (hne : (List.range (n + 1)).foldl slide [] ≠ [])
    (hlt : ((List.range (n + 1)).foldl slide []).headD 0 < n + 1) :
    (((List.range (n + 1)).foldl slide []).head?.bind fun front =>
        (extended period w)[front]?.bind fun x =>
          assign ((List.range n).foldl (extremeStep w slide (extended period w)) ([], List.replicate period.length 0)).2
            (n + 1 - w) x) =
      some ((List.range (n + 1)).foldl (extremeStep w slide (extended period w))
        ([], List.replicate period.length 0)).2 := by
  obtain ⟨hdq, hlen⟩ := extremeStep_run period w slide (extended period w) n
  rw [foldl_range_succ (extremeStep w slide (extended period w)), extremeStep]
  dsimp only
  rw [hdq, if_pos hw, ← foldl_range_succ slide]
  generalize (List.range (n + 1)).foldl slide [] = dq at hne hlt
  obtain ⟨front, rest, rfl⟩ := List.exists_cons_of_ne_nil hne
  have hfront : front < (extended period w).length := by
    rw [length_extended]
    exact lt_of_lt_of_le hlt hn
  rw [List.head?_cons, Option.bind_some, getElem?_of_lt 0 hfront, Option.bind_some, assign, if_pos (by omega)]
  rfl

/-- **One iteration**: no deque is empty when it is looked at, and no access is out of bounds. -/
theorem windowStep_eq (hw : 0 < w) (hn : n < period.length + w - 1) :
    windowStep (extended period w) w (windowLoopAt period w n) n = some (windowLoopAt period w (n + 1)) := by
  have hmin : SlidingMin (bufAt period w) w n _ := slidingMin_run n
  have hmax : SlidingMax (bufAt period w) w n _ := slidingMax_run n
  have hmin' : SlidingMin (bufAt period w) w (n + 1) _ := slidingMin_run (n + 1)
  have hmax' : SlidingMax (bufAt period w) w (n + 1) _ := slidingMax_run (n + 1)
  have hlen := length_extended period w
  have henterMin : enterDeque (extended period w) (fun y x => y ≥ x) w (windowLoopAt period w n).dqMin n =
      some (windowLoopAt period w (n + 1)).dqMin := by
    rw [enterDeque_eq (by omega) fun j hj => by have := (hmin.within j hj).1; omega]
    exact congrArg some (foldl_range_succ (slideMin (bufAt period w) w) [] n).symm
  have henterMax : enterDeque (extended period w) (fun y x => y ≤ x) w (windowLoopAt period w n).dqMax n =
      some (windowLoopAt period w (n + 1)).dqMax := by
    rw [enterDeque_eq (by omega) fun j hj => by have := (hmax.within j hj).1; omega]
    exact congrArg some (foldl_range_succ (slideMax (bufAt period w) w) [] n).symm
  rw [windowStep, henterMin, Option.bind_some, henterMax, Option.bind_some]
  by_cases hfull : w - 1 ≤ n
  · have hwmins := assign_front _ hn hfull (hmin'.ne_nil hw n.succ_pos) (hmin'.front hw n.succ_pos 0).1.1
    have hwmaxs := assign_front _ hn hfull (hmax'.ne_nil hw n.succ_pos) (hmax'.front hw n.succ_pos 0).1.1
    rw [if_pos hfull]
    dsimp only [windowLoopAt]
    rw [hwmins, Option.bind_some, hwmaxs, Option.bind_some]
  · have hkept : ∀ slide : List ℕ → ℕ → List ℕ,
        ((List.range (n + 1)).foldl (extremeStep w slide (extended period w)) ([], List.replicate period.length 0)).2 =
          ((List.range n).foldl (extremeStep w slide (extended period w)) ([], List.replicate period.length 0)).2 := by
      intro slide
      rw [foldl_range_succ, extremeStep]
      exact if_neg hfull
    rw [if_neg hfull]
    dsimp only [windowLoopAt]
    rw [hkept, hkept]

theorem windowLoop_run (hw : 0 < w) (hn : n ≤ period.length + w - 1) :
    (List.range n).foldlM (windowStep (extended period w) w)
      ⟨[], [], List.replicate period.length 0, List.replicate period.length 0⟩ = some (windowLoopAt period w n) := by
  induction n with
  | zero => rfl
  | succ n ih =>
    rw [List.range_succ, List.foldlM_append, ih (by omega)]
    change (windowStep (extended period w) w (windowLoopAt period w n) n).bind some = _
    rw [windowStep_eq hw hn, Option.bind_some]

/-- **No access fails**, and the set is the one of the two separate loops. -/
theorem buildWindowSetAt_eq (period : List Int16) (w : ℕ) : buildWindowSetAt period w = some (buildWindowSet period w) := by
  rw [buildWindowSetAt, buildWindowSet]
  dsimp only
  split_ifs with hnone hle
  · rfl
  · rw [getElem?_of_lt 0 (by omega)]
    rfl
  · have hlen : ∀ slide : List ℕ → ℕ → List ℕ,
        ((List.range (period.length + w - 1)).foldl (extremeStep w slide (extended period w))
          ([], List.replicate period.length 0)).2.length = period.length := fun slide =>
      (extremeStep_run period w slide (extended period w) _).2
    rw [windowLoop_run (by omega) le_rfl, Option.bind_some, mapM_eq_map fun s hs => ?_, Option.map_some]
    have hs := List.mem_range.mp hs
    dsimp only [windowLoopAt]
    rw [getElem?_of_lt 0 (by rw [hlen]; exact hs), Option.bind_some, getElem?_of_lt 0 (by rw [hlen]; exact hs),
      Option.map_some]
    rfl

end Run

/-! ## The set -/

section Exact

variable {period : List Int16} {w s : ℕ} {x : UInt32}

/-- A window that is not empty has extremes. -/
theorem exists_extremes (hw : 0 < w) (period : List Int16) (s : ℕ) :
    ∃ lo hi : Int16, (cyclic period s w).minimum = lo ∧ (cyclic period s w).maximum = hi := by
  have hne : cyclic period s w ≠ [] := List.ne_nil_of_length_pos (by rwa [length_cyclic])
  exact ⟨_, _, (Decimator.boundsScalar_extremes _ hne).1, (Decimator.boundsScalar_extremes _ hne).2⟩

/-- Every pair of the set comes from a window. -/
theorem exists_window (hp : 0 < period.length) (hw : 0 < w) (hx : x ∈ buildWindowSet period w) :
    ∃ s < period.length, ∃ lo hi : Int16, (cyclic period s w).minimum = lo ∧ (cyclic period s w).maximum = hi ∧
      x = packPair lo hi := by
  rw [buildWindowSet, if_neg (by omega)] at hx
  split_ifs at hx with hle
  · -- the one pair is that of any window
    obtain ⟨lo, hi, hlo, hhi⟩ := exists_extremes hw period 0
    have hmem := mem_buildWindowSet hp hw hlo hhi
    rw [buildWindowSet, if_neg (by omega), if_pos hle, List.mem_singleton] at hmem
    rw [List.mem_singleton, ← hmem] at hx
    exact ⟨0, hp, lo, hi, hlo, hhi, hx⟩
  · rw [mem_unique, List.mem_mergeSort, List.mem_map] at hx
    obtain ⟨s, hs, rfl⟩ := hx
    have hs := List.mem_range.mp hs
    obtain ⟨lo, hi, hlo, hhi⟩ := exists_extremes hw period s
    exact ⟨s, hs, lo, hi, hlo, hhi, by rw [wmins_eq hw hs hlo, wmaxs_eq hw hs hhi]⟩

theorem mem_buildWindowSet_iff (hp : 0 < period.length) (hw : 0 < w) :
    x ∈ buildWindowSet period w ↔ ∃ s < period.length, ∃ lo hi : Int16,
      (cyclic period s w).minimum = lo ∧ (cyclic period s w).maximum = hi ∧ x = packPair lo hi := by
  refine ⟨exists_window hp hw, ?_⟩
  rintro ⟨s, -, lo, hi, hlo, hhi, rfl⟩
  exact mem_buildWindowSet hp hw hlo hhi

/-- **The window set is exact.**  For every period and every window size no access fails, and the set increases strictly and
has exactly the packed extremes of the cyclic windows of that size. -/
theorem buildWindowSetAt_exact (period : List Int16) (w : ℕ) (hp : 0 < period.length) (hw : 0 < w) :
    ∃ set, buildWindowSetAt period w = some set ∧ set.Pairwise (· < ·) ∧
      ∀ x, x ∈ set ↔ ∃ s < period.length, ∃ lo hi : Int16,
        (cyclic period s w).minimum = lo ∧ (cyclic period s w).maximum = hi ∧ x = packPair lo hi :=
  ⟨_, buildWindowSetAt_eq period w, pairwise_buildWindowSet period w, fun _ => mem_buildWindowSet_iff hp hw⟩

theorem buildWindowSetAt_exact_three :
    ∃ set, buildWindowSetAt [1, -2, 3] 2 = some set ∧ set.Pairwise (· < ·) := by
  obtain ⟨set, heq, hsorted, -⟩ := buildWindowSetAt_exact [1, -2, 3] 2 (by decide) (by decide)
  exact ⟨set, heq, hsorted⟩

end Exact

end Grebe.EnvelopeVerifier
