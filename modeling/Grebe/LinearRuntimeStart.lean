import Mathlib.Tactic
import Grebe.Lib.Lts
import Grebe.LinearRuntime

/-!
# Grebe.LinearRuntimeStart — the launches and the first steps of the workers

`start` launches the thread of a worker and appends its state to `workers` afterwards, while `worker_func` begins with
two reads of `workers[stage_index]`, one for each of its counters.  Such a read is two steps here: the place of the
element is looked up, then what stands there is used.  Nothing orders the steps of the loop and those of the workers.

* `faults`: the lookups past the end of `workers`, and the appends that come between a lookup and its use.
* `InTurn`: the schedules in which the loop is past the append of a worker that looks up, and waits for its use.
* `finds_state_iff`: those are the runs without a fault, and in them each worker finds its own state.  Only a runtime
  without stages has no other runs.
* `worker_ahead`: the first worker looks for its state before it is there.
-/

namespace Grebe

open Lib

/-- Where a worker is before its loop; `left` counts the reads of `workers` after this one. -/
inductive WorkerStartPc
  | notLaunched
  | lookup (left : ℕ)
  | use (left : ℕ)
  | running
deriving DecidableEq

/-- What must not happen to the read of a worker. -/
inductive StartFault
  /-- worker `i` looks past the end of `workers` -/
  | outOfRange (i : ℕ)
  /-- `workers` grows after worker `i` has looked and before it uses what it found -/
  | grown (i : ℕ)
deriving DecidableEq

/-- `start` from its second loop on. -/
structure RuntimeStart where
  /-- the `i` of the loop -/
  iteration : ℕ
  /-- the thread of this iteration is launched -/
  launched : Bool
  /-- the vector, each state by the number of its worker -/
  workers : List ℕ
  pcs : ℕ → WorkerStartPc
  /-- for each use, the worker and the state it got, if any -/
  found : List (ℕ × Option ℕ)
  faults : List StartFault

namespace RuntimeStart

/-! ## Steps -/

section Steps

inductive Label
  /-- `std::thread` of the iteration -/
  | launch
  /-- `push_back` of the iteration -/
  | append
  | lookup (i : ℕ)
  | use (i : ℕ)

/-- After `workers.clear()`. -/
def cleared : RuntimeStart where
  iteration := 0
  launched := false
  workers := []
  pcs _ := .notLaunched
  found := []
  faults := []

def looking : WorkerStartPc → Bool
  | .use _ => true
  | _ => false

variable (s : RuntimeStart)

def goto (i : ℕ) (pc : WorkerStartPc) : RuntimeStart := { s with pcs := Function.update s.pcs i pc }

/-- The workers of `n` that hold a place in `workers` not yet used. -/
def lookers (n : ℕ) : List ℕ := (List.range n).filter fun i => looking (s.pcs i)

def fault (new : List StartFault) : RuntimeStart := { s with faults := s.faults ++ new }

/-- What the lookup of worker `i` is. -/
def lookupFault (i : ℕ) : List StartFault := if i < s.workers.length then [] else [.outOfRange i]

/-- `n` is the number of entries. -/
def step (n : ℕ) : Label → Option RuntimeStart
  | .launch =>
    if s.iteration < n ∧ s.launched = false then
      -- two counters are read
      some { s.goto s.iteration (.lookup 1) with launched := true }
    else none
  | .append =>
    if s.launched then
      some { s.fault ((s.lookers n).map .grown) with
        workers := s.workers ++ [s.iteration], iteration := s.iteration + 1, launched := false }
    else none
  | .lookup i =>
    match s.pcs i with
    | .lookup left => some ((s.fault (s.lookupFault i)).goto i (.use left))
    | _ => none
  | .use i =>
    match s.pcs i with
    | .use left =>
      let next := match left with
        | 0 => .running
        | left + 1 => .lookup left
      some { s.goto i next with found := s.found ++ [(i, s.workers[i]?)] }
    | _ => none

/-- The launches of a runtime and the first steps of its workers; without entries, `start` returns at once. -/
def starting (entries : List StageEntry) : Lts RuntimeStart Label where
  init s := s = cleared
  step s := s.step entries.length

/-- What one step does. -/
inductive Step (n : ℕ) : Label → RuntimeStart → Prop
  | launch (hn : s.iteration < n) (hl : s.launched = false) :
      Step n .launch { s.goto s.iteration (.lookup 1) with launched := true }
  | append (hl : s.launched = true) :
      Step n .append { s.fault ((s.lookers n).map .grown) with
        workers := s.workers ++ [s.iteration], iteration := s.iteration + 1, launched := false }
  | lookup (i left : ℕ) (hpc : s.pcs i = .lookup left) :
      Step n (.lookup i) ((s.fault (s.lookupFault i)).goto i (.use left))
  | use (i left : ℕ) (pc : WorkerStartPc) (hpc : s.pcs i = .use left) (hlooking : looking pc = false) :
      Step n (.use i) { s.goto i pc with found := s.found ++ [(i, s.workers[i]?)] }

variable {s}

theorem step_cases {n : ℕ} {l : Label} {s' : RuntimeStart} (h : s.step n l = some s') : s.Step n l s' := by
  cases l with
  | launch =>
    simp only [step] at h
    split_ifs at h with hc
    cases h
    exact .launch hc.1 hc.2
  | append =>
    simp only [step] at h
    split_ifs at h with hl
    cases h
    exact .append hl
  | lookup i =>
    simp only [step] at h
    split at h
    case h_1 left hpc =>
      cases h
      exact .lookup i left hpc
    case h_2 => cases h
  | use i =>
    simp only [step] at h
    split at h
    case h_1 left hpc =>
      cases h
      cases left with
      | zero => exact .use i 0 _ hpc rfl
      | succ left => exact .use i (left + 1) _ hpc rfl
    case h_2 => cases h

end Steps

/-! ## The vector and the loop -/

section Vector

variable {entries : List StageEntry} {s s' : RuntimeStart}

/-- What the loop has appended, and whom it has launched. -/
structure Appended (n : ℕ) (s : RuntimeStart) : Prop where
  workers : s.workers = List.range s.iteration
  launched : ∀ i, s.pcs i ≠ .notLaunched → i < s.iteration ∨ (i = s.iteration ∧ s.launched = true)
  entries : s.iteration + (if s.launched then 1 else 0) ≤ n

theorem goto_cases (s : RuntimeStart) (i j : ℕ) (pc : WorkerStartPc) :
    (j = i ∧ (s.goto i pc).pcs j = pc) ∨ (s.goto i pc).pcs j = s.pcs j := by
  by_cases hj : j = i
  · subst hj
    exact .inl ⟨rfl, Function.update_self _ _ _⟩
  · exact .inr (Function.update_of_ne hj _ _)

theorem appended_step {n : ℕ} {l : Label} (h : Appended n s) (hst : s.step n l = some s') : Appended n s' := by
  -- a worker that has been launched makes its steps without the loop
  have hgo : ∀ {i pc}, s.pcs i ≠ .notLaunched → ∀ j, (s.goto i pc).pcs j ≠ .notLaunched →
      j < s.iteration ∨ (j = s.iteration ∧ s.launched = true) := by
    intro i pc hi j hj
    rcases goto_cases s i j pc with ⟨rfl, -⟩ | hother
    · exact h.launched j hi
    · exact h.launched j (hother ▸ hj)
  rcases step_cases hst with ⟨hn, hl⟩ | hl | ⟨i, left, hpc⟩ | ⟨i, left, pc, hpc, -⟩
  case launch =>
    refine ⟨h.workers, ?_, hn⟩
    intro j hj
    rcases goto_cases s s.iteration j (.lookup 1) with ⟨rfl, -⟩ | hother
    · exact .inr ⟨rfl, rfl⟩
    · obtain hlt | ⟨heq, -⟩ := h.launched j (hother ▸ hj)
      · exact .inl hlt
      · exact .inr ⟨heq, rfl⟩
  case append =>
    refine ⟨?_, fun j hj => ?_, ?_⟩
    · show s.workers ++ [s.iteration] = List.range (s.iteration + 1)
      rw [h.workers, List.range_succ]
    · obtain hlt | ⟨rfl, -⟩ := h.launched j hj
      · exact .inl (Nat.lt_succ_of_lt hlt)
      · exact .inl (Nat.lt_succ_self _)
    · have := h.entries
      rwa [hl] at this
  case lookup => exact ⟨h.workers, hgo (by rw [hpc]; nofun), h.entries⟩
  case use => exact ⟨h.workers, hgo (by rw [hpc]; nofun), h.entries⟩

theorem reach_appended (hs : (starting entries).Reachable s) : Appended entries.length s := by
  refine hs.invariant (I := Appended entries.length) (fun t h0 => ?_) fun _ _ _ h _ hst => appended_step h hst
  rw [show t = cleared from h0]
  exact ⟨rfl, fun i hi => absurd rfl hi, Nat.zero_le _⟩

end Vector

/-! ## Runs in turn -/

section InTurn

variable {entries : List StageEntry} {s s' : RuntimeStart}

/-- A worker looks for its state only after the loop has ended the iteration of its launch, and the loop ends no
iteration while a worker has yet to use what it found. -/
def InTurn (n : ℕ) (s : RuntimeStart) : Label → Prop
  | .lookup i => i < s.iteration
  | .append => s.lookers n = []
  | _ => True

instance (n : ℕ) (s : RuntimeStart) : ∀ l, Decidable (InTurn n s l)
  | .lookup i => inferInstanceAs (Decidable (i < s.iteration))
  | .append => inferInstanceAs (Decidable (s.lookers n = []))
  | .launch | .use _ => inferInstanceAs (Decidable True)

/-- **The runs without a fault are those in turn.** -/
theorem faultless_iff (hs : (starting entries).Reachable s) :
    s.faults = [] ↔ (starting entries).Reach (InTurn entries.length) s := by
  have hiff := hs.unmarked_iff (InTurn entries.length) (fun s => s.faults ≠ []) ?_ ?_ ?_
  · rwa [not_not] at hiff
  · intro t h0
    rw [show t = cleared from h0]
    exact not_not.mpr rfl
  · intro t l t' hst hfaults
    rcases step_cases hst with _ | _ | _ | _
    case append => exact fun h => hfaults (List.append_eq_nil_iff.mp h).1
    case lookup => exact fun h => hfaults (List.append_eq_nil_iff.mp h).1
    all_goals exact hfaults
  · intro t l t' ht hfaults hst
    rw [not_not] at hfaults
    rcases step_cases hst with _ | _ | ⟨i, left, hpc⟩ | _
    case append =>
      show t.faults ++ _ ≠ [] ↔ ¬ t.lookers entries.length = []
      rw [hfaults, List.nil_append, Ne, List.map_eq_nil_iff]
    case lookup =>
      show t.faults ++ t.lookupFault i ≠ [] ↔ ¬ i < t.iteration
      rw [hfaults, List.nil_append, lookupFault, (reach_appended ht.reachable).workers, List.length_range]
      split_ifs with hi <;> simp [hi]
    all_goals exact iff_of_false (not_not.mpr hfaults) (not_not.mpr trivial)

/-- A worker that has looked is past its append, and finds its own state. -/
structure Found (s : RuntimeStart) : Prop where
  inRange : ∀ i, looking (s.pcs i) = true → i < s.workers.length
  own : ∀ e ∈ s.found, e.2 = some e.1

theorem reach_found (hs : (starting entries).Reach (InTurn entries.length) s) : Found s := by
  refine hs.invariant_of (I := Found) (J := Appended entries.length) (fun _ h => reach_appended h.reachable)
    (fun t h0 => ?_) ?_
  · rw [show t = cleared from h0]
    exact ⟨nofun, nofun⟩
  · rintro t l t' hA ⟨hlook, hfound⟩ hturn hst
    have hgo : ∀ {i pc}, (looking pc = true → i < t.workers.length) → ∀ j, looking ((t.goto i pc).pcs j) = true →
        j < t.workers.length := by
      intro i pc hi j hj
      rcases goto_cases t i j pc with ⟨rfl, hpc⟩ | hother
      · exact hi (hpc ▸ hj)
      · exact hlook j (hother ▸ hj)
    rcases step_cases hst with _ | _ | ⟨i, left, hpc⟩ | ⟨i, left, pc, hpc, hlooking⟩
    case launch => exact ⟨hgo nofun, hfound⟩
    case append =>
      refine ⟨?_, hfound⟩
      intro j hj
      exact (hlook j hj).trans_le (by simp)
    case lookup =>
      have hi : i < t.workers.length := by
        rw [hA.workers, List.length_range]
        exact hturn
      exact ⟨hgo fun _ => hi, hfound⟩
    case use =>
      refine ⟨hgo fun h => absurd (hlooking.symm.trans h) (by decide), ?_⟩
      intro e he
      rcases List.mem_append.mp he with he | he
      · exact hfound e he
      · obtain rfl := List.mem_singleton.mp he
        have hi := hlook i (by rw [hpc]; rfl)
        rw [hA.workers, List.length_range] at hi
        show t.workers[i]? = some i
        rw [hA.workers, List.getElem?_range hi]

/-- **When every worker finds its own state**: in the runs in turn.  All runs are, only where there is no stage. -/
theorem finds_state_iff (entries : List StageEntry) :
    (∀ s, (starting entries).Reachable s →
      (s.faults = [] ↔ (starting entries).Reach (InTurn entries.length) s) ∧
      (s.faults = [] → Found s)) ∧
    ((∀ s, (starting entries).Reachable s → s.faults = []) ↔ entries = []) := by
  refine ⟨fun s hs => ⟨faultless_iff hs, fun h => reach_found ((faultless_iff hs).mp h)⟩, fun h => ?_, ?_⟩
  · by_contra hne
    have hlen : 0 < entries.length := List.length_pos_iff.mpr hne
    -- the first worker looks before the first append
    let launched : RuntimeStart := { cleared.goto 0 (.lookup 1) with launched := true }
    have hlaunch : (starting entries).step cleared .launch = some launched := if_pos ⟨hlen, rfl⟩
    have hlookup : (starting entries).step launched (.lookup 0) = some ((launched.fault [.outOfRange 0]).goto 0 (.use 1)) :=
      rfl
    have hreach : (starting entries).Reachable ((launched.fault [.outOfRange 0]).goto 0 (.use 1)) :=
      .step (.step (.init rfl) trivial hlaunch) trivial hlookup
    exact absurd (h _ hreach) (by simp [fault, goto])
  · rintro rfl s hs
    cases hs with
    | init h0 =>
      rw [show s = cleared from h0]
      rfl
    | @step t _ _ ht _ hst =>
      -- nothing is launched
      have hA : Appended 0 t := reach_appended ht
      have hentries := hA.entries
      have hlaunched : ∀ i, t.pcs i = .notLaunched := fun i => by
        by_contra hi
        rcases hA.launched i hi with hlt | ⟨-, hl⟩
        · omega
        · rw [if_pos hl] at hentries
          omega
      rcases step_cases hst with ⟨hn, -⟩ | hl | ⟨i, left, hpc⟩ | ⟨i, left, pc, hpc, -⟩
      case launch => exact absurd hn (Nat.not_lt_zero _)
      case append =>
        rw [if_pos hl] at hentries
        omega
      all_goals
        rw [hlaunched i] at hpc
        cases hpc

/-- A run in turn: both workers of two are appended before they look, one of them between the launches. -/
theorem finds_state_two : ∃ s, (starting [⟨"a", 64, .block⟩, ⟨"b", 64, .block⟩]).Reachable s ∧
    s.found = [(0, some 0), (0, some 0), (1, some 1), (1, some 1)] ∧ Found s := by
  obtain ⟨s, hs, hfaults, hfound⟩ : ∃ s, (starting [⟨"a", 64, .block⟩, ⟨"b", 64, .block⟩]).exec cleared [.launch, .append,
      .lookup 0, .launch, .use 0, .lookup 0, .use 0, .append, .lookup 1, .use 1, .lookup 1, .use 1] = some s ∧
      s.faults = [] ∧ s.found = [(0, some 0), (0, some 0), (1, some 1), (1, some 1)] := ⟨_, rfl, rfl, rfl⟩
  have hreach := Lts.reachable_of_exec _ rfl hs
  exact ⟨s, hreach, hfound, ((finds_state_iff _).1 s hreach).2 hfaults⟩

/-- The first of two workers is launched, and looks for its state before it is appended. -/
theorem worker_ahead : ∃ s, (starting [⟨"a", 64, .block⟩, ⟨"b", 64, .block⟩]).Reachable s ∧ s.workers = [] ∧
    s.pcs 0 = .use 1 ∧ s.faults = [.outOfRange 0] :=
  ⟨_, Lts.reachable_of_exec (s := cleared) [.launch, .lookup 0] rfl rfl, rfl, rfl, rfl⟩

end InTurn

end RuntimeStart

end Grebe
