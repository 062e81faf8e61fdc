import Mathlib.Tactic
import Grebe.Lib.Lts

/-!
# Grebe.DecimationEngine — the frames between the decimation thread and `try_get_frame`

A cycle stores its per-channel vertex count in the atomic `per_ch_vtx_`, and then, under `mutex_`, swaps its data and
raw counts into the front buffer.  `try_get_frame` takes the front buffer under `mutex_` and then loads the count.  The
count of another cycle may be stored between the two.

One step is one access to the atomic or one section under `mutex_`.  What a cycle publishes, and the object that
`try_get_frame` fills, come with the labels.  `published`, `returned` and the number of the cycle that the reader has
taken are history.

* `EngineInv`: what holds of the front buffer and of the frames taken, in every run.
* `frame_consistent`: each frame returned is the frame of one cycle, later than the ones before it, in the runs
  whose steps meet `Undisturbed`.
* `disturbed_mixed`: from any other step the reader may go on to return a mixed frame.
* `mixed_returned`: a run in which it does.
-/

namespace Grebe

structure DecimationOutput where
  data : List Int16 := []
  perChannelVertexCount : UInt32 := 0
  rawSampleCount : UInt32 := 0
  perChannelRawCounts : List UInt32 := []
deriving DecidableEq

/-- Where the thread of the cycles is. -/
inductive PublisherPc
  | idle
  /-- past the store of the count of its frame -/
  | swap (frame : DecimationOutput)
deriving DecidableEq

/-- Where `try_get_frame` is. -/
inductive TryGetFramePc
  | idle
  /-- past the section: the cycle that it took the frame of, if any, `raw_count`, and the object it fills -/
  | load (taken : Option ℕ) (rawCount : UInt32) (output : DecimationOutput)
deriving DecidableEq

/-- The frame that the cycle has still to swap to the front. -/
def PublisherPc.pending : PublisherPc → Option DecimationOutput
  | .idle => none
  | .swap frame => some frame

/-- The cycle whose frame the reader has taken. -/
def TryGetFramePc.taken : TryGetFramePc → Option ℕ
  | .idle => none
  | .load taken _ _ => taken

structure DecimationEngine where
  perChVtx : UInt32
  frontBuffer : List Int16
  frontRawCount : UInt32
  frontPerChRaw : List UInt32
  newData : Bool
  publisher : PublisherPc
  reader : TryGetFramePc
  published : List DecimationOutput
  returned : List (ℕ × DecimationOutput)

namespace DecimationEngine

/-! ## Steps -/

section Steps

inductive Label
  /-- A cycle stores the count of its frame. -/
  | store (frame : DecimationOutput)
  /-- It swaps the rest to the front. -/
  | publish
  /-- `try_get_frame` is called with `output`, and goes through its section. -/
  | take (output : DecimationOutput)
  /-- It loads the count and returns. -/
  | load
deriving DecidableEq

def created : DecimationEngine where
  perChVtx := 0
  frontBuffer := []
  frontRawCount := 0
  frontPerChRaw := []
  newData := false
  publisher := .idle
  reader := .idle
  published := []
  returned := []

variable (s : DecimationEngine)

/-- `DecimationThread::try_get_frame`, for the `output` and the raw count 0 that the engine passes. -/
def stepTake (output : DecimationOutput) : DecimationEngine :=
  if s.newData then
    { s with
      frontBuffer := output.data
      newData := false
      reader := .load (some (s.published.length - 1)) s.frontRawCount
        { output with data := s.frontBuffer, perChannelRawCounts := s.frontPerChRaw } }
  else { s with reader := .load none 0 output }

def step : Label → Option DecimationEngine
  | .store frame =>
    match s.publisher with
    | .idle => some { s with perChVtx := frame.perChannelVertexCount, publisher := .swap frame }
    | .swap _ => none
  | .publish =>
    match s.publisher with
    | .idle => none
    | .swap frame =>
      some { s with
        frontBuffer := frame.data
        frontRawCount := frame.rawSampleCount
        frontPerChRaw := frame.perChannelRawCounts
        newData := true
        publisher := .idle
        published := s.published ++ [frame] }
  | .take output =>
    match s.reader with
    | .idle => some (s.stepTake output)
    | .load .. => none
  | .load =>
    match s.reader with
    | .idle => none
    | .load taken rawCount output =>
      let output := { output with rawSampleCount := rawCount, perChannelVertexCount := s.perChVtx }
      some { s with
        reader := .idle
        returned := s.returned ++ (taken.toList.map fun k => (k, output)) }

/-- The cycles and the calls of `try_get_frame`. -/
def engine : Lib.Lts DecimationEngine Label where
  init s := s = created
  step := step

/-- The count that cycle `k` stored. -/
def storedCount (k : ℕ) : Option UInt32 := s.published[k]?.map (·.perChannelVertexCount)

/-- No count is stored that differs from that of the frame the reader has taken, and no frame is taken whose count the
cycle that is about to replace it has overwritten with another. -/
def Undisturbed (s : DecimationEngine) : Label → Prop
  | .store frame => ∀ k ∈ s.reader.taken, s.storedCount k = some frame.perChannelVertexCount
  | .take _ => s.newData = true →
      ∀ frame ∈ s.publisher.pending, s.storedCount (s.published.length - 1) = some frame.perChannelVertexCount
  | _ => True

instance : ∀ (s : DecimationEngine) (l : Label), Decidable (Undisturbed s l)
  | s, .store frame =>
    inferInstanceAs (Decidable (∀ k ∈ s.reader.taken, s.storedCount k = some frame.perChannelVertexCount))
  | s, .take _ => inferInstanceAs (Decidable (s.newData = true →
      ∀ frame ∈ s.publisher.pending, s.storedCount (s.published.length - 1) = some frame.perChannelVertexCount))
  | _, .publish => inferInstanceAs (Decidable True)
  | _, .load => inferInstanceAs (Decidable True)

end Steps

/-! ## What a step does, said once -/

section Spec

variable {s s' : DecimationEngine}

inductive Step (s : DecimationEngine) : Label → DecimationEngine → Prop
  | store {frame : DecimationOutput} (hpc : s.publisher = .idle) :
      Step s (.store frame) { s with perChVtx := frame.perChannelVertexCount, publisher := .swap frame }
  | publish {frame : DecimationOutput} (hpc : s.publisher = .swap frame) :
      Step s .publish
        { s with
          frontBuffer := frame.data
          frontRawCount := frame.rawSampleCount
          frontPerChRaw := frame.perChannelRawCounts
          newData := true
          publisher := .idle
          published := s.published ++ [frame] }
  | take {output : DecimationOutput} (hpc : s.reader = .idle) (hnew : s.newData = true) :
      Step s (.take output)
        { s with
          frontBuffer := output.data
          newData := false
          reader := .load (some (s.published.length - 1)) s.frontRawCount
            { output with data := s.frontBuffer, perChannelRawCounts := s.frontPerChRaw } }
  /-- There is no new frame. -/
  | miss {output : DecimationOutput} (hpc : s.reader = .idle) (hnew : s.newData = false) :
      Step s (.take output) { s with reader := .load none 0 output }
  | load {taken : Option ℕ} {rawCount : UInt32} {output : DecimationOutput}
      (hpc : s.reader = .load taken rawCount output) :
      Step s .load
        { s with
          reader := .idle
          returned := s.returned ++ taken.toList.map fun k =>
            (k, { output with rawSampleCount := rawCount, perChannelVertexCount := s.perChVtx }) }

theorem step_cases {l : Label} (h : s.step l = some s') : s.Step l s' := by
  rcases l with frame | _ | output | _
  · simp only [step] at h
    split at h
    · rename_i hpc
      cases h
      exact .store hpc
    · cases h
  · simp only [step] at h
    split at h
    · cases h
    · rename_i frame hpc
      cases h
      exact .publish hpc
  · simp only [step, stepTake] at h
    split at h
    · rename_i hpc
      split_ifs at h with hnew
      · cases h
        exact .take hpc hnew
      · cases h
        exact .miss hpc (Bool.eq_false_of_not_eq_true hnew)
    · cases h
  · simp only [step] at h
    split at h
    · cases h
    · rename_i hpc
      cases h
      exact .load hpc

/-- `try_get_frame` returns what it has taken, with the count of the moment. -/
theorem step_load {taken : Option ℕ} {rawCount : UInt32} {output : DecimationOutput}
    (h : s.reader = .load taken rawCount output) :
    s.step .load = some { s with
      reader := .idle
      returned := s.returned ++ taken.toList.map fun k =>
        (k, { output with rawSampleCount := rawCount, perChannelVertexCount := s.perChVtx }) } := by
  simp only [step, h]

theorem of_taken {reader : TryGetFramePc} {k : ℕ} (h : k ∈ reader.taken) :
    ∃ rawCount output, reader = .load (some k) rawCount output := by
  rcases reader with _ | ⟨taken, rawCount, output⟩
  · cases h
  · obtain rfl : taken = some k := h
    exact ⟨rawCount, output, rfl⟩

end Spec

/-! ## The front buffer and the frames taken -/

section Invariant

variable {s s' : DecimationEngine}

/-- The data and the raw counts are those of `frame`. -/
structure Holds (data : List Int16) (rawCount : UInt32) (perChRaw : List UInt32) (frame : DecimationOutput) : Prop where
  data : data = frame.data
  rawCount : rawCount = frame.rawSampleCount
  perChRaw : perChRaw = frame.perChannelRawCounts

/-- The first cycle whose frame may still be taken. -/
def fresh (s : DecimationEngine) : ℕ := if s.newData then s.published.length - 1 else s.published.length

/-- What the reader has taken is the frame of a cycle, up to the count. -/
def ReaderOk (published : List DecimationOutput) : TryGetFramePc → Prop
  | .load (some k) rawCount output =>
    ∃ frame, published[k]? = some frame ∧ Holds output.data rawCount output.perChannelRawCounts frame
  | _ => True

/-- What holds of the frames, up to the count. -/
structure EngineInv (s : DecimationEngine) : Prop where
  front : s.newData = true → ∃ frame, s.published[s.published.length - 1]? = some frame ∧
    Holds s.frontBuffer s.frontRawCount s.frontPerChRaw frame
  reader : ReaderOk s.published s.reader
  /-- What was returned, and then what the reader has, are frames of later and later cycles, none of them fresh. -/
  increasing : (s.returned.map Prod.fst ++ s.reader.taken.toList).Pairwise (· < ·)
  old : ∀ k ∈ s.returned.map Prod.fst ++ s.reader.taken.toList, k < s.fresh

theorem engineInv_created : EngineInv created where
  front h := by cases h
  reader := trivial
  increasing := List.Pairwise.nil
  old _ h := by cases h

theorem fresh_le_length (s : DecimationEngine) : s.fresh ≤ s.published.length := by
  unfold fresh
  split_ifs <;> omega

/-- What was taken stays the frame of its cycle. -/
theorem ReaderOk.publish {published : List DecimationOutput} {reader : TryGetFramePc} (h : ReaderOk published reader)
    (frame : DecimationOutput) : ReaderOk (published ++ [frame]) reader := by
  rcases reader with _ | ⟨_ | k, rawCount, output⟩
  · trivial
  · trivial
  · obtain ⟨g, hg, hholds⟩ := h
    exact ⟨g, by rw [List.getElem?_append_left (List.getElem?_eq_some_iff.mp hg).1, hg], hholds⟩

/-- **One step keeps the invariant of the engine.** -/
theorem engineInv_step {l : Label} (h : EngineInv s) (hst : s.Step l s') : EngineInv s' := by
  rcases hst with _ | hpc | ⟨hpc, hnew⟩ | ⟨hpc, _⟩ | hpc
  case store => exact ⟨h.front, h.reader, h.increasing, h.old⟩
  case publish frame =>
    refine ⟨fun _ => ⟨frame, by simp, rfl, rfl, rfl⟩, h.reader.publish frame, h.increasing, ?_⟩
    intro k hk
    have hlt := (h.old k hk).trans_le s.fresh_le_length
    simpa [fresh] using hlt
  case take output =>
    obtain ⟨frame, hframe, hholds⟩ := h.front hnew
    have hlt := (List.getElem?_eq_some_iff.mp hframe).1
    have hold := h.old
    have hinc := h.increasing
    simp only [hpc, TryGetFramePc.taken, Option.toList_none, List.append_nil, fresh, hnew, if_true] at hold hinc
    refine ⟨fun h0 => (by cases h0), ⟨frame, hframe, hholds⟩, ?_, ?_⟩
    · refine List.pairwise_append.mpr ⟨hinc, List.pairwise_singleton .., ?_⟩
      intro k hk j hj
      obtain rfl : j = s.published.length - 1 := by simpa [TryGetFramePc.taken] using hj
      exact hold k hk
    · intro k hk
      rcases List.mem_append.mp hk with hk | hk
      · exact (hold k hk).trans hlt
      · obtain rfl : k = s.published.length - 1 := by simpa [TryGetFramePc.taken] using hk
        exact hlt
  case miss =>
    have hold := h.old
    have hinc := h.increasing
    rw [hpc] at hold hinc
    exact ⟨h.front, trivial, hinc, hold⟩
  case load taken rawCount output =>
    have hlist : (s.returned ++ taken.toList.map fun k =>
        (k, { output with rawSampleCount := rawCount, perChannelVertexCount := s.perChVtx })).map Prod.fst =
        s.returned.map Prod.fst ++ s.reader.taken.toList := by
      rw [hpc]
      cases taken <;> simp [TryGetFramePc.taken]
    refine ⟨h.front, trivial, ?_, ?_⟩
    · show List.Pairwise _ (List.map Prod.fst (_ ++ _) ++ [])
      rw [List.append_nil, hlist]
      exact h.increasing
    · show ∀ k ∈ List.map Prod.fst (_ ++ _) ++ [], _
      rw [List.append_nil, hlist]
      exact h.old

theorem reach_engineInv (hs : engine.Reachable s) : EngineInv s := by
  refine hs.invariant (I := EngineInv) (fun t h0 => ?_) fun _ _ _ h _ hst => engineInv_step h (step_cases hst)
  rw [show t = created from h0]
  exact engineInv_created

end Invariant

/-! ## The count -/

section Count

variable {s s' : DecimationEngine}

/-- The count belongs to the frame that a load returns, or that may be taken. -/
structure CountInv (s : DecimationEngine) : Prop where
  pending : ∀ frame ∈ s.publisher.pending, s.perChVtx = frame.perChannelVertexCount
  front : s.publisher = .idle → s.newData = true → s.storedCount (s.published.length - 1) = some s.perChVtx
  taken : ∀ k ∈ s.reader.taken, s.storedCount k = some s.perChVtx
  returned : ∀ r ∈ s.returned, s.published[r.1]? = some r.2

/-- The count of a cycle stays that of the cycle. -/
theorem storedCount_append {published : List DecimationOutput} {k : ℕ} {count : UInt32} (frame : DecimationOutput)
    (h : published[k]?.map (·.perChannelVertexCount) = some count) :
    (published ++ [frame])[k]?.map (·.perChannelVertexCount) = some count := by
  obtain ⟨g, hg, -⟩ := Option.map_eq_some_iff.mp h
  rw [List.getElem?_append_left (List.getElem?_eq_some_iff.mp hg).1, h]

/-- **One undisturbed step keeps the count with the frame.** -/
theorem countInv_step {l : Label} (hinv : EngineInv s) (h : CountInv s) (hsafe : Undisturbed s l)
    (hst : s.Step l s') : CountInv s' := by
  rcases hst with _ | hpc | ⟨hpc, hnew⟩ | _ | hpc
  case store frame _ =>
    refine ⟨?_, fun hidle => (by cases hidle), hsafe, h.returned⟩
    intro g hg
    obtain rfl : frame = g := by simpa [PublisherPc.pending] using hg
    rfl
  case publish frame =>
    have hcount : s.perChVtx = frame.perChannelVertexCount := h.pending frame (by rw [hpc]; rfl)
    refine ⟨fun g hg => (by cases hg), fun _ _ => ?_, fun k hk => storedCount_append frame (h.taken k hk),
      fun r hr => ?_⟩
    · simp [storedCount, hcount]
    · have hr' := h.returned r hr
      rw [List.getElem?_append_left (List.getElem?_eq_some_iff.mp hr').1, hr']
  case take output =>
    refine ⟨h.pending, fun _ h0 => (by cases h0), ?_, h.returned⟩
    intro k hk
    obtain rfl : k = s.published.length - 1 := by simpa [TryGetFramePc.taken, eq_comm] using hk
    -- the cycle is idle, or is about to swap a frame of the same count
    cases hpub : s.publisher with
    | idle => exact h.front hpub hnew
    | swap frame =>
      have hsame := hsafe hnew frame (by rw [hpub]; rfl)
      rw [← h.pending frame (by rw [hpub]; rfl)] at hsame
      exact hsame
  case miss => exact ⟨h.pending, h.front, fun k hk => (by cases hk), h.returned⟩
  case load taken rawCount output =>
    refine ⟨h.pending, h.front, fun k hk => (by cases hk), ?_⟩
    intro r hr
    rcases List.mem_append.mp hr with hr | hr
    · exact h.returned r hr
    · obtain ⟨k, hk, rfl⟩ := List.mem_map.mp hr
      have htaken : taken = some k := by simpa using hk
      have hreader := hinv.reader
      have hcount := h.taken k (by rw [hpc]; exact htaken)
      rw [hpc, htaken] at hreader
      obtain ⟨frame, hframe, hdata, hraw, hperCh⟩ := hreader
      rw [storedCount, hframe, Option.map_some, Option.some_inj] at hcount
      rw [hframe, hdata, hraw, hperCh, ← hcount]

theorem reach_countInv (hs : engine.Reach Undisturbed s) : CountInv s := by
  refine hs.invariant_of (I := CountInv) (fun t ht => reach_engineInv ht.reachable) (fun t h0 => ?_)
    fun _ _ _ hinv h hsafe hst => countInv_step hinv h hsafe (step_cases hst)
  rw [show t = created from h0]
  exact ⟨fun _ h => (by cases h), fun _ h => (by cases h), fun _ h => (by cases h), fun _ h => (by cases h)⟩

/-- **Each frame returned is the frame of one cycle, and no cycle's frame is returned twice.** -/
theorem frame_consistent (hs : engine.Reach Undisturbed s) :
    (∀ r ∈ s.returned, s.published[r.1]? = some r.2) ∧ (s.returned.map Prod.fst).Pairwise (· < ·) :=
  ⟨(reach_countInv hs).returned, (List.pairwise_append.mp (reach_engineInv hs.reachable).increasing).1⟩

/-- Two cycles of different counts, both returned. -/
theorem frame_consistent_two :
    let a : DecimationOutput := ⟨[1, 2], 2, 5, [5]⟩
    let b : DecimationOutput := ⟨[1, 2, 3], 3, 6, [6]⟩
    ∃ s, engine.Reach Undisturbed s ∧ s.returned = [(0, a), (1, b)] ∧
      ∀ r ∈ s.returned, s.published[r.1]? = some r.2 := by
  intro a b
  obtain ⟨s, hs, hret⟩ : ∃ s, Lib.Lts.execIn Undisturbed engine created
      [.store a, .publish, .take {}, .load, .store b, .publish, .take {}, .load] = some s ∧
      s.returned = [(0, a), (1, b)] := ⟨_, rfl, rfl⟩
  exact ⟨s, .execIn (.init rfl) hs, hret, (frame_consistent (.execIn (.init rfl) hs)).1⟩

/-- **After any other step the reader may return a frame with the count of another cycle**: it loads next, once it has
a frame. -/
theorem disturbed_mixed {l : Label} (hs : engine.Reach Undisturbed s) (hst : s.step l = some s')
    (hdist : ¬ Undisturbed s l) :
    ∃ t, engine.step s' .load = some t ∧ ∃ r ∈ t.returned, t.published[r.1]? ≠ some r.2 := by
  have hcount := reach_countInv hs
  rcases step_cases hst with _ | hpc | ⟨hpc, hnew⟩ | ⟨_, hnew⟩ | hpc
  case store frame _ =>
    -- the reader has the frame of cycle `k`, and goes on to load the new count
    obtain ⟨k, hk, hne⟩ : ∃ k ∈ s.reader.taken, s.storedCount k ≠ some frame.perChannelVertexCount := by
      simpa [Undisturbed] using hdist
    obtain ⟨rawCount, output, hreader⟩ := of_taken hk
    refine ⟨_, step_load hreader, ⟨k, _⟩, List.mem_append_right _ List.mem_cons_self, ?_⟩
    intro heq
    apply hne
    rw [storedCount, show s.published[k]? = _ from heq]
    rfl
  case take output =>
    -- the count is already that of the frame that has still to be swapped to the front
    obtain ⟨-, frame, hframe, hne⟩ : s.newData = true ∧ ∃ frame ∈ s.publisher.pending,
        s.storedCount (s.published.length - 1) ≠ some frame.perChannelVertexCount := by
      simpa [Undisturbed] using hdist
    refine ⟨_, rfl, ⟨s.published.length - 1, _⟩, List.mem_append_right _ List.mem_cons_self, ?_⟩
    intro heq
    apply hne
    rw [storedCount, show s.published[s.published.length - 1]? = _ from heq]
    exact congrArg some (hcount.pending frame hframe)
  case miss => exact absurd (fun h => absurd (hnew.symm.trans h) (by simp)) hdist
  case publish | load => exact absurd trivial hdist

/-- **The frame of one cycle is returned with the count of the next.** -/
theorem mixed_returned :
    ∃ s, engine.Reachable s ∧ s.published = [⟨[1, 2], 2, 5, [5]⟩] ∧ s.returned = [(0, ⟨[1, 2], 3, 5, [5]⟩)] := by
  obtain ⟨s, hs, hpub, hret⟩ : ∃ s, engine.exec created
      [.store ⟨[1, 2], 2, 5, [5]⟩, .publish, .take {}, .store ⟨[1, 2, 3], 3, 6, [6]⟩, .load] = some s ∧
      s.published = [⟨[1, 2], 2, 5, [5]⟩] ∧ s.returned = [(0, ⟨[1, 2], 3, 5, [5]⟩)] := ⟨_, rfl, rfl, rfl⟩
  exact ⟨s, Lib.Lts.reachable_of_exec _ rfl hs, hpub, hret⟩

end Count

end DecimationEngine

end Grebe
