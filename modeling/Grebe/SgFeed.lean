import Mathlib.Data.List.GetD
import Grebe.EndToEnd

/-!
# Grebe.SgFeed — grebe-sg with the samples that its source makes

`SgSender` takes the samples of its source from a signal that is there from the beginning.  A source makes them as it goes on:
here a step has the batch that it pushes.

* `FeedInv`: `stream` is all that was made of each channel, and the threads of `SgSender` do the same with every signal that
  goes on like it.  `FeedInv.push` and `FeedInv.other`: so it stays.
* `polled_stream`: what the viewer polls, over a pipe, is made of the stream.
-/

namespace Grebe

open Lib SgSender

/-! ## What grebe-sg asks of its source -/

namespace SgSender

section Source

variable {n : ℕ} {signal signal' : ℕ → ℕ → ℕ → Int16} {s s' : SgSender n} {l : Label}

/-- A step, where the batch to be pushed is `batch`. -/
def feed (s : SgSender n) (batch : List Int16) (l : Label) : Option (SgSender n) :=
  s.step (fun _ _ i => batch.getD (i - s.produced) 0) l

/-- The steps of the other threads, where nobody switches the source. -/
def ofOthers : Label → Bool
  | .batch _ | .source | .switchSource => false
  | .setBlockSize _ | .stop | .sender .. => true

theorem ofOthers_iff : ofOthers l = true ↔ l ≠ .switchSource ∧ l ≠ .source ∧ ∀ len, l ≠ .batch len := by
  cases l <;> simp [ofOthers]

/-- A step asks for no more of the signal than the batch that it pushes. -/
theorem step_congr (h : l = .source → ∀ len (ch : Fin n), s.source = .push len ch →
      s.batchOf signal len ch = s.batchOf signal' len ch) : s.step signal l = s.step signal' l := by
  cases l with
  | source =>
    simp only [step, stepSource]
    split
    · rfl
    · rename_i len ch hpc
      split_ifs with hch
      · rw [h rfl len ⟨ch, hch⟩ hpc]
      · rfl
    · rfl
    · rfl
  | _ => rfl

/-- A step that pushes nothing offers nothing. -/
theorem offered_of_not_push (hsource : NoSwitchInv s) (hno : NoSwitch s l)
    (hpush : l = .source → ∀ len (ch : Fin n), s.source ≠ .push len ch) (hst : s.Step signal l s') (ch : Fin n) :
    s'.offered ch = s.offered ch := by
  rcases hst with hpc | hpc | @⟨len, c, hpc, hch⟩ | hpc | _ | hpc | hpc | _ | _ | _ | _ | _ | _ | _ | _ | _ | _ | _
  case batch => simp [offered, hpc, SourcePc.done]
  case push => exact absurd hpc (hpush rfl _ _)
  case pushed =>
    have hlt : ch.val < c := ch.isLt.trans_le hch
    simp [offered, hpc, SourcePc.done, SourcePc.len, hlt]
  case record => simp [offered, hpc, SourcePc.done, SourcePc.len]
  case switchSource => exact absurd rfl hno
  case flush | flushed => exact absurd hpc (hsource.source _)
  all_goals rfl

/-- A push offers a batch. -/
theorem offered_push {len : ℕ} {ch : Fin n} (hpc : s.source = .push len ch) (hst : s.step signal .source = some s')
    (c : Fin n) : s.offered ch = s.produced ∧ s'.offered c = s.offered c + if c = ch then len else 0 := by
  have hbefore (c : Fin n) : s.offered c = s.produced + if c.val < ch.val then len else 0 := by
    rw [offered, hpc, SourcePc.done, SourcePc.len]
  simp only [step, stepSource, hpc, dif_pos ch.isLt, Option.some.injEq] at hst
  subst hst
  refine ⟨by rw [hbefore, if_neg (lt_irrefl _), Nat.add_zero], ?_⟩
  rw [hbefore]
  show s.produced + (if c.val < ch.val + 1 then len else 0) = _
  by_cases hc : c = ch
  · subst hc
    simp
  · have hne : c.val ≠ ch.val := fun heq => hc (Fin.ext heq)
    have hlt : c.val < ch.val + 1 ↔ c.val < ch.val := by omega
    simp only [hlt, if_neg hc, Nat.add_zero]

/-- The source thread goes on by its own steps alone. -/
theorem idle_step (hpc : s.source = .idle) (hno : NoSwitch s l) (hbatch : ∀ len, l ≠ .batch len)
    (hst : s.Step signal l s') : s'.source = .idle := by
  rcases hst with
    _ | hpush | ⟨hpush, _⟩ | hrecord | _ | hflush | ⟨hflush, _⟩ | _ | _ | _ | _ | _ | _ | _ | _ | _ | _ | _
  case batch => exact absurd rfl (hbatch _)
  case push | pushed => exact SourcePc.noConfusion (hpc.symm.trans hpush)
  case record => exact SourcePc.noConfusion (hpc.symm.trans hrecord)
  case switchSource => exact absurd rfl hno
  case flush | flushed => exact SourcePc.noConfusion (hpc.symm.trans hflush)
  all_goals exact hpc

variable {batch : List Int16} {len ch pushed : ℕ}

theorem source_batch (hst : s.feed batch (.batch len) = some s') : s'.source = .push len 0 := by
  simp only [feed, step] at hst
  split_ifs at hst
  rw [← Option.some.inj hst]

theorem source_record (hpc : s.source = .record len ch pushed) (hst : s.feed batch .source = some s') :
    s'.source = .push len (ch + 1) := by
  simp only [feed, step, stepSource, hpc, Option.some.injEq] at hst
  rw [← hst]

theorem source_push {ch : Fin n} (hpc : s.source = .push len ch) (hst : s.feed batch .source = some s') :
    ∃ pushed, s'.source = .record len ch pushed := by
  simp only [feed, step, stepSource, hpc, dif_pos ch.isLt, Option.some.injEq] at hst
  rw [← hst]
  exact ⟨_, rfl⟩

theorem source_pushed (hpc : s.source = .push len ch) (hch : n ≤ ch) (hst : s.feed batch .source = some s') :
    s'.source = .idle := by
  simp only [feed, step, stepSource, hpc, dif_neg (not_lt.mpr hch), Option.some.injEq] at hst
  rw [← hst]

/-- The other threads leave the source where it is. -/
theorem source_other (hl : ofOthers l = true) (hst : s.Step signal l s') : s'.source = s.source := by
  obtain ⟨hno, hsource, hbatch⟩ := ofOthers_iff.mp hl
  cases hst
  case batch => exact absurd rfl (hbatch _)
  case push | pushed | record | flush | flushed => exact absurd rfl hsource
  case switchSource => exact absurd rfl hno
  all_goals rfl

/-- Without a switch there is one source, and what the rings accept are its samples. -/
theorem reach_values (hs : (threads n signal).Reach NoSwitch s) :
    s.sources = 0 ∧ ∀ ch : Fin n, ∀ x ∈ (s.rings ch).accepted, x.value = signal 0 ch x.index := by
  refine hs.invariant_of (I := fun s => s.sources = 0 ∧ ∀ ch : Fin n, ∀ x ∈ (s.rings ch).accepted,
    x.value = signal 0 ch x.index) (fun _ => reach_noSwitchInv) (fun t h0 => ?_) fun t l t' hinv h hno hst => ?_
  · obtain ⟨slots, pos, blockSize, -, rfl⟩ := h0
    exact ⟨rfl, fun _ _ hx => absurd hx List.not_mem_nil⟩
  · obtain ⟨hsources, hvalues⟩ := h
    refine ⟨?_, fun ch x hx => ?_⟩
    · rcases step_cases hst with _ | _ | _ | _ | _ | _ | ⟨hpc, _⟩ | _ | _ | _ | _ | _ | _ | _ | _ | _ | _ | _
      case flushed => exact absurd hpc (hinv.source _)
      all_goals exact hsources
    · rcases offer_cases hinv hno (step_cases hst) ch with ⟨haccepted, -, -⟩ | ⟨len, -, -, -, haccepted, -⟩
      · rw [haccepted] at hx
        exact hvalues ch x hx
      · rw [haccepted] at hx
        rcases List.mem_append.mp hx with hx | hx
        · exact hvalues ch x hx
        · obtain ⟨i, -, rfl⟩ := List.mem_map.mp (List.mem_of_mem_take hx)
          rw [hsources]

/-- In a batch the source thread goes on. -/
theorem isSome_feed (hsource : NoSwitchInv s) (hpc : s.source ≠ .idle) (batch : List Int16) :
    (s.feed batch .source).isSome := by
  cases hpush : s.source with
  | idle => exact absurd hpush hpc
  | push len ch =>
    simp only [feed, step, stepSource, hpush]
    split_ifs <;> rfl
  | record len ch pushed =>
    simp only [feed, step, stepSource, hpush]
    rfl
  | flush ch => exact absurd hpush (hsource.source ch)

end Source

end SgSender

/-! ## Streams -/

section Streams

variable {n : ℕ} {stream : Fin n → List Int16} {s s' : SgSender n}

/-- A signal that goes on like the stream. -/
def Agrees (stream : Fin n → List Int16) (σ : ℕ → ℕ → ℕ → Int16) : Prop :=
  ∀ ch : Fin n, ∀ i < (stream ch).length, σ 0 ch i = (stream ch).getD i 0

/-- The stream, and nothing behind it. -/
def streamSignal (stream : Fin n → List Int16) (_ ch i : ℕ) : Int16 := if h : ch < n then (stream ⟨ch, h⟩).getD i 0 else 0

theorem agrees_streamSignal (stream : Fin n → List Int16) : Agrees stream (streamSignal stream) := by
  intro ch i _
  exact dif_pos ch.isLt

/-- What goes on like a stream goes on like what was there before. -/
theorem agrees_of_update {σ : ℕ → ℕ → ℕ → Int16} {ch : Fin n} {batch : List Int16}
    (h : Agrees (Function.update stream ch (stream ch ++ batch)) σ) : Agrees stream σ := by
  intro c i hi
  have hc := h c i
  by_cases hch : c = ch
  · subst hch
    rw [Function.update_self, List.length_append, List.getD_append _ _ _ _ hi] at hc
    exact hc (by omega)
  · rw [Function.update_of_ne hch] at hc
    exact hc hi

/-- The threads of grebe-sg, where `stream` is what was made of each channel. -/
structure FeedInv (stream : Fin n → List Int16) (s : SgSender n) : Prop where
  offered : ∀ ch, s.offered ch = (stream ch).length
  /-- Whatever the signal will be, they do the same with it. -/
  reach : ∀ σ, Agrees stream σ → (threads n σ).Reach NoSwitch s

theorem feedInv_started {slots : ℕ} {pos : 0 < slots} {blockSize : UInt32} (hblock : ValidBlock blockSize) :
    FeedInv (fun _ : Fin n => []) (started slots pos blockSize) :=
  ⟨fun _ => rfl, fun _ _ => .init ⟨slots, pos, blockSize, hblock, rfl⟩⟩

namespace FeedInv

theorem reachable (h : FeedInv stream s) : (threads n (streamSignal stream)).Reach NoSwitch s :=
  h.reach _ (agrees_streamSignal stream)

theorem noSwitchInv (h : FeedInv stream s) : NoSwitchInv s := reach_noSwitchInv h.reachable

/-- **A step that pushes nothing.** -/
theorem other (h : FeedInv stream s) {l : Label} (hno : NoSwitch s l)
    (hpush : l = .source → ∀ len (ch : Fin n), s.source ≠ .push len ch) {batch : List Int16}
    (hst : s.feed batch l = some s') : FeedInv stream s' := by
  refine ⟨fun ch => ?_, fun σ hσ => ?_⟩
  · exact (offered_of_not_push h.noSwitchInv hno hpush (step_cases hst) ch).trans (h.offered ch)
  · have hsame : s.step σ l = some s' := (step_congr fun hl len ch hpc => absurd hpc (hpush hl len ch)).trans hst
    exact .step (h.reach σ hσ) hno hsame

/-- **A batch that is pushed goes on with the stream.** -/
theorem push (h : FeedInv stream s) {len : ℕ} {ch : Fin n} (hpc : s.source = .push len ch) {batch : List Int16}
    (hlength : batch.length = len) (hst : s.feed batch .source = some s') :
    FeedInv (Function.update stream ch (stream ch ++ batch)) s' := by
  refine ⟨fun c => ?_, fun σ hσ => ?_⟩
  · rw [(offered_push hpc hst c).2, h.offered c]
    by_cases hc : c = ch
    · subst hc
      rw [if_pos rfl, Function.update_self, List.length_append, hlength]
    · rw [if_neg hc, Function.update_of_ne hc, Nat.add_zero]
  · have hproduced : (stream ch).length = s.produced := (h.offered ch).symm.trans (offered_push hpc hst ch).1
    have hreach := h.reach σ (agrees_of_update hσ)
    have hno : NoSwitch s .source := by simp [NoSwitch]
    have hsame : s.step σ .source = some s' := by
      rw [← hst]
      refine step_congr fun _ len' ch' hpc' => ?_
      obtain ⟨rfl, hch⟩ := SourcePc.push.inj (hpc.symm.trans hpc')
      obtain rfl := Fin.ext hch
      apply List.map_congr_left
      intro i hi
      obtain ⟨hlow, hhigh⟩ := List.mem_range'_1.mp hi
      have hvalue := hσ ch i
      rw [Function.update_self, List.length_append, List.getD_append_right _ _ _ _ (hproduced.trans_le hlow),
        hproduced] at hvalue
      rw [(reach_values hreach).1, hvalue (by omega)]
    exact .step hreach hno hsame

/-- A sample that a ring has accepted is the one of its number in the stream. -/
theorem accepted_stream (h : FeedInv stream s) {ch : Fin n} {x : Sample} (hx : x ∈ (s.rings ch).accepted) :
    (stream ch)[x.index]? = some x.value := by
  have hperm := (reach_indexInv h.reachable ch).perm
  rw [h.offered ch] at hperm
  have hindex : x.index < (stream ch).length :=
    List.mem_range.mp (hperm.mem_iff.mp (List.mem_append_left _ (List.mem_map_of_mem hx)))
  have hvalue : x.value = (stream ch).getD x.index 0 :=
    ((reach_values h.reachable).2 ch x hx).trans (agrees_streamSignal stream ch x.index hindex)
  rw [hvalue, List.getD_eq_getElem _ _ hindex, List.getElem?_eq_getElem hindex]

/-- A ring that has lost nothing has accepted the stream. -/
theorem accepted_eq_stream (h : FeedInv stream s) {ch : Fin n} (hlost : s.lost ch = []) :
    (s.rings ch).accepted.map Sample.value = stream ch := by
  have hlength : (s.rings ch).accepted.length = (stream ch).length := by
    have hperm := (reach_indexInv h.reachable ch).perm.length_eq
    rwa [hlost, List.map_nil, List.append_nil, List.length_map, List.length_range, h.offered ch] at hperm
  apply List.ext_getElem?
  intro k
  rw [List.getElem?_map]
  by_cases hk : k < (s.rings ch).accepted.length
  · have hget := List.getElem?_eq_getElem hk
    have hindex := index_accepted h.reachable hget
    rw [hlost, List.countP_nil, Nat.add_zero] at hindex
    have hstream := h.accepted_stream (List.getElem_mem hk)
    rw [hindex] at hstream
    rw [hget, hstream, Option.map_some]
  · rw [List.getElem?_eq_none (not_lt.mp hk), List.getElem?_eq_none (hlength ▸ not_lt.mp hk), Option.map_none]

end FeedInv

end Streams

/-! ## What the viewer polls of them -/

section Polled

variable {n : ℕ} {stream : Fin n → List Int16} {sg : SgSender n}

/-- `frame` is the decimation of `f`, each channel of which holds samples of the stream in their order, and a piece of the
stream if its ring has lost nothing. -/
def ShowsStream (stream : Fin n → List Int16) (sg : SgSender n) (frame : Frame ℚ) (f : SentFrame n) : Prop :=
  frame.sequence = f.header.sequence ∧ frame.channels = n ∧
    ∃ (pre post : List (SentFrame n)) (stage : DecimationStage), sg.sent = pre ++ f :: post ∧
      ∀ ch : Fin n, ∃ (places : List ℕ) (samples : List Int16), places.Pairwise (· < ·) ∧ samples.length = f.block ∧
        List.Forall₂ (fun i x => (stream ch)[i]? = some x) places samples ∧
        (sg.lost ch = [] → samples = ((stream ch).drop (total pre)).take f.block) ∧
        frame.channelData ch = Decimator.decimate samples stage.effectiveMode stage.targetPoints.toNat

theorem showsStream (h : FeedInv stream sg) {frame : Frame ℚ} {f : SentFrame n} (hshows : ShowsFrame sg frame f) :
    ShowsStream stream sg frame f := by
  obtain ⟨hsequence, hchannels, pre, post, stage, hsent, hdata⟩ := hshows
  refine ⟨hsequence, hchannels, pre, post, stage, hsent, fun ch => ?_⟩
  obtain ⟨hle, hdata⟩ := hdata ch
  have hsub : (((sg.rings ch).accepted.drop (total pre)).take f.block).Sublist (sg.rings ch).accepted :=
    (List.take_sublist ..).trans (List.drop_sublist ..)
  refine ⟨_, _, (reach_indexInv h.reachable ch).sorted.sublist (hsub.map _), ?_, ?_, ?_, hdata⟩
  · rw [List.length_map, List.length_take, List.length_drop]
    omega
  · rw [List.forall₂_map_left_iff, List.forall₂_map_right_iff, List.forall₂_same]
    exact fun x hx => h.accepted_stream (hsub.subset hx)
  · intro hlost
    rw [List.map_take, List.map_drop, h.accepted_eq_stream hlost]

/-- **What the main loop polls** over a pipe. -/
theorem polled_stream (h : FeedInv stream sg) (hn : n ≤ 8) (w : WriteKernel) (r : ReadKernel) (stale : ℕ → List UInt8)
    {value : Double → ℚ} {t : LinearRuntime (Frame ℚ)} (ht : (LinearRuntime.runtime viewerStages).Reach
      (Viewing (PipeConsumer.receiveFrame r.count false) (pipeAdapter w stale sg) value) t) :
    List.SublistForall₂ (ShowsStream stream sg) (t.polled viewerStages) sg.sent := by
  obtain ⟨frames, hframes, hsub⟩ := List.sublistForall₂_iff.mp (polled_pipe hn h.reachable w r stale ht)
  exact List.sublistForall₂_iff.mpr ⟨frames, hframes.imp fun _ _ => showsStream h, hsub⟩

end Polled

end Grebe
