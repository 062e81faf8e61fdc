import Grebe.FilePlayback
import Grebe.SgFeed

/-!
# Grebe.PlayedFrames — from a file to the frames that the viewer polls

grebe-sg with a file instead of its generator has a ring for every channel of the file.  The thread of the `FileReader` pushes
its blocks into the rings and counts what they drop, while the GUI pauses it, and turns the looping on and off.

One step of the thread is one of `Playback`, and counting the drops is another one, as in `SgSender`.  A block that would
be read outside of the mapped file has no step.

* `PlayedInv`: the two threads are in step, and grebe-sg is fed with the channels of the file.
* `reader_proceeds`: the thread goes on until it ends.
* `played_end_to_end`: what the viewer polls is made of the file, over and over.
-/

namespace Grebe

open Lib SgSender

/-! ## The file reader in grebe-sg -/

/-- grebe-sg with `n` channels and a file reader. -/
structure Played (n : ℕ) where
  playback : Playback
  sg : SgSender n

namespace Played

variable {n : ℕ}

section Steps

inductive Label
  /-- The thread of the reader goes on, or its flags are set. -/
  | reader (l : Playback.Label)
  /-- One of the other threads of grebe-sg makes a step. -/
  | other (l : SgSender.Label)

/-- With a reader that is started. -/
def started (paused looping : Bool) (slots : ℕ) (pos : 0 < slots) (blockSize : UInt32) : Played n where
  playback := .started paused looping
  sg := .started slots pos blockSize

variable (r : FileReader) (s : Played n)

/-- What the rings see of a step of the reader, which is `playback` then. -/
def follow (playback : Playback) : Option (Played n) :=
  match s.playback.pc, playback.pc with
  | .push thisBatch ch, .push .. =>
    let block : Block := ⟨s.playback.readPos.toNat, thisBatch.toNat⟩
    if none ∈ r.blockReads ch block then none
    else (s.sg.feed (r.samples ch block) .source).map fun sg => ⟨playback, sg⟩
  | .push .., _ => (s.sg.feed [] .source).map fun sg => ⟨playback, sg⟩
  | _, .push thisBatch _ => (s.sg.feed [] (.batch thisBatch.toNat)).map fun sg => ⟨playback, sg⟩
  | _, _ => some ⟨playback, s.sg⟩

/-- `thread_func` -/
def stepThread : Option (Played n) :=
  match s.sg.source with
  | .record .. => (s.sg.feed [] .source).map fun sg => { s with sg := sg }
  | _ => (s.playback.stepThread r r.batchSize n).bind (s.follow r)

def step : Label → Option (Played n)
  | .reader .thread => s.stepThread r
  | .reader l => (s.playback.step r r.batchSize n l).map fun playback => { s with playback := playback }
  | .other l => if ofOthers l then (s.sg.feed [] l).map fun sg => { s with sg := sg } else none

/-- grebe-sg with the file of `r`, and a ring for each of its channels. -/
def played (n : ℕ) (r : FileReader) : Lts (Played n) Label where
  init s := r.header.channelCount.toNat = n ∧
    ∃ paused looping slots pos blockSize, ValidBlock blockSize ∧ s = started paused looping slots pos blockSize
  step s := s.step r

/-- What the reader has offered to the ring of a channel. -/
def stream (ch : Fin n) : List Int16 := s.playback.stream r ch

end Steps

/-! ## The two threads in step -/

/-- Where the thread of the reader is, for `Playback` and for `SgSender`. -/
inductive InStep : PlaybackPc → SourcePc → Prop
  | outside {pc : PlaybackPc} (hpc : ∀ b ch, pc ≠ .push b ch) : InStep pc .idle
  | push {b : UInt64} {ch : ℕ} : InStep (.push b ch) (.push b.toNat ch)
  | record {b : UInt64} {ch pushed : ℕ} : InStep (.push b (ch + 1)) (.record b.toNat ch pushed)

section InStep

variable {pc : PlaybackPc} {source : SourcePc} {b : UInt64} {ch len pushed : ℕ}

theorem InStep.idle (h : InStep pc source) (hpc : ∀ b ch, pc ≠ .push b ch) : source = .idle := by
  cases h with
  | outside => rfl
  | push | record => exact absurd rfl (hpc _ _)

theorem InStep.of_push (h : InStep (.push b ch) source) (hno : ∀ len ch pushed, source ≠ .record len ch pushed) :
    source = .push b.toNat ch := by
  cases h with
  | outside hpc => exact absurd rfl (hpc _ _)
  | push => rfl
  | record => exact absurd rfl (hno _ _ _)

theorem InStep.of_record (h : InStep pc (.record len ch pushed)) : InStep pc (.push len (ch + 1)) := by
  cases h
  exact .push

end InStep

/-! ## What the rings are offered -/

section Invariant

variable {r : FileReader} {s s' : Played n} {playback : Playback}

/-- Between two batches the rings see nothing. -/
theorem follow_outside (h : ∀ b ch, s.playback.pc ≠ .push b ch) (h' : ∀ b ch, playback.pc ≠ .push b ch) :
    s.follow r playback = some ⟨playback, s.sg⟩ := by
  unfold follow
  split
  · exact absurd ‹_› (h _ _)
  · exact absurd ‹_› (h _ _)
  · exact absurd ‹_› (h' _ _)
  · rfl

/-- The reader and the rings. -/
structure PlayedInv (r : FileReader) (s : Played n) : Prop where
  channels : r.header.channelCount.toNat = n
  playback : (Playback.playback r r.batchSize n).Reachable s.playback
  inStep : InStep s.playback.pc s.sg.source
  feed : FeedInv (s.stream r) s.sg

theorem PlayedInv.played (h : PlayedInv r s) : r.played n = n := by
  rw [FileReader.played, h.channels, min_self]

theorem PlayedInv.bounded (h : PlayedInv r s) : Playback.Bounded r n s.playback := Playback.reach_bounded h.playback

/-- A block that is pushed goes on with the stream. -/
theorem stream_push {b : Block} (playback : Playback) (ch : Fin n)
    (hoffered : playback.offered = Function.update s.playback.offered ch (s.playback.offered ch ++ [b])) :
    stream r ⟨playback, s.sg⟩ = Function.update (s.stream r) ch (s.stream r ch ++ r.samples ch b) := by
  funext c
  simp only [stream, Playback.stream, hoffered]
  by_cases hc : c = ch
  · subst hc
    rw [Function.update_self, Function.update_self, List.flatMap_append, List.flatMap_singleton]
  · rw [Function.update_of_ne hc, Function.update_of_ne fun heq => hc (Fin.ext heq)]
    rfl

/-- **A step of the reader keeps the rings in step.** -/
theorem playedInv_follow (h : PlayedInv r s) (hno : ∀ len ch pushed, s.sg.source ≠ .record len ch pushed)
    (hplayback : s.playback.stepThread r r.batchSize n = some playback) (hst : s.follow r playback = some s') :
    PlayedInv r s' := by
  have hreach : (Playback.playback r r.batchSize n).Reachable playback := .step (l := .thread) h.playback trivial hplayback
  obtain ⟨pc, -, hpc, rfl⟩ | ⟨htake, -, -, rfl⟩ | ⟨pos, b, htake, -, -, rfl⟩ | ⟨b, ch, hpc, hch, rfl⟩ |
    ⟨b, ch, hpc, hch, rfl⟩ := Playback.stepThread_cases h.bounded.readPos hplayback
  · rw [follow_outside (fun b ch => (hpc b ch).1) fun b ch => (hpc b ch).2] at hst
    cases hst
    refine ⟨h.channels, hreach, ?_, h.feed⟩
    show InStep pc s.sg.source
    rw [h.inStep.idle fun b ch => (hpc b ch).1]
    exact .outside fun b ch => (hpc b ch).2
  · rw [follow_outside (by simp [htake]) (by simp)] at hst
    cases hst
    refine ⟨h.channels, hreach, ?_, h.feed⟩
    show InStep .ended s.sg.source
    rw [h.inStep.idle (by simp [htake])]
    exact .outside (by simp)
  · -- a batch begins
    simp only [follow, htake] at hst
    obtain ⟨sg, hsg, rfl⟩ := Option.map_eq_some_iff.mp hst
    have hsource : sg.source = .push b.toNat 0 := source_batch hsg
    have hnoSwitch : NoSwitch s.sg (.batch b.toNat) := by simp [NoSwitch]
    refine ⟨h.channels, hreach, ?_, h.feed.other hnoSwitch (by simp) hsg⟩
    show InStep (.push b 0) sg.source
    rw [hsource]
    exact .push
  · -- a block is pushed
    simp only [follow, hpc] at hst
    split_ifs at hst with hin
    obtain ⟨sg, hsg, rfl⟩ := Option.map_eq_some_iff.mp hst
    have hlt : ch < n := h.played ▸ hch
    have hpush : s.sg.source = .push b.toNat (⟨ch, hlt⟩ : Fin n) := InStep.of_push (hpc ▸ h.inStep) hno
    obtain ⟨pushed, hsource⟩ := source_push hpush hsg
    refine ⟨h.channels, hreach, ?_, ?_⟩
    · show InStep (.push b (ch + 1)) sg.source
      rw [hsource]
      exact .record
    · have hfeed := h.feed.push hpush (FileReader.length_samples hin) hsg
      rw [← stream_push { s.playback with offered := _, pc := .push b (ch + 1) } ⟨ch, hlt⟩ rfl] at hfeed
      exact hfeed
  · -- the batch is pushed
    simp only [follow, hpc] at hst
    obtain ⟨sg, hsg, rfl⟩ := Option.map_eq_some_iff.mp hst
    have hle : n ≤ ch := h.played ▸ hch
    have hpush : s.sg.source = .push b.toNat ch := InStep.of_push (hpc ▸ h.inStep) hno
    have hsource : sg.source = .idle := source_pushed hpush hle hsg
    have hnoSwitch : NoSwitch s.sg .source := by simp [NoSwitch]
    refine ⟨h.channels, hreach, ?_, h.feed.other hnoSwitch (fun _ len c hpc' => ?_) hsg⟩
    · show InStep .head sg.source
      rw [hsource]
      exact .outside (by simp)
    · obtain ⟨-, rfl⟩ := SourcePc.push.inj (hpush.symm.trans hpc')
      exact absurd c.isLt (not_lt.mpr hle)

/-- **One step keeps it all.** -/
theorem playedInv_step {l : Label} (h : PlayedInv r s) (hst : s.step r l = some s') : PlayedInv r s' := by
  cases l with
  | other l =>
    simp only [step] at hst
    split_ifs at hst with hother
    obtain ⟨sg, hsg, rfl⟩ := Option.map_eq_some_iff.mp hst
    obtain ⟨hno, hsource, -⟩ := ofOthers_iff.mp hother
    refine ⟨h.channels, h.playback, ?_, h.feed.other hno (fun heq => absurd heq hsource) hsg⟩
    show InStep s.playback.pc sg.source
    rw [source_other hother (SgSender.step_cases hsg)]
    exact h.inStep
  | reader l =>
    cases l with
    | thread =>
      simp only [step, stepThread] at hst
      split at hst
      · -- the drops are counted
        rename_i len ch pushed hpc
        obtain ⟨sg, hsg, rfl⟩ := Option.map_eq_some_iff.mp hst
        have hnoSwitch : NoSwitch s.sg .source := by simp [NoSwitch]
        refine ⟨h.channels, h.playback, ?_, h.feed.other hnoSwitch (by simp [hpc]) hsg⟩
        show InStep s.playback.pc sg.source
        rw [source_record hpc hsg]
        exact InStep.of_record (hpc ▸ h.inStep)
      · rename_i hno
        obtain ⟨playback, hplayback, hst⟩ := Option.bind_eq_some_iff.mp hst
        exact playedInv_follow h hno hplayback hst
    | setPaused paused =>
      cases hst
      exact ⟨h.channels, .step (l := .setPaused paused) h.playback trivial rfl, h.inStep, h.feed⟩
    | setLooping looping =>
      cases hst
      exact ⟨h.channels, .step (l := .setLooping looping) h.playback trivial rfl, h.inStep, h.feed⟩
    | stop =>
      cases hst
      exact ⟨h.channels, .step (l := .stop) h.playback trivial rfl, h.inStep, h.feed⟩

theorem reach_playedInv (hs : (played n r).Reachable s) : PlayedInv r s := by
  refine hs.invariant (I := PlayedInv r) (fun t h0 => ?_) fun _ _ _ h _ hst => playedInv_step h hst
  obtain ⟨hchannels, paused, looping, slots, pos, blockSize, hblock, rfl⟩ := h0
  exact ⟨hchannels, .init ⟨paused, looping, rfl⟩, .outside (by simp [started, Playback.started]), feedInv_started hblock⟩

end Invariant

/-! ## Without an end -/

section Progress

variable {path : String} {calls : FileCalls} {file : GrbFile} {r : FileReader} {s : Played n}

/-- A file that is as long as its header announces has room for what is played of it. -/
theorem room_of_announced (hchannels : r.header.channelCount.toNat = n) (hfits : r.header.announced ≤ file.bytes.length) :
    32 + 2 * (r.played n * r.header.totalSamples.toNat) ≤ file.bytes.length := by
  rwa [FileReader.played, hchannels, min_self, ← hchannels]

/-- **The thread goes on until it ends**, and reads nothing outside of the file. -/
theorem reader_proceeds (hnew : FileReader.new path calls file = .ok r) (hfits : r.header.announced ≤ file.bytes.length)
    (hs : (played n r).Reachable s) (hpc : s.playback.pc ≠ .ended) : (s.step r (.reader .thread)).isSome := by
  have h := reach_playedInv hs
  obtain ⟨hsize, -, hmax, hcount, -⟩ := FileReader.new_ok hnew
  have hroom := room_of_announced h.channels hfits
  rw [← hsize] at hmax hroom
  simp only [step, stepThread]
  split
  · rename_i hrecord
    rw [Option.isSome_map]
    exact isSome_feed h.feed.noSwitchInv (by simp [hrecord]) []
  · rename_i hno
    obtain ⟨playback, hplayback⟩ := Option.isSome_iff_exists.mp (Playback.isSome_stepThread hpc r r.batchSize n)
    rw [hplayback, Option.bind_some]
    obtain ⟨pc, -, hpc, rfl⟩ | ⟨htake, -, -, rfl⟩ | ⟨pos, b, htake, -, -, rfl⟩ | ⟨b, ch, hpc, hch, rfl⟩ |
      ⟨b, ch, hpc, -, rfl⟩ := Playback.stepThread_cases h.bounded.readPos hplayback
    · rw [follow_outside (fun b ch => (hpc b ch).1) fun b ch => (hpc b ch).2]
      rfl
    · rw [follow_outside (by simp [htake]) (by simp)]
      rfl
    · have hidle : s.sg.source = .idle := h.inStep.idle (by simp [htake])
      simp only [follow, htake, feed, SgSender.step, hidle, if_true]
      rfl
    · have hin : r.Inside ch ⟨s.playback.readPos.toNat, b.toNat⟩ :=
        Playback.inside_of_fits hmax hcount hroom hch (h.bounded.batch b ch hpc)
      have hpush : s.sg.source = .push b.toNat ch := InStep.of_push (hpc ▸ h.inStep) hno
      simp only [follow, hpc]
      rw [if_neg hin, Option.isSome_map]
      exact isSome_feed h.feed.noSwitchInv (by simp [hpush]) _
    · have hpush : s.sg.source = .push b.toNat ch := InStep.of_push (hpc ▸ h.inStep) hno
      simp only [follow, hpc]
      rw [Option.isSome_map]
      exact isSome_feed h.feed.noSwitchInv (by simp [hpush]) _

end Progress

/-! ## What is polled of the file -/

section Polled

variable {path : String} {calls : FileCalls} {file : GrbFile} {r : FileReader} {s : Played n}

/-- Of a file without a sample the reader offers nothing. -/
theorem offered_none (h : PlayedInv r s) (hT : r.header.totalSamples.toNat = 0) (ch : Fin n) :
    s.stream r ch = [] ∧ s.playback.ahead ch = 0 := by
  constructor
  · rw [stream, Playback.stream, List.flatMap_eq_nil_iff]
    intro b hb
    have hlen : b.len = 0 := by
      have := (h.bounded.block ch b hb).2
      omega
    simp [FileReader.samples, FileReader.blockReads, hlen]
  · unfold Playback.ahead
    split
    · rename_i b c hpc
      have := h.bounded.batch b c hpc
      split_ifs <;> omega
    · rfl

/-- The reader offers the channels of the file over and over, from the beginning. -/
theorem stream_cycle (hnew : FileReader.new path calls file = .ok r) (hfits : r.header.announced ≤ file.bytes.length)
    (hs : (played n r).Reachable s) :
    ∃ k, ∀ ch : Fin n, s.stream r ch = cycle (file.channel ch) 0 (k + s.playback.ahead ch) := by
  have h := reach_playedInv hs
  obtain ⟨hsize, -, hmax, hcount, -⟩ := FileReader.new_ok hnew
  have hroom := room_of_announced h.channels hfits
  rcases Nat.eq_zero_or_pos r.header.totalSamples.toNat with hzero | hT
  · refine ⟨0, fun ch => ?_⟩
    obtain ⟨hstream, hahead⟩ := offered_none h hzero ch
    rw [hstream, hahead, cycle_zero]
  have hin {c : ℕ} (hc : c < r.played n) : r.Inside c ⟨0, r.header.totalSamples.toNat⟩ :=
    Playback.inside_of_fits (hsize ▸ hmax) hcount (hsize ▸ hroom) hc (Nat.zero_add _).le
  obtain ⟨k, hk⟩ := Playback.reach_exact hT (Playback.batchSize_pos r) (fun _ => hin) h.playback
  refine ⟨k, fun ch => ?_⟩
  have hch : ch.val < r.played n := ch.isLt.trans_eq h.played.symm
  have hmul : (ch.val + 1) * r.header.totalSamples.toNat ≤ r.played n * r.header.totalSamples.toNat :=
    Nat.mul_le_mul_right _ hch
  have hle : r.played n ≤ r.header.channelCount.toNat := Nat.min_le_left ..
  rw [stream, hk.stream ch hch, FileReader.channel_eq hnew (by omega) (by omega)]

/-- **From a file to the viewer**, over a pipe, in every run: the thread of the reader goes on until it ends, and reads
nothing outside of the file; each frame that the main loop polls is the decimation of a frame of its samples, in their order,
and of consecutive ones where nothing was lost; and the reader offers the channels over and over, each as far as the others but
for the batch that it is pushing. -/
theorem played_end_to_end (hnew : FileReader.new path calls file = .ok r)
    (hfits : r.header.announced ≤ file.bytes.length) (hs : (played n r).Reachable s) (w : WriteKernel)
    (reads : ReadKernel) (stale : ℕ → List UInt8) {value : Double → ℚ} {t : LinearRuntime (Frame ℚ)}
    (ht : (LinearRuntime.runtime viewerStages).Reach
      (Viewing (PipeConsumer.receiveFrame reads.count false) (pipeAdapter w stale s.sg) value) t) :
    (s.playback.pc ≠ .ended → (s.step r (.reader .thread)).isSome) ∧
      List.SublistForall₂ (ShowsStream (s.stream r) s.sg) (t.polled viewerStages) s.sg.sent ∧
      ∃ k, ∀ ch : Fin n, s.stream r ch = cycle (file.channel ch) 0 (k + s.playback.ahead ch) := by
  have h := reach_playedInv hs
  obtain ⟨-, -, -, hcount, -⟩ := FileReader.new_ok hnew
  exact ⟨reader_proceeds hnew hfits hs, polled_stream h.feed (h.channels ▸ hcount) w reads stale ht,
    stream_cycle hnew hfits hs⟩

/-- Two rounds of a file with a single sample, and a frame of them. -/
theorem played_end_to_end_one : ∃ (s : Played 1) (t : LinearRuntime (Frame ℚ)),
    s.sg.sent.map (fun f => f.payload.map Sample.value) = [[5, 5]] ∧ (t.polled viewerStages).length = 1 ∧
      List.SublistForall₂ (ShowsStream (s.stream Playback.oneReader) s.sg) (t.polled viewerStages) s.sg.sent ∧
      ∃ k, ∀ ch : Fin 1, s.stream Playback.oneReader ch =
        cycle (Playback.oneSample.channel ch) 0 (k + s.playback.ahead ch) := by
  have hrun : ((played 1 Playback.oneReader).exec (started false true 5 (by decide) 2)
      (List.replicate 12 (.reader .thread) ++ List.replicate 7 (.other (.sender true 0 0)))).map (fun s =>
        s.sg.sent.map fun f => f.payload.map Sample.value) = some [[5, 5]] := by decide +kernel
  obtain ⟨s, hs, hpayloads⟩ := Option.map_eq_some_iff.mp hrun
  have hreach : (played 1 Playback.oneReader).Reachable s :=
    Lts.reachable_of_exec _ ⟨by decide, false, true, 5, by decide, 2, by decide, rfl⟩ hs
  have hsent : s.sg.sent ≠ [] := by
    intro hnone
    rw [hnone] at hpayloads
    cases hpayloads
  obtain ⟨t, ht, hpolled⟩ := exists_polled_pipe (by decide) (by decide) (reach_playedInv hreach).feed.reachable.reachable
    hsent bytewiseWrites bytewiseReads (fun _ => []) fun _ => 0
  have hnew : FileReader.new "one.grb" ⟨true, true, true⟩ Playback.oneSample = .ok Playback.oneReader := rfl
  obtain ⟨-, hshown, hcycle⟩ := played_end_to_end hnew (by decide) hreach bytewiseWrites bytewiseReads
    (fun _ => []) ht
  exact ⟨s, t, hpayloads, hpolled, hshown, hcycle⟩

end Polled

end Played

end Grebe
