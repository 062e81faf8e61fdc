import Grebe.SgSenderFrames

/-!
# Grebe.SgSenderIndices — which samples the frames of grebe-sg hold

Without a switch of the source, the frames cut what a ring has accepted into blocks (`slice_eq`).  A ring takes what
fits of a batch and drops the rest, each ring by its own room; the header counts the samples sent.

* `aligned`: in the runs in which each ring takes as much of a batch as the rings before it, the channels of a frame
  hold the samples of the same indices.  `shifted_sent`: a run whose second ring was still full when the first had room;
  `apart_forever`: it stays so.
* `firstIndex_iff`: the header's first index is that of the first sample unless an earlier sample was dropped, in every
  run.  `firstIndex_lost`: a run with a drop.
-/

namespace Grebe

open Lib

/-! ## Counting in a list that increases -/

section Counting

theorem countP_lt_getElem {l : List ℕ} (h : l.Pairwise (· < ·)) {k : ℕ} (hk : k < l.length) :
    l.countP (· < l[k]) = k := by
  have hlow : (l.take k).countP (· < l[k]) = k := by
    rw [List.countP_eq_length.mpr, List.length_take, min_eq_left hk.le]
    intro x hx
    obtain ⟨i, hi, rfl⟩ := List.mem_take_iff_getElem.mp hx
    rw [lt_min_iff] at hi
    exact decide_eq_true (List.pairwise_iff_getElem.mp h i k hi.2 hk hi.1)
  have hhigh : (l.drop k).countP (· < l[k]) = 0 := by
    apply List.countP_eq_zero.mpr
    intro x hx
    obtain ⟨i, hi, rfl⟩ := List.mem_drop_iff_getElem.mp hx
    rw [decide_eq_true_iff, not_lt]
    rcases Nat.eq_zero_or_pos i with rfl | hpos
    · exact le_rfl
    · exact (List.pairwise_iff_getElem.mp h k (k + i) hk (by omega) (by omega)).le
  calc l.countP (· < l[k])
      = (l.take k ++ l.drop k).countP (· < l[k]) := by rw [List.take_append_drop]
    _ = k := by rw [List.countP_append, hlow, hhigh, Nat.add_zero]

theorem countP_lt_range {v p : ℕ} (h : v ≤ p) : (List.range p).countP (· < v) = v := by
  obtain ⟨d, rfl⟩ := Nat.exists_eq_add_of_le h
  have hlow : (List.range v).countP (· < v) = v := by
    rw [List.countP_eq_length.mpr, List.length_range]
    exact fun x hx => decide_eq_true (List.mem_range.mp hx)
  have hhigh : ((List.range d).map (v + ·)).countP (· < v) = 0 := by
    apply List.countP_eq_zero.mpr
    intro x hx
    obtain ⟨y, -, rfl⟩ := List.mem_map.mp hx
    simp
  rw [List.range_add, List.countP_append, hlow, hhigh, Nat.add_zero]

/-- **An increasing list and what it leaves out of a range**: an entry is its place and what is left out below it. -/
theorem getElem_eq_add_countP {l m : List ℕ} {p : ℕ} (h : l.Pairwise (· < ·)) (hperm : (l ++ m).Perm (List.range p))
    {k : ℕ} (hk : k < l.length) : l[k] = k + m.countP (· < l[k]) := by
  have hmem : l[k] ∈ List.range p := hperm.mem_iff.mp (List.mem_append_left m (List.getElem_mem hk))
  calc l[k] = (List.range p).countP (· < l[k]) := (countP_lt_range (List.mem_range.mp hmem).le).symm
    _ = (l ++ m).countP (· < l[k]) := (hperm.countP_eq _).symm
    _ = k + m.countP (· < l[k]) := by rw [List.countP_append, countP_lt_getElem h hk]

theorem append_perm {xs ys zs : List ℕ} (h : (xs ++ ys).Perm zs) (us vs : List ℕ) :
    (xs ++ us ++ (ys ++ vs)).Perm (zs ++ (us ++ vs)) := by
  calc xs ++ us ++ (ys ++ vs) = xs ++ (us ++ ys ++ vs) := by simp only [List.append_assoc]
    List.Perm _ (xs ++ (ys ++ us ++ vs)) := (List.perm_append_comm.append_right vs).append_left xs
    _ = xs ++ ys ++ (us ++ vs) := by simp only [List.append_assoc]
    List.Perm _ (zs ++ (us ++ vs)) := h.append_right _

end Counting

/-- How many samples of each channel the payload holds. -/
def SentFrame.block {n : ℕ} (f : SentFrame n) : ℕ := f.header.blockLengthSamples.toNat

/-- The samples of channel `ch` in the payload. -/
def SentFrame.slice {n : ℕ} (f : SentFrame n) (ch : Fin n) : List Sample := (f.payload.drop (ch * f.block)).take f.block

/-- How many rings have had their part of the batch. -/
def SourcePc.done : SourcePc → ℕ
  | .push _ ch => ch
  | .record _ ch _ => ch + 1
  | _ => 0

/-- The batch and the ring of the next push. -/
def SourcePc.pushing : SourcePc → Option (ℕ × ℕ)
  | .push len ch => some (len, ch)
  | _ => none

/-- The length of the batch. -/
def SourcePc.len : SourcePc → ℕ
  | .push len _ => len
  | .record len _ _ => len
  | _ => 0

/-- The block size of the frame that the sender is at. -/
def SenderPc.blockSize : SenderPc → Option UInt32
  | .check blockSize _ => some blockSize
  | .pop blockSize _ => some blockSize
  | .drops blockSize _ _ => some blockSize
  | _ => none

namespace SgSender

variable {n : ℕ} {signal : ℕ → ℕ → ℕ → Int16} {s s' : SgSender n}

/-! ## The frames are the blocks of what a ring accepted -/

section Blocks

/-- How many samples of each channel these frames hold. -/
def total (frames : List (SentFrame n)) : ℕ := (frames.map SentFrame.block).sum

theorem length_popped {frames : List (SentFrame n)} (h : ∀ f ∈ frames, Fresh f) (ch : Fin n) :
    ((frames.map fun f => f.popped ch).flatten).length = total frames := by
  rw [List.length_flatten, List.map_map, total]
  congr 1
  exact List.map_congr_left fun f hf => (h f hf).popped ch

/-- Nothing is removed from a ring but what is taken. -/
theorem reach_removed (hs : (threads n signal).Reach NoSwitch s) (ch : Fin n) :
    (s.rings ch).removed = s.taken ch := by
  refine hs.invariant_of (I := fun s => (s.rings ch).removed = s.taken ch) (fun _ => reach_noSwitchInv)
    (fun t h0 => ?_) fun t _ _ hno h _ hst => ?_
  · obtain ⟨slots, pos, blockSize, -, rfl⟩ := h0
    rfl
  · obtain ⟨xs, hremoved, htaken | ⟨-, c, hflush⟩⟩ := taken_delta (step_cases hst) ch
    · rw [hremoved, htaken, h]
    · exact absurd hflush (hno.source c)

/-- **A frame holds the next block of what each ring accepted.** -/
theorem slice_eq (hs : (threads n signal).Reach NoSwitch s) {pre post : List (SentFrame n)} {f : SentFrame n}
    (hsent : s.sent = pre ++ f :: post) (ch : Fin n) :
    f.slice ch = ((s.rings ch).accepted.drop (total pre)).take f.block ∧
      total pre + f.block ≤ (s.rings ch).accepted.length := by
  have hfresh := (reach_freshInv (reach_full hs)).fresh
  rw [hsent] at hfresh
  have hpre : ((pre.map fun g => g.popped ch).flatten).length = total pre :=
    length_popped (fun g hg => hfresh g (List.mem_append_left _ hg)) ch
  have hf : Fresh f := hfresh f (List.mem_append_right _ (List.mem_cons_self ..))
  have hpopped : (f.popped ch).length = f.block := hf.popped ch
  have haccepted : (s.rings ch).accepted = (pre.map fun g => g.popped ch).flatten ++
      (f.popped ch ++ ((post.map fun g => g.popped ch).flatten ++ s.pending ch ++ (s.rings ch).items)) := by
    rw [(s.rings ch).split, reach_removed hs ch, taken, hsent]
    simp
  rw [haccepted, List.drop_left' hpre, List.take_left' hpopped]
  refine ⟨hf.slice ch, ?_⟩
  rw [List.length_append, List.length_append, hpre, hpopped]
  omega

end Blocks

/-! ## What a source offers to a ring -/

section Offer

/-- How many samples the source has offered to ring `ch`. -/
def offered (s : SgSender n) (ch : Fin n) : ℕ := s.produced + if ch.val < s.source.done then s.source.len else 0

@[simp] theorem map_index_batchOf (s : SgSender n) (len ch : ℕ) :
    (s.batchOf signal len ch).map Sample.index = List.range' s.produced len := by
  rw [batchOf, List.map_map]
  exact List.map_id _

/-- What one step offers to ring `ch` without a switch: nothing, or a batch of which the ring takes what fits. -/
theorem offer_cases {l : Label} (h : NoSwitchInv s) (hno : NoSwitch s l) (hst : s.Step signal l s') (ch : Fin n) :
    ((s'.rings ch).accepted = (s.rings ch).accepted ∧ s'.lost ch = s.lost ch ∧ s'.offered ch = s.offered ch) ∨
    ∃ len, s.source = .push len ch ∧ s.offered ch = s.produced ∧ s'.offered ch = s.produced + len ∧
      (s'.rings ch).accepted = (s.rings ch).accepted ++ (s.batchOf signal len ch).take (s.rings ch).free ∧
      s'.lost ch = s.lost ch ++ (s.batchOf signal len ch).drop (min len (s.rings ch).free) := by
  have hsame {t : SgSender n} (hring : (t.rings ch).accepted = (s.rings ch).accepted) (hlost : t.lost ch = s.lost ch)
      (hproduced : t.produced = s.produced) (hsource : t.source = s.source) :
      (t.rings ch).accepted = (s.rings ch).accepted ∧ t.lost ch = s.lost ch ∧ t.offered ch = s.offered ch :=
    ⟨hring, hlost, by rw [offered, offered, hproduced, hsource]⟩
  rcases hst with hpc | hpc | ⟨hpc, hch⟩ | hpc | _ | hpc | hpc | _ | _ | _ | _ | _ | _ | _ | _ | _ | _ | _
  case batch =>
    refine .inl ⟨rfl, rfl, ?_⟩
    simp [offered, hpc, SourcePc.done]
  case push len c =>
    have hdone : s.source.done = c := by rw [hpc, SourcePc.done]
    have hlen : s.source.len = len := by rw [hpc, SourcePc.len]
    by_cases hc : ch = c
    · subst hc
      refine .inr ⟨len, hpc, ?_, ?_, ?_, Function.update_self ..⟩
      · rw [offered, hdone, if_neg (lt_irrefl _), Nat.add_zero]
      · show s.produced + (if ch.val < ch.val + 1 then len else 0) = s.produced + len
        rw [if_pos (Nat.lt_succ_self _)]
      · rw [setRing_self, RingBuffer.accepted_pushBulk]
    · have hne : ch.val ≠ c.val := fun heq => hc (Fin.ext heq)
      have hlt : ch.val < c.val + 1 ↔ ch.val < c.val := by omega
      refine .inl ⟨by rw [setRing_other _ _ hc], Function.update_of_ne hc .., ?_⟩
      show s.produced + (if ch.val < c.val + 1 then len else 0) = _
      simp only [offered, hdone, hlen, hlt]
  case pushed len c =>
    refine .inl ⟨rfl, rfl, ?_⟩
    have hlt : ch.val < c := ch.isLt.trans_le hch
    simp [offered, hpc, SourcePc.done, SourcePc.len, hlt]
  case record =>
    refine .inl ⟨rfl, rfl, ?_⟩
    simp [offered, hpc, SourcePc.done, SourcePc.len]
  case switchSource => exact absurd rfl hno
  case flush | flushed => exact absurd hpc (h.source _)
  case pop _ c _ =>
    refine .inl (hsame ?_ rfl rfl rfl)
    by_cases hc : ch = c
    · subst hc
      rw [setRing_self, RingBuffer.accepted_popBulk]
    · rw [setRing_other _ _ hc]
  all_goals exact .inl (hsame rfl rfl rfl rfl)

theorem map_index_take (s : SgSender n) (len ch k : ℕ) :
    ((s.batchOf signal len ch).take k).map Sample.index = List.range' s.produced (min len k) := by
  rw [List.map_take, map_index_batchOf]
  rcases le_total len k with hle | hle
  · rw [List.take_range'_of_length_le hle, min_eq_left hle]
  · rw [List.take_range'_of_length_ge hle, min_eq_right hle]

theorem map_index_drop (s : SgSender n) (len ch k : ℕ) :
    ((s.batchOf signal len ch).drop k).map Sample.index = List.range' (s.produced + k) (len - k) := by
  rw [List.map_drop, map_index_batchOf, List.drop_range', Nat.mul_one]

end Offer

/-! ## The channels of a frame -/

section Aligned

/-- A ring takes as much of a batch as the rings before it have taken. -/
def SameRoom (s : SgSender n) : Label → Prop
  | .source => ∀ p ∈ s.source.pushing, ∀ c ch : Fin n, c.val < p.2 → ch.val = p.2 →
      (s.rings ch).accepted.length + min p.1 (s.rings ch).free = (s.rings c).accepted.length
  | _ => True

instance (s : SgSender n) : DecidablePred (SameRoom s)
  | .source => inferInstanceAs (Decidable (∀ p ∈ s.source.pushing, ∀ c ch : Fin n, c.val < p.2 → ch.val = p.2 →
      (s.rings ch).accepted.length + min p.1 (s.rings ch).free = (s.rings c).accepted.length))
  | .batch _ => isTrue trivial
  | .switchSource => isTrue trivial
  | .setBlockSize _ => isTrue trivial
  | .stop => isTrue trivial
  | .sender .. => isTrue trivial

/-- The source is not switched, and each ring takes as much of a batch as the rings before it. -/
def InStep (s : SgSender n) (l : Label) : Prop := NoSwitch s l ∧ SameRoom s l

instance (s : SgSender n) : DecidablePred (InStep s) := fun _ => inferInstanceAs (Decidable (_ ∧ _))

/-- The rings have accepted samples of the same indices, and those that are past the push of a batch the same of it. -/
def Aligned (s : SgSender n) : Prop :=
  ∃ (common : List ℕ) (m : ℕ), m ≤ s.source.len ∧ ∀ ch, (s.rings ch).accepted.map Sample.index =
    if ch.val < s.source.done then common ++ List.range' s.produced m else common

/-- **One step keeps the rings aligned** if each ring takes as much as those before it. -/
theorem aligned_step {l : Label} (h : Aligned s) (hsource : NoSwitchInv s) (hin : InStep s l)
    (hst : s.Step signal l s') : Aligned s' := by
  obtain ⟨common, m, hm, h⟩ := h
  obtain ⟨hno, hroom⟩ := hin
  rcases hst with hpc | hpc | ⟨hpc, hch⟩ | hpc | _ | hpc | hpc | _ | _ | _ | _ | _ | _ | _ | _ | _ | _ | _
  case batch =>
    rw [hpc] at hm
    refine ⟨common, m, hm.trans (Nat.zero_le _), ?_⟩
    intro ch
    rw [h ch, hpc]
    rfl
  case record =>
    rw [hpc] at hm
    refine ⟨common, m, hm, ?_⟩
    intro ch
    rw [h ch, hpc]
    rfl
  case push len c =>
    have hdone : s.source.done = c := by rw [hpc, SourcePc.done]
    simp only [hdone] at h
    refine ⟨common, min len (s.rings c).free, min_le_left .., ?_⟩
    intro ch
    show _ = if ch.val < c.val + 1 then common ++ List.range' s.produced _ else common
    by_cases hc : ch = c
    · subst hc
      rw [if_pos (Nat.lt_succ_self _), setRing_self, RingBuffer.accepted_pushBulk, List.map_append, map_index_take,
        h ch, if_neg (lt_irrefl _)]
    · have hne : ch.val ≠ c.val := fun heq => hc (Fin.ext heq)
      rw [setRing_other _ _ hc, h ch]
      by_cases hlt : ch.val < c.val
      · -- ring `ch` has had its part of the batch
        have hlen := hroom (len, c.val) (by rw [hpc]; rfl) ch c hlt rfl
        have hlenc := congrArg List.length (h c)
        have hlench := congrArg List.length (h ch)
        rw [if_neg (lt_irrefl _), List.length_map] at hlenc
        rw [if_pos hlt, List.length_map, List.length_append, List.length_range'] at hlench
        rw [hlenc, hlench] at hlen
        rw [if_pos hlt, if_pos (Nat.lt_succ_of_lt hlt), Nat.add_left_cancel hlen]
      · rw [if_neg hlt, if_neg (by omega)]
  case pushed len c =>
    have hdone : s.source.done = c := by rw [hpc, SourcePc.done]
    refine ⟨common ++ List.range' s.produced m, 0, le_rfl, ?_⟩
    intro ch
    rw [h ch, hdone, if_pos (ch.isLt.trans_le hch)]
    exact (if_neg (Nat.not_lt_zero _)).symm
  case switchSource => exact absurd rfl hno
  case flush | flushed => exact absurd hpc (hsource.source _)
  case pop _ c _ =>
    refine ⟨common, m, hm, ?_⟩
    intro ch
    by_cases hc : ch = c
    · subst hc
      rw [setRing_self, RingBuffer.accepted_popBulk]
      exact h ch
    · rw [setRing_other _ _ hc]
      exact h ch
  all_goals exact ⟨common, m, hm, h⟩

theorem reach_aligned (hs : (threads n signal).Reach InStep s) : Aligned s := by
  refine hs.invariant_of (I := Aligned) (fun _ hr => reach_noSwitchInv (hr.mono fun _ _ hC => hC.1)) (fun t h0 => ?_)
    fun _ _ _ hno h hin hst => aligned_step h hno hin (step_cases hst)
  obtain ⟨slots, pos, blockSize, -, rfl⟩ := h0
  exact ⟨[], 0, le_rfl, fun _ => rfl⟩

/-- All rings have accepted a part of one list of indices. -/
theorem Aligned.part (h : Aligned s) :
    ∃ all : List ℕ, ∀ ch, (s.rings ch).accepted.map Sample.index <+: all := by
  obtain ⟨common, m, -, h⟩ := h
  refine ⟨common ++ List.range' s.produced m, ?_⟩
  intro ch
  rw [h ch]
  split_ifs
  · exact List.prefix_rfl
  · exact List.prefix_append ..

/-- **The channels of a frame hold the samples of the same indices**, in the runs in which each ring takes as much of a
batch as the rings before it. -/
theorem aligned (hs : (threads n signal).Reach InStep s) :
    ∀ f ∈ s.sent, ∀ c ch : Fin n, (f.slice c).length = f.block ∧
      (f.slice c).map Sample.index = (f.slice ch).map Sample.index := by
  intro f hf c ch
  have hno : (threads n signal).Reach NoSwitch s := hs.mono fun _ _ hC => hC.1
  obtain ⟨all, hall⟩ := (reach_aligned hs).part
  obtain ⟨pre, post, hsent⟩ := List.append_of_mem hf
  have hslice (d : Fin n) : (f.slice d).map Sample.index = (all.drop (total pre)).take f.block := by
    obtain ⟨heq, hle⟩ := slice_eq hno hsent d
    obtain ⟨rest, hrest⟩ := hall d
    have hlen : total pre + f.block ≤ ((s.rings d).accepted.map Sample.index).length := by rwa [List.length_map]
    rw [heq, List.map_take, List.map_drop, ← hrest, List.drop_append_of_le_length (by omega),
      List.take_append_of_le_length (by rw [List.length_drop]; omega)]
  obtain ⟨heq, hle⟩ := slice_eq hno hsent c
  refine ⟨?_, by rw [hslice c, hslice ch]⟩
  rw [heq, List.length_take, List.length_drop]
  omega

/-- A batch, pushed with `m` calls, and then `k` steps of the sender. -/
def round (len m k : ℕ) : List Label :=
  .batch len :: (List.replicate m .source ++ List.replicate k (.sender true 0 0))

/-- Two frames of two channels. -/
theorem aligned_two :
    ∃ s : SgSender 2, (threads 2 fun _ _ i => Int16.ofNat i).Reach InStep s ∧ s.sent.length = 2 ∧
      ∀ f ∈ s.sent, (f.slice 0).length = f.block ∧ (f.slice 0).map Sample.index = (f.slice 1).map Sample.index := by
  have hrun : ((Lib.Lts.execIn InStep (threads 2 fun _ _ i => Int16.ofNat i) (started 5 (by decide) 2)
      (round 6 5 20)).map fun s => s.sent.length) = some 2 := by decide +kernel
  obtain ⟨s, hs, hlen⟩ := Option.map_eq_some_iff.mp hrun
  have hreach : (threads 2 fun _ _ i => Int16.ofNat i).Reach InStep s :=
    .execIn (.init ⟨5, by decide, 2, by decide, rfl⟩) hs
  exact ⟨s, hreach, hlen, fun f hf => aligned hreach f hf 0 1⟩

/-- Ring `c` has accepted the sample of index `v` at place `k`, where ring `ch` has a later one or will have. -/
structure Apart (s : SgSender n) (c ch : Fin n) (k v : ℕ) : Prop where
  here : ((s.rings c).accepted.map Sample.index)[k]? = some v
  there : ∀ x ∈ ((s.rings ch).accepted.map Sample.index).drop k, v < x
  reached : k ≤ (s.rings ch).accepted.length
  past : v < s.offered ch

/-- **Rings that are apart stay apart.** -/
theorem apart_step {l : Label} {c ch : Fin n} {k v : ℕ} (h : Apart s c ch k v) (hsource : NoSwitchInv s)
    (hno : NoSwitch s l) (hst : s.Step signal l s') : Apart s' c ch k v := by
  have hhere : ((s'.rings c).accepted.map Sample.index)[k]? = some v := by
    rcases offer_cases hsource hno hst c with ⟨haccepted, -, -⟩ | ⟨len, -, -, -, haccepted, -⟩
    · rw [haccepted]
      exact h.here
    · rw [haccepted, List.map_append, List.getElem?_append_left (List.getElem?_eq_some_iff.mp h.here).1]
      exact h.here
  rcases offer_cases hsource hno hst ch with ⟨haccepted, -, hoffered⟩ | ⟨len, -, hbefore, hoffered, haccepted, -⟩
  · exact ⟨hhere, by rw [haccepted]; exact h.there, by rw [haccepted]; exact h.reached, by rw [hoffered]; exact h.past⟩
  · have hpast := h.past
    refine ⟨hhere, ?_, ?_, by omega⟩
    · intro x hx
      have hk : k ≤ ((s.rings ch).accepted.map Sample.index).length := by
        rw [List.length_map]
        exact h.reached
      rw [haccepted, List.map_append, List.drop_append_of_le_length hk, map_index_take] at hx
      rcases List.mem_append.mp hx with hx | hx
      · exact h.there x hx
      · have := (List.mem_range'_1.mp hx).1
        omega
    · rw [haccepted, List.length_append]
      exact h.reached.trans (Nat.le_add_right ..)

/-- **A frame of two rings that are apart at one of its places is not aligned.** -/
theorem Apart.frame {c ch : Fin n} {k v : ℕ} (h : Apart s c ch k v) (hs : (threads n signal).Reach NoSwitch s)
    {pre post : List (SentFrame n)} {f : SentFrame n} (hsent : s.sent = pre ++ f :: post) (hpre : total pre ≤ k)
    (hk : k < total pre + f.block) : (f.slice c).map Sample.index ≠ (f.slice ch).map Sample.index := by
  intro heq
  have hplace (d : Fin n) : ((f.slice d).map Sample.index)[k - total pre]? =
      ((s.rings d).accepted.map Sample.index)[k]? := by
    rw [(slice_eq hs hsent d).1, List.map_take, List.map_drop, List.getElem?_take_of_lt (by omega), List.getElem?_drop,
      Nat.add_sub_cancel' hpre]
  have hv : ((s.rings ch).accepted.map Sample.index)[k]? = some v := by
    rw [← hplace ch, ← heq, hplace c]
    exact h.here
  have hmem : v ∈ ((s.rings ch).accepted.map Sample.index).drop k := by
    refine List.mem_of_getElem? (i := 0) ?_
    rw [List.getElem?_drop, Nat.add_zero]
    exact hv
  exact absurd (h.there v hmem) (lt_irrefl v)

theorem Apart.of_append {c ch : Fin n} {common : List ℕ} {p i j : ℕ}
    (hc : (s.rings c).accepted.map Sample.index = common ++ List.range' p i)
    (hch : (s.rings ch).accepted.map Sample.index = common ++ List.range' p j) (hlt : j < i)
    (hpast : p + j < s.offered ch) : Apart s c ch (common.length + j) (p + j) where
  here := by
    rw [hc, List.getElem?_append_right (Nat.le_add_right ..), Nat.add_sub_cancel_left, List.getElem?_range' hlt,
      Nat.one_mul]
  there := by
    have hlen : (common ++ List.range' p j).length ≤ common.length + j := by
      rw [List.length_append, List.length_range']
    rw [hch, List.drop_eq_nil_of_le hlen]
    exact nofun
  reached := by
    have hlen := congrArg List.length hch
    rw [List.length_map, List.length_append, List.length_range'] at hlen
    exact hlen.ge
  past := hpast

/-- **A ring that takes more or less than one before it leaves the two apart.** -/
theorem apart_of_not_sameRoom {l : Label} (h : Aligned s) (hroom : ¬ SameRoom s l)
    (hst : s.step signal l = some s') : ∃ c ch k v, Apart s' c ch k v := by
  rcases l with _ | _ | _ | _ | _ | _
  case source =>
    simp only [SameRoom, not_forall] at hroom
    obtain ⟨⟨len, j⟩, hpush, c, ch, hlt, rfl, hne⟩ := hroom
    have hpc : s.source = .push len ch := by
      cases hsource : s.source with
      | push a b => simpa [SourcePc.pushing, hsource] using hpush
      | idle | record | flush => simp [SourcePc.pushing, hsource] at hpush
    have hdone : s.source.done = ch := by rw [hpc, SourcePc.done]
    have hlt : c.val < ch.val := hlt
    obtain ⟨common, m, hm, h⟩ := h
    have hm : m ≤ len := by rwa [hpc] at hm
    have hc := h c
    have hch := h ch
    rw [hdone, if_pos hlt] at hc
    rw [hdone, if_neg (lt_irrefl _)] at hch
    -- the lists after the push
    simp only [step, stepSource, hpc, dif_pos ch.isLt, Option.some.injEq] at hst
    have hc' : (s'.rings c).accepted.map Sample.index = common ++ List.range' s.produced m := by
      have hcc : c ≠ ch := fun heq => absurd (heq ▸ hlt) (lt_irrefl _)
      rw [← hst, setRing_other _ _ hcc, hc]
    have hch' : (s'.rings ch).accepted.map Sample.index =
        common ++ List.range' s.produced (min len (s.rings ch).free) := by
      rw [← hst, setRing_self, RingBuffer.accepted_pushBulk, List.map_append, map_index_take, hch]
    have hoffered (d : Fin n) (hd : d.val < ch.val + 1) : s'.offered d = s.produced + len := by
      rw [← hst]
      show s.produced + (if d.val < ch.val + 1 then len else 0) = _
      rw [if_pos hd]
    have hne' : min len (s.rings ch).free ≠ m := by
      intro heq
      have hlenc := congrArg List.length hc
      have hlench := congrArg List.length hch
      rw [List.length_map, List.length_append, List.length_range'] at hlenc
      rw [List.length_map] at hlench
      exact hne (by rw [hlenc, hlench, heq])
    rcases lt_or_gt_of_ne hne' with hless | hmore
    · refine ⟨c, ch, _, _, .of_append hc' hch' hless ?_⟩
      rw [hoffered ch (Nat.lt_succ_self _)]
      exact Nat.add_lt_add_left (hless.trans_le hm) _
    · refine ⟨ch, c, _, _, .of_append hch' hc' hmore ?_⟩
      rw [hoffered c (Nat.lt_succ_of_lt hlt)]
      exact Nat.add_lt_add_left (hmore.trans_le (min_le_left ..)) _
  all_goals exact absurd trivial hroom

/-- **After a push that leaves two rings apart no later frame at that place is aligned**, without a switch. -/
theorem apart_forever {l : Label} (hs : (threads n signal).Reach InStep s) (hno : NoSwitch s l)
    (hroom : ¬ SameRoom s l) (hst : s.step signal l = some s') :
    ∃ c ch k, ∀ t, (threads n signal).CanReach (fun l => l ≠ .switchSource) s' t →
      ∀ pre f post, t.sent = pre ++ f :: post → total pre ≤ k → k < total pre + f.block →
        (f.slice c).map Sample.index ≠ (f.slice ch).map Sample.index := by
  obtain ⟨c, ch, k, v, hapart⟩ := apart_of_not_sameRoom (reach_aligned hs) hroom hst
  have htrap : (threads n signal).Trap (fun l => l ≠ .switchSource) fun t =>
      (threads n signal).Reach NoSwitch t ∧ Apart t c ch k v := by
    rintro t l t' ⟨ht, h⟩ hl hst'
    exact ⟨.step ht hl hst', apart_step h (reach_noSwitchInv ht) hl (step_cases hst')⟩
  have hreach : (threads n signal).Reach NoSwitch s' := .step (hs.mono fun _ _ hin => hin.1) hno hst
  refine ⟨c, ch, k, ?_⟩
  intro t ht pre f post hsent hpre hk
  obtain ⟨ht', h⟩ := htrap.canReach ⟨hreach, hapart⟩ ht
  exact h.frame ht' hsent hpre hk

/-- **A frame whose channels are four samples apart**: the sender had popped the first ring and not yet the second when
the source pushed the second batch. -/
theorem shifted_sent :
    ∃ s : SgSender 2, (threads 2 fun _ _ i => Int16.ofNat i).Reach NoSwitch s ∧
      s.sent.map (fun f => ((f.slice 0).map Sample.index, (f.slice 1).map Sample.index)) =
        [([0, 1], [0, 1]), ([2, 3], [2, 3]), ([4, 5], [8, 9])] := by
  have hrun : (Lib.Lts.execIn NoSwitch (threads 2 fun _ _ i => Int16.ofNat i) (started 5 (by decide) 2)
      (round 4 5 5 ++ round 4 5 15 ++ round 4 5 10)).map (fun s => s.sent.map fun f =>
        ((f.slice 0).map Sample.index, (f.slice 1).map Sample.index)) =
      some [([0, 1], [0, 1]), ([2, 3], [2, 3]), ([4, 5], [8, 9])] := by decide +kernel
  obtain ⟨s, hs, hsent⟩ := Option.map_eq_some_iff.mp hrun
  exact ⟨s, .execIn (.init ⟨5, by decide, 2, by decide, rfl⟩) hs, hsent⟩

end Aligned

/-! ## The first index of a frame -/

section FirstIndex

/-- What ring `ch` has accepted, and what it has lost. -/
structure IndexInv (s : SgSender n) (ch : Fin n) : Prop where
  sorted : ((s.rings ch).accepted.map Sample.index).Pairwise (· < ·)
  /-- every sample offered is accepted or lost, once -/
  perm : ((s.rings ch).accepted.map Sample.index ++ (s.lost ch).map Sample.index).Perm (List.range (s.offered ch))

/-- **One step keeps the books** on what is accepted and what is lost. -/
theorem indexInv_step {l : Label} {ch : Fin n} (h : IndexInv s ch) (hsource : NoSwitchInv s) (hno : NoSwitch s l)
    (hst : s.Step signal l s') : IndexInv s' ch := by
  rcases offer_cases hsource hno hst ch with
    ⟨haccepted, hlost, hoffered⟩ | ⟨len, -, hbefore, hoffered, haccepted, hlost⟩
  · exact ⟨by rw [haccepted]; exact h.sorted, by rw [haccepted, hlost, hoffered]; exact h.perm⟩
  · have hperm := h.perm
    rw [hbefore] at hperm
    have hlow : ∀ x ∈ (s.rings ch).accepted.map Sample.index, x < s.produced := fun x hx =>
      List.mem_range.mp (hperm.mem_iff.mp (List.mem_append_left _ hx))
    constructor
    · rw [haccepted, List.map_append, map_index_take, List.pairwise_append]
      refine ⟨h.sorted, List.pairwise_lt_range' .., ?_⟩
      intro x hx y hy
      exact (hlow x hx).trans_le (List.mem_range'_1.mp hy).1
    · have hsplit : List.range' s.produced len = List.range' s.produced (min len (s.rings ch).free) ++
          List.range' (s.produced + min len (s.rings ch).free) (len - min len (s.rings ch).free) := by
        rw [List.range'_append_1, Nat.add_sub_cancel' (min_le_left ..)]
      rw [haccepted, hlost, hoffered, List.map_append, List.map_append, map_index_take, map_index_drop,
        List.range_add, ← List.range'_eq_map_range, hsplit]
      exact append_perm hperm _ _

theorem reach_indexInv (hs : (threads n signal).Reach NoSwitch s) (ch : Fin n) : IndexInv s ch := by
  refine hs.invariant_of (I := fun s => IndexInv s ch) (fun _ => reach_noSwitchInv) (fun t h0 => ?_)
    fun _ _ _ hno h hsw hst => indexInv_step h hno hsw (step_cases hst)
  obtain ⟨slots, pos, blockSize, -, rfl⟩ := h0
  exact ⟨List.Pairwise.nil, List.Perm.nil⟩

/-- **The index of the sample that a ring accepted at place `k`** is `k` and what the ring had lost before it. -/
theorem index_accepted (hs : (threads n signal).Reach NoSwitch s) {ch : Fin n} {k : ℕ} {x : Sample}
    (hx : (s.rings ch).accepted[k]? = some x) :
    x.index = k + (s.lost ch).countP (fun y => y.index < x.index) := by
  have hinv := reach_indexInv hs ch
  obtain ⟨hk, hget⟩ := List.getElem?_eq_some_iff.mp hx
  have hk' : k < ((s.rings ch).accepted.map Sample.index).length := by rwa [List.length_map]
  have hplace := getElem_eq_add_countP hinv.sorted hinv.perm hk'
  rw [List.getElem_map, hget, List.countP_map] at hplace
  exact hplace

/-- No sample is both accepted and lost. -/
theorem lost_before_iff (hs : (threads n signal).Reach NoSwitch s) {ch : Fin n} {x : Sample}
    (hx : x ∈ (s.rings ch).accepted) :
    (s.lost ch).countP (fun y => y.index < x.index) = 0 ↔ ∀ y ∈ s.lost ch, x.index < y.index := by
  have hnodup := (reach_indexInv hs ch).perm.nodup_iff.mpr List.nodup_range
  have hne : ∀ y ∈ s.lost ch, x.index ≠ y.index := fun y hy heq =>
    List.disjoint_of_nodup_append hnodup (List.mem_map_of_mem hx) (heq ▸ List.mem_map_of_mem hy)
  rw [List.countP_eq_zero]
  apply forall₂_congr
  intro y hy
  rw [decide_eq_true_iff, not_lt]
  exact ⟨fun hle => lt_of_le_of_ne hle (hne y hy), le_of_lt⟩

/-- The headers count the samples of the frames. -/
structure CountInv (s : SgSender n) : Prop where
  total : s.totalSamplesSent = UInt64.ofNat (total s.sent)
  first : ∀ pre f post, s.sent = pre ++ f :: post → f.header.firstSampleIndex = UInt64.ofNat (SgSender.total pre)

theorem countInv_step {l : Label} (h : CountInv s) (hst : s.Step signal l s') : CountInv s' := by
  rcases sent_cases hst with ⟨hsent, htotal⟩ | ⟨f, hsent, hfirst, htotal⟩
  · exact ⟨by rw [hsent, htotal]; exact h.total, by rw [hsent]; exact h.first⟩
  · constructor
    · have hblock : f.header.blockLengthSamples.toUInt64 = UInt64.ofNat f.block :=
        (UInt64.ofNat_uInt32ToNat _).symm
      rw [htotal, hsent, h.total, hblock, ← UInt64.ofNat_add]
      simp [total]
    · intro pre g post heq
      rw [hsent] at heq
      rcases List.eq_nil_or_concat post with rfl | ⟨post, last, rfl⟩
      · obtain ⟨rfl, hg⟩ := List.append_inj' heq rfl
        obtain rfl : f = g := by simpa using hg
        rw [hfirst, h.total]
      · have heq' : s.sent ++ [f] = (pre ++ g :: post) ++ [last] := by rw [heq]; simp
        exact h.first pre g post (List.append_inj' heq' rfl).1

theorem reach_countInv (hs : (threads n signal).Reachable s) : CountInv s := by
  refine hs.invariant (I := CountInv) (fun t h0 => ?_) fun _ _ _ h _ hst => countInv_step h (step_cases hst)
  obtain ⟨slots, pos, blockSize, -, rfl⟩ := h0
  exact ⟨rfl, fun pre f post heq => absurd heq (by simp [started])⟩

/-- The block sizes are among the options. -/
structure BlockInv (s : SgSender n) : Prop where
  option : ValidBlock s.blockSize
  sender : ∀ blockSize ∈ s.sender.blockSize, ValidBlock blockSize
  sent : ∀ f ∈ s.sent, ValidBlock f.header.blockLengthSamples

theorem blockInv_step {l : Label} (h : BlockInv s) (hst : s.Step signal l s') : BlockInv s' := by
  have hsender := h.sender
  rcases hst with _ | _ | _ | _ | _ | _ | _ | hblock | _ | _ | _ | _ | hpc | hpc | hpc | hpc | hpc | hpc
  case setBlockSize => exact ⟨hblock, h.sender, h.sent⟩
  case halt | wait => exact ⟨h.option, nofun, h.sent⟩
  case look =>
    refine ⟨h.option, ?_, h.sent⟩
    intro blockSize hb
    rw [← Option.some.inj hb]
    exact h.option
  case check | ready | pop | popped | drops =>
    rw [hpc] at hsender
    exact ⟨h.option, hsender, h.sent⟩
  case send ok _ _ blockSize _ _ =>
    rw [hpc] at hsender
    refine ⟨h.option, by cases ok <;> exact nofun, ?_⟩
    intro f hf
    rcases List.mem_append.mp hf with hf | hf
    · exact h.sent f hf
    · rw [List.mem_singleton.mp hf]
      exact hsender blockSize rfl
  all_goals exact ⟨h.option, h.sender, h.sent⟩

theorem reach_blockInv (hs : (threads n signal).Reachable s) : BlockInv s := by
  refine hs.invariant (I := BlockInv) (fun t h0 => ?_) fun _ _ _ h _ hst => blockInv_step h (step_cases hst)
  obtain ⟨slots, pos, blockSize, hblock, rfl⟩ := h0
  exact ⟨hblock, nofun, nofun⟩

/-- **The header's first index is that of the first sample of a channel if and only if the ring lost no sample before
it**, and the index fits the field, in every run. -/
theorem firstIndex_iff (hs : (threads n signal).Reach NoSwitch s) :
    ∀ f ∈ s.sent, ∀ ch, ∃ x, (f.slice ch).head? = some x ∧
      (f.header.firstSampleIndex.toNat = x.index ↔ (∀ y ∈ s.lost ch, x.index < y.index) ∧ x.index < 2 ^ 64) := by
  intro f hf ch
  obtain ⟨pre, post, hsent⟩ := List.append_of_mem hf
  obtain ⟨hslice, hle⟩ := slice_eq hs hsent ch
  have hpos : 0 < f.block := (UInt32.le_iff_toNat_le.mp ((reach_blockInv hs.reachable).sent f hf).1)
  have hlt : total pre < (s.rings ch).accepted.length := by omega
  refine ⟨(s.rings ch).accepted[total pre], ?_, ?_⟩
  · rw [hslice, List.head?_take, if_neg hpos.ne', List.head?_drop, List.getElem?_eq_getElem hlt]
  · generalize hx : (s.rings ch).accepted[total pre] = x
    have hindex := index_accepted hs (List.getElem?_eq_some_iff.mpr ⟨hlt, hx⟩)
    have hlost := lost_before_iff hs (List.mem_of_getElem hx)
    rw [(reach_countInv hs.reachable).first pre f post hsent, UInt64.toNat_ofNat', ← hlost]
    omega

/-- **A frame whose header says 2 and whose first sample is that of index 3**: the ring took two samples of the first
batch of three. -/
theorem firstIndex_lost :
    ∃ s : SgSender 1, (threads 1 fun _ _ i => Int16.ofNat i).Reach NoSwitch s ∧
      s.sent.map (fun f => (f.header.firstSampleIndex, (f.slice 0).map Sample.index)) = [(0, [0, 1]), (2, [3, 4])] := by
  have hrun : (Lib.Lts.execIn NoSwitch (threads 1 fun _ _ i => Int16.ofNat i) (started 3 (by decide) 2)
      (round 3 3 8 ++ round 3 3 8)).map (fun s => s.sent.map fun f =>
        (f.header.firstSampleIndex, (f.slice 0).map Sample.index)) =
      some [(0, [0, 1]), (2, [3, 4])] := by decide +kernel
  obtain ⟨s, hs, hsent⟩ := Option.map_eq_some_iff.mp hrun
  exact ⟨s, .execIn (.init ⟨3, by decide, 2, by decide, rfl⟩) hs, hsent⟩

/-- The two frames of that run: the first index of the first is right, and of the second it is not. -/
theorem firstIndex_iff_two :
    ∃ s : SgSender 1, (threads 1 fun _ _ i => Int16.ofNat i).Reach NoSwitch s ∧ s.sent.length = 2 ∧
      ∀ f ∈ s.sent, ∀ ch, ∃ x, (f.slice ch).head? = some x ∧
        (f.header.firstSampleIndex.toNat = x.index ↔ (∀ y ∈ s.lost ch, x.index < y.index) ∧ x.index < 2 ^ 64) := by
  have hrun : (Lib.Lts.execIn NoSwitch (threads 1 fun _ _ i => Int16.ofNat i) (started 3 (by decide) 2)
      (round 3 3 8 ++ round 3 3 8)).map (fun s => s.sent.length) = some 2 := by decide +kernel
  obtain ⟨s, hs, hlen⟩ := Option.map_eq_some_iff.mp hrun
  have hreach : (threads 1 fun _ _ i => Int16.ofNat i).Reach NoSwitch s :=
    .execIn (.init ⟨3, by decide, 2, by decide, rfl⟩) hs
  exact ⟨s, hreach, hlen, firstIndex_iff hreach⟩

end FirstIndex

end SgSender

end Grebe
