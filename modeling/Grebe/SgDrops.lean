import Grebe.SgSenderIndices

/-!
# Grebe.SgDrops — the drops that the headers of grebe-sg report

A ring drops a sample in one step and counts it in the next; the sender adds up the counters one after the other while the
source goes on.

* `counter_eq`: a counter holds the samples its ring has lost, but for those of the batch that is being counted.
* `drops_reported`: from any point at which the sender begins a round, each header reports a number between the drops
  counted then and those counted in the end, and the numbers never go down.
* `conservation`: each sample that the source has offered to a ring is in a frame, on its way into one, in the ring or lost.
-/

namespace Grebe

open Lib

namespace SgSender

variable {n : ℕ} {signal : ℕ → ℕ → ℕ → Int16} {s s' t : SgSender n}

/-! ## The counters -/

section Counters

/-- How many of the lost samples of ring `ch` the next step of the source counts. -/
def uncounted (s : SgSender n) (ch : Fin n) : ℕ :=
  match s.source with
  | .record len c pushed => if ch.val = c then len - pushed else 0
  | _ => 0

/-- How many samples of ring `ch` are counted as dropped. -/
def counted (s : SgSender n) (ch : Fin n) : ℕ := (s.lost ch).length - s.uncounted ch

/-- The books on what ring `ch` drops. -/
structure CounterInv (s : SgSender n) (ch : Fin n) : Prop where
  le : s.uncounted ch ≤ (s.lost ch).length
  dropped : s.dropped ch = UInt64.ofNat (s.counted ch)

/-- What one step drops and counts of ring `ch`. -/
theorem counter_cases {l : Label} (hst : s.step signal l = some s') (ch : Fin n) :
    (s'.lost ch = s.lost ch ∧ s'.dropped ch = s.dropped ch ∧ s'.uncounted ch = s.uncounted ch) ∨
    (s.uncounted ch = 0 ∧ s'.dropped ch = s.dropped ch ∧
      (s'.lost ch).length = (s.lost ch).length + s'.uncounted ch) ∨
    (s'.lost ch = s.lost ch ∧ s'.uncounted ch = 0 ∧
      s'.dropped ch = s.dropped ch + UInt64.ofNat (s.uncounted ch)) := by
  have hsame {u : SgSender n} (hlost : u.lost = s.lost) (hdropped : u.dropped = s.dropped)
      (hsource : u.source = s.source) : u.lost ch = s.lost ch ∧ u.dropped ch = s.dropped ch ∧
        u.uncounted ch = s.uncounted ch :=
    ⟨by rw [hlost], by rw [hdropped], by rw [uncounted, uncounted, hsource]⟩
  have hquiet {u : SgSender n} (hlost : u.lost = s.lost) (hdropped : u.dropped = s.dropped)
      (hbefore : s.uncounted ch = 0) (hafter : u.uncounted ch = 0) : u.lost ch = s.lost ch ∧
        u.dropped ch = s.dropped ch ∧ u.uncounted ch = s.uncounted ch :=
    ⟨by rw [hlost], by rw [hdropped], by rw [hbefore, hafter]⟩
  have hzero (hpc : ∀ len c pushed, s.source ≠ .record len c pushed) : s.uncounted ch = 0 := by
    unfold uncounted
    split
    · rename_i len c pushed hrecord
      exact absurd hrecord (hpc len c pushed)
    · rfl
  rcases step_cases hst with
    hpc | hpc | ⟨hpc, hch⟩ | hpc | hpc | hpc | ⟨hpc, hch⟩ | _ | _ | _ | _ | _ | _ | _ | _ | _ | _ | _
  case batch => exact .inl (hquiet rfl rfl (hzero (by simp [hpc])) rfl)
  case push len c =>
    by_cases hc : ch = c
    · subst hc
      refine .inr (.inl ⟨hzero (by simp [hpc]), rfl, ?_⟩)
      show (Function.update s.lost ch _ ch).length = _ + if ch.val = ch.val then len - _ else 0
      rw [Function.update_self, if_pos rfl, List.length_append, List.length_drop, length_batchOf]
    · refine .inl ⟨Function.update_of_ne hc _ _, rfl, ?_⟩
      rw [hzero (by simp [hpc])]
      exact if_neg fun hval => hc (Fin.ext hval)
  case pushed => exact .inl (hquiet rfl rfl (hzero (by simp [hpc])) rfl)
  case record len c pushed dropped =>
    refine .inr (.inr ⟨rfl, rfl, ?_⟩)
    have huncounted : s.uncounted ch = if ch.val = c then len - pushed else 0 := by rw [uncounted, hpc]
    have hdropped : dropped ch =
        if ch.val = c ∧ pushed < len then s.dropped ch + UInt64.ofNat (len - pushed) else s.dropped ch := by
      simp only [step, stepSource, hpc, Option.some.injEq] at hst
      exact (congrArg (fun u : SgSender n => u.dropped ch) hst).symm
    show dropped ch = _
    rw [hdropped, huncounted]
    by_cases hc : ch.val = c
    · by_cases hlt : pushed < len
      · rw [if_pos ⟨hc, hlt⟩, if_pos hc]
      · rw [if_neg fun h => hlt h.2, if_pos hc, Nat.sub_eq_zero_of_le (not_lt.mp hlt)]
        exact (UInt64.add_zero _).symm
    · rw [if_neg fun h => hc h.1, if_neg hc]
      exact (UInt64.add_zero _).symm
  case switchSource => exact .inl (hquiet rfl rfl (hzero (by simp [hpc])) rfl)
  case flush => exact .inl (hquiet rfl rfl (hzero (by simp [hpc])) rfl)
  case flushed => exact .inl (hquiet rfl rfl (hzero (by simp [hpc])) rfl)
  all_goals exact .inl (hsame rfl rfl rfl)

theorem counterInv_step {l : Label} {ch : Fin n} (h : CounterInv s ch) (hst : s.step signal l = some s') :
    CounterInv s' ch ∧ s.counted ch ≤ s'.counted ch := by
  have hle := h.le
  have hcounted : s.counted ch = (s.lost ch).length - s.uncounted ch := rfl
  have hcounted' : s'.counted ch = (s'.lost ch).length - s'.uncounted ch := rfl
  rcases counter_cases hst ch with
    ⟨hlost, hdropped, huncounted⟩ | ⟨hzero, hdropped, hlength⟩ | ⟨hlost, hzero, hdropped⟩
  · have hsame : s'.counted ch = s.counted ch := by rw [counted, counted, hlost, huncounted]
    exact ⟨⟨by rwa [hlost, huncounted], by rw [hdropped, hsame, h.dropped]⟩, hsame.ge⟩
  · have hsame : s'.counted ch = s.counted ch := by omega
    exact ⟨⟨by omega, by rw [hdropped, hsame, h.dropped]⟩, hsame.ge⟩
  · rw [hlost, hzero] at hcounted'
    have hmore : s'.counted ch = s.counted ch + s.uncounted ch := by omega
    exact ⟨⟨by omega, by rw [hdropped, hmore, h.dropped, UInt64.ofNat_add]⟩, by omega⟩

theorem reach_counterInv (hs : (threads n signal).Reachable s) (ch : Fin n) : CounterInv s ch := by
  refine hs.invariant (I := fun s => CounterInv s ch) (fun t h0 => ?_) fun _ _ _ h _ hst => (counterInv_step h hst).1
  obtain ⟨slots, pos, blockSize, -, rfl⟩ := h0
  exact ⟨le_rfl, rfl⟩

end Counters

/-! ## The reports -/

section Reports

/-- What the sender has added up before ring `ch`, where it has read `w`. -/
def partialSum (w : Fin n → ℕ) (ch : ℕ) : ℕ := ∑ c with c.val < ch, w c

theorem partialSum_zero (w : Fin n → ℕ) : partialSum w 0 = 0 := by
  simp [partialSum]

theorem partialSum_all {w : Fin n → ℕ} {ch : ℕ} (h : n ≤ ch) : partialSum w ch = ∑ c, w c := by
  rw [partialSum, Finset.filter_true_of_mem fun c _ => c.isLt.trans_le h]

theorem partialSum_succ (w : Fin n → ℕ) (ch : Fin n) (x : ℕ) :
    partialSum (Function.update w ch x) (ch + 1) = partialSum w ch + x := by
  have hinsert : Finset.univ.filter (fun c : Fin n => c.val < ch.val + 1) =
      insert ch (Finset.univ.filter fun c : Fin n => c.val < ch.val) := by
    ext c
    simp only [Finset.mem_filter, Finset.mem_univ, true_and, Finset.mem_insert, Fin.ext_iff]
    omega
  have hnot : ch ∉ Finset.univ.filter fun c : Fin n => c.val < ch.val := by simp
  rw [partialSum, hinsert, Finset.sum_insert hnot, Function.update_self, partialSum, Nat.add_comm]
  congr 1
  apply Finset.sum_congr rfl
  intro c hc
  have hne : c ≠ ch := by
    rintro rfl
    exact hnot hc
  exact Function.update_of_ne hne _ _

/-- What the sender does in one step with the drops that it reports. -/
theorem report_cases {l : Label} (hst : s.step signal l = some s') :
    (s'.sent = s.sent ∧ ∀ b ch d, s'.sender = .drops b ch d → s.sender = .drops b ch d ∨ ch = 0 ∧ d = 0) ∨
    (∃ (b : UInt32) (ch : Fin n) (d : UInt64), s.sender = .drops b ch d ∧ s'.sent = s.sent ∧
      s'.sender = .drops b (ch + 1) (d + s.dropped ch)) ∨
    ∃ b ch d f, s.sender = .drops b ch d ∧ n ≤ ch ∧ s'.sent = s.sent ++ [f] ∧ f.header.sgDropsTotal = d ∧
      ∀ b ch d, s'.sender ≠ .drops b ch d := by
  have hsame {u : SgSender n} (hsent : u.sent = s.sent) (hpc : u.sender = s.sender) : u.sent = s.sent ∧
      ∀ b ch d, u.sender = .drops b ch d → s.sender = .drops b ch d ∨ ch = 0 ∧ d = 0 :=
    ⟨hsent, fun b ch d h => .inl (hpc ▸ h)⟩
  have hother {u : SgSender n} (hsent : u.sent = s.sent) (hpc : ∀ b ch d, u.sender ≠ .drops b ch d) :
      u.sent = s.sent ∧ ∀ b ch d, u.sender = .drops b ch d → s.sender = .drops b ch d ∨ ch = 0 ∧ d = 0 :=
    ⟨hsent, fun b ch d h => absurd h (hpc b ch d)⟩
  rcases step_cases hst with _ | _ | _ | _ | _ | _ | _ | _ | _ | hpc | hpc | hpc | hpc | hpc | hpc | hpc | hpc | hpc
  case halt => exact .inl (hother rfl (by simp))
  case look => exact .inl (hother rfl (by simp))
  case wait => exact .inl (hother rfl (by simp))
  case check => exact .inl (hother rfl (by simp))
  case ready => exact .inl (hother rfl (by simp))
  case pop => exact .inl (hother rfl (by simp))
  case popped =>
    refine .inl ⟨rfl, fun b ch d h => .inr ?_⟩
    cases h
    exact ⟨rfl, rfl⟩
  case drops ok nowNs rate b ch d d' =>
    have hsender := congrArg (Option.map fun u : SgSender n => u.sender) hst
    simp only [step, stepSender, hpc] at hsender
    by_cases hch : ch < n
    · rw [dif_pos hch] at hsender
      exact .inr (.inl ⟨b, ⟨ch, hch⟩, d, hpc, rfl, (Option.some.inj hsender).symm⟩)
    · rw [dif_neg hch] at hsender
      have hhead := Option.some.inj hsender
      cases ok <;> cases hhead
  case send ok nowNs rate b ch d =>
    have hsender := congrArg (Option.map fun u : SgSender n => u.sender) hst
    simp only [step, stepSender, hpc] at hsender
    by_cases hch : ch < n
    · rw [dif_pos hch] at hsender
      have hhead := Option.some.inj hsender
      cases ok <;> cases hhead
    · refine .inr (.inr ⟨b, ch, d, _, hpc, not_lt.mp hch, rfl, rfl, ?_⟩)
      cases ok <;> simp
  all_goals exact .inl (hsame rfl rfl)

/-- The books on the reports since a point at which `base` was counted and `before` had been sent: `v` is what was read for
the last report, or at that point. -/
structure ReportInv (base : Fin n → ℕ) (before : List (SentFrame n)) (totals : List ℕ) (v : Fin n → ℕ) (s : SgSender n) :
    Prop where
  sent : ∃ frames, s.sent = before ++ frames ∧
    frames.map (fun f => f.header.sgDropsTotal) = totals.map UInt64.ofNat
  low : base ≤ v
  high : v ≤ s.counted
  sorted : totals.Pairwise (· ≤ ·)
  between : ∀ d ∈ totals, ∑ c, base c ≤ d ∧ d ≤ ∑ c, v c
  adding : ∀ b ch d, s.sender = .drops b ch d →
    ch ≤ n ∧ ∃ w : Fin n → ℕ, v ≤ w ∧ w ≤ s.counted ∧ d = UInt64.ofNat (partialSum w ch)

/-- **One step keeps the books on the reports.** -/
theorem reportInv_step {base : Fin n → ℕ} {before : List (SentFrame n)} {totals : List ℕ} {v : Fin n → ℕ} {l : Label}
    (hcounters : ∀ ch, CounterInv s ch) (h : ReportInv base before totals v s) (hst : s.step signal l = some s') :
    ∃ totals v, ReportInv base before totals v s' := by
  have hmono : s.counted ≤ s'.counted := fun ch => (counterInv_step (hcounters ch) hst).2
  obtain ⟨frames, hsent, hframes⟩ := h.sent
  rcases report_cases hst with ⟨hsent', hpc⟩ | ⟨b, ch, d, hpc, hsent', hpc'⟩ | ⟨b, ch, d, f, hpc, hch, hsent', hf, hpc'⟩
  · refine ⟨totals, v, ⟨frames, by rw [hsent', hsent], hframes⟩, h.low, h.high.trans hmono, h.sorted, h.between, ?_⟩
    intro b ch d hs'
    rcases hpc b ch d hs' with hs | ⟨rfl, rfl⟩
    · obtain ⟨hch, w, hv, hw, hd⟩ := h.adding b ch d hs
      exact ⟨hch, w, hv, hw.trans hmono, hd⟩
    · exact ⟨Nat.zero_le _, v, le_rfl, h.high.trans hmono, by rw [partialSum_zero]; rfl⟩
  · obtain ⟨-, w, hv, hw, hd⟩ := h.adding b ch d hpc
    refine ⟨totals, v, ⟨frames, by rw [hsent', hsent], hframes⟩, h.low, h.high.trans hmono, h.sorted, h.between, ?_⟩
    intro b' ch' d' hs'
    rw [hpc'] at hs'
    cases hs'
    refine ⟨ch.isLt, Function.update w ch (s.counted ch), ?_, ?_, ?_⟩
    · intro c
      by_cases hc : c = ch
      · subst hc
        rw [Function.update_self]
        exact h.high c
      · rw [Function.update_of_ne hc]
        exact hv c
    · intro c
      by_cases hc : c = ch
      · subst hc
        rw [Function.update_self]
        exact hmono c
      · rw [Function.update_of_ne hc]
        exact (hw c).trans (hmono c)
    · rw [partialSum_succ, UInt64.ofNat_add, ← hd, (hcounters ch).dropped]
  · obtain ⟨-, w, hv, hw, hd⟩ := h.adding b ch d hpc
    rw [partialSum_all hch] at hd
    have hvw : ∑ c, v c ≤ ∑ c, w c := Finset.sum_le_sum fun c _ => hv c
    refine ⟨totals ++ [∑ c, w c], w, ⟨frames ++ [f], ?_, ?_⟩, h.low.trans hv, hw.trans hmono, ?_, ?_, ?_⟩
    · rw [hsent', hsent, List.append_assoc]
    · rw [List.map_append, List.map_append, hframes, List.map_singleton, List.map_singleton, hf, hd]
    · rw [List.pairwise_append]
      refine ⟨h.sorted, List.pairwise_singleton _ _, ?_⟩
      intro x hx y hy
      rw [List.mem_singleton.mp hy]
      exact (h.between x hx).2.trans hvw
    · intro x hx
      rcases List.mem_append.mp hx with hx | hx
      · exact ⟨(h.between x hx).1, (h.between x hx).2.trans hvw⟩
      · rw [List.mem_singleton.mp hx]
        exact ⟨Finset.sum_le_sum fun c _ => (h.low.trans hv) c, le_rfl⟩
    · intro b' ch' d' hs'
      exact absurd hs' (hpc' b' ch' d')

/-- **What the headers report.**  From any point of any run at which the sender is at the head of its loop: the number in
each header sent from there on is at least the drops counted at that point and at most those counted in the end, over all
channels, and the numbers never go down; a counter differs from the samples lost by the batch that is being counted. -/
theorem drops_reported (ht : (threads n signal).Reachable t) (hpc : t.sender = .head) {ls : List Label}
    (hrun : (threads n signal).exec t ls = some s) :
    (∃ (frames : List (SentFrame n)) (totals : List ℕ), s.sent = t.sent ++ frames ∧
      frames.map (fun f => f.header.sgDropsTotal) = totals.map UInt64.ofNat ∧ totals.Pairwise (· ≤ ·) ∧
      ∀ d ∈ totals, ∑ c, t.counted c ≤ d ∧ d ≤ ∑ c, s.counted c) ∧
    ∀ ch, s.dropped ch = UInt64.ofNat (s.counted ch) ∧ s.counted ch + s.uncounted ch = (s.lost ch).length := by
  have hinv : (∀ ch, CounterInv s ch) ∧ ∃ totals v, ReportInv t.counted t.sent totals v s := by
    refine Lts.exec_invariant (I := fun s => (∀ ch, CounterInv s ch) ∧ ∃ totals v, ReportInv t.counted t.sent totals v s)
      ?_ ?_ hrun
    · rintro s l s' ⟨hcounters, totals, v, h⟩ hst
      exact ⟨fun ch => (counterInv_step (hcounters ch) hst).1, reportInv_step hcounters h hst⟩
    · refine ⟨reach_counterInv ht, [], t.counted, ⟨[], (List.append_nil _).symm, rfl⟩, le_rfl, le_rfl, List.Pairwise.nil,
        nofun, ?_⟩
      intro b ch d hdrops
      rw [hpc] at hdrops
      cases hdrops
  obtain ⟨hcounters, totals, v, h⟩ := hinv
  obtain ⟨frames, hsent, hframes⟩ := h.sent
  have hv : ∑ c, v c ≤ ∑ c, s.counted c := Finset.sum_le_sum fun c _ => h.high c
  refine ⟨⟨frames, totals, hsent, hframes, h.sorted, fun d hd => ?_⟩, fun ch => ⟨(hcounters ch).dropped, ?_⟩⟩
  · exact ⟨(h.between d hd).1, (h.between d hd).2.trans hv⟩
  · exact Nat.sub_add_cancel (hcounters ch).le

/-- Two batches of three for rings of two, and a frame after each. -/
theorem drops_reported_two :
    ∃ s : SgSender 2, (∃ (frames : List (SentFrame 2)) (totals : List ℕ), s.sent = [] ++ frames ∧
        frames.map (fun f => f.header.sgDropsTotal) = totals.map UInt64.ofNat ∧ totals.Pairwise (· ≤ ·) ∧
        ∀ d ∈ totals, ∑ c, (started 3 (by decide) 2 : SgSender 2).counted c ≤ d ∧ d ≤ ∑ c, s.counted c) ∧
      (∀ ch, s.dropped ch = UInt64.ofNat (s.counted ch) ∧ s.counted ch + s.uncounted ch = (s.lost ch).length) ∧
      s.sent.map (fun f => f.header.sgDropsTotal) = [2, 4] := by
  have hrun : ((threads 2 fun _ _ i => Int16.ofNat i).exec (started 3 (by decide) 2)
      (round 3 5 15 ++ round 3 5 15)).map (fun s => s.sent.map fun f => f.header.sgDropsTotal) = some [2, 4] := by
    decide +kernel
  obtain ⟨s, hs, hsent⟩ := Option.map_eq_some_iff.mp hrun
  have hreach : (threads 2 fun _ _ i => Int16.ofNat i).Reachable (started 3 (by decide) 2) :=
    .init ⟨3, by decide, 2, by decide, rfl⟩
  obtain ⟨hreported, hcounters⟩ := drops_reported hreach rfl hs
  exact ⟨s, hreported, hcounters, hsent⟩

end Reports

/-! ## Conservation -/

section Conservation

/-- **Nothing disappears.**  Without a switch of the source, each sample offered to a ring is in a frame sent, popped for the
next one, in the ring, or lost; the samples lost are those that the counter has and those that it will have after the next
step of the source. -/
theorem conservation (hs : (threads n signal).Reach NoSwitch s) (ch : Fin n) :
    s.offered ch = total s.sent + (s.pending ch).length + (s.rings ch).size + (s.lost ch).length ∧
      UInt64.ofNat (s.offered ch) =
        s.totalSamplesSent + UInt64.ofNat ((s.pending ch).length + (s.rings ch).size) + s.dropped ch +
          UInt64.ofNat (s.uncounted ch) := by
  have hperm := (reach_indexInv hs ch).perm.length_eq
  have hfresh := (reach_freshInv (reach_full hs)).fresh
  have hcounter := reach_counterInv hs.reachable ch
  have hoffered : s.offered ch = total s.sent + (s.pending ch).length + (s.rings ch).size + (s.lost ch).length := by
    rw [List.length_range, List.length_append, List.length_map, List.length_map, (s.rings ch).split,
      reach_removed hs ch, taken, List.length_append, List.length_append, length_popped hfresh] at hperm
    exact hperm.symm
  refine ⟨hoffered, ?_⟩
  have hcounted : (s.lost ch).length = s.counted ch + s.uncounted ch := (Nat.sub_add_cancel hcounter.le).symm
  rw [hoffered, hcounted, (reach_countInv hs.reachable).total, hcounter.dropped, ← UInt64.ofNat_add, ← UInt64.ofNat_add,
    ← UInt64.ofNat_add]
  congr 1
  omega

/-- In the middle of the second batch. -/
theorem conservation_two :
    ∃ s : SgSender 2, (threads 2 fun _ _ i => Int16.ofNat i).Reach NoSwitch s ∧ s.source = .record 3 1 0 ∧
      ∀ ch, s.offered ch = total s.sent + (s.pending ch).length + (s.rings ch).size + (s.lost ch).length ∧
        UInt64.ofNat (s.offered ch) =
          s.totalSamplesSent + UInt64.ofNat ((s.pending ch).length + (s.rings ch).size) + s.dropped ch +
            UInt64.ofNat (s.uncounted ch) := by
  have hrun : (Lib.Lts.execIn NoSwitch (threads 2 fun _ _ i => Int16.ofNat i) (started 3 (by decide) 2)
      (round 3 5 4 ++ round 3 3 0)).map SgSender.source = some (.record 3 1 0) := by decide +kernel
  obtain ⟨s, hs, hsource⟩ := Option.map_eq_some_iff.mp hrun
  have hreach : (threads 2 fun _ _ i => Int16.ofNat i).Reach NoSwitch s :=
    .execIn (.init ⟨3, by decide, 2, by decide, rfl⟩) hs
  exact ⟨s, hreach, hsource, fun ch => conservation hreach ch⟩

end Conservation

end SgSender

end Grebe
