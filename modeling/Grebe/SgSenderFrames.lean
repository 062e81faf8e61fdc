import Mathlib.Tactic
import Grebe.SgSender

/-!
# Grebe.SgSenderFrames — what the frames of grebe-sg hold

The sender tests the sizes of all rings before it pops the first one, and ignores how much a pop yields.  Between the
two the source only adds samples, but `flush_rings` takes them away; the rest of the payload is then what an earlier
frame has left there.

* `frames_fresh`: in the runs whose pops find a whole block, each frame holds the samples popped for it, and no sample
  is sent twice.
* `short_forever`: after any other pop a frame that is not fresh is sent, unless the sender stays where it is.
* `full_of_noSwitch`: without a switch of the source every pop finds a whole block.
* `stale_sent`: a run in which the samples of one frame are sent again in the next.
-/

namespace Grebe

open Lib

namespace SgSender

variable {n : ℕ} {signal : ℕ → ℕ → ℕ → Int16} {s s' : SgSender n}

/-! ## The order of the samples -/

section Order

/-- What was popped of ring `ch` for the frame that is not sent yet. -/
def pending (s : SgSender n) (ch : Fin n) : List Sample :=
  match s.sender with
  | .pop _ j => if ch.val < j then s.current ch else []
  | .drops .. => s.current ch
  | _ => []

/-- The samples of ring `ch` in the frames sent, and then those of the next frame. -/
def taken (s : SgSender n) (ch : Fin n) : List Sample :=
  (s.sent.map fun f => f.popped ch).flatten ++ s.pending ch

theorem pending_pop {blockSize : UInt32} {j : ℕ} (hpc : s.sender = .pop blockSize j) (ch : Fin n) :
    s.pending ch = if ch.val < j then s.current ch else [] := by
  rw [pending, hpc]

theorem pending_drops {blockSize : UInt32} {j : ℕ} {sgDrops : UInt64} (hpc : s.sender = .drops blockSize j sgDrops)
    (ch : Fin n) : s.pending ch = s.current ch := by
  rw [pending, hpc]

/-- What one step removes from a ring is taken, unless the ring is flushed. -/
theorem taken_delta {l : Label} (hst : s.Step signal l s') (ch : Fin n) :
    ∃ xs, (s'.rings ch).removed = (s.rings ch).removed ++ xs ∧
      (s'.taken ch = s.taken ch ++ xs ∨ s'.taken ch = s.taken ch ∧ ∃ c, s.source = .flush c) := by
  have hsame {t : SgSender n} (hring : (t.rings ch).removed = (s.rings ch).removed) (htaken : t.taken ch = s.taken ch) :
      ∃ xs, (t.rings ch).removed = (s.rings ch).removed ++ xs ∧
        (t.taken ch = s.taken ch ++ xs ∨ t.taken ch = s.taken ch ∧ ∃ c, s.source = .flush c) :=
    ⟨[], by rw [hring, List.append_nil], .inl (by rw [htaken, List.append_nil])⟩
  rcases hst with _ | _ | _ | _ | _ | hpc | _ | _ | _ | hpc | hpc | hpc | hpc | ⟨hpc, _⟩ | hpc | ⟨hpc, hch⟩ | hpc | hpc
  case push len c _ =>
    refine hsame ?_ rfl
    by_cases hc : ch = c
    · subst hc
      rw [setRing_self, RingBuffer.removed_pushBulk]
    · rw [setRing_other _ _ hc]
  case flush c =>
    by_cases hc : ch = c
    · subst hc
      refine ⟨(s.rings ch).items.take (s.rings ch).capacity, ?_, .inr ⟨rfl, _, hpc⟩⟩
      rw [setRing_self, RingBuffer.removed_discardBulk]
    · refine hsame ?_ rfl
      rw [setRing_other _ _ hc]
  case halt | look | wait | check =>
    refine hsame rfl ?_
    rw [taken, taken, pending, pending, hpc]
  case ready =>
    refine hsame rfl ?_
    rw [taken, taken, pending_pop rfl, if_neg (Nat.not_lt_zero _), pending, hpc]
  case pop blockSize c =>
    by_cases hc : ch = c
    · subst hc
      refine ⟨((s.rings ch).popBulk blockSize.toNat).1, by rw [setRing_self, RingBuffer.removed_popBulk], .inl ?_⟩
      show (_ ++ if ch.val < ch.val + 1 then Function.update s.current ch _ ch else []) = _
      rw [if_pos (lt_add_one _), Function.update_self, taken, pending_pop hpc, if_neg (lt_irrefl _), List.append_nil]
      rfl
    · have hne : ch.val ≠ c.val := fun heq => hc (Fin.ext heq)
      have hlt : ch.val < c.val + 1 ↔ ch.val < c.val := by omega
      apply hsame (by rw [setRing_other _ _ hc])
      show (_ ++ if ch.val < c.val + 1 then Function.update s.current c _ ch else []) = _
      simp only [Function.update_of_ne hc, hlt, taken, pending_pop hpc]
      rfl
  case popped =>
    refine hsame rfl ?_
    rw [taken, taken, pending_drops rfl, pending_pop hpc, if_pos (ch.isLt.trans_le hch)]
  case drops =>
    refine hsame rfl ?_
    rw [taken, taken, pending_drops rfl, pending_drops hpc]
  case send ok _ _ _ _ _ =>
    have hpend (t : SgSender n) (ht : t.sender = if ok then .head else .stopped) : t.pending ch = [] := by
      rw [pending, ht]
      cases ok <;> rfl
    refine hsame rfl ?_
    rw [taken, taken, hpend _ rfl, pending_drops hpc]
    simp
  all_goals exact hsame rfl rfl

/-- **One step keeps the order**: what is taken of a ring is what was removed from it, less what was discarded. -/
theorem taken_step {l : Label} {ch : Fin n} (h : (s.taken ch).Sublist (s.rings ch).removed)
    (hst : s.Step signal l s') : (s'.taken ch).Sublist (s'.rings ch).removed := by
  obtain ⟨xs, hremoved, htaken | ⟨htaken, -⟩⟩ := taken_delta hst ch
  · rw [hremoved, htaken]
    exact h.append_right xs
  · rw [hremoved, htaken]
    exact h.trans (List.sublist_append_left ..)

theorem reach_taken (hs : (threads n signal).Reachable s) (ch : Fin n) :
    (s.taken ch).Sublist (s.rings ch).removed := by
  refine hs.invariant (I := fun s => (s.taken ch).Sublist (s.rings ch).removed) (fun t h0 => ?_)
    fun _ _ _ h _ hst => taken_step h (step_cases hst)
  obtain ⟨slots, pos, blockSize, -, rfl⟩ := h0
  exact List.nil_sublist _

end Order

/-! ## Whole blocks -/

section Fresh

/-- The block and the ring of the next pop. -/
def SenderPc.popping : SenderPc → Option (UInt32 × ℕ)
  | .pop blockSize ch => some (blockSize, ch)
  | _ => none

/-- A pop finds a whole block in its ring. -/
def Full (s : SgSender n) : Label → Prop
  | .sender .. => ∀ p ∈ SenderPc.popping s.sender, ∀ h : p.2 < n, p.1.toNat ≤ (s.rings ⟨p.2, h⟩).size
  | _ => True

instance : ∀ (s : SgSender n) (l : Label), Decidable (Full s l)
  | s, .sender .. => inferInstanceAs (Decidable (∀ p ∈ SenderPc.popping s.sender, ∀ h : p.2 < n,
      p.1.toNat ≤ (s.rings ⟨p.2, h⟩).size))
  | _, .batch _ => inferInstanceAs (Decidable True)
  | _, .source => inferInstanceAs (Decidable True)
  | _, .switchSource => inferInstanceAs (Decidable True)
  | _, .setBlockSize _ => inferInstanceAs (Decidable True)
  | _, .stop => inferInstanceAs (Decidable True)

/-- The frame holds, channel after channel, a block of the samples popped for it. -/
structure Fresh (f : SentFrame n) : Prop where
  length : f.payload.length = n * f.header.blockLengthSamples.toNat
  popped : ∀ ch, (f.popped ch).length = f.header.blockLengthSamples.toNat
  slice : ∀ ch : Fin n, (f.payload.drop (ch * f.header.blockLengthSamples.toNat)).take
    f.header.blockLengthSamples.toNat = f.popped ch

/-- The first `j` channels of the payload are packed with what was popped of their rings. -/
def Packed (s : SgSender n) (block j : ℕ) : Prop :=
  ∀ ch : Fin n, ch.val < j → (s.current ch).length = block ∧
    Circular.load s.payload (ch * block) block = s.current ch

/-- The sender has packed the channels that it is past. -/
def PackedOk (s : SgSender n) : Prop :=
  match s.sender with
  | .pop blockSize j => s.Packed blockSize.toNat j
  | .drops blockSize _ _ => s.Packed blockSize.toNat n
  | _ => True

/-- A whole block popped of the next ring is packed behind the others. -/
theorem Packed.pop {block : ℕ} {ch : Fin n} (h : s.Packed block ch) {t : SgSender n} {xs : List Sample}
    (hlen : xs.length = block) (hcurrent : t.current = Function.update s.current ch xs)
    (hpayload : t.payload = Circular.store s.payload (ch * block) xs) : t.Packed block (ch + 1) := by
  intro c hc
  rw [hcurrent, hpayload]
  by_cases hch : c = ch
  · subst hch
    rw [Function.update_self]
    refine ⟨hlen, ?_⟩
    have hload := Circular.load_store s.payload (c.val * block) xs
    rwa [hlen] at hload
  · have hlt : c.val < ch.val := by
      have : c.val ≠ ch.val := fun heq => hch (Fin.ext heq)
      omega
    rw [Function.update_of_ne hch]
    have hbefore : c.val * block + block ≤ ch.val * block := by
      rw [← Nat.succ_mul]
      exact Nat.mul_le_mul_right _ hlt
    rw [Circular.load_store_before _ _ hbefore]
    exact h c hlt

/-- A packed payload is a fresh frame. -/
theorem Packed.fresh {blockSize : UInt32} (h : s.Packed blockSize.toNat n) (sgDrops nowNs : UInt64) (rate : Double) :
    Fresh ⟨s.frameHeader blockSize sgDrops nowNs rate, Circular.load s.payload 0 (n * blockSize.toNat), s.current⟩ where
  length := Circular.length_load ..
  popped ch := (h ch ch.isLt).1
  slice ch := by
    have hfit : ch.val * blockSize.toNat + blockSize.toNat ≤ n * blockSize.toNat := by
      rw [← Nat.succ_mul]
      exact Nat.mul_le_mul_right _ ch.isLt
    show ((Circular.load s.payload 0 _).drop (ch * blockSize.toNat)).take blockSize.toNat = s.current ch
    rw [Circular.take_drop_load _ hfit, Nat.zero_add]
    exact (h ch ch.isLt).2

/-- What holds of the payload and of the frames sent, as long as every pop finds a whole block. -/
structure FreshInv (s : SgSender n) : Prop where
  packed : PackedOk s
  fresh : ∀ f ∈ s.sent, Fresh f

/-- **One step with a whole block keeps the frames fresh.** -/
theorem freshInv_step {l : Label} (h : FreshInv s) (hfull : Full s l) (hst : s.Step signal l s') : FreshInv s' := by
  have hpacked := h.packed
  rcases hst with _ | _ | _ | _ | _ | _ | _ | _ | _ | _ | _ | _ | _ | _ | hpc | ⟨hpc, hch⟩ | hpc | hpc
  case halt | look | wait | check => exact ⟨trivial, h.fresh⟩
  case ready => exact ⟨fun _ hlt => absurd hlt (Nat.not_lt_zero _), h.fresh⟩
  case pop blockSize ch =>
    rw [PackedOk, hpc] at hpacked
    have hsize : blockSize.toNat ≤ (s.rings ch).size := hfull (blockSize, ch) (by rw [hpc]; rfl) ch.isLt
    have hlen : ((s.rings ch).popBulk blockSize.toNat).1.length = blockSize.toNat := by
      rw [RingBuffer.length_popBulk, min_eq_left hsize]
    exact ⟨hpacked.pop hlen rfl rfl, h.fresh⟩
  case popped =>
    rw [PackedOk, hpc] at hpacked
    exact ⟨fun ch hlt => hpacked ch (hlt.trans_le hch), h.fresh⟩
  case drops =>
    rw [PackedOk, hpc] at hpacked
    exact ⟨hpacked, h.fresh⟩
  case send ok nowNs rate blockSize _ sgDrops =>
    rw [PackedOk, hpc] at hpacked
    refine ⟨by cases ok <;> trivial, ?_⟩
    intro f hf
    rcases List.mem_append.mp hf with hf | hf
    · exact h.fresh f hf
    · rw [List.mem_singleton.mp hf]
      exact hpacked.fresh sgDrops nowNs rate
  all_goals exact ⟨hpacked, h.fresh⟩

theorem reach_freshInv (hs : (threads n signal).Reach Full s) : FreshInv s := by
  refine hs.invariant (I := FreshInv) (fun t h0 => ?_) fun _ _ _ h hfull hst => freshInv_step h hfull (step_cases hst)
  obtain ⟨slots, pos, blockSize, -, rfl⟩ := h0
  exact ⟨trivial, fun _ hf => by cases hf⟩

/-- **Each frame holds a block of each channel, popped for this frame, and no sample is sent twice**, in the runs whose
pops find a whole block. -/
theorem frames_fresh (hs : (threads n signal).Reach Full s) :
    (∀ f ∈ s.sent, Fresh f) ∧
      ∀ ch, ((s.sent.map fun f => f.popped ch).flatten).Sublist (s.rings ch).removed :=
  ⟨(reach_freshInv hs).fresh, fun ch => (List.sublist_append_left ..).trans (reach_taken hs.reachable ch)⟩

/-- One block of two channels. -/
theorem frames_fresh_one :
    ∃ s : SgSender 2, (threads 2 fun _ _ i => Int16.ofNat i).Reach Full s ∧ s.sent.length = 1 ∧
      ∀ f ∈ s.sent, Fresh f := by
  have hrun : ((Lib.Lts.execIn Full (threads 2 fun _ _ i => Int16.ofNat i) (started 5 (by decide) 2)
      ([Label.batch 3] ++ List.replicate 5 Label.source ++ List.replicate 10 (Label.sender true 0 0))).map
      fun s => s.sent.length) = some 1 := by decide +kernel
  obtain ⟨s, hs, hlen⟩ := Option.map_eq_some_iff.mp hrun
  have hreach : (threads 2 fun _ _ i => Int16.ofNat i).Reach Full s :=
    .execIn (.init ⟨5, by decide, 2, by decide, rfl⟩) hs
  exact ⟨s, hreach, hlen, (frames_fresh hreach).1⟩

end Fresh

/-! ## Short pops -/

section Short

/-- What one step sends: nothing, or a frame with the count of the samples sent before it. -/
theorem sent_cases {l : Label} (hst : s.Step signal l s') :
    (s'.sent = s.sent ∧ s'.totalSamplesSent = s.totalSamplesSent) ∨
    ∃ f, s'.sent = s.sent ++ [f] ∧ f.header.firstSampleIndex = s.totalSamplesSent ∧
      s'.totalSamplesSent = s.totalSamplesSent + f.header.blockLengthSamples.toUInt64 := by
  rcases hst with _ | _ | _ | _ | _ | _ | _ | _ | _ | _ | _ | _ | _ | _ | _ | _ | _ | _
  case send => exact .inr ⟨_, rfl, rfl, rfl⟩
  all_goals exact .inl ⟨rfl, rfl⟩

/-- A ring has yielded too little for the frame that is not sent yet. -/
def Short (s : SgSender n) : Prop :=
  match s.sender with
  | .pop blockSize j => ∃ ch : Fin n, ch.val < j ∧ (s.current ch).length < blockSize.toNat
  | .drops blockSize _ _ => ∃ ch, (s.current ch).length < blockSize.toNat
  | _ => False

/-- **A pop that does not find a whole block yields too little**, in every state. -/
theorem short_pop {l : Label} (hst : s.step signal l = some s') (hfull : ¬ Full s l) : Short s' := by
  rcases l with _ | _ | _ | _ | _ | ⟨ok, nowNs, rate⟩
  case sender =>
    obtain ⟨⟨blockSize, ch⟩, hpc, hch, hsize⟩ : ∃ p ∈ SenderPc.popping s.sender, ∃ h : p.2 < n,
        (s.rings ⟨p.2, h⟩).size < p.1.toNat := by
      simpa [Full] using hfull
    have hpop : s.sender = .pop blockSize ch := by
      cases hsender : s.sender with
      | pop b c => simpa [SenderPc.popping, hsender] using hpc
      | head | check | drops | stopped => simp [SenderPc.popping, hsender] at hpc
    simp only [step, stepSender, hpop, dif_pos hch, Option.some.injEq] at hst
    rw [← hst]
    refine ⟨⟨ch, hch⟩, Nat.lt_succ_self _, ?_⟩
    show (Function.update s.current ⟨ch, hch⟩ _ ⟨ch, hch⟩).length < _
    rw [Function.update_self, RingBuffer.length_popBulk]
    exact (min_le_right ..).trans_lt hsize
  all_goals exact absurd trivial hfull

/-- **A frame that a pop has left short is not fresh when it is sent**, whatever happens until then. -/
theorem short_pop_sent {l : Label} (h : Short s) (hst : s.Step signal l s') :
    Short s' ∨ ∃ f, s'.sent = s.sent ++ [f] ∧ ¬ Fresh f := by
  rcases hst with _ | _ | _ | _ | _ | _ | _ | _ | _ | hpc | hpc | hpc | hpc | hpc | hpc | hpc | hpc | hpc
  case halt | look | wait | check | ready =>
    rw [Short, hpc] at h
    exact h.elim
  case pop blockSize c =>
    rw [Short, hpc] at h
    obtain ⟨ch, hlt, hshort⟩ := h
    have hne : ch ≠ c := fun heq => absurd (heq ▸ hlt) (lt_irrefl _)
    refine .inl ⟨ch, Nat.lt_succ_of_lt hlt, ?_⟩
    show (Function.update s.current c _ ch).length < _
    rwa [Function.update_of_ne hne]
  case popped =>
    rw [Short, hpc] at h
    obtain ⟨ch, -, hshort⟩ := h
    exact .inl ⟨ch, hshort⟩
  case drops =>
    rw [Short, hpc] at h
    exact .inl h
  case send =>
    rw [Short, hpc] at h
    obtain ⟨ch, hshort⟩ := h
    exact .inr ⟨_, rfl, fun hfresh => absurd (hfresh.popped ch) hshort.ne⟩
  all_goals exact .inl h

/-- **After a pop that does not find a whole block a frame that is not fresh is sent**, or still to be sent. -/
theorem short_forever {l : Label} (hfull : ¬ Full s l) (hst : s.step signal l = some s') {t : SgSender n}
    (ht : (threads n signal).CanReach (fun _ => True) s' t) : Short t ∨ ∃ f ∈ t.sent, ¬ Fresh f := by
  have htrap : (threads n signal).Trap (fun _ => True) fun t => Short t ∨ ∃ f ∈ t.sent, ¬ Fresh f := by
    rintro u l u' hu - hst'
    rcases hu with hshort | ⟨f, hf, hstale⟩
    · rcases short_pop_sent hshort (step_cases hst') with hshort' | ⟨f, hsent, hstale⟩
      · exact .inl hshort'
      · exact .inr ⟨f, by rw [hsent]; exact List.mem_append_right _ (List.mem_singleton_self f), hstale⟩
    · refine .inr ⟨f, ?_, hstale⟩
      rcases sent_cases (step_cases hst') with ⟨hsent, -⟩ | ⟨g, hsent, -⟩
      · rwa [hsent]
      · rw [hsent]
        exact List.mem_append_left _ hf
  exact htrap.canReach (.inl (short_pop hst hfull)) ht

end Short

/-! ## Without a switch of the source -/

section NoSwitch

/-- The source is not switched. -/
def NoSwitch (_ : SgSender n) (l : Label) : Prop := l ≠ .switchSource

instance (s : SgSender n) : DecidablePred (NoSwitch s)
  | .switchSource => isFalse fun h => h rfl
  | .batch _ => isTrue nofun
  | .source => isTrue nofun
  | .setBlockSize _ => isTrue nofun
  | .stop => isTrue nofun
  | .sender .. => isTrue nofun

/-- The rings that the sender has checked, and those that it has still to pop, hold a block. -/
def SizesOk (s : SgSender n) : Prop :=
  match s.sender with
  | .check blockSize j => ∀ ch : Fin n, ch.val < j → blockSize.toNat ≤ (s.rings ch).size
  | .pop blockSize j => ∀ ch : Fin n, j ≤ ch.val → blockSize.toNat ≤ (s.rings ch).size
  | _ => True

/-- The rings are not flushed, and the sender finds what it has checked. -/
structure NoSwitchInv (s : SgSender n) : Prop where
  source : ∀ ch, s.source ≠ .flush ch
  sizes : SizesOk s

theorem SizesOk.mono {t : SgSender n} (h : SizesOk s) (hpc : t.sender = s.sender)
    (hsize : ∀ ch, (s.rings ch).size ≤ (t.rings ch).size) : SizesOk t := by
  unfold SizesOk at h ⊢
  rw [hpc]
  cases hsender : s.sender with
  | check blockSize j =>
    rw [hsender] at h
    exact fun ch hlt => (h ch hlt).trans (hsize ch)
  | pop blockSize j =>
    rw [hsender] at h
    exact fun ch hle => (h ch hle).trans (hsize ch)
  | head | drops | stopped => trivial

/-- **One step without a switch keeps the sizes.** -/
theorem noSwitchInv_step {l : Label} (h : NoSwitchInv s) (hno : NoSwitch s l) (hst : s.Step signal l s') :
    NoSwitchInv s' := by
  have hsizes := h.sizes
  rcases hst with _ | hpc | _ | _ | _ | hpc | hpc | _ | _ | _ | _ | _ | ⟨hpc, hsize⟩ | ⟨hpc, hch⟩ | hpc | _ | _ | _
  case batch | pushed | record => exact ⟨nofun, hsizes.mono rfl fun _ => le_rfl⟩
  case push len c =>
    refine ⟨nofun, hsizes.mono rfl ?_⟩
    intro ch
    by_cases hc : ch = c
    · subst hc
      rw [setRing_self, RingBuffer.size_pushBulk]
      exact Nat.le_add_right ..
    · rw [setRing_other _ _ hc]
  case switchSource => exact absurd rfl hno
  case flush | flushed => exact absurd hpc (h.source _)
  case look => exact ⟨h.source, fun _ hlt => absurd hlt (Nat.not_lt_zero _)⟩
  case check blockSize c =>
    rw [SizesOk, hpc] at hsizes
    refine ⟨h.source, ?_⟩
    intro ch hlt
    by_cases hc : ch = c
    · rw [hc]
      exact hsize
    · have hne : ch.val ≠ c.val := fun heq => hc (Fin.ext heq)
      exact hsizes ch (by omega)
  case ready =>
    rw [SizesOk, hpc] at hsizes
    exact ⟨h.source, fun ch _ => hsizes ch (ch.isLt.trans_le hch)⟩
  case pop blockSize c =>
    rw [SizesOk, hpc] at hsizes
    refine ⟨h.source, ?_⟩
    intro ch hle
    have hc : ch ≠ c := fun heq => by
      rw [heq] at hle
      omega
    rw [setRing_other _ _ hc]
    exact hsizes ch (by omega)
  case send ok _ _ _ _ _ _ => exact ⟨h.source, by cases ok <;> trivial⟩
  case halt | wait | popped | drops => exact ⟨h.source, trivial⟩
  all_goals exact ⟨h.source, hsizes.mono rfl fun _ => le_rfl⟩

theorem reach_noSwitchInv (hs : (threads n signal).Reach NoSwitch s) : NoSwitchInv s := by
  refine hs.invariant (I := NoSwitchInv) (fun t h0 => ?_)
    fun _ _ _ h hno hst => noSwitchInv_step h hno (step_cases hst)
  obtain ⟨slots, pos, blockSize, -, rfl⟩ := h0
  exact ⟨nofun, trivial⟩

/-- **Without a switch of the source every pop finds a whole block.** -/
theorem full_of_noSwitch (hs : (threads n signal).Reach NoSwitch s) (l : Label) : Full s l := by
  rcases l with _ | _ | _ | _ | _ | _
  case sender =>
    rintro ⟨blockSize, ch⟩ hpc hch
    have hsizes := (reach_noSwitchInv hs).sizes
    cases hsender : s.sender with
    | pop b c =>
      obtain ⟨rfl, rfl⟩ : b = blockSize ∧ c = ch := by simpa [SenderPc.popping, hsender] using hpc
      rw [SizesOk, hsender] at hsizes
      exact hsizes ⟨c, hch⟩ le_rfl
    | head | check | drops | stopped => simp [SenderPc.popping, hsender] at hpc
  all_goals trivial

theorem reach_full (hs : (threads n signal).Reach NoSwitch s) : (threads n signal).Reach Full s := by
  induction hs with
  | init h0 => exact .init h0
  | step hr _ hst ih => exact .step ih (full_of_noSwitch hr _) hst

end NoSwitch

/-- **The samples of one frame are sent again in the next**, as the ring was flushed between the check and the pop. -/
theorem stale_sent :
    ∃ s : SgSender 1, (threads 1 fun _ _ i => Int16.ofNat (i + 7)).Reachable s ∧
      s.sent.map (fun f => (f.payload.map Sample.value, (f.popped 0).map Sample.value)) =
        [([7, 8], [7, 8]), ([7, 8], [])] := by
  have hrun : ((threads 1 fun _ _ i => Int16.ofNat (i + 7)).exec (started 5 (by decide) 2)
      ([Label.batch 4] ++ List.replicate 3 Label.source ++ List.replicate 10 (Label.sender true 0 0) ++
        [Label.switchSource] ++ List.replicate 2 Label.source ++ List.replicate 4 (Label.sender true 0 0))).map
        (fun s => s.sent.map fun f =>
        (f.payload.map Sample.value, (f.popped 0).map Sample.value)) =
      some [([7, 8], [7, 8]), ([7, 8], [])] := by decide +kernel
  obtain ⟨s, hs, hsent⟩ := Option.map_eq_some_iff.mp hrun
  exact ⟨s, Lib.Lts.reachable_of_exec _ ⟨5, by decide, 2, by decide, rfl⟩ hs, hsent⟩

end SgSender

end Grebe
