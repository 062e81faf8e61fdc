import Grebe.RingBufferView

/-!
# Grebe.RingBufferSpsc — the ring buffer refines a bounded FIFO

The two indices are item counts modulo `capacity_`: `head_` counts the items pushed, `tail_` the items popped, and
item number `k` lives in slot `k % capacity_`.  `Inv` says so, relates the memory to the history, and says for each
side in the middle of an operation which items it has copied so far.  A stale snapshot does no harm, because the
other side only makes room (`Writing.room`) or only adds items (`Reading.avail`).

`spsc_refines` is the simulation by `Lib.Fifo.system`; `spsc_fifo` collects what a user of the buffer relies on.
-/

namespace Grebe

open Lib Lib.Circular

namespace RingBufferView

variable {α : Type}

/-! ## The index formulas, on item counts -/

section Formulas

variable {c H T : ℕ}

theorem freeCount_eq (hc : 0 < c) (hTH : T ≤ H) (hroom : H ≤ T + (c - 1)) :
    freeCount c (H % c) (T % c) = c - 1 - (H - T) := by
  have ht : T % c < c := Nat.mod_lt _ hc
  have hH := add_mod_cases (a := T) (d := H - T) (c := c) (by omega)
  rw [show T + (H - T) = H by omega] at hH
  unfold freeCount
  split_ifs at hH ⊢ <;> omega

theorem availCount_eq (hc : 0 < c) (hTH : T ≤ H) (hroom : H ≤ T + (c - 1)) :
    availCount c (H % c) (T % c) = H - T := by
  have ht : T % c < c := Nat.mod_lt _ hc
  have hH := add_mod_cases (a := T) (d := H - T) (c := c) (by omega)
  rw [show T + (H - T) = H by omega] at hH
  unfold availCount
  split_ifs at hH ⊢ <;> omega

/-- The test of `push`: the next index meets the tail exactly when every usable slot is taken. -/
theorem next_eq_tail_iff (hc : 0 < c) (hTH : T ≤ H) (hroom : H ≤ T + (c - 1)) :
    (H % c + 1) % c = T % c ↔ H - T = c - 1 := by
  rw [Nat.mod_add_mod]
  constructor
  · intro h
    by_contra hne
    exact mod_ne_of_window (i := T) (j := H + 1) (c := c) (by omega) (by omega) h.symm
  · intro h
    rw [show H + 1 = T + c by omega, Nat.add_mod_right]

/-- The test of `pop`: the indices meet exactly when nothing is stored. -/
theorem tail_eq_head_iff (hTH : T ≤ H) (hroom : H ≤ T + (c - 1)) (hc : 0 < c) : T % c = H % c ↔ H - T = 0 := by
  constructor
  · intro h
    by_contra hne
    exact mod_ne_of_window (i := T) (j := H) (c := c) (by omega) (by omega) h
  · intro h
    rw [show H = T by omega]

theorem blocks_bulkChunks (hc : 0 < c) {n : ℕ} (hn : n ≤ c) : Blocks c H (bulkChunks c (H % c) n) :=
  blocks_wrap hc hn

theorem total_bulkChunks (i n : ℕ) : total (bulkChunks c i n) = n := total_wrap c i n

/-- The plan `p` moves the `n > 0` items from number `a` on, copying `m` of them. -/
structure PlanFor (c a n m : ℕ) (p : Plan) : Prop where
  blocks : Blocks c a p.chunks
  next : p.next = (a + n) % c
  count : p.count = n
  copies : total p.chunks = m
  pos : 0 < n

theorem push_plan_spec (op : PushOp α) (hc : 0 < c) (hTH : T ≤ H) (hroom : H ≤ T + (c - 1))
    (hreq : 0 < op.src.length) :
    (min op.src.length (c - 1 - (H - T)) = 0 ∧ op.plan c (H % c) (T % c) = none) ∨
    ∃ p, op.plan c (H % c) (T % c) = some p ∧
      PlanFor c H (min op.src.length (c - 1 - (H - T))) (min op.src.length (c - 1 - (H - T))) p := by
  cases op with
  | push item =>
    simp only [PushOp.plan, pushPlan, PushOp.src, List.length_singleton, next_eq_tail_iff hc hTH hroom]
    by_cases hfull : H - T = c - 1
    · exact Or.inl ⟨by omega, by rw [if_pos hfull]⟩
    · have hmin : min 1 (c - 1 - (H - T)) = 1 := by omega
      have hh : H % c < c := Nat.mod_lt _ hc
      refine Or.inr ⟨_, by rw [if_neg hfull], ?_⟩
      rw [hmin]
      exact ⟨⟨rfl, by omega, trivial⟩, Nat.mod_add_mod _ _ _, rfl, rfl, Nat.one_pos⟩
  | pushBulk src =>
    simp only [PushOp.plan, pushBulkPlan, PushOp.src, freeCount_eq hc hTH hroom]
    by_cases h0 : min src.length (c - 1 - (H - T)) = 0
    · exact Or.inl ⟨h0, by rw [if_pos h0]⟩
    · refine Or.inr ⟨_, by rw [if_neg h0], ?_⟩
      exact ⟨blocks_bulkChunks hc (by omega), Nat.mod_add_mod _ _ _, rfl, total_bulkChunks _ _, by omega⟩

theorem pop_plan_spec (op : PopOp) (hc : 0 < c) (hTH : T ≤ H) (hroom : H ≤ T + (c - 1)) (hreq : 0 < op.requested) :
    (min op.requested (H - T) = 0 ∧ op.plan c (T % c) (H % c) = none) ∨
    ∃ p, op.plan c (T % c) (H % c) = some p ∧
      PlanFor c T (min op.requested (H - T)) (if op.isDiscard then 0 else min op.requested (H - T)) p := by
  cases op with
  | pop =>
    simp only [PopOp.plan, popPlan, PopOp.requested, PopOp.isDiscard, tail_eq_head_iff hTH hroom hc]
    by_cases hempty : H - T = 0
    · exact Or.inl ⟨by omega, by rw [if_pos hempty]⟩
    · have hmin : min 1 (H - T) = 1 := by omega
      have ht : T % c < c := Nat.mod_lt _ hc
      refine Or.inr ⟨_, by rw [if_neg hempty], ?_⟩
      rw [hmin]
      exact ⟨⟨rfl, by omega, trivial⟩, Nat.mod_add_mod _ _ _, rfl, rfl, Nat.one_pos⟩
  | popBulk maxCount =>
    simp only [PopOp.plan, popBulkPlan, PopOp.requested, PopOp.isDiscard, availCount_eq hc hTH hroom]
    by_cases h0 : min maxCount (H - T) = 0
    · exact Or.inl ⟨h0, by rw [if_pos h0]⟩
    · refine Or.inr ⟨_, by rw [if_neg h0], ?_⟩
      exact ⟨blocks_bulkChunks hc (by omega), Nat.mod_add_mod _ _ _, rfl, total_bulkChunks _ _, by omega⟩
  | discardBulk maxCount =>
    simp only [PopOp.plan, discardBulkPlan, PopOp.requested, PopOp.isDiscard, availCount_eq hc hTH hroom]
    by_cases h0 : min maxCount (H - T) = 0
    · exact Or.inl ⟨h0, by rw [if_pos h0]⟩
    · refine Or.inr ⟨_, by rw [if_neg h0], ?_⟩
      exact ⟨trivial, Nat.mod_add_mod _ _ _, rfl, rfl, by omega⟩

end Formulas

/-! ## The invariant -/

section Invariant

/-- The producer is writing the `plan.count` items after the stored ones and has written `copied` of them. -/
structure Writing (c : ℕ) (s : Spsc α) (src : List α) (plan : Plan) (pending : List (ℕ × ℕ)) (copied : ℕ)
    (call : Transfer) : Prop where
  planFor : PlanFor c s.pushed.length plan.count plan.count plan
  fits : plan.count ≤ src.length
  room : s.pushed.length + plan.count ≤ s.popped.length + (c - 1)
  pend : Blocks c (s.pushed.length + copied) pending
  left : copied + total pending = plan.count
  written : ∀ j < copied, src[j]? = some (s.data ((s.pushed.length + j) % c))
  call : call.returned = min call.requested call.visible

/-- The consumer is taking the first `plan.count` stored items and has read `out`. -/
structure Reading (c : ℕ) (s : Spsc α) (discard : Bool) (plan : Plan) (pending : List (ℕ × ℕ)) (out : List α)
    (call : Transfer) : Prop where
  planFor : PlanFor c s.popped.length plan.count (if discard then 0 else plan.count) plan
  avail : s.popped.length + plan.count ≤ s.pushed.length
  pend : Blocks c (s.popped.length + out.length) pending
  left : out.length + total pending = if discard then 0 else plan.count
  read : ∀ j < out.length, out[j]? = s.pushed[s.popped.length + j]?
  call : call.returned = min call.requested call.visible

def ProducerOk (c : ℕ) (s : Spsc α) : Prop :=
  match s.producer with
  | .idle => True
  | .loadedHead op head => head = s.head ∧ 0 < op.src.length
  | .writing src plan pending copied call => Writing c s src plan pending copied call

def ConsumerOk (c : ℕ) (s : Spsc α) : Prop :=
  match s.consumer with
  | .idle => True
  | .loadedTail op tail => tail = s.tail ∧ 0 < op.requested
  | .reading discard plan pending out call => Reading c s discard plan pending out call

/-- `s` represents the abstract store `q`, in the middle of whatever the two sides are doing. -/
structure Inv (c : ℕ) (s : Spsc α) (q : Fifo α (c - 1)) : Prop where
  accepted : q.accepted = s.pushed
  removed : q.removed = s.popped
  head : s.head = s.pushed.length % c
  tail : s.tail = s.popped.length % c
  content : ∀ k, s.popped.length ≤ k → k < s.pushed.length → s.pushed[k]? = some (s.data (k % c))
  producer : ProducerOk c s
  consumer : ConsumerOk c s
  log : ∀ t ∈ s.log, t.returned = min t.requested t.visible

variable {c : ℕ} {s : Spsc α} {q : Fifo α (c - 1)}

theorem Inv.popped_le (h : Inv c s q) : s.popped.length ≤ s.pushed.length := by
  rw [← h.accepted, ← h.removed]
  exact q.removed_length_le

theorem Inv.pushed_le (h : Inv c s q) : s.pushed.length ≤ s.popped.length + (c - 1) := by
  have := q.stored_le
  rw [h.accepted, h.removed] at this
  omega

/-- What the abstract store holds is what was pushed and not yet popped. -/
theorem Inv.items (h : Inv c s q) : q.items = s.pushed.drop s.popped.length := by
  rw [← h.accepted, ← h.removed, q.split, List.drop_left]

theorem inv_init (blank : α) : Inv c ⟨fun _ => blank, 0, 0, .idle, .idle, [], [], []⟩ Fifo.empty where
  accepted := rfl
  removed := rfl
  head := (Nat.zero_mod c).symm
  tail := (Nat.zero_mod c).symm
  content k _ hk := absurd hk (Nat.not_lt_zero k)
  producer := trivial
  consumer := trivial
  log t ht := by simp at ht

/-! The other side's steps: the producer only needs that room never shrinks, the consumer that what it was promised
stays pushed. -/

theorem ProducerOk.frame {s' : Spsc α} (h : ProducerOk c s) (hp : s'.producer = s.producer) (hd : s'.data = s.data)
    (hh : s'.head = s.head) (hpu : s'.pushed = s.pushed) (hpo : s.popped.length ≤ s'.popped.length) :
    ProducerOk c s' := by
  unfold ProducerOk at h ⊢
  rw [hp]
  cases hprod : s.producer with
  | idle => trivial
  | loadedHead op head =>
    rw [hprod] at h
    rw [hh]
    exact h
  | writing src plan pending copied call =>
    rw [hprod] at h
    exact ⟨by rw [hpu]; exact h.planFor, h.fits, by have := h.room; rw [hpu]; omega, by rw [hpu]; exact h.pend,
      h.left, by rw [hpu, hd]; exact h.written, h.call⟩

theorem ConsumerOk.frame {s' : Spsc α} (h : ConsumerOk c s) (hc : s'.consumer = s.consumer) (ht : s'.tail = s.tail)
    (hpu : s.pushed <+: s'.pushed) (hpo : s'.popped = s.popped) : ConsumerOk c s' := by
  unfold ConsumerOk at h ⊢
  rw [hc]
  cases hcons : s.consumer with
  | idle => trivial
  | loadedTail op tail =>
    rw [hcons] at h
    rw [ht]
    exact h
  | reading discard plan pending out call =>
    rw [hcons] at h
    have hlen := hpu.length_le
    refine ⟨by rw [hpo]; exact h.planFor, by have := h.avail; rw [hpo]; omega, by rw [hpo]; exact h.pend, h.left,
      fun j hj => ?_, h.call⟩
    have havail := h.avail
    have hleft := h.left
    have hj' : s.popped.length + j < s.pushed.length := by
      split_ifs at hleft <;> omega
    obtain ⟨t, ht'⟩ := hpu
    rw [hpo, h.read j hj, ← ht', List.getElem?_append_left hj']

theorem Inv.snoc_log {t : Transfer} (h : ∀ t ∈ s.log, t.returned = min t.requested t.visible)
    (ht : t.returned = min t.requested t.visible) : ∀ u ∈ s.log ++ [t], u.returned = min u.requested u.visible := by
  intro u hu
  rcases List.mem_append.mp hu with hu | hu
  · exact h u hu
  · rw [List.mem_singleton.mp hu]
    exact ht

end Invariant

/-! ## The producer's steps -/

section ProducerSteps

variable {c : ℕ} {s s' : Spsc α} {q : Fifo α (c - 1)}

theorem inv_callPush {op : PushOp α} (h : Inv c s q) (hst : stepProducer c s (.callPush op) = some s') :
    Inv c s' q := by
  cases hp : s.producer with
  | idle =>
    simp only [stepProducer, hp] at hst
    split_ifs at hst with h0
    · cases hst
      exact { h with
        producer := trivial
        consumer := h.consumer.frame rfl rfl (List.prefix_refl _) rfl
        log := Inv.snoc_log h.log rfl }
    · cases hst
      exact { h with
        producer := ⟨rfl, Nat.pos_of_ne_zero h0⟩
        consumer := h.consumer.frame rfl rfl (List.prefix_refl _) rfl }
  | loadedHead op head => simp [stepProducer, hp] at hst
  | writing src plan pending copied call => simp [stepProducer, hp] at hst

theorem inv_loadTail (hc : 0 < c) (h : Inv c s q) (hst : stepProducer c s .loadTail = some s') : Inv c s' q := by
  cases hp : s.producer with
  | idle => simp [stepProducer, hp] at hst
  | writing src plan pending copied call => simp [stepProducer, hp] at hst
  | loadedHead op head =>
    have hprod := h.producer
    unfold ProducerOk at hprod
    rw [hp] at hprod
    obtain ⟨rfl, hreq⟩ := hprod
    have hTH := h.popped_le
    have hroom := h.pushed_le
    have hspec := push_plan_spec op hc hTH hroom hreq
    rw [← h.head, ← h.tail] at hspec
    simp only [stepProducer, hp] at hst
    rcases hspec with ⟨h0, hplan⟩ | ⟨p, hplan, hfor⟩
    · rw [hplan] at hst
      cases hst
      exact { h with
        producer := trivial
        consumer := h.consumer.frame rfl rfl (List.prefix_refl _) rfl
        log := Inv.snoc_log h.log h0.symm }
    · rw [hplan] at hst
      cases hst
      have hcount := hfor.count
      refine { h with producer := ?_, consumer := h.consumer.frame rfl rfl (List.prefix_refl _) rfl }
      rw [← hcount] at hfor
      exact ⟨hfor, by omega, by dsimp only; omega, hfor.blocks, by rw [hfor.copies]; omega,
        fun j hj => absurd hj (Nat.not_lt_zero j), hcount⟩

/-- The chunk written holds the next `n` items; the stored items and those already written keep their slots. -/
theorem inv_copyIn (h : Inv c s q) (hst : stepProducer c s .copyIn = some s') : Inv c s' q := by
  cases hp : s.producer with
  | idle => simp [stepProducer, hp] at hst
  | loadedHead op head => simp [stepProducer, hp] at hst
  | writing src plan pending copied call =>
    cases pending with
    | nil => simp [stepProducer, hp] at hst
    | cons b rest =>
      obtain ⟨slot, n⟩ := b
      have hw := h.producer
      unfold ProducerOk at hw
      rw [hp] at hw
      simp only [stepProducer, hp] at hst
      cases hst
      obtain ⟨hslot, hfit, hrest⟩ := hw.pend
      subst hslot
      have hleft := hw.left
      rw [total_cons] at hleft
      have hroom := hw.room
      have hfits := hw.fits
      have hle := h.popped_le
      have hlen : ((src.drop copied).take n).length = n := by
        rw [List.length_take, List.length_drop]
        omega
      refine { h with
        content := fun k hk1 hk2 => ?_
        producer := ⟨hw.planFor, hw.fits, hw.room, ?_, by omega, fun j hj => ?_, hw.call⟩
        consumer := h.consumer.frame rfl rfl (List.prefix_refl _) rfl }
      · dsimp only at hk1 hk2 ⊢
        rw [h.content k hk1 hk2]
        rw [store_miss (by omega) (by omega) (by omega)]
      · rw [← Nat.add_assoc]
        exact hrest
      · dsimp only
        by_cases hold : j < copied
        · rw [hw.written j hold, store_miss (by omega) (by omega) (by omega)]
        · have hj' : j - copied < ((src.drop copied).take n).length := by omega
          have hhit := store_hit s.data (a := s.pushed.length + copied) (c := c) _ (by omega) hj'
          rw [show s.pushed.length + copied + (j - copied) = s.pushed.length + j by omega] at hhit
          rw [hhit, List.getElem_take, List.getElem_drop]
          rw [List.getElem?_eq_getElem (by omega)]
          congr 2
          omega

theorem step_storeHead (h : Inv c s q) (hst : stepProducer c s .storeHead = some s') :
    ∃ xs, ∃ hxs : q.items.length + xs.length ≤ c - 1, Inv c s' (q.accept xs hxs) := by
  cases hp : s.producer with
  | idle => simp [stepProducer, hp] at hst
  | loadedHead op head => simp [stepProducer, hp] at hst
  | writing src plan pending copied call =>
    cases pending with
    | cons b rest => simp [stepProducer, hp] at hst
    | nil =>
      have hw := h.producer
      unfold ProducerOk at hw
      rw [hp] at hw
      simp only [stepProducer, hp] at hst
      cases hst
      have hfits := hw.fits
      have hroom := hw.room
      have hcopied : copied = plan.count := by simpa using hw.left
      have hlen : (src.take plan.count).length = plan.count := by
        rw [List.length_take]
        omega
      have hitems : q.items.length = s.pushed.length - s.popped.length := by rw [h.items, List.length_drop]
      have hle := h.popped_le
      refine ⟨src.take plan.count, by omega, ?_⟩
      refine
        { accepted := by show q.accepted ++ _ = _; rw [h.accepted]
          removed := h.removed
          head := ?_
          tail := h.tail
          content := fun k hk1 hk2 => ?_
          producer := trivial
          consumer := h.consumer.frame rfl rfl (List.prefix_append _ _) rfl
          log := Inv.snoc_log h.log hw.call }
      · dsimp only
        rw [List.length_append, hlen, hw.planFor.next]
      · dsimp only at hk1 hk2 ⊢
        rw [List.length_append, hlen] at hk2
        by_cases hold : k < s.pushed.length
        · rw [List.getElem?_append_left hold]
          exact h.content k hk1 hold
        · rw [List.getElem?_append_right (by omega), List.getElem?_take_of_lt (by omega), hw.written _ (by omega)]
          rw [show s.pushed.length + (k - s.pushed.length) = k by omega]

end ProducerSteps

/-! ## The consumer's steps -/

section ConsumerSteps

variable {c : ℕ} {s s' : Spsc α} {q : Fifo α (c - 1)}

theorem inv_callPop {op : PopOp} (h : Inv c s q) (hst : stepConsumer c s (.callPop op) = some s') : Inv c s' q := by
  cases hp : s.consumer with
  | idle =>
    simp only [stepConsumer, hp] at hst
    split_ifs at hst with h0
    · cases hst
      exact { h with
        producer := h.producer.frame rfl rfl rfl rfl le_rfl
        consumer := trivial
        log := Inv.snoc_log h.log rfl }
    · cases hst
      exact { h with
        producer := h.producer.frame rfl rfl rfl rfl le_rfl
        consumer := ⟨rfl, Nat.pos_of_ne_zero h0⟩ }
  | loadedTail op tail => simp [stepConsumer, hp] at hst
  | reading discard plan pending out call => simp [stepConsumer, hp] at hst

theorem inv_loadHead (hc : 0 < c) (h : Inv c s q) (hst : stepConsumer c s .loadHead = some s') : Inv c s' q := by
  cases hp : s.consumer with
  | idle => simp [stepConsumer, hp] at hst
  | reading discard plan pending out call => simp [stepConsumer, hp] at hst
  | loadedTail op tail =>
    have hcons := h.consumer
    unfold ConsumerOk at hcons
    rw [hp] at hcons
    obtain ⟨rfl, hreq⟩ := hcons
    have hTH := h.popped_le
    have hspec := pop_plan_spec op hc hTH h.pushed_le hreq
    rw [← h.head, ← h.tail] at hspec
    simp only [stepConsumer, hp] at hst
    rcases hspec with ⟨h0, hplan⟩ | ⟨p, hplan, hfor⟩
    · rw [hplan] at hst
      cases hst
      exact { h with
        producer := h.producer.frame rfl rfl rfl rfl le_rfl
        consumer := trivial
        log := Inv.snoc_log h.log h0.symm }
    · rw [hplan] at hst
      cases hst
      have hcount := hfor.count
      refine { h with producer := h.producer.frame rfl rfl rfl rfl le_rfl, consumer := ?_ }
      rw [← hcount] at hfor
      exact ⟨hfor, by dsimp only; omega, hfor.blocks, by rw [hfor.copies, List.length_nil, Nat.zero_add],
        fun j hj => absurd hj (Nat.not_lt_zero j), hcount⟩

/-- A chunk read while the producer may be writing: its slots hold stored items. -/
theorem inv_copyOut (h : Inv c s q) (hst : stepConsumer c s .copyOut = some s') : Inv c s' q := by
  cases hp : s.consumer with
  | idle => simp [stepConsumer, hp] at hst
  | loadedTail op tail => simp [stepConsumer, hp] at hst
  | reading discard plan pending out call =>
    cases pending with
    | nil => simp [stepConsumer, hp] at hst
    | cons b rest =>
      obtain ⟨slot, n⟩ := b
      have hr := h.consumer
      unfold ConsumerOk at hr
      rw [hp] at hr
      simp only [stepConsumer, hp] at hst
      cases hst
      obtain ⟨hslot, hfit, hrest⟩ := hr.pend
      subst hslot
      have hleft := hr.left
      rw [total_cons] at hleft
      have havail := hr.avail
      have htot : out.length + n ≤ plan.count := by split_ifs at hleft <;> omega
      refine { h with
        producer := h.producer.frame rfl rfl rfl rfl le_rfl
        consumer := ⟨hr.planFor, hr.avail, ?_, ?_, fun j hj => ?_, hr.call⟩ }
      · rw [List.length_append, length_load, ← Nat.add_assoc]
        exact hrest
      · rw [List.length_append, length_load, ← hleft]
        dsimp only
        omega
      · rw [List.length_append, length_load] at hj
        dsimp only
        by_cases hold : j < out.length
        · rw [List.getElem?_append_left hold]
          exact hr.read j hold
        · rw [List.getElem?_append_right (by omega), load_eq_slots hfit, List.getElem?_map,
            List.getElem?_range (by omega), h.content _ (by omega) (by omega)]
          simp only [Option.map_some]
          rw [show s.popped.length + out.length + (j - out.length) = s.popped.length + j by omega]

/-- The slots given up by `discard_bulk` hold the first stored items. -/
theorem discarded_eq {n : ℕ} (h : Inv c s q) (hn : s.popped.length + n ≤ s.pushed.length) :
    discarded c s n = q.items.take n := by
  rw [h.items]
  apply List.ext_getElem?
  intro j
  unfold discarded
  by_cases hj : j < n
  · rw [List.getElem?_map, List.getElem?_range hj, List.getElem?_take_of_lt hj, List.getElem?_drop,
      h.content _ (by omega) (by omega), Option.map_some, h.tail, Nat.mod_add_mod]
  · rw [List.getElem?_eq_none (by simp; omega), List.getElem?_eq_none (by simp; omega)]

theorem step_storeTail (h : Inv c s q) (hst : stepConsumer c s .storeTail = some s') :
    ∃ n, n ≤ q.items.length ∧ Inv c s' (q.remove n) := by
  cases hp : s.consumer with
  | idle => simp [stepConsumer, hp] at hst
  | loadedTail op tail => simp [stepConsumer, hp] at hst
  | reading discard plan pending out call =>
    cases pending with
    | cons b rest => simp [stepConsumer, hp] at hst
    | nil =>
      have hr := h.consumer
      unfold ConsumerOk at hr
      rw [hp] at hr
      simp only [stepConsumer, hp] at hst
      cases hst
      have havail := hr.avail
      have hleft := hr.left
      rw [total_nil, Nat.add_zero] at hleft
      have hitems : q.items.length = s.pushed.length - s.popped.length := by rw [h.items, List.length_drop]
      have htaken : (if discard then discarded c s plan.count else out) = q.items.take plan.count := by
        cases discard with
        | true => exact discarded_eq h havail
        | false =>
          rw [if_neg (by simp)] at hleft ⊢
          rw [h.items]
          apply List.ext_getElem?
          intro j
          by_cases hj : j < out.length
          · rw [hr.read j hj, List.getElem?_take_of_lt (by omega), List.getElem?_drop]
          · rw [List.getElem?_eq_none (by omega), List.getElem?_eq_none (by simp; omega)]
      have hlen : (q.items.take plan.count).length = plan.count := by
        rw [List.length_take]
        omega
      refine ⟨plan.count, by omega, ?_⟩
      refine
        { accepted := h.accepted
          removed := by show q.removed ++ _ = _; dsimp only; rw [h.removed, htaken]
          head := h.head
          tail := ?_
          content := fun k hk1 hk2 => ?_
          producer := h.producer.frame rfl rfl rfl rfl ?_
          consumer := trivial
          log := Inv.snoc_log h.log hr.call }
      · dsimp only
        rw [htaken, List.length_append, hlen, hr.planFor.next]
      · dsimp only at hk1
        rw [List.length_append] at hk1
        exact h.content k (by omega) hk2
      · dsimp only
        rw [List.length_append]
        omega

end ConsumerSteps

/-! ## Refinement and the facts a user relies on -/

section Refinement

variable {c : ℕ} {blank : α}

/-- **The ring buffer refines the bounded FIFO** of `capacity_ - 1` items: storing `head_` accepts a block, storing
`tail_` removes one, every other step is silent. -/
theorem spsc_refines (hc : 0 < c) : Lts.Simulates (spsc c blank) (Fifo.system α (c - 1)) (Inv c) where
  init s hs := by
    subst hs
    exact ⟨Fifo.empty, rfl, inv_init blank⟩
  step s l s' q h hst := by
    cases l with
    | callPush op => exact ⟨[], q, rfl, inv_callPush h hst⟩
    | loadTail => exact ⟨[], q, rfl, inv_loadTail hc h hst⟩
    | copyIn => exact ⟨[], q, rfl, inv_copyIn h hst⟩
    | storeHead =>
      obtain ⟨xs, hxs, h'⟩ := step_storeHead h hst
      exact ⟨[.accept xs], _, Fifo.exec_accept hxs, h'⟩
    | callPop op => exact ⟨[], q, rfl, inv_callPop h hst⟩
    | loadHead => exact ⟨[], q, rfl, inv_loadHead hc h hst⟩
    | copyOut => exact ⟨[], q, rfl, inv_copyOut h hst⟩
    | storeTail =>
      obtain ⟨n, hn, h'⟩ := step_storeTail h hst
      exact ⟨[.remove n], _, Fifo.exec_remove hn, h'⟩

theorem reachable_inv (hc : 0 < c) {s : Spsc α} (hs : (spsc c blank).Reachable s) : ∃ q, Inv c s q := by
  obtain ⟨q, -, h⟩ := (spsc_refines hc).reachable hs
  exact ⟨q, h⟩

/-- The slots being written and the slots being read never meet. -/
theorem Inv.slots_disjoint {s : Spsc α} {q : Fifo α (c - 1)} (h : Inv c s q) :
    ∀ i ∈ s.consumer.readSlots, i ∉ s.producer.writeSlots := by
  have hprod := h.producer
  have hcons := h.consumer
  unfold ProducerOk at hprod
  unfold ConsumerOk at hcons
  cases hp : s.producer with
  | idle => simp [Producer.writeSlots]
  | loadedHead op head => simp [Producer.writeSlots]
  | writing src plan pending copied call =>
    cases hq : s.consumer with
    | idle => simp [Consumer.readSlots]
    | loadedTail op tail => simp [Consumer.readSlots]
    | reading discard plan' pending' out call' =>
      rw [hp] at hprod
      rw [hq] at hcons
      have hroom := hprod.room
      have havail := hcons.avail
      have hw := hprod.planFor.copies
      have hpos := hprod.planFor.pos
      have hr : total plan'.chunks ≤ plan'.count := by
        rw [hcons.planFor.copies]
        split_ifs <;> omega
      exact hcons.planFor.blocks.disjoint hprod.planFor.blocks (by omega) (by omega)

/-- Both indices, and every slot an operation touches, are inside the array; no index sum reaches `2 * capacity_`. -/
theorem indices_in_range (hc : 0 < c) {s : Spsc α} (hs : (spsc c blank).Reachable s) :
    s.head < c ∧ s.tail < c ∧ (∀ i ∈ s.producer.writeSlots, i < c) ∧ (∀ i ∈ s.consumer.readSlots, i < c) := by
  obtain ⟨q, h⟩ := reachable_inv hc hs
  have hprod := h.producer
  have hcons := h.consumer
  unfold ProducerOk at hprod
  unfold ConsumerOk at hcons
  refine ⟨?_, ?_, ?_, ?_⟩
  · rw [h.head]
    exact Nat.mod_lt _ hc
  · rw [h.tail]
    exact Nat.mod_lt _ hc
  · intro i hi
    cases hp : s.producer with
    | idle => simp [hp, Producer.writeSlots] at hi
    | loadedHead op head => simp [hp, Producer.writeSlots] at hi
    | writing src plan pending copied call =>
      rw [hp] at hprod hi
      exact hprod.planFor.blocks.slot_lt hc hi
  · intro i hi
    cases hq : s.consumer with
    | idle => simp [hq, Consumer.readSlots] at hi
    | loadedTail op tail => simp [hq, Consumer.readSlots] at hi
    | reading discard plan pending out call =>
      rw [hq] at hcons hi
      exact hcons.planFor.blocks.slot_lt hc hi

/-- **The ring buffer is a FIFO under every interleaving.**  In every reachable state: what was popped or discarded
is a prefix of what was pushed; the slots an operation of the producer writes are disjoint from those an operation
of the consumer reads; at most `capacity_ - 1` items are stored; every finished call transferred the smaller of
what it asked for and what it could see. -/
theorem spsc_fifo (hc : 1 ≤ c) {s : Spsc α} (hs : (spsc c blank).Reachable s) :
    s.popped <+: s.pushed ∧
    (∀ i ∈ s.producer.writeSlots, i ∉ s.consumer.readSlots) ∧
    s.stored ≤ c - 1 ∧
    ∀ t ∈ s.log, t.returned = min t.requested t.visible := by
  obtain ⟨q, h⟩ := reachable_inv hc hs
  refine ⟨?_, fun i hw hr => h.slots_disjoint i hr hw, ?_, h.log⟩
  · rw [← h.accepted, ← h.removed]
    exact q.removed_prefix
  · unfold Spsc.stored
    rw [← h.accepted, ← h.removed]
    exact q.stored_le

/-- A producer stopped between its two chunks while the consumer, which had emptied the buffer, waits: capacity 4,
three items pushed and popped, then a push of three that wraps around. -/
theorem spsc_fifo_wrapped : ∃ s : Spsc ℕ,
    s.pushed = [1, 2, 3] ∧ s.producer.writeSlots = [3, 0, 1] ∧
    s.popped <+: s.pushed ∧
    (∀ i ∈ s.producer.writeSlots, i ∉ s.consumer.readSlots) ∧
    s.stored ≤ 4 - 1 ∧
    ∀ t ∈ s.log, t.returned = min t.requested t.visible :=
  have hrun : (spsc 4 0).Reachable _ := Lts.reachable_of_exec
    [.callPush (.pushBulk [1, 2, 3]), .loadTail, .copyIn, .storeHead, .callPop (.popBulk 9), .loadHead, .copyOut,
      .storeTail, .callPush (.pushBulk [4, 5, 6]), .loadTail, .copyIn] rfl rfl
  ⟨_, rfl, rfl, spsc_fifo (by decide) hrun⟩

end Refinement

end RingBufferView

end Grebe
