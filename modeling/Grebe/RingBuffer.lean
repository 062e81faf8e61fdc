import Grebe.RingBufferSpsc

/-!
# Grebe.RingBuffer — the ring buffer, a call at a time

Where a call is one step, a ring buffer is the history of a bounded FIFO: `push_bulk` accepts as many items as there is
room for, `pop_bulk` and `discard_bulk` remove as many as there are.

`pushBulk_runs`, `pop_runs`: a call that runs to its end without the other side in `spsc` does so.
-/

namespace Grebe

open Lib

/-- A ring buffer of `slots` slots, one of which stays free. -/
structure RingBuffer (α : Type) where
  slots : ℕ
  pos : 0 < slots
  fifo : Fifo α (slots - 1)

namespace RingBuffer

variable {α : Type}

/-! ## The calls -/

section Calls

/-- `RingBuffer(capacity)`. -/
def new (slots : ℕ) (pos : 0 < slots) : RingBuffer α := ⟨slots, pos, .empty⟩

variable (r : RingBuffer α)

def capacity : ℕ := r.slots - 1

/-- What was pushed so far. -/
def accepted : List α := r.fifo.accepted

/-- What was popped or discarded so far. -/
def removed : List α := r.fifo.removed

def items : List α := r.fifo.items

def size : ℕ := r.items.length

/-- The slots that `push_bulk` sees free. -/
def free : ℕ := r.capacity - r.size

/-- `push_bulk`: how many items it takes, and the ring buffer after it. -/
def pushBulk (src : List α) : ℕ × RingBuffer α :=
  (min src.length r.free,
    { r with fifo := r.fifo.accept (src.take r.free) (by
        have := r.fifo.bounded
        rw [List.length_take, free, size, items, capacity]
        omega) })

/-- `pop_bulk`: the items, and the ring buffer after it. -/
def popBulk (maxCount : ℕ) : List α × RingBuffer α :=
  (r.items.take maxCount, { r with fifo := r.fifo.remove maxCount })

/-- `discard_bulk`: how many items it gives up, and the ring buffer after it. -/
def discardBulk (maxCount : ℕ) : ℕ × RingBuffer α :=
  (min maxCount r.size, { r with fifo := r.fifo.remove maxCount })

end Calls

/-! ## What a call does to the history -/

section History

variable (r : RingBuffer α)

theorem size_le_capacity : r.size ≤ r.capacity := r.fifo.bounded

theorem split : r.accepted = r.removed ++ r.items := r.fifo.split

@[simp] theorem accepted_pushBulk (src : List α) : (r.pushBulk src).2.accepted = r.accepted ++ src.take r.free := rfl

@[simp] theorem removed_pushBulk (src : List α) : (r.pushBulk src).2.removed = r.removed := rfl

@[simp] theorem items_pushBulk (src : List α) : (r.pushBulk src).2.items = r.items ++ src.take r.free := rfl

@[simp] theorem accepted_popBulk (n : ℕ) : (r.popBulk n).2.accepted = r.accepted := rfl

@[simp] theorem removed_popBulk (n : ℕ) : (r.popBulk n).2.removed = r.removed ++ (r.popBulk n).1 := rfl

@[simp] theorem items_popBulk (n : ℕ) : (r.popBulk n).2.items = r.items.drop n := rfl

@[simp] theorem accepted_discardBulk (n : ℕ) : (r.discardBulk n).2.accepted = r.accepted := rfl

@[simp] theorem removed_discardBulk (n : ℕ) : (r.discardBulk n).2.removed = r.removed ++ r.items.take n := rfl

@[simp] theorem items_discardBulk (n : ℕ) : (r.discardBulk n).2.items = r.items.drop n := rfl

theorem size_eq : r.size = r.accepted.length - r.removed.length := by
  rw [size, r.split, List.length_append]
  omega

@[simp] theorem size_pushBulk (src : List α) : (r.pushBulk src).2.size = r.size + (r.pushBulk src).1 := by
  rw [size, items_pushBulk, List.length_append, List.length_take, min_comm]
  rfl

@[simp] theorem length_popBulk (n : ℕ) : (r.popBulk n).1.length = min n r.size := List.length_take

end History

/-! ## The calls of `spsc` -/

section Atomic

open RingBufferView Lib.Circular

/-- Both sides are between calls, and the history is that of `r`. -/
structure Represents (s : Spsc α) (r : RingBuffer α) : Prop where
  producer : s.producer = .idle
  consumer : s.consumer = .idle
  inv : Inv r.slots s r.fifo

variable {r : RingBuffer α} {s : Spsc α} {blank : α}

theorem Represents.size_eq (h : Represents s r) : s.pushed.length - s.popped.length = r.size := by
  rw [r.size_eq, accepted, removed, h.inv.accepted, h.inv.removed]

/-- The copies of a push run through, and change nothing but the memory. -/
theorem exec_copyIn (blank : α) {c : ℕ} {q : Fifo α (c - 1)} {src : List α} {plan : Plan} {call : Transfer}
    (pending : List (ℕ × ℕ)) {s : Spsc α} {copied : ℕ} (h : Inv c s q)
    (hp : s.producer = .writing src plan pending copied call) :
    ∃ s' copied', (spsc c blank).exec s (pending.map fun _ => .copyIn) = some s' ∧ Inv c s' q ∧
      s'.producer = .writing src plan [] copied' call ∧ s'.consumer = s.consumer ∧ s'.log = s.log := by
  induction pending generalizing s copied with
  | nil => exact ⟨s, copied, rfl, h, hp, rfl, rfl⟩
  | cons b rest ih =>
    obtain ⟨slot, n⟩ := b
    have hst : (spsc c blank).step s .copyIn = some { s with
        data := Circular.store s.data slot ((src.drop copied).take n)
        producer := .writing src plan rest (copied + n) call } := by
      simp only [spsc, stepProducer, hp]
    obtain ⟨s', copied', hrun, hinv, hp', hc', hlog⟩ := ih (inv_copyIn h hst) rfl
    refine ⟨s', copied', ?_, hinv, hp', hc', hlog⟩
    rw [List.map_cons, Lts.exec_cons, hst, Option.bind_some, hrun]

/-- A push that has planned its copies runs to its end. -/
theorem exec_writing (blank : α) {c : ℕ} {q : Fifo α (c - 1)} {src : List α} {plan : Plan} {call : Transfer}
    {s : Spsc α} (h : Inv c s q) (hp : s.producer = .writing src plan plan.chunks 0 call) :
    ∃ s' q', (spsc c blank).exec s ((plan.chunks.map fun _ => .copyIn) ++ [.storeHead]) = some s' ∧ Inv c s' q' ∧
      s'.producer = .idle ∧ s'.consumer = s.consumer ∧ s'.log = s.log ++ [call] ∧
      s'.pushed = s.pushed ++ src.take plan.count ∧ s'.popped = s.popped := by
  obtain ⟨s1, copied, hcopy, hinv, hprod, hcons, hlog⟩ := exec_copyIn blank plan.chunks h hp
  have hpushed : s1.pushed = s.pushed := hinv.accepted.symm.trans h.accepted
  have hpopped : s1.popped = s.popped := hinv.removed.symm.trans h.removed
  obtain ⟨s2, hstore, hidle, hcons2, hlog2, hpush2, hpop2⟩ : ∃ s2, (spsc c blank).step s1 .storeHead = some s2 ∧
      s2.producer = .idle ∧ s2.consumer = s1.consumer ∧ s2.log = s1.log ++ [call] ∧
      s2.pushed = s1.pushed ++ src.take plan.count ∧ s2.popped = s1.popped := by
    simp only [spsc, stepProducer, hprod]
    exact ⟨_, rfl, rfl, rfl, rfl, rfl, rfl⟩
  obtain ⟨xs, hxs, hinv2⟩ := step_storeHead hinv hstore
  refine ⟨s2, _, ?_, hinv2, hidle, hcons2.trans hcons, by rw [hlog2, hlog], by rw [hpush2, hpushed],
    hpop2.trans hpopped⟩
  rw [Lts.exec_append, hcopy, Option.bind_some, Lts.exec_single hstore]

/-- The invariant is about the history. -/
theorem inv_congr {c : ℕ} {q q' : Fifo α (c - 1)} {s : Spsc α} (h : Inv c s q) (ha : q'.accepted = s.pushed)
    (hr : q'.removed = s.popped) : Inv c s q' := by
  rw [Fifo.ext_of (ha.trans h.accepted.symm) (hr.trans h.removed.symm)]
  exact h

/-- **`push_bulk` in one go.** -/
theorem pushBulk_runs (h : Represents s r) (src : List α) :
    ∃ ls s', (spsc r.slots blank).exec s (.callPush (.pushBulk src) :: ls) = some s' ∧
      Represents s' (r.pushBulk src).2 ∧ ∃ t, s'.log = s.log ++ [t] ∧ t.returned = (r.pushBulk src).1 := by
  have hfree : r.slots - 1 - (s.pushed.length - s.popped.length) = r.free := by
    rw [h.size_eq]
    rfl
  -- a call that takes no item leaves the history as it is
  have hnone {s' : Spsc α} (h0 : min src.length r.free = 0) (hpush : s'.pushed = s.pushed)
      (hpop : s'.popped = s.popped) (hinv : Inv r.slots s' r.fifo) : Inv r.slots s' (r.pushBulk src).2.fifo := by
    refine inv_congr hinv ?_ ?_
    · have htake : src.take r.free = [] := by
        rw [← List.length_eq_zero_iff, List.length_take, min_comm, h0]
      show r.fifo.accepted ++ src.take r.free = _
      rw [htake, List.append_nil, hpush, h.inv.accepted]
    · exact h.inv.removed.trans hpop.symm
  by_cases hsrc : src.length = 0
  · have hst : (spsc r.slots blank).step s (.callPush (.pushBulk src)) =
        some { s with log := s.log ++ [⟨0, 0, 0⟩] } := by
      simp only [spsc, stepProducer, h.producer, PushOp.src, hsrc, if_true]
    refine ⟨[], _, Lts.exec_single hst, ⟨h.producer, h.consumer, ?_⟩, _, rfl, ?_⟩
    · exact hnone (by omega) rfl rfl (inv_callPush h.inv hst)
    · exact (show min src.length r.free = 0 by omega).symm
  · have hcall : (spsc r.slots blank).step s (.callPush (.pushBulk src)) =
        some { s with producer := .loadedHead (.pushBulk src) s.head } := by
      simp only [spsc, stepProducer, h.producer, PushOp.src, hsrc, if_false]
    have hinv := inv_callPush h.inv hcall
    have hspec := push_plan_spec (.pushBulk src) r.pos h.inv.popped_le h.inv.pushed_le (Nat.pos_of_ne_zero hsrc)
    rw [← h.inv.head, ← h.inv.tail, hfree] at hspec
    rcases hspec with ⟨h0, hplan⟩ | ⟨plan, hplan, hfor⟩
    · obtain ⟨s', hload, hidle, hpush, hpop, hcons, hlog⟩ : ∃ s', (spsc r.slots blank).step
          { s with producer := .loadedHead (.pushBulk src) s.head } .loadTail = some s' ∧ s'.producer = .idle ∧
          s'.pushed = s.pushed ∧ s'.popped = s.popped ∧ s'.consumer = s.consumer ∧
          s'.log = s.log ++ [⟨src.length, r.slots - 1 - s.stored, 0⟩] := by
        simp only [spsc, stepProducer, hplan]
        exact ⟨_, rfl, rfl, rfl, rfl, rfl, rfl⟩
      refine ⟨[.loadTail], s', ?_, ⟨hidle, hcons.trans h.consumer, ?_⟩, _, hlog, ?_⟩
      · rw [Lts.exec_cons, hcall, Option.bind_some, Lts.exec_single hload]
      · exact hnone h0 hpush hpop (inv_loadTail r.pos hinv hload)
      · exact h0.symm
    · obtain ⟨s1, hload, hprod, hcons, hlog⟩ : ∃ s1, (spsc r.slots blank).step
          { s with producer := .loadedHead (.pushBulk src) s.head } .loadTail = some s1 ∧
          s1.producer = .writing src plan plan.chunks 0 ⟨src.length, r.slots - 1 - s.stored, plan.count⟩ ∧
          s1.consumer = s.consumer ∧ s1.log = s.log := by
        simp only [spsc, stepProducer, hplan]
        exact ⟨_, rfl, rfl, rfl, rfl⟩
      obtain ⟨s2, q, hwrite, hinv2, hidle, hcons2, hlog2, hpush2, hpop2⟩ :=
        exec_writing blank (inv_loadTail r.pos hinv hload) hprod
      have hinv1 := inv_loadTail r.pos hinv hload
      refine ⟨.loadTail :: ((plan.chunks.map fun _ => .copyIn) ++ [.storeHead]), s2, ?_,
        ⟨hidle, hcons2.trans (hcons.trans h.consumer), ?_⟩, _, by rw [hlog2, hlog], hfor.count⟩
      · rw [Lts.exec_cons, hcall, Option.bind_some, Lts.exec_cons, hload, Option.bind_some, hwrite]
      · refine inv_congr hinv2 ?_ (hinv1.removed.trans hpop2.symm)
        have hcount : plan.count = min src.length r.free := hfor.count
        show r.fifo.accepted ++ src.take r.free = _
        rw [hpush2, ← hinv1.accepted, hcount, min_comm, ← List.take_eq_take_min]

/-- The copies of a pop run through, and change nothing else. -/
theorem exec_copyOut (blank : α) {c : ℕ} {q : Fifo α (c - 1)} {discard : Bool} {plan : Plan} {call : Transfer}
    (pending : List (ℕ × ℕ)) {s : Spsc α} {out : List α} (h : Inv c s q)
    (hp : s.consumer = .reading discard plan pending out call) :
    ∃ s' out', (spsc c blank).exec s (pending.map fun _ => .copyOut) = some s' ∧ Inv c s' q ∧
      s'.consumer = .reading discard plan [] out' call ∧ s'.producer = s.producer ∧ s'.log = s.log := by
  induction pending generalizing s out with
  | nil => exact ⟨s, out, rfl, h, hp, rfl, rfl⟩
  | cons b rest ih =>
    obtain ⟨slot, n⟩ := b
    have hst : (spsc c blank).step s .copyOut =
        some { s with consumer := .reading discard plan rest (out ++ Circular.load s.data slot n) call } := by
      simp only [spsc, stepConsumer, hp]
    obtain ⟨s', out', hrun, hinv, hp', hprod, hlog⟩ := ih (inv_copyOut h hst) rfl
    refine ⟨s', out', ?_, hinv, hp', hprod, hlog⟩
    rw [List.map_cons, Lts.exec_cons, hst, Option.bind_some, hrun]

/-- The items of the plan are popped. -/
theorem storeTail_count {c : ℕ} {q : Fifo α (c - 1)} {s s' : Spsc α} {discard : Bool} {plan : Plan} {out : List α}
    {call : Transfer} (h : Inv c s q) (hp : s.consumer = .reading discard plan [] out call)
    (hst : (spsc c blank).step s .storeTail = some s') : s'.popped.length = s.popped.length + plan.count := by
  have hr := h.consumer
  unfold ConsumerOk at hr
  rw [hp] at hr
  have hleft := hr.left
  simp only [spsc, stepConsumer, hp, Option.some.injEq] at hst
  rw [← hst]
  dsimp only
  rw [List.length_append]
  cases discard with
  | true => simp [discarded]
  | false => simpa using hleft

/-- A pop that has planned its copies runs to its end. -/
theorem exec_reading (blank : α) {c : ℕ} {q : Fifo α (c - 1)} {discard : Bool} {plan : Plan} {call : Transfer}
    {s : Spsc α} (h : Inv c s q) (hp : s.consumer = .reading discard plan plan.chunks [] call) :
    ∃ s', (spsc c blank).exec s ((plan.chunks.map fun _ => .copyOut) ++ [.storeTail]) = some s' ∧
      Inv c s' (q.remove plan.count) ∧ s'.consumer = .idle ∧ s'.producer = s.producer ∧ s'.log = s.log ++ [call] := by
  obtain ⟨s1, out, hcopy, hinv, hcons, hprod, hlog⟩ := exec_copyOut blank plan.chunks h hp
  obtain ⟨s2, hstore, hidle, hprod2, hlog2⟩ : ∃ s2, (spsc c blank).step s1 .storeTail = some s2 ∧
      s2.consumer = .idle ∧ s2.producer = s1.producer ∧ s2.log = s1.log ++ [call] := by
    simp only [spsc, stepConsumer, hcons]
    exact ⟨_, rfl, rfl, rfl, rfl⟩
  obtain ⟨n, hn, hinv2⟩ := step_storeTail hinv hstore
  have hplan : n = plan.count := by
    have hcount := storeTail_count hinv hcons hstore
    rw [← hinv2.removed, ← hinv.removed] at hcount
    have hlen : (q.remove n).removed.length = q.removed.length + n := by
      show (q.removed ++ q.items.take n).length = _
      rw [List.length_append, List.length_take, min_eq_left hn]
    omega
  subst hplan
  refine ⟨s2, ?_, hinv2, hidle, hprod2.trans hprod, by rw [hlog2, hlog]⟩
  rw [Lts.exec_append, hcopy, Option.bind_some, Lts.exec_single hstore]

/-- **`pop`, `pop_bulk` or `discard_bulk` in one go.** -/
theorem pop_runs (h : Represents s r) (op : PopOp) :
    ∃ ls s', (spsc r.slots blank).exec s (.callPop op :: ls) = some s' ∧
      Represents s' { r with fifo := r.fifo.remove op.requested } ∧
      ∃ t, s'.log = s.log ++ [t] ∧ t.returned = min op.requested r.size := by
  have hnone {s' : Spsc α} (h0 : min op.requested r.size = 0) (hpush : s'.pushed = s.pushed)
      (hpop : s'.popped = s.popped) (hinv : Inv r.slots s' r.fifo) :
      Inv r.slots s' (r.fifo.remove op.requested) := by
    refine inv_congr hinv (h.inv.accepted.trans hpush.symm) ?_
    have htake : r.fifo.items.take op.requested = [] := by
      rw [← List.length_eq_zero_iff, List.length_take]
      exact h0
    show r.fifo.removed ++ r.fifo.items.take op.requested = s'.popped
    rw [htake, List.append_nil, hpop, h.inv.removed]
  by_cases hreq : op.requested = 0
  · have hst : (spsc r.slots blank).step s (.callPop op) = some { s with log := s.log ++ [⟨0, 0, 0⟩] } := by
      simp only [spsc, stepConsumer, h.consumer, hreq, if_true]
    refine ⟨[], _, Lts.exec_single hst, ⟨h.producer, h.consumer, ?_⟩, _, rfl, ?_⟩
    · exact hnone (by omega) rfl rfl (inv_callPop h.inv hst)
    · exact (show min op.requested r.size = 0 by omega).symm
  · have hcall : (spsc r.slots blank).step s (.callPop op) = some { s with consumer := .loadedTail op s.tail } := by
      simp only [spsc, stepConsumer, h.consumer, hreq, if_false]
    have hinv := inv_callPop h.inv hcall
    have hspec := pop_plan_spec op r.pos h.inv.popped_le h.inv.pushed_le (Nat.pos_of_ne_zero hreq)
    rw [← h.inv.head, ← h.inv.tail, h.size_eq] at hspec
    rcases hspec with ⟨h0, hplan⟩ | ⟨plan, hplan, hfor⟩
    · obtain ⟨s', hload, hidle, hpush, hpop, hprod, hlog⟩ : ∃ s', (spsc r.slots blank).step
          { s with consumer := .loadedTail op s.tail } .loadHead = some s' ∧ s'.consumer = .idle ∧
          s'.pushed = s.pushed ∧ s'.popped = s.popped ∧ s'.producer = s.producer ∧
          s'.log = s.log ++ [⟨op.requested, s.stored, 0⟩] := by
        simp only [spsc, stepConsumer, hplan]
        exact ⟨_, rfl, rfl, rfl, rfl, rfl, rfl⟩
      refine ⟨[.loadHead], s', ?_, ⟨hprod.trans h.producer, hidle, ?_⟩, _, hlog, h0.symm⟩
      · rw [Lts.exec_cons, hcall, Option.bind_some, Lts.exec_single hload]
      · exact hnone h0 hpush hpop (inv_loadHead r.pos hinv hload)
    · obtain ⟨s1, hload, hcons, hprod, hlog⟩ : ∃ s1, (spsc r.slots blank).step
          { s with consumer := .loadedTail op s.tail } .loadHead = some s1 ∧
          s1.consumer = .reading op.isDiscard plan plan.chunks [] ⟨op.requested, s.stored, plan.count⟩ ∧
          s1.producer = s.producer ∧ s1.log = s.log := by
        simp only [spsc, stepConsumer, hplan]
        exact ⟨_, rfl, rfl, rfl, rfl⟩
      obtain ⟨s2, hread, hinv2, hidle, hprod2, hlog2⟩ := exec_reading blank (inv_loadHead r.pos hinv hload) hcons
      refine ⟨.loadHead :: ((plan.chunks.map fun _ => .copyOut) ++ [.storeTail]), s2, ?_,
        ⟨hprod2.trans (hprod.trans h.producer), hidle, ?_⟩, _, by rw [hlog2, hlog], hfor.count⟩
      · rw [Lts.exec_cons, hcall, Option.bind_some, Lts.exec_cons, hload, Option.bind_some, hread]
      · have hcount : plan.count = min op.requested r.fifo.items.length := hfor.count
        have htaken : r.fifo.items.take plan.count = r.fifo.items.take op.requested := by
          rw [hcount, ← List.take_eq_take_min]
        refine inv_congr hinv2 hinv2.accepted ?_
        rw [← hinv2.removed]
        show r.fifo.removed ++ _ = r.fifo.removed ++ _
        rw [htaken]

end Atomic

end RingBuffer

end Grebe
