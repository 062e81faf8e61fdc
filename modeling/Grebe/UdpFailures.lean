import Grebe.UdpProducer

/-!
# Grebe.UdpFailures — a `sendmmsg` that fails

`flush_internal` gives up on the batch when `sendmmsg` fails, also on what is left of it after a part has gone out, and
counts nothing as pending then; `send_frame` returns true all the same.

* `FailingKernel` is a `SendKernel` any of whose calls may fail.
* `flushLoop_failing`: what a flush takes, and when that is all.
* `balance_iff`: the frames reported as sent are those that were taken and those that are pending, exactly if no call of
  `sendmmsg` has failed, or there are no batches.
-/

namespace Grebe

/-- A kernel that fails in the calls that `fails` tells, and else sends of the messages of a `sendmmsg` at least one and
at most those that remain.  A `sendmsg` may fail at any time. -/
structure FailingKernel (burst : ℕ) where
  sendmsg : ℕ → ℤ
  sendmmsg : ℕ → UInt32 → ℤ
  fails : ℕ → Bool
  neg : ∀ call remaining, fails call = true → sendmmsg call remaining < 0
  pos : ∀ call remaining, fails call = false → 0 < remaining → remaining ≤ burst →
    1 ≤ sendmmsg call (UInt32.ofNat remaining)
  le : ∀ call remaining, fails call = false → 0 < remaining → remaining ≤ burst →
    sendmmsg call (UInt32.ofNat remaining) ≤ remaining

namespace Sender

/-! ## Calls -/

section Calls

variable (sendmsg : ℕ → ℤ) (sendmmsg : ℕ → UInt32 → ℤ) (s : Sender)

/-- `send_frame`, whatever the kernel does. -/
def sendFrameWith (header : FrameHeaderV2) (payload : Bool) : Option Sender :=
  if s.producer.sock = false then some (s.ret false)
  else if 64 + header.payloadBytes.toNat > s.producer.maxDatagramSize then some (s.ret false)
  else if s.producer.burstSize > 1 then
    let t := s.fillSlot header payload
    (if t.producer.batchCount ≥ t.producer.burstSize then t.flushInternal sendmmsg else some t).map fun t => t.ret true
  else
    let r := s.sendScatterGather sendmsg header payload
    some (r.1.ret r.2)

def stepWith (s : Sender) : Op → Option Sender
  | .sendFrame header payload =>
    sendFrameWith sendmsg sendmmsg { s with buffer := payload.getD s.buffer } header payload.isSome
  | .overwrite bytes => some { s with buffer := bytes }
  | .flush => s.flushInternal sendmmsg

def runWith (ops : List Op) : Option Sender := ops.foldlM (stepWith sendmsg sendmmsg) s

/-- With a kernel that does not fail it is the run of before. -/
theorem runWith_eq {burst : ℕ} (K : SendKernel burst) (ops : List Op) :
    s.runWith K.sendmsg K.sendmmsg ops = s.run K ops := by
  have hstep : stepWith K.sendmsg K.sendmmsg = step K := by
    funext t op
    cases op <;> rfl
  rw [runWith, run, hstep]

end Calls

/-! ## The flush -/

section Flush

variable {burst : ℕ} (K : FailingKernel burst) (s : Sender)

/-- No call of `sendmmsg` so far has failed. -/
def Unfailed (s : Sender) : Prop := ∀ call < s.calls, K.fails call = false

theorem length_slotDatagrams (offset n : ℕ) : (s.slotDatagrams offset n).length = n := by
  rw [slotDatagrams, List.length_map, List.length_range']

theorem slotDatagrams_add (offset m n : ℕ) :
    s.slotDatagrams offset (m + n) = s.slotDatagrams offset m ++ s.slotDatagrams (offset + m) n := by
  rw [slotDatagrams, slotDatagrams, slotDatagrams, ← List.map_append, List.range'_append_1]

/-- **The loop ends whatever the kernel does.**  It takes messages from the front, and all of them if no call fails. -/
theorem flushLoop_failing (offset : ℕ) {fuel remaining : ℕ} (hfuel : remaining ≤ fuel) (hburst : remaining ≤ burst) :
    ∃ t n, flushLoop K.sendmmsg fuel offset remaining s = some t ∧ n ≤ remaining ∧
      t = { s with wire := s.wire ++ s.slotDatagrams offset n, calls := t.calls } ∧ s.calls ≤ t.calls ∧
      (n = remaining ↔ ∀ call, s.calls ≤ call → call < t.calls → K.fails call = false) := by
  induction fuel generalizing offset remaining s with
  | zero =>
    obtain rfl : remaining = 0 := by omega
    refine ⟨s, 0, by simp [flushLoop], le_rfl, by simp [slotDatagrams], le_rfl, iff_of_true rfl fun call h1 h2 => ?_⟩
    omega
  | succ fuel ih =>
    unfold flushLoop
    by_cases hpos : remaining > 0
    · rw [if_pos hpos]
      dsimp only
      cases hfail : K.fails s.calls with
      | true =>
        rw [if_pos (K.neg _ _ hfail)]
        refine ⟨_, 0, rfl, Nat.zero_le _, rfl, Nat.le_succ _, iff_of_false (by omega) ?_⟩
        intro h
        rw [h s.calls le_rfl (Nat.lt_succ_self _)] at hfail
        cases hfail
      | false =>
        have h1 := K.pos s.calls remaining hfail hpos hburst
        have h2 := K.le s.calls remaining hfail hpos hburst
        obtain ⟨m, hm⟩ : ∃ m : ℕ, K.sendmmsg s.calls (UInt32.ofNat remaining) = m :=
          ⟨_, (Int.toNat_of_nonneg (by omega)).symm⟩
        rw [hm] at h1 h2
        obtain ⟨t, n, hloop, hn, ht, hcalls, hall⟩ := ih (s.took (s.slotDatagrams offset m)) (offset + m)
          (show remaining - m ≤ fuel by omega) (by omega)
        rw [hm, if_neg (by omega), Int.toNat_natCast]
        refine ⟨t, m + n, hloop, by omega, ?_, (Nat.le_succ _).trans hcalls, ?_⟩
        · rw [slotDatagrams_add, ← List.append_assoc]
          exact ht
        · rw [show m + n = remaining ↔ n = remaining - m by omega, hall]
          refine ⟨?_, fun h call hle hlt => h call ((Nat.le_succ _).trans hle) hlt⟩
          intro h call hle hlt
          obtain rfl | hne := Nat.eq_or_lt_of_le hle
          · exact hfail
          · exact h call hne hlt
    · rw [if_neg hpos]
      obtain rfl : remaining = 0 := by omega
      refine ⟨s, 0, rfl, le_rfl, by simp [slotDatagrams], le_rfl, iff_of_true rfl fun call h1 h2 => ?_⟩
      omega

/-- **`flush_internal`** takes slots from the first on, leaves none of them pending, and takes all if no call fails. -/
theorem flushInternal_failing (hburst : s.producer.batchCount ≤ burst) :
    ∃ t n, s.flushInternal K.sendmmsg = some t ∧ n ≤ s.producer.batchCount ∧
      t = { s with
        wire := s.wire ++ s.slotDatagrams 0 n
        calls := t.calls
        producer := { s.producer with batchCount := 0 } } ∧
      (Unfailed K t ↔ Unfailed K s ∧ n = s.producer.batchCount) := by
  unfold flushInternal
  split_ifs with h0
  · refine ⟨s, 0, rfl, Nat.zero_le _, ?_, (and_iff_left h0.symm).symm⟩
    have hnone : s.slotDatagrams 0 0 = [] := rfl
    rw [hnone, List.append_nil, ← h0]
  · obtain ⟨t, n, hloop, hn, ht, hcalls, hall⟩ := flushLoop_failing K s 0 le_rfl hburst
    rw [hloop, Option.map_some]
    refine ⟨_, n, rfl, hn, ?_, ?_⟩
    · rw [ht]
    · rw [hall]
      constructor
      · exact fun h => ⟨fun call hlt => h call (hlt.trans_le hcalls), fun call _ hlt => h call hlt⟩
      · rintro ⟨hbefore, hduring⟩ call hlt
        obtain hlt' | hle := Nat.lt_or_ge call s.calls
        · exact hbefore call hlt'
        · exact hduring call hle hlt

end Flush

/-! ## The balance -/

section Balance

variable {burst n : ℕ} (K : FailingKernel burst) {s : Sender} {sock : Bool} {maxDatagramSize : ℕ} {ops : List Op}

/-- `send_frame` refuses the frame before it comes to the kernel. -/
def Op.refused (sock : Bool) (maxDatagramSize : ℕ) (op : Op) : Bool := op.result sock maxDatagramSize = some false

/-- More calls of `send_frame` have returned false than it refused: one of them told of a failure. -/
def FailureReported (sock : Bool) (maxDatagramSize : ℕ) (ops : List Op) (s : Sender) : Prop :=
  ops.countP (Op.refused sock maxDatagramSize) < s.returned.count false

/-- Every frame that was reported as sent was taken, or is pending. -/
def Balanced (s : Sender) : Prop := s.returned.count true = s.wire.length + s.producer.batchCount

/-- After the operations `ops` of a run with batches: the frames that are neither taken nor pending. -/
structure Batching (sock : Bool) (maxDatagramSize : ℕ) (ops : List Op) (lost : ℕ) (s : Sender) : Prop where
  valid : s.producer.sock = sock
  limit : s.producer.maxDatagramSize = maxDatagramSize
  burstSize : s.producer.burstSize = burst
  batchCount : s.producer.batchCount < burst
  refused : s.returned.count false = ops.countP (Op.refused sock maxDatagramSize)
  sum : s.returned.count true = s.wire.length + s.producer.batchCount + lost
  lost : lost = 0 ↔ Unfailed K s

/-- After the operations of a run without. -/
structure Immediate (sock : Bool) (maxDatagramSize : ℕ) (s : Sender) : Prop where
  valid : s.producer.sock = sock
  limit : s.producer.maxDatagramSize = maxDatagramSize
  burstSize : ¬ s.producer.burstSize > 1
  batchCount : s.producer.batchCount = 0
  sum : s.returned.count true = s.wire.length

/-- What a flush takes and what it loses were pending. -/
theorem flush_balance {lost : ℕ} (hburst : s.producer.batchCount ≤ burst) (hlost : lost = 0 ↔ Unfailed K s) :
    ∃ t lost', s.flushInternal K.sendmmsg = some t ∧ t.producer = { s.producer with batchCount := 0 } ∧
      t.returned = s.returned ∧
      t.wire.length + t.producer.batchCount + lost' = s.wire.length + s.producer.batchCount + lost ∧
      (lost' = 0 ↔ Unfailed K t) := by
  obtain ⟨t, n, hflush, hn, ht, hunfailed⟩ := flushInternal_failing K s hburst
  have hwire : t.wire.length = s.wire.length + n := by
    rw [ht, List.length_append, length_slotDatagrams]
  have hproducer : t.producer = { s.producer with batchCount := 0 } := by rw [ht]
  refine ⟨t, lost + (s.producer.batchCount - n), hflush, hproducer, by rw [ht], ?_, ?_⟩
  · rw [hwire, hproducer]
    dsimp only
    omega
  · rw [hunfailed, ← hlost]
    omega

theorem batching_create (hn : 1 < n) (sock : Bool) (maxDatagramSize : ℕ) (K : FailingKernel n) :
    Batching K sock maxDatagramSize [] 0 (create sock maxDatagramSize n) where
  valid := rfl
  limit := rfl
  burstSize := if_neg (by omega)
  batchCount := show 0 < n by omega
  refused := rfl
  sum := rfl
  lost := iff_of_true rfl fun _ hlt => absurd hlt (Nat.not_lt_zero _)

theorem immediate_create (hn : n ≤ 1) (sock : Bool) (maxDatagramSize : ℕ) :
    Immediate sock maxDatagramSize (create sock maxDatagramSize n) where
  valid := rfl
  limit := rfl
  burstSize := by
    show ¬ (if n < 1 then 1 else n) > 1
    split_ifs <;> omega
  batchCount := rfl
  sum := rfl

theorem refused_sendFrame (header : FrameHeaderV2) (payload : Option (List UInt8)) :
    Op.refused sock maxDatagramSize (.sendFrame header payload) = true ↔
      sock = false ∨ 64 + header.payloadBytes.toNat > maxDatagramSize := by
  rw [Op.refused, Op.result, decide_eq_true_iff, Option.some.injEq, Bool.and_eq_false_iff, decide_eq_false_iff_not,
    not_le]

/-- How `send_frame` ends: it refuses the frame, it fills a slot, or it calls `sendmsg`. -/
theorem sendFrameWith_cases (sendmsg : ℕ → ℤ) (sendmmsg : ℕ → UInt32 → ℤ) (header : FrameHeaderV2) (payload : Bool) :
    (s.producer.sock = false ∨ 64 + header.payloadBytes.toNat > s.producer.maxDatagramSize) ∧
        s.sendFrameWith sendmsg sendmmsg header payload = some (s.ret false) ∨
      ¬ (s.producer.sock = false ∨ 64 + header.payloadBytes.toNat > s.producer.maxDatagramSize) ∧
        s.producer.burstSize > 1 ∧
        s.sendFrameWith sendmsg sendmmsg header payload =
          (if s.producer.batchCount + 1 ≥ s.producer.burstSize then (s.fillSlot header payload).flushInternal sendmmsg
            else some (s.fillSlot header payload)).map (fun t => t.ret true) ∨
      ¬ s.producer.burstSize > 1 ∧ ∃ t : Sender, ∃ ok : Bool,
        s.sendFrameWith sendmsg sendmmsg header payload = some (t.ret ok) ∧ t.returned = s.returned ∧
          t.producer = { s.producer with sendCount := t.producer.sendCount } ∧
          t.wire.length = s.wire.length + if ok then 1 else 0 := by
  unfold sendFrameWith
  by_cases hsock : s.producer.sock = false
  · rw [if_pos hsock]
    exact .inl ⟨.inl hsock, rfl⟩
  by_cases hlarge : 64 + header.payloadBytes.toNat > s.producer.maxDatagramSize
  · rw [if_neg hsock, if_pos hlarge]
    exact .inl ⟨.inr hlarge, rfl⟩
  rw [if_neg hsock, if_neg hlarge]
  by_cases hburst : s.producer.burstSize > 1
  · rw [if_pos hburst]
    exact .inr (.inl ⟨not_or.mpr ⟨hsock, hlarge⟩, hburst, rfl⟩)
  · rw [if_neg hburst, sendScatterGather]
    refine .inr (.inr ⟨hburst, ?_⟩)
    split_ifs with hfail
    · exact ⟨s.took [], false, rfl, rfl, rfl, by simp [took]⟩
    · exact ⟨_, true, rfl, rfl, rfl, by simp [took]⟩

theorem count_ret (b : Bool) : (s.ret b).returned.count true = s.returned.count true + (if b then 1 else 0) ∧
    (s.ret b).returned.count false = s.returned.count false + if b then 0 else 1 := by
  show (s.returned ++ [b]).count true = _ ∧ (s.returned ++ [b]).count false = _
  rw [List.count_append, List.count_append]
  cases b <;> exact ⟨rfl, rfl⟩

/-- A frame for a slot, and perhaps a flush. -/
theorem fillSlot_balance {lost : ℕ} (h : Batching K sock maxDatagramSize ops lost s) (header : FrameHeaderV2)
    (payload : Bool) :
    ∃ t lost', (if s.producer.batchCount + 1 ≥ s.producer.burstSize then
        (s.fillSlot header payload).flushInternal K.sendmmsg else some (s.fillSlot header payload)) = some t ∧
      t.producer.sock = s.producer.sock ∧ t.producer.maxDatagramSize = s.producer.maxDatagramSize ∧
      t.producer.burstSize = s.producer.burstSize ∧ t.producer.batchCount < burst ∧ t.returned = s.returned ∧
      t.wire.length + t.producer.batchCount + lost' = s.wire.length + s.producer.batchCount + 1 + lost ∧
      (lost' = 0 ↔ Unfailed K t) := by
  have hcount := h.batchCount
  have hsize := h.burstSize
  by_cases hfull : s.producer.batchCount + 1 ≥ s.producer.burstSize
  · have hslots : (s.fillSlot header payload).producer.batchCount ≤ burst := by
      rw [fillSlot_batchCount]
      omega
    obtain ⟨t, lost', hflush, hproducer, hreturned, hsum, hlost⟩ := flush_balance K hslots h.lost
    refine ⟨t, lost', by rw [if_pos hfull, hflush], ?_⟩
    rw [hproducer] at hsum ⊢
    exact ⟨rfl, rfl, rfl, (Nat.zero_le _).trans_lt hcount, hreturned, hsum.trans (Nat.add_assoc _ _ 1 ▸ rfl), hlost⟩
  · refine ⟨_, lost, if_neg hfull, rfl, rfl, rfl, ?_, rfl, rfl, h.lost⟩
    rw [fillSlot_batchCount]
    omega

/-- One operation with batches. -/
theorem batching_step {lost : ℕ} (hburst : 1 < burst) (h : Batching K sock maxDatagramSize ops lost s) (op : Op) :
    ∃ t lost', stepWith K.sendmsg K.sendmmsg s op = some t ∧
      Batching K sock maxDatagramSize (ops ++ [op]) lost' t := by
  have hcount : (ops ++ [op]).countP (Op.refused sock maxDatagramSize) =
      ops.countP (Op.refused sock maxDatagramSize) + if op.refused sock maxDatagramSize then 1 else 0 := by
    rw [List.countP_append, List.countP_singleton]
  cases op with
  | overwrite bytes =>
    exact ⟨_, lost, rfl, h.valid, h.limit, h.burstSize, h.batchCount, h.refused.trans hcount.symm, h.sum, h.lost⟩
  | flush =>
    obtain ⟨t, lost', hflush, hproducer, hreturned, hsum, hlost⟩ := flush_balance K h.batchCount.le h.lost
    refine ⟨t, lost', hflush, ?_, ?_, ?_, ?_, ?_, ?_, hlost⟩
    · rw [hproducer, ← h.valid]
    · rw [hproducer, ← h.limit]
    · rw [hproducer, ← h.burstSize]
    · rw [hproducer]
      show 0 < burst
      omega
    · rw [hreturned, h.refused, hcount]
      rfl
    · rw [hreturned, h.sum, hsum]
  | sendFrame header payload =>
    obtain ⟨hrefuse, hst⟩ | ⟨haccept, -, hst⟩ | ⟨hone, -⟩ :=
      sendFrameWith_cases (s := { s with buffer := payload.getD s.buffer }) K.sendmsg K.sendmmsg header payload.isSome
    · have hop := (refused_sendFrame header payload).mpr (h.valid ▸ h.limit ▸ hrefuse)
      rw [if_pos hop, ← h.refused] at hcount
      obtain ⟨htrue, hfalse⟩ := count_ret (s := { s with buffer := payload.getD s.buffer }) false
      exact ⟨_, lost, hst, h.valid, h.limit, h.burstSize, h.batchCount, hfalse.trans hcount.symm, htrue.trans h.sum,
        h.lost⟩
    · have hop : ¬ Op.refused sock maxDatagramSize (.sendFrame header payload) = true :=
        mt (refused_sendFrame header payload).mp (h.valid ▸ h.limit ▸ haccept)
      rw [if_neg hop, Nat.add_zero, ← h.refused] at hcount
      have hbuffer : Batching K sock maxDatagramSize ops lost { s with buffer := payload.getD s.buffer } :=
        ⟨h.valid, h.limit, h.burstSize, h.batchCount, h.refused, h.sum, h.lost⟩
      obtain ⟨t, lost', hfill, hsock, hmax, hsize, hless, hreturned, hsum, hlost⟩ :=
        fillSlot_balance K hbuffer header payload.isSome
      rw [hfill] at hst
      obtain ⟨htrue, hfalse⟩ := count_ret (s := t) true
      refine ⟨_, lost', hst, hsock.trans h.valid, hmax.trans h.limit, hsize.trans h.burstSize, hless, ?_, ?_, hlost⟩
      · rw [hfalse, hreturned, hcount]
        rfl
      · rw [htrue, hreturned]
        show s.returned.count true + 1 = t.wire.length + t.producer.batchCount + lost'
        rw [h.sum, hsum]
        dsimp only
        omega
    · exact absurd (h.burstSize ▸ hburst) hone

/-- One operation without. -/
theorem immediate_step (sendmmsg : ℕ → UInt32 → ℤ) (sendmsg : ℕ → ℤ) (h : Immediate sock maxDatagramSize s) (op : Op) :
    ∃ t, stepWith sendmsg sendmmsg s op = some t ∧ Immediate sock maxDatagramSize t := by
  cases op with
  | overwrite bytes => exact ⟨_, rfl, h.valid, h.limit, h.burstSize, h.batchCount, h.sum⟩
  | flush => exact ⟨s, if_pos h.batchCount, h⟩
  | sendFrame header payload =>
    obtain ⟨-, hst⟩ | ⟨-, hburst, -⟩ | ⟨-, t, ok, hst, hreturned, hproducer, hwire⟩ :=
      sendFrameWith_cases (s := { s with buffer := payload.getD s.buffer }) sendmsg sendmmsg header payload.isSome
    · obtain ⟨htrue, -⟩ := count_ret (s := { s with buffer := payload.getD s.buffer }) false
      exact ⟨_, hst, h.valid, h.limit, h.burstSize, h.batchCount, htrue.trans h.sum⟩
    · exact absurd hburst h.burstSize
    · obtain ⟨htrue, -⟩ := count_ret (s := t) ok
      refine ⟨_, hst, ?_, ?_, ?_, ?_, ?_⟩
      · exact (congrArg UdpProducer.sock hproducer).trans h.valid
      · exact (congrArg UdpProducer.maxDatagramSize hproducer).trans h.limit
      · exact fun hburst => h.burstSize (congrArg UdpProducer.burstSize hproducer ▸ hburst)
      · exact (congrArg UdpProducer.batchCount hproducer).trans h.batchCount
      · rw [htrue, hreturned]
        show s.returned.count true + _ = t.wire.length
        rw [hwire, h.sum]

theorem batching_run (hburst : 1 < burst) {lost : ℕ} (h : Batching K sock maxDatagramSize ops lost s)
    (more : List Op) :
    ∃ t lost', s.runWith K.sendmsg K.sendmmsg more = some t ∧
      Batching K sock maxDatagramSize (ops ++ more) lost' t := by
  induction more generalizing s ops lost with
  | nil => exact ⟨s, lost, rfl, by rwa [List.append_nil]⟩
  | cons op more ih =>
    obtain ⟨t, lost', hst, ht⟩ := batching_step K hburst h op
    obtain ⟨u, lost'', hrun, hu⟩ := ih ht
    refine ⟨u, lost'', ?_, by rwa [List.append_assoc] at hu⟩
    rw [runWith, List.foldlM_cons, hst]
    exact hrun

theorem immediate_run (sendmsg : ℕ → ℤ) (sendmmsg : ℕ → UInt32 → ℤ) (h : Immediate sock maxDatagramSize s)
    (ops : List Op) : ∃ t, s.runWith sendmsg sendmmsg ops = some t ∧ Immediate sock maxDatagramSize t := by
  induction ops generalizing s with
  | nil => exact ⟨s, rfl, h⟩
  | cons op ops ih =>
    obtain ⟨t, hst, ht⟩ := immediate_step sendmmsg sendmsg h op
    obtain ⟨u, hrun, hu⟩ := ih ht
    refine ⟨u, ?_, hu⟩
    rw [runWith, List.foldlM_cons, hst]
    exact hrun

/-- **The frames reported as sent are those taken and those pending, or a call has reported a failure, exactly if there
are no batches or no `sendmmsg` has failed.**  Every operation ends, whatever the kernel does. -/
theorem balance_iff (sock : Bool) (maxDatagramSize n : ℕ) (K : FailingKernel n) (ops : List Op) :
    ∃ s, (create sock maxDatagramSize n).runWith K.sendmsg K.sendmmsg ops = some s ∧
      (Balanced s ∨ FailureReported sock maxDatagramSize ops s ↔ n ≤ 1 ∨ Unfailed K s) := by
  by_cases hn : n ≤ 1
  · obtain ⟨s, hrun, hs⟩ := immediate_run K.sendmsg K.sendmmsg (immediate_create hn sock maxDatagramSize) ops
    refine ⟨s, hrun, iff_of_true (.inl ?_) (.inl hn)⟩
    rw [Balanced, hs.sum, hs.batchCount, Nat.add_zero]
  · obtain ⟨s, lost, hrun, hs⟩ := batching_run K (by omega) (batching_create (by omega) sock maxDatagramSize K) ops
    have hunreported : ¬ FailureReported sock maxDatagramSize ops s := by
      rw [FailureReported, hs.refused, List.nil_append]
      exact Nat.lt_irrefl _
    refine ⟨s, hrun, ?_⟩
    rw [or_iff_left hunreported, or_iff_right hn, ← hs.lost, Balanced, hs.sum]
    omega

/-- A kernel that is down. -/
def failing (burst : ℕ) : FailingKernel burst where
  sendmsg _ := -1
  sendmmsg _ _ := -1
  fails _ := true
  neg _ _ _ := by decide
  pos _ _ h := nomatch h
  le _ _ h := nomatch h

/-- Two frames of a byte. -/
def twoFrames : List Op := [.sendFrame { payloadBytes := 1 } (some [7]), .sendFrame { payloadBytes := 1 } (some [8])]

/-- **Both frames of a batch are reported as sent, and are lost**: none was taken, none is pending, and no call has
returned false. -/
theorem frames_lost :
    ∃ s, (create true 1000 2).runWith (failing 2).sendmsg (failing 2).sendmmsg twoFrames = some s ∧
      s.returned = [true, true] ∧ s.wire = [] ∧ s.producer.batchCount = 0 ∧
      ¬ (Balanced s ∨ FailureReported true 1000 twoFrames s) := by
  refine ⟨_, rfl, rfl, rfl, rfl, ?_⟩
  unfold Balanced FailureReported
  decide

end Balance

end Sender

end Grebe
