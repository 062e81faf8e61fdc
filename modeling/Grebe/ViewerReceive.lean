import Mathlib.Tactic
import Grebe.Viewer

/-!
# Grebe.ViewerReceive — the steps of the source worker and `receive_frame`

The viewer has `receive_frame` as steps of the source worker, the transports have it as one call.  The two agree:

* `ReceiveStep`: what a step can do, with `stepReceive_cases` from the step itself;
* `path_receiveFrame`, `path_receiveSingle`: the steps do what the call does;
* `outcome`: what is to be returned, which no step changes; so `returned_pipe_iff` and `returned_udp` say that nothing
  but the result of the call is returned.
-/

namespace Grebe

open Lib

namespace Viewer

/-! ## What a step can do -/

section Steps

/-- The place in `receive_frame` is one of the transport's, `recvfrom` has a socket, and no more has been read than asked
for, nothing to a null pointer. -/
def ReceiveOk (sock : Bool) : ReceivePc → Transport → Prop
  | .enter, _ | .returned _, _ | .loop, .udp _ => True
  | .recv, .udp _ => sock = true
  | .readHead got, .pipe _ _ => got.length ≤ frameHeader.width
  | .readBody header got, .pipe _ _ =>
    got.length ≤ header.payloadBytes.toNat ∧ (header.nullCopy false = true → got = [])
  | _, _ => False

/-- A `read` that makes a step takes bytes off the front, or is at the end of the stream. -/
theorem readPipe_cases {buffered bytes : List UInt8} {writerOpen : Bool} {len count : ℕ} (hlen : 0 < len)
    (h : readPipe buffered writerOpen len count = some bytes) :
    (bytes = [] ∧ buffered = [] ∧ writerOpen = false) ∨
      (bytes ≠ [] ∧ bytes.length ≤ len ∧ bytes ++ buffered.drop bytes.length = buffered) := by
  unfold readPipe at h
  split_ifs at h with hempty hopen
  · cases h
    exact .inl ⟨rfl, by simpa using hempty, by simpa using hopen⟩
  · cases h
    have hne : buffered ≠ [] := by simpa using hempty
    have hpos := List.length_pos_iff.mpr hne
    refine .inr ⟨?_, ?_, ?_⟩
    · rw [← List.length_pos_iff, List.length_take]
      omega
    · rw [List.length_take]
      omega
    · rw [List.length_take]
      rcases le_total (max 1 (min count len)) buffered.length with hle | hle
      · rw [min_eq_left hle, List.take_append_drop]
      · rw [min_eq_right hle, List.take_of_length_le hle, List.drop_length, List.append_nil]

/-- With something there or the writer gone, a `read` makes a step. -/
theorem readPipe_some {buffered : List UInt8} {writerOpen : Bool} (len count : ℕ)
    (h : writerOpen = false ∨ buffered ≠ []) : ∃ bytes, readPipe buffered writerOpen len count = some bytes := by
  unfold readPipe
  split_ifs with hempty hopen
  · rcases h with h | h
    · exact absurd hopen (by simp [h])
    · exact absurd (List.isEmpty_iff.mp hempty) h
  · exact ⟨_, rfl⟩
  · exact ⟨_, rfl⟩

/-- The place after the header. -/
def afterHead (header : FrameHeaderV2) : ReceivePc :=
  if header.magic ≠ FRAME_HEADER_MAGIC then .returned none
  else if header.payloadBytes > 0 then .readBody header []
  else .returned (some (header, []))

/-- What a step can do, with `started_` set and `closed_` not. -/
inductive ReceiveStep (sock : Bool) : ReceivePc → Transport → ReceivePc → Transport → Prop
  | enterUdp {datagrams : List (List UInt8)} : ReceiveStep sock .enter (.udp datagrams) .loop (.udp datagrams)
  | test {datagrams : List (List UInt8)} : sock = true → ReceiveStep sock .loop (.udp datagrams) .recv (.udp datagrams)
  | noSocket {datagrams : List (List UInt8)} : sock = false →
      ReceiveStep sock .loop (.udp datagrams) (.returned none) (.udp datagrams)
  | timeout : ReceiveStep sock .recv (.udp []) .loop (.udp [])
  | skip {datagram : List UInt8} {datagrams : List (List UInt8)} : UdpConsumer.nullCopy datagram = false →
      UdpConsumer.extract datagram = none →
      ReceiveStep sock .recv (.udp (datagram :: datagrams)) .loop (.udp datagrams)
  | frame {datagram : List UInt8} {datagrams : List (List UInt8)} {result : FrameHeaderV2 × List Int16} :
      UdpConsumer.nullCopy datagram = false → UdpConsumer.extract datagram = some result →
      ReceiveStep sock .recv (.udp (datagram :: datagrams)) (.returned (some result)) (.udp datagrams)
  | enterPipe {buffered : List UInt8} {writerOpen : Bool} :
      ReceiveStep sock .enter (.pipe buffered writerOpen) (.readHead []) (.pipe buffered writerOpen)
  | head {got bytes rest : List UInt8} {writerOpen : Bool} : bytes ≠ [] →
      got.length + bytes.length ≤ frameHeader.width →
      ReceiveStep sock (.readHead got) (.pipe (bytes ++ rest) writerOpen) (.readHead (got ++ bytes)) (.pipe rest writerOpen)
  | headEnd {got : List UInt8} : got.length < frameHeader.width →
      ReceiveStep sock (.readHead got) (.pipe [] false) (.returned none) (.pipe [] false)
  | decoded {got buffered : List UInt8} {writerOpen : Bool} : got.length = frameHeader.width →
      ReceiveStep sock (.readHead got) (.pipe buffered writerOpen) (afterHead (frameHeader.decode got))
        (.pipe buffered writerOpen)
  | body {header : FrameHeaderV2} {got bytes rest : List UInt8} {writerOpen : Bool} :
      header.nullCopy false = false → bytes ≠ [] → got.length + bytes.length ≤ header.payloadBytes.toNat →
      ReceiveStep sock (.readBody header got) (.pipe (bytes ++ rest) writerOpen) (.readBody header (got ++ bytes))
        (.pipe rest writerOpen)
  | bodyEnd {header : FrameHeaderV2} {got : List UInt8} : got.length < header.payloadBytes.toNat →
      ReceiveStep sock (.readBody header got) (.pipe [] false) (.returned none) (.pipe [] false)
  | bodyNull {header : FrameHeaderV2} {got buffered : List UInt8} {writerOpen : Bool} :
      header.nullCopy false = true → writerOpen = false ∨ buffered ≠ [] →
      ReceiveStep sock (.readBody header got) (.pipe buffered writerOpen) (.returned none) (.pipe buffered writerOpen)
  | whole {header : FrameHeaderV2} {got buffered : List UInt8} {writerOpen : Bool} :
      header.nullCopy false = false → got.length = header.payloadBytes.toNat →
      ReceiveStep sock (.readBody header got) (.pipe buffered writerOpen)
        (.returned (some (header, sample.decodeAll (header.payloadBytes.toNat / 2) got))) (.pipe buffered writerOpen)

variable {sock : Bool} {pc pc' : ReceivePc} {t t' : Transport}

theorem stepReceive_cases {count : ℕ} (hok : ReceiveOk sock pc t)
    (hst : stepReceive true false sock count pc t = some (pc', t')) : ReceiveStep sock pc t pc' t' := by
  cases t with
  | udp datagrams =>
    cases pc with
    | enter =>
      cases hst
      exact .enterUdp
    | loop =>
      cases sock with
      | true =>
        cases hst
        exact .test rfl
      | false =>
        cases hst
        exact .noSocket rfl
    | recv =>
      rcases datagrams with _ | ⟨d, ds⟩
      · cases hst
        exact .timeout
      · simp only [stepReceive] at hst
        split_ifs at hst with hnull
        have hcopy : UdpConsumer.nullCopy d = false := Bool.eq_false_of_not_eq_true hnull
        rcases he : UdpConsumer.extract d with _ | result
        · rw [he] at hst
          cases hst
          exact .skip hcopy he
        · rw [he] at hst
          cases hst
          exact .frame hcopy he
    | readHead got => exact hok.elim
    | readBody header got => exact hok.elim
    | returned result => cases hst
  | pipe buffered writerOpen =>
    cases pc with
    | enter =>
      cases hst
      exact .enterPipe
    | loop => exact hok.elim
    | recv => exact hok.elim
    | readHead got =>
      simp only [stepReceive] at hst
      by_cases hlt : got.length < frameHeader.width
      · rw [if_pos hlt, Option.map_eq_some_iff] at hst
        obtain ⟨bytes, hread, hst⟩ := hst
        rcases readPipe_cases (by omega) hread with ⟨rfl, rfl, rfl⟩ | ⟨hne, hle, hsplit⟩
        · cases hst
          exact .headEnd hlt
        · rw [if_neg (by simpa using hne)] at hst
          cases hst
          have hstep : ReceiveStep sock (.readHead got) (.pipe (bytes ++ buffered.drop bytes.length) writerOpen)
            (.readHead (got ++ bytes)) (.pipe (buffered.drop bytes.length) writerOpen) := .head hne (by omega)
          rwa [hsplit] at hstep
      · rw [if_neg hlt] at hst
        cases hst
        exact .decoded (le_antisymm hok (not_lt.mp hlt))
    | readBody header got =>
      simp only [stepReceive] at hst
      by_cases hnull : header.nullCopy false = true
      · rw [if_pos hnull, Option.map_eq_some_iff] at hst
        obtain ⟨bytes, hread, hst⟩ := hst
        cases hst
        have hlen : 0 < header.payloadBytes.toNat - got.length := by
          rw [hok.2 hnull, List.length_nil, (nullCopy_iff.mp hnull).1]
          exact Nat.one_pos
        rcases readPipe_cases hlen hread with ⟨-, -, hopen⟩ | ⟨hne, -, hsplit⟩
        · exact .bodyNull hnull (.inl hopen)
        · exact .bodyNull hnull (.inr fun hnil => hne (by rw [hnil] at hsplit; exact (List.append_eq_nil_iff.mp hsplit).1))
      have hcopy : header.nullCopy false = false := Bool.eq_false_of_not_eq_true hnull
      rw [if_neg hnull] at hst
      by_cases hlt : got.length < header.payloadBytes.toNat
      · rw [if_pos hlt, Option.map_eq_some_iff] at hst
        obtain ⟨bytes, hread, hst⟩ := hst
        rcases readPipe_cases (by omega) hread with ⟨rfl, rfl, rfl⟩ | ⟨hne, hle, hsplit⟩
        · cases hst
          exact .bodyEnd hlt
        · rw [if_neg (by simpa using hne)] at hst
          cases hst
          have hstep : ReceiveStep sock (.readBody header got)
            (.pipe (bytes ++ buffered.drop bytes.length) writerOpen) (.readBody header (got ++ bytes))
            (.pipe (buffered.drop bytes.length) writerOpen) := .body hcopy hne (by omega)
          rwa [hsplit] at hstep
      · rw [if_neg hlt] at hst
        cases hst
        exact .whole hcopy (le_antisymm hok.1 (not_lt.mp hlt))
    | returned result => cases hst

/-- After the header there is either a payload to read, or nothing. -/
theorem afterHead_cases (header : FrameHeaderV2) :
    (header.magic ≠ FRAME_HEADER_MAGIC ∧ afterHead header = .returned none) ∨
      (header.magic = FRAME_HEADER_MAGIC ∧ 0 < header.payloadBytes.toNat ∧ afterHead header = .readBody header []) ∨
      (header.magic = FRAME_HEADER_MAGIC ∧ header.payloadBytes = 0 ∧
        afterHead header = .returned (some (header, []))) := by
  unfold afterHead
  split_ifs with hmagic hpos
  · exact .inl ⟨hmagic, rfl⟩
  · exact .inr (.inl ⟨not_not.mp hmagic, hpos, rfl⟩)
  · exact .inr (.inr ⟨not_not.mp hmagic, eq_zero_of_not_pos hpos, rfl⟩)

theorem ReceiveStep.ok (hst : ReceiveStep sock pc t pc' t') : ReceiveOk sock pc' t' := by
  cases hst with
  | enterUdp | noSocket _ | timeout | skip _ _ | frame _ _ | headEnd _ | bodyEnd _ | bodyNull _ _ | whole _ _ => trivial
  | test hsock => exact hsock
  | enterPipe => exact Nat.zero_le _
  | head _ hle => exact (List.length_append).trans_le hle
  | body hcopy _ hle => exact ⟨(List.length_append).trans_le hle, fun hnull => by simp [hcopy] at hnull⟩
  | @decoded got _ _ _ =>
    obtain ⟨-, h⟩ | ⟨-, -, h⟩ | ⟨-, -, h⟩ := afterHead_cases (frameHeader.decode got)
    · rw [h]
      trivial
    · rw [h]
      exact ⟨Nat.zero_le _, fun _ => rfl⟩
    · rw [h]
      trivial

end Steps

/-! ## The call as a whole -/

section Call

/-- The source worker in `read_frame`, with a socket or a pipe and nothing more to come. -/
def receiving : Lts (ReceivePc × Transport) ℕ where
  init s := s.1 = .enter
  step s count := stepReceive true false true count s.1 s.2

variable (k : ReadKernel)

/-- What a kernel yields is what a `read` of its count yields: at the end of the stream that is nothing. -/
theorem readPipe_count {p : PipeEnd} {len : ℕ} (hlen : 0 < len) :
    readPipe p.input false len (k.count p.call len p.input.length).toNat =
      some (p.input.take (k.count p.call len p.input.length).toNat) := by
  have havailable := k.le_available p.call len p.input.length
  have hle := k.le_len p.call len p.input.length
  unfold readPipe
  by_cases hempty : p.input.isEmpty = true
  · rw [if_pos hempty, List.isEmpty_iff.mp hempty, List.take_nil]
    rfl
  · have hpos := k.pos p.call len p.input.length hlen (List.length_pos_iff.mpr (by simpa using hempty))
    have hmax : max 1 (min (k.count p.call len p.input.length).toNat len) =
        (k.count p.call len p.input.length).toNat := by omega
    rw [if_neg hempty, hmax]

/-- **A loop of reads is `read_all`**: `place` is the place in the loop, which has `got` of the `need` bytes. -/
theorem path_readAll (place : List UInt8 → ReceivePc) (need : ℕ)
    (hplace : ∀ got buffered count, got.length < need →
      stepReceive true false true count (place got) (.pipe buffered false) =
        (readPipe buffered false (need - got.length) count).map fun bytes =>
          (if bytes.isEmpty then .returned none else place (got ++ bytes), .pipe (buffered.drop bytes.length) false))
    (p : PipeEnd) (got : List UInt8) {l : ℕ} (hl : got.length + l = need) :
    receiving.CanReach (fun _ => True) (place got, .pipe p.input false)
      ((readAll k.count p l).1.elim (.returned none) fun bytes => place (got ++ bytes),
        .pipe (readAll k.count p l).2.input false) := by
  induction hm : l using Nat.strong_induction_on generalizing p got l with
  | _ m ih =>
    subst hm
    unfold readAll
    by_cases h0 : l > 0
    · have hstep := hplace got p.input (k.count p.call l p.input.length).toNat (by omega)
      have hneed : need - got.length = l := by omega
      rw [hneed, readPipe_count k h0, Option.map_some] at hstep
      have havailable := k.le_available p.call l p.input.length
      have hle := k.le_len p.call l p.input.length
      rw [dif_pos h0]
      by_cases hn : k.count p.call l p.input.length ≤ 0
      · -- the end of the stream
        have hzero : (k.count p.call l p.input.length).toNat = 0 := by omega
        rw [hzero] at hstep
        simp only [dif_pos hn]
        exact .single trivial hstep
      · obtain ⟨n, hcount⟩ : ∃ n : ℕ, k.count p.call l p.input.length = n :=
          ⟨_, (Int.toNat_of_nonneg (by omega)).symm⟩
        rw [hcount] at hn havailable hle hstep
        have hlen : (p.input.take n).length = n := by rw [List.length_take]; omega
        have hne : ¬ (p.input.take n).isEmpty = true := by
          rw [List.isEmpty_iff_length_eq_zero, hlen]
          omega
        rw [Int.toNat_natCast, if_neg hne, hlen] at hstep
        have hrest := @ih (l - n) (by omega) ⟨p.input.drop n, p.call + 1⟩ (got ++ p.input.take n) (l - n)
          (by rw [List.length_append, hlen]; omega) rfl
        refine .head trivial hstep ?_
        simp only [hcount, dif_neg hn, Int.toNat_natCast]
        rcases hrec : readAll k.count ⟨p.input.drop n, p.call + 1⟩ (l - n) with ⟨_ | bytes, q⟩
        · rw [hrec] at hrest
          exact hrest
        · rw [hrec] at hrest
          simpa only [Option.elim_some, Option.map_some, List.append_assoc] using hrest
    · obtain rfl : l = 0 := by omega
      simpa using Lts.CanReach.refl _

/-- **The steps of the worker are `PipeConsumer::receive_frame`**, at the end of a stream that a kernel cuts up. -/
theorem path_receiveFrame (p : PipeEnd) :
    receiving.CanReach (fun _ => True) (.enter, .pipe p.input false)
      (.returned (PipeConsumer.receiveFrame k.count false p).1,
        .pipe (PipeConsumer.receiveFrame k.count false p).2.input false) := by
  have henter : receiving.CanReach (fun _ => True) (.enter, .pipe p.input false)
      (.readHead [], .pipe p.input false) := .single (l := 0) trivial rfl
  have hhead := path_readAll k .readHead frameHeader.width
    (fun got buffered count hlt => by rw [stepReceive, if_pos hlt]) p [] (Nat.zero_add _)
  refine henter.trans (hhead.trans ?_)
  unfold PipeConsumer.receiveFrame
  rcases hread : readAll k.count p frameHeader.width with ⟨_ | head, q⟩
  · exact .refl _
  · have hlen : head.length = frameHeader.width := length_readAll k hread
    dsimp only [Option.elim_some, List.nil_append]
    generalize hheader : frameHeader.decode head = header
    have hdecoded : receiving.CanReach (fun _ => True) (.readHead head, .pipe q.input false)
        (afterHead header, .pipe q.input false) := by
      subst hheader
      exact .single (l := 0) trivial (if_neg (by omega))
    apply hdecoded.trans
    obtain ⟨hmagic, h⟩ | ⟨hmagic, hpos, h⟩ | ⟨hmagic, hzero, h⟩ := afterHead_cases header
    · rw [h, if_pos hmagic]
      exact .refl _
    · rw [h, if_neg (not_not.mpr hmagic)]
      by_cases hnull : header.nullCopy false = true
      · -- the `read` of the payload fails
        obtain ⟨bytes, hread⟩ := readPipe_some (header.payloadBytes.toNat - 0) 0 (.inl rfl : false = false ∨ q.input ≠ [])
        rw [if_pos hnull]
        refine .single (l := 0) trivial ?_
        show stepReceive true false true 0 (.readBody header []) (.pipe q.input false) = some _
        rw [stepReceive, if_pos hnull, List.length_nil, hread, Option.map_some]
      -- a payload follows
      have hbody := path_readAll k (.readBody header) header.payloadBytes.toNat
        (fun got buffered count hlt => by rw [stepReceive, if_neg hnull, if_pos hlt]) q [] (Nat.zero_add _)
      rw [if_neg hnull, if_pos (show header.payloadBytes > 0 from hpos)]
      apply hbody.trans
      rcases hread' : readAll k.count q header.payloadBytes.toNat with ⟨_ | body, r⟩
      · exact .refl _
      · have hlen' : body.length = header.payloadBytes.toNat := length_readAll k hread'
        refine .single (l := 0) trivial ?_
        show stepReceive true false true 0 (.readBody header ([] ++ body)) (.pipe r.input false) = some _
        rw [List.nil_append, stepReceive, if_neg hnull, if_neg (by omega)]
    · have hplace : header.nullCopy false = false := nullCopy_of_even false (by rw [hzero]; rfl)
      rw [h, if_neg (not_not.mpr hmagic), if_neg (by simp [hplace]), if_neg (by rw [hzero]; decide)]
      exact .refl _

/-- **In UDP mode they are `UdpConsumer::receive_single`**, if no datagram ends the program; with no frame among them the
worker is back at the test of `closed_`. -/
theorem path_receiveSingle {datagrams : List (List UInt8)} (hcopy : ∀ d ∈ datagrams, UdpConsumer.nullCopy d = false) :
    ∃ rest, (UdpConsumer.receiveSingle (datagrams.map .got)).2 = rest.map .got ∧
      receiving.CanReach (fun _ => True) (.loop, .udp datagrams)
        ((UdpConsumer.receiveSingle (datagrams.map .got)).1.elim .loop fun frame => .returned (some frame),
          .udp rest) := by
  induction datagrams with
  | nil => exact ⟨[], rfl, .refl _⟩
  | cons d ds ih =>
    obtain ⟨hd, hds⟩ := List.forall_mem_cons.mp hcopy
    have hloop : receiving.step (.loop, .udp (d :: ds)) 0 = some (.recv, .udp (d :: ds)) := rfl
    rcases he : UdpConsumer.extract d with _ | frame
    · obtain ⟨rest, hrest, hpath⟩ := ih hds
      have hskip : receiving.step (.recv, .udp (d :: ds)) 0 = some (.loop, .udp ds) := by
        simp [receiving, stepReceive, he, hd]
      simp only [List.map_cons, UdpConsumer.receiveSingle, he, hd, Bool.false_eq_true, if_false]
      exact ⟨rest, hrest, .head trivial hloop (.head trivial hskip hpath)⟩
    · have hgot : receiving.step (.recv, .udp (d :: ds)) 0 = some (.returned (some frame), .udp ds) := by
        simp [receiving, stepReceive, he, hd]
      simp only [List.map_cons, UdpConsumer.receiveSingle, he, hd, Bool.false_eq_true, if_false]
      exact ⟨ds, rfl, .head trivial hloop (.single trivial hgot)⟩

end Call

/-! ## Nothing else is returned -/

section Outcome

/-- What is to be returned, as things are. -/
def outcome : ReceivePc → Transport → Option (FrameHeaderV2 × List Int16)
  | .returned result, _ => result
  | _, .udp datagrams => (UdpConsumer.receiveSingle (datagrams.map .got)).1
  | .readHead got, .pipe buffered _ => message (got ++ buffered)
  | .readBody header got, .pipe buffered _ => header.withSamples (got ++ buffered)
  | _, .pipe buffered _ => message buffered

variable {pc pc' : ReceivePc} {t t' : Transport}

/-- No step changes it. -/
theorem ReceiveStep.outcome_eq (hst : ReceiveStep true pc t pc' t') : outcome pc' t' = outcome pc t := by
  cases hst with
  | enterUdp | test _ | timeout | enterPipe => rfl
  | noSocket hsock => cases hsock
  | skip hcopy he | frame hcopy he => simp [outcome, UdpConsumer.receiveSingle, he, hcopy]
  | head _ _ | body _ _ _ => simp only [outcome, List.append_assoc]
  | headEnd hlt =>
    rw [outcome, outcome, message, if_neg]
    simp only [wholeMessage, List.append_nil, decide_eq_true_eq]
    omega
  | @decoded got buffered _ hgot =>
    rw [outcome, message_append hgot]
    obtain ⟨hmagic, h⟩ | ⟨hmagic, -, h⟩ | ⟨hmagic, hzero, h⟩ := afterHead_cases (frameHeader.decode got)
    · rw [h, if_neg hmagic]
      rfl
    · rw [h, if_pos hmagic]
      rfl
    · have hfit : (frameHeader.decode got).payloadBytes.toNat ≤ buffered.length ∧
          (frameHeader.decode got).nullCopy false = false :=
        ⟨by rw [hzero]; exact Nat.zero_le _, nullCopy_of_even false (by rw [hzero]; rfl)⟩
      rw [h, if_pos hmagic, FrameHeaderV2.withSamples, if_pos hfit, FrameHeaderV2.samples, hzero]
      rfl
  | bodyEnd hlt =>
    rw [outcome, outcome, FrameHeaderV2.withSamples, if_neg]
    rw [List.append_nil]
    omega
  | bodyNull hnull _ =>
    rw [outcome, outcome, FrameHeaderV2.withSamples, if_neg fun h => by simp [hnull] at h]
  | whole hcopy hgot =>
    rw [outcome, outcome, FrameHeaderV2.withSamples, if_pos ⟨by rw [List.length_append]; omega, hcopy⟩,
      FrameHeaderV2.samples, List.take_left' hgot]

theorem outcome_path {s s' : ReceivePc × Transport} (h : receiving.CanReach (fun _ => True) s s')
    (hok : ReceiveOk true s.1 s.2) : outcome s'.1 s'.2 = outcome s.1 s.2 := by
  induction h with
  | refl s => rfl
  | head _ hst _ ih =>
    have hstep := stepReceive_cases hok hst
    rw [ih hstep.ok, hstep.outcome_eq]

/-- **In pipe mode the worker returns what `receive_frame` returns**, once the writer has closed its end. -/
theorem returned_pipe_iff (k : ReadKernel) (p : PipeEnd) (result : Option (FrameHeaderV2 × List Int16)) :
    (∃ t, receiving.CanReach (fun _ => True) (.enter, .pipe p.input false) (.returned result, t)) ↔
      result = (PipeConsumer.receiveFrame k.count false p).1 := by
  have hpath := path_receiveFrame k p
  constructor
  · rintro ⟨t, h⟩
    have hresult : result = message p.input := outcome_path h trivial
    exact hresult.trans (outcome_path hpath trivial : _ = message p.input).symm
  · rintro rfl
    exact ⟨_, hpath⟩

/-- In UDP mode it returns what `receive_single` returns. -/
theorem returned_udp {datagrams : List (List UInt8)} {result : Option (FrameHeaderV2 × List Int16)}
    (h : receiving.CanReach (fun _ => True) (.enter, .udp datagrams) (.returned result, t)) :
    result = (UdpConsumer.receiveSingle (datagrams.map .got)).1 :=
  outcome_path h trivial

end Outcome

end Viewer

end Grebe
