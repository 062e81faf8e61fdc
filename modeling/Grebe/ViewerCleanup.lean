import Mathlib.Tactic
import Grebe.LinearRuntimeStop
import Grebe.ViewerReceive

/-!
# Grebe.ViewerCleanup — when closing the viewer comes to its end

`runtime.stop()` joins the source worker, and only after it the transport is closed.  So a worker in `receive_frame` has
to get out of it on what has come already.

* `Arrived`: what has come lets `receive_frame` return; `ReceiveStep.arrived_iff` and `receive_progress` say that the
  steps of the worker neither make nor break it, and come to an end with it.
* `cleanup_completes_iff`: from a state after the window is closed, the cleanup can come to its end if and only if the
  source worker is outside `process` or `Arrived` holds.
* `cleanup_stuck`: a run of the viewer in UDP mode, with no traffic, after which it cannot.
-/

namespace Grebe

open Lib

namespace Viewer

/-! ## What has arrived -/

section Arrived

/-- The bytes of a pipe that `receive_frame` can do with: a header, and if it is a good one its payload. -/
def EnoughBytes (input : List UInt8) : Prop :=
  let header := frameHeader.decode (input.take frameHeader.width)
  frameHeader.width ≤ input.length ∧
    (header.magic = FRAME_HEADER_MAGIC → frameHeader.width + header.payloadBytes.toNat ≤ input.length)

/-- What has come lets `receive_frame` return, or there is no socket.  Of the datagrams the first that is not skipped
counts, which must not end the program. -/
def Arrived (sock : Bool) : ReceivePc → Transport → Prop
  | .returned _, _ => True
  | _, .udp datagrams =>
    sock = false ∨ ∃ d, datagrams.find? UdpConsumer.accepts = some d ∧ UdpConsumer.nullCopy d = false
  | .readHead got, .pipe buffered writerOpen => writerOpen = false ∨ EnoughBytes (got ++ buffered)
  | .readBody header got, .pipe buffered writerOpen =>
    writerOpen = false ∨ header.payloadBytes.toNat ≤ got.length + buffered.length
  | _, .pipe buffered writerOpen => writerOpen = false ∨ EnoughBytes buffered

theorem extract_eq_none_iff {datagram : List UInt8} :
    UdpConsumer.extract datagram = none ↔ UdpConsumer.accepts datagram = false := by
  have h := UdpConsumer.extract_eq datagram
  rcases he : UdpConsumer.extract datagram with _ | frame
  · rcases ha : UdpConsumer.accepts datagram with _ | _
    · simp
    · simp [he, ha] at h
  · rcases ha : UdpConsumer.accepts datagram with _ | _
    · simp [he, ha] at h
    · simp

/-- What is copied is not skipped. -/
theorem nullCopy_eq_false {datagram : List UInt8} (h : UdpConsumer.accepts datagram = false) :
    UdpConsumer.nullCopy datagram = false := by
  by_contra hnull
  simp only [UdpConsumer.nullCopy, Bool.not_eq_false, decide_eq_true_eq] at hnull
  simp only [UdpConsumer.accepts, decide_eq_false_iff_not] at h
  exact h ⟨le_of_add_le_left hnull.1, hnull.2.1⟩

theorem enoughBytes_append {got buffered : List UInt8} (hgot : got.length = frameHeader.width) :
    EnoughBytes (got ++ buffered) ↔
      ((frameHeader.decode got).magic = FRAME_HEADER_MAGIC →
        (frameHeader.decode got).payloadBytes.toNat ≤ buffered.length) := by
  unfold EnoughBytes
  rw [List.take_left' hgot, List.length_append, hgot]
  constructor
  · intro h hmagic
    have := h.2 hmagic
    omega
  · intro h
    exact ⟨by omega, fun hmagic => by have := h hmagic; omega⟩

variable {sock : Bool} {pc pc' : ReceivePc} {t t' : Transport}

/-- **A step of the worker neither makes nor breaks it.** -/
theorem ReceiveStep.arrived_iff (hst : ReceiveStep sock pc t pc' t') : Arrived sock pc' t' ↔ Arrived sock pc t := by
  cases hst with
  | enterUdp | test _ | timeout | enterPipe => exact Iff.rfl
  | noSocket hsock => exact iff_of_true trivial (.inl hsock)
  | @skip datagram datagrams _ he =>
    have hskipped : ¬ UdpConsumer.accepts datagram = true := by rw [extract_eq_none_iff.mp he]; exact Bool.false_ne_true
    show _ ∨ _ ↔ _ ∨ ∃ d, (datagram :: datagrams).find? _ = some d ∧ _
    rw [List.find?_cons_of_neg hskipped]
  | @frame datagram _ _ hcopy he =>
    have haccepts : UdpConsumer.accepts datagram = true := by
      by_contra hne
      rw [extract_eq_none_iff.mpr (Bool.eq_false_of_not_eq_true hne)] at he
      cases he
    exact iff_of_true trivial (.inr ⟨datagram, List.find?_cons_of_pos haccepts, hcopy⟩)
  | head _ _ =>
    show _ ∨ EnoughBytes _ ↔ _ ∨ EnoughBytes _
    rw [List.append_assoc]
  | body _ _ _ =>
    show _ ∨ _ ≤ _ ↔ _ ∨ _ ≤ _
    rw [List.length_append, List.length_append, Nat.add_assoc]
  | headEnd _ | bodyEnd _ => exact iff_of_true trivial (.inl rfl)
  | @decoded got _ _ hgot =>
    show _ ↔ _ ∨ EnoughBytes _
    rw [enoughBytes_append hgot]
    obtain ⟨hmagic, h⟩ | ⟨hmagic, -, h⟩ | ⟨-, hzero, h⟩ := afterHead_cases (frameHeader.decode got)
    · rw [h]
      exact iff_of_true trivial (.inr fun hgood => absurd hgood hmagic)
    · rw [h]
      show _ ∨ _ ≤ _ ↔ _
      rw [List.length_nil, Nat.zero_add]
      exact or_congr_right ⟨fun hle _ => hle, fun hle => hle hmagic⟩
    · rw [h, hzero]
      exact iff_of_true trivial (.inr fun _ => Nat.zero_le _)
  | @bodyNull header got buffered _ hnull hread =>
    have hone := (nullCopy_iff.mp hnull).1
    refine iff_of_true trivial (hread.imp_right fun hne => ?_)
    have hpos := List.length_pos_iff.mpr hne
    omega
  | whole _ hgot => exact iff_of_true trivial (.inr (by omega))

/-- At most how many steps the worker makes in `receive_frame`, once enough has arrived. -/
def receiveLeft : ReceivePc → Transport → ℕ
  | .returned _, _ => 0
  | .enter, .udp datagrams => 2 * datagrams.length + 3
  | .loop, .udp datagrams => 2 * datagrams.length + 2
  | .recv, .udp datagrams => 2 * datagrams.length + 1
  | .enter, .pipe buffered _ => buffered.length + 4
  | .readHead _, .pipe buffered _ => buffered.length + 3
  | .readBody _ _, .pipe buffered _ => buffered.length + 2
  | _, _ => 0

theorem ReceiveStep.receiveLeft_lt (hst : ReceiveStep sock pc t pc' t') (hok : ReceiveOk sock pc t)
    (harrived : Arrived sock pc t) : receiveLeft pc' t' < receiveLeft pc t := by
  cases hst with
  | timeout =>
    -- with a frame on the socket there is no timeout
    obtain hsock | ⟨d, hd, -⟩ := harrived
    · exact absurd ((show sock = true from hok).symm.trans hsock) (by simp)
    · cases hd
  | skip _ _ =>
    simp only [receiveLeft, List.length_cons]
    omega
  | head hne _ | body _ hne _ =>
    have hpos := List.length_pos_iff.mpr hne
    simp only [receiveLeft, List.length_append]
    omega
  | @decoded got _ _ _ =>
    obtain ⟨-, h⟩ | ⟨-, -, h⟩ | ⟨-, -, h⟩ := afterHead_cases (frameHeader.decode got)
    all_goals
      rw [h]
      simp [receiveLeft]
  | _ => simp [receiveLeft]

/-- Where enough has arrived, the worker has a step. -/
theorem stepReceive_some (hok : ReceiveOk sock pc t) (harrived : Arrived sock pc t)
    (hreturned : ∀ result, pc ≠ .returned result) : ∃ r, stepReceive true false sock 1 pc t = some r := by
  cases t with
  | udp datagrams =>
    cases pc with
    | enter | loop => exact ⟨_, rfl⟩
    | recv =>
      rcases datagrams with _ | ⟨d, ds⟩
      · exact ⟨_, rfl⟩
      · have hcopy : UdpConsumer.nullCopy d = false := by
          rcases haccepts : UdpConsumer.accepts d with _ | _
          · exact nullCopy_eq_false haccepts
          obtain hsock | ⟨first, hfirst, hcopy⟩ := harrived
          · exact absurd ((show sock = true from hok).symm.trans hsock) (by simp)
          · rw [List.find?_cons_of_pos haccepts] at hfirst
            rwa [Option.some.inj hfirst]
        rcases he : UdpConsumer.extract d with _ | frame
        · exact ⟨(.loop, .udp ds), by simp [stepReceive, he, hcopy]⟩
        · exact ⟨(.returned (some frame), .udp ds), by simp [stepReceive, he, hcopy]⟩
    | readHead got => exact hok.elim
    | readBody header got => exact hok.elim
    | returned result => exact absurd rfl (hreturned result)
  | pipe buffered writerOpen =>
    cases pc with
    | enter => exact ⟨_, rfl⟩
    | loop => exact hok.elim
    | recv => exact hok.elim
    | readHead got =>
      by_cases hlt : got.length < frameHeader.width
      · have hsome : writerOpen = false ∨ buffered ≠ [] := by
          apply harrived.imp_right
          intro h hnil
          have hlen := h.1
          rw [hnil, List.append_nil] at hlen
          omega
        obtain ⟨bytes, hread⟩ := readPipe_some (frameHeader.width - got.length) 1 hsome
        exact ⟨_, by rw [stepReceive, if_pos hlt, hread, Option.map_some]⟩
      · exact ⟨_, by rw [stepReceive, if_neg hlt]⟩
    | readBody header got =>
      by_cases hnull : header.nullCopy false = true
      · have hsome : writerOpen = false ∨ buffered ≠ [] := by
          apply harrived.imp_right
          intro h hnil
          rw [hnil, hok.2 hnull, (nullCopy_iff.mp hnull).1] at h
          exact absurd h (by decide)
        obtain ⟨bytes, hread⟩ := readPipe_some (header.payloadBytes.toNat - got.length) 1 hsome
        exact ⟨_, by rw [stepReceive, if_pos hnull, hread, Option.map_some]⟩
      by_cases hlt : got.length < header.payloadBytes.toNat
      · have hsome : writerOpen = false ∨ buffered ≠ [] := by
          apply harrived.imp_right
          intro h hnil
          rw [hnil, List.length_nil] at h
          omega
        obtain ⟨bytes, hread⟩ := readPipe_some (header.payloadBytes.toNat - got.length) 1 hsome
        exact ⟨_, by rw [stepReceive, if_neg hnull, if_pos hlt, hread, Option.map_some]⟩
      · exact ⟨_, by rw [stepReceive, if_neg hnull, if_neg hlt]⟩
    | returned result => exact absurd rfl (hreturned result)

/-- **With enough there, the worker gets out of `receive_frame`.** -/
theorem receive_progress (hok : ReceiveOk sock pc t) (harrived : Arrived sock pc t)
    (hreturned : ∀ result, pc ≠ .returned result) :
    ∃ pc' t', stepReceive true false sock 1 pc t = some (pc', t') ∧ Arrived sock pc' t' ∧
      receiveLeft pc' t' < receiveLeft pc t := by
  obtain ⟨⟨pc', t'⟩, hst⟩ := stepReceive_some hok harrived hreturned
  have hstep := stepReceive_cases hok hst
  exact ⟨pc', t', hst, hstep.arrived_iff.mpr harrived, hstep.receiveLeft_lt hok harrived⟩

end Arrived

/-! ## Reachable states -/

section Reachable

/-- What holds of every reachable state. -/
structure Inv (v : Viewer) : Prop where
  runtime : (LinearRuntime.runtime stages).Reachable v.runtime
  receive : ReceiveOk v.sock v.receive v.transport
  /-- outside `process` the worker is not in `read_frame` -/
  outside : v.inProcess = false → v.receive = .enter
  /-- the transport is only closed after `runtime.stop()` -/
  usable : v.main = .running ∨ v.main = .stopRuntime → v.closed = false ∧ v.adapter.source.started = true
  polling : v.main = .running → v.runtime.main = .polling
  stopped : v.main ≠ .running → v.main ≠ .stopRuntime → v.runtime.main = .stopped

variable {v v' : Viewer}

theorem inProcess_iff : v.inProcess = true ↔ ∃ input, (v.runtime.workers 0).pc = .process input := by
  unfold inProcess
  split
  · rename_i input hpc
    simp [hpc]
  · rename_i hpc
    simpa using hpc

theorem inProcess_eq_false_iff : v.inProcess = false ↔ ∀ input, (v.runtime.workers 0).pc ≠ .process input := by
  rw [← Bool.not_eq_true, inProcess_iff, not_exists]

/-- A worker in `process` stays there in every step of the runtime that the viewer allows. -/
theorem inProcess_runtime {l : LinearRuntime.Label (Frame Double)} {r : LinearRuntime (Frame Double)}
    (hallows : v.allows l = true) (hst : v.runtime.step stages.length l = some r) (hin : v.inProcess = true) :
    (r.workers 0).pc = (v.runtime.workers 0).pc := by
  obtain ⟨input, hpc⟩ := inProcess_iff.mp hin
  obtain ⟨i, w, rfl, hw⟩ | hworkers := LinearRuntime.step_workers hst
  · obtain ⟨-, -, -, hworkers⟩ := LinearRuntime.stepWorker_frame hw
    by_cases hi : i = 0
    · subst hi
      cases w with
      | process produced result ns => simp [allows] at hallows
      | _ => simp [LinearRuntime.stepWorker, hpc] at hw
    · rw [hworkers 0 (Ne.symm hi)]
  · rw [hworkers]

/-- The runtime is stopped only by the cleanup. -/
theorem allows_main {l : LinearRuntime.Label (Frame Double)} {r : LinearRuntime (Frame Double)}
    (hallows : v.allows l = true) (hst : v.runtime.step stages.length l = some r) (hmain : v.main ≠ .stopRuntime) :
    r.main = v.runtime.main := by
  cases l with
  | worker i l =>
    simp only [LinearRuntime.step] at hst
    split_ifs at hst
    exact (LinearRuntime.stepWorker_frame hst).1
  | pollOutput =>
    rcases LinearRuntime.step_cases hst with _ | _ | _ | _ | _ | ⟨hl, -, -⟩
    case stopping => simp at hl
    all_goals rfl
  | stop => simp [allows, hmain] at hallows
  | shutdown => simp [allows, hmain] at hallows
  | join => simp [allows, hmain] at hallows

/-- `process` of the adapter, once `receive_frame` has returned: at most one frame, and no change of `started_`. -/
theorem process_returned (a : DataSourceAdapter Unit) (result : Option (FrameHeaderV2 × List Int16)) :
    (a.process fun _ => (result, ())).2.1.length ≤ 1 ∧
      (a.process fun _ => (result, ())).2.2.source.started = a.source.started := by
  simp only [DataSourceAdapter.process, TransportSource.readFrame]
  by_cases hstarted : a.source.started = false
  · simp [hstarted]
  · rcases result with _ | ⟨hdr, payload⟩
    · simp [hstarted]
    · simp [hstarted]

/-- What comes from outside does not move the worker. -/
theorem receiveOk_udp {sock : Bool} {pc : ReceivePc} {datagrams datagrams' : List (List UInt8)}
    (h : ReceiveOk sock pc (.udp datagrams)) : ReceiveOk sock pc (.udp datagrams') := by
  cases pc <;> exact h

theorem receiveOk_pipe {sock : Bool} {pc : ReceivePc} {buffered buffered' : List UInt8} {writerOpen writerOpen' : Bool}
    (h : ReceiveOk sock pc (.pipe buffered writerOpen)) : ReceiveOk sock pc (.pipe buffered' writerOpen') := by
  cases pc <;> exact h

/-- `runtime.stop()` has not returned while the source worker is in `process`. -/
theorem Inv.not_stopped (h : v.Inv) (hin : v.inProcess = true) : v.runtime.main ≠ .stopped := by
  intro hstopped
  obtain ⟨input, hpc⟩ := inProcess_iff.mp hin
  have hjoined := LinearRuntime.reachable_joined h.runtime 0
  rw [hstopped, hpc] at hjoined
  cases hjoined (by decide)

/-- And so the transport is open. -/
theorem Inv.usable_of_inProcess (h : v.Inv) (hin : v.inProcess = true) :
    v.closed = false ∧ v.adapter.source.started = true := by
  by_cases hrunning : v.main = .running
  · exact h.usable (.inl hrunning)
  by_cases hstopping : v.main = .stopRuntime
  · exact h.usable (.inr hstopping)
  · exact absurd (h.stopped hrunning hstopping) (h.not_stopped hin)

/-- A step of the runtime, of which the source worker may not leave `process`. -/
theorem Inv.runtimeStep (h : v.Inv) {l : LinearRuntime.Label (Frame Double)} {r : LinearRuntime (Frame Double)}
    (hallows : v.allows l = true) (hr : v.runtime.step stages.length l = some r) : Inv { v with runtime := r } where
  runtime := .step h.runtime trivial hr
  receive := h.receive
  outside hout := by
    apply h.outside
    by_contra hin
    have hin' := Bool.eq_true_of_not_eq_false hin
    obtain ⟨input, hpc⟩ := inProcess_iff.mp hin'
    exact inProcess_eq_false_iff.mp hout input ((inProcess_runtime hallows hr hin').trans hpc)
  usable := h.usable
  polling hmain := by
    have hkept : r.main = v.runtime.main := allows_main hallows hr (by rw [show v.main = _ from hmain]; simp)
    exact hkept.trans (h.polling hmain)
  stopped hmain hmain' := (allows_main hallows hr hmain').trans (h.stopped hmain hmain')

/-- The source worker leaves `process`. -/
theorem Inv.processedStep (h : v.Inv) {produced : List (Frame Double)} {status : StageResult} {ns : ℕ}
    {result : Option (FrameHeaderV2 × List Int16)} {r : LinearRuntime (Frame Double)}
    (hr : v.runtime.step stages.length (.worker 0 (.process produced status ns)) = some r) :
    Inv { v with runtime := r, adapter := (v.adapter.process fun _ => (result, ())).2.2, receive := .enter } := by
  have hmain : r.main = v.runtime.main := by
    simp only [LinearRuntime.step] at hr
    split_ifs at hr
    exact (LinearRuntime.stepWorker_frame hr).1
  have hreach : (LinearRuntime.runtime stages).Reachable r :=
    .step (l := .worker 0 (.process produced status ns)) h.runtime trivial hr
  refine ⟨hreach, trivial, fun _ => rfl, ?_, ?_, ?_⟩
  · intro hu
    obtain ⟨hclosed, hstarted⟩ := h.usable hu
    exact ⟨hclosed, (process_returned v.adapter result).2.trans hstarted⟩
  · intro hm
    exact hmain.trans (h.polling hm)
  · intro hm hm'
    exact hmain.trans (h.stopped hm hm')

/-- A step of the cleanup after `runtime.stop()`. -/
theorem Inv.cleanupStep (h : v.Inv) {closed : Bool} {adapter : DataSourceAdapter Unit} {main : ViewerPc}
    (hstopped : v.runtime.main = .stopped) (hrunning : main ≠ .running) (hstopping : main ≠ .stopRuntime) :
    Inv { v with closed := closed, adapter := adapter, main := main } :=
  ⟨h.runtime, h.receive, h.outside, fun hu => (hu.elim hrunning hstopping).elim, fun hm => absurd hm hrunning,
    fun _ _ => hstopped⟩

theorem inv_step {l : Label} (h : v.Inv) (hst : v.step l = some v') : v'.Inv := by
  rcases step_cases hst with ⟨hallows, hr⟩ | ⟨hin, hr⟩ | ⟨hreceive, hr⟩ | hmain | ⟨hmain, hstopped⟩ | hmain | hmain |
    ⟨ht, -⟩ | ht | ht
  case runtime => exact h.runtimeStep hallows hr
  case receive =>
    obtain ⟨hclosed, hstarted⟩ := h.usable_of_inProcess hin
    rw [hclosed, hstarted] at hr
    refine ⟨h.runtime, (stepReceive_cases h.receive hr).ok, ?_, h.usable, h.polling, h.stopped⟩
    intro hout
    exact absurd (hin.symm.trans hout) (by simp)
  case processed => exact h.processedStep hr
  case closeWindow =>
    exact ⟨h.runtime, h.receive, h.outside, fun _ => h.usable (.inl hmain), nofun, fun _ hm => absurd rfl hm⟩
  case runtimeStopped => exact h.cleanupStep hstopped nofun nofun
  case transportClosed => exact h.cleanupStep (h.stopped (by simp [hmain]) (by simp [hmain])) nofun nofun
  case sourceStopped => exact h.cleanupStep (h.stopped (by simp [hmain]) (by simp [hmain])) nofun nofun
  case datagram =>
    exact ⟨h.runtime, receiveOk_udp (ht ▸ h.receive), h.outside, h.usable, h.polling, h.stopped⟩
  case data | writerCloses =>
    exact ⟨h.runtime, receiveOk_pipe (ht ▸ h.receive), h.outside, h.usable, h.polling, h.stopped⟩

theorem reachable_inv (hv : viewer.Reachable v) : v.Inv := by
  refine hv.invariant (I := Inv) ?_ fun _ _ _ h _ hst => inv_step h hst
  rintro v (⟨sock, rfl⟩ | rfl)
  · exact ⟨.init rfl, trivial, fun _ => rfl, fun _ => ⟨rfl, rfl⟩, fun _ => rfl, fun h => absurd rfl h⟩
  · exact ⟨.init rfl, trivial, fun _ => rfl, fun _ => ⟨rfl, rfl⟩, fun _ => rfl, fun h => absurd rfl h⟩

end Reachable

/-! ## Stuck in the cleanup -/

section Stuck

/-- `runtime.stop()` waits for a source worker that waits for what has not come. -/
structure Stuck (v : Viewer) : Prop where
  inv : v.Inv
  main : v.main = .stopRuntime
  inProcess : v.inProcess = true
  arrived : ¬ Arrived v.sock v.receive v.transport

/-- **No step of the viewer gets it unstuck.** -/
theorem stuck_trap : viewer.Trap Internal Stuck := by
  intro v l v' hv hl hst
  have hinv : v'.Inv := inv_step hv.inv hst
  rcases step_cases hst with ⟨hallows, hr⟩ | ⟨hin, hr⟩ | ⟨hreceive, hr⟩ | hmain | ⟨hmain, hstopped⟩ | hmain | hmain |
    ⟨ht, -⟩ | ht | ht
  case runtime =>
    obtain ⟨input, hpc⟩ := inProcess_iff.mp hv.inProcess
    exact ⟨hinv, hv.main, inProcess_iff.mpr ⟨input, (inProcess_runtime hallows hr hv.inProcess).trans hpc⟩, hv.arrived⟩
  case receive =>
    obtain ⟨hclosed, hstarted⟩ := hv.inv.usable_of_inProcess hv.inProcess
    rw [hclosed, hstarted] at hr
    exact ⟨hinv, hv.main, hv.inProcess, fun h => hv.arrived ((stepReceive_cases hv.inv.receive hr).arrived_iff.mp h)⟩
  case processed =>
    refine absurd ?_ hv.arrived
    rw [hreceive]
    trivial
  case runtimeStopped => exact absurd hstopped (hv.inv.not_stopped hv.inProcess)
  case transportClosed | sourceStopped => exact absurd (hv.main.symm.trans hmain) nofun
  case closeWindow | datagram | data | writerCloses => exact hl.elim

end Stuck

/-! ## The way to the end of the cleanup -/

section Progress

variable {v : Viewer}

/-- The cleanup is on its way, and the source worker can get out of `process`. -/
structure Closing (v : Viewer) : Prop where
  inv : v.Inv
  main : v.main ≠ .running
  arrived : v.inProcess = true → Arrived v.sock v.receive v.transport

/-- The steps left of `runtime.stop()` and of the cleanup after it. -/
def stopLeft : MainPc → ℕ
  | .polling => 7
  | .shutdown k => stages.length - k + 4
  | .join k => stages.length - k + 1
  | .stopped => 0

def cleanupLeft : ViewerPc → ℕ
  | .running | .done => 0
  | .stopRuntime => 3
  | .closeTransport => 2
  | .stopSource => 1

/-- The steps left of the source worker. -/
def sourceLeft (pc : WorkerPc (Frame Double)) (receive : ReceivePc) (t : Transport) : ℕ :=
  match pc with
  | .process _ => 5 + receiveLeft receive t
  | pc => LinearRuntime.stepsLeft pc

def left (v : Viewer) : ℕ :=
  cleanupLeft v.main + stopLeft v.runtime.main +
    sourceLeft (v.runtime.workers 0).pc v.receive v.transport + LinearRuntime.stepsLeft (v.runtime.workers 1).pc

/-- A step of the runtime that keeps the source worker from going back into `process`. -/
theorem Closing.runtime {l : LinearRuntime.Label (Frame Double)} {r : LinearRuntime (Frame Double)} (h : v.Closing)
    (hallows : v.allows l = true) (hr : v.runtime.step stages.length l = some r)
    (hback : v.inProcess = false → ∀ input, (r.workers 0).pc ≠ .process input) :
    v.step (.runtime l) = some { v with runtime := r } ∧ ({ v with runtime := r } : Viewer).Closing := by
  have hst : v.step (.runtime l) = some { v with runtime := r } := by
    simp only [step]
    rw [if_pos hallows, hr, Option.map_some]
  refine ⟨hst, inv_step h.inv hst, h.main, fun hin => h.arrived ?_⟩
  by_contra hout
  obtain ⟨input, hpc⟩ := inProcess_iff.mp hin
  exact hback (Bool.eq_false_of_not_eq_true hout) input hpc

/-- No queue of the viewer makes a worker wait. -/
theorem policy_stages (i : ℕ) : (LinearRuntime.queueEntry stages i).policy ≠ .block := by
  rcases i with _ | _ | i
  · decide
  · decide
  · simp [LinearRuntime.queueEntry, stages]

/-- The source worker outside `process` takes a step towards the end of its loop. -/
theorem source_leaves (h : v.Closing) (hstop : v.runtime.stop = true) (hin : v.inProcess = false)
    (hexited : (v.runtime.workers 0).pc ≠ .exited) :
    ∃ l v', Internal l ∧ v.step l = some v' ∧ v'.Closing ∧ v'.left < v.left := by
  have hfree := LinearRuntime.reachable_free policy_stages h.inv.runtime
  have hprocess := inProcess_eq_false_iff.mp hin
  obtain ⟨l, r, hl, hr, hlt, hback⟩ := LinearRuntime.worker_leaves hstop hfree hexited hprocess
  have hallows : v.allows (.worker 0 l) = true := by
    cases l with
    | process produced result ns => exact absurd rfl (hl produced result ns)
    | _ => rfl
  obtain ⟨hmain, -, -, hworkers⟩ := LinearRuntime.stepWorker_frame hr
  obtain ⟨hst, hclosing⟩ := h.runtime hallows (by simpa [LinearRuntime.step, stages] using hr) fun _ => hback rfl
  refine ⟨.runtime (.worker 0 l), { v with runtime := r }, trivial, hst, hclosing, ?_⟩
  have hsource : ∀ {pc : WorkerPc (Frame Double)}, (∀ input, pc ≠ .process input) →
      sourceLeft pc v.receive v.transport = LinearRuntime.stepsLeft pc := by
    intro pc hpc
    cases pc with
    | process input => exact absurd rfl (hpc input)
    | _ => rfl
  simp only [left, hmain, hworkers 1 (by simp), hsource hprocess, hsource (hback rfl)]
  omega

/-- The source worker in `process` gets out of it. -/
theorem source_returns (h : v.Closing) (hin : v.inProcess = true) :
    ∃ l v', Internal l ∧ v.step l = some v' ∧ v'.Closing ∧ v'.left < v.left := by
  obtain ⟨input, hpc⟩ := inProcess_iff.mp hin
  by_cases hreturned : ∃ result, v.receive = .returned result
  · obtain ⟨result, hreceive⟩ := hreturned
    obtain ⟨hproduced, -⟩ := process_returned v.adapter result
    have hst : ∃ v', v.step (.processed 0) = some v' ∧ v'.main = v.main ∧ v'.runtime.main = v.runtime.main ∧
        v'.runtime.workers 1 = v.runtime.workers 1 ∧ v'.inProcess = false ∧
        sourceLeft (v'.runtime.workers 0).pc v'.receive v'.transport ≤ 4 := by
      simp only [step, hreceive, LinearRuntime.step, LinearRuntime.stepWorker, hpc]
      refine ⟨_, rfl, rfl, rfl, ?_, ?_, ?_⟩
      · simp [LinearRuntime.setWorker]
      · simp [inProcess]
      · simp [sourceLeft, LinearRuntime.stepsLeft]
        omega
    obtain ⟨v', hst, hmain, hruntime, hworker, hout, hsource⟩ := hst
    refine ⟨.processed 0, v', trivial, hst, ⟨inv_step h.inv hst, by rw [hmain]; exact h.main, ?_⟩, ?_⟩
    · intro hin'
      rw [hout] at hin'
      cases hin'
    · have hbefore : sourceLeft (v.runtime.workers 0).pc v.receive v.transport ≥ 5 := by
        rw [hpc]
        exact Nat.le_add_right 5 _
      simp only [left, hmain, hruntime, hworker]
      omega
  · obtain ⟨pc', t', hr, harrived, hlt⟩ :=
      receive_progress h.inv.receive (h.arrived hin) fun result hresult => hreturned ⟨result, hresult⟩
    obtain ⟨hclosed, hstarted⟩ := h.inv.usable_of_inProcess hin
    have hst : v.step (.receive 1) = some { v with receive := pc', transport := t' } := by
      simp only [step]
      rw [if_pos hin, hclosed, hstarted, hr, Option.map_some]
    refine ⟨.receive 1, _, trivial, hst, ⟨inv_step h.inv hst, h.main, fun _ => harrived⟩, ?_⟩
    simp only [left, sourceLeft, hpc]
    omega

/-- The other worker takes a step towards the end of its loop. -/
theorem decimation_leaves (h : v.Closing) (hstop : v.runtime.stop = true)
    (hexited : (v.runtime.workers 1).pc ≠ .exited) :
    ∃ l v', Internal l ∧ v.step l = some v' ∧ v'.Closing ∧ v'.left < v.left := by
  have hfree := LinearRuntime.reachable_free policy_stages h.inv.runtime
  obtain ⟨l, r, hallows, hr, hlt⟩ : ∃ l r, v.allows (.worker 1 l) = true ∧ v.runtime.stepWorker 1 l = some r ∧
      LinearRuntime.stepsLeft (r.workers 1).pc < LinearRuntime.stepsLeft (v.runtime.workers 1).pc := by
    by_cases hprocess : ∃ input, (v.runtime.workers 1).pc = .process input
    · obtain ⟨input, hpc⟩ := hprocess
      refine ⟨.process [] .ok 0, _, by simp [allows], by simp only [LinearRuntime.stepWorker, hpc]; rfl, ?_⟩
      rw [hpc]
      simp [LinearRuntime.setWorker, LinearRuntime.stepsLeft]
    · obtain ⟨l, r, hl, hr, hlt, -⟩ :=
        LinearRuntime.worker_leaves hstop hfree hexited fun input hpc => hprocess ⟨input, hpc⟩
      refine ⟨l, r, ?_, hr, hlt⟩
      cases l with
      | process produced result ns => exact absurd rfl (hl produced result ns)
      | _ => rfl
  obtain ⟨hmain, -, -, hworkers⟩ := LinearRuntime.stepWorker_frame hr
  have hback : v.inProcess = false → ∀ input, (r.workers 0).pc ≠ .process input := by
    intro hout
    rw [hworkers 0 (by simp)]
    exact inProcess_eq_false_iff.mp hout
  obtain ⟨hst, hclosing⟩ := h.runtime hallows (by simpa [LinearRuntime.step, stages] using hr) hback
  refine ⟨.runtime (.worker 1 l), { v with runtime := r }, trivial, hst, hclosing, ?_⟩
  simp only [left, hmain, hworkers 0 (by simp)]
  omega

/-- The main thread takes a step of `runtime.stop()`. -/
theorem stop_advances (h : v.Closing) (hmain : v.main = .stopRuntime) (l : LinearRuntime.Label (Frame Double))
    (m : MainPc) (hl : ∀ i w, l ≠ .worker i w)
    (hr : ∃ r, v.runtime.step stages.length l = some r ∧ r.main = m) (hlt : stopLeft m < stopLeft v.runtime.main) :
    ∃ l v', Internal l ∧ v.step l = some v' ∧ v'.Closing ∧ v'.left < v.left := by
  obtain ⟨r, hr, hm⟩ := hr
  have hworkers : r.workers = v.runtime.workers := by
    obtain ⟨i, w, hw, -⟩ | hworkers := LinearRuntime.step_workers hr
    · exact absurd hw (hl i w)
    · exact hworkers
  have hallows : v.allows l = true := by
    cases l with
    | worker i w => exact absurd rfl (hl i w)
    | pollOutput =>
      rcases LinearRuntime.step_cases hr with _ | _ | _ | _ | _ | ⟨hl, -, -⟩
      case stopping => simp at hl
      all_goals
        rw [← hm] at hlt
        exact absurd hlt (lt_irrefl _)
    | _ => simp [allows, hmain]
  have hback : v.inProcess = false → ∀ input, (r.workers 0).pc ≠ .process input := by
    intro hout
    rw [hworkers]
    exact inProcess_eq_false_iff.mp hout
  obtain ⟨hst, hclosing⟩ := h.runtime hallows hr hback
  refine ⟨.runtime l, { v with runtime := r }, trivial, hst, hclosing, ?_⟩
  simp only [left, hworkers, hm]
  omega

/-- The runtime waits for a worker: it has left, or it gets there. -/
theorem join_progress (h : v.Closing) (hmain : v.main = .stopRuntime) {k : ℕ} (hm : v.runtime.main = .join k) :
    ∃ l v', Internal l ∧ v.step l = some v' ∧ v'.Closing ∧ v'.left < v.left := by
  have hstop : v.runtime.stop = true := by
    have hpolling := (LinearRuntime.reachable_config h.inv.runtime).polling
    rw [hm] at hpolling
    simpa using hpolling
  by_cases hin : v.inProcess = true
  · exact source_returns h hin
  by_cases hsource : (v.runtime.workers 0).pc = .exited
  · by_cases hdecimation : (v.runtime.workers 1).pc = .exited
    · -- both workers have left
      by_cases hk : k < stages.length
      · have hexited : (v.runtime.workers k).pc = .exited := by
          obtain rfl | rfl : k = 0 ∨ k = 1 := by
            have : stages.length = 2 := rfl
            omega
          · exact hsource
          · exact hdecimation
        refine stop_advances h hmain .join (.join (k + 1)) (by simp)
          (by simp [LinearRuntime.step, hm, hk, hexited]) ?_
        rw [hm]
        simp only [stopLeft]
        omega
      · apply stop_advances h hmain .join .stopped (by simp) (by simp [LinearRuntime.step, hm, hk])
        rw [hm]
        simp only [stopLeft]
        omega
    · exact decimation_leaves h hstop hdecimation
  · exact source_leaves h hstop (Bool.eq_false_of_not_eq_true hin) hsource

/-- **The cleanup goes on**, as long as the source worker can get out of `process`. -/
theorem closing_progress (h : v.Closing) (hdone : v.main ≠ .done) :
    ∃ l v', Internal l ∧ v.step l = some v' ∧ v'.Closing ∧ v'.left < v.left := by
  cases hmain : v.main with
  | running => exact absurd hmain h.main
  | done => exact absurd hmain hdone
  | closeTransport =>
    have hst : v.step .cleanup = some { v with closed := true, main := .stopSource } := by simp only [step, hmain]
    refine ⟨.cleanup, _, trivial, hst, ⟨inv_step h.inv hst, by simp, h.arrived⟩, ?_⟩
    simp only [left, hmain, cleanupLeft]
    omega
  | stopSource =>
    obtain ⟨v', hst, hmain', hruntime, hsock, hreceive, htransport⟩ : ∃ v', v.step .cleanup = some v' ∧
        v'.main = .done ∧ v'.runtime = v.runtime ∧ v'.sock = v.sock ∧ v'.receive = v.receive ∧
        v'.transport = v.transport := by
      simp only [step, hmain]
      exact ⟨_, rfl, rfl, rfl, rfl, rfl, rfl⟩
    refine ⟨.cleanup, v', trivial, hst, ⟨inv_step h.inv hst, by rw [hmain']; simp, ?_⟩, ?_⟩
    · intro hin
      rw [hsock, hreceive, htransport]
      exact h.arrived (by rwa [inProcess, hruntime] at hin)
    · simp only [left, hmain, hmain', hruntime, hreceive, htransport, cleanupLeft]
      omega
  | stopRuntime =>
    cases hm : v.runtime.main with
    | polling =>
      exact stop_advances h hmain .stop (.shutdown 0) (by simp) (by simp [LinearRuntime.step, hm]) (by rw [hm]; decide)
    | shutdown k =>
      by_cases hk : k < stages.length
      · apply stop_advances h hmain .shutdown (.shutdown (k + 1)) (by simp) (by simp [LinearRuntime.step, hm, hk])
        rw [hm]
        simp only [stopLeft]
        omega
      · apply stop_advances h hmain .shutdown (.join 0) (by simp) (by simp [LinearRuntime.step, hm, hk])
        rw [hm]
        have hlength : stages.length = 2 := rfl
        simp only [stopLeft, hlength]
        omega
    | join k => exact join_progress h hmain hm
    | stopped =>
      have hst : v.step .cleanup = some { v with main := .closeTransport } := by
        simp only [step, hmain, hm, if_true]
      refine ⟨.cleanup, _, trivial, hst, ⟨inv_step h.inv hst, by simp, h.arrived⟩, ?_⟩
      simp only [left, hmain, cleanupLeft]
      omega

end Progress

/-! ## Closing the viewer -/

section Cleanup

variable {v : Viewer}

/-- **When closing the viewer comes to its end.**  From a state reached after the window is closed, the cleanup can come
to its end without anything more from outside if and only if the source worker is outside `process`, or what has come
already lets it out: `receive_frame` has returned, the first acceptable datagram that is queued can be copied, there is no
socket, or the pipe holds all of a message, a header with a bad magic, or the end of the stream. -/
theorem cleanup_completes_iff (hv : viewer.Reachable v) (hclosed : v.main ≠ .running) :
    (∃ t, t.main = .done ∧ viewer.CanReach Internal v t) ↔
      (v.inProcess = true → Arrived v.sock v.receive v.transport) := by
  have hinv := reachable_inv hv
  constructor
  · rintro ⟨t, hdone, hpath⟩ hin
    by_contra harrived
    have hmain : v.main = .stopRuntime := by
      by_contra hpast
      exact hinv.not_stopped hin (hinv.stopped hclosed hpast)
    have hstuck : t.Stuck := stuck_trap.canReach ⟨hinv, hmain, hin, harrived⟩ hpath
    rw [hstuck.main] at hdone
    cases hdone
  · intro harrived
    obtain ⟨t, -, hdone, hpath⟩ := Lts.CanReach.of_measure (M := viewer) (L := Internal) (I := Closing)
      (G := fun v => v.main = .done) left (fun v h hdone => closing_progress h hdone) v ⟨hinv, hclosed, harrived⟩
    exact ⟨t, hdone, hpath⟩

/-- With a good datagram queued, the worker that is about to receive lets the cleanup come to its end. -/
theorem cleanup_completes_queued :
    ∃ v, viewer.Reachable v ∧ v.main = .stopRuntime ∧ v.inProcess = true ∧
      ∃ t, t.main = .done ∧ viewer.CanReach Internal v t := by
  have hrun : (viewer.exec (launched (.udp []) true)
      [.runtime (.worker 0 .test), .datagram (frameHeader.encode {}), .closeWindow]).map
        (fun v => (v.main, v.inProcess, v.receive, v.transport)) =
      some (.stopRuntime, true, .enter, .udp [frameHeader.encode {}]) := by
    decide +kernel
  obtain ⟨v, hexec, hfields⟩ := Option.map_eq_some_iff.mp hrun
  simp only [Prod.mk.injEq] at hfields
  obtain ⟨hmain, hin, hreceive, htransport⟩ := hfields
  have hv : viewer.Reachable v := Lts.reachable_of_exec _ (.inl ⟨true, rfl⟩) hexec
  refine ⟨v, hv, hmain, hin, (cleanup_completes_iff hv (by rw [hmain]; decide)).mpr ?_⟩
  intro _
  rw [hreceive, htransport]
  exact .inr ⟨frameHeader.encode {}, by decide +kernel, by decide +kernel⟩

/-- **Stuck**: in UDP mode, with no traffic, the window is closed while the source worker is in `receive_frame`.  The
worker only looks at `closed_`, which is set after the join that waits for it. -/
theorem cleanup_stuck :
    ∃ v, viewer.Reachable v ∧ v.main ≠ .running ∧ ¬∃ t, t.main = .done ∧ viewer.CanReach Internal v t := by
  have hrun : (viewer.exec (launched (.udp []) true) [.runtime (.worker 0 .test), .receive 0, .closeWindow]).map
      (fun v => (v.main, v.inProcess, v.sock, v.receive, v.transport)) =
        some (.stopRuntime, true, true, .loop, .udp []) := by
    decide +kernel
  obtain ⟨v, hexec, hfields⟩ := Option.map_eq_some_iff.mp hrun
  simp only [Prod.mk.injEq] at hfields
  obtain ⟨hmain, hin, hsock, hreceive, htransport⟩ := hfields
  have hv : viewer.Reachable v := Lts.reachable_of_exec _ (.inl ⟨true, rfl⟩) hexec
  refine ⟨v, hv, by rw [hmain]; decide, ?_⟩
  rintro ⟨t, hdone, hpath⟩
  have harrived : ¬ Arrived v.sock v.receive v.transport := by
    rw [hsock, hreceive, htransport]
    rintro (h | ⟨d, hd, -⟩)
    · cases h
    · cases hd
  have hstuck : t.Stuck := stuck_trap.canReach ⟨reachable_inv hv, hmain, hin, harrived⟩ hpath
  rw [hstuck.main] at hdone
  cases hdone

end Cleanup

end Viewer

end Grebe
