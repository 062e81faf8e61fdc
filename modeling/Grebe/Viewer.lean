import Mathlib.Tactic
import Grebe.LinearRuntime
import Grebe.TransportSource

/-!
# Grebe.Viewer — `main` and the source worker of the viewer

In pipe and in UDP mode the viewer runs a `LinearRuntime` of `DataSourceAdapter` and `DecimationStage`, and when the
window is closed it cleans up: `runtime.stop()`, which joins the workers, then the transport is closed, then
`TransportSource::stop`.  Here the `process` of the source worker is not one step: `receive` says where it is in
`receive_frame`, and one step of it is

* in UDP mode a test of `closed_` and of the socket, which the constructor may not have got, or a `recvfrom`, which takes
  a datagram that is there or times out;
* in pipe mode a `read`, which takes some of the bytes that are there, reports the end of the stream, or, with nothing
  there and the writer still open, makes no step.

The payload goes into a fresh vector.  One of a single byte makes the `read` fail, and ends the program in UDP mode: then
there is no step.

Datagrams, pipe data and the end of the writer come from outside.  What the decimation stage makes of a frame comes with
the label.
-/

namespace Grebe

open Lib

/-- What has come from outside and is not received yet. -/
inductive Transport
  | udp (datagrams : List (List UInt8))
  | pipe (buffered : List UInt8) (writerOpen : Bool)
deriving DecidableEq

/-- Where the source worker is in `TransportSource::read_frame`. -/
inductive ReceivePc
  /-- before the test of `started_` -/
  | enter
  /-- at the tests of `closed_` and `sock_` -/
  | loop
  /-- in `recvfrom` -/
  | recv
  /-- in the `read_all` of the header, with these bytes of it -/
  | readHead (got : List UInt8)
  /-- in the `read_all` of the payload, with these bytes of it -/
  | readBody (header : FrameHeaderV2) (got : List UInt8)
  /-- `receive_frame` has returned, or was not called -/
  | returned (result : Option (FrameHeaderV2 × List Int16))
deriving DecidableEq

/-- Where `main` is. -/
inductive ViewerPc
  /-- in `run_main_loop` -/
  | running
  /-- in `runtime.stop()`, or about to call it -/
  | stopRuntime
  /-- before the transport is closed -/
  | closeTransport
  /-- before `transport_source->stop()` -/
  | stopSource
  | done
deriving DecidableEq

structure Viewer where
  runtime : LinearRuntime (Frame Double)
  adapter : DataSourceAdapter Unit
  transport : Transport
  /-- `closed_` of the transport -/
  closed : Bool
  /-- in UDP mode, the socket is bound -/
  sock : Bool
  receive : ReceivePc
  main : ViewerPc

namespace Viewer

/-- The stages that `main` adds. -/
def stages : List StageEntry :=
  [{ name := "DataSourceAdapter" }, { name := "DecimationStage", queueCapacity := 512, policy := .dropOldest }]

/-- The state when `run_main_loop` begins. -/
def launched (transport : Transport) (sock : Bool) : Viewer where
  runtime := .started stages
  adapter := .over ()
  transport := transport
  closed := false
  sock := sock
  receive := .enter
  main := .running

/-! ## Receiving -/

section Receive

/-- The source worker of `v` is in `process`. -/
def inProcess (v : Viewer) : Bool :=
  match (v.runtime.workers 0).pc with
  | .process _ => true
  | _ => false

/-- One `read` of at most `len` bytes, which yields `count` of them if it can; `none` where it makes no step, and no
bytes at the end of the stream. -/
def readPipe (buffered : List UInt8) (writerOpen : Bool) (len count : ℕ) : Option (List UInt8) :=
  if buffered.isEmpty then (if writerOpen then none else some [])
  else some (buffered.take (max 1 (min count len)))

/-- One step of `read_frame` before it returns, and what is left of what has come. -/
def stepReceive (started closed sock : Bool) (count : ℕ) : ReceivePc → Transport → Option (ReceivePc × Transport)
  | .enter, .udp datagrams => some (if started then .loop else .returned none, .udp datagrams)
  | .enter, .pipe buffered writerOpen =>
    some (if started then .readHead [] else .returned none, .pipe buffered writerOpen)
  | .loop, .udp datagrams => some (if closed ∨ sock = false then .returned none else .recv, .udp datagrams)
  -- the timeout
  | .recv, .udp [] => some (.loop, .udp [])
  | .recv, .udp (datagram :: datagrams) =>
    if UdpConsumer.nullCopy datagram then none
    else
      match UdpConsumer.extract datagram with
      | some frame => some (.returned (some frame), .udp datagrams)
      | none => some (.loop, .udp datagrams)
  | .readHead got, .pipe buffered writerOpen =>
    if got.length < frameHeader.width then
      (readPipe buffered writerOpen (frameHeader.width - got.length) count).map fun bytes =>
        (if bytes.isEmpty then .returned none else .readHead (got ++ bytes),
          .pipe (buffered.drop bytes.length) writerOpen)
    else
      let header := frameHeader.decode got
      some
        (if header.magic ≠ FRAME_HEADER_MAGIC then .returned none
          else if header.payloadBytes > 0 then .readBody header []
          else .returned (some (header, [])),
          .pipe buffered writerOpen)
  | .readBody header got, .pipe buffered writerOpen =>
    if header.nullCopy false then
      -- the `read` waits as any, and then takes nothing
      (readPipe buffered writerOpen (header.payloadBytes.toNat - got.length) count).map fun _ =>
        (.returned none, .pipe buffered writerOpen)
    else if got.length < header.payloadBytes.toNat then
      (readPipe buffered writerOpen (header.payloadBytes.toNat - got.length) count).map fun bytes =>
        (if bytes.isEmpty then .returned none else .readBody header (got ++ bytes),
          .pipe (buffered.drop bytes.length) writerOpen)
    else
      some (.returned (some (header, sample.decodeAll (header.payloadBytes.toNat / 2) got)),
        .pipe buffered writerOpen)
  | _, _ => none

end Receive

/-! ## Steps -/

section Steps

variable (v : Viewer)

inductive Label
  /-- a step of the runtime other than the `process` of the source worker -/
  | runtime (l : LinearRuntime.Label (Frame Double))
  /-- a step of the source worker in `process` -/
  | receive (count : ℕ)
  /-- the end of the `process` of the source worker -/
  | processed (ns : ℕ)
  | closeWindow
  /-- a step of the cleanup after `runtime.stop()` -/
  | cleanup
  | datagram (bytes : List UInt8)
  | data (bytes : List UInt8)
  | writerCloses

/-- What the runtime may do: `poll_output` belongs to `run_main_loop`, `stop` to the cleanup, and the decimation stage
makes at most one frame of the one it gets. -/
def allows : LinearRuntime.Label (Frame Double) → Bool
  | .worker i (.process produced result _) => i ≠ 0 ∧ result = .ok ∧ produced.length ≤ 1
  | .worker _ _ => true
  | .pollOutput => v.main = .running
  | .stop | .shutdown | .join => v.main = .stopRuntime

def step : Label → Option Viewer
  | .runtime l =>
    if v.allows l then (v.runtime.step stages.length l).map fun runtime => { v with runtime } else none
  | .receive count =>
    if v.inProcess then
      (stepReceive v.adapter.source.started v.closed v.sock count v.receive v.transport).map fun r =>
        { v with receive := r.1, transport := r.2 }
    else none
  | .processed ns =>
    match v.receive with
    | .returned result =>
      let r := v.adapter.process fun _ => (result, ())
      (v.runtime.step stages.length (.worker 0 (.process r.2.1 r.1 ns))).map fun runtime =>
        { v with runtime, adapter := r.2.2, receive := .enter }
    | _ => none
  | .closeWindow => if v.main = .running then some { v with main := .stopRuntime } else none
  | .cleanup =>
    match v.main with
    | .stopRuntime => if v.runtime.main = .stopped then some { v with main := .closeTransport } else none
    | .closeTransport => some { v with closed := true, main := .stopSource }
    | .stopSource =>
      some { v with adapter := ⟨{ v.adapter.source with started := false }, v.adapter.fb⟩, main := .done }
    | .running | .done => none
  | .datagram bytes =>
    match v.transport with
    | .udp datagrams => if v.sock then some { v with transport := .udp (datagrams ++ [bytes]) } else none
    | .pipe _ _ => none
  | .data bytes =>
    match v.transport with
    | .pipe buffered true => some { v with transport := .pipe (buffered ++ bytes) true }
    | _ => none
  | .writerCloses =>
    match v.transport with
    | .pipe buffered true => some { v with transport := .pipe buffered false }
    | _ => none

/-- The viewer in UDP mode, with a socket or without, or in pipe mode. -/
def viewer : Lts Viewer Label where
  init v := (∃ sock, v = launched (.udp []) sock) ∨ v = launched (.pipe [] true) true
  step := step

/-- A step of `main` or of a worker: nothing comes from outside, and the user does nothing. -/
def Internal : Label → Prop
  | .runtime _ | .receive _ | .processed _ | .cleanup => True
  | .closeWindow | .datagram _ | .data _ | .writerCloses => False

end Steps

/-! ## What a step does, said once -/

section Spec

variable (v : Viewer)

/-- What one step does. -/
inductive Step : Label → Viewer → Prop
  | runtime {l : LinearRuntime.Label (Frame Double)} {r : LinearRuntime (Frame Double)} (hallows : v.allows l = true)
      (hr : v.runtime.step stages.length l = some r) : Step (.runtime l) { v with runtime := r }
  | receive {count : ℕ} {pc : ReceivePc} {t : Transport} (hin : v.inProcess = true)
      (hr : stepReceive v.adapter.source.started v.closed v.sock count v.receive v.transport = some (pc, t)) :
      Step (.receive count) { v with receive := pc, transport := t }
  | processed {ns : ℕ} {result : Option (FrameHeaderV2 × List Int16)} {r : LinearRuntime (Frame Double)}
      (hreceive : v.receive = .returned result)
      (hr : v.runtime.step stages.length (.worker 0 (.process (v.adapter.process fun _ => (result, ())).2.1
        (v.adapter.process fun _ => (result, ())).1 ns)) = some r) :
      Step (.processed ns)
        { v with runtime := r, adapter := (v.adapter.process fun _ => (result, ())).2.2, receive := .enter }
  | closeWindow (hmain : v.main = .running) : Step .closeWindow { v with main := .stopRuntime }
  | runtimeStopped (hmain : v.main = .stopRuntime) (hstopped : v.runtime.main = .stopped) :
      Step .cleanup { v with main := .closeTransport }
  | transportClosed (hmain : v.main = .closeTransport) : Step .cleanup { v with closed := true, main := .stopSource }
  | sourceStopped (hmain : v.main = .stopSource) : Step .cleanup
      { v with adapter := ⟨{ v.adapter.source with started := false }, v.adapter.fb⟩, main := .done }
  | datagram {bytes : List UInt8} {datagrams : List (List UInt8)} (ht : v.transport = .udp datagrams)
      (hsock : v.sock = true) : Step (.datagram bytes) { v with transport := .udp (datagrams ++ [bytes]) }
  | data {bytes buffered : List UInt8} (ht : v.transport = .pipe buffered true) :
      Step (.data bytes) { v with transport := .pipe (buffered ++ bytes) true }
  | writerCloses {buffered : List UInt8} (ht : v.transport = .pipe buffered true) :
      Step .writerCloses { v with transport := .pipe buffered false }

variable {v}

theorem step_cases {l : Label} {v' : Viewer} (h : v.step l = some v') : v.Step l v' := by
  cases l with
  | runtime l =>
    simp only [step] at h
    split_ifs at h with hallows
    obtain ⟨r, hr, rfl⟩ := Option.map_eq_some_iff.mp h
    exact .runtime hallows hr
  | receive count =>
    simp only [step] at h
    split_ifs at h with hin
    obtain ⟨⟨pc, t⟩, hr, rfl⟩ := Option.map_eq_some_iff.mp h
    exact .receive hin hr
  | processed ns =>
    simp only [step] at h
    split at h
    case h_1 result hreceive =>
      obtain ⟨r, hr, rfl⟩ := Option.map_eq_some_iff.mp h
      exact .processed hreceive hr
    case h_2 => cases h
  | closeWindow =>
    simp only [step] at h
    split_ifs at h with hmain
    cases h
    exact .closeWindow hmain
  | cleanup =>
    simp only [step] at h
    split at h
    case h_1 hmain =>
      split_ifs at h with hstopped
      cases h
      exact .runtimeStopped hmain hstopped
    case h_2 hmain =>
      cases h
      exact .transportClosed hmain
    case h_3 hmain =>
      cases h
      exact .sourceStopped hmain
    all_goals cases h
  | datagram bytes =>
    simp only [step] at h
    split at h
    case h_1 ht =>
      split_ifs at h with hsock
      cases h
      exact .datagram ht hsock
    case h_2 => cases h
  | data bytes =>
    simp only [step] at h
    split at h
    case h_1 ht =>
      cases h
      exact .data ht
    case h_2 => cases h
  | writerCloses =>
    simp only [step] at h
    split at h
    case h_1 ht =>
      cases h
      exact .writerCloses ht
    case h_2 => cases h

end Spec

end Viewer

end Grebe
