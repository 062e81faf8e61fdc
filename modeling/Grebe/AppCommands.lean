import Grebe.DecimationStage
import Grebe.SgCommands
import Grebe.SyntheticSource

/-!
# Grebe.AppCommands — the commands of the viewer

Keys and the profiler push commands into a queue, and each iteration of the main loop processes what is in it.  All of
this is in one thread.  The rates are exact rationals, and of the transport only the commands are kept that it was given.

* `Applied`: what the components are after some commands.
* `run_applied`: every command is processed once, in order.
-/

namespace Grebe

/-! ## Queue and keys -/

section Queue

inductive AppCommand
  | setSampleRate (rate : ℚ)
  | cycleDecimationMode
  | togglePaused
  | toggleVsync
  | quit
  | debugDump
deriving DecidableEq

/-- The keys of `key_callback`; `digit n`: from `GLFW_KEY_1` on. -/
inductive Key
  | escape
  | v
  | d
  | digit (n : Fin 4)
  | space
  | g
  | other
deriving DecidableEq

/-- `rates` -/
def keyRate : Fin 4 → ℚ
  | 0 => 1000000
  | 1 => 10000000
  | 2 => 100000000
  | 3 => 1000000000

/-- What `key_callback` pushes for a key that is pressed. -/
def keyCallback (isIpcMode : Bool) : Key → List AppCommand
  | .escape => [.quit]
  | .v => [.toggleVsync]
  | .d => [.cycleDecimationMode]
  | .digit n => if isIpcMode then [] else [.setSampleRate (keyRate n)]
  | .space => if isIpcMode then [] else [.togglePaused]
  | .g => [.debugDump]
  | .other => []

def nextDecimationMode : DecimationMode → DecimationMode
  | .none => .minMax
  | .minMax => .lttb
  | .lttb => .none

structure AppComponents where
  cmdQueue : List AppCommand := []
  /-- in embedded mode -/
  syntheticSource : Option SyntheticSource
  /-- in IPC mode: the type and the value of each command that was given to the transport -/
  transportSource : Option (List (UInt32 × ℚ))
  decStage : Option DecimationStage
  /-- how often the visualization stage was asked for a dump -/
  debugDumps : ℕ := 0
  vsync : Bool
  windowShouldClose : Bool := false
  currentSampleRate : ℚ := 1000000
  currentPaused : Bool := false

namespace AppComponents

variable (app : AppComponents)

def isIpcMode : Bool := app.transportSource.isSome

def push (cmds : List AppCommand) : AppComponents := { app with cmdQueue := app.cmdQueue ++ cmds }

/-- `send_command` of the transport. -/
def sendCommand (type : UInt32) (value : ℚ) : AppComponents :=
  { app with transportSource := app.transportSource.map (· ++ [(type, value)]) }

/-- One round of the loop in `process_commands`. -/
def process : AppCommand → AppComponents
  | .setSampleRate rate =>
    let app :=
      match app.syntheticSource with
      | some source => { app with syntheticSource := some (source.set (.sampleRate rate)) }
      | none => app.sendCommand IpcCommand.SET_SAMPLE_RATE rate
    { app with decStage := app.decStage.map ({ · with sampleRate := rate }), currentSampleRate := rate }
  | .cycleDecimationMode =>
    { app with decStage := app.decStage.map fun stage => { stage with mode := nextDecimationMode stage.mode } }
  | .togglePaused =>
    match app.syntheticSource with
    | some source =>
      let source := source.set (.paused (!source.paused))
      { app with syntheticSource := some source, currentPaused := source.paused }
    | none =>
      if app.transportSource.isSome then
        { app.sendCommand IpcCommand.TOGGLE_PAUSED 0 with currentPaused := !app.currentPaused }
      else app
  | .toggleVsync => { app with vsync := !app.vsync }
  | .quit => { app with windowShouldClose := true }
  | .debugDump => { app with debugDumps := app.debugDumps + 1 }

/-- `process_commands`; `drain` leaves the queue empty before the loop. -/
def processCommands : AppComponents := app.cmdQueue.foldl process { app with cmdQueue := [] }

/-- Sync decimation stage with actual sample rate -/
def syncRate (dataRate : ℚ) : AppComponents :=
  if dataRate > 0 then { app with decStage := app.decStage.map ({ · with sampleRate := dataRate }) } else app

/-- What happens to the components in the main loop. -/
inductive Event
  | key (k : Key)
  | profiler (cmd : AppCommand)
  | processCommands
  | syncRate (dataRate : ℚ)

/-- The commands that an event pushes. -/
def Event.pushes (isIpcMode : Bool) : Event → List AppCommand
  | .key k => keyCallback isIpcMode k
  | .profiler cmd => [cmd]
  | _ => []

def event : Event → AppComponents
  | .key k => app.push (keyCallback app.isIpcMode k)
  | .profiler cmd => app.push [cmd]
  | .processCommands => app.processCommands
  | .syncRate dataRate => app.syncRate dataRate

def run (events : List Event) : AppComponents := events.foldl event app

end AppComponents

end Queue

/-! ## Runs -/

namespace AppComponents

section Runs

/-- The rate of a command that sets one. -/
def rate? : AppCommand → Option ℚ
  | .setSampleRate rate => some rate
  | _ => none

/-- What a command is for the transport. -/
def ipc? : AppCommand → Option (UInt32 × ℚ)
  | .setSampleRate rate => some (IpcCommand.SET_SAMPLE_RATE, rate)
  | .togglePaused => some (IpcCommand.TOGGLE_PAUSED, 0)
  | _ => none

/-- `b`, switched by each command that is `cmd`. -/
def switched (b : Bool) (cmd : AppCommand) (cmds : List AppCommand) : Bool := b ^^ (cmds.count cmd).bodd

/-- As `main` wires the components: with a source of its own, or with a transport. -/
structure Wired (app : AppComponents) : Prop where
  one : app.syntheticSource.isSome = !app.transportSource.isSome
  paused : ∀ source ∈ app.syntheticSource, app.currentPaused = source.paused

/-- The components after these commands, from `app₀` on. -/
structure Applied (app₀ app : AppComponents) (cmds : List AppCommand) : Prop where
  source : app.syntheticSource = app₀.syntheticSource.map fun source =>
    { source with
      targetSampleRate := (cmds.filterMap rate?).getLast?.getD source.targetSampleRate
      paused := switched source.paused .togglePaused cmds }
  sent : app.transportSource = app₀.transportSource.map (· ++ cmds.filterMap ipc?)
  mode : app.decStage.map DecimationStage.mode = app₀.decStage.map fun stage =>
    nextDecimationMode^[cmds.count .cycleDecimationMode] stage.mode
  dumps : app.debugDumps = app₀.debugDumps + cmds.count .debugDump
  vsync : app.vsync = switched app₀.vsync .toggleVsync cmds
  close : app.windowShouldClose = (app₀.windowShouldClose || cmds.contains .quit)
  rate : app.currentSampleRate = (cmds.filterMap rate?).getLast?.getD app₀.currentSampleRate
  paused : app.currentPaused = switched app₀.currentPaused .togglePaused cmds

variable {app app₀ : AppComponents} {cmds : List AppCommand} {cmd : AppCommand}

@[simp] theorem switched_nil (b : Bool) (cmd : AppCommand) : switched b cmd [] = b := by simp [switched]

@[simp] theorem switched_concat (b : Bool) (cmd other : AppCommand) (cmds : List AppCommand) :
    switched b cmd (cmds ++ [other]) = (switched b cmd cmds ^^ decide (other = cmd)) := by
  by_cases h : other = cmd <;> simp [switched, h]

theorem Applied.refl (app : AppComponents) : Applied app app [] := by
  constructor <;> simp

theorem map_mode_rate (stage : Option DecimationStage) (rate : ℚ) :
    (stage.map ({ · with sampleRate := rate })).map DecimationStage.mode = stage.map DecimationStage.mode := by
  cases stage <;> rfl

theorem map_mode_next (stage : Option DecimationStage) :
    (stage.map fun stage => { stage with mode := nextDecimationMode stage.mode }).map DecimationStage.mode =
      (stage.map DecimationStage.mode).map nextDecimationMode := by
  cases stage <;> rfl

/-- The source or the transport, and what a command does to them. -/
theorem process_source (hwired : app₀.Wired) (h : Applied app₀ app cmds) (cmd : AppCommand) :
    (app.process cmd).syntheticSource = app₀.syntheticSource.map (fun source =>
      { source with
        targetSampleRate := ((cmds ++ [cmd]).filterMap rate?).getLast?.getD source.targetSampleRate
        paused := switched source.paused .togglePaused (cmds ++ [cmd]) }) ∧
    (app.process cmd).transportSource = app₀.transportSource.map (· ++ (cmds ++ [cmd]).filterMap ipc?) ∧
    (app.process cmd).currentPaused = switched app₀.currentPaused .togglePaused (cmds ++ [cmd]) := by
  have hone := hwired.one
  have hsource := h.source
  have hsent := h.sent
  have hpaused := h.paused
  cases hs : app₀.syntheticSource with
  | some source =>
    have hpaused₀ := hwired.paused source (by rw [hs]; exact rfl)
    cases ht : app₀.transportSource with
    | some sent =>
      rw [hs, ht] at hone
      cases hone
    | none =>
      rw [hs, Option.map_some] at hsource
      rw [ht, Option.map_none] at hsent
      cases cmd <;> simp [AppComponents.process, hsource, hsent, hpaused, hpaused₀, rate?, SyntheticSource.set]
  | none =>
    rw [hs, Option.map_none] at hsource
    cases ht : app₀.transportSource with
    | some sent =>
      rw [ht, Option.map_some] at hsent
      cases cmd <;> simp [AppComponents.process, sendCommand, hsource, hsent, hpaused, ipc?]
    | none =>
      rw [hs, ht] at hone
      cases hone

/-- A rate changes nothing else. -/
theorem process_setSampleRate (app : AppComponents) (rate : ℚ) : ∃ source sent,
    app.process (.setSampleRate rate) =
      { app with
        syntheticSource := source
        transportSource := sent
        decStage := app.decStage.map ({ · with sampleRate := rate })
        currentSampleRate := rate } := by
  unfold AppComponents.process
  cases app.syntheticSource with
  | some source => exact ⟨_, _, rfl⟩
  | none => exact ⟨_, _, rfl⟩

theorem process_togglePaused (app : AppComponents) : ∃ source sent paused,
    app.process .togglePaused =
      { app with syntheticSource := source, transportSource := sent, currentPaused := paused } := by
  unfold AppComponents.process
  cases app.syntheticSource with
  | some source => exact ⟨_, _, _, rfl⟩
  | none =>
    dsimp only
    split
    · exact ⟨_, _, _, rfl⟩
    · exact ⟨_, _, _, rfl⟩

theorem process_mode (h : Applied app₀ app cmds) (cmd : AppCommand) :
    (app.process cmd).decStage.map DecimationStage.mode = app₀.decStage.map fun stage =>
      nextDecimationMode^[(cmds ++ [cmd]).count .cycleDecimationMode] stage.mode := by
  have hmode := h.mode
  cases cmd with
  | setSampleRate rate =>
    obtain ⟨source, sent, hprocess⟩ := process_setSampleRate app rate
    rw [hprocess]
    simpa [map_mode_rate, -Option.map_map] using hmode
  | togglePaused =>
    obtain ⟨source, sent, paused, hprocess⟩ := process_togglePaused app
    rw [hprocess]
    simpa using hmode
  | cycleDecimationMode =>
    refine (map_mode_next app.decStage).trans ?_
    rw [hmode, Option.map_map, List.count_append, List.count_singleton_self]
    congr 1
    funext stage
    exact (Function.iterate_succ_apply' ..).symm
  | _ => simpa [AppComponents.process] using hmode

/-- **One command**: each component follows the commands that are for it. -/
theorem Applied.process (hwired : app₀.Wired) (h : Applied app₀ app cmds) (cmd : AppCommand) :
    Applied app₀ (app.process cmd) (cmds ++ [cmd]) := by
  obtain ⟨hsource, hsent, hpaused⟩ := process_source hwired h cmd
  refine ⟨hsource, hsent, process_mode h cmd, ?_, ?_, ?_, ?_, hpaused⟩
  all_goals clear hsource hsent hpaused
  all_goals
    cases cmd with
    | setSampleRate rate =>
      obtain ⟨source, sent, hprocess⟩ := process_setSampleRate app rate
      rw [hprocess]
      simp [h.dumps, h.vsync, h.close, rate?]
    | togglePaused =>
      obtain ⟨source, sent, paused, hprocess⟩ := process_togglePaused app
      rw [hprocess]
      simp [h.dumps, h.vsync, h.close, h.rate, rate?]
    | _ => simp [AppComponents.process, h.dumps, h.vsync, h.close, h.rate, rate?, Nat.add_assoc]

theorem Applied.foldl (hwired : app₀.Wired) (h : Applied app₀ app cmds) (more : List AppCommand) :
    Applied app₀ (more.foldl AppComponents.process app) (cmds ++ more) := by
  induction more generalizing app cmds with
  | nil => rwa [List.append_nil]
  | cons cmd more ih =>
    rw [List.append_cons]
    exact ih (h.process hwired cmd)

/-- `process` leaves the queue alone. -/
theorem cmdQueue_process (app : AppComponents) (cmd : AppCommand) : (app.process cmd).cmdQueue = app.cmdQueue := by
  cases cmd with
  | setSampleRate rate =>
    obtain ⟨source, sent, hprocess⟩ := process_setSampleRate app rate
    rw [hprocess]
  | togglePaused =>
    obtain ⟨source, sent, paused, hprocess⟩ := process_togglePaused app
    rw [hprocess]
  | _ => rfl

theorem cmdQueue_foldl (app : AppComponents) (cmds : List AppCommand) :
    (cmds.foldl AppComponents.process app).cmdQueue = app.cmdQueue := by
  induction cmds generalizing app with
  | nil => rfl
  | cons cmd cmds ih => exact (ih _).trans (cmdQueue_process app cmd)

theorem Applied.queue (h : Applied app₀ app cmds) (queue : List AppCommand) :
    Applied app₀ { app with cmdQueue := queue } cmds :=
  ⟨h.source, h.sent, h.mode, h.dumps, h.vsync, h.close, h.rate, h.paused⟩

/-- What has been pushed is processed, in its order, or still in the queue. -/
structure Processed (app₀ app : AppComponents) (pushed : List AppCommand) : Prop where
  applied : ∃ cmds, pushed = cmds ++ app.cmdQueue ∧ Applied app₀ app cmds
  ipc : app.isIpcMode = app₀.isIpcMode

theorem Applied.isIpcMode (h : Applied app₀ app cmds) : app.isIpcMode = app₀.isIpcMode := by
  rw [AppComponents.isIpcMode, AppComponents.isIpcMode, h.sent, Option.isSome_map]

/-- One event. -/
theorem Processed.event (hwired : app₀.Wired) {pushed : List AppCommand} (h : Processed app₀ app pushed) (e : Event) :
    Processed app₀ (app.event e) (pushed ++ e.pushes app₀.isIpcMode) := by
  obtain ⟨⟨cmds, hpushed, happlied⟩, hipc⟩ := h
  cases e with
  | key k =>
    refine ⟨⟨cmds, ?_, happlied.queue _⟩, hipc⟩
    rw [hpushed, List.append_assoc, ← hipc]
    rfl
  | profiler cmd =>
    refine ⟨⟨cmds, ?_, happlied.queue _⟩, hipc⟩
    rw [hpushed, List.append_assoc]
    rfl
  | processCommands =>
    have hall := (happlied.queue []).foldl hwired app.cmdQueue
    refine ⟨⟨pushed, ?_, ?_⟩, hall.isIpcMode⟩
    · show pushed ++ [] = pushed ++ (app.cmdQueue.foldl AppComponents.process { app with cmdQueue := [] }).cmdQueue
      rw [cmdQueue_foldl]
    · rw [hpushed]
      exact hall
  | syncRate dataRate =>
    show Processed app₀ (app.syncRate dataRate) (pushed ++ [])
    rw [List.append_nil]
    unfold AppComponents.syncRate
    split
    · refine ⟨⟨cmds, hpushed, happlied.source, happlied.sent, ?_, happlied.dumps, happlied.vsync, happlied.close,
        happlied.rate, happlied.paused⟩, hipc⟩
      rw [map_mode_rate, happlied.mode]
    · exact ⟨⟨cmds, hpushed, happlied⟩, hipc⟩

/-- The commands that these events push. -/
def pushed (isIpcMode : Bool) (events : List Event) : List AppCommand := events.flatMap (Event.pushes isIpcMode)

theorem Processed.run (hwired : app₀.Wired) {already : List AppCommand} (h : Processed app₀ app already)
    (events : List Event) : Processed app₀ (app.run events) (already ++ pushed app₀.isIpcMode events) := by
  induction events generalizing app already with
  | nil =>
    rw [pushed, List.flatMap_nil, List.append_nil]
    exact h
  | cons e events ih =>
    have hrest := ih (h.event hwired e)
    rw [List.append_assoc] at hrest
    exact hrest

/-- A key does nothing to the transport. -/
theorem ipc_key {k : Key} {cmd : AppCommand} (hcmd : cmd ∈ keyCallback true k) : ipc? cmd = none := by
  cases k <;> simp_all [keyCallback, ipc?]

/-- **Every command is processed once, in the order of the pushes**, or is still in the queue: the source has the latest
rate and the mode has gone around once for each key, the two places that say whether it is paused agree, and the window
closes exactly for a quit.  What an IPC mode sends comes from the profiler. -/
theorem run_applied (hwired : app₀.Wired) (hqueue : app₀.cmdQueue = []) (events : List Event) :
    ∃ cmds, pushed app₀.isIpcMode events = cmds ++ (app₀.run events).cmdQueue ∧ Applied app₀ (app₀.run events) cmds ∧
      (app₀.run (events ++ [.processCommands])).cmdQueue = [] ∧ (app₀.run events).Wired ∧
      (app₀.isIpcMode = true → ∀ p ∈ cmds.filterMap ipc?,
        ∃ cmd, .profiler cmd ∈ events ∧ ipc? cmd = some p) := by
  have hstart : Processed app₀ app₀ [] := ⟨⟨[], by rw [hqueue]; rfl, .refl app₀⟩, rfl⟩
  obtain ⟨⟨cmds, hpushed, happlied⟩, -⟩ := hstart.run hwired events
  rw [List.nil_append] at hpushed
  refine ⟨cmds, hpushed, happlied, ?_, ⟨?_, ?_⟩, ?_⟩
  · rw [run, List.foldl_append]
    exact cmdQueue_foldl ..
  · rw [happlied.source, happlied.sent, Option.isSome_map, Option.isSome_map, hwired.one]
  · rw [happlied.source, happlied.paused]
    intro source hsource
    obtain ⟨source₀, hsource₀, rfl⟩ := Option.map_eq_some_iff.mp hsource
    rw [hwired.paused source₀ hsource₀]
  · intro hipc p hp
    obtain ⟨cmd, hcmd, hsend⟩ := List.mem_filterMap.mp hp
    have hmem : cmd ∈ pushed app₀.isIpcMode events := by
      rw [hpushed]
      exact List.mem_append_left _ hcmd
    rw [hipc] at hmem
    obtain ⟨e, he, hcmd'⟩ := List.mem_flatMap.mp hmem
    cases e with
    | key k =>
      rw [ipc_key hcmd'] at hsend
      cases hsend
    | profiler cmd' =>
      obtain rfl := List.mem_singleton.mp hcmd'
      exact ⟨cmd, he, hsend⟩
    | processCommands => cases hcmd'
    | syncRate dataRate => cases hcmd'

/-- The IPC mode at the beginning of `run_main_loop`. -/
def ipcStart : AppComponents where
  syntheticSource := none
  transportSource := some []
  decStage := some { mode := .minMax, targetPoints := 3840 }
  vsync := true

/-- A profile in IPC mode: the keys of the user send nothing. -/
theorem run_applied_ipc : ipcStart.Wired ∧ ipcStart.cmdQueue = [] ∧
    (ipcStart.run [.key (.digit 2), .profiler (.setSampleRate 1000000), .key .space, .processCommands,
      .key .escape]).transportSource = some [(IpcCommand.SET_SAMPLE_RATE, 1000000)] := by
  have hwired : ipcStart.Wired := ⟨rfl, nofun⟩
  refine ⟨hwired, rfl, ?_⟩
  obtain ⟨cmds, hpushed, happlied, -⟩ := run_applied hwired rfl
    [.key (.digit 2), .profiler (.setSampleRate 1000000), .key .space, .processCommands, .key .escape]
  have hcmds : cmds ++ [.quit] = [.setSampleRate 1000000] ++ [.quit] := hpushed.symm
  obtain rfl := List.append_cancel_right hcmds
  exact happlied.sent

end Runs

end AppComponents

end Grebe
