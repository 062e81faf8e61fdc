import Mathlib.Tactic
import Grebe.Lib.Lts
import Grebe.Contracts

/-!
# Grebe.SgCommands — the viewer's commands on their way to the generator

`process_commands` of the viewer writes a command into the pipe.  In `grebe-sg` the thread of `command_reader_func` takes
it out and stores it into one of two atomics, and the main loop exchanges both atomics once in each iteration.  Each of
these operations is one step here, so that any number of commands fits between two polls.

* `lost`: the commands that were overwritten in an atomic, a toggle by a toggle and a rate by one that is no rate.
* `Kept`: a store comes only when the main loop has taken what it would overwrite.  `lossless_iff`: the runs whose
  stores are such are those without a loss.
* `commands_arrive`: in them, the generator is paused as the viewer says, at the last rate it sent, whenever nothing is
  on its way.  In any run it is paused as the viewer says where an even number of toggles is lost.
* `toggles_between_polls`: two toggles between two polls are one.
-/

namespace Grebe

open Lib

/-! ## Commands -/

section Commands

def IPC_COMMAND_MAGIC : UInt32 := 0x32434947

structure IpcCommand where
  magic : UInt32 := IPC_COMMAND_MAGIC
  type : UInt32 := 0
  value : Double := 0
deriving DecidableEq

namespace IpcCommand

def SET_SAMPLE_RATE : UInt32 := 1

def TOGGLE_PAUSED : UInt32 := 2

def QUIT : UInt32 := 3

/-- The layout of `IpcCommand`: its fields in their order. -/
def layout : Codec IpcCommand :=
  (u32.prod (u32.prod double)).map (fun c => (c.magic, c.type, c.value))
    (fun (magic, type, value) => { magic, type, value }) fun _ => rfl

/-- A command that toggles. -/
def isToggle (c : IpcCommand) : Bool := c.type = TOGGLE_PAUSED

/-- The rate of a command that sets one. -/
def rate? (c : IpcCommand) : Option Double := if c.type = SET_SAMPLE_RATE then some c.value else none

/-- `PipeProducer::receive_command` on what is in the pipe: the command, if it returns true, and the rest.  `none`: it
waits for the rest of a command. -/
def receiveCommand (pipe : List UInt8) : Option (Option IpcCommand × List UInt8) :=
  if pipe = [] then some (none, [])
  else if pipe.length < layout.width then none
  else
    let cmd := layout.decode pipe
    some (if cmd.magic ≠ IPC_COMMAND_MAGIC then none else some cmd, pipe.drop layout.width)

end IpcCommand

end Commands

/-! ## State -/

section State

/-- Where the command reader is. -/
inductive CommandReaderPc
  | receiving
  | handling (cmd : IpcCommand)
deriving DecidableEq

/-- Where the main loop is. -/
inductive CommandLoopPc
  | exchangeRate
  | setRate (newRate : Double)
  | setCurrent (newRate : Double)
  | exchangeToggle
  | setPaused
deriving DecidableEq

/-- Viewer, pipe and generator. -/
structure SgCommands where
  /-- of the viewer -/
  currentPaused : Bool
  /-- `process_commands` has sent a toggle and has not yet stored `current_paused` -/
  storing : Bool
  pipe : List UInt8
  reader : CommandReaderPc
  cmdSampleRate : Double
  cmdTogglePaused : Bool
  stopRequested : Bool
  main : CommandLoopPc
  /-- `target_sample_rate_` of the generator -/
  targetSampleRate : Double
  currentSampleRate : Double
  /-- `paused_` of the generator -/
  paused : Bool
  /-- the rates that the viewer sent -/
  ratesSent : List Double
  /-- the commands overwritten in the atomics -/
  lost : List IpcCommand
deriving DecidableEq

end State

namespace SgCommands

/-! ## Steps -/

section Steps

inductive Label
  /-- the viewer sends `SET_SAMPLE_RATE` -/
  | sendRate (rate : Double)
  /-- the viewer sends `TOGGLE_PAUSED` -/
  | sendToggle
  /-- the viewer stores `current_paused` -/
  | storePaused
  /-- `receive_command` of the reader -/
  | receive
  /-- the switch of the reader -/
  | handle
  /-- the next operation of the main loop -/
  | poll
deriving DecidableEq

/-- Both sides are started, the generator at `rate`. -/
def started (rate : Double) : SgCommands where
  currentPaused := false
  storing := false
  pipe := []
  reader := .receiving
  cmdSampleRate := 0
  cmdTogglePaused := false
  stopRequested := false
  main := .exchangeRate
  targetSampleRate := rate
  currentSampleRate := rate
  paused := false
  ratesSent := []
  lost := []

variable (s : SgCommands)

/-- What a store of `value` to `cmd_sample_rate` loses. -/
def lostRate (value : Double) : List IpcCommand :=
  if s.cmdSampleRate.pos ∧ ¬ value.pos then [{ type := IpcCommand.SET_SAMPLE_RATE, value := s.cmdSampleRate }] else []

/-- What a store to `cmd_toggle_paused` loses. -/
def lostToggle (cmd : IpcCommand) : List IpcCommand := if s.cmdTogglePaused then [cmd] else []

/-- The switch of `command_reader_func`. -/
def handle (cmd : IpcCommand) : SgCommands :=
  if cmd.type = IpcCommand.SET_SAMPLE_RATE then
    { s with reader := .receiving, cmdSampleRate := cmd.value, lost := s.lost ++ s.lostRate cmd.value }
  else if cmd.type = IpcCommand.TOGGLE_PAUSED then
    { s with reader := .receiving, cmdTogglePaused := true, lost := s.lost ++ s.lostToggle cmd }
  else if cmd.type = IpcCommand.QUIT then { s with reader := .receiving, stopRequested := true }
  else { s with reader := .receiving }

/-- The next operation of the main loop. -/
def poll : Option SgCommands :=
  match s.main with
  | .exchangeRate =>
    if s.stopRequested then none
    else
      let newRate := s.cmdSampleRate
      some { s with cmdSampleRate := 0, main := if newRate.pos then .setRate newRate else .exchangeToggle }
  | .setRate newRate => some { s with targetSampleRate := newRate, main := .setCurrent newRate }
  | .setCurrent newRate => some { s with currentSampleRate := newRate, main := .exchangeToggle }
  | .exchangeToggle =>
    some { s with cmdTogglePaused := false, main := if s.cmdTogglePaused then .setPaused else .exchangeRate }
  | .setPaused => some { s with paused := !s.paused, main := .exchangeRate }

def step : Label → Option SgCommands
  | .sendRate rate =>
    if s.storing then none
    else
      some { s with
        pipe := s.pipe ++ IpcCommand.layout.encode { type := IpcCommand.SET_SAMPLE_RATE, value := rate }
        ratesSent := s.ratesSent ++ [rate] }
  | .sendToggle =>
    if s.storing then none
    else
      some { s with
        pipe := s.pipe ++ IpcCommand.layout.encode { type := IpcCommand.TOGGLE_PAUSED }
        storing := true }
  | .storePaused => if s.storing then some { s with currentPaused := !s.currentPaused, storing := false } else none
  | .receive =>
    match s.reader with
    | .receiving =>
      if s.stopRequested then none
      else
        (IpcCommand.receiveCommand s.pipe).map fun r =>
          { s with pipe := r.2, reader := r.1.elim .receiving .handling }
    | .handling _ => none
  | .handle =>
    match s.reader with
    | .receiving => none
    | .handling cmd => some (s.handle cmd)
  | .poll => s.poll

def commanding (rate : Double) : Lts SgCommands Label where
  init s := s = started rate
  step := step

/-- No command is on its way: not in `process_commands`, the pipe or the reader, nor pending in an atomic, nor taken by
the main loop and not yet applied. -/
def Quiescent : Prop :=
  s.storing = false ∧ s.pipe = [] ∧ s.reader = .receiving ∧ s.cmdSampleRate.pos = false ∧ s.cmdTogglePaused = false ∧
    (s.main = .exchangeRate ∨ s.main = .exchangeToggle)

instance : Decidable s.Quiescent := inferInstanceAs (Decidable (_ ∧ _))

/-- What one step does. -/
inductive Step : Label → SgCommands → Prop
  | sendRate (rate : Double) : Step (.sendRate rate)
      { s with
        pipe := s.pipe ++ IpcCommand.layout.encode { type := IpcCommand.SET_SAMPLE_RATE, value := rate }
        ratesSent := s.ratesSent ++ [rate] }
  | sendToggle (h : s.storing = false) : Step .sendToggle
      { s with
        pipe := s.pipe ++ IpcCommand.layout.encode { type := IpcCommand.TOGGLE_PAUSED }
        storing := true }
  | storePaused (h : s.storing = true) :
      Step .storePaused { s with currentPaused := !s.currentPaused, storing := false }
  | receive (cmd : Option IpcCommand) (rest : List UInt8) (hreader : s.reader = .receiving)
      (hcmd : IpcCommand.receiveCommand s.pipe = some (cmd, rest)) :
      Step .receive { s with pipe := rest, reader := cmd.elim .receiving .handling }
  | handle (cmd : IpcCommand) (hreader : s.reader = .handling cmd) : Step .handle (s.handle cmd)
  | exchangeRate (hmain : s.main = .exchangeRate) : Step .poll
      { s with
        cmdSampleRate := 0
        main := if s.cmdSampleRate.pos then .setRate s.cmdSampleRate else .exchangeToggle }
  | setRate (newRate : Double) (hmain : s.main = .setRate newRate) :
      Step .poll { s with targetSampleRate := newRate, main := .setCurrent newRate }
  | setCurrent (newRate : Double) (hmain : s.main = .setCurrent newRate) :
      Step .poll { s with currentSampleRate := newRate, main := .exchangeToggle }
  | exchangeToggle (hmain : s.main = .exchangeToggle) : Step .poll
      { s with cmdTogglePaused := false, main := if s.cmdTogglePaused then .setPaused else .exchangeRate }
  | setPaused (hmain : s.main = .setPaused) : Step .poll { s with paused := !s.paused, main := .exchangeRate }

variable {s}

theorem step_cases {l : Label} {s' : SgCommands} (h : s.step l = some s') : s.Step l s' := by
  cases l with
  | sendRate rate =>
    simp only [step] at h
    split at h
    · cases h
    · cases h
      exact .sendRate rate
  | sendToggle =>
    simp only [step] at h
    split at h
    · cases h
    · cases h
      exact .sendToggle (Bool.eq_false_of_not_eq_true ‹_›)
  | storePaused =>
    simp only [step] at h
    split at h
    · cases h
      exact .storePaused ‹_›
    · cases h
  | receive =>
    simp only [step] at h
    split at h
    · split at h
      · cases h
      · obtain ⟨⟨cmd, rest⟩, hcmd, rfl⟩ := Option.map_eq_some_iff.mp h
        exact .receive cmd rest ‹_› hcmd
    · cases h
  | handle =>
    simp only [step] at h
    split at h
    · cases h
    · cases h
      exact .handle _ ‹_›
  | poll =>
    simp only [step, poll] at h
    split at h
    case h_1 hmain =>
      split at h
      · cases h
      · cases h
        exact .exchangeRate hmain
    case h_2 newRate hmain =>
      cases h
      exact .setRate newRate hmain
    case h_3 newRate hmain =>
      cases h
      exact .setCurrent newRate hmain
    case h_4 hmain =>
      cases h
      exact .exchangeToggle hmain
    case h_5 hmain =>
      cases h
      exact .setPaused hmain

end Steps

/-! ## Commands on their way -/

section Flight

variable {s s' : SgCommands} {cmds : List IpcCommand} {l : Label}

/-- A command that `process_commands` sends. -/
def Ours (c : IpcCommand) : Prop :=
  c.magic = IPC_COMMAND_MAGIC ∧ (c.type = IpcCommand.SET_SAMPLE_RATE ∨ c.type = IpcCommand.TOGGLE_PAUSED)

/-- The command that the reader has in hand. -/
def inReader (s : SgCommands) : List IpcCommand :=
  match s.reader with
  | .receiving => []
  | .handling cmd => [cmd]

/-- An odd number of commands toggle. -/
def odd (cmds : List IpcCommand) : Bool := (cmds.countP IpcCommand.isToggle).bodd

@[simp] theorem odd_nil : odd [] = false := rfl

@[simp] theorem odd_append (a b : List IpcCommand) : odd (a ++ b) = (odd a ^^ odd b) := by
  rw [odd, List.countP_append, Nat.bodd_add, odd, odd]

theorem odd_singleton (c : IpcCommand) : odd [c] = c.isToggle := by
  rw [odd, List.countP_singleton]
  cases c.isToggle <;> rfl

/-- The commands `cmds` are in the pipe, and every toggle is where it can be: applied, taken by the main loop, in the
atomic, with the reader, in the pipe or lost. -/
structure Flight (s : SgCommands) (cmds : List IpcCommand) : Prop where
  pipe : s.pipe = IpcCommand.layout.encodeAll cmds
  ours : ∀ c ∈ s.inReader ++ cmds, Ours c
  running : s.stopRequested = false
  toggles : (s.paused ^^ decide (s.main = .setPaused) ^^ s.cmdTogglePaused ^^ odd (s.inReader ++ cmds) ^^ odd s.lost) =
    (s.currentPaused ^^ s.storing)

/-- The commands in the pipe after a step. -/
def pipeAfter : Label → List IpcCommand → List IpcCommand
  | .sendRate rate, cmds => cmds ++ [{ type := IpcCommand.SET_SAMPLE_RATE, value := rate }]
  | .sendToggle, cmds => cmds ++ [{ type := IpcCommand.TOGGLE_PAUSED }]
  | .receive, cmds => cmds.tail
  | _, cmds => cmds

theorem encodeAll_snoc (cmds : List IpcCommand) (c : IpcCommand) :
    IpcCommand.layout.encodeAll (cmds ++ [c]) = IpcCommand.layout.encodeAll cmds ++ IpcCommand.layout.encode c := by
  simp [Codec.encodeAll]

/-- Whole commands come out of the pipe as they went in. -/
theorem receiveCommand_encodeAll (h : ∀ c ∈ cmds, c.magic = IPC_COMMAND_MAGIC) :
    IpcCommand.receiveCommand (IpcCommand.layout.encodeAll cmds) =
      some (cmds.head?, IpcCommand.layout.encodeAll cmds.tail) := by
  cases cmds with
  | nil => rfl
  | cons c cmds =>
    have hlen : (IpcCommand.layout.encode c).length = IpcCommand.layout.width := IpcCommand.layout.length_encode c
    have hfull : ¬ (IpcCommand.layout.encode c ++ IpcCommand.layout.encodeAll cmds).length <
        IpcCommand.layout.width := by
      rw [List.length_append, hlen]
      omega
    have hne : ¬ IpcCommand.layout.encode c ++ IpcCommand.layout.encodeAll cmds = [] := by
      intro hnil
      rw [hnil] at hfull
      exact hfull (by decide)
    have hmagic : ¬ c.magic ≠ IPC_COMMAND_MAGIC := not_not.mpr (h c List.mem_cons_self)
    rw [Codec.encodeAll_cons, IpcCommand.receiveCommand, if_neg hne, if_neg hfull]
    simp only [IpcCommand.layout.decode_encode, if_neg hmagic, List.drop_left' hlen, List.head?_cons, List.tail_cons]

/-- A receive takes the first command of the pipe, if there is one. -/
theorem Flight.received (h : Flight s cmds) {cmd : Option IpcCommand} {rest : List UInt8}
    (hreader : s.reader = .receiving) (hcmd : IpcCommand.receiveCommand s.pipe = some (cmd, rest)) :
    cmd = cmds.head? ∧ rest = IpcCommand.layout.encodeAll cmds.tail ∧ s.inReader = [] := by
  have hall : ∀ c ∈ cmds, c.magic = IPC_COMMAND_MAGIC := fun c hc => (h.ours c (List.mem_append_right _ hc)).1
  rw [h.pipe, receiveCommand_encodeAll hall, Option.some.injEq, Prod.mk.injEq] at hcmd
  exact ⟨hcmd.1.symm, hcmd.2.symm, by rw [inReader, hreader]⟩

theorem inReader_received (cmds : List IpcCommand) (pipe : List UInt8) :
    inReader { s with pipe := pipe, reader := cmds.head?.elim .receiving .handling } ++ cmds.tail = cmds := by
  cases cmds <;> rfl

/-- What the switch does with a command of the viewer. -/
theorem handle_cases {cmd : IpcCommand} (h : Ours cmd) :
    (cmd.type = IpcCommand.SET_SAMPLE_RATE ∧ s.handle cmd =
      { s with reader := .receiving, cmdSampleRate := cmd.value, lost := s.lost ++ s.lostRate cmd.value }) ∨
    (cmd.type = IpcCommand.TOGGLE_PAUSED ∧ s.handle cmd =
      { s with reader := .receiving, cmdTogglePaused := true, lost := s.lost ++ s.lostToggle cmd }) := by
  rcases h.2 with hset | htoggle
  · exact .inl ⟨hset, if_pos hset⟩
  · have hset : ¬ cmd.type = IpcCommand.SET_SAMPLE_RATE := by
      rw [htoggle]
      decide
    exact .inr ⟨htoggle, by rw [handle, if_neg hset, if_pos htoggle]⟩

theorem odd_lostRate (value : Double) : odd (s.lostRate value) = false := by
  unfold lostRate
  split
  · rw [odd_singleton]
    rfl
  · rfl

theorem odd_lostToggle {cmd : IpcCommand} (h : cmd.isToggle = true) :
    odd (s.lostToggle cmd) = s.cmdTogglePaused := by
  unfold lostToggle
  cases s.cmdTogglePaused with
  | false => rw [if_neg Bool.false_ne_true, odd_nil]
  | true => rw [if_pos rfl, odd_singleton, h]

/-- The reader stores a command into its atomic, and perhaps loses the one before. -/
theorem flight_handle {cmd : IpcCommand} (h : Flight s cmds) (hreader : s.reader = .handling cmd) :
    Flight (s.handle cmd) cmds := by
  have hcmd : s.inReader = [cmd] := by rw [inReader, hreader]
  have hall := h.ours
  have htoggles := h.toggles
  rw [hcmd] at hall htoggles
  rw [odd_append, odd_singleton] at htoggles
  have hrest : ∀ c ∈ cmds, Ours c := fun c hc => hall c (List.mem_append_right _ hc)
  rcases handle_cases (s := s) (hall cmd List.mem_cons_self) with ⟨htype, hhandle⟩ | ⟨htype, hhandle⟩
  · have htoggle : cmd.isToggle = false := by
      rw [IpcCommand.isToggle, htype]
      rfl
    rw [hhandle]
    refine ⟨h.pipe, hrest, h.running, ?_⟩
    show (s.paused ^^ decide (s.main = .setPaused) ^^ s.cmdTogglePaused ^^ odd cmds ^^
      odd (s.lost ++ s.lostRate cmd.value)) = (s.currentPaused ^^ s.storing)
    rw [odd_append, odd_lostRate]
    grind
  · have htoggle : cmd.isToggle = true := by
      rw [IpcCommand.isToggle, htype]
      rfl
    rw [hhandle]
    refine ⟨h.pipe, hrest, h.running, ?_⟩
    show (s.paused ^^ decide (s.main = .setPaused) ^^ true ^^ odd cmds ^^ odd (s.lost ++ s.lostToggle cmd)) =
      (s.currentPaused ^^ s.storing)
    rw [odd_append, odd_lostToggle htoggle]
    grind

theorem flight_step (h : Flight s cmds) (hst : s.step l = some s') : Flight s' (pipeAfter l cmds) := by
  have htoggles := h.toggles
  have hours : ∀ c, Ours c → ∀ x ∈ s.inReader ++ (cmds ++ [c]), Ours x := by
    intro c hc x hx
    rw [← List.append_assoc] at hx
    rcases List.mem_append.mp hx with hx | hx
    · exact h.ours x hx
    · rwa [List.mem_singleton.mp hx]
  rcases step_cases hst with rate | hstoring | hstoring | ⟨cmd, rest, hreader, hcmd⟩ | ⟨cmd, hreader⟩ | hmain |
    ⟨newRate, hmain⟩ | ⟨newRate, hmain⟩ | hmain | hmain
  case sendRate =>
    refine ⟨?_, hours _ ⟨rfl, .inl rfl⟩, h.running, ?_⟩
    · rw [h.pipe, pipeAfter, encodeAll_snoc]
    · show (s.paused ^^ decide (s.main = .setPaused) ^^ s.cmdTogglePaused ^^ odd (s.inReader ++ (cmds ++ [_])) ^^
        odd s.lost) = (s.currentPaused ^^ s.storing)
      rw [← List.append_assoc, odd_append, odd_singleton, show IpcCommand.isToggle _ = false from rfl, Bool.xor_false]
      exact htoggles
  case sendToggle =>
    refine ⟨?_, hours _ ⟨rfl, .inr rfl⟩, h.running, ?_⟩
    · rw [h.pipe, pipeAfter, encodeAll_snoc]
    · show (s.paused ^^ decide (s.main = .setPaused) ^^ s.cmdTogglePaused ^^ odd (s.inReader ++ (cmds ++ [_])) ^^
        odd s.lost) = (s.currentPaused ^^ true)
      rw [← List.append_assoc, odd_append, odd_singleton, show IpcCommand.isToggle _ = true from rfl]
      grind
  case storePaused =>
    refine ⟨h.pipe, h.ours, h.running, ?_⟩
    show (s.paused ^^ decide (s.main = .setPaused) ^^ s.cmdTogglePaused ^^ odd (s.inReader ++ cmds) ^^ odd s.lost) =
      (!s.currentPaused ^^ false)
    rw [htoggles, hstoring]
    simp
  case receive =>
    obtain ⟨rfl, rfl, hnone⟩ := h.received hreader hcmd
    have hours' := h.ours
    rw [hnone, List.nil_append] at htoggles hours'
    refine ⟨rfl, ?_, h.running, ?_⟩
    · rw [pipeAfter, inReader_received]
      exact hours'
    · rw [pipeAfter, inReader_received]
      exact htoggles
  case handle => exact flight_handle h hreader
  case exchangeRate =>
    refine ⟨h.pipe, h.ours, h.running, ?_⟩
    have hnot : decide ((if s.cmdSampleRate.pos then CommandLoopPc.setRate s.cmdSampleRate else .exchangeToggle) =
        .setPaused) = decide (s.main = .setPaused) := by
      rw [hmain]
      split <;> rfl
    rw [← htoggles, ← hnot]
    rfl
  case setRate =>
    rw [hmain] at htoggles
    exact ⟨h.pipe, h.ours, h.running, htoggles⟩
  case setCurrent =>
    rw [hmain] at htoggles
    exact ⟨h.pipe, h.ours, h.running, htoggles⟩
  case exchangeToggle =>
    refine ⟨h.pipe, h.ours, h.running, ?_⟩
    rw [hmain] at htoggles
    have hnext : decide ((if s.cmdTogglePaused then CommandLoopPc.setPaused else .exchangeRate) = .setPaused) =
        s.cmdTogglePaused := by
      cases s.cmdTogglePaused <;> rfl
    show (s.paused ^^ decide ((if s.cmdTogglePaused then CommandLoopPc.setPaused else .exchangeRate) = .setPaused) ^^ false ^^
      odd (s.inReader ++ cmds) ^^ odd s.lost) = (s.currentPaused ^^ s.storing)
    rw [hnext, ← htoggles]
    simp
  case setPaused =>
    refine ⟨h.pipe, h.ours, h.running, ?_⟩
    rw [hmain] at htoggles
    show (!s.paused ^^ false ^^ s.cmdTogglePaused ^^ odd (s.inReader ++ cmds) ^^ odd s.lost) =
      (s.currentPaused ^^ s.storing)
    rw [← htoggles]
    simp

theorem flight_started (rate : Double) : Flight (started rate) [] := by
  refine ⟨rfl, nofun, rfl, ?_⟩
  show (false ^^ decide (CommandLoopPc.exchangeRate = .setPaused) ^^ false ^^ odd [] ^^ odd []) = (false ^^ false)
  decide

theorem reach_flight {rate : Double} (hs : (commanding rate).Reachable s) : ∃ cmds, Flight s cmds := by
  refine hs.invariant (I := fun s => ∃ cmds, Flight s cmds) (fun t h0 => ?_) fun t l t' ⟨cmds, h⟩ _ hst =>
    ⟨_, flight_step h hst⟩
  rw [show t = started rate from h0]
  exact ⟨[], flight_started rate⟩

theorem Flight.quiescent (h : Flight s cmds) (hq : s.Quiescent) : s.inReader ++ cmds = [] := by
  obtain ⟨-, hpipe, hreader, -⟩ := hq
  have hlen := congrArg List.length (h.pipe.symm.trans hpipe)
  rw [Codec.length_encodeAll, List.length_nil] at hlen
  rw [inReader, hreader, List.nil_append]
  exact List.length_eq_zero_iff.mp ((Nat.mul_eq_zero.mp hlen).resolve_left (by decide))

/-- **Every lost toggle shows.**  Where nothing is on its way, generator and viewer agree if and only if an even number of
toggles is lost. -/
theorem paused_eq_iff {rate : Double} (hs : (commanding rate).Reachable s) (hq : s.Quiescent) :
    s.paused = s.currentPaused ↔ odd s.lost = false := by
  obtain ⟨cmds, h⟩ := reach_flight hs
  have htoggles := h.toggles
  rw [h.quiescent hq, odd_nil] at htoggles
  obtain ⟨hstoring, -, -, -, htoggle, hmain⟩ := hq
  have hnot : decide (s.main = .setPaused) = false := by
    rcases hmain with hmain | hmain <;> rw [hmain] <;> rfl
  rw [hnot, htoggle, hstoring] at htoggles
  grind

end Flight

/-! ## Runs without a loss -/

section Kept

variable {s s' : SgCommands} {cmds : List IpcCommand} {l : Label} {rate : Double}

/-- The reader stores a toggle only where none is pending, and what is no rate only where no rate is pending. -/
def Kept (s : SgCommands) : Label → Prop
  | .handle => ∀ cmd ∈ s.inReader, (cmd.type = IpcCommand.TOGGLE_PAUSED → s.cmdTogglePaused = false) ∧
      (cmd.type = IpcCommand.SET_SAMPLE_RATE → s.cmdSampleRate.pos = true → cmd.value.pos = true)
  | _ => True

instance (s : SgCommands) : ∀ l, Decidable (Kept s l)
  | .handle => inferInstanceAs (Decidable (∀ cmd ∈ s.inReader, _))
  | .sendRate _ | .sendToggle | .storePaused | .receive | .poll => inferInstanceAs (Decidable True)

theorem lost_handle {cmd : IpcCommand} (h : Ours cmd) (hlost : s.lost = []) :
    (s.handle cmd).lost ≠ [] ↔ ¬((cmd.type = IpcCommand.TOGGLE_PAUSED → s.cmdTogglePaused = false) ∧
      (cmd.type = IpcCommand.SET_SAMPLE_RATE → s.cmdSampleRate.pos = true → cmd.value.pos = true)) := by
  have hne : IpcCommand.TOGGLE_PAUSED ≠ IpcCommand.SET_SAMPLE_RATE := by decide
  rcases handle_cases (s := s) h with ⟨htype, hhandle⟩ | ⟨htype, hhandle⟩
  · rw [hhandle, htype]
    show s.lost ++ s.lostRate cmd.value ≠ [] ↔ _
    rw [hlost, List.nil_append, lostRate]
    split <;> simp_all [hne.symm]
  · rw [hhandle, htype]
    show s.lost ++ s.lostToggle cmd ≠ [] ↔ _
    rw [hlost, List.nil_append, lostToggle]
    split <;> simp_all

/-- **The runs without a loss are those whose stores find what they store to free.** -/
theorem lossless_iff (hs : (commanding rate).Reachable s) : s.lost = [] ↔ (commanding rate).Reach Kept s := by
  have hiff := hs.unmarked_iff Kept (fun s => s.lost ≠ []) ?_ ?_ ?_
  · rwa [not_not] at hiff
  · intro t h0
    rw [show t = started rate from h0]
    exact not_not.mpr rfl
  · intro t l t' hst hlost
    rcases step_cases hst with _ | _ | _ | _ | ⟨cmd, hreader⟩ | _ | _ | _ | _ | _
    case handle =>
      unfold handle
      split_ifs
      · exact fun h => hlost (List.append_eq_nil_iff.mp h).1
      · exact fun h => hlost (List.append_eq_nil_iff.mp h).1
      · exact hlost
      · exact hlost
    all_goals exact hlost
  · intro t l t' ht hlost hst
    rw [not_not] at hlost
    obtain ⟨cmds, h⟩ := reach_flight ht.reachable
    rcases step_cases hst with _ | _ | _ | _ | ⟨cmd, hreader⟩ | _ | _ | _ | _ | _
    case handle =>
      have hcmd : t.inReader = [cmd] := by rw [inReader, hreader]
      have hours : Ours cmd := h.ours cmd (by rw [hcmd]; exact List.mem_cons_self)
      rw [Kept, hcmd, List.forall_mem_singleton]
      exact lost_handle hours hlost
    all_goals exact iff_of_false (not_not.mpr hlost) (not_not.mpr trivial)

/-- The last rate of a list, or `rate`. -/
def lastRate (rate : Double) (rates : List Double) : Double :=
  rates.foldl (fun last r => if r.pos then r else last) rate

theorem lastRate_append (rate : Double) (a b : List Double) : lastRate rate (a ++ b) = lastRate (lastRate rate a) b :=
  List.foldl_append

theorem lastRate_cons_pos {r : Double} (h : r.pos = true) (rate : Double) (rates : List Double) :
    lastRate rate (r :: rates) = lastRate r rates := by
  rw [lastRate, List.foldl_cons, if_pos h, lastRate]

theorem lastRate_cons_not_pos {r : Double} (h : r.pos = false) (rate : Double) (rates : List Double) :
    lastRate rate (r :: rates) = lastRate rate rates := by
  rw [lastRate, List.foldl_cons, if_neg (by rw [h]; decide), lastRate]

/-- A rate over which a rate is stored does not count. -/
theorem lastRate_overwrite {x r : Double} (h : x.pos = true → r.pos = true) (rate : Double) (rates : List Double) :
    lastRate rate (x :: r :: rates) = lastRate rate (r :: rates) := by
  cases hx : x.pos with
  | false => exact lastRate_cons_not_pos hx _ _
  | true => rw [lastRate_cons_pos hx, lastRate_cons_pos (h hx), lastRate_cons_pos (h hx)]

/-- It is the last positive one, if there is one. -/
theorem lastRate_eq (rate : Double) (rates : List Double) :
    lastRate rate rates = (rates.filter Double.pos).getLast?.getD rate := by
  induction rates using List.reverseRecOn with
  | nil => rfl
  | append_singleton rates r ih =>
    rw [lastRate_append, List.filter_append]
    cases hr : r.pos with
    | false => rw [lastRate_cons_not_pos hr, List.filter_cons_of_neg (by simp [hr]), List.filter_nil, List.append_nil, ← ih,
        lastRate, List.foldl_nil]
    | true => rw [lastRate_cons_pos hr, List.filter_cons_of_pos hr, List.filter_nil, List.getLast?_concat, lastRate,
        List.foldl_nil, Option.getD_some]

/-- The rate that the main loop has in hand. -/
def inMain (s : SgCommands) : List Double :=
  match s.main with
  | .setRate newRate => [newRate]
  | _ => []

/-- What `current_sample_rate` is once the main loop has stored what it has in hand. -/
def nextCurrent (s : SgCommands) : Double :=
  match s.main with
  | .setCurrent newRate => newRate
  | _ => s.currentSampleRate

/-- The last rate sent is the last one on its way, or else the one that is applied. -/
structure Rates (rate : Double) (s : SgCommands) (cmds : List IpcCommand) : Prop where
  pos : ∀ r ∈ s.inMain, r.pos = true
  last : lastRate rate s.ratesSent = lastRate s.targetSampleRate
    (s.inMain ++ s.cmdSampleRate :: (s.inReader ++ cmds).filterMap IpcCommand.rate?)
  current : s.nextCurrent = s.targetSampleRate

theorem filterMap_snoc (s : SgCommands) (cmds : List IpcCommand) (c : IpcCommand) :
    s.inMain ++ s.cmdSampleRate :: (s.inReader ++ (cmds ++ [c])).filterMap IpcCommand.rate? =
      (s.inMain ++ s.cmdSampleRate :: (s.inReader ++ cmds).filterMap IpcCommand.rate?) ++ c.rate?.toList := by
  rw [← List.append_assoc s.inReader, List.filterMap_append, ← List.cons_append, List.append_assoc]
  cases hc : c.rate? with
  | none => rw [List.filterMap_cons_none hc, List.filterMap_nil, Option.toList_none]
  | some r => rw [List.filterMap_cons_some hc, List.filterMap_nil, Option.toList_some]

/-- The main loop goes on with no rate in hand, neither before nor after. -/
theorem Rates.roam (hr : Rates rate s cmds) (hin : s.inMain = []) (hin' : s'.inMain = [])
    (hsent : s'.ratesSent = s.ratesSent) (htarget : s'.targetSampleRate = s.targetSampleRate)
    (hcmd : s'.cmdSampleRate = s.cmdSampleRate) (hreader : s'.inReader = s.inReader)
    (hcurrent : s'.nextCurrent = s.nextCurrent) : Rates rate s' cmds where
  pos := by
    rw [hin']
    exact nofun
  last := by
    rw [hsent, htarget, hcmd, hreader, hin', ← hin]
    exact hr.last
  current := by rw [hcurrent, htarget, hr.current]

/-- The reader stores a command that overwrites no rate. -/
theorem rates_handle {cmd : IpcCommand} (h : Flight s cmds) (hr : Rates rate s cmds) (hkept : Kept s .handle)
    (hreader : s.reader = .handling cmd) : Rates rate (s.handle cmd) cmds := by
  have hcmd : s.inReader = [cmd] := by rw [inReader, hreader]
  have hmem : cmd ∈ s.inReader := by
    rw [hcmd]
    exact List.mem_cons_self
  have hours : Ours cmd := h.ours cmd (List.mem_append_left _ hmem)
  have hkeep := hkept cmd hmem
  have hlast := hr.last
  rw [hcmd] at hlast
  rcases handle_cases (s := s) hours with ⟨htype, hhandle⟩ | ⟨htype, hhandle⟩
  · have hrate : cmd.rate? = some cmd.value := if_pos htype
    rw [hhandle]
    refine ⟨hr.pos, ?_, hr.current⟩
    show lastRate rate s.ratesSent =
      lastRate s.targetSampleRate (s.inMain ++ cmd.value :: cmds.filterMap IpcCommand.rate?)
    rw [hlast, lastRate_append, List.singleton_append, List.filterMap_cons_some hrate,
      lastRate_overwrite (hkeep.2 htype), ← lastRate_append]
  · have hrate : cmd.rate? = none := if_neg (by rw [htype]; decide)
    rw [hhandle]
    refine ⟨hr.pos, ?_, hr.current⟩
    show lastRate rate s.ratesSent =
      lastRate s.targetSampleRate (s.inMain ++ s.cmdSampleRate :: cmds.filterMap IpcCommand.rate?)
    rw [hlast, List.singleton_append, List.filterMap_cons_none hrate]

theorem rates_step (h : Flight s cmds) (hr : Rates rate s cmds) (hkept : Kept s l) (hst : s.step l = some s') :
    Rates rate s' (pipeAfter l cmds) := by
  have hlast := hr.last
  have hzero : (0 : Double).pos = false := by decide
  rcases step_cases hst with r | hstoring | hstoring | ⟨cmd, rest, hreader, hcmd⟩ | ⟨cmd, hreader⟩ | hmain |
    ⟨newRate, hmain⟩ | ⟨newRate, hmain⟩ | hmain | hmain
  case sendRate =>
    refine ⟨hr.pos, ?_, hr.current⟩
    show lastRate rate (s.ratesSent ++ [r]) =
      lastRate s.targetSampleRate (s.inMain ++ s.cmdSampleRate :: (s.inReader ++ (cmds ++ [_])).filterMap _)
    rw [filterMap_snoc, lastRate_append, lastRate_append, hlast]
    rfl
  case sendToggle =>
    refine ⟨hr.pos, ?_, hr.current⟩
    show lastRate rate s.ratesSent =
      lastRate s.targetSampleRate (s.inMain ++ s.cmdSampleRate :: (s.inReader ++ (cmds ++ [_])).filterMap _)
    rw [filterMap_snoc, hlast]
    exact congrArg _ (List.append_nil _).symm
  case storePaused => exact ⟨hr.pos, hr.last, hr.current⟩
  case receive =>
    obtain ⟨rfl, rfl, hnone⟩ := h.received hreader hcmd
    refine ⟨hr.pos, ?_, hr.current⟩
    rw [hnone, List.nil_append] at hlast
    rw [pipeAfter, inReader_received]
    exact hlast
  case handle => exact rates_handle h hr hkept hreader
  case exchangeRate =>
    have hin : s.inMain = [] := by rw [inMain, hmain]
    have hcurrent : s.currentSampleRate = s.targetSampleRate := by
      have := hr.current
      rwa [nextCurrent, hmain] at this
    rw [hin, List.nil_append] at hlast
    cases hpos : s.cmdSampleRate.pos with
    | false =>
      refine ⟨nofun, ?_, hcurrent⟩
      show lastRate rate s.ratesSent = lastRate s.targetSampleRate (0 :: (s.inReader ++ cmds).filterMap _)
      rw [hlast, lastRate_cons_not_pos hpos, lastRate_cons_not_pos hzero]
    | true =>
      refine ⟨fun r hmem => ?_, ?_, hcurrent⟩
      · rwa [List.mem_singleton.mp hmem]
      · show lastRate rate s.ratesSent =
          lastRate s.targetSampleRate (s.cmdSampleRate :: 0 :: (s.inReader ++ cmds).filterMap _)
        rw [hlast, lastRate_cons_pos hpos, lastRate_cons_pos hpos, lastRate_cons_not_pos hzero]
  case setRate =>
    have hin : s.inMain = [newRate] := by rw [inMain, hmain]
    have hpos : newRate.pos = true := hr.pos newRate (by rw [hin]; exact List.mem_cons_self)
    refine ⟨nofun, ?_, rfl⟩
    show lastRate rate s.ratesSent = lastRate newRate (s.cmdSampleRate :: (s.inReader ++ cmds).filterMap _)
    rw [hlast, hin, List.singleton_append, lastRate_cons_pos hpos]
  case setCurrent =>
    exact hr.roam (by rw [inMain, hmain]) rfl rfl rfl rfl rfl (by rw [nextCurrent.eq_def s, hmain]; rfl)
  case exchangeToggle =>
    have hcurrent : s.nextCurrent = s.currentSampleRate := by rw [nextCurrent, hmain]
    cases htoggle : s.cmdTogglePaused <;> exact hr.roam (by rw [inMain, hmain]) rfl rfl rfl rfl rfl hcurrent.symm
  case setPaused =>
    exact hr.roam (by rw [inMain, hmain]) rfl rfl rfl rfl rfl (by rw [nextCurrent.eq_def s, hmain]; rfl)

theorem reach_rates (hs : (commanding rate).Reach Kept s) : ∃ cmds, Flight s cmds ∧ Rates rate s cmds := by
  refine hs.invariant (I := fun s => ∃ cmds, Flight s cmds ∧ Rates rate s cmds) (fun t h0 => ?_)
    fun t l t' ⟨cmds, h, hr⟩ hkept hst => ⟨_, flight_step h hst, rates_step h hr hkept hst⟩
  rw [show t = started rate from h0]
  exact ⟨[], flight_started rate, nofun, (lastRate_cons_not_pos (show (0 : Double).pos = false by decide) _ _).symm, rfl⟩

/-- **Commands arrive** in the runs without a loss: whenever nothing is on its way, the generator is paused as the viewer
says, and at the last positive rate that it sent.  In any run, it is paused as the viewer says exactly where an even
number of toggles is lost. -/
theorem commands_arrive (rate : Double) :
    (∀ s, (commanding rate).Reach Kept s → s.Quiescent → s.paused = s.currentPaused ∧
      ∀ r ∈ (s.ratesSent.filter Double.pos).getLast?, s.targetSampleRate = r ∧ s.currentSampleRate = r) ∧
    (∀ s, (commanding rate).Reachable s → (s.lost = [] ↔ (commanding rate).Reach Kept s)) ∧
    ∀ s, (commanding rate).Reachable s → s.Quiescent → (s.paused = s.currentPaused ↔ odd s.lost = false) := by
  refine ⟨fun s hs hq => ⟨?_, fun r hlast => ?_⟩, fun s hs => lossless_iff hs, fun s hs hq => paused_eq_iff hs hq⟩
  · rw [paused_eq_iff hs.reachable hq, (lossless_iff hs.reachable).mpr hs]
    rfl
  · obtain ⟨cmds, h, hr⟩ := reach_rates hs
    have hrates := hr.last
    have hcurrent := hr.current
    rw [h.quiescent hq, List.filterMap_nil] at hrates
    obtain ⟨-, -, -, hrate, -, hmain⟩ := hq
    have htarget : s.targetSampleRate = r := by
      have hin : s.inMain = [] := by
        rcases hmain with hmain | hmain <;> rw [inMain, hmain]
      rw [hin, List.nil_append, lastRate_cons_not_pos hrate, lastRate_eq, hlast] at hrates
      exact hrates.symm
    refine ⟨htarget, ?_⟩
    rcases hmain with hmain | hmain <;> rw [nextCurrent, hmain] at hcurrent <;> exact hcurrent.trans htarget

/-- 1 MHz -/
def MEGAHERTZ : Double := ⟨0x412E848000000000⟩

/-- A toggle and a rate sent together, and a toggle after the poll. -/
def toggleRateToggle : List Label :=
  [.sendToggle, .receive, .storePaused, .sendRate MEGAHERTZ, .handle, .receive, .handle, .poll, .poll, .poll, .poll, .poll,
    .sendToggle, .storePaused, .receive, .handle, .poll, .poll, .poll]

theorem commands_arrive_three : ∃ s, (commanding 0).Reach Kept s ∧ s.Quiescent ∧ s.ratesSent = [MEGAHERTZ] ∧
    s.paused = s.currentPaused ∧
    ∀ r ∈ (s.ratesSent.filter Double.pos).getLast?, s.targetSampleRate = r ∧ s.currentSampleRate = r := by
  obtain ⟨s, hrun, hq, hsent⟩ : ∃ s, Lts.execIn Kept (commanding 0) (started 0) toggleRateToggle = some s ∧
      s.Quiescent ∧ s.ratesSent = [MEGAHERTZ] := by
    refine ⟨_, rfl, ?_, rfl⟩
    decide
  have hreach : (commanding 0).Reach Kept s := Lts.Reach.execIn (.init rfl) hrun
  exact ⟨s, hreach, hq, hsent, (commands_arrive 0).1 s hreach hq⟩

/-- **Two toggles between two polls** are one, and a rate is gone when one of zero comes before the poll. -/
theorem toggles_between_polls :
    (∃ s, (commanding 0).Reachable s ∧ s.Quiescent ∧ s.paused ≠ s.currentPaused) ∧
    ∃ s, (commanding 0).Reachable s ∧ s.Quiescent ∧ (s.ratesSent.filter Double.pos).getLast? = some MEGAHERTZ ∧
      s.targetSampleRate ≠ MEGAHERTZ := by
  refine ⟨⟨_, Lts.reachable_of_exec [.sendToggle, .storePaused, .receive, .handle, .sendToggle, .storePaused, .receive,
    .handle, .poll, .poll, .poll] rfl rfl, ?_, ?_⟩, ⟨_, Lts.reachable_of_exec [.sendRate MEGAHERTZ, .receive, .handle,
    .sendRate 0, .receive, .handle, .poll, .poll] rfl rfl, ?_, rfl, ?_⟩⟩
  all_goals decide

end Kept

end SgCommands

end Grebe
