import Grebe.Contracts
import Grebe.GrbFile

/-!
# Grebe.SgOptions — the command line of grebe-sg, and what `main` makes of it

The options come one by one; an option that is not known is passed over.  A number is what the C library reads at the
front of a string, `unsigned long` has 64 bits, and a string that is no number is an exception, which ends the program.
What `std::stod` makes of a string is a parameter, as a `double` is its bits here, and so is whether there is memory.

* `parseSgCli`: `parse_sg_cli`.  `withFile`: the file, whose channel count counts.  `capBlockSize`: the block size that
  fits a datagram.  `startUp`: `main`, which constructs a ring for each channel besides.
* `mainOptions_valid`: the options after all this; `fits_iff`: a block fits if and only if it is at most `maxBlock`.
-/

namespace Grebe

/-! ## Numbers -/

/-- White space, a sign and digits at the front of a string: whether the sign is a minus, and the digits. -/
def scanNumber (s : String) : Option (Bool × ℕ) :=
  let body := s.toList.dropWhile fun c => 9 ≤ c.toNat && c.toNat ≤ 13 || c.toNat = 32
  let signed := body.head? = some '-' ∨ body.head? = some '+'
  let digits := (if signed then body.tail else body).takeWhile Char.isDigit
  if digits = [] then none
  else some (body.head? = some '-', digits.foldl (fun n c => 10 * n + (c.toNat - 48)) 0)

/-- `std::stoi`; `none`: it throws. -/
def stoi (s : String) : Option ℤ :=
  (scanNumber s).bind fun r =>
    let n : ℤ := if r.1 then -r.2 else r.2
    if -2 ^ 31 ≤ n ∧ n < 2 ^ 31 then some n else none

/-- `std::stoull`, and `std::stoul`; a minus wraps around. -/
def stoull (s : String) : Option UInt64 :=
  (scanNumber s).bind fun r =>
    if r.2 < 2 ^ 64 then some (if r.1 then 0 - UInt64.ofNat r.2 else UInt64.ofNat r.2) else none

/-- `std::max(1.0, x)` -/
def Double.maxOne (x : Double) : Double :=
  if 0x3FF0000000000000 < x.bits ∧ x.bits ≤ 0x7FF0000000000000 then x else ⟨0x3FF0000000000000⟩

/-! ## Options -/

structure SgOptions where
  numChannels : UInt32 := 1
  sampleRate : Double := ⟨0x412E848000000000⟩
  frequencyHz : Double := ⟨0x408F400000000000⟩
  ringSize : UInt64 := 67108864
  blockSize : UInt32 := 16384
  filePath : String := ""
  transport : String := "pipe"
  udpHost : String := "127.0.0.1"
  udpPort : UInt16 := 5000
  datagramSize : UInt64 := 1400
deriving DecidableEq

/-- How grebe-sg ends before it starts. -/
inductive SgExit
  | help
  | error (message : String)
  /-- a number that is none, or a ring that cannot be constructed -/
  | exception
deriving DecidableEq

namespace SgOptions

section Parse

variable (stod : String → Option Double) (opts : SgOptions) (val : String)

/-- A number that is read, or an exception. -/
def orThrow {α : Type} (read : Option α) (set : α → Except SgExit SgOptions) : Except SgExit SgOptions :=
  match read with
  | none => .error .exception
  | some n => set n

def setChannels : Except SgExit SgOptions :=
  orThrow (stoi val) fun n =>
    if n < 1 ∨ n > 8 then .error (.error "--channels must be 1-8")
    else .ok { opts with numChannels := UInt32.ofNat n.toNat }

def setSampleRate : Except SgExit SgOptions := orThrow (stod val) fun x => .ok { opts with sampleRate := x }

def setFrequency : Except SgExit SgOptions := orThrow (stod val) fun x => .ok { opts with frequencyHz := x.maxOne }

/-- The factor of a suffix. -/
def suffixFactor (suffix : Option Char) : UInt64 :=
  if suffix = some 'K' ∨ suffix = some 'k' then 1024
  else if suffix = some 'M' ∨ suffix = some 'm' then 1024 * 1024
  else if suffix = some 'G' ∨ suffix = some 'g' then 1024 * 1024 * 1024
  else 1

def setRingSize : Except SgExit SgOptions :=
  orThrow (stoull val) fun sz => .ok { opts with ringSize := sz * suffixFactor val.toList.getLast? }

def setBlockSize : Except SgExit SgOptions :=
  orThrow (stoull val) fun n => .ok { opts with blockSize := n.toUInt32 }

def setFile : Except SgExit SgOptions := .ok { opts with filePath := val }

def setTransport : Except SgExit SgOptions :=
  if val ≠ "pipe" ∧ val ≠ "udp" then .error (.error "--transport must be 'pipe' or 'udp'")
  else .ok { opts with transport := val }

def setDatagramSize : Except SgExit SgOptions :=
  orThrow (stoull val) fun n =>
    let n := if n > 65000 then 65000 else n
    .ok { opts with datagramSize := if n < 128 then 128 else n }

/-- Host and port are apart at the last colon. -/
def setUdpTarget : Except SgExit SgOptions :=
  if ':' ∈ val.toList then
    let port := (val.toList.reverse.takeWhile (· ≠ ':')).reverse
    let host := val.toList.take (val.toList.length - port.length - 1)
    orThrow (stoull (String.ofList port)) fun n =>
      .ok { opts with udpHost := String.ofList host, udpPort := n.toUInt16 }
  else .ok { opts with udpHost := val }

/-- The options with a value, in the order in which they are tried. -/
def options : List (String × (SgOptions → String → Except SgExit SgOptions)) :=
  [("--channels=", setChannels), ("--sample-rate=", setSampleRate stod), ("--frequency=", setFrequency stod),
    ("--ring-size=", setRingSize), ("--block-size=", setBlockSize), ("--file=", setFile),
    ("--transport=", setTransport), ("--datagram-size=", setDatagramSize), ("--udp-target=", setUdpTarget)]

/-- One round of the loop over the arguments. -/
def parseArg (arg : String) : Except SgExit SgOptions :=
  if arg = "--help" ∨ arg = "-h" then .error .help
  else
    match (options stod).find? fun o => o.1.toList.isPrefixOf arg.toList with
    | none => .ok opts
    | some o => o.2 opts (String.ofList (arg.toList.drop o.1.length))

end Parse

end SgOptions

/-- `parse_sg_cli` -/
def parseSgCli (stod : String → Option Double) (args : List String) : Except SgExit SgOptions :=
  args.foldlM (SgOptions.parseArg stod) {}

namespace SgOptions

/-! ## Start -/

section Start

variable (opts : SgOptions)

/-- The source file, whose channel count overrides the option; `disk`: what there is at a path. -/
def withFile (disk : String → FileCalls × GrbFile) : Except SgExit SgOptions :=
  if opts.filePath = "" then .ok opts
  else
    match FileReader.new opts.filePath (disk opts.filePath).1 (disk opts.filePath).2 with
    | .error message => .error (.error ("Failed to open file: " ++ message))
    | .ok reader =>
      .ok (if reader.header.channelCount ≠ opts.numChannels then
        { opts with numChannels := reader.header.channelCount } else opts)

/-- `max_block`: the samples of each channel that a datagram has room for. -/
def maxBlock : UInt32 := ((opts.datagramSize - 64) / (opts.numChannels.toUInt64 * 2)).toUInt32

/-- The UDP block size cap. -/
def capBlockSize : SgOptions := if opts.blockSize > opts.maxBlock then { opts with blockSize := opts.maxBlock } else opts

end Start

end SgOptions

/-- The options that `main` has when it starts its threads: the command line, the file, and the cap. -/
def mainOptions (stod : String → Option Double) (disk : String → FileCalls × GrbFile) (args : List String) :
    Except SgExit SgOptions := do
  let opts ← parseSgCli stod args
  let opts ← opts.withFile disk
  return if opts.transport = "udp" then opts.capBlockSize else opts

/-- `max_size` of a vector of samples. -/
def maxSamples : ℕ := 2 ^ 62 - 1

/-- Whether a `RingBuffer(ring_size + 1)` is constructed for every channel: it has a slot, as it asserts, `std::vector` may
have so many samples, and there is `memory` for those of the channel. -/
def SgOptions.ringsConstructed (memory : ℕ → ℕ → Bool) (opts : SgOptions) : Bool :=
  (List.range opts.numChannels.toNat).all fun ch =>
    let slots := (opts.ringSize + 1).toNat
    0 < slots && slots ≤ maxSamples && memory ch slots

/-- `main` up to the start of the threads, which the cap precedes and the rings precede too. -/
def startUp (stod : String → Option Double) (disk : String → FileCalls × GrbFile) (memory : ℕ → ℕ → Bool)
    (args : List String) : Except SgExit SgOptions := do
  let opts ← mainOptions stod disk args
  if opts.ringsConstructed memory then .ok opts else .error .exception

/-! ## What the options are in the end -/

namespace SgOptions

section Valid

variable {stod : String → Option Double} {opts opts' : SgOptions} {val : String}

structure Valid (opts : SgOptions) : Prop where
  channels : 1 ≤ opts.numChannels.toNat ∧ opts.numChannels.toNat ≤ 8
  datagram : 128 ≤ opts.datagramSize.toNat ∧ opts.datagramSize.toNat ≤ 65000

theorem orThrow_ok {α : Type} {read : Option α} {set : α → Except SgExit SgOptions} :
    orThrow read set = .ok opts ↔ ∃ n, read = some n ∧ set n = .ok opts := by
  cases read with
  | none => simp [orThrow]
  | some n => simp [orThrow]

/-- An option that touches neither of the two counts. -/
theorem Valid.of_eq (h : opts.Valid) (hchannels : opts'.numChannels = opts.numChannels)
    (hdatagram : opts'.datagramSize = opts.datagramSize) : opts'.Valid := by
  refine ⟨?_, ?_⟩
  · rw [hchannels]
    exact h.channels
  · rw [hdatagram]
    exact h.datagram

theorem valid_setChannels (h : opts.Valid) (hset : setChannels opts val = .ok opts') : opts'.Valid := by
  obtain ⟨n, -, hn⟩ := orThrow_ok.mp hset
  split_ifs at hn with hrange
  cases hn
  obtain ⟨hlow, hhigh⟩ := not_or.mp hrange
  have hcount : (UInt32.ofNat n.toNat).toNat = n.toNat := by
    rw [UInt32.toNat_ofNat', Nat.mod_eq_of_lt (by omega)]
  refine ⟨?_, h.datagram⟩
  show 1 ≤ (UInt32.ofNat n.toNat).toNat ∧ (UInt32.ofNat n.toNat).toNat ≤ 8
  rw [hcount]
  omega

theorem valid_setDatagramSize (h : opts.Valid) (hset : setDatagramSize opts val = .ok opts') : opts'.Valid := by
  obtain ⟨n, -, hn⟩ := orThrow_ok.mp hset
  cases hn
  refine ⟨h.channels, ?_⟩
  dsimp only
  split_ifs with hhigh hlow hlow
  · decide
  · decide
  · decide
  · rw [UInt64.lt_iff_toNat_lt, not_lt] at hlow
    rw [gt_iff_lt, UInt64.lt_iff_toNat_lt, not_lt] at hhigh
    exact ⟨hlow, hhigh⟩

/-- **Every option keeps the counts in their ranges.** -/
theorem valid_options (h : opts.Valid) {o : String × (SgOptions → String → Except SgExit SgOptions)}
    (ho : o ∈ options stod) (hset : o.2 opts val = .ok opts') : opts'.Valid := by
  simp only [options, List.mem_cons, List.not_mem_nil, or_false] at ho
  rcases ho with rfl | rfl | rfl | rfl | rfl | rfl | rfl | rfl | rfl
  · exact valid_setChannels h hset
  · obtain ⟨x, -, hx⟩ := orThrow_ok.mp hset
    cases hx
    exact h.of_eq rfl rfl
  · obtain ⟨x, -, hx⟩ := orThrow_ok.mp hset
    cases hx
    exact h.of_eq rfl rfl
  · obtain ⟨sz, -, hsz⟩ := orThrow_ok.mp hset
    cases hsz
    exact h.of_eq rfl rfl
  · obtain ⟨n, -, hn⟩ := orThrow_ok.mp hset
    cases hn
    exact h.of_eq rfl rfl
  · cases hset
    exact h.of_eq rfl rfl
  · dsimp only [setTransport] at hset
    split_ifs at hset
    cases hset
    exact h.of_eq rfl rfl
  · exact valid_setDatagramSize h hset
  · dsimp only [setUdpTarget] at hset
    split_ifs at hset
    · obtain ⟨n, -, hn⟩ := orThrow_ok.mp hset
      cases hn
      exact h.of_eq rfl rfl
    · cases hset
      exact h.of_eq rfl rfl

theorem valid_parseArg {arg : String} (h : opts.Valid) (hparse : parseArg stod opts arg = .ok opts') :
    opts'.Valid := by
  unfold parseArg at hparse
  split_ifs at hparse
  split at hparse
  · cases hparse
    exact h
  · rename_i o ho
    exact valid_options h (List.mem_of_find?_eq_some ho) hparse

theorem valid_parseSgCli {args : List String} (hparse : parseSgCli stod args = .ok opts) : opts.Valid := by
  have hfold : ∀ (args : List String) (o : SgOptions), o.Valid → args.foldlM (parseArg stod) o = .ok opts →
      opts.Valid := by
    intro args
    induction args with
    | nil =>
      intro o ho heq
      cases heq
      exact ho
    | cons arg args ih =>
      intro o ho heq
      rw [List.foldlM_cons] at heq
      cases harg : parseArg stod o arg with
      | error e =>
        rw [harg] at heq
        cases heq
      | ok o' =>
        rw [harg] at heq
        exact ih o' (valid_parseArg ho harg) heq
  exact hfold args {} ⟨by decide, by decide⟩ hparse

theorem valid_withFile {disk : String → FileCalls × GrbFile} (h : opts.Valid) (hfile : opts.withFile disk = .ok opts') :
    opts'.Valid := by
  unfold withFile at hfile
  split_ifs at hfile with hpath
  · cases hfile
    exact h
  · split at hfile
    · cases hfile
    · rename_i reader hreader
      obtain ⟨-, -, hvalid, rfl⟩ := FileReader.new_ok_iff.mp hreader
      cases hfile
      split_ifs
      · exact ⟨hvalid.channels, h.datagram⟩
      · exact h

end Valid

/-! ## The cap -/

section Cap

variable {stod : String → Option Double} {disk : String → FileCalls × GrbFile} {args : List String} {opts : SgOptions}

theorem toNat_maxBlock (h : opts.Valid) :
    opts.maxBlock.toNat = (opts.datagramSize.toNat - 64) / (opts.numChannels.toNat * 2) := by
  obtain ⟨hlow, hhigh⟩ := h.datagram
  obtain ⟨hone, height⟩ := h.channels
  have hsub : (opts.datagramSize - 64).toNat = opts.datagramSize.toNat - 64 := by
    rw [UInt64.toNat_sub_of_le _ _ (by rw [UInt64.le_iff_toNat_le]; exact le_trans (by decide) hlow)]
    rfl
  have hmul : (opts.numChannels.toUInt64 * 2).toNat = opts.numChannels.toNat * 2 := by
    rw [UInt64.toNat_mul, UInt32.toNat_toUInt64, show (2 : UInt64).toNat = 2 from rfl, Nat.mod_eq_of_lt (by omega)]
  have hle := Nat.div_le_self (opts.datagramSize.toNat - 64) (opts.numChannels.toNat * 2)
  rw [maxBlock, UInt64.toNat_toUInt32, UInt64.toNat_div, hsub, hmul, Nat.mod_eq_of_lt]
  exact hle.trans_lt (by omega)

/-- **A block fits a datagram if and only if it is within the cap**; both are checked in the arithmetic of the code. -/
theorem fits_iff (h : opts.Valid) {blockSize : UInt32} (hblock : blockSize.toNat ≤ 65536) :
    64 + (opts.numChannels * blockSize * 2).toNat ≤ opts.datagramSize.toNat ↔ blockSize ≤ opts.maxBlock := by
  obtain ⟨hlow, hhigh⟩ := h.datagram
  obtain ⟨hone, height⟩ := h.channels
  have hprod : opts.numChannels.toNat * blockSize.toNat ≤ 8 * 65536 := Nat.mul_le_mul height hblock
  have hbytes : (opts.numChannels * blockSize * 2).toNat = blockSize.toNat * (opts.numChannels.toNat * 2) := by
    rw [UInt32.toNat_mul, UInt32.toNat_mul, show (2 : UInt32).toNat = 2 from rfl, Nat.mod_eq_of_lt (by omega),
      Nat.mod_eq_of_lt (by omega), mul_comm opts.numChannels.toNat, mul_assoc]
  rw [hbytes, UInt32.le_iff_toNat_le, toNat_maxBlock h, Nat.le_div_iff_mul_le (by omega)]
  omega

theorem maxBlock_le (h : opts.Valid) : opts.maxBlock.toNat ≤ 65536 := by
  rw [toNat_maxBlock h]
  exact (Nat.div_le_self _ _).trans (by have := h.datagram; omega)

/-- **What `main` starts with**: counts in their ranges and, in UDP mode, a block size within the cap. -/
theorem mainOptions_valid (hstart : mainOptions stod disk args = .ok opts) :
    opts.Valid ∧ (opts.transport = "udp" → opts.blockSize ≤ opts.maxBlock) := by
  unfold mainOptions at hstart
  cases hparse : parseSgCli stod args with
  | error e =>
    rw [hparse] at hstart
    cases hstart
  | ok parsed =>
    rw [hparse] at hstart
    cases hfile : parsed.withFile disk with
    | error e =>
      simp only [bind, Except.bind, hfile] at hstart
      cases hstart
    | ok opened =>
      simp only [bind, Except.bind, hfile] at hstart
      have hvalid := valid_withFile (valid_parseSgCli hparse) hfile
      cases hstart
      split_ifs with hudp
      · unfold capBlockSize
        split_ifs with hcap
        · exact ⟨hvalid.of_eq rfl rfl, fun _ => UInt32.le_refl opened.maxBlock⟩
        · exact ⟨hvalid, fun _ => UInt32.not_lt.mp hcap⟩
      · exact ⟨hvalid, fun h => absurd h hudp⟩

end Cap

end SgOptions

end Grebe
