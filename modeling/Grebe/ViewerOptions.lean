import Grebe.ProfilePeriod

/-!
# Grebe.ViewerOptions — the command line of grebe-viewer, and what grebe-sg gets of it

In pipe mode the viewer starts grebe-sg with a command line of its own, in which the numbers are printed and read again.

* `parseCli`: `parse_cli`.  `source`: what `main` takes its data from.
* `valid_parseCli`: the options after it.
* `scanNumber_toString`: a number that is printed is read back.
* `spawned_options`: what grebe-sg makes of the command line are the options of the viewer.
-/

namespace Grebe

/-! ## Options -/

structure CliOptions where
  enableLog : Bool := false
  enableProfile : Bool := false
  enableBench : Bool := false
  embedded : Bool := false
  ringSize : UInt64 := 67108864
  numChannels : UInt32 := 1
  blockSize : UInt32 := 16384
  noVsync : Bool := false
  minimized : Bool := false
  filePath : String := ""
  udpPort : UInt16 := 0
deriving DecidableEq

/-- How grebe-viewer ends before it starts. -/
inductive CliExit
  | help
  | error (message : String)
  /-- a number that is none -/
  | exception
deriving DecidableEq

namespace CliOptions

section Parse

variable (opts : CliOptions) (val : String)

/-- A number that is read, or an exception. -/
def orThrow {α : Type} (read : Option α) (set : α → Except CliExit CliOptions) : Except CliExit CliOptions :=
  match read with
  | none => .error .exception
  | some n => set n

/-- A suffix is taken off before the number is read. -/
def setRingSize : Except CliExit CliOptions :=
  let multiplier := SgOptions.suffixFactor val.toList.getLast?
  orThrow (stoull (if multiplier = 1 then val else String.ofList val.toList.dropLast)) fun n =>
    .ok { opts with ringSize := n * multiplier }

def setChannels : Except CliExit CliOptions :=
  orThrow (stoull val) fun n =>
    let channels := n.toUInt32
    if channels < 1 ∨ channels > 8 then
      .error (.error ("--channels must be 1-8, got " ++ toString channels.toNat))
    else .ok { opts with numChannels := channels }

def setBlockSize : Except CliExit CliOptions :=
  orThrow (stoull val) fun n =>
    let block := n.toUInt32
    if block < 1024 ∨ block > 65536 ∨ block &&& (block - 1) ≠ 0 then
      .error (.error ("--block-size must be power of 2, 1024-65536, got " ++ toString block.toNat))
    else .ok { opts with blockSize := block }

def setUdp : Except CliExit CliOptions := orThrow (stoull val) fun n => .ok { opts with udpPort := n.toUInt16 }

/-- An argument: one word, or a word with a value after it. -/
inductive Arg
  | flag (name : String) (set : CliOptions → CliOptions)
  | value (name : String) (set : CliOptions → String → Except CliExit CliOptions)

/-- The options, in the order in which they are tried. -/
def options : List Arg :=
  [.flag "--log" ({ · with enableLog := true }), .flag "--profile" ({ · with enableProfile := true }),
    .flag "--bench" ({ · with enableBench := true }), .value "--ring-size=" setRingSize,
    .flag "--embedded" ({ · with embedded := true }), .value "--channels=" setChannels,
    .flag "--no-vsync" ({ · with noVsync := true }), .flag "--minimized" ({ · with minimized := true }),
    .value "--block-size=" setBlockSize, .value "--file=" fun opts val => .ok { opts with filePath := val },
    .value "--udp=" setUdp]

/-- The argument is this option. -/
def Arg.takes (arg : String) : Arg → Bool
  | .flag name _ => arg = name
  | .value name _ => name.toList.isPrefixOf arg.toList

def Arg.apply (opts : CliOptions) (arg : String) : Arg → Except CliExit CliOptions
  | .flag _ set => .ok (set opts)
  | .value name set => set opts (String.ofList (arg.toList.drop name.length))

/-- One round of the loop over the arguments. -/
def parseArg (arg : String) : Except CliExit CliOptions :=
  if arg = "--help" ∨ arg = "-h" then .error .help
  else
    match options.find? (Arg.takes arg) with
    | none => .ok opts
    | some o => o.apply opts arg

/-- The tests after the loop. -/
def checkModes : Except CliExit CliOptions :=
  if opts.filePath ≠ "" ∧ opts.embedded then .error (.error "--file and --embedded are mutually exclusive")
  else if opts.udpPort > 0 ∧ opts.embedded then .error (.error "--udp and --embedded are mutually exclusive")
  else .ok opts

end Parse

end CliOptions

/-- `parse_cli` -/
def parseCli (args : List String) : Except CliExit CliOptions := do
  let opts ← args.foldlM CliOptions.parseArg {}
  opts.checkModes

/-- What `main` takes its data from. -/
inductive DataSource
  | udp (port : UInt16) (channels : UInt32)
  | embedded (channels : UInt32)
  /-- a grebe-sg that is started with these arguments -/
  | pipe (args : List String) (channels : UInt32)
deriving DecidableEq

def CliOptions.source (opts : CliOptions) : DataSource :=
  if opts.udpPort > 0 then .udp opts.udpPort opts.numChannels
  else if opts.embedded then .embedded opts.numChannels
  else .pipe (sgArgs opts.numChannels opts.blockSize opts.ringSize opts.filePath) opts.numChannels

/-! ## What the options are -/

namespace CliOptions

section Valid

variable {opts opts' : CliOptions} {val : String}

/-- What holds of the options after each argument. -/
structure InRange (opts : CliOptions) : Prop where
  channels : 1 ≤ opts.numChannels.toNat ∧ opts.numChannels.toNat ≤ 8
  block : 1024 ≤ opts.blockSize.toNat ∧ opts.blockSize.toNat ≤ 65536 ∧ opts.blockSize.toNat.isPowerOfTwo

theorem orThrow_ok {α : Type} {read : Option α} {set : α → Except CliExit CliOptions} :
    orThrow read set = .ok opts ↔ ∃ n, read = some n ∧ set n = .ok opts := by
  cases read with
  | none => simp [orThrow]
  | some n => simp [orThrow]

theorem InRange.of_eq (h : opts.InRange) (hchannels : opts'.numChannels = opts.numChannels)
    (hblock : opts'.blockSize = opts.blockSize) : opts'.InRange :=
  ⟨by rw [hchannels]; exact h.channels, by rw [hblock]; exact h.block⟩

theorem inRange_setChannels (h : opts.InRange) (hset : setChannels opts val = .ok opts') : opts'.InRange := by
  obtain ⟨n, -, hn⟩ := orThrow_ok.mp hset
  dsimp only at hn
  split_ifs at hn with hrange
  cases hn
  obtain ⟨hlow, hhigh⟩ := not_or.mp hrange
  rw [UInt32.lt_iff_toNat_lt, not_lt] at hlow
  rw [gt_iff_lt, UInt32.lt_iff_toNat_lt, not_lt] at hhigh
  exact ⟨⟨hlow, hhigh⟩, h.block⟩

theorem inRange_setBlockSize (h : opts.InRange) (hset : setBlockSize opts val = .ok opts') : opts'.InRange := by
  obtain ⟨n, -, hn⟩ := orThrow_ok.mp hset
  dsimp only at hn
  split_ifs at hn with hrange
  cases hn
  obtain ⟨hlow, hrange⟩ := not_or.mp hrange
  obtain ⟨hhigh, hpower⟩ := not_or.mp hrange
  rw [UInt32.lt_iff_toNat_lt, not_lt] at hlow
  rw [gt_iff_lt, UInt32.lt_iff_toNat_lt, not_lt] at hhigh
  have hlow' : 1024 ≤ n.toUInt32.toNat := hlow
  refine ⟨h.channels, hlow', hhigh, ?_⟩
  have hzero : n.toUInt32.toNat &&& (n.toUInt32.toNat - 1) = 0 := by
    have hone : (1 : UInt32) ≤ n.toUInt32 := by
      rw [UInt32.le_iff_toNat_le]
      exact le_trans (by decide) hlow
    have hnat := congrArg UInt32.toNat (not_not.mp hpower)
    rwa [UInt32.toNat_and, UInt32.toNat_sub_of_le _ _ hone] at hnat
  have hne : n.toUInt32.toNat ≠ 0 := by omega
  exact (Nat.and_sub_one_eq_zero_iff_isPowerOfTwo hne).mp hzero

theorem inRange_setRingSize (h : opts.InRange) (hset : setRingSize opts val = .ok opts') : opts'.InRange := by
  obtain ⟨n, -, hn⟩ := orThrow_ok.mp hset
  cases hn
  exact h.of_eq rfl rfl

theorem inRange_setUdp (h : opts.InRange) (hset : setUdp opts val = .ok opts') : opts'.InRange := by
  obtain ⟨n, -, hn⟩ := orThrow_ok.mp hset
  cases hn
  exact h.of_eq rfl rfl

/-- **Every option keeps the counts in their ranges.** -/
theorem inRange_apply {o : Arg} {arg : String} (ho : o ∈ options) (h : opts.InRange)
    (hset : o.apply opts arg = .ok opts') : opts'.InRange := by
  simp only [options, List.mem_cons, List.not_mem_nil, or_false] at ho
  rcases ho with rfl | rfl | rfl | rfl | rfl | rfl | rfl | rfl | rfl | rfl | rfl
  all_goals dsimp only [Arg.apply] at hset
  case inr.inr.inr.inl => exact inRange_setRingSize h hset
  case inr.inr.inr.inr.inr.inl => exact inRange_setChannels h hset
  case inr.inr.inr.inr.inr.inr.inr.inr.inl => exact inRange_setBlockSize h hset
  case inr.inr.inr.inr.inr.inr.inr.inr.inr.inr => exact inRange_setUdp h hset
  all_goals
    obtain rfl := Except.ok.inj hset
    exact h.of_eq rfl rfl

theorem inRange_parseArg {arg : String} (h : opts.InRange) (hparse : parseArg opts arg = .ok opts') : opts'.InRange := by
  unfold parseArg at hparse
  split_ifs at hparse
  split at hparse
  · cases hparse
    exact h
  · rename_i o ho
    exact inRange_apply (List.mem_of_find?_eq_some ho) h hparse

/-- **The options that `parse_cli` accepts**: the counts are in their ranges, and there is one source of data. -/
theorem valid_parseCli {args : List String} (hparse : parseCli args = .ok opts) :
    opts.InRange ∧ (opts.embedded = true → opts.filePath = "" ∧ opts.udpPort = 0) := by
  obtain ⟨read, hread, hcheck⟩ : ∃ read, args.foldlM parseArg {} = .ok read ∧ read.checkModes = .ok opts := by
    rcases hread : args.foldlM parseArg ({} : CliOptions) with e | read
    · rw [parseCli, hread] at hparse
      cases hparse
    · rw [parseCli, hread] at hparse
      exact ⟨read, rfl, hparse⟩
  have hfold : ∀ (args : List String) (o : CliOptions), o.InRange → args.foldlM parseArg o = .ok read →
      read.InRange := by
    intro args
    induction args with
    | nil =>
      intro o ho heq
      cases heq
      exact ho
    | cons arg args ih =>
      intro o ho heq
      rw [List.foldlM_cons] at heq
      cases harg : parseArg o arg with
      | error e =>
        rw [harg] at heq
        cases heq
      | ok o' =>
        rw [harg] at heq
        exact ih o' (inRange_parseArg ho harg) heq
  have hrange := hfold args {} ⟨by decide, by decide, by decide, ⟨14, by decide⟩⟩ hread
  unfold checkModes at hcheck
  split_ifs at hcheck with hfile hudp
  cases hcheck
  refine ⟨hrange, fun hembedded => ⟨?_, ?_⟩⟩
  · by_contra hpath
    exact hfile ⟨hpath, hembedded⟩
  · by_contra hport
    exact hudp ⟨UInt16.pos_iff_ne_zero.mpr hport, hembedded⟩

end Valid

end CliOptions

/-! ## The command line of grebe-sg -/

section Numbers

variable {n : ℕ}

theorem toList_toString (n : ℕ) : (toString n).toList = Nat.toDigits 10 n := by
  rw [Nat.toString_eq_repr, Nat.toList_repr]

theorem isDigit_toString {c : Char} (hc : c ∈ (toString n).toList) : c.isDigit = true := by
  rw [toList_toString] at hc
  exact Nat.isDigit_of_mem_toDigits (by decide) (by decide) hc

theorem toNat_digit {c : Char} (hc : c.isDigit = true) : 48 ≤ c.toNat ∧ c.toNat ≤ 57 := Char.isDigit_iff_toNat.mp hc

/-- **A number that is printed is read back.** -/
theorem scanNumber_toString (n : ℕ) : scanNumber (toString n) = some (false, n) := by
  have hne : (toString n).toList ≠ [] := by
    rw [toList_toString]
    exact Nat.toDigits_ne_nil
  have hall : ∀ c ∈ (toString n).toList, c.isDigit = true := fun c => isDigit_toString
  have hspace : (toString n).toList.dropWhile (fun c => 9 ≤ c.toNat && c.toNat ≤ 13 || c.toNat = 32) =
      (toString n).toList := by
    rw [List.dropWhile_eq_self_iff]
    intro hpos hfirst
    have hdigit := toNat_digit (hall _ (List.getElem_mem hpos))
    simp only [Bool.or_eq_true, Bool.and_eq_true, decide_eq_true_eq] at hfirst
    omega
  have hsign : ∀ c : Char, c.toNat < 48 → (toString n).toList.head? ≠ some c := by
    intro c hc hhead
    have hdigit := toNat_digit (hall c (List.mem_of_head? hhead))
    omega
  have hminus := hsign '-' (by decide)
  have hplus := hsign '+' (by decide)
  have hvalue : (toString n).toList.foldl (fun n c => 10 * n + (c.toNat - 48)) 0 = n := by
    rw [toList_toString]
    exact Nat.ofDigitChars_ten_toDigits
  unfold scanNumber
  rw [hspace]
  simp only [hminus, hplus, or_self, if_false, List.takeWhile_eq_self_iff.mpr hall, hne, hvalue, decide_false]

theorem stoi_toString (h : n < 2 ^ 31) : stoi (toString n) = some (n : ℤ) := by
  have hlow : (-2 ^ 31 : ℤ) ≤ n := le_trans (by decide) (Int.natCast_nonneg n)
  have hhigh : (n : ℤ) < 2 ^ 31 := by exact_mod_cast h
  rw [stoi, scanNumber_toString, Option.bind_some]
  simp only [Bool.false_eq_true, if_false, hlow, hhigh, and_self, if_true]

theorem stoull_toString (h : n < 2 ^ 64) : stoull (toString n) = some (UInt64.ofNat n) := by
  unfold stoull
  rw [scanNumber_toString]
  exact if_pos h

end Numbers

namespace SgOptions

/-- The last character of a number is a digit, so it is no suffix. -/
theorem suffixFactor_toString (n : ℕ) : suffixFactor (toString n).toList.getLast? = 1 := by
  have hne : ∀ c : Char, 57 < c.toNat → (toString n).toList.getLast? ≠ some c := by
    intro c hc hlast
    have hdigit := toNat_digit (isDigit_toString (List.mem_of_getLast? hlast))
    omega
  simp only [suffixFactor, hne 'K' (by decide), hne 'k' (by decide), hne 'M' (by decide), hne 'm' (by decide),
    hne 'G' (by decide), hne 'g' (by decide), or_self, if_false]

variable {stod : String → Option Double} {opts : SgOptions}

/-- An argument with a value goes to the first option whose name it starts with. -/
theorem parseArg_append {name val : String} {set : SgOptions → String → Except SgExit SgOptions}
    (hvalue : '=' ∈ name.toList)
    (hfind : (options stod).find? (fun o => o.1.toList.isPrefixOf (name ++ val).toList) = some (name, set)) :
    parseArg stod opts (name ++ val) = set opts val := by
  have hmem : '=' ∈ (name ++ val).toList := by
    rw [String.toList_append]
    exact List.mem_append_left _ hvalue
  have hhelp : ¬ (name ++ val = "--help" ∨ name ++ val = "-h") := by
    rintro (heq | heq) <;> rw [heq] at hmem <;> exact absurd hmem (by decide)
  unfold parseArg
  rw [if_neg hhelp, hfind]
  simp [String.toList_append, ← String.length_toList]

theorem parseArg_channels (val : String) : parseArg stod opts ("--channels=" ++ val) = setChannels opts val :=
  parseArg_append (by decide) (by simp [options])

theorem parseArg_blockSize (val : String) : parseArg stod opts ("--block-size=" ++ val) = setBlockSize opts val :=
  parseArg_append (by decide) (by simp [options])

theorem parseArg_ringSize (val : String) : parseArg stod opts ("--ring-size=" ++ val) = setRingSize opts val :=
  parseArg_append (by decide) (by simp [options])

theorem parseArg_file (val : String) : parseArg stod opts ("--file=" ++ val) = setFile opts val :=
  parseArg_append (by decide) (by simp [options])

theorem setChannels_toString {channels : UInt32} (hlow : 1 ≤ channels.toNat) (hhigh : channels.toNat ≤ 8) :
    setChannels opts (toString channels.toNat) = .ok { opts with numChannels := channels } := by
  have hrange : ¬ ((channels.toNat : ℤ) < 1 ∨ (channels.toNat : ℤ) > 8) := by omega
  simp only [setChannels, orThrow, stoi_toString (lt_of_le_of_lt hhigh (by decide) : channels.toNat < 2 ^ 31)]
  rw [if_neg hrange, Int.toNat_natCast, UInt32.ofNat_toNat]

theorem setBlockSize_toString (block : UInt32) :
    setBlockSize opts (toString block.toNat) = .ok { opts with blockSize := block } := by
  have hfit : block.toNat < 2 ^ 64 := lt_trans block.toNat_lt (by decide)
  have hback : (UInt64.ofNat block.toNat).toUInt32 = block := by simp
  simp only [setBlockSize, orThrow, stoull_toString hfit, hback]

theorem setRingSize_toString (size : UInt64) :
    setRingSize opts (toString size.toNat) = .ok { opts with ringSize := size } := by
  simp only [setRingSize, orThrow, stoull_toString size.toNat_lt, suffixFactor_toString, UInt64.mul_one,
    UInt64.ofNat_toNat]

end SgOptions

theorem foldlM_append_ok {args args' : List String} {f : SgOptions → String → Except SgExit SgOptions} {o o' : SgOptions}
    (h : args.foldlM f o = .ok o') : (args ++ args').foldlM f o = args'.foldlM f o' := by
  rw [List.foldlM_append, h]
  rfl

/-- **grebe-sg reads off its command line what the viewer put there.** -/
theorem parseSgCli_sgArgs (stod : String → Option Double) {channels : UInt32} (hlow : 1 ≤ channels.toNat)
    (hhigh : channels.toNat ≤ 8) (block : UInt32) (ring : UInt64) (path : String) :
    parseSgCli stod (sgArgs channels block ring path) =
      .ok { numChannels := channels, ringSize := ring, blockSize := block, filePath := path } := by
  have hcounts : ["--channels=" ++ toString channels.toNat, "--block-size=" ++ toString block.toNat].foldlM
      (SgOptions.parseArg stod) {} = .ok { numChannels := channels, blockSize := block } := by
    rw [List.foldlM_cons, SgOptions.parseArg_channels, SgOptions.setChannels_toString hlow hhigh]
    show List.foldlM _ _ _ = _
    rw [List.foldlM_cons, SgOptions.parseArg_blockSize, SgOptions.setBlockSize_toString]
    rfl
  have hring : (if ring ≠ 67108864 then ["--ring-size=" ++ toString ring.toNat] else []).foldlM
      (SgOptions.parseArg stod) { numChannels := channels, blockSize := block } =
        .ok { numChannels := channels, ringSize := ring, blockSize := block } := by
    split_ifs with heq
    · rw [List.foldlM_cons, SgOptions.parseArg_ringSize, SgOptions.setRingSize_toString]
      rfl
    · rw [not_not.mp heq]
      rfl
  have hpath : (if path ≠ "" then ["--file=" ++ path] else []).foldlM (SgOptions.parseArg stod)
      { numChannels := channels, ringSize := ring, blockSize := block } =
        .ok { numChannels := channels, ringSize := ring, blockSize := block, filePath := path } := by
    split_ifs with heq
    · rw [List.foldlM_cons, SgOptions.parseArg_file]
      rfl
    · rw [not_not.mp heq]
      rfl
  unfold parseSgCli sgArgs
  rw [List.append_assoc, foldlM_append_ok hcounts, foldlM_append_ok hring]
  exact hpath

/-- The options after the file: they differ at most in the channel count. -/
theorem SgOptions.eq_of_withFile {disk : String → FileCalls × GrbFile} {opts opts' : SgOptions}
    (h : opts.withFile disk = .ok opts') :
    opts' = { opts with numChannels := if opts.filePath = "" then opts.numChannels
                                       else (GrbFileHeader.load (disk opts.filePath).2.bytes).channelCount } := by
  unfold withFile at h
  split_ifs at h with hpath
  · cases h
    rw [if_pos hpath]
  · rw [if_neg hpath]
    split at h
    · cases h
    · rename_i reader hreader
      obtain ⟨-, -, -, rfl⟩ := FileReader.new_ok_iff.mp hreader
      cases h
      split_ifs with hcount
      · rfl
      · rw [not_not.mp hcount]

theorem mainOptions_ok_iff {stod : String → Option Double} {disk : String → FileCalls × GrbFile} {args : List String}
    {opts o : SgOptions} (h : parseSgCli stod args = .ok opts) :
    mainOptions stod disk args = .ok o ↔
      ∃ opened, opts.withFile disk = .ok opened ∧ o = if opened.transport = "udp" then opened.capBlockSize else opened := by
  unfold mainOptions
  rw [h]
  cases hfile : opts.withFile disk with
  | error e => simp [bind, Except.bind, hfile]
  | ok opened => simp [bind, Except.bind, pure, Except.pure, hfile, eq_comm]

theorem startUp_ok_iff {stod : String → Option Double} {disk : String → FileCalls × GrbFile} {memory : ℕ → ℕ → Bool}
    {args : List String} {o : SgOptions} :
    startUp stod disk memory args = .ok o ↔ mainOptions stod disk args = .ok o ∧ o.ringsConstructed memory = true := by
  unfold startUp
  cases mainOptions stod disk args with
  | error e => simp [bind, Except.bind]
  | ok opts =>
    cases hrings : opts.ringsConstructed memory with
    | true =>
      simp only [bind, Except.bind, hrings, if_true, Except.ok.injEq, iff_self_and]
      rintro rfl
      exact hrings
    | false =>
      simp only [bind, Except.bind, hrings, Bool.false_eq_true, if_false, Except.ok.injEq, reduceCtorEq, false_iff]
      rintro ⟨rfl, htrue⟩
      rw [hrings] at htrue
      cases htrue

/-- **The grebe-sg that the viewer starts**: it gets the ring size, the block size and the file of the viewer, with the
counts in their ranges.  Without a file it starts with the viewer's channel count, if its rings can be constructed, with
one it starts, if at all, with the channel count of the file. -/
theorem spawned_options (stod : String → Option Double) (disk : String → FileCalls × GrbFile) (memory : ℕ → ℕ → Bool)
    {args sg : List String} {opts : CliOptions} {channels : UInt32} (hparse : parseCli args = .ok opts)
    (hsource : opts.source = .pipe sg channels) :
    opts.InRange ∧ channels = opts.numChannels ∧
      (opts.filePath = "" → ((∃ o, startUp stod disk memory sg = .ok o) ↔
        ({ numChannels := channels, ringSize := opts.ringSize } : SgOptions).ringsConstructed memory = true)) ∧
      ∀ o, startUp stod disk memory sg = .ok o →
        o = { numChannels := if opts.filePath = "" then channels
                             else (GrbFileHeader.load (disk opts.filePath).2.bytes).channelCount,
              ringSize := opts.ringSize, blockSize := opts.blockSize, filePath := opts.filePath } := by
  obtain ⟨hrange, -⟩ := CliOptions.valid_parseCli hparse
  unfold CliOptions.source at hsource
  split_ifs at hsource
  obtain ⟨rfl, rfl⟩ := DataSource.pipe.inj hsource
  have hread := parseSgCli_sgArgs stod hrange.channels.1 hrange.channels.2 opts.blockSize opts.ringSize opts.filePath
  have hall (o : SgOptions) (ho : mainOptions stod disk (sgArgs opts.numChannels opts.blockSize opts.ringSize
      opts.filePath) = .ok o) :
      o = { numChannels := if opts.filePath = "" then opts.numChannels
                           else (GrbFileHeader.load (disk opts.filePath).2.bytes).channelCount,
            ringSize := opts.ringSize, blockSize := opts.blockSize, filePath := opts.filePath } := by
    obtain ⟨opened, hopened, heq⟩ := (mainOptions_ok_iff hread).mp ho
    rw [SgOptions.eq_of_withFile hopened, if_neg (show ¬ "pipe" = "udp" by decide)] at heq
    exact heq
  refine ⟨hrange, rfl, fun hpath => ⟨?_, fun hrings => ?_⟩, fun o hstart => hall o (startUp_ok_iff.mp hstart).1⟩
  · rintro ⟨o, hstart⟩
    obtain ⟨ho, hrings⟩ := startUp_ok_iff.mp hstart
    rw [hall o ho, if_pos hpath] at hrings
    exact hrings
  · exact ⟨_, startUp_ok_iff.mpr ⟨(mainOptions_ok_iff hread).mpr ⟨_, if_pos hpath, rfl⟩, hrings⟩⟩

theorem spawned_options_two :
    ∃ opts o, parseCli ["--channels=2", "--block-size=2048", "--ring-size=64K"] = .ok opts ∧
      startUp (fun _ => none) (fun _ => (⟨true, true, true⟩, ⟨[], by decide⟩)) (fun _ _ => true)
        ["--channels=2", "--block-size=2048", "--ring-size=65536"] = .ok o ∧
      o = { numChannels := 2, ringSize := 65536, blockSize := 2048 } := by
  have hparse : parseCli ["--channels=2", "--block-size=2048", "--ring-size=64K"] =
      .ok { ringSize := 65536, numChannels := 2, blockSize := 2048 } := by decide +kernel
  have hsource : CliOptions.source { ringSize := 65536, numChannels := 2, blockSize := 2048 } =
      .pipe ["--channels=2", "--block-size=2048", "--ring-size=65536"] 2 := by decide +kernel
  obtain ⟨-, -, hstarts, hall⟩ :=
    spawned_options (fun _ => none) (fun _ => (⟨true, true, true⟩, ⟨[], by decide⟩)) (fun _ _ => true) hparse hsource
  obtain ⟨o, ho⟩ := (hstarts rfl).mpr (by decide +kernel)
  exact ⟨_, o, hparse, ho, hall o ho⟩

end Grebe
