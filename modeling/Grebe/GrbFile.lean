import Grebe.Contracts
import Grebe.Frame
import Grebe.Lib.CStruct

/-!
# Grebe.GrbFile — the files that grebe-sg plays back

`generate_grb.py` packs the header field after field and appends the channels one after the other.  `FileReader` maps
the file, copies the header out of it as a C struct, checks it, and finds the channels by the counts in it.

* `load_packed`: the struct has every field where it was packed.
* `new_ok_iff`: what the constructor accepts; `Announced` is the size that a header announces, which the constructor
  computes in 64 bits.
* `grb_agree`: the reader takes what the script writes, sample for sample, and rejects what the format excludes.

The script and the reader are on little-endian machines, the reader on one with a `size_t` and an `off_t` of 64 bits.
Only the POSIX branch is here; what the script prints and what the constructor unmaps before it throws are left out.
-/

namespace Grebe

open Lib

def GRB_MAGIC : UInt32 := 0x31425247

def GRB_VERSION : UInt32 := 1

/-! ## The script -/

namespace GenerateGrb

section Script

def GRB_HEADER_SIZE : ℕ := 32

/-- How `main` ends. -/
inductive Outcome
  /-- the message, before it returns 1 -/
  | refused (message : String)
  /-- `struct.error` or `AssertionError` -/
  | raised
  /-- the content of the file -/
  | written (bytes : List UInt8)

/-- An unsigned field of `struct.pack` in `w` bytes; a number that does not fit is a `struct.error`. -/
def packUnsigned (w : ℕ) (x : ℤ) : Option (List UInt8) :=
  if 0 ≤ x ∧ x < 256 ^ w then some (leBytes w x.toNat) else none

/-- `struct.pack("<IIIIdQ", ...)` -/
def pack (magic version channels reserved : ℤ) (rate : Double) (numSamples : ℤ) : Option (List UInt8) := do
  let magic ← packUnsigned 4 magic
  let version ← packUnsigned 4 version
  let channels ← packUnsigned 4 channels
  let reserved ← packUnsigned 4 reserved
  let numSamples ← packUnsigned 8 numSamples
  some ([magic, version, channels, reserved, double.encode rate, numSamples].flatten)

/-- `main`, on what it has parsed, `int(args.rate * args.duration)`, and what `generate_waveform` returns for each
channel. -/
def main (channels : ℤ) (rate : Double) (numSamples : ℤ) (waveform : ℕ → List Int16) : Outcome :=
  if ¬ (1 ≤ channels ∧ channels ≤ 8) then .refused s!"Error: channels must be 1-8, got {channels}"
  else
    match pack GRB_MAGIC.toNat GRB_VERSION.toNat channels 0 rate numSamples with
    | none => .raised
    | some header =>
      if header.length ≠ GRB_HEADER_SIZE then .raised
      else .written (header ++ (List.range channels.toNat).flatMap fun ch => sample.encodeAll (waveform ch))

theorem packUnsigned_u32 {x : ℕ} (h : x < 2 ^ 32) : packUnsigned 4 x = some (u32.encode (UInt32.ofNat x)) := by
  rw [packUnsigned, if_pos (by omega), Int.toNat_natCast]
  show _ = some (leBytes 4 (UInt32.ofNat x).toNat)
  rw [UInt32.toNat_ofNat', Nat.mod_eq_of_lt h]

theorem packUnsigned_u64 {x : ℕ} (h : x < 2 ^ 64) : packUnsigned 8 x = some (u64.encode (UInt64.ofNat x)) := by
  rw [packUnsigned, if_pos (by omega), Int.toNat_natCast]
  show _ = some (leBytes 8 (UInt64.ofNat x).toNat)
  rw [UInt64.toNat_ofNat', Nat.mod_eq_of_lt h]

end Script

end GenerateGrb

/-! ## The header -/

structure GrbFileHeader where
  magic : UInt32
  version : UInt32
  channelCount : UInt32
  reserved : UInt32
  sampleRateHz : Double
  totalSamples : UInt64
deriving DecidableEq

namespace GrbFileHeader

section Header

/-- The fields in their order, four `uint32_t`, a `double` and a `uint64_t`. -/
def fields : List CField := [⟨4, 4⟩, ⟨4, 4⟩, ⟨4, 4⟩, ⟨4, 4⟩, ⟨8, 8⟩, ⟨8, 8⟩]

/-- `sizeof(GrbFileHeader)` -/
def size : ℕ := CStruct.sizeof fields

/-- The bytes from field `i` on. -/
def field (i : ℕ) (bytes : List UInt8) : List UInt8 := bytes.drop ((CStruct.offsets 0 fields).getD i 0)

/-- `std::memcpy(&header_, mapped_, sizeof(GrbFileHeader))` -/
def load (bytes : List UInt8) : GrbFileHeader where
  magic := u32.decode (field 0 bytes)
  version := u32.decode (field 1 bytes)
  channelCount := u32.decode (field 2 bytes)
  reserved := u32.decode (field 3 bytes)
  sampleRateHz := double.decode (field 4 bytes)
  totalSamples := u64.decode (field 5 bytes)

theorem size_eq : size = 32 := by decide

theorem noPadding : CStruct.NoPadding 0 fields := by
  simp only [fields, CStruct.NoPadding]
  decide

/-- The fields, packed. -/
def packed (h : GrbFileHeader) : List (List UInt8) :=
  [u32.encode h.magic, u32.encode h.version, u32.encode h.channelCount, u32.encode h.reserved,
    double.encode h.sampleRateHz, u64.encode h.totalSamples]

theorem packed_sizes (h : GrbFileHeader) : h.packed.map List.length = fields.map CField.size := by
  simp only [packed, fields, List.map_cons, List.map_nil, Codec.length_encode]
  rfl

theorem length_packed (h : GrbFileHeader) : h.packed.flatten.length = 32 := by
  rw [List.length_flatten, packed_sizes]
  rfl

/-- A field is read where it was packed. -/
theorem field_packed (h : GrbFileHeader) (after : List UInt8) {i : ℕ} {bs : List UInt8} (hget : h.packed[i]? = some bs) :
    ∃ rest, field i (h.packed.flatten ++ after) = bs ++ rest := by
  have hi : i < (CStruct.offsets 0 fields).length := (List.getElem?_eq_some_iff.mp hget).1
  obtain ⟨found, rest, hfound, hdrop⟩ : ∃ found rest, h.packed[i]? = some found ∧
      ([] ++ h.packed.flatten ++ after).drop (CStruct.offsets 0 fields)[i] = found ++ rest :=
    CStruct.drop_offset List.length_nil h.packed_sizes noPadding (List.getElem?_eq_getElem hi)
  rw [hget] at hfound
  obtain rfl := Option.some.inj hfound
  refine ⟨rest, ?_⟩
  rw [field, List.getD_eq_getElem?_getD, List.getElem?_eq_getElem hi, Option.getD_some, ← hdrop, List.nil_append]

/-- **The struct has every field where it was packed.** -/
theorem load_packed (h : GrbFileHeader) (after : List UInt8) : load (h.packed.flatten ++ after) = h := by
  obtain ⟨r0, h0⟩ := h.field_packed after (i := 0) rfl
  obtain ⟨r1, h1⟩ := h.field_packed after (i := 1) rfl
  obtain ⟨r2, h2⟩ := h.field_packed after (i := 2) rfl
  obtain ⟨r3, h3⟩ := h.field_packed after (i := 3) rfl
  obtain ⟨r4, h4⟩ := h.field_packed after (i := 4) rfl
  obtain ⟨r5, h5⟩ := h.field_packed after (i := 5) rfl
  simp only [load, h0, h1, h2, h3, h4, h5, Codec.decode_encode]

end Header

end GrbFileHeader

/-! ## The reader -/

/-- A file; its size is an `off_t`. -/
structure GrbFile where
  bytes : List UInt8
  size_lt : bytes.length < 2 ^ 63

/-- Which of the calls on a file succeed. -/
structure FileCalls where
  opens : Bool
  stats : Bool
  maps : Bool

/-- A `FileReader` past its constructor. -/
structure FileReader where
  path : String
  mapped : List UInt8
  mappedSize : UInt64
  header : GrbFileHeader

namespace GrbFile

/-- `st.st_size` -/
def stSize (file : GrbFile) : Int64 := Int64.ofNat file.bytes.length

theorem stSize_lt_iff (file : GrbFile) {n : ℕ} (hn : n < 2 ^ 63) :
    file.stSize < Int64.ofNat n ↔ file.bytes.length < n := Int64.ofNat_lt_iff_lt file.size_lt hn

/-- `static_cast<size_t>(st.st_size)` -/
def mappedSize (file : GrbFile) : UInt64 := file.stSize.toUInt64

theorem toNat_mappedSize (file : GrbFile) : file.mappedSize.toNat = file.bytes.length := by
  have hlt := file.size_lt
  rw [mappedSize, stSize, Int64.toUInt64_ofNat', UInt64.toNat_ofNat', Nat.mod_eq_of_lt (by omega)]

end GrbFile

namespace GrbFileHeader

section Checks

variable (h : GrbFileHeader)

/-- `expected_total`, in 64 bits -/
def expectedTotal : UInt64 := UInt64.ofNat size + h.channelCount.toUInt64 * h.totalSamples * 2

/-- The size that the header announces. -/
def announced : ℕ := 32 + 2 * (h.channelCount.toNat * h.totalSamples.toNat)

/-- The checks of the constructor, in their order. -/
def error (path : String) (mappedSize : UInt64) : Option String :=
  if h.magic ≠ GRB_MAGIC then some ("FileReader: invalid magic (expected GRB1): " ++ path)
  else if h.version ≠ GRB_VERSION then
    some ("FileReader: unsupported version " ++ toString h.version ++ ": " ++ path)
  else if h.channelCount < 1 ∨ h.channelCount > 8 then
    some ("FileReader: invalid channel_count " ++ toString h.channelCount ++ ": " ++ path)
  else if h.sampleRateHz.nonPos then some ("FileReader: invalid sample_rate_hz: " ++ path)
  else if mappedSize < h.expectedTotal then
    some ("FileReader: file truncated (expected " ++ toString h.expectedTotal ++ " bytes, got " ++
      toString mappedSize ++ "): " ++ path)
  else none

/-- What the checks let pass. -/
structure Valid (mappedSize : ℕ) : Prop where
  magic : h.magic = GRB_MAGIC
  version : h.version = GRB_VERSION
  channels : 1 ≤ h.channelCount.toNat ∧ h.channelCount.toNat ≤ 8
  rate : h.sampleRateHz.nonPos = false
  size : h.announced % 2 ^ 64 ≤ mappedSize

theorem toNat_expectedTotal : h.expectedTotal.toNat = h.announced % 2 ^ 64 := by
  have hofNat : h.expectedTotal = UInt64.ofNat h.announced := by
    rw [expectedTotal, size_eq, announced, UInt64.ofNat_add, UInt64.ofNat_mul, UInt64.ofNat_mul, UInt64.ofNat_toNat,
      UInt64.ofNat_uInt32ToNat, UInt64.mul_comm]
    rfl
  rw [hofNat, UInt64.toNat_ofNat']

/-- A check passes when it fails not, and the ones behind it pass. -/
theorem check_eq_none {c : Prop} [Decidable c] {message : String} {rest : Option String} :
    (if c then some message else rest) = none ↔ ¬ c ∧ rest = none := by
  by_cases hc : c
  · rw [if_pos hc]
    exact iff_of_false nofun fun hn => hn.1 hc
  · rw [if_neg hc]
    exact (and_iff_right hc).symm

/-- **What the checks let pass.** -/
theorem error_eq_none (path : String) (mappedSize : UInt64) :
    h.error path mappedSize = none ↔ h.Valid mappedSize.toNat := by
  have hcount : ¬ (h.channelCount < 1 ∨ h.channelCount > 8) ↔
      1 ≤ h.channelCount.toNat ∧ h.channelCount.toNat ≤ 8 := by
    rw [gt_iff_lt, UInt32.lt_iff_toNat_lt, UInt32.lt_iff_toNat_lt, show (1 : UInt32).toNat = 1 from rfl,
      show (8 : UInt32).toNat = 8 from rfl]
    omega
  have hsize : ¬ mappedSize < h.expectedTotal ↔ h.announced % 2 ^ 64 ≤ mappedSize.toNat := by
    rw [UInt64.lt_iff_toNat_lt, toNat_expectedTotal, not_lt]
  rw [error, check_eq_none, check_eq_none, check_eq_none, check_eq_none, check_eq_none, not_not, not_not, hcount,
    Bool.not_eq_true, hsize]
  constructor
  · rintro ⟨hmagic, hversion, hchannels, hrate, hfits, -⟩
    exact ⟨hmagic, hversion, hchannels, hrate, hfits⟩
  · rintro ⟨hmagic, hversion, hchannels, hrate, hfits⟩
    exact ⟨hmagic, hversion, hchannels, hrate, hfits, rfl⟩

end Checks

end GrbFileHeader

namespace FileReader

section Reader

/-- `FileReader::FileReader` -/
def new (path : String) (calls : FileCalls) (file : GrbFile) : Except String FileReader :=
  if !calls.opens then .error ("FileReader: cannot open " ++ path)
  else if !calls.stats || file.stSize < Int64.ofNat GrbFileHeader.size then
    .error ("FileReader: file too small or stat failed: " ++ path)
  else if !calls.maps then .error ("FileReader: mmap failed: " ++ path)
  else
    match (GrbFileHeader.load file.bytes).error path file.mappedSize with
    | some message => .error message
    | none => .ok ⟨path, file.bytes, file.mappedSize, .load file.bytes⟩

variable (r : FileReader)

/-- `sample_data_[i]`, which lies within the mapping or is no sample. -/
def sampleData (i : ℕ) : Option Int16 :=
  if GrbFileHeader.size + 2 * (i + 1) ≤ r.mappedSize.toNat then
    some (sample.decode (r.mapped.drop (GrbFileHeader.size + 2 * i)))
  else none

/-- `ch_base[ch]`, from `sample_data_` on -/
def chBase (ch : UInt32) : UInt64 := ch.toUInt64 * r.header.totalSamples

/-- `ch_base[ch][k]` -/
def read (ch : UInt32) (k : ℕ) : Option Int16 := r.sampleData ((r.chBase ch).toNat + k)

variable {r} {path : String} {calls : FileCalls} {file : GrbFile}

theorem guard_eq_ok {c : Prop} [Decidable c] {message : String} {rest : Except String FileReader} :
    (if c then .error message else rest) = .ok r ↔ ¬ c ∧ rest = .ok r := by
  by_cases hc : c
  · rw [if_pos hc]
    exact iff_of_false nofun fun hn => hn.1 hc
  · rw [if_neg hc]
    exact (and_iff_right hc).symm

/-- **What the constructor accepts**: a file of at least a header, whose header passes the checks. -/
theorem new_ok_iff :
    new path calls file = .ok r ↔
      (calls.opens = true ∧ calls.stats = true ∧ calls.maps = true) ∧ 32 ≤ file.bytes.length ∧
        (GrbFileHeader.load file.bytes).Valid file.bytes.length ∧
          r = ⟨path, file.bytes, file.mappedSize, .load file.bytes⟩ := by
  have hsmall : file.stSize < Int64.ofNat GrbFileHeader.size ↔ ¬ 32 ≤ file.bytes.length := by
    rw [file.stSize_lt_iff (by decide), GrbFileHeader.size_eq, not_le]
  have hvalid := (GrbFileHeader.load file.bytes).error_eq_none path file.mappedSize
  rw [file.toNat_mappedSize] at hvalid
  have hchecked {error : Option String} {r' : FileReader} :
      (match error with
        | some message => Except.error message
        | none => .ok r') = .ok r ↔ error = none ∧ r = r' := by
    cases error with
    | some message => exact iff_of_false nofun fun hn => nomatch hn.1
    | none => exact ⟨fun h => ⟨rfl, (Except.ok.inj h).symm⟩, fun h => by rw [h.2]⟩
  rw [new, guard_eq_ok, guard_eq_ok, guard_eq_ok, ← hvalid, hchecked, Bool.or_eq_true, decide_eq_true_iff, hsmall,
    not_or, not_not, Bool.not_eq_true', Bool.not_eq_true', Bool.not_eq_true', Bool.not_eq_false, Bool.not_eq_false,
    Bool.not_eq_false]
  constructor
  · rintro ⟨hopens, ⟨hstats, hlen⟩, hmaps, hnone, hr⟩
    exact ⟨⟨hopens, hstats, hmaps⟩, hlen, hnone, hr⟩
  · rintro ⟨⟨hopens, hstats, hmaps⟩, hlen, hnone, hr⟩
    exact ⟨hopens, ⟨hstats, hlen⟩, hmaps, hnone, hr⟩

end Reader

end FileReader

/-! ## Script and reader -/

namespace GrbFile

section Agreement

/-- The header that the script writes. -/
def header (channels : ℕ) (rate : Double) (n : ℕ) : GrbFileHeader :=
  ⟨GRB_MAGIC, GRB_VERSION, UInt32.ofNat channels, 0, rate, UInt64.ofNat n⟩

/-- What the script writes. -/
def content (channels : ℕ) (rate : Double) (n : ℕ) (waveform : ℕ → List Int16) : List UInt8 :=
  (header channels rate n).packed.flatten ++ sample.encodeAll ((List.range channels).map waveform).flatten

variable {channels n : ℕ} {rate : Double} {waveform : ℕ → List Int16}

theorem pack_eq (hchannels : channels < 2 ^ 32) (hn : n < 2 ^ 64) :
    GenerateGrb.pack GRB_MAGIC.toNat GRB_VERSION.toNat channels 0 rate n =
      some (header channels rate n).packed.flatten := by
  have hmagic := GenerateGrb.packUnsigned_u32 GRB_MAGIC.toNat_lt
  have hversion := GenerateGrb.packUnsigned_u32 GRB_VERSION.toNat_lt
  have hreserved : GenerateGrb.packUnsigned 4 0 = some (u32.encode 0) :=
    GenerateGrb.packUnsigned_u32 (x := 0) (by decide)
  rw [UInt32.ofNat_toNat] at hmagic hversion
  rw [GenerateGrb.pack, hmagic, hversion, GenerateGrb.packUnsigned_u32 hchannels, hreserved,
    GenerateGrb.packUnsigned_u64 hn]
  rfl

theorem main_eq (h1 : 1 ≤ channels) (h8 : channels ≤ 8) (hn : n < 2 ^ 64) :
    GenerateGrb.main channels rate n waveform = .written (content channels rate n waveform) := by
  have hsamples : ((List.range channels).flatMap fun ch => sample.encodeAll (waveform ch)) =
      sample.encodeAll ((List.range channels).map waveform).flatten := by
    rw [← List.flatMap_def]
    exact (List.flatMap_assoc ..).symm
  have hassert : ¬ (header channels rate n).packed.flatten.length ≠ GenerateGrb.GRB_HEADER_SIZE :=
    not_not.mpr (GrbFileHeader.length_packed _)
  rw [GenerateGrb.main, if_neg (by omega), pack_eq (by omega) hn, content, ← hsamples]
  exact if_neg hassert

theorem length_map_waveform (hlen : ∀ ch < channels, (waveform ch).length = n) :
    ∀ r ∈ (List.range channels).map waveform, r.length = n := by
  intro r hr
  obtain ⟨ch, hch, rfl⟩ := List.mem_map.mp hr
  exact hlen ch (List.mem_range.mp hch)

theorem length_content (hlen : ∀ ch < channels, (waveform ch).length = n) :
    (content channels rate n waveform).length = 32 + 2 * (channels * n) := by
  rw [content, List.length_append, GrbFileHeader.length_packed, length_samples,
    length_flatten_of_forall (length_map_waveform hlen), List.length_map, List.length_range]

theorem valid_header (h1 : 1 ≤ channels) (h8 : channels ≤ 8) (hrate : rate.pos = true) (hn : n < 2 ^ 64) :
    (header channels rate n).Valid (32 + 2 * (channels * n)) where
  magic := rfl
  version := rfl
  channels := by
    show 1 ≤ (UInt32.ofNat channels).toNat ∧ (UInt32.ofNat channels).toNat ≤ 8
    rw [UInt32.toNat_ofNat', Nat.mod_eq_of_lt (by omega)]
    exact ⟨h1, h8⟩
  rate := Double.nonPos_of_pos hrate
  size := by
    apply (Nat.mod_le _ _).trans_eq
    show 32 + 2 * ((UInt32.ofNat channels).toNat * (UInt64.ofNat n).toNat) = _
    rw [UInt32.toNat_ofNat', UInt64.toNat_ofNat', Nat.mod_eq_of_lt (by omega), Nat.mod_eq_of_lt hn]

/-- **A sample is read where it was written.** -/
theorem read_content (hlen : ∀ ch < channels, (waveform ch).length = n) {r : FileReader} (h8 : channels ≤ 8)
    (hsize : 32 + 2 * (channels * n) < 2 ^ 63) (hmapped : r.mapped = content channels rate n waveform)
    (hmappedSize : r.mappedSize.toNat = r.mapped.length) (hheader : r.header = header channels rate n) {c k : ℕ}
    (hc : c < channels) (hk : k < n) : r.read (UInt32.ofNat c) k = (waveform c)[k]? := by
  have hrow : c * n + n ≤ channels * n := by
    rw [← Nat.succ_mul]
    exact Nat.mul_le_mul_right _ hc
  have hbase : (r.chBase (UInt32.ofNat c)).toNat = c * n := by
    rw [FileReader.chBase, hheader, UInt64.toNat_mul, UInt32.toNat_toUInt64, UInt32.toNat_ofNat',
      Nat.mod_eq_of_lt (by omega : c < 2 ^ 32)]
    show c * (UInt64.ofNat n).toNat % _ = _
    rw [UInt64.toNat_ofNat', Nat.mod_eq_of_lt (by omega : n < 2 ^ 64), Nat.mod_eq_of_lt (by omega)]
  have hflat := length_flatten_of_forall (length_map_waveform hlen)
  rw [List.length_map, List.length_range] at hflat
  have hi : c * n + k < ((List.range channels).map waveform).flatten.length := by omega
  have hin : GrbFileHeader.size + 2 * (c * n + k + 1) ≤ r.mappedSize.toNat := by
    rw [GrbFileHeader.size_eq, hmappedSize, hmapped, length_content hlen]
    omega
  have hskip : r.mapped.drop (GrbFileHeader.size + 2 * (c * n + k)) =
      (sample.encodeAll ((List.range channels).map waveform).flatten ++ []).drop (sample.width * (c * n + k)) := by
    rw [hmapped, content, GrbFileHeader.size_eq, ← List.drop_drop, List.drop_left' (GrbFileHeader.length_packed _),
      List.append_nil, width_sample]
  rw [FileReader.read, hbase, FileReader.sampleData, if_pos hin, hskip, sample.decode_drop_encodeAll _ _ hi]
  -- the row of the channel
  have hch : c < ((List.range channels).map waveform).length := by rwa [List.length_map, List.length_range]
  have hslice := take_drop_flatten (length_map_waveform hlen) hch
  rw [List.getElem_map, List.getElem_range] at hslice
  rw [← hslice, List.getElem?_take_of_lt hk, List.getElem?_drop, List.getElem?_eq_getElem hi]

/-- **Script and reader agree on the format.**  The reader takes every file that the script writes, and finds in it every
sample where the script has it; and it takes no file that is no such file by its size, magic, version or channel count,
or that is shorter than its header announces. -/
theorem grb_agree (path : String) :
    (∀ (channels : ℕ) (rate : Double) (n : ℕ) (waveform : ℕ → List Int16), 1 ≤ channels → channels ≤ 8 →
        rate.pos = true → (∀ ch < channels, (waveform ch).length = n) → 32 + 2 * (channels * n) < 2 ^ 63 →
        ∃ (file : GrbFile) (r : FileReader), GenerateGrb.main channels rate n waveform = .written file.bytes ∧
          FileReader.new path ⟨true, true, true⟩ file = .ok r ∧
          r.header = ⟨GRB_MAGIC, GRB_VERSION, UInt32.ofNat channels, 0, rate, UInt64.ofNat n⟩ ∧
          ∀ c < channels, ∀ k < n, r.read (UInt32.ofNat c) k = (waveform c)[k]?) ∧
      ∀ (calls : FileCalls) (file : GrbFile) (h : GrbFileHeader), h = .load file.bytes →
        file.bytes.length < 32 ∨ h.magic ≠ GRB_MAGIC ∨ h.version ≠ GRB_VERSION ∨
          ¬ (1 ≤ h.channelCount.toNat ∧ h.channelCount.toNat ≤ 8) ∨
          h.announced < 2 ^ 63 ∧ file.bytes.length < h.announced →
        ∃ message, FileReader.new path calls file = .error message := by
  constructor
  · intro channels rate n waveform h1 h8 hrate hlen hsize
    have hn : n < 2 ^ 64 := by
      have hle : 1 * n ≤ channels * n := Nat.mul_le_mul_right _ h1
      omega
    have hcontent : (content channels rate n waveform).length = 32 + 2 * (channels * n) := length_content hlen
    have hload : GrbFileHeader.load (content channels rate n waveform) = header channels rate n :=
      GrbFileHeader.load_packed ..
    let file : GrbFile := ⟨content channels rate n waveform, by rwa [hcontent]⟩
    refine ⟨file, ⟨path, file.bytes, file.mappedSize, .load file.bytes⟩, main_eq h1 h8 hn, ?_, hload, ?_⟩
    · refine FileReader.new_ok_iff.mpr ⟨⟨rfl, rfl, rfl⟩, ?_, ?_, rfl⟩
      · show 32 ≤ (content channels rate n waveform).length
        omega
      · show (GrbFileHeader.load (content channels rate n waveform)).Valid (content channels rate n waveform).length
        rw [hload, hcontent]
        exact valid_header h1 h8 hrate hn
    · intro c hc k hk
      exact read_content hlen h8 hsize rfl file.toNat_mappedSize hload hc hk
  · rintro calls file h rfl hbroken
    cases hnew : FileReader.new path calls file with
    | error message => exact ⟨message, rfl⟩
    | ok r =>
      obtain ⟨-, hlen, hvalid, -⟩ := FileReader.new_ok_iff.mp hnew
      rcases hbroken with hshort | hmagic | hversion | hchannels | ⟨hsize, hshort⟩
      · exact absurd hlen (not_le.mpr hshort)
      · exact absurd hvalid.magic hmagic
      · exact absurd hvalid.version hversion
      · exact absurd hvalid.channels hchannels
      · have hfits := hvalid.size
        rw [Nat.mod_eq_of_lt (by omega)] at hfits
        omega

/-- Two channels of two samples, at one sample per second. -/
def twoRows (ch : ℕ) : List Int16 := [[3, -1], [4, 1]].getD ch []

/-- `twoRows`, as the script writes it. -/
def twoChannels : List UInt8 :=
  [71, 82, 66, 49, 1, 0, 0, 0, 2, 0, 0, 0, 0, 0, 0, 0, 0, 0, 0, 0, 0, 0, 240, 63, 2, 0, 0, 0, 0, 0, 0, 0,
    3, 0, 255, 255, 4, 0, 1, 0]

/-- The file is taken, and without its last byte it is not. -/
theorem grb_agree_two :
    (∃ (file : GrbFile) (r : FileReader),
      GenerateGrb.main 2 ⟨0x3FF0000000000000⟩ 2 twoRows = .written file.bytes ∧ file.bytes = twoChannels ∧
        FileReader.new "two.grb" ⟨true, true, true⟩ file = .ok r ∧ r.read 1 0 = some 4) ∧
      ∃ message, FileReader.new "two.grb" ⟨true, true, true⟩ ⟨twoChannels.dropLast, by decide⟩ = .error message := by
  obtain ⟨htaken, hbroken⟩ := grb_agree "two.grb"
  constructor
  · obtain ⟨file, r, hwritten, hnew, -, hread⟩ := htaken 2 ⟨0x3FF0000000000000⟩ 2 twoRows (by decide) (by decide)
      (by decide) (by decide) (by decide)
    have hcontent : content 2 ⟨0x3FF0000000000000⟩ 2 twoRows = twoChannels := by decide +kernel
    have hbytes := hwritten.symm.trans (main_eq (by decide) (by decide) (by decide))
    exact ⟨file, r, hwritten, (GenerateGrb.Outcome.written.inj hbytes).trans hcontent, hnew,
      hread 1 (by decide) 0 (by decide)⟩
  · exact hbroken _ _ _ rfl (by decide)

/-- The magic is spelled `GRB1`. -/
example : u32.encode GRB_MAGIC = [71, 82, 66, 49] := by decide

end Agreement

end GrbFile

end Grebe
