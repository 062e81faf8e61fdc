import Mathlib.Tactic
import Mathlib.Data.Nat.Digits.Defs

/-!
# Lib.Codec — fixed-width binary layouts

A `Codec α` lays a value out in `width` bytes.  That it reads back what it wrote, whatever follows, is a field, so that
every value of the type is a layout.

* `Codec.le`: little-endian words, for any type whose values are numbers below `256 ^ w`.
* `Codec.prod`, `Codec.map`: records, field after field.
* `Codec.ReadsWidth`: the decoder looks at no byte behind its value, so that what a reused buffer holds there is as good
  as anything.
* `Codec.encodeAll`, `Codec.decodeAll`: arrays without padding.

The library names no program.
-/

namespace Lib

universe u v

/-- A layout in `width` bytes; `decode` reads the first `width` bytes it is given. -/
structure Codec (α : Type u) where
  width : ℕ
  encode : α → List UInt8
  decode : List UInt8 → α
  length_encode : ∀ a, (encode a).length = width
  decode_encode : ∀ a rest, decode (encode a ++ rest) = a

/-! ## Little-endian words -/

section LittleEndian

/-- The lowest `w` bytes of `n`, least significant first. -/
def leBytes : ℕ → ℕ → List UInt8
  | 0, _ => []
  | w + 1, n => UInt8.ofNat n :: leBytes w (n / 256)

/-- The number that the bytes spell, least significant first. -/
def leNat (bs : List UInt8) : ℕ := Nat.ofDigits 256 (bs.map UInt8.toNat)

@[simp] theorem length_leBytes (w n : ℕ) : (leBytes w n).length = w := by
  induction w generalizing n with
  | zero => rfl
  | succ w ih => rw [leBytes, List.length_cons, ih]

theorem leNat_leBytes (w n : ℕ) : leNat (leBytes w n) = n % 256 ^ w := by
  induction w generalizing n with
  | zero => simp [leBytes, leNat, Nat.mod_one]
  | succ w ih =>
    have hword : leNat (leBytes (w + 1) n) = n % 256 + 256 * leNat (leBytes w (n / 256)) := by
      simp [leBytes, leNat, Nat.ofDigits_cons]
    rw [hword, ih, pow_succ', Nat.mod_mul]

end LittleEndian

namespace Codec

variable {α : Type u} {β : Type v}

/-- A type whose values are the numbers below `256 ^ w`, in `w` bytes. -/
def le (w : ℕ) (toNat : α → ℕ) (ofNat : ℕ → α) (hlt : ∀ a, toNat a < 256 ^ w) (hinv : ∀ a, ofNat (toNat a) = a) :
    Codec α where
  width := w
  encode a := leBytes w (toNat a)
  decode bs := ofNat (leNat (bs.take w))
  length_encode _ := length_leBytes w _
  decode_encode a rest := by
    rw [List.take_left' (length_leBytes w _), leNat_leBytes, Nat.mod_eq_of_lt (hlt a), hinv]

/-- Two values, one after the other. -/
def prod (c : Codec α) (d : Codec β) : Codec (α × β) where
  width := c.width + d.width
  encode p := c.encode p.1 ++ d.encode p.2
  decode bs := (c.decode bs, d.decode (bs.drop c.width))
  length_encode p := by rw [List.length_append, c.length_encode, d.length_encode]
  decode_encode p rest := by
    rw [List.append_assoc, c.decode_encode, List.drop_left' (c.length_encode p.1), d.decode_encode]

/-- The layout of `α` for a type whose values are seen as values of `α`. -/
def map (c : Codec α) (toBase : β → α) (ofBase : α → β) (hinv : ∀ b, ofBase (toBase b) = b) : Codec β where
  width := c.width
  encode b := c.encode (toBase b)
  decode bs := ofBase (c.decode bs)
  length_encode _ := c.length_encode _
  decode_encode b rest := by rw [c.decode_encode, hinv]

/-! ## What a decoder reads -/

section Reads

/-- The decoder looks at no byte behind its value. -/
def ReadsWidth (c : Codec α) : Prop := ∀ bs, c.decode (bs.take c.width) = c.decode bs

theorem ReadsWidth.le {w : ℕ} {toNat : α → ℕ} {ofNat : ℕ → α} {hlt : ∀ a, toNat a < 256 ^ w}
    {hinv : ∀ a, ofNat (toNat a) = a} : (Codec.le w toNat ofNat hlt hinv).ReadsWidth := fun bs => by
  show ofNat (leNat ((bs.take w).take w)) = ofNat (leNat (bs.take w))
  rw [List.take_take, min_self]

theorem ReadsWidth.prod {c : Codec α} {d : Codec β} (hc : c.ReadsWidth) (hd : d.ReadsWidth) :
    (c.prod d).ReadsWidth := fun bs => by
  have hfst : c.decode (bs.take (c.width + d.width)) = c.decode bs := by
    rw [← hc, List.take_take, min_eq_left (Nat.le_add_right _ _), hc]
  have hsnd : d.decode ((bs.take (c.width + d.width)).drop c.width) = d.decode (bs.drop c.width) := by
    rw [List.drop_take, Nat.add_sub_cancel_left, hd]
  exact Prod.ext hfst hsnd

theorem ReadsWidth.map {c : Codec α} (hc : c.ReadsWidth) (toBase : β → α) (ofBase : α → β)
    (hinv : ∀ b, ofBase (toBase b) = b) : (c.map toBase ofBase hinv).ReadsWidth :=
  fun bs => congrArg ofBase (hc bs)

/-- Bytes that agree as far as the decoder reads. -/
theorem ReadsWidth.decode_congr {c : Codec α} (hc : c.ReadsWidth) {bs cs : List UInt8}
    (h : bs.take c.width = cs.take c.width) : c.decode bs = c.decode cs := by
  rw [← hc bs, h, hc cs]

end Reads

/-! ## Arrays -/

section Arrays

variable (c : Codec α)

/-- The values one after the other. -/
def encodeAll (xs : List α) : List UInt8 := xs.flatMap c.encode

/-- `n` values one after the other. -/
def decodeAll : ℕ → List UInt8 → List α
  | 0, _ => []
  | n + 1, bs => c.decode bs :: decodeAll n (bs.drop c.width)

@[simp] theorem encodeAll_nil : c.encodeAll [] = [] := rfl

@[simp] theorem encodeAll_cons (x : α) (xs : List α) : c.encodeAll (x :: xs) = c.encode x ++ c.encodeAll xs := rfl

theorem length_encodeAll (xs : List α) : (c.encodeAll xs).length = c.width * xs.length := by
  induction xs with
  | nil => rfl
  | cons x xs ih =>
    rw [encodeAll_cons, List.length_append, c.length_encode, ih, List.length_cons]
    ring

@[simp] theorem length_decodeAll (n : ℕ) (bs : List UInt8) : (c.decodeAll n bs).length = n := by
  induction n generalizing bs with
  | zero => rfl
  | succ n ih => rw [decodeAll, List.length_cons, ih]

/-- Arrays too are read no further than they go. -/
theorem ReadsWidth.decodeAll_take {c : Codec α} (hc : c.ReadsWidth) {n m : ℕ} (bs : List UInt8)
    (h : c.width * n ≤ m) : c.decodeAll n (bs.take m) = c.decodeAll n bs := by
  induction n generalizing bs m with
  | zero => rfl
  | succ n ih =>
    rw [Nat.mul_succ] at h
    have hhead : c.decode (bs.take m) = c.decode bs :=
      hc.decode_congr (by rw [List.take_take, min_eq_left (by omega)])
    rw [decodeAll, decodeAll, hhead, List.drop_take, ih _ (by omega)]

theorem decodeAll_encodeAll (xs : List α) (rest : List UInt8) :
    c.decodeAll xs.length (c.encodeAll xs ++ rest) = xs := by
  induction xs with
  | nil => rfl
  | cons x xs ih =>
    rw [List.length_cons, decodeAll, encodeAll_cons, List.append_assoc, c.decode_encode,
      List.drop_left' (c.length_encode x), ih]

/-- Element `i` is where `i` elements end. -/
theorem decode_drop_encodeAll (xs : List α) (rest : List UInt8) {i : ℕ} (hi : i < xs.length) :
    c.decode ((c.encodeAll xs ++ rest).drop (c.width * i)) = xs[i] := by
  induction xs generalizing i with
  | nil => cases hi
  | cons x xs ih =>
    rw [encodeAll_cons, List.append_assoc]
    cases i with
    | zero => exact c.decode_encode x _
    | succ i =>
      have hskip : c.width * (i + 1) = c.width + c.width * i := by rw [Nat.mul_succ, Nat.add_comm]
      rw [hskip, ← List.drop_drop, List.drop_left' (c.length_encode x), ih (Nat.lt_of_succ_lt_succ hi),
        List.getElem_cons_succ]

end Arrays

end Codec

end Lib
