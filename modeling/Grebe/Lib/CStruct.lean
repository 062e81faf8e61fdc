import Mathlib.Tactic

/-!
# Lib.CStruct — where a compiler puts the fields of a struct

A compiler puts each field at the next multiple of its alignment; a packed record has its fields one after the other.
Where every field would begin at a multiple of its alignment anyway (`NoPadding`), the two are the same, and what was
packed is found where the struct has it (`drop_offset`).

The library names no program.
-/

namespace Lib

/-- `sizeof` and `alignof` of a field. -/
structure CField where
  size : ℕ
  align : ℕ

namespace CStruct

section Layout

/-- The next multiple of `align`. -/
def alignUp (align x : ℕ) : ℕ := (x + align - 1) / align * align

/-- Where the fields are, when the first byte that is free is `start`. -/
def offsets (start : ℕ) : List CField → List ℕ
  | [] => []
  | f :: fs => alignUp f.align start :: offsets (alignUp f.align start + f.size) fs

/-- The first free byte behind the fields. -/
def fieldsEnd (start : ℕ) : List CField → ℕ
  | [] => start
  | f :: fs => fieldsEnd (alignUp f.align start + f.size) fs

/-- `sizeof` of the struct: the end is aligned as the field of the largest alignment is. -/
def sizeof (fs : List CField) : ℕ := alignUp (fs.foldl (fun align f => max align f.align) 1) (fieldsEnd 0 fs)

/-- Every field begins at a multiple of its alignment if it follows the one before it. -/
def NoPadding (start : ℕ) : List CField → Prop
  | [] => True
  | f :: fs => 0 < f.align ∧ f.align ∣ start ∧ NoPadding (start + f.size) fs

theorem alignUp_of_dvd {align x : ℕ} (hpos : 0 < align) (h : align ∣ x) : alignUp align x = x := by
  obtain ⟨k, rfl⟩ := h
  have hdiv : (align * k + align - 1) / align = k := by
    rw [Nat.add_sub_assoc hpos, Nat.mul_add_div hpos, Nat.div_eq_of_lt (Nat.sub_lt hpos Nat.one_pos), Nat.add_zero]
  rw [alignUp, hdiv, Nat.mul_comm]

variable {α : Type*}

/-- **What was packed is found where the struct has it**, whatever precedes the fields and follows them. -/
theorem drop_offset {before after : List α} {start : ℕ} {fs : List CField} {packed : List (List α)}
    (hstart : before.length = start) (hsize : packed.map List.length = fs.map CField.size) (h : NoPadding start fs)
    {i o : ℕ} (ho : (offsets start fs)[i]? = some o) :
    ∃ field rest, packed[i]? = some field ∧ (before ++ packed.flatten ++ after).drop o = field ++ rest := by
  induction fs generalizing before start packed i with
  | nil => cases ho
  | cons f fs ih =>
    obtain ⟨hpos, hdvd, hrest⟩ := h
    rcases packed with _ | ⟨field, packed⟩
    · cases hsize
    obtain ⟨hfield, hsizes⟩ := List.cons.inj hsize
    rw [offsets, alignUp_of_dvd hpos hdvd] at ho
    cases i with
    | zero =>
      obtain rfl : start = o := Option.some.inj ho
      refine ⟨field, packed.flatten ++ after, rfl, ?_⟩
      rw [List.append_assoc, List.drop_left' hstart, List.flatten_cons, List.append_assoc]
    | succ i =>
      have hlen : (before ++ field).length = start + f.size := by rw [List.length_append, hstart, hfield]
      obtain ⟨found, rest, hget, hdrop⟩ := ih hlen hsizes hrest ho
      refine ⟨found, rest, hget, ?_⟩
      rw [← hdrop, List.flatten_cons, List.append_assoc, List.append_assoc, List.append_assoc, List.append_assoc]

end Layout

end CStruct

end Lib
