import Mathlib.Tactic

/-!
# Lib.Ledger — tokens issued once and given back once

Tokens are numbered in the order of their issue.  A token issued is held or has been given back, never both and neither
one twice: that is the field `balanced`, one equation of multisets, so that who holds which token does not matter and
moving tokens between holders changes nothing.

* `Ledger.issue`, `Ledger.giveBack`: the two ways a ledger changes.
* `Ledger.held_once`, `Ledger.count_released_le_one`, `Ledger.released_once`: what the equation says of one token.

The library names no program.
-/

namespace Lib

structure Ledger where
  held : Multiset ℕ
  released : Multiset ℕ
  issued : ℕ
  balanced : held + released = Multiset.range issued

namespace Ledger

/-! ## Changes -/

section Changes

def empty : Ledger where
  held := 0
  released := 0
  issued := 0
  balanced := rfl

variable (L : Ledger)

/-- The next token is issued. -/
def issue : Ledger where
  held := L.issued ::ₘ L.held
  released := L.released
  issued := L.issued + 1
  balanced := by rw [Multiset.range_succ, Multiset.cons_add, L.balanced]

/-- The tokens `gone` are given back, and `rest` is still held. -/
def giveBack {gone rest : Multiset ℕ} (h : L.held = gone + rest) : Ledger where
  held := rest
  released := L.released + gone
  issued := L.issued
  balanced := by rw [← L.balanced, h, add_comm L.released, ← add_assoc, add_comm rest]

end Changes

/-! ## One token -/

section Token

variable (L : Ledger) {b : ℕ}

theorem count_add_count (b : ℕ) : L.held.count b + L.released.count b = if b < L.issued then 1 else 0 := by
  rw [← Multiset.count_add, L.balanced]
  split_ifs with hb
  · exact Multiset.count_eq_one_of_mem (Multiset.nodup_range _) (Multiset.mem_range.mpr hb)
  · exact Multiset.count_eq_zero_of_notMem fun h => hb (Multiset.mem_range.mp h)

theorem count_released_le_one (b : ℕ) : L.released.count b ≤ 1 := by
  have h := L.count_add_count b
  split_ifs at h <;> omega

theorem issued_of_released (h : b ∈ L.released) : b < L.issued := by
  have hmem : b ∈ L.held + L.released := Multiset.mem_add.mpr (.inr h)
  rwa [L.balanced, Multiset.mem_range] at hmem

theorem not_held (h : b ∈ L.released) : b ∉ L.held := by
  have hone := L.count_add_count b
  have hpos := Multiset.count_pos.mpr h
  rw [if_pos (L.issued_of_released h)] at hone
  exact Multiset.count_eq_zero.mp (by omega)

theorem held_once (hb : b < L.issued) (h : b ∉ L.released) : L.held.count b = 1 := by
  have hone := L.count_add_count b
  rwa [if_pos hb, Multiset.count_eq_zero_of_notMem h, add_zero] at hone

/-- Once nothing is held, every token has been given back. -/
theorem released_once (h0 : L.held = 0) (hb : b < L.issued) : L.released.count b = 1 := by
  have hone := L.count_add_count b
  rwa [if_pos hb, h0, Multiset.count_zero, zero_add] at hone

end Token

end Ledger

end Lib
