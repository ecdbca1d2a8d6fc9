import Mathlib.Data.BitVec
import Mathlib.Tactic.Common

/-!
# Library — times on a wrapping clock

A clock of `w` bits wraps, so two readings have no order by themselves.  Readings that lie within
one window, less than half a turn long, are ordered by how far they lie after the window's start
(`offset`), and the comparison C code makes, `t₁ - t₂ < len` on unsigned values, agrees with that
order.

* `sub_lt_iff`: inside a window of length `len`, `t₁ - t₂ < len` says that `t₁` is not before `t₂`.
-/

namespace Circular

variable {w : Nat}

/-- How far `t` lies after `b`. -/
def offset (b t : BitVec w) : Nat := (t - b).toNat

/-- `t` lies in the window of length `len` that starts at `b`. -/
def Within (b : BitVec w) (len : Nat) (t : BitVec w) : Prop := offset b t < len

instance (b : BitVec w) (len : Nat) (t : BitVec w) : Decidable (Within b len t) :=
  inferInstanceAs (Decidable (_ < _))

/-- **Comparing inside a window.**  When twice the length still fits the clock, the unsigned
test `t₁ - t₂ < len` compares the distances from the start of the window. -/
theorem sub_lt_iff {b t₁ t₂ : BitVec w} {len : Nat} (hlen : 2 * len ≤ 2 ^ w)
    (h₁ : Within b len t₁) (h₂ : Within b len t₂) :
    (t₁ - t₂).toNat < len ↔ offset b t₂ ≤ offset b t₁ := by
  have hsub : t₁ - t₂ = (t₁ - b) - (t₂ - b) := (sub_sub_sub_cancel_right t₁ t₂ b).symm
  simp only [Within, offset] at h₁ h₂ ⊢
  rcases Nat.lt_or_ge (t₁ - b).toNat (t₂ - b).toNat with hlt | hge
  · have hval : (t₁ - t₂).toNat = 2 ^ w - (t₂ - b).toNat + (t₁ - b).toNat := by
      rw [hsub, BitVec.toNat_sub, Nat.mod_eq_of_lt]
      omega
    rw [hval]
    omega
  · have hval : (t₁ - t₂).toNat = (t₁ - b).toNat - (t₂ - b).toNat := by
      rw [hsub, BitVec.toNat_sub_of_le (BitVec.le_def.mpr hge)]
    rw [hval]
    omega

end Circular
