import Mathlib.Data.BitVec

/-!
# Library — the bits of a word

A word as the set of its bits.  `ManyBits x` says that there are two of them or more, and `union xs`
has the bits of all the words `xs`.

* `getLsbD_union`: the bits of a union.
* `and_pred_eq_zero_iff`: a word that is not zero has many bits just when it has some in common with
  its predecessor.
* `eq_twoPow`: a word is the only bit it has.
* `insert_and`, `insert_andNot`: a field of bits is replaced in a word, and the others stay.
-/

namespace WordBits

variable {w : Nat}

/-- More than one bit is set. -/
def ManyBits (x : BitVec w) : Prop :=
  ∃ j < w, ∃ k < w, j ≠ k ∧ x.getLsbD j = true ∧ x.getLsbD k = true

instance (x : BitVec w) : Decidable (ManyBits x) :=
  inferInstanceAs (Decidable (∃ j < w, ∃ k < w, j ≠ k ∧ x.getLsbD j = true ∧ x.getLsbD k = true))

/-- The bits of all the words. -/
def union (xs : List (BitVec w)) : BitVec w := xs.foldr (· ||| ·) 0#w

theorem getLsbD_union (xs : List (BitVec w)) (j : Nat) :
    (union xs).getLsbD j = true ↔ ∃ x ∈ xs, x.getLsbD j = true := by
  induction xs with
  | nil => simp [union]
  | cons x xs ih =>
      have hcons : union (x :: xs) = x ||| union xs := rfl
      rw [hcons, BitVec.getLsbD_or, Bool.or_eq_true, ih]
      simp

/-- A bit that is set is one of the `w`. -/
theorem lt_of_getLsbD {x : BitVec w} {j : Nat} (h : x.getLsbD j = true) : j < w := by
  by_contra hle
  rw [BitVec.getLsbD_of_ge x j (Nat.not_lt.mp hle)] at h
  cases h

theorem exists_bit {x : BitVec w} (h : x ≠ 0#w) : ∃ j, x.getLsbD j = true := by
  by_contra hno
  rw [not_exists] at hno
  refine h (BitVec.eq_of_getLsbD_eq fun j _ => ?_)
  rw [Bool.eq_false_iff.mpr (hno j), BitVec.getLsbD_zero]

/-- A word is the only bit it has. -/
theorem eq_twoPow {x : BitVec w} {j : Nat} (hj : x.getLsbD j = true) (h : ¬ManyBits x) :
    x = BitVec.twoPow w j := by
  refine BitVec.eq_of_getLsbD_eq fun k hk => ?_
  rw [BitVec.getLsbD_twoPow]
  by_cases hjk : j = k
  · subst hjk
    simp [hj, hk]
  · have hkf : x.getLsbD k = false := Bool.eq_false_iff.mpr fun hkt =>
      h ⟨j, lt_of_getLsbD hj, k, hk, hjk, hj, hkt⟩
    simp [hkf, hjk]

theorem not_manyBits_twoPow (j : Nat) : ¬ManyBits (BitVec.twoPow w j) := by
  rintro ⟨k, -, l, -, hkl, hk, hl⟩
  simp only [BitVec.getLsbD_twoPow, Bool.and_eq_true, decide_eq_true_eq] at hk hl
  exact hkl (hk.2.symm.trans hl.2)

/-- **Powers of two.** -/
theorem and_pred_eq_zero_iff {x : BitVec w} (h : x ≠ 0#w) :
    x &&& (x - 1#w) = 0#w ↔ ¬ManyBits x := by
  have hpos : x.toNat ≠ 0 := fun h₀ => h (BitVec.eq_of_toNat_eq h₀)
  have hpred : (x - 1#w).toNat = x.toNat - 1 := by
    have hlt := x.isLt
    rcases Nat.eq_zero_or_pos w with rfl | hw
    · omega
    · have hone : (1#w).toNat = 1 := BitVec.toNat_one hw
      have hle : 1#w ≤ x := by rw [BitVec.le_def, hone]; omega
      rw [BitVec.toNat_sub_of_le hle, hone]
  have hzero : x &&& (x - 1#w) = 0#w ↔ x.toNat.isPowerOfTwo := by
    rw [← Nat.and_sub_one_eq_zero_iff_isPowerOfTwo hpos, ← hpred, ← BitVec.toNat_and]
    exact BitVec.toNat_inj.symm
  rw [hzero]
  constructor
  · rintro ⟨k, hk⟩
    have hx : x = BitVec.twoPow w k := by
      refine BitVec.eq_of_toNat_eq ?_
      rw [BitVec.toNat_twoPow, ← hk, Nat.mod_eq_of_lt x.isLt]
    rw [hx]
    exact not_manyBits_twoPow k
  · intro hfew
    obtain ⟨j, hj⟩ := exists_bit h
    refine ⟨j, ?_⟩
    have hlt : 2 ^ j < 2 ^ w := Nat.pow_lt_pow_right (by decide) (lt_of_getLsbD hj)
    conv_lhs => rw [eq_twoPow hj hfew]
    rw [BitVec.toNat_twoPow, Nat.mod_eq_of_lt hlt]

/-! ### A field of bits -/

section field

variable {mask field : BitVec w}

/-- **The field.** -/
theorem insert_and (hfield : field &&& ~~~mask = 0#w) (x : BitVec w) :
    (field ||| x &&& ~~~mask) &&& mask = field := by
  refine BitVec.eq_of_getLsbD_eq fun j hj => ?_
  have hbit := congrArg (BitVec.getLsbD · j) hfield
  rw [BitVec.getLsbD_and, BitVec.getLsbD_not, BitVec.getLsbD_zero] at hbit
  rw [BitVec.getLsbD_and, BitVec.getLsbD_or, BitVec.getLsbD_and, BitVec.getLsbD_not]
  cases hm : mask.getLsbD j with
  | false =>
      rw [hm, decide_eq_true hj] at hbit
      rw [Bool.and_false, ← hbit, Bool.not_false, Bool.and_true, Bool.and_true]
  | true => rw [Bool.not_true, Bool.and_false, Bool.and_false, Bool.or_false, Bool.and_true]

/-- **The others.** -/
theorem insert_andNot (hfield : field &&& ~~~mask = 0#w) (x : BitVec w) :
    (field ||| x &&& ~~~mask) &&& ~~~mask = x &&& ~~~mask := by
  rw [BitVec.and_comm, BitVec.and_or_distrib_left, BitVec.and_comm (~~~mask) field, hfield,
    BitVec.zero_or, BitVec.and_comm (~~~mask), BitVec.and_assoc, BitVec.and_self]

end field

end WordBits
