import Mathlib.Data.Nat.Prime.Basic
import Mathlib.Tactic.IntervalCases

/-!
# Library — trial division by `6k - 1` and `6k + 1`

The candidates are `d` and `d + 2` for the `d` that leave 5 modulo 6.  `Clear n i` says that no
candidate pair from `i` on with `d * d < n` divides `n`.

* `Clear.iff_step`: a pair that is tried, and the pairs behind it.
* `clear_of_le`: there is nothing left to try.
* `clear_iff`: with `d * d < n`, what remains of the numbers without the factors 2 and 3 are the
  primes, and the squares of those primes that leave 5 modulo 6.
-/

namespace SixWheel

/-- No pair of candidates from `i` on whose first one has a square below `n` divides `n`. -/
def Clear (n i : Nat) : Prop :=
  ∀ d, i ≤ d → d % 6 = 5 → d * d < n → ¬ d ∣ n ∧ ¬ (d + 2) ∣ n

/-- `n` is the square of a prime that leaves 5 modulo 6. -/
def SquareOfFive (n : Nat) : Prop := ∃ p, p.Prime ∧ p % 6 = 5 ∧ n = p * p

variable {n i : Nat}

/-- **One pair.** -/
theorem Clear.iff_step (hi : i % 6 = 5) (hlt : i * i < n) :
    Clear n i ↔ (¬ i ∣ n ∧ ¬ (i + 2) ∣ n) ∧ Clear n (i + 6) := by
  refine ⟨fun h => ⟨h i le_rfl hi hlt, fun d hd => h d (by omega)⟩, fun ⟨hone, hrest⟩ d hd h5 => ?_⟩
  rcases Nat.eq_or_lt_of_le hd with rfl | hid
  · exact fun _ => hone
  · exact hrest d (by omega) h5

/-- **The end of the candidates.** -/
theorem clear_of_le (hle : n ≤ i * i) : Clear n i := by
  intro d hd _ hlt
  have hsq := Nat.mul_le_mul hd hd
  omega

/-- A divisor of a number without the factors 2 and 3 leaves 1 or 5 modulo 6. -/
theorem mod_six_of_dvd {p : Nat} (h2 : n % 2 ≠ 0) (h3 : n % 3 ≠ 0) (hp : p ∣ n) :
    p % 6 = 1 ∨ p % 6 = 5 := by
  have hp2 : p % 2 ≠ 0 := fun h =>
    h2 (Nat.mod_eq_zero_of_dvd ((Nat.dvd_of_mod_eq_zero h).trans hp))
  have hp3 : p % 3 ≠ 0 := fun h =>
    h3 (Nat.mod_eq_zero_of_dvd ((Nat.dvd_of_mod_eq_zero h).trans hp))
  omega

/-- A candidate pair is far from the number: its second member is below the first one's square. -/
theorem add_two_lt_sq {d : Nat} (h5 : d % 6 = 5) : d + 2 < d * d := by
  have hd : 5 ≤ d := by omega
  have hsq := Nat.mul_le_mul_right d hd
  omega

theorem clear_of_prime (hn : n.Prime) : Clear n 5 := by
  intro d _ h5 hlt
  have hd := add_two_lt_sq h5
  constructor <;> intro hdvd <;> rcases (Nat.dvd_prime hn).mp hdvd with h | h <;> omega

theorem clear_of_square {p : Nat} (hp : p.Prime) (hp5 : p % 6 = 5) : Clear (p * p) 5 := by
  intro d _ h5 hlt
  have hd := add_two_lt_sq h5
  have hdivisor : ∀ e, e ∣ p * p → e = 1 ∨ e = p ∨ e = p * p := by
    intro e he
    rw [← pow_two] at he ⊢
    obtain ⟨k, hk, rfl⟩ := (Nat.dvd_prime_pow hp).mp he
    interval_cases k
    · exact .inl (pow_zero p)
    · exact .inr (.inl (pow_one p))
    · exact .inr (.inr rfl)
  constructor <;> intro hdvd <;> rcases hdivisor _ hdvd with h | h | h
  · omega
  · rw [h] at hlt
    exact hlt.false
  · omega
  · omega
  · omega
  · omega

/-- The smallest factor of a number that passed is the root of the number. -/
theorem square_of_clear (hn : 1 < n) (h2 : n % 2 ≠ 0) (h3 : n % 3 ≠ 0) (hclear : Clear n 5)
    (hnp : ¬ n.Prime) : SquareOfFive n := by
  have hprime : n.minFac.Prime := Nat.minFac_prime (by omega)
  have hdvd : n.minFac ∣ n := Nat.minFac_dvd n
  have hsq : n.minFac * n.minFac ≤ n := by
    rw [← pow_two]
    exact Nat.minFac_sq_le_self (by omega) hnp
  have htwo := hprime.two_le
  rcases mod_six_of_dvd h2 h3 hdvd with h1 | h5
  · -- It is the second member of a pair, which was tried.
    have hback : n.minFac - 2 + 2 = n.minFac := by omega
    have hlt : (n.minFac - 2) * (n.minFac - 2) < n :=
      (Nat.mul_self_lt_mul_self (by omega)).trans_le hsq
    exact absurd (hback.symm ▸ hdvd) (hclear _ (by omega) (by omega) hlt).2
  · rcases Nat.eq_or_lt_of_le hsq with heq | hlt
    · exact ⟨n.minFac, hprime, h5, heq.symm⟩
    · exact absurd hdvd (hclear _ (by omega) h5 hlt).1

/-- **What the wheel lets through.** -/
theorem clear_iff (hn : 1 < n) (h2 : n % 2 ≠ 0) (h3 : n % 3 ≠ 0) :
    Clear n 5 ↔ n.Prime ∨ SquareOfFive n := by
  constructor
  · intro hclear
    by_cases hp : n.Prime
    · exact .inl hp
    · exact .inr (square_of_clear hn h2 h3 hclear hp)
  · rintro (hp | ⟨p, hp, hp5, rfl⟩)
    · exact clear_of_prime hp
    · exact clear_of_square hp hp5

/-- The square of a prime is not a prime. -/
theorem SquareOfFive.not_prime (h : SquareOfFive n) : ¬ n.Prime := by
  obtain ⟨p, hp, -, rfl⟩ := h
  exact Nat.not_prime_mul hp.ne_one hp.ne_one

end SixWheel
