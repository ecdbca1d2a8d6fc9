import TelinkB91.Lib.SixWheel
import Mathlib.Data.BitVec

/-!
# Uart — the test for primes

`uart_is_prime` tries 5, 7, 11, 13 and so on, two at a time, while the square of the first one is
below the number.

* `trialLoop_eq`: the loop ends, and it lets through what the wheel lets through.
* `uart_is_prime_iff`: the answer is right just when the number is not the square of a prime that
  leaves 5 modulo 6.
-/

namespace TelinkB91.Uart
open SixWheel

abbrev U8 := BitVec 8

abbrev U16 := BitVec 16

abbrev U32 := BitVec 32

/-- The loop of `uart_is_prime` from `i` on.  `none` is a loop that does not end in `fuel` tests of
its condition. -/
def trialLoop (n : U32) : Nat → U32 → Option Bool
  | 0, _ => none
  | fuel + 1, i =>
      if i * i < n then
        if n % i = 0#32 ∨ n % (i + 2#32) = 0#32 then some false else trialLoop n fuel (i + 6#32)
      else some true

/-- `uart_is_prime`. -/
def uartIsPrime (fuel : Nat) (n : U32) : Option Bool :=
  if n ≤ 3#32 then some true
  else if n % 2#32 = 0#32 ∨ n % 3#32 = 0#32 then some false
  else trialLoop n fuel 5#32

/-- The last `i` whose square fits in 32 bits. -/
def lastTrial : Nat := 65531

/-- How often the loop tests its condition at most: for 5, 11, 17 and so on to the last one. -/
def trials : Nat := 10922

section prime

variable {n : U32}

theorem mod_eq_zero_iff {d : U32} : n % d = 0#32 ↔ d.toNat ∣ n.toNat := by
  rw [← BitVec.toNat_inj, BitVec.toNat_umod, Nat.dvd_iff_mod_eq_zero]
  rfl

/-- **The loop.**  The square of `i` fits in a word until the loop ends. -/
theorem trialLoop_eq (hn : n.toNat ≤ lastTrial * lastTrial) (fuel : Nat) (i : U32)
    (hi : i.toNat % 6 = 5) (hle : i.toNat ≤ lastTrial) (hfuel : lastTrial < i.toNat + 6 * fuel) :
    ∃ r, trialLoop n fuel i = some r ∧ (r = true ↔ Clear n.toNat i.toNat) := by
  rw [lastTrial] at hn hle hfuel
  induction fuel generalizing i with
  | zero => omega
  | succ fuel ih =>
      have hsq : (i * i).toNat = i.toNat * i.toNat := by
        have hfits := Nat.mul_le_mul hle hle
        rw [BitVec.toNat_mul]
        exact Nat.mod_eq_of_lt (by omega)
      have htwo : (i + 2#32).toNat = i.toNat + 2 := by
        rw [BitVec.toNat_add]
        exact Nat.mod_eq_of_lt (by change i.toNat + 2 < _; omega)
      have hsix : (i + 6#32).toNat = i.toNat + 6 := by
        rw [BitVec.toNat_add]
        exact Nat.mod_eq_of_lt (by change i.toNat + 6 < _; omega)
      have hcond : i * i < n ↔ i.toNat * i.toNat < n.toNat := by rw [BitVec.lt_def, hsq]
      have htry : n % i = 0#32 ∨ n % (i + 2#32) = 0#32 ↔
          i.toNat ∣ n.toNat ∨ i.toNat + 2 ∣ n.toNat := by
        rw [mod_eq_zero_iff, mod_eq_zero_iff, htwo]
      rw [trialLoop]
      by_cases hlt : i.toNat * i.toNat < n.toNat
      · rw [if_pos (hcond.mpr hlt)]
        by_cases hdvd : i.toNat ∣ n.toNat ∨ i.toNat + 2 ∣ n.toNat
        · rw [if_pos (htry.mpr hdvd)]
          refine ⟨false, rfl, fun h => (Bool.false_ne_true h).elim, fun hclear => ?_⟩
          exact absurd hdvd (not_or.mpr ((Clear.iff_step hi hlt).mp hclear).1)
        · -- The next `i` is not behind the last one: its predecessor's square is below `n`.
          have hbelow : i.toNat < 65531 := by
            by_contra hge
            have hfar := Nat.mul_le_mul (not_lt.mp hge) (not_lt.mp hge)
            omega
          rw [if_neg (mt htry.mp hdvd)]
          obtain ⟨r, hr, hiff⟩ := ih (i + 6#32) (by omega) (by omega) (by omega)
          refine ⟨r, hr, hiff.trans ?_⟩
          rw [Clear.iff_step hi hlt, hsix]
          exact ⟨fun h => ⟨not_or.mp hdvd, h⟩, fun h => h.2⟩
      · rw [if_neg (mt hcond.mp hlt)]
        exact ⟨true, rfl, fun _ => clear_of_le (not_lt.mp hlt), fun _ => rfl⟩

/-- **The answer of the test.** -/
theorem uartIsPrime_eq (hn : n.toNat ≤ lastTrial * lastTrial) {fuel : Nat} (hfuel : trials ≤ fuel) :
    ∃ r, uartIsPrime fuel n = some r ∧
      (r = true ↔ (n.toNat ≤ 3 ∨ n.toNat.Prime) ∨ SquareOfFive n.toNat) := by
  rw [trials] at hfuel
  have hle : n ≤ 3#32 ↔ n.toNat ≤ 3 := BitVec.le_def
  have htry : n % 2#32 = 0#32 ∨ n % 3#32 = 0#32 ↔ 2 ∣ n.toNat ∨ 3 ∣ n.toNat :=
    or_congr mod_eq_zero_iff mod_eq_zero_iff
  rw [uartIsPrime]
  by_cases hsmall : n.toNat ≤ 3
  · rw [if_pos (hle.mpr hsmall)]
    exact ⟨true, rfl, fun _ => .inl (.inl hsmall), fun _ => rfl⟩
  rw [if_neg (mt hle.mp hsmall)]
  by_cases hdvd : 2 ∣ n.toNat ∨ 3 ∣ n.toNat
  · rw [if_pos (htry.mpr hdvd)]
    refine ⟨false, rfl, fun h => (Bool.false_ne_true h).elim, ?_⟩
    rintro ((h | hprime) | ⟨p, hprime, hfive, hsq⟩)
    · exact absurd h hsmall
    · rcases hdvd with h | h <;> rcases (Nat.dvd_prime hprime).mp h with h | h <;> omega
    · rw [hsq] at hdvd
      rcases hdvd with h | h
      · have hdvd := (Nat.Prime.dvd_mul Nat.prime_two).mp h
        omega
      · have hdvd := (Nat.Prime.dvd_mul Nat.prime_three).mp h
        omega
  · rw [if_neg (mt htry.mp hdvd)]
    obtain ⟨r, hr, hiff⟩ := trialLoop_eq hn fuel 5#32 rfl (by decide)
      (by change lastTrial < 5 + 6 * fuel; rw [lastTrial]; omega)
    refine ⟨r, hr, hiff.trans ((clear_iff (by omega) (by omega) (by omega)).trans ?_)⟩
    exact or_congr_left ⟨.inr, fun h => h.resolve_left hsmall⟩

/-- **When the test is right.**  The loop ends, and its answer is that of a test for primes just
when the number is not the square of a prime that leaves 5 modulo 6. -/
theorem uart_is_prime_iff (n : U32) (hn : n.toNat ≤ 65531 * 65531) {fuel : Nat}
    (hfuel : trials ≤ fuel) :
    ∃ r, uartIsPrime fuel n = some r ∧
      ((r = true ↔ n.toNat ≤ 3 ∨ n.toNat.Prime) ↔
        ¬ ∃ p, p.Prime ∧ p % 6 = 5 ∧ n.toNat = p * p) := by
  obtain ⟨r, hr, hiff⟩ := uartIsPrime_eq hn hfuel
  refine ⟨r, hr, ?_⟩
  rw [hiff, or_iff_left_iff_imp]
  refine ⟨fun h hsq => ?_, fun h hsq => absurd hsq h⟩
  rcases h hsq with hsmall | hprime
  · obtain ⟨p, -, hfive, heq⟩ := hsq
    have hfar := Nat.mul_le_mul (show 5 ≤ p by omega) (show 5 ≤ p by omega)
    omega
  · exact SquareOfFive.not_prime hsq hprime

end prime

theorem uart_is_prime_49 :
    ∃ r, uartIsPrime trials 49#32 = some r ∧
      ((r = true ↔ (49#32).toNat ≤ 3 ∨ (49#32).toNat.Prime) ↔
        ¬ ∃ p, p.Prime ∧ p % 6 = 5 ∧ (49#32).toNat = p * p) :=
  uart_is_prime_iff 49#32 (by decide) le_rfl

/-- The loop ends with 25, which is no prime, before it tries 5. -/
theorem not_uart_is_prime_25 :
    ¬ ∀ n : U32, n.toNat ≤ 65531 * 65531 →
      ∃ fuel r, uartIsPrime fuel n = some r ∧ (r = true ↔ n.toNat ≤ 3 ∨ n.toNat.Prime) := by
  intro h
  obtain ⟨fuel, r, hr, hiff⟩ := h 25#32 (by decide)
  cases fuel with
  | zero =>
      have hnone : uartIsPrime 0 25#32 = none := rfl
      exact absurd (hnone.symm.trans hr) (Option.some_ne_none r).symm
  | succ fuel =>
      obtain rfl : true = r := Option.some.inj hr
      have hno : ¬ ((25#32).toNat ≤ 3 ∨ (25#32).toNat.Prime) := by decide
      exact hno (hiff.mp rfl)

end TelinkB91.Uart
