import Mathlib.Algebra.Order.Group.Unbundled.Int
import TelinkB91.Audio.Agreement

/-!
# Audio — how far off the prediction is

The quantizing loop is a successive approximation: it takes the step, half of it and a quarter of
it away from the difference, each where it still fits, and `diffq` collects what was taken, on top
of an eighth of the step.  The halves are truncated, and most steps are odd.

* `Quant.round_diff`: one round moves a weight from `diff` to `diffq`, or leaves both.
* `rounds_left`: what is left of a difference of less than two steps.
* `quantizer_bound`: so the new prediction is off by an eighth of the step and two at most, and
  the clamping only brings it nearer.
-/

namespace TelinkB91.Audio

/-! ### One round -/

theorem Quant.round_step (q : Quant) (j : U16) : (q.round j).step = q.step / 2 := by
  obtain ⟨-, -, -, hstep⟩ := q.round_bits j
  rw [hstep, Int.shiftRight_eq_div_pow]
  rfl

/-- **One round.**  The step is moved from `diff` to `diffq`, where it fits. -/
theorem Quant.round_diff (q : Quant) (j : U16) :
    (q.step ≤ q.diff ∧ (q.round j).diff = q.diff - q.step ∧
        (q.round j).diffq = q.diffq + q.step) ∨
      (q.diff < q.step ∧ (q.round j).diff = q.diff ∧ (q.round j).diffq = q.diffq) := by
  by_cases h : q.diff ≥ q.step
  · refine .inl ⟨h, ?_, ?_⟩
    · rw [Quant.round, if_pos h]
    · rw [Quant.round, if_pos h]
  · refine .inr ⟨Int.not_le.mp h, ?_, ?_⟩
    · rw [Quant.round, if_neg h]
    · rw [Quant.round, if_neg h]

/-! ### The loop -/

/-- The three rounds. -/
def Quant.rounds (q : Quant) : Quant := ((q.round 4#16).round 2#16).round 1#16

/-- What is taken from `diff` goes to `diffq`. -/
theorem rounds_sum (q : Quant) : q.rounds.diff + q.rounds.diffq = q.diff + q.diffq := by
  have hsum : ∀ (p : Quant) (j : U16),
      (p.round j).diff + (p.round j).diffq = p.diff + p.diffq := fun p j => by
    rcases p.round_diff j with ⟨-, hdiff, hdiffq⟩ | ⟨-, hdiff, hdiffq⟩
    · rw [hdiff, hdiffq]
      omega
    · rw [hdiff, hdiffq]
  rw [Quant.rounds, hsum, hsum, hsum]

/-- **What is left.**  Never less than nothing, and of a difference of less than two steps at most
a quarter of the step and two. -/
theorem rounds_left {q : Quant} (hdiff : 0 ≤ q.diff) :
    0 ≤ q.rounds.diff ∧
      (0 ≤ q.step → q.diff < 2 * q.step → q.rounds.diff ≤ 2 * (q.step / 8) + 2) := by
  have hstep₁ := q.round_step 4#16
  have hstep₂ := (q.round 4#16).round_step 2#16
  have h₁ := q.round_diff 4#16
  have h₂ := (q.round 4#16).round_diff 2#16
  have h₃ := ((q.round 4#16).round 2#16).round_diff 1#16
  rw [Quant.rounds]
  omega

/-! ### One sample -/

/-- What the loop starts from. -/
def Quant.start (s : State) (di : S16) : Quant :=
  if di.toInt ≥ s.predict then ⟨di.toInt - s.predict, s.step, s.step >>> (3 : Nat), 0#16⟩
  else ⟨s.predict - di.toInt, s.step, s.step >>> (3 : Nat), 8#16⟩

theorem quantize_eq (s : State) (di : S16) : quantize s di = (Quant.start s di).rounds := by
  rw [quantize, Quant.start, Quant.rounds]
  by_cases h : di.toInt ≥ s.predict
  · have hpos : di.toInt - s.predict ≥ 0 := Int.sub_nonneg.mpr h
    rw [if_pos hpos, if_pos h]
    rfl
  · have hneg : ¬di.toInt - s.predict ≥ 0 := fun hpos => h (Int.sub_nonneg.mp hpos)
    rw [if_neg hneg, if_neg h, Int.neg_sub]
    rfl

/-- The rounds leave the sign in bit 3 of the code. -/
theorem rounds_code (q : Quant) : ∃ b₂ b₁ b₀ : Bool,
    q.rounds.code = q.code + bit b₂ 4#16 + bit b₁ 2#16 + bit b₀ 1#16 := by
  obtain ⟨b₂, hc₂, -, -⟩ := q.round_bits 4#16
  obtain ⟨b₁, hc₁, -, -⟩ := (q.round 4#16).round_bits 2#16
  obtain ⟨b₀, hc₀, -, -⟩ := ((q.round 4#16).round 2#16).round_bits 1#16
  refine ⟨b₂, b₁, b₀, ?_⟩
  rw [Quant.rounds, hc₀, hc₁, hc₂]

/-- **The code** has four bits, and its highest says that the sample is below the prediction. -/
theorem quantize_code (s : State) (di : S16) :
    (quantize s di).code.toNat ≤ 15 ∧
      ((quantize s di).code ≥ 8#16 ↔ di.toInt < s.predict) := by
  rw [quantize_eq]
  obtain ⟨b₂, b₁, b₀, hcode⟩ := rounds_code (Quant.start s di)
  rw [hcode, Quant.start]
  by_cases h : di.toInt ≥ s.predict
  · rw [if_pos h, iff_false_right (Int.not_lt.mpr h)]
    dsimp only
    cases b₂ <;> cases b₁ <;> cases b₀ <;> decide
  · rw [if_neg h, iff_true_right (Int.not_le.mp h)]
    dsimp only
    cases b₂ <;> cases b₁ <;> cases b₀ <;> decide

/-- The prediction before it is clamped. -/
theorem unclamped (s : State) (di : S16) : (encodeSample s di).2.predict =
    clampPredict (if di.toInt < s.predict then s.predict - (quantize s di).diffq
      else s.predict + (quantize s di).diffq) := by
  have hsign := (quantize_code s di).2
  rw [encodeSample, State.adapt]
  dsimp only
  by_cases h : di.toInt < s.predict
  · rw [if_pos h, if_pos (hsign.mpr h)]
  · rw [if_neg h, if_neg fun hcode => h (hsign.mp hcode)]

/-- A sample has 16 bits, so the clamping does not move a prediction away from it. -/
theorem clampPredict_nearer {x : S16} (p : Int) :
    |x.toInt - clampPredict p| ≤ |x.toInt - p| := by
  have hlow : -32768 ≤ x.toInt := x.le_toInt
  have hhigh : x.toInt < 32768 := x.toInt_lt
  rw [clampPredict]
  grind

/-- The prediction before the clamping is off by what the rounds left, less the eighth of the step
that `diffq` starts from. -/
theorem off_by (s : State) (di : S16) :
    |di.toInt - (if di.toInt < s.predict then s.predict - (quantize s di).diffq
      else s.predict + (quantize s di).diffq)| = |(quantize s di).diff - s.step / 8| := by
  have hsum := rounds_sum (Quant.start s di)
  rw [← quantize_eq, Quant.start, Int.shiftRight_eq_div_pow] at hsum
  by_cases h : di.toInt < s.predict
  · rw [if_neg (Int.not_le.mpr h)] at hsum
    have hoff : di.toInt - (s.predict - (quantize s di).diffq) =
        -((quantize s di).diff - s.step / 8) := by
      dsimp only at hsum
      omega
    rw [if_pos h, hoff, abs_neg]
  · rw [if_pos (Int.not_lt.mp h)] at hsum
    have hoff : di.toInt - (s.predict + (quantize s di).diffq) =
        (quantize s di).diff - s.step / 8 := by
      dsimp only at hsum
      omega
    rw [if_neg h, hoff]

/-- No step is negative. -/
theorem step_nonneg (s : State) : 0 ≤ s.step := by
  have hall : ∀ n ∈ steptbl, 0 ≤ n := by decide
  rw [State.step]
  cases h : steptbl[s.predictIdx.toNat]? with
  | none => exact Int.le_refl 0
  | some n => exact hall n (List.mem_of_getElem? h)

/-- **The quantizer.**  From any state, a sample gets a code of four bits and leaves the state in
its range; where it is less than two steps away, the prediction comes to within an eighth of the
step and two. -/
theorem quantizer_bound (s : State) (di : S16) :
    (encodeSample s di).1.toNat ≤ 15 ∧ (encodeSample s di).2.InRange ∧
      (|di.toInt - s.predict| < 2 * s.step →
        |di.toInt - (encodeSample s di).2.predict| ≤ s.step >>> (3 : Nat) + 2) := by
  refine ⟨(quantize_code s di).1, State.adapt_inRange .., fun hnear => ?_⟩
  have hstart : (Quant.start s di).diff = |di.toInt - s.predict| ∧
      (Quant.start s di).step = s.step := by
    rw [Quant.start]
    split
    · rename_i h
      exact ⟨(abs_of_nonneg (Int.sub_nonneg.mpr h)).symm, rfl⟩
    · rename_i h
      refine ⟨?_, rfl⟩
      rw [abs_of_neg (Int.sub_neg_of_lt (Int.not_le.mp h)), Int.neg_sub]
  have hleft := rounds_left (q := Quant.start s di) (hstart.1 ▸ abs_nonneg _)
  rw [hstart.1, hstart.2, ← quantize_eq] at hleft
  have hmost := hleft.2 (step_nonneg s) hnear
  calc |di.toInt - (encodeSample s di).2.predict|
      ≤ |(quantize s di).diff - s.step / 8| := by
        rw [unclamped, ← off_by]
        exact clampPredict_nearer _
    _ ≤ s.step / 8 + 2 := abs_le.mpr ⟨by omega, by omega⟩
    _ = s.step >>> (3 : Nat) + 2 := by
        rw [Int.shiftRight_eq_div_pow]
        rfl

end TelinkB91.Audio
