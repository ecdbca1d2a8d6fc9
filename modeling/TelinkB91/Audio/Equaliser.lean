import TelinkB91.Audio.Adpcm
import TelinkB91.Lib.Biquad
import TelinkB91.Lib.Runs

/-!
# Audio — the equaliser

`voice_iir` is a second-order filter on the samples of the microphone.  It adds up five products in
`s`, a `long int` of 32 bits, divides by 2^14, and feeds the result back before it is clamped.  The
last two samples and the last two results are kept in the array of the coefficients, from one call
to the next.

The sum of the products can be too large for 32 bits when the results are taken to be anything of
18 bits.  What keeps them small is that the past enters only through two numbers, and that these
stay in a set with few edges, one for each of the three built-in filters.

* `s_exact`: as long as every value fits in 32 bits, `s` is the sum of the products.
* `Builtin.kept`: the set of each filter.
* `equaliser_fits`: from the built-in coefficients on, all values fit, in any number of calls with
  any samples.
-/

namespace TelinkB91.Audio.Equaliser
open Biquad Runs

/-! ### The code -/

/-- The array of a filter: the coefficients, and the last two samples and results. -/
structure Coef where
  coef0 : Int
  coef1 : Int
  coef2 : Int
  coef3 : Int
  coef4 : Int
  coef5 : Int
  coef6 : Int
  coef7 : Int
  coef8 : Int
  deriving DecidableEq, Repr

/-- The built-in filters. -/
inductive Builtin where
  | filter1
  | filter2
  | filter3
  deriving DecidableEq, Repr

def Builtin.coef : Builtin → Coef
  | .filter1 => ⟨995 * 4, 1990 * 4, 995 * 4, 849 * 4, 734 * 4, 0, 0, 0, 0⟩
  | .filter2 => ⟨3691 * 4, -5564 * 4, 2915 * 4, 5564 * 4, -2510 * 4, 0, 0, 0, 0⟩
  | .filter3 => ⟨2534 * 4, -1482 * 4, 955 * 4, 3956 * 4, -1866 * 4, 0, 0, 0, 0⟩

/-- A value of `int` or `long int`. -/
def Fits (v : Int) : Prop := -2147483648 ≤ v ∧ v ≤ 2147483647

instance (v : Int) : Decidable (Fits v) := inferInstanceAs (Decidable (_ ∧ _))

/-- What 32 bits hold of a value. -/
def s32 (v : Int) : Int := v.bmod 4294967296

/-- `s += p`. -/
def accumulate (s p : Int) : Int := s32 (s + s32 p)

/-- The five products, in their order. -/
def Coef.products (f : Coef) (ps : S16) : List Int :=
  [ps.toInt * f.coef0, f.coef5 * f.coef1, f.coef6 * f.coef2, f.coef7 * f.coef3,
    f.coef8 * f.coef4]

/-- `s`, before it is divided. -/
def Coef.s (f : Coef) (ps : S16) : Int := (f.products ps).foldl accumulate 0

/-- `s = ((s + (1 << 13)) >> 14)`. -/
def Coef.result (f : Coef) (ps : S16) : Int := s32 (f.s ps + 8192) >>> (14 : Nat)

/-- What one sample does to the array. -/
def Coef.next (f : Coef) (ps : S16) : Coef := { f with
  coef6 := f.coef5
  coef5 := ps.toInt
  coef8 := f.coef7
  coef7 := f.result ps }

/-- What is written for a sample. -/
def limited (s : Int) (shift : U8) : S16 :=
  BitVec.ofInt 16 ((if s > 32767 then 32767 else if s < -32767 then -32767 else s) >>> shift.toNat)

/-- `voice_iir`, over the samples: the array, and what is written through `pd`. -/
def voiceIir (f : Coef) (shift : U8) : List S16 → Coef × List S16
  | [] => (f, [])
  | ps :: pss =>
      let (f', pd) := voiceIir (f.next ps) shift pss
      (f', limited (f.result ps) shift :: pd)

/-- The values of the additions and of their operands, before 32 bits are kept of them. -/
def exacts (s : Int) : List Int → List Int
  | [] => []
  | p :: ps => p :: (s + s32 p) :: exacts (accumulate s p) ps

/-- All values that one sample computes on the way to its result. -/
def Coef.values (f : Coef) (ps : S16) : List Int := exacts 0 (f.products ps) ++ [f.s ps + 8192]

/-- A call of `voice_iir`. -/
structure Call where
  ps : List S16
  shift : U8

def Coef.call (f : Coef) (c : Call) : Coef := (voiceIir f c.shift c.ps).1

/-- What one sample computes fits in 32 bits, and what it stores in 18. -/
def Sound (f : Coef) (ps : S16) : Prop :=
  (∀ v ∈ f.values ps, Fits v) ∧
    (-131072 ≤ (f.next ps).coef7 ∧ (f.next ps).coef7 < 131072) ∧
    (-131072 ≤ (f.next ps).coef8 ∧ (f.next ps).coef8 < 131072)

/-- So does every sample of a call. -/
def CallSound (f : Coef) (c : Call) : Prop := Along Coef.next Sound f c.ps

theorem call_eq (f : Coef) (c : Call) : f.call c = runFrom Coef.next f c.ps := by
  obtain ⟨ps, shift⟩ := c
  rw [Coef.call]
  dsimp only
  induction ps generalizing f with
  | nil => rfl
  | cons x xs ih => rw [runFrom_cons, ← ih, voiceIir]

/-! ### Without overflow -/

theorem s32_eq {v : Int} (h : Fits v) : s32 v = v :=
  Int.bmod_eq_of_le (by have := h.1; omega) (by have := h.2; omega)

/-- **As long as all values fit, `s` is the sum.** -/
theorem s_exact {s : Int} {ps : List Int} (h : ∀ v ∈ exacts s ps, Fits v) :
    ps.foldl accumulate s = s + ps.sum := by
  induction ps generalizing s with
  | nil => exact (Int.add_zero s).symm
  | cons p ps ih =>
      rw [exacts, List.forall_mem_cons, List.forall_mem_cons] at h
      obtain ⟨hp, hs, hps⟩ := h
      have hadd : accumulate s p = s + p := by
        rw [accumulate, s32_eq hs, s32_eq hp]
      rw [List.foldl_cons, ih hps, hadd, List.sum_cons, Int.add_assoc]

/-- The sums of `s` and the first of the numbers. -/
def sums (s : Int) : List Int → List Int
  | [] => []
  | p :: ps => (s + p) :: sums (s + p) ps

/-- They fit when the products and their sums do. -/
theorem exacts_fit {s : Int} {ps : List Int} (hps : ∀ p ∈ ps, Fits p)
    (hsums : ∀ v ∈ sums s ps, Fits v) : ∀ v ∈ exacts s ps, Fits v := by
  induction ps generalizing s with
  | nil => exact fun v hv => absurd hv List.not_mem_nil
  | cons p ps ih =>
      obtain ⟨hp, hps⟩ := List.forall_mem_cons.mp hps
      obtain ⟨hs, hsums⟩ := List.forall_mem_cons.mp hsums
      have hadd : accumulate s p = s + p := by
        rw [accumulate, s32_eq hp, s32_eq hs]
      rw [exacts, hadd, s32_eq hp]
      exact List.forall_mem_cons.mpr ⟨hp, List.forall_mem_cons.mpr ⟨hs, ih hps hsums⟩⟩

/-! ### The sets -/

/-- `v` is between `-n` and `n`. -/
def Within (n v : Int) : Prop := -n ≤ v ∧ v ≤ n

/-- A value of a sample. -/
def IsSample (x : Int) : Prop := -32768 ≤ x ∧ x ≤ 32767

theorem isSample_toInt (ps : S16) : IsSample ps.toInt :=
  ⟨ps.le_toInt, Int.lt_add_one_iff.mp ps.toInt_lt⟩

/-- The coefficients of an array. -/
def Coef.filter (f : Coef) : Filter where
  b₀ := f.coef0
  b₁ := f.coef1
  b₂ := f.coef2
  a₁ := f.coef3
  a₂ := f.coef4
  unit := 16384
  half := 8192
  unit_pos := by decide

/-- What an array keeps from the past. -/
def Coef.taps (f : Coef) : Taps := ⟨f.coef5, f.coef6, f.coef7, f.coef8⟩

theorem sum_products (f : Coef) (ps : S16) :
    (f.products ps).sum = f.filter.sum f.taps ps.toInt := by
  simp only [Coef.products, List.sum_cons, List.sum_nil, Filter.sum, Filter.early, Coef.filter,
    Coef.taps]
  ring

/-- What the two numbers of the past stay in.  The edges turn with the filter: a step takes each of
them into the others. -/
def Builtin.Region : Builtin → Int → Int → Prop
  | .filter1, u, v => Within 728000000 u ∧ Within 286000000 v
  | .filter2, u, v => Within 421000000 u ∧ Within 345000000 v ∧
      Within 625000000 (2 * u + 3 * v) ∧ Within 1402000000 (6 * u + 5 * v)
  | .filter3, u, v => Within 491000000 u ∧ Within 250000000 v ∧
      Within 647000000 (2 * u + 3 * v)

theorem region_zero (k : Builtin) : k.Region 0 0 := by
  cases k <;> simp [Builtin.Region, Within]

/-- **The set of each filter** is kept by every step, for all samples.  An edge is kept by the sum
of some of the others. -/
theorem Builtin.kept (k : Builtin) : Kept k.coef.filter IsSample k.Region := by
  refine ⟨region_zero k, fun u v x y hregion hx hround => ?_⟩
  cases k with
  | filter1 =>
      simp only [Builtin.Region, Within, IsSample, Filter.Rounds, Coef.filter, Builtin.coef] at *
      omega
  | filter2 =>
      simp only [Builtin.Region, Within, IsSample, Filter.Rounds, Coef.filter, Builtin.coef] at *
      omega
  | filter3 =>
      simp only [Builtin.Region, Within, IsSample, Filter.Rounds, Coef.filter, Builtin.coef] at *
      omega

/-! ### A run -/

/-- What the calls keep, from the built-in array `k` on. -/
structure Keeps (k : Builtin) (f : Coef) : Prop where
  filter : f.filter = k.coef.filter
  coef5 : IsSample f.coef5
  coef6 : IsSample f.coef6
  coef7 : Within 60000 f.coef7
  coef8 : Within 60000 f.coef8
  region : k.Region (f.filter.early f.taps) (f.filter.late f.taps)

theorem keeps_coef (k : Builtin) : Keeps k k.coef := by
  have hzero : ∀ k : Builtin, k.coef.taps = .zero := fun k => by cases k <;> rfl
  refine ⟨rfl, ?_, ?_, ?_, ?_, ?_⟩
  · cases k <;> exact ⟨by decide, by decide⟩
  · cases k <;> exact ⟨by decide, by decide⟩
  · cases k <;> exact ⟨by decide, by decide⟩
  · cases k <;> exact ⟨by decide, by decide⟩
  · rw [hzero, early_zero, late_zero]
    exact region_zero k

/-- The sum of the products is well below 60000 times the unit. -/
theorem sum_within {k : Builtin} {f : Coef} (h : Keeps k f) (ps : S16) :
    Within 982000000 (f.filter.sum f.taps ps.toInt) := by
  obtain ⟨hlow, hhigh⟩ := isSample_toInt ps
  have hregion := h.region
  rw [Filter.sum]
  generalize f.filter.early f.taps = u at hregion ⊢
  rw [h.filter]
  cases k with
  | filter1 =>
      simp only [Builtin.Region, Within, Coef.filter, Builtin.coef] at *
      omega
  | filter2 =>
      simp only [Builtin.Region, Within, Coef.filter, Builtin.coef] at *
      omega
  | filter3 =>
      simp only [Builtin.Region, Within, Coef.filter, Builtin.coef] at *
      omega

/-- The products and their sums fit: the first three sums for the samples, the last for the set,
and the fourth because it is the last without its product. -/
theorem products_fit {k : Builtin} {f : Coef} (h : Keeps k f) (ps : S16) :
    (∀ p ∈ f.products ps, Fits p) ∧ ∀ v ∈ sums 0 (f.products ps), Fits v := by
  obtain ⟨hlow, hhigh⟩ := isSample_toInt ps
  have hsum := sum_within h ps
  rw [← sum_products] at hsum
  obtain ⟨hfilter, hx₁, hx₂, hy₁, hy₂, -⟩ := h
  have h₀ := congrArg Filter.b₀ hfilter
  have h₁ := congrArg Filter.b₁ hfilter
  have h₂ := congrArg Filter.b₂ hfilter
  have h₃ := congrArg Filter.a₁ hfilter
  have h₄ := congrArg Filter.a₂ hfilter
  simp only [Coef.filter] at h₀ h₁ h₂ h₃ h₄
  simp only [Coef.products, sums, h₀, h₁, h₂, h₃, h₄, List.forall_mem_cons, List.sum_cons,
    List.sum_nil, List.not_mem_nil, false_imp_iff, forall_const, and_true] at *
  clear hfilter h₀ h₁ h₂ h₃ h₄
  cases k with
  | filter1 =>
      simp only [Builtin.coef, Within, IsSample, Fits] at *
      omega
  | filter2 =>
      simp only [Builtin.coef, Within, IsSample, Fits] at *
      omega
  | filter3 =>
      simp only [Builtin.coef, Within, IsSample, Fits] at *
      omega

/-- A step computes the result of the filter, and all its values fit. -/
theorem result_eq {k : Builtin} {f : Coef} (h : Keeps k f) (ps : S16) :
    (∀ v ∈ f.values ps, Fits v) ∧ f.result ps = f.filter.output f.taps ps.toInt := by
  obtain ⟨hps, hsums⟩ := products_fit h ps
  have hexacts := exacts_fit hps hsums
  have hs : f.s ps = f.filter.sum f.taps ps.toInt := by
    rw [Coef.s, s_exact hexacts, Int.zero_add, sum_products]
  have hwithin := sum_within h ps
  have hround : Fits (f.s ps + 8192) := by
    rw [hs]
    simp only [Within, Fits] at *
    omega
  refine ⟨fun v hv => ?_, ?_⟩
  · rw [Coef.values, List.mem_append, List.mem_singleton] at hv
    rcases hv with hv | rfl
    · exact hexacts v hv
    · exact hround
  · rw [Coef.result, s32_eq hround, hs, Int.shiftRight_eq_div_pow]
    rfl

/-- **One sample.** -/
theorem keeps_next {k : Builtin} {f : Coef} (h : Keeps k f) (ps : S16) :
    Sound f ps ∧ Keeps k (f.next ps) := by
  obtain ⟨hvalues, hresult⟩ := result_eq h ps
  have htaps : (f.next ps).taps = f.filter.next f.taps ps.toInt := by
    rw [Filter.next, ← hresult]
    rfl
  have hwithin : Within 60000 (f.result ps) := by
    have hsum := sum_within h ps
    obtain ⟨hlow, hhigh⟩ := rounds_output f.filter f.taps ps.toInt
    rw [← hresult] at hlow hhigh
    simp only [Within, Filter.sum, Coef.filter] at *
    omega
  have hkept : Keeps k (f.next ps) := by
    refine ⟨h.filter, isSample_toInt ps, h.coef5, hwithin, h.coef7, ?_⟩
    have hfilter : (f.next ps).filter = f.filter := rfl
    have hregion := h.region
    rw [htaps, hfilter]
    rw [h.filter] at hregion ⊢
    exact k.kept.next hregion (isSample_toInt ps)
  have h₇ := hkept.coef7
  have h₈ := hkept.coef8
  refine ⟨⟨hvalues, ?_, ?_⟩, hkept⟩
  · simp only [Within] at h₇
    omega
  · simp only [Within] at h₈
    omega

/-- **The equaliser does not overflow.**  From a built-in array on, in every call of any sequence
of calls, every value fits in 32 bits and every result that is fed back in 18. -/
theorem equaliser_fits (k : Builtin) (calls : List Call) :
    Along Coef.call CallSound k.coef calls := by
  have hcall : ∀ (f : Coef) (c : Call), Keeps k f → Keeps k (f.call c) := fun f c hf => by
    rw [call_eq]
    exact Runs.invariant (I := Keeps k) (fun _ ps hf => (keeps_next hf ps).2) hf c.ps
  have hsound : ∀ (f : Coef) (c : Call), Keeps k f → CallSound f c := fun f c hf =>
    Along.derive (P := fun _ _ => True) (I := Keeps k) (fun _ ps hf _ => (keeps_next hf ps).2)
      (fun _ ps hf _ => (keeps_next hf ps).1) hf (.intro c.ps)
  exact Along.derive (P := fun _ _ => True) (fun f c hf _ => hcall f c hf)
    (fun f c hf _ => hsound f c hf) (keeps_coef k) (.intro calls)

end TelinkB91.Audio.Equaliser
