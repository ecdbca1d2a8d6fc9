import TelinkB91.Uart.Prime
import Mathlib.Tactic.Ring

/-!
# Uart — the divider of the clock

`uart_cal_div_and_bwpc` looks for the width of a bit for which the ratio of the clocks, with one
decimal, is nearest to an integer.  It has two candidates: the width with the smallest decimal,
whose divider is rounded down, and the one with the largest, rounded up.

* `Scanned.scan`: what one round of the search keeps.
* `near_down`, `near_up`: how far the two roundings are from the ratio.
* `cal_div_and_bwpc`: for a ratio from 16 up to `2 ^ 18 - 1` the width is one of 3 to 15, the
  divider is not cut, and their product is within half a width of the ratio, or of a number next to
  it.
-/

namespace TelinkB91.Uart

/-- `D_intdec[j]`, for the width `j + 3`. -/
def dIntdec (primeInt : U32) (j : Nat) : U32 := 10#32 * primeInt / BitVec.ofNat 32 (j + 3 + 1)

/-- `D_dec[j]`. -/
def dDec (primeInt : U32) (j : Nat) : U8 :=
  (dIntdec primeInt j - 10#32 * (dIntdec primeInt j / 10#32)).setWidth 8

/-- `D_int[j]`. -/
def dInt (primeInt : U32) (j : Nat) : U32 := dIntdec primeInt j / 10#32

/-- `position_min`, `position_max`, `min` and `max`. -/
structure Positions where
  positionMin : U8
  positionMax : U8
  min : U32
  max : U32

/-- One round of the search. -/
def Positions.scan (primeInt : U32) (s : Positions) (j : Nat) : Positions :=
  let dec := (dDec primeInt j).setWidth 32
  let s :=
    if dec ≤ s.min ∧ dInt primeInt j ≠ 1#32 then
      { s with min := dec, positionMin := BitVec.ofNat 8 j }
    else s
  if s.max ≤ dec then { s with max := dec, positionMax := BitVec.ofNat 8 j } else s

/-- The search over the 13 widths. -/
def positions (primeInt : U32) : Positions :=
  (List.range 13).foldl (Positions.scan primeInt) ⟨0#8, 0#8, 0xffffffff#32, 0#32⟩

/-- `*div` and `*bwpc`. -/
structure Divider where
  div : U16
  bwpc : U8

/-- Rounded down, at a position. -/
def roundDown (primeInt : U32) (position : U8) : Divider :=
  ⟨(dInt primeInt position.toNat - 1#32).setWidth 16, position + 3#8⟩

/-- Rounded up, at a position. -/
def roundUp (primeInt : U32) (position : U8) : Divider :=
  ⟨(dInt primeInt position.toNat).setWidth 16, position + 3#8⟩

/-- The choice between the two candidates. -/
def choose (primeInt : U32) (s : Positions) : Divider :=
  let decMin := dDec primeInt s.positionMin.toNat
  let decMax := dDec primeInt s.positionMax.toNat
  if decMin < 5#8 ∧ 5#8 ≤ decMax then
    if (decMin.toNat : Int) < 10 - decMax.toNat then roundDown primeInt s.positionMin
    else roundUp primeInt s.positionMax
  else if decMin < 5#8 ∧ decMax < 5#8 then roundDown primeInt s.positionMin
  else roundUp primeInt s.positionMax

/-- `primeInt`, when the search starts: not a prime, where that can be. -/
def notPrime (fuel : Nat) (baudrate pclk : U32) : Option U32 := do
  let primeInt := pclk / baudrate
  let primeDec : U8 := (10#32 * pclk / baudrate - 10#32 * primeInt).setWidth 8
  if ← uartIsPrime fuel primeInt then return primeInt + 1#32
  else if 5#8 < primeDec then
    if ← uartIsPrime fuel (primeInt + 1#32) then return primeInt + 1#32 - 1#32
    else return primeInt + 1#32
  else return primeInt

/-- `uart_cal_div_and_bwpc`. -/
def uartCalDivAndBwpc (fuel : Nat) (baudrate pclk : U32) : Option Divider := do
  let primeInt ← notPrime fuel baudrate pclk
  return choose primeInt (positions primeInt)

/-! ### One decimal -/

/-- The decimal of a quotient is below 5: rounded down, it is within half a divisor. -/
theorem near_down {p w : Nat} (hw : 0 < w) (hdec : 10 * p / w < 10 * (p / w) + 5) :
    p / w * w ≤ p ∧ 2 * (p - p / w * w) ≤ w := by
  have hlt := (Nat.div_lt_iff_lt_mul hw).mp hdec
  have hexp : (10 * (p / w) + 5) * w = 10 * (p / w * w) + 5 * w := by ring
  refine ⟨Nat.div_mul_le_self p w, ?_⟩
  omega

/-- The decimal of a quotient is at least 5: rounded up, it is within half a divisor. -/
theorem near_up {p w : Nat} (hw : 0 < w) (hdec : 10 * (p / w) + 5 ≤ 10 * p / w) :
    p ≤ (p / w + 1) * w ∧ 2 * ((p / w + 1) * w - p) ≤ w := by
  have hle := (Nat.le_div_iff_mul_le hw).mp hdec
  have hexp : (10 * (p / w) + 5) * w = 10 * (p / w * w) + 5 * w := by ring
  have hnext : (p / w + 1) * w = p / w * w + w := by ring
  have hmod := Nat.lt_div_mul_add hw (a := p)
  constructor <;> omega

section divider

variable {primeInt : U32} {j : Nat}

theorem toNat_dIntdec (hp : primeInt.toNat < 2 ^ 18) (hj : j < 13) :
    (dIntdec primeInt j).toNat = 10 * primeInt.toNat / (j + 4) := by
  have hten : (10#32 * primeInt).toNat = 10 * primeInt.toNat := by
    rw [BitVec.toNat_mul]
    exact Nat.mod_eq_of_lt (by change 10 * primeInt.toNat < _; omega)
  have hwidth : (BitVec.ofNat 32 (j + 3 + 1)).toNat = j + 4 := by
    rw [BitVec.toNat_ofNat]
    exact Nat.mod_eq_of_lt (by omega)
  rw [dIntdec, BitVec.toNat_udiv, hten, hwidth]

theorem toNat_dInt (hp : primeInt.toNat < 2 ^ 18) (hj : j < 13) :
    (dInt primeInt j).toNat = primeInt.toNat / (j + 4) := by
  have hten : (10#32).toNat = 10 := rfl
  rw [dInt, BitVec.toNat_udiv, toNat_dIntdec hp hj, hten, Nat.div_div_eq_div_mul,
    Nat.mul_comm (j + 4) 10]
  exact Nat.mul_div_mul_left _ _ (by decide)

theorem toNat_dDec (hp : primeInt.toNat < 2 ^ 18) (hj : j < 13) :
    (dDec primeInt j).toNat =
      10 * primeInt.toNat / (j + 4) - 10 * (primeInt.toNat / (j + 4)) := by
  have hint := toNat_dInt hp hj
  have hdec := toNat_dIntdec hp hj
  have hsame : 10 * primeInt.toNat / (j + 4) / 10 = primeInt.toNat / (j + 4) := by
    rw [← hint, dInt, BitVec.toNat_udiv, hdec]
    rfl
  have hdef : dDec primeInt j =
      (dIntdec primeInt j - 10#32 * dInt primeInt j).setWidth 8 := rfl
  rw [hdef, BitVec.toNat_setWidth]
  bv_omega

/-- The divider before 1 is taken from it fits in 16 bits, and 1 can be taken from it. -/
theorem dInt_bounds (hlow : 16 ≤ primeInt.toNat) (hp : primeInt.toNat < 2 ^ 18) (hj : j < 13) :
    1 ≤ (dInt primeInt j).toNat ∧ (dInt primeInt j).toNat < 2 ^ 16 := by
  rw [toNat_dInt hp hj]
  constructor
  · exact (Nat.one_le_div_iff (by omega)).mpr (by omega)
  · exact (Nat.div_lt_iff_lt_mul (by omega)).mpr (by omega)

/-! ### The search -/

/-- What the search has after the first `n` widths. -/
structure Scanned (primeInt : U32) (n : Nat) (s : Positions) : Prop where
  positionMin_lt : s.positionMin.toNat < 13
  positionMax_lt : s.positionMax.toNat < 13
  le_max : ∀ j < n, (dDec primeInt j).toNat ≤ s.max.toNat
  max_le : s.max.toNat ≤ (dDec primeInt s.positionMax.toNat).toNat

/-- **One round.** -/
theorem Scanned.scan {s : Positions} (h : Scanned primeInt j s) (hj : j < 13) :
    Scanned primeInt (j + 1) (s.scan primeInt j) := by
  have hpos : (BitVec.ofNat 8 j).toNat = j := by
    rw [BitVec.toNat_ofNat]
    exact Nat.mod_eq_of_lt (by omega)
  have hdec : ((dDec primeInt j).setWidth 32).toNat = (dDec primeInt j).toNat := by
    rw [BitVec.toNat_setWidth]
    exact Nat.mod_eq_of_lt (by omega)
  -- The first comparison moves nothing but the smallest decimal and its position.
  have hmin : ∀ t : Positions, Scanned primeInt j t → Scanned primeInt (j + 1)
      (if t.max ≤ (dDec primeInt j).setWidth 32 then
        { t with max := (dDec primeInt j).setWidth 32, positionMax := BitVec.ofNat 8 j }
      else t) := by
    intro t ht
    by_cases hmax : t.max ≤ (dDec primeInt j).setWidth 32
    · have hle : t.max.toNat ≤ (dDec primeInt j).toNat := hdec ▸ BitVec.le_def.mp hmax
      rw [if_pos hmax]
      refine ⟨ht.positionMin_lt, hpos.symm ▸ hj, fun k hk => ?_, ?_⟩
      · rw [hdec]
        rcases Nat.lt_succ_iff_lt_or_eq.mp hk with hk | rfl
        · exact (ht.le_max k hk).trans hle
        · exact le_rfl
      · rw [hdec, hpos]
    · have hle : (dDec primeInt j).toNat ≤ t.max.toNat :=
        hdec ▸ (BitVec.le_of_lt (BitVec.not_le.mp hmax))
      rw [if_neg hmax]
      refine ⟨ht.positionMin_lt, ht.positionMax_lt, fun k hk => ?_, ht.max_le⟩
      rcases Nat.lt_succ_iff_lt_or_eq.mp hk with hk | rfl
      · exact ht.le_max k hk
      · exact hle
  refine hmin _ ?_
  by_cases hfirst : (dDec primeInt j).setWidth 32 ≤ s.min ∧ dInt primeInt j ≠ 1#32
  · rw [if_pos hfirst]
    exact ⟨hpos.symm ▸ hj, h.positionMax_lt, h.le_max, h.max_le⟩
  · rw [if_neg hfirst]
    exact h

/-- **The search.** -/
theorem scanned_positions (primeInt : U32) : Scanned primeInt 13 (positions primeInt) := by
  have hrun : ∀ n ≤ 13, Scanned primeInt n
      ((List.range n).foldl (Positions.scan primeInt) ⟨0#8, 0#8, 0xffffffff#32, 0#32⟩) := by
    intro n hn
    induction n with
    | zero =>
        have hzero : (0#8).toNat < 13 := by decide
        exact ⟨hzero, hzero, fun j hj => absurd hj j.not_lt_zero, Nat.zero_le _⟩
    | succ n ih =>
        rw [List.range_succ, List.foldl_append]
        exact (ih (by omega)).scan (by omega)
  exact hrun 13 le_rfl

/-! ### The choice -/

/-- The divider and the width are near the number they are computed for: the width is one of 3 to
15, the divider is the quotient or one less, with nothing cut off, and their product is within half
a width of the number. -/
structure Accurate (primeInt : U32) (d : Divider) : Prop where
  bwpc_ge : 3 ≤ d.bwpc.toNat
  bwpc_le : d.bwpc.toNat ≤ 15
  whole : d.div.toNat = (dInt primeInt (d.bwpc.toNat - 3)).toNat ∨
    d.div.toNat + 1 = (dInt primeInt (d.bwpc.toNat - 3)).toNat
  near : |((d.div.toNat : ℤ) + 1) * ((d.bwpc.toNat : ℤ) + 1) - primeInt.toNat| ≤
    ((d.bwpc.toNat : ℤ) + 1) / 2

theorem toNat_bwpc {position : U8} (hj : position.toNat < 13) :
    (position + 3#8).toNat = position.toNat + 3 := by
  rw [BitVec.toNat_add]
  exact Nat.mod_eq_of_lt (by change position.toNat + 3 < _; omega)

/-- A divider for the width at a position, near enough to the number. -/
theorem accurate_of {d : Divider} {position : U8} (hj : position.toNat < 13)
    (hbwpc : d.bwpc = position + 3#8)
    (hwhole : d.div.toNat = (dInt primeInt position.toNat).toNat ∨
      d.div.toNat + 1 = (dInt primeInt position.toNat).toNat)
    (hle : (d.div.toNat + 1) * (position.toNat + 4) ≤
      primeInt.toNat + (position.toNat + 4) / 2)
    (hge : primeInt.toNat ≤
      (d.div.toNat + 1) * (position.toNat + 4) + (position.toNat + 4) / 2) :
    Accurate primeInt d := by
  have hwidth : d.bwpc.toNat = position.toNat + 3 := by
    rw [hbwpc]
    exact toNat_bwpc hj
  have hback : d.bwpc.toNat - 3 = position.toNat := hwidth.symm ▸ Nat.add_sub_cancel _ _
  refine ⟨by omega, by omega, hback.symm ▸ hwhole, ?_⟩
  have hprod : ((d.div.toNat : ℤ) + 1) * ((d.bwpc.toNat : ℤ) + 1) =
      ((d.div.toNat + 1) * (position.toNat + 4) : Nat) := by
    rw [hwidth]
    push_cast
    ring
  rw [hprod, hwidth, abs_le]
  constructor <;> omega

theorem accurate_roundDown (hlow : 16 ≤ primeInt.toNat) (hp : primeInt.toNat < 2 ^ 18)
    {position : U8} (hj : position.toNat < 13) (hdec : dDec primeInt position.toNat < 5#8) :
    Accurate primeInt (roundDown primeInt position) := by
  obtain ⟨hpos, hfits⟩ := dInt_bounds hlow hp hj
  have hdiv : (roundDown primeInt position).div.toNat + 1 =
      (dInt primeInt position.toNat).toNat := by
    rw [roundDown, BitVec.toNat_setWidth]
    bv_omega
  have hlt : (dDec primeInt position.toNat).toNat < 5 := hdec
  rw [toNat_dDec hp hj] at hlt
  obtain ⟨hle, hhalf⟩ := near_down (p := primeInt.toNat) (w := position.toNat + 4) (by omega)
    (by omega)
  have hquot := hdiv.trans (toNat_dInt hp hj)
  refine accurate_of hj rfl (.inr hdiv) ?_ ?_ <;> rw [hquot] <;> omega

theorem accurate_roundUp (hlow : 16 ≤ primeInt.toNat) (hp : primeInt.toNat < 2 ^ 18)
    {position : U8} (hj : position.toNat < 13) (hdec : 5#8 ≤ dDec primeInt position.toNat) :
    Accurate primeInt (roundUp primeInt position) := by
  have hdiv : (roundUp primeInt position).div.toNat =
      (dInt primeInt position.toNat).toNat := by
    rw [roundUp, BitVec.toNat_setWidth]
    exact Nat.mod_eq_of_lt (dInt_bounds hlow hp hj).2
  have hge : 5 ≤ (dDec primeInt position.toNat).toNat := hdec
  rw [toNat_dDec hp hj] at hge
  obtain ⟨hle, hhalf⟩ := near_up (p := primeInt.toNat) (w := position.toNat + 4) (by omega)
    (by omega)
  have hquot := hdiv.trans (toNat_dInt hp hj)
  refine accurate_of hj rfl (.inl hdiv) ?_ ?_ <;> rw [hquot] <;> omega

/-- **The choice.**  Where it rounds up without a look at the largest decimal, the smallest one is
at least 5. -/
theorem accurate_choose (hlow : 16 ≤ primeInt.toNat) (hp : primeInt.toNat < 2 ^ 18) :
    Accurate primeInt (choose primeInt (positions primeInt)) := by
  have hscan := scanned_positions primeInt
  generalize positions primeInt = s at hscan
  have hminmax : dDec primeInt s.positionMin.toNat ≤ dDec primeInt s.positionMax.toNat :=
    (hscan.le_max _ hscan.positionMin_lt).trans hscan.max_le
  rw [choose]
  split_ifs with hboth hnear hlow'
  · exact accurate_roundDown hlow hp hscan.positionMin_lt hboth.1
  · exact accurate_roundUp hlow hp hscan.positionMax_lt hboth.2
  · exact accurate_roundDown hlow hp hscan.positionMin_lt hlow'.1
  · refine accurate_roundUp hlow hp hscan.positionMax_lt ?_
    by_contra hlt
    have hmax := BitVec.not_le.mp hlt
    exact hlow' ⟨Nat.lt_of_le_of_lt hminmax hmax, hmax⟩

/-- The number the search starts with is the ratio, or the next one. -/
theorem notPrime_eq {baudrate pclk : U32} {fuel : Nat} (hfuel : trials ≤ fuel)
    (hhigh : pclk.toNat / baudrate.toNat < 2 ^ 18 - 1) :
    ∃ p, notPrime fuel baudrate pclk = some p ∧
      (p.toNat = pclk.toNat / baudrate.toNat ∨ p.toNat = pclk.toNat / baudrate.toNat + 1) := by
  have hratio : (pclk / baudrate).toNat = pclk.toNat / baudrate.toNat := BitVec.toNat_udiv
  have hnext : (pclk / baudrate + 1#32).toNat = pclk.toNat / baudrate.toNat + 1 := by
    rw [BitVec.toNat_add, hratio]
    exact Nat.mod_eq_of_lt (by change _ + 1 < _; omega)
  have hback : pclk / baudrate + 1#32 - 1#32 = pclk / baudrate := BitVec.add_sub_cancel _ _
  obtain ⟨r, hr, -⟩ := uartIsPrime_eq (n := pclk / baudrate) (by rw [hratio, lastTrial]; omega)
    hfuel
  obtain ⟨r', hr', -⟩ := uartIsPrime_eq (n := pclk / baudrate + 1#32)
    (by rw [hnext, lastTrial]; omega) hfuel
  rw [notPrime, hr, hr', hback]
  cases r with
  | true => exact ⟨_, rfl, .inr hnext⟩
  | false =>
      by_cases hdec : 5#8 < (10#32 * pclk / baudrate - 10#32 * (pclk / baudrate)).setWidth 8
      · cases r' with
        | true => exact ⟨_, (if_pos hdec), .inl hratio⟩
        | false => exact ⟨_, (if_pos hdec), .inr hnext⟩
      · exact ⟨_, (if_neg hdec), .inl hratio⟩

end divider

/-- **The divider.** -/
theorem cal_div_and_bwpc (baudrate pclk : U32) (hlow : 16 ≤ pclk.toNat / baudrate.toNat)
    (hhigh : pclk.toNat / baudrate.toNat < 2 ^ 18 - 1) {fuel : Nat} (hfuel : trials ≤ fuel) :
    ∃ d p, uartCalDivAndBwpc fuel baudrate pclk = some d ∧
      |(p.toNat : ℤ) - (pclk.toNat / baudrate.toNat : Nat)| ≤ 1 ∧ Accurate p d := by
  obtain ⟨p, hp, hnear⟩ := notPrime_eq hfuel hhigh
  refine ⟨choose p (positions p), p, ?_, ?_, accurate_choose (by omega) (by omega)⟩
  · rw [uartCalDivAndBwpc, hp]
    rfl
  · rw [abs_le]
    constructor <;> omega

theorem cal_div_and_bwpc_115200 :
    ∃ d p, uartCalDivAndBwpc trials 115200#32 16000000#32 = some d ∧
      |(p.toNat : ℤ) - ((16000000#32).toNat / (115200#32).toNat : Nat)| ≤ 1 ∧ Accurate p d :=
  cal_div_and_bwpc 115200#32 16000000#32 (by decide) (by decide) le_rfl

end TelinkB91.Uart
