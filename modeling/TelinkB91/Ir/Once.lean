import TelinkB91.Ir.Learn

/-!
# Ir — the first two edges

`ir_record` tells the first and the second edge of a recording by `ir_enter_irq_cnt`, which has 16
bits and wraps.  What it does for them resets what the recording is measured from.

* `kept_step`: the other edges keep it.
* `tally_branch`: how often a number is counted.
* `once_iff`: the two branches are each executed once at most, just when no more than 65536 edges
  are recorded.
* `first_again`: the edge after that.
-/

namespace TelinkB91.Ir
open Runs

/-- `ir_record` is called. -/
def Recorded (s : Ctrl) : Op → Prop
  | .edge _ => s.Recording
  | .detect _ => False

instance (s : Ctrl) : (op : Op) → Decidable (Recorded s op)
  | .edge _ => inferInstanceAs (Decidable s.Recording)
  | .detect _ => inferInstanceAs (Decidable False)

/-- `ir_record` is called, and counts the edge as number `r`. -/
def Branch (r : U16) (s : Ctrl) (op : Op) : Prop := Recorded s op ∧ s.irEnterIrqCnt + 1 = r

instance (r : U16) (s : Ctrl) (op : Op) : Decidable (Branch r s op) :=
  inferInstanceAs (Decidable (_ ∧ _))

section steps

variable {s : Ctrl}

/-- An edge that is recorded is counted, and nothing else is. -/
theorem irq_step (s : Ctrl) (op : Op) : (s.step op).irEnterIrqCnt =
    if Recorded s op then s.irEnterIrqCnt + 1 else s.irEnterIrqCnt := by
  cases op with
  | edge tm =>
      rw [Ctrl.step]
      by_cases hrec : s.Recording
      · rw [if_pos (show Recorded s (.edge tm) from hrec)]
        rcases edge_cases hrec tm with ⟨-, hedge⟩ | ⟨-, hedge⟩ | ⟨-, -, hedge⟩
        · rw [hedge]
          rfl
        · rw [hedge, Ctrl.secondEdge]
          split_ifs <;> rfl
        · rw [hedge]
          exact (otherEdge_keeps (s.count tm) tm).irEnterIrqCnt
      · rw [edge_stopped hrec, if_neg (show ¬Recorded s (.edge tm) from hrec)]
  | detect now =>
      rw [Ctrl.step, if_neg (show ¬Recorded s (.detect now) from id)]
      exact (detect_keeps s now).irEnterIrqCnt

/-- Outside of the two branches the first interval and the tick are kept. -/
theorem kept_step {op : Op} (hfirst : ¬Branch 1#16 s op) (hsecond : ¬Branch 2#16 s op) :
    (s.step op).carrFirstInterval = s.carrFirstInterval ∧
      (s.step op).irLearnTick = s.irLearnTick := by
  cases op with
  | edge tm =>
      rw [Ctrl.step]
      by_cases hrec : s.Recording
      · rcases edge_cases hrec tm with ⟨hcnt, -⟩ | ⟨hcnt, -⟩ | ⟨-, -, hedge⟩
        · exact absurd ⟨hrec, hcnt⟩ hfirst
        · exact absurd ⟨hrec, hcnt⟩ hsecond
        · have hkeeps := otherEdge_keeps (s.count tm) tm
          rw [hedge]
          exact ⟨hkeeps.carrFirstInterval, hkeeps.irLearnTick⟩
      · rw [edge_stopped hrec]
        exact ⟨rfl, rfl⟩
  | detect now =>
      have hkeeps := detect_keeps s now
      exact ⟨hkeeps.carrFirstInterval, hkeeps.irLearnTick⟩

/-- **How often a number is counted.**  Once in every 65536 edges, from the count `c` on. -/
theorem tally_branch {r : Nat} (hr : 0 < r) (hle : r ≤ 2) {c : Nat}
    (hc : s.irEnterIrqCnt = BitVec.ofNat 16 c) (ops : List Op) :
    tally Ctrl.step (Branch (BitVec.ofNat 16 r)) s ops + (c + 65536 - r) / 65536 =
      (c + tally Ctrl.step Recorded s ops + 65536 - r) / 65536 := by
  induction ops generalizing s c with
  | nil =>
      rw [tally, tally]
      omega
  | cons op ops ih =>
      have hnext := irq_step s op
      rw [tally, tally]
      by_cases hrec : Recorded s op
      · rw [if_pos hrec, hc] at hnext
        have hsum : BitVec.ofNat 16 c + 1 = BitVec.ofNat 16 (c + 1) := (BitVec.ofNat_add c 1).symm
        have hrest := ih (hnext.trans hsum)
        have hbranch : Branch (BitVec.ofNat 16 r) s op ↔ (c + 1) % 65536 = r := by
          rw [Branch, and_iff_right hrec, hc, hsum]
          constructor
          · intro h
            have hnat := congrArg BitVec.toNat h
            rw [BitVec.toNat_ofNat, BitVec.toNat_ofNat] at hnat
            omega
          · intro h
            refine BitVec.eq_of_toNat_eq ?_
            rw [BitVec.toNat_ofNat, BitVec.toNat_ofNat]
            omega
        rw [if_pos hrec]
        by_cases hr' : (c + 1) % 65536 = r
        · rw [if_pos (hbranch.mpr hr')]
          omega
        · rw [if_neg fun h => hr' (hbranch.mp h)]
          omega
      · rw [if_neg hrec] at hnext
        have hrest := ih (hnext.trans hc)
        rw [if_neg hrec, if_neg fun h => hrec h.1, Nat.zero_add, Nat.zero_add]
        exact hrest

end steps

/-- **Each once.**  Whatever edges come after `ir_learn_start`, and whenever `ir_learn_detect` is
called: the branches of `ir_record` for the first and the second edge are each executed once at
most, just when no more than 65536 edges are recorded. -/
theorem once_iff (now : U32) (ops : List Op) :
    (tally Ctrl.step (Branch 1#16) (irLearnStart now) ops ≤ 1 ∧
      tally Ctrl.step (Branch 2#16) (irLearnStart now) ops ≤ 1) ↔
    tally Ctrl.step Recorded (irLearnStart now) ops ≤ 65536 := by
  have hstart : (irLearnStart now).irEnterIrqCnt = BitVec.ofNat 16 0 := rfl
  have hfirst := tally_branch (by decide : 0 < 1) (by decide) hstart ops
  have hsecond := tally_branch (by decide : 0 < 2) (by decide) hstart ops
  omega

/-! ### A long carrier -/

/-- `n` edges 400 ticks apart, behind one at the time `tm`. -/
def carrierFrom (tm : U32) : Nat → List Op
  | 0 => []
  | n + 1 => .edge (tm + 400#32) :: carrierFrom (tm + 400#32) n

/-- A burst is being recorded, and the last edge was at `tm`. -/
structure InBurst (s : Ctrl) (tm : U32) : Prop where
  state : s.irLearnState = .begin
  last : s.lastTriggerTmPoint = tm
  carr : s.carrOrNot = true
  cnt : s.waveSeriesCnt = 0#16

theorem InBurst.edge {s : Ctrl} {tm : U32} (h : InBurst s tm) :
    InBurst (irLearnIrqHandler s (tm + 400#32)) (tm + 400#32) := by
  have hinterval : tm + 400#32 - s.lastTriggerTmPoint = 400#32 := by
    rw [h.last]
    bv_omega
  rcases edge_cases (.inr h.state) (tm + 400#32) with ⟨-, hedge⟩ | ⟨-, hedge⟩ | ⟨-, -, hedge⟩
  · rw [hedge]
    exact ⟨rfl, rfl, h.carr, h.cnt⟩
  · have hshort : ¬(s.count (tm + 400#32)).timeInterval > irLearnIntervalThreshold := by
      change ¬tm + 400#32 - s.lastTriggerTmPoint > _
      rw [hinterval]
      decide
    rw [hedge, Ctrl.secondEdge, if_neg hshort]
    exact ⟨h.state, rfl, rfl, h.cnt⟩
  · have hshort : (s.count (tm + 400#32)).timeInterval < irLearnIntervalThreshold := by
      change tm + 400#32 - s.lastTriggerTmPoint < _
      rw [hinterval]
      decide
    have hindex : (s.count (tm + 400#32)).carrierIndex = 0#16 := by
      rw [Ctrl.carrierIndex, if_neg (by change ¬s.carrOrNot = false; rw [h.carr]; decide)]
      exact h.cnt
    rw [hedge, Ctrl.otherEdge, if_pos hshort, close_eq, carrier_eq, hindex]
    exact ⟨h.state, rfl, rfl, rfl⟩

/-- All edges of a long carrier are recorded. -/
theorem InBurst.recorded {s : Ctrl} {tm : U32} (h : InBurst s tm) (n : Nat) :
    tally Ctrl.step Recorded s (carrierFrom tm n) = n := by
  induction n generalizing s tm with
  | zero => rfl
  | succ n ih =>
      have hrec : Recorded s (.edge (tm + 400#32)) := .inr h.state
      rw [carrierFrom, tally, if_pos hrec, Ctrl.step, ih h.edge, Nat.add_comm]

/-- `n` edges behind the first two. -/
def longCarrier (n : Nat) : List Op := .edge 0#32 :: .edge 400#32 :: carrierFrom 400#32 n

theorem recorded_longCarrier (n : Nat) :
    tally Ctrl.step Recorded (irLearnStart 0#32) (longCarrier n) = n + 2 := by
  have hburst : InBurst ((irLearnStart 0#32).step (.edge 0#32) |>.step (.edge 400#32)) 400#32 :=
    ⟨by decide, by decide, by decide, by decide⟩
  rw [longCarrier, tally, tally, hburst.recorded n, if_pos (by decide), if_pos (by decide)]
  omega

/-- **The edge after 65536.**  It is taken for the first again. -/
theorem first_again :
    tally Ctrl.step (Branch 1#16) (irLearnStart 0#32) (longCarrier 65535) = 2 ∧
    ¬(tally Ctrl.step (Branch 1#16) (irLearnStart 0#32) (longCarrier 65535) ≤ 1 ∧
      tally Ctrl.step (Branch 2#16) (irLearnStart 0#32) (longCarrier 65535) ≤ 1) := by
  have hrecorded := recorded_longCarrier 65535
  generalize longCarrier 65535 = ops at hrecorded ⊢
  have hstart : (irLearnStart 0#32).irEnterIrqCnt = BitVec.ofNat 16 0 := rfl
  have hfirst := tally_branch (by decide : 0 < 1) (by decide) hstart ops
  have htwo : tally Ctrl.step (Branch 1#16) (irLearnStart 0#32) ops = 2 := by omega
  refine ⟨htwo, ?_⟩
  rintro ⟨hone, -⟩
  omega

end TelinkB91.Ir
