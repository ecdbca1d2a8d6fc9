import Mathlib.Algebra.Order.Ring.Nat
import Mathlib.Data.BitVec
import Mathlib.Data.List.Basic
import TelinkB91.Lib.Runs

/-!
# Ir — learning a waveform

A remote control sends bursts of a carrier with gaps between them.  `ir_learn_irq_handler` is called
at every falling edge of the receiver, and `ir_record` tells from the time since the last edge
whether the carrier goes on or a gap has ended.  `wave_series_buf` gets the length of each burst and
of each gap, in turn, and `wave_series_cnt` is the index of the entry that is being written.
`ir_learn_detect` is called from the main loop, and ends the recording when no edge has come for
long enough.

* `edge_cases`, `otherEdge_cases`, `detect_cases`: what one step does.
* `otherEdge_keeps`, `detect_keeps`: what only the first two edges change.

Times are in ticks of the system timer, 16 to a microsecond, and wrap.
-/

namespace TelinkB91.Ir
open Runs

abbrev U8 := BitVec 8

abbrev U16 := BitVec 16

abbrev U32 := BitVec 32

/-- `ir_learn_states`. -/
inductive LearnState where
  | disable
  | waitKey
  | key
  | begin
  | sampleEnd
  | success
  | failFirstIntervalTooLong
  | failTwoLongNoCarrier
  | failWaitOverTime
  | failWaveNumTooFew
  | failFlashFull
  | fail
  deriving DecidableEq, Repr

/-- `IR_LEARN_CARRIER_MAX_CYCLE*3/2`, where the macro stands for `16000000/30000`. -/
def irLearnIntervalThreshold : U32 := 799#32

/-- `30*SYSTEM_TIMER_TICK_1MS`. -/
def irLearnEndThreshold : U32 := 480000#32

def irLearnOvertimeThreshold : U32 := 10000000#32

def irCarrCheckCnt : U8 := 10#8

def carrAndNoCarrMinNumber : U16 := 15#16

def maxSectionNumber : Nat := 100

/-- `ir_learn_ctrl_t`.  `carr_or_not` is only set to 0 and 1.  `waveSeriesBuf` goes on behind the
array, and `used` are the indices that were used. -/
structure Ctrl where
  lastTriggerTmPoint : U32
  currTriggerTmPoint : U32
  timeInterval : U32
  carrFirstInterval : U32
  carrSwitchStartTmPoint : U32
  carrCheckCnt : U8
  carrOrNot : Bool
  irLearnState : LearnState
  irLearnTick : U32
  carrCycleInterval : U32
  irEnterIrqCnt : U16
  waveSeriesCnt : U16
  waveSeriesBuf : Nat → U32
  used : List Nat

/-- `ir_learn_start`, at the time `now`. -/
def irLearnStart (now : U32) : Ctrl where
  lastTriggerTmPoint := 0#32
  currTriggerTmPoint := 0#32
  timeInterval := 0#32
  carrFirstInterval := 0#32
  carrSwitchStartTmPoint := 0#32
  carrCheckCnt := 0#8
  carrOrNot := false
  irLearnState := .waitKey
  irLearnTick := now
  carrCycleInterval := 0#32
  irEnterIrqCnt := 0#16
  waveSeriesCnt := 0#16
  waveSeriesBuf := fun _ => 0#32
  used := []

/-- `wave_series_buf[i] = v`. -/
def Ctrl.put (s : Ctrl) (i : Nat) (v : U32) : Ctrl :=
  { s with waveSeriesBuf := fun j => if j = i then v else s.waveSeriesBuf j, used := s.used ++ [i] }

/-- The irq is counted, and the time since the last edge is taken. -/
def Ctrl.count (s : Ctrl) (tm : U32) : Ctrl :=
  { s with
    irEnterIrqCnt := s.irEnterIrqCnt + 1
    currTriggerTmPoint := tm
    timeInterval := tm - s.lastTriggerTmPoint }

/-- The carrier goes on, or starts again. -/
def Ctrl.carrier (s : Ctrl) : Ctrl :=
  let s := if s.carrOrNot = false then
      { s with waveSeriesCnt := s.waveSeriesCnt + 1, carrOrNot := true }
    else s
  s.put s.waveSeriesCnt.toNat (s.currTriggerTmPoint - s.carrSwitchStartTmPoint)

/-- A gap has ended. -/
def Ctrl.gap (s : Ctrl) (tm : U32) : Ctrl :=
  let s := { s with carrOrNot := false, carrSwitchStartTmPoint := tm }
  let s := s.put s.waveSeriesCnt.toNat
    (s.waveSeriesBuf s.waveSeriesCnt.toNat + s.carrFirstInterval)
  let s := { s with waveSeriesCnt := s.waveSeriesCnt + 1 }
  s.put s.waveSeriesCnt.toNat (s.timeInterval - s.carrFirstInterval / 3#32)

/-- The longest of the first intervals is taken for the carrier. -/
def Ctrl.checkCarrier (s : Ctrl) : Ctrl :=
  if s.carrCheckCnt < irCarrCheckCnt then
    { s with
      carrCycleInterval :=
        if s.carrCycleInterval < s.timeInterval then s.timeInterval else s.carrCycleInterval
      carrCheckCnt := s.carrCheckCnt + 1 }
  else s

/-- The limit of the buffer. -/
def Ctrl.checkFull (s : Ctrl) : Ctrl :=
  if s.waveSeriesCnt.toNat ≥ maxSectionNumber then { s with irLearnState := .failFlashFull } else s

/-- The time of the edge becomes that of the last. -/
def Ctrl.remember (s : Ctrl) : Ctrl := { s with lastTriggerTmPoint := s.currTriggerTmPoint }

/-- The end of `ir_record`. -/
def Ctrl.close (s : Ctrl) : Ctrl := s.checkCarrier.checkFull.remember

/-- The part of `ir_record` for the other edges. -/
def Ctrl.otherEdge (s : Ctrl) (tm : U32) : Ctrl :=
  if s.timeInterval < irLearnIntervalThreshold then s.carrier.close
  else if irLearnIntervalThreshold < s.timeInterval ∧ s.timeInterval < irLearnEndThreshold then
    if s.carrOrNot = true then (s.gap tm).close
    else { s with irLearnState := .failTwoLongNoCarrier }
  else if s.timeInterval > irLearnEndThreshold then
    Ctrl.close { s with irLearnState := .sampleEnd }
  else s.close

/-- The part for the second edge. -/
def Ctrl.secondEdge (s : Ctrl) : Ctrl :=
  if s.timeInterval > irLearnIntervalThreshold then
    { s with irLearnState := .failFirstIntervalTooLong }
  else
    Ctrl.remember { s with
      carrOrNot := true
      carrFirstInterval := s.timeInterval
      carrSwitchStartTmPoint := s.lastTriggerTmPoint }

/-- The part for the first edge. -/
def Ctrl.firstEdge (s : Ctrl) (tm : U32) : Ctrl :=
  Ctrl.remember { s with irLearnTick := tm, irLearnState := .begin }

/-- `ir_record`. -/
def irRecord (s : Ctrl) (tm : U32) : Ctrl :=
  let s := s.count tm
  if s.irEnterIrqCnt = 1#16 then s.firstEdge tm
  else if s.irEnterIrqCnt = 2#16 then s.secondEdge
  else s.otherEdge tm

/-- The states in which edges are recorded. -/
def Ctrl.Recording (s : Ctrl) : Prop := s.irLearnState = .waitKey ∨ s.irLearnState = .begin

instance (s : Ctrl) : Decidable s.Recording := inferInstanceAs (Decidable (_ ∨ _))

/-- `ir_learn_irq_handler` at the time `tm`. -/
def irLearnIrqHandler (s : Ctrl) (tm : U32) : Ctrl := if s.Recording then irRecord s tm else s

/-- `clock_time_exceed` at the time `now`. -/
def ClockTimeExceed (now ref us : U32) : Prop := now - ref > us * 16#32

instance (now ref us : U32) : Decidable (ClockTimeExceed now ref us) :=
  inferInstanceAs (Decidable (_ > _))

/-- The recording has come to its end: no edge has come for 30 ms, or one has come after that. -/
def Ctrl.Ended (s : Ctrl) (now : U32) : Prop :=
  (s.irLearnState = .begin ∧
      ClockTimeExceed now s.currTriggerTmPoint (irLearnEndThreshold / 16#32)) ∨
    s.irLearnState = .sampleEnd

instance (s : Ctrl) (now : U32) : Decidable (s.Ended now) :=
  inferInstanceAs (Decidable ((_ ∧ _) ∨ _))

/-- `ir_learn_detect` at the time `now`. -/
def irLearnDetect (s : Ctrl) (now : U32) : Ctrl :=
  if s.irLearnState = .waitKey ∧ ClockTimeExceed now s.irLearnTick irLearnOvertimeThreshold then
    { s with irLearnState := .failWaitOverTime }
  else if s.Ended now then
    if s.waveSeriesCnt > carrAndNoCarrMinNumber then
      let s := { s with irLearnState := .success }
      s.put (s.waveSeriesCnt.toNat - 1)
        (s.waveSeriesBuf (s.waveSeriesCnt.toNat - 1) + s.carrCycleInterval)
    else { s with irLearnState := .failWaveNumTooFew }
  else s

/-- An edge, or a call of `ir_learn_detect`, with its time. -/
inductive Op where
  | edge (tm : U32)
  | detect (now : U32)
  deriving DecidableEq, Repr

def Ctrl.step (s : Ctrl) : Op → Ctrl
  | .edge tm => irLearnIrqHandler s tm
  | .detect now => irLearnDetect s now

/-- Bursts of three edges 400 ticks apart, with gaps of 2000 ticks, from the time `tm` on. -/
def bursts (tm : Nat) : Nat → List Op
  | 0 => []
  | n + 1 =>
      [.edge (BitVec.ofNat 32 tm), .edge (BitVec.ofNat 32 (tm + 400)),
        .edge (BitVec.ofNat 32 (tm + 800))] ++ bursts (tm + 2800) n

/-! ### One step -/

/-- `carr_cycle_interval` and `carr_check_cnt` after an edge. -/
def Ctrl.cycleAfter (s : Ctrl) : U32 :=
  if s.carrCheckCnt < irCarrCheckCnt ∧ s.carrCycleInterval < s.timeInterval then s.timeInterval
  else s.carrCycleInterval

def Ctrl.checkAfter (s : Ctrl) : U8 :=
  if s.carrCheckCnt < irCarrCheckCnt then s.carrCheckCnt + 1 else s.carrCheckCnt

/-- The index that the carrier is written to. -/
def Ctrl.carrierIndex (s : Ctrl) : U16 :=
  if s.carrOrNot = false then s.waveSeriesCnt + 1 else s.waveSeriesCnt

/-- The end of `ir_record`, by fields. -/
theorem close_eq (s : Ctrl) : s.close = { s with
    lastTriggerTmPoint := s.currTriggerTmPoint
    carrCycleInterval := s.cycleAfter
    carrCheckCnt := s.checkAfter
    irLearnState :=
      if s.waveSeriesCnt.toNat ≥ maxSectionNumber then .failFlashFull else s.irLearnState } := by
  rw [Ctrl.close, Ctrl.remember, Ctrl.checkFull, Ctrl.checkCarrier, Ctrl.cycleAfter,
    Ctrl.checkAfter]
  by_cases hcheck : s.carrCheckCnt < irCarrCheckCnt
  · by_cases hfull : s.waveSeriesCnt.toNat ≥ maxSectionNumber
    · simp [hcheck, hfull]
    · simp [hcheck, hfull]
  · by_cases hfull : s.waveSeriesCnt.toNat ≥ maxSectionNumber
    · simp [hcheck, hfull]
    · simp [hcheck, hfull]

theorem carrier_eq (s : Ctrl) : s.carrier = { s with
    carrOrNot := true
    waveSeriesCnt := s.carrierIndex
    waveSeriesBuf := fun j => if j = s.carrierIndex.toNat then
      s.currTriggerTmPoint - s.carrSwitchStartTmPoint else s.waveSeriesBuf j
    used := s.used ++ [s.carrierIndex.toNat] } := by
  rw [Ctrl.carrier, Ctrl.carrierIndex]
  cases hcarr : s.carrOrNot with
  | false => rfl
  | true =>
      dsimp only [Ctrl.put]
      rw [if_neg (by decide), if_neg (by decide)]
      exact congrArg (fun b => ({ s with
        carrOrNot := b
        waveSeriesBuf := _
        used := _ } : Ctrl)) hcarr

theorem gap_eq (s : Ctrl) (tm : U32) : s.gap tm = { s with
    carrOrNot := false
    carrSwitchStartTmPoint := tm
    waveSeriesCnt := s.waveSeriesCnt + 1
    waveSeriesBuf := fun j =>
      if j = (s.waveSeriesCnt + 1).toNat then s.timeInterval - s.carrFirstInterval / 3#32
      else if j = s.waveSeriesCnt.toNat then
        s.waveSeriesBuf s.waveSeriesCnt.toNat + s.carrFirstInterval
      else s.waveSeriesBuf j
    used := s.used ++ [s.waveSeriesCnt.toNat] ++ [(s.waveSeriesCnt + 1).toNat] } := rfl

/-- **One edge**, by its number.  The number wraps. -/
theorem edge_cases {s : Ctrl} (hrec : s.Recording) (tm : U32) :
    (s.irEnterIrqCnt + 1 = 1#16 ∧ irLearnIrqHandler s tm = (s.count tm).firstEdge tm) ∨
    (s.irEnterIrqCnt + 1 = 2#16 ∧ irLearnIrqHandler s tm = (s.count tm).secondEdge) ∨
    (s.irEnterIrqCnt + 1 ≠ 1#16 ∧ s.irEnterIrqCnt + 1 ≠ 2#16 ∧
      irLearnIrqHandler s tm = (s.count tm).otherEdge tm) := by
  rw [irLearnIrqHandler, if_pos hrec, irRecord]
  by_cases h₁ : s.irEnterIrqCnt + 1 = 1#16
  · exact .inl ⟨h₁, if_pos h₁⟩
  · by_cases h₂ : s.irEnterIrqCnt + 1 = 2#16
    · exact .inr (.inl ⟨h₂, (if_neg h₁).trans (if_pos h₂)⟩)
    · exact .inr (.inr ⟨h₁, h₂, (if_neg h₁).trans (if_neg h₂)⟩)

/-- **One of the other edges**, by the time since the last. -/
theorem otherEdge_cases (s : Ctrl) (tm : U32) :
    (s.timeInterval < irLearnIntervalThreshold ∧ s.otherEdge tm = s.carrier.close) ∨
    (irLearnIntervalThreshold < s.timeInterval ∧ s.timeInterval < irLearnEndThreshold ∧
      s.carrOrNot = true ∧ s.otherEdge tm = (s.gap tm).close) ∨
    (irLearnIntervalThreshold < s.timeInterval ∧ s.timeInterval < irLearnEndThreshold ∧
      s.carrOrNot = false ∧
      s.otherEdge tm = { s with irLearnState := .failTwoLongNoCarrier }) ∨
    (irLearnEndThreshold < s.timeInterval ∧
      s.otherEdge tm = Ctrl.close { s with irLearnState := .sampleEnd }) ∨
    ((s.timeInterval = irLearnIntervalThreshold ∨ s.timeInterval = irLearnEndThreshold) ∧
      s.otherEdge tm = s.close) := by
  have horder : irLearnIntervalThreshold < irLearnEndThreshold := by decide
  rw [Ctrl.otherEdge]
  split_ifs with hcarrier hgap hcarr hend
  · exact .inl ⟨hcarrier, rfl⟩
  · exact .inr (.inl ⟨hgap.1, hgap.2, hcarr, rfl⟩)
  · exact .inr (.inr (.inl ⟨hgap.1, hgap.2, Bool.eq_false_iff.mpr hcarr, rfl⟩))
  · exact .inr (.inr (.inr (.inl ⟨hend, rfl⟩)))
  · refine .inr (.inr (.inr (.inr ⟨?_, rfl⟩)))
    bv_omega

/-- **One call of `ir_learn_detect`.** -/
theorem detect_cases (s : Ctrl) (now : U32) :
    (s.irLearnState = .waitKey ∧
      irLearnDetect s now = { s with irLearnState := .failWaitOverTime }) ∨
    (s.Ended now ∧ s.waveSeriesCnt > carrAndNoCarrMinNumber ∧ irLearnDetect s now = { s with
      irLearnState := .success
      waveSeriesBuf := fun j => if j = s.waveSeriesCnt.toNat - 1 then
        s.waveSeriesBuf (s.waveSeriesCnt.toNat - 1) + s.carrCycleInterval else s.waveSeriesBuf j
      used := s.used ++ [s.waveSeriesCnt.toNat - 1] }) ∨
    (s.Ended now ∧ irLearnDetect s now = { s with irLearnState := .failWaveNumTooFew }) ∨
    irLearnDetect s now = s := by
  rw [irLearnDetect]
  split_ifs with hwait hend hmany
  · exact .inl ⟨hwait.1, rfl⟩
  · exact .inr (.inl ⟨hend, hmany, rfl⟩)
  · exact .inr (.inr (.inl ⟨hend, rfl⟩))
  · exact .inr (.inr (.inr rfl))

/-- What only the first two edges change. -/
structure Keeps (s t : Ctrl) : Prop where
  irEnterIrqCnt : t.irEnterIrqCnt = s.irEnterIrqCnt
  carrFirstInterval : t.carrFirstInterval = s.carrFirstInterval
  irLearnTick : t.irLearnTick = s.irLearnTick

/-- The other edges keep it. -/
theorem otherEdge_keeps (s : Ctrl) (tm : U32) : Keeps s (s.otherEdge tm) := by
  rcases otherEdge_cases s tm with ⟨-, hother⟩ | ⟨-, -, -, hother⟩ | ⟨-, -, -, hother⟩ |
    ⟨-, hother⟩ | ⟨-, hother⟩
  · rw [hother, close_eq, carrier_eq]
    exact ⟨rfl, rfl, rfl⟩
  · rw [hother, close_eq, gap_eq]
    exact ⟨rfl, rfl, rfl⟩
  · rw [hother]
    exact ⟨rfl, rfl, rfl⟩
  · rw [hother, close_eq]
    exact ⟨rfl, rfl, rfl⟩
  · rw [hother, close_eq]
    exact ⟨rfl, rfl, rfl⟩

theorem detect_keeps (s : Ctrl) (now : U32) : Keeps s (irLearnDetect s now) := by
  rcases detect_cases s now with ⟨-, hdetect⟩ | ⟨-, -, hdetect⟩ | ⟨-, hdetect⟩ | hdetect
  · rw [hdetect]
    exact ⟨rfl, rfl, rfl⟩
  · rw [hdetect]
    exact ⟨rfl, rfl, rfl⟩
  · rw [hdetect]
    exact ⟨rfl, rfl, rfl⟩
  · rw [hdetect]
    exact ⟨rfl, rfl, rfl⟩

theorem edge_stopped {s : Ctrl} (hrec : ¬s.Recording) (tm : U32) : irLearnIrqHandler s tm = s :=
  if_neg hrec

end TelinkB91.Ir
