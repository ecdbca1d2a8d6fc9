import TelinkB91.Ir.Learn

/-!
# Ir — the carrier cycle

The longest of the first ten intervals is taken for the carrier cycle.  An interval of 0 belongs to
the carrier, so while there is no other the first entry stays open, and such a recording does not
succeed.

* `otherEdge_closes`: what the other edges do to the cycle.
* `Zeros.edge`, `Zeros.detect`: the cycle is 0 behind ten intervals of 0, and otherwise only before
  a success.
-/

namespace TelinkB91.Ir

/-- The value of a state. -/
def LearnState.code : LearnState → U8
  | .disable => 0#8
  | .waitKey => 1#8
  | .key => 2#8
  | .begin => 3#8
  | .sampleEnd => 4#8
  | .success => 5#8
  | .failFirstIntervalTooLong => 6#8
  | .failTwoLongNoCarrier => 7#8
  | .failWaitOverTime => 8#8
  | .failWaveNumTooFew => 9#8
  | .failFlashFull => 10#8
  | .fail => 11#8

/-- `get_ir_learn_state`. -/
def getIrLearnState (c : Ctrl) : U8 :=
  if c.irLearnState = .success then 0#8
  else if c.irLearnState.code < LearnState.success.code then 1#8
  else c.irLearnState.code

/-- The edge is the last of ten intervals that were all 0. -/
def Ctrl.TenthZero (c : Ctrl) (tm : U32) : Prop :=
  c.Recording ∧ c.carrCheckCnt + 1 = irCarrCheckCnt ∧ c.carrCycleInterval = 0#32 ∧
    tm = c.lastTriggerTmPoint

instance (c : Ctrl) (tm : U32) : Decidable (c.TenthZero tm) :=
  inferInstanceAs (Decidable (_ ∧ _ ∧ _ ∧ _))

/-- The carrier cycle is 0 behind ten intervals of 0, and otherwise only while no entry but the
first has been opened and fewer than ten intervals were taken. -/
structure Zeros (c : Ctrl) (zeros : Bool) : Prop where
  all : zeros = true → c.carrCycleInterval = 0#32 ∧ c.carrCheckCnt = irCarrCheckCnt
  cnt : zeros = false → c.carrCycleInterval = 0#32 → c.waveSeriesCnt = 0#16
  check : zeros = false → c.carrCycleInterval = 0#32 → c.carrCheckCnt < irCarrCheckCnt
  state : zeros = false → c.carrCycleInterval = 0#32 → c.irLearnState ≠ .success
  recording : zeros = false → c.carrCycleInterval = 0#32 → c.Recording →
    (c.irEnterIrqCnt.toNat ≤ 1 ∧ c.carrCheckCnt = 0#8) ∨
      (c.carrOrNot = true ∧ c.irEnterIrqCnt.toNat = c.carrCheckCnt.toNat + 2)

section zeros

variable {c : Ctrl} {z : Bool}

theorem zeros_start (now : U32) : Zeros (irLearnStart now) false where
  all := fun h => absurd h (by decide)
  cnt := fun _ _ => rfl
  check := fun _ _ => (by decide : 0#8 < irCarrCheckCnt)
  state := fun _ _ => (by decide : LearnState.waitKey ≠ .success)
  recording := fun _ _ _ => .inl ⟨Nat.zero_le 1, rfl⟩

/-- In a recording that succeeded. -/
theorem Zeros.success (h : Zeros c z) (hsuccess : c.irLearnState = .success) :
    c.carrCycleInterval ≠ 0#32 ↔ z = false := by
  constructor
  · intro hcycle
    cases z with
    | false => rfl
    | true => exact absurd (h.all rfl).1 hcycle
  · rintro hz hcycle
    exact h.state hz hcycle hsuccess

/-- The end of `ir_record` keeps a carrier cycle. -/
theorem cycle_close (hcycle : c.carrCycleInterval ≠ 0#32) : c.close.carrCycleInterval ≠ 0#32 := by
  rw [close_eq]
  dsimp only
  rw [Ctrl.cycleAfter]
  split_ifs with hless
  · have hlt := hless.2
    bv_omega
  · exact hcycle

/-- An interval that is not 0, among the first ten. -/
theorem cycle_taken (hcheck : c.carrCheckCnt < irCarrCheckCnt) (hinterval : c.timeInterval ≠ 0#32) :
    c.close.carrCycleInterval ≠ 0#32 := by
  rw [close_eq]
  dsimp only
  rw [Ctrl.cycleAfter]
  split_ifs with hless
  · exact hinterval
  · intro hcycle
    refine hless ⟨hcheck, ?_⟩
    rw [hcycle]
    bv_omega

/-- Behind the first ten intervals, the carrier cycle is kept. -/
theorem close_checked (hcheck : c.carrCheckCnt = irCarrCheckCnt) :
    c.close.carrCycleInterval = c.carrCycleInterval ∧ c.close.carrCheckCnt = c.carrCheckCnt := by
  have hless : ¬c.carrCheckCnt < irCarrCheckCnt := by
    rw [hcheck]
    decide
  rw [close_eq]
  exact ⟨if_neg fun h => hless h.1, if_neg hless⟩

/-- The edge ends a gap, and so did the one before. -/
def Ctrl.SecondGap (c : Ctrl) : Prop :=
  irLearnIntervalThreshold < c.timeInterval ∧ c.timeInterval < irLearnEndThreshold ∧
    c.carrOrNot = false

instance (c : Ctrl) : Decidable c.SecondGap := inferInstanceAs (Decidable (_ ∧ _ ∧ _))

/-- **The other edges**, as far as the carrier cycle is concerned: the recording fails at a second
gap, or the end of `ir_record` is reached with the cycle as it was. -/
theorem otherEdge_closes (c : Ctrl) (tm : U32) :
    (c.SecondGap ∧ c.otherEdge tm = { c with irLearnState := .failTwoLongNoCarrier }) ∨
    (¬c.SecondGap ∧ ∃ d : Ctrl, c.otherEdge tm = d.close ∧
      d.carrCycleInterval = c.carrCycleInterval ∧ d.carrCheckCnt = c.carrCheckCnt ∧
      d.timeInterval = c.timeInterval) := by
  rcases otherEdge_cases c tm with ⟨hless, hother⟩ | ⟨-, -, hcarr, hother⟩ |
    ⟨hgap, hend, hcarr, hother⟩ | ⟨hend, hother⟩ | ⟨heq, hother⟩
  · refine .inr ⟨fun h => BitVec.lt_asymm hless h.1, _, hother, ?_⟩
    rw [carrier_eq]
    exact ⟨rfl, rfl, rfl⟩
  · exact .inr ⟨fun h => Bool.false_ne_true (h.2.2.symm.trans hcarr), _, hother, rfl, rfl, rfl⟩
  · exact .inl ⟨⟨hgap, hend, hcarr⟩, hother⟩
  · exact .inr ⟨fun h => BitVec.lt_asymm hend h.2.1, _, hother, rfl, rfl, rfl⟩
  · refine .inr ⟨fun h => ?_, _, hother, rfl, rfl, rfl⟩
    rcases heq with heq | heq
    · exact BitVec.lt_irrefl _ (heq ▸ h.1)
    · exact BitVec.lt_irrefl _ (heq ▸ h.2.1)

theorem edge_checked (hcheck : c.carrCheckCnt = irCarrCheckCnt) (tm : U32) :
    (irLearnIrqHandler c tm).carrCycleInterval = c.carrCycleInterval ∧
      (irLearnIrqHandler c tm).carrCheckCnt = c.carrCheckCnt := by
  by_cases hrec : c.Recording
  · rcases edge_cases hrec tm with ⟨-, hedge⟩ | ⟨-, hedge⟩ | ⟨-, -, hedge⟩
    · rw [hedge]
      exact ⟨rfl, rfl⟩
    · rw [hedge, Ctrl.secondEdge]
      split_ifs
      · exact ⟨rfl, rfl⟩
      · exact ⟨rfl, rfl⟩
    · rw [hedge]
      rcases otherEdge_closes (c.count tm) tm with ⟨-, hother⟩ | ⟨-, d, hother, hcycle, hd, -⟩
      · rw [hother]
        exact ⟨rfl, rfl⟩
      · obtain ⟨hcycle', hcheck'⟩ := close_checked (hd.trans hcheck)
        rw [hother]
        exact ⟨hcycle'.trans hcycle, hcheck'.trans hd⟩
  · rw [edge_stopped hrec]
    exact ⟨rfl, rfl⟩

theorem edge_cycle (hcycle : c.carrCycleInterval ≠ 0#32) (tm : U32) :
    (irLearnIrqHandler c tm).carrCycleInterval ≠ 0#32 := by
  by_cases hrec : c.Recording
  · rcases edge_cases hrec tm with ⟨-, hedge⟩ | ⟨-, hedge⟩ | ⟨-, -, hedge⟩
    · rw [hedge]
      exact hcycle
    · rw [hedge, Ctrl.secondEdge]
      split_ifs
      · exact hcycle
      · exact hcycle
    · rw [hedge]
      rcases otherEdge_closes (c.count tm) tm with ⟨-, hother⟩ | ⟨-, d, hother, hd, -, -⟩
      · rw [hother]
        exact hcycle
      · rw [hother]
        exact cycle_close (hd.trans_ne hcycle)
  · rw [edge_stopped hrec]
    exact hcycle

/-- With a carrier cycle there is nothing to show. -/
theorem Zeros.of_cycle (hcycle : c.carrCycleInterval ≠ 0#32) : Zeros c false where
  all := fun h => absurd h (by decide)
  cnt := fun _ h => absurd h hcycle
  check := fun _ h => absurd h hcycle
  state := fun _ h => absurd h hcycle
  recording := fun _ h => absurd h hcycle

/-- The recording has failed. -/
theorem Zeros.failed (h : Zeros c z) {d : Ctrl} (hcycle : d.carrCycleInterval = c.carrCycleInterval)
    (hcheck : d.carrCheckCnt = c.carrCheckCnt) (hcnt : d.waveSeriesCnt = c.waveSeriesCnt)
    (hlater : LearnState.success.code < d.irLearnState.code) : Zeros d z where
  all := by
    rw [hcycle, hcheck]
    exact h.all
  cnt := by
    rw [hcycle, hcnt]
    exact h.cnt
  check := by
    rw [hcycle, hcheck]
    exact h.check
  state := by
    intro _ _ hd
    rw [hd] at hlater
    exact absurd hlater (by decide)
  recording := by
    rintro _ _ (hd | hd)
    · rw [hd] at hlater
      exact absurd hlater (by decide)
    · rw [hd] at hlater
      exact absurd hlater (by decide)

/-- An interval of 0 is one of the carrier. -/
theorem zero_edge (hcycle : c.carrCycleInterval = 0#32) (hcnt : c.waveSeriesCnt = 0#16)
    (hcheck : c.carrCheckCnt < irCarrCheckCnt) (hcarr : c.carrOrNot = true)
    (hinterval : c.timeInterval = 0#32) (tm : U32) :
    (c.otherEdge tm).carrCycleInterval = 0#32 ∧
      (c.otherEdge tm).carrCheckCnt = c.carrCheckCnt + 1 ∧
      (c.otherEdge tm).waveSeriesCnt = 0#16 ∧ (c.otherEdge tm).carrOrNot = true ∧
      (c.otherEdge tm).irLearnState = c.irLearnState := by
  have hindex : c.carrierIndex = 0#16 := by
    rw [Ctrl.carrierIndex, hcarr, if_neg (by decide), hcnt]
  rw [Ctrl.otherEdge, hinterval, if_pos (by decide), close_eq, carrier_eq, hindex]
  refine ⟨?_, if_pos hcheck, rfl, rfl, rfl⟩
  rw [Ctrl.cycleAfter]
  dsimp only
  rw [hinterval, hcycle, ite_self]

/-- One of the other edges, before there is a carrier cycle. -/
theorem Zeros.other (h : Zeros c false) (hcycle : c.carrCycleInterval = 0#32) (hrec : c.Recording)
    (hcarr : c.carrOrNot = true) (hirq : c.irEnterIrqCnt.toNat = c.carrCheckCnt.toNat + 2)
    (tm : U32) : Zeros ((c.count tm).otherEdge tm) (decide (c.TenthZero tm)) := by
  have hcheck := h.check rfl hcycle
  by_cases htm : tm = c.lastTriggerTmPoint
  · have hinterval : (c.count tm).timeInterval = 0#32 := by
      change tm - c.lastTriggerTmPoint = 0#32
      rw [htm, BitVec.sub_self]
    obtain ⟨hcycle', hcheck', hcnt', hcarr', hstate'⟩ :=
      zero_edge (c := c.count tm) hcycle (h.cnt rfl hcycle) hcheck hcarr hinterval tm
    have hirq' := (otherEdge_keeps (c.count tm) tm).irEnterIrqCnt
    change _ = c.carrCheckCnt + 1 at hcheck'
    change _ = c.irEnterIrqCnt + 1 at hirq'
    by_cases hten : c.carrCheckCnt + 1 = irCarrCheckCnt
    · rw [decide_eq_true (show c.TenthZero tm from ⟨hrec, hten, hcycle, htm⟩)]
      exact ⟨fun _ => ⟨hcycle', hcheck'.trans hten⟩, nofun, nofun, nofun, nofun⟩
    · have hless : c.carrCheckCnt.toNat + 1 < 10 := by
        rw [irCarrCheckCnt] at hcheck hten
        bv_omega
      rw [decide_eq_false fun ht => hten ht.2.1]
      refine ⟨nofun, fun _ _ => hcnt', fun _ _ => ?_, fun _ _ => ?_, fun _ _ _ =>
        .inr ⟨hcarr', ?_⟩⟩
      · rw [hcheck', irCarrCheckCnt]
        bv_omega
      · rw [hstate']
        exact h.state rfl hcycle
      · rw [hirq', hcheck']
        bv_omega
  · have hinterval : (c.count tm).timeInterval ≠ 0#32 := by
      change tm - c.lastTriggerTmPoint ≠ 0#32
      bv_omega
    rw [decide_eq_false fun ht => htm ht.2.2.2]
    rcases otherEdge_closes (c.count tm) tm with ⟨hgap, -⟩ |
        ⟨-, d, hother, -, hd, htime⟩
    · exact absurd (hgap.2.2.symm.trans hcarr) (by decide)
    · rw [hother]
      exact .of_cycle (cycle_taken (hd ▸ hcheck) (htime.trans_ne hinterval))

/-- **One edge.** -/
theorem Zeros.edge (h : Zeros c z) (tm : U32) :
    Zeros (irLearnIrqHandler c tm) (z || decide (c.TenthZero tm)) := by
  cases z with
  | true =>
      obtain ⟨hcycle, hcheck⟩ := h.all rfl
      obtain ⟨hcycle', hcheck'⟩ := edge_checked hcheck tm
      rw [Bool.true_or]
      exact ⟨fun _ => ⟨hcycle'.trans hcycle, hcheck'.trans hcheck⟩, nofun, nofun, nofun, nofun⟩
  | false =>
      rw [Bool.false_or]
      by_cases hcycle : c.carrCycleInterval = 0#32
      · by_cases hrec : c.Recording
        · have hpast := h.recording rfl hcycle hrec
          -- The first two edges come before any interval was taken.
          have hfirst : c.irEnterIrqCnt.toNat ≤ 1 → c.carrCheckCnt = 0#8 ∧ ¬c.TenthZero tm := by
            intro hle
            obtain ⟨-, hnone⟩ := hpast.resolve_right (by omega)
            refine ⟨hnone, fun ht => ?_⟩
            have hten := ht.2.1
            rw [hnone] at hten
            exact absurd hten (by decide)
          rcases edge_cases hrec tm with ⟨h₁, hedge⟩ | ⟨h₂, hedge⟩ | ⟨h₁, h₂, hedge⟩
          · obtain ⟨hnone, htenth⟩ := hfirst (by bv_omega)
            rw [hedge, decide_eq_false htenth]
            refine ⟨nofun, fun _ _ => h.cnt rfl hcycle, fun _ _ => h.check rfl hcycle,
              fun _ _ => ?_, fun _ _ _ => .inl ⟨?_, hnone⟩⟩
            · exact (by decide : LearnState.begin ≠ .success)
            · exact (congrArg BitVec.toNat h₁).le
          · obtain ⟨hnone, htenth⟩ := hfirst (by bv_omega)
            rw [hedge, decide_eq_false htenth, Ctrl.secondEdge]
            split_ifs
            · exact h.failed rfl rfl rfl
                (by decide : LearnState.success.code < LearnState.failFirstIntervalTooLong.code)
            · refine ⟨nofun, fun _ _ => h.cnt rfl hcycle, fun _ _ => h.check rfl hcycle,
                fun _ _ => h.state rfl hcycle, fun _ _ _ => .inr ⟨rfl, ?_⟩⟩
              change (c.irEnterIrqCnt + 1).toNat = c.carrCheckCnt.toNat + 2
              rw [h₂, hnone]
              rfl
          · obtain ⟨hcarr, hirq⟩ := hpast.resolve_left fun hle => by bv_omega
            rw [hedge]
            exact h.other hcycle hrec hcarr hirq tm
        · rw [edge_stopped hrec, decide_eq_false fun ht => hrec ht.1]
          exact h
      · rw [decide_eq_false fun ht => hcycle ht.2.2.1]
        exact .of_cycle (edge_cycle hcycle tm)

/-- **One call of `ir_learn_detect`.** -/
theorem Zeros.detect (h : Zeros c z) (now : U32) : Zeros (irLearnDetect c now) z := by
  rcases detect_cases c now with ⟨-, hdetect⟩ | ⟨-, hmany, hdetect⟩ | ⟨-, hdetect⟩ | hdetect
  · rw [hdetect]
    exact h.failed rfl rfl rfl
      (by decide : LearnState.success.code < LearnState.failWaitOverTime.code)
  · rw [hdetect]
    cases z with
    | true => exact ⟨h.all, nofun, nofun, nofun, nofun⟩
    | false =>
        refine .of_cycle fun hcycle => ?_
        rw [h.cnt rfl hcycle] at hmany
        exact absurd hmany (by decide)
  · rw [hdetect]
    exact h.failed rfl rfl rfl
      (by decide : LearnState.success.code < LearnState.failWaveNumTooFew.code)
  · rw [hdetect]
    exact h

/-- An edge does not end a recording with success. -/
theorem edge_not_success (hstate : c.irLearnState ≠ .success) (tm : U32) :
    (irLearnIrqHandler c tm).irLearnState ≠ .success := by
  have hclose : ∀ d : Ctrl, d.irLearnState ≠ .success → d.close.irLearnState ≠ .success := by
    intro d hd
    rw [close_eq]
    dsimp only
    split_ifs
    · decide
    · exact hd
  by_cases hrec : c.Recording
  · rcases edge_cases hrec tm with ⟨-, hedge⟩ | ⟨-, hedge⟩ | ⟨-, -, hedge⟩
    · rw [hedge]
      exact (by decide : LearnState.begin ≠ .success)
    · rw [hedge, Ctrl.secondEdge]
      split_ifs
      · exact (by decide : LearnState.failFirstIntervalTooLong ≠ .success)
      · exact hstate
    · rw [hedge]
      rcases otherEdge_cases (c.count tm) tm with ⟨-, hother⟩ | ⟨-, -, -, hother⟩ |
        ⟨-, -, -, hother⟩ | ⟨-, hother⟩ | ⟨-, hother⟩
      · rw [hother]
        refine hclose _ ?_
        rw [carrier_eq]
        exact hstate
      · rw [hother]
        exact hclose _ hstate
      · rw [hother]
        exact (by decide : LearnState.failTwoLongNoCarrier ≠ .success)
      · rw [hother]
        exact hclose _ (by decide : LearnState.sampleEnd ≠ .success)
      · rw [hother]
        exact hclose _ hstate
  · rw [edge_stopped hrec]
    exact hstate

theorem getIrLearnState_eq_zero : getIrLearnState c = 0#8 ↔ c.irLearnState = .success := by
  rw [getIrLearnState]
  cases c.irLearnState <;> decide

end zeros

end TelinkB91.Ir
