import Mathlib.Data.BitVec
import TelinkB91.Keyboard.KeyChange
import TelinkB91.Lib.Runs

/-!
# Keyboard — the two buttons of the BLE sample

`proc_button` samples the buttons every 10 ms.  A sample goes into a history of four, and is
accepted when the last three agree and differ from the value accepted before.  One button sends its
volume key and both send nothing; no button sends the release, if a key has been sent.

* `procButton_cases`: what one call does with its sample.
* `Ui.change_spec`: what is done for a value that is accepted.
* `Ui.Follows.step`: what one call keeps.
* `button_follows`: in every run the accepted value is the filtered one, `button_not_released` goes
  with it, and once no button is accepted the last report sent is the release.
-/

namespace TelinkB91.Keyboard.Button
open Runs

abbrev U32 := BitVec 32

/-- `MAX_BTN_SIZE`. -/
def maxBtnSize : Nat := 2

/-- `BTN_VALID_LEVEL`. -/
def btnValidLevel : Bool := false

def userBtn1 : U8 := 0x01#8

def userBtn2 : U8 := 0x02#8

/-- `btn_map`. -/
def btnMap : List U8 := [userBtn1, userBtn2]

/-- `vc_data_t`. -/
structure VcData where
  cnt : U8
  btnPress : U8
  keycode : List U8
  deriving DecidableEq, Repr

/-- `btn_history`, the newest sample first. -/
structure History where
  h0 : U8
  h1 : U8
  h2 : U8
  h3 : U8
  deriving DecidableEq, Repr

/-- The variables of the button part of `app_ui.c`.  `samples` records the samples, `accepted` the
changes processed and `notified` the consumer reports, each oldest first. -/
structure Ui where
  buttonDetTick : U32
  latestUserEventTick : U32
  buttonNotReleased : Int
  button0PressFlag : Int
  button0PressTick : U32
  button1PressFlag : Int
  button1PressTick : U32
  consumerReport : Int
  vcEvent : VcData
  btnHistory : History
  btnFilterLast : U8
  samples : List U8
  accepted : List U8
  notified : List U16
  deriving DecidableEq, Repr

/-- Every variable is zero. -/
def Ui.boot : Ui :=
  ⟨0#32, 0#32, 0, 0, 0#32, 0, 0#32, 0, ⟨0#8, 0#8, [0#8, 0#8]⟩, ⟨0#8, 0#8, 0#8, 0#8⟩, 0#8,
    [], [], []⟩

/-- `clock_time_exceed`, with the reading of the timer. -/
def clockTimeExceed (now ref us : U32) : Bool := now - ref > us * 16#32

/-- A call of `proc_button`: the readings of the timer it takes, and the levels of the pins. -/
structure Call where
  clock : Nat → U32
  level : Nat → Bool

/-- `vc_event.btn_press` after the loop over the pins. -/
def Call.btnPress (c : Call) : U8 :=
  (List.range maxBtnSize).foldl
    (fun press i => if btnValidLevel != !c.level i then press ||| 1#8 <<< i else press) 0#8

/-- `btn_debounce_filter`. -/
def btnDebounceFilter (s : Ui) (v : U8) : Bool × Ui :=
  let h := s.btnHistory
  let s := { s with btnHistory := ⟨v, h.h0, h.h1, h.h2⟩, samples := s.samples ++ [v] }
  if s.btnHistory.h0 = s.btnHistory.h1 ∧ s.btnHistory.h1 = s.btnHistory.h2 ∧
      s.btnHistory.h0 ≠ s.btnFilterLast then
    (true, { s with btnFilterLast := s.btnHistory.h0 })
  else (false, s)

/-- `vc_event` after the loop over the buttons that are down. -/
def VcData.keys (e : VcData) : VcData :=
  (List.range maxBtnSize).foldl
    (fun e i =>
      if e.btnPress.getLsbD i then
        { e with keycode := e.keycode.set e.cnt.toNat (btnMap[i]?.getD 0#8), cnt := e.cnt + 1#8 }
      else e) e

/-- `vc_detect_button`. -/
def vcDetectButton (s : Ui) (readKey : Bool) (c : Call) : Bool × Ui :=
  let s := { s with vcEvent := ⟨0#8, c.btnPress, [0#8, 0#8]⟩ }
  let t := btnDebounceFilter s s.vcEvent.btnPress
  if t.1 ∧ readKey then (true, { t.2 with vcEvent := t.2.vcEvent.keys })
  else (false, t.2)

/-- `blc_gatt_pushHandleValueNotify` on `HID_CONSUME_REPORT_INPUT_DP_H`, which succeeds. -/
def Ui.notify (s : Ui) (consumerKey : U16) : Ui :=
  { s with notified := s.notified ++ [consumerKey] }

/-- The part of `proc_button` for a change. -/
def Ui.change (s : Ui) (c : Call) : Ui :=
  let s := { s with
    latestUserEventTick := c.clock 2
    buttonNotReleased := 1
    accepted := s.accepted ++ [s.vcEvent.btnPress] }
  let key0 := s.vcEvent.keycode[0]?.getD 0#8
  if s.vcEvent.cnt = 2#8 then s
  else if s.vcEvent.cnt = 1#8 then
    if key0 = userBtn1 then
      let s := { s with button0PressFlag := 1, button0PressTick := c.clock 3 }
      { s.notify mkeyVolUp with consumerReport := 1 }
    else if key0 = userBtn2 then
      let s := { s with button1PressFlag := 1, button1PressTick := c.clock 3 }
      { s.notify mkeyVolDn with consumerReport := 1 }
    else s
  else
    let s := { s with buttonNotReleased := 0, button0PressFlag := 0, button1PressFlag := 0 }
    if s.consumerReport ≠ 0 then { s with consumerReport := 0 }.notify 0#16 else s

/-- The time since the last sample is up. -/
def Ui.Due (s : Ui) (c : Call) : Prop :=
  clockTimeExceed (c.clock 0) s.buttonDetTick (10 * 1000) = true

instance (s : Ui) (c : Call) : Decidable (s.Due c) := inferInstanceAs (Decidable (_ = _))

/-- `proc_button`. -/
def procButton (s : Ui) (c : Call) : Ui :=
  if s.Due c then
    let s := { s with buttonDetTick := c.clock 1 }
    let t := vcDetectButton s true c
    if t.1 then t.2.change c else t.2
  else s

/-! ### One call -/

/-- The value of the last change processed. -/
def Ui.lastAccepted (s : Ui) : U8 := s.accepted.getLast?.getD 0#8

/-- The last report sent, if any, is the release. -/
def Ui.Released (s : Ui) : Prop := ∀ r, s.notified.getLast? = some r → r = 0#16

/-- The state with a new sample. -/
def Ui.sampled (s : Ui) (c : Call) : Ui :=
  { s with
    buttonDetTick := c.clock 1
    vcEvent := ⟨0#8, c.btnPress, [0#8, 0#8]⟩
    btnHistory := ⟨c.btnPress, s.btnHistory.h0, s.btnHistory.h1, s.btnHistory.h2⟩
    samples := s.samples ++ [c.btnPress] }

/-- The sample agrees with the two before it, and not with the value accepted last. -/
def Ui.Settles (s : Ui) (c : Call) : Prop :=
  c.btnPress = s.btnHistory.h0 ∧ s.btnHistory.h0 = s.btnHistory.h1 ∧ c.btnPress ≠ s.btnFilterLast

/-- The state with the new sample accepted. -/
def Ui.settled (s : Ui) (c : Call) : Ui :=
  { s.sampled c with
    btnFilterLast := c.btnPress
    vcEvent := (⟨0#8, c.btnPress, [0#8, 0#8]⟩ : VcData).keys }

/-- A call that is not due does nothing; another one takes a sample, and processes a change if the
sample settles. -/
theorem procButton_cases (s : Ui) (c : Call) :
    (¬s.Due c ∧ procButton s c = s) ∨
    (s.Due c ∧ ¬s.Settles c ∧ procButton s c = s.sampled c) ∨
    (s.Due c ∧ s.Settles c ∧ procButton s c = (s.settled c).change c) := by
  by_cases hdue : s.Due c
  · by_cases hsettles : s.Settles c
    · refine .inr (.inr ⟨hdue, hsettles, ?_⟩)
      rw [Ui.Settles] at hsettles
      rw [procButton, if_pos hdue]
      simp only [vcDetectButton, btnDebounceFilter, if_pos hsettles]
      rfl
    · refine .inr (.inl ⟨hdue, hsettles, ?_⟩)
      rw [Ui.Settles] at hsettles
      rw [procButton, if_pos hdue]
      simp only [vcDetectButton, btnDebounceFilter, if_neg hsettles]
      rfl
  · refine .inl ⟨hdue, ?_⟩
    rw [procButton, if_neg hdue]

/-- Two buttons make four samples. -/
theorem Call.btnPress_cases (c : Call) :
    c.btnPress = 0#8 ∨ c.btnPress = 1#8 ∨ c.btnPress = 2#8 ∨ c.btnPress = 3#8 := by
  have hpress : c.btnPress =
      (if c.level 0 then 0#8 else 1#8) ||| (if c.level 1 then 0#8 else 2#8) := by
    rw [btnPress]
    cases h0 : c.level 0 <;> cases h1 : c.level 1 <;>
      simp [maxBtnSize, List.range_succ, btnValidLevel, h0, h1]
  rw [hpress]
  cases c.level 0 <;> cases c.level 1 <;> simp

@[simp] theorem VcData.keys_btnPress (e : VcData) : e.keys.btnPress = e.btnPress := by
  simp only [keys, maxBtnSize, List.range_succ, List.range_zero, List.nil_append, List.foldl_append,
    List.foldl_cons, List.foldl_nil]
  split_ifs <;> rfl

theorem Ui.settled_btnPress (s : Ui) (c : Call) : (s.settled c).vcEvent.btnPress = c.btnPress :=
  VcData.keys_btnPress _

@[simp] theorem Ui.change_samples (s : Ui) (c : Call) : (s.change c).samples = s.samples := by
  simp only [change, notify]
  split_ifs <;> rfl

@[simp] theorem Ui.change_btnHistory (s : Ui) (c : Call) :
    (s.change c).btnHistory = s.btnHistory := by
  simp only [change, notify]
  split_ifs <;> rfl

@[simp] theorem Ui.change_btnFilterLast (s : Ui) (c : Call) :
    (s.change c).btnFilterLast = s.btnFilterLast := by
  simp only [change, notify]
  split_ifs <;> rfl

@[simp] theorem Ui.change_accepted (s : Ui) (c : Call) :
    (s.change c).accepted = s.accepted ++ [s.vcEvent.btnPress] := by
  simp only [change, notify]
  split_ifs <;> rfl

/-- **A value that is accepted.**  `button_not_released` goes with it, no button clears
`consumer_report`, and while `consumer_report` is clear the last report is the release. -/
theorem Ui.change_spec (s : Ui) (c : Call) (hs : s.consumerReport = 0 → s.Released) :
    (((s.settled c).change c).buttonNotReleased = 0 ↔ c.btnPress = 0#8) ∧
    (c.btnPress = 0#8 → ((s.settled c).change c).consumerReport = 0) ∧
    (((s.settled c).change c).consumerReport = 0 → ((s.settled c).change c).Released) := by
  have hevent : (s.settled c).vcEvent = (⟨0#8, c.btnPress, [0#8, 0#8]⟩ : VcData).keys := rfl
  have hreport : (s.settled c).consumerReport = s.consumerReport := rfl
  have hnotified : (s.settled c).notified = s.notified := rfl
  generalize s.settled c = t at hevent hreport hnotified
  rcases c.btnPress_cases with h | h | h | h
  · -- No button: the release is sent if a key has been.
    have hkeys : t.vcEvent = ⟨0#8, 0#8, [0#8, 0#8]⟩ := by
      rw [hevent, h]
      rfl
    by_cases hsent : s.consumerReport = 0
    · have hchange : t.change c = { t with
          latestUserEventTick := c.clock 2, buttonNotReleased := 0, button0PressFlag := 0,
          button1PressFlag := 0, accepted := t.accepted ++ [0#8] } := by
        simp [change, hkeys, hreport, hsent]
      rw [hchange, h]
      refine ⟨by simp, fun _ => hreport.trans hsent, ?_⟩
      intro _
      rw [Released, hnotified]
      exact hs hsent
    · have hchange : (t.change c).buttonNotReleased = 0 ∧ (t.change c).consumerReport = 0 ∧
          (t.change c).notified = t.notified ++ [0#16] := by
        simp [change, hkeys, hreport, hsent, notify]
      refine ⟨by simp [hchange.1, h], fun _ => hchange.2.1, ?_⟩
      intro _ r hr
      rw [hchange.2.2, List.getLast?_concat] at hr
      exact (Option.some.inj hr).symm
  · -- One button: its key is sent, and remembered.
    have hkeys : t.vcEvent = ⟨1#8, 1#8, [1#8, 0#8]⟩ := by
      rw [hevent, h]
      rfl
    have hchange : (t.change c).buttonNotReleased = 1 ∧ (t.change c).consumerReport = 1 := by
      simp [change, hkeys, userBtn1, notify]
    simp [hchange, h]
  · have hkeys : t.vcEvent = ⟨1#8, 2#8, [2#8, 0#8]⟩ := by
      rw [hevent, h]
      rfl
    have hchange : (t.change c).buttonNotReleased = 1 ∧ (t.change c).consumerReport = 1 := by
      simp [change, hkeys, userBtn1, userBtn2, notify]
    simp [hchange, h]
  · -- Both buttons send nothing.
    have hkeys : t.vcEvent = ⟨2#8, 3#8, [1#8, 2#8]⟩ := by
      rw [hevent, h]
      rfl
    have hchange : (t.change c).buttonNotReleased = 1 ∧
        (t.change c).consumerReport = s.consumerReport ∧ (t.change c).notified = s.notified := by
      simp [change, hkeys, hreport, hnotified]
    refine ⟨by simp [hchange.1, h], by simp [h], ?_⟩
    intro hzero
    rw [Released, hchange.2.2]
    exact hs (hchange.2.1.symm.trans hzero)

/-! ### A run -/

/-- What every call keeps. -/
structure Ui.Follows (s : Ui) : Prop where
  /-- The history is the samples, newest first, after zeros. -/
  history : ∃ older, s.samples.reverse ++ [0#8, 0#8, 0#8] =
    s.btnHistory.h0 :: s.btnHistory.h1 :: s.btnHistory.h2 :: older
  last : s.btnFilterLast = s.lastAccepted
  three : s.accepted ≠ [] → 3 ≤ s.samples.length
  pressed : s.buttonNotReleased = 0 ↔ s.btnFilterLast = 0#8
  latch : s.btnFilterLast = 0#8 → s.consumerReport = 0
  released : s.consumerReport = 0 → s.Released

theorem Ui.Follows.boot : Ui.boot.Follows := by
  refine ⟨⟨[], rfl⟩, rfl, fun h => absurd rfl h, by decide, fun _ => rfl, ?_⟩
  intro _ r hr
  exact absurd hr (by simp [Ui.boot])

/-- **A sample settles** just when it and the two before it agree on a value that is not the one
accepted last. -/
theorem Ui.Follows.settles_iff {s : Ui} (hs : s.Follows) (c : Call) : s.Settles c ↔
    [c.btnPress, c.btnPress, c.btnPress] <:+ s.samples ++ [c.btnPress] ∧
      c.btnPress ≠ s.lastAccepted := by
  obtain ⟨older, hhist⟩ := hs.history
  -- With fewer than two samples nothing is accepted, and the history has zeros.
  have hfew (h : s.samples.length < 2) : s.lastAccepted = 0#8 := by
    have hnone : s.accepted = [] := by
      by_contra hne
      exact absurd (hs.three hne) (by omega)
    rw [lastAccepted, hnone]
    rfl
  rw [Settles, hs.last, ← List.reverse_prefix]
  simp only [List.reverse_append, List.reverse_cons, List.reverse_nil, List.nil_append,
    List.cons_append, List.cons_prefix_cons, true_and]
  rw [← List.length_reverse] at hfew
  generalize s.samples.reverse = rev at hhist hfew ⊢
  match rev, hhist, hfew with
  | [], hhist, hfew =>
      obtain ⟨h0, h1, -⟩ := List.cons.inj hhist |>.imp id List.cons.inj
      rw [hfew (by decide), ← h0]
      simp only [List.prefix_nil, reduceCtorEq, false_and, iff_false]
      rintro ⟨hv, -, hne⟩
      exact hne hv
  | [a], hhist, hfew =>
      obtain ⟨h0, h1, -⟩ := List.cons.inj hhist |>.imp id List.cons.inj
      rw [hfew (Nat.lt_succ_self 1), ← h1]
      simp only [List.cons_prefix_cons, List.prefix_nil, reduceCtorEq, and_false, false_and,
        iff_false]
      rintro ⟨hv, hz, hne⟩
      exact hne (hv.trans hz)
  | a :: b :: r, hhist, _ =>
      obtain ⟨h0, h1, -⟩ := List.cons.inj hhist |>.imp id List.cons.inj
      rw [← h0, ← h1]
      simp only [List.cons_prefix_cons, List.nil_prefix, and_true]
      constructor
      · rintro ⟨rfl, rfl, hne⟩
        exact ⟨⟨rfl, rfl⟩, hne⟩
      · rintro ⟨⟨rfl, rfl⟩, hne⟩
        exact ⟨rfl, rfl, hne⟩

/-- What a sample adds to the history. -/
theorem Ui.Follows.sampled {s : Ui} (hs : s.Follows) (c : Call) : ∃ older,
    (s.samples ++ [c.btnPress]).reverse ++ [0#8, 0#8, 0#8] =
      c.btnPress :: s.btnHistory.h0 :: s.btnHistory.h1 :: older := by
  obtain ⟨older, hhist⟩ := hs.history
  refine ⟨s.btnHistory.h2 :: older, ?_⟩
  rw [List.reverse_append, List.reverse_singleton, List.singleton_append, List.cons_append, hhist]

/-- **One call** keeps all of it. -/
theorem Ui.Follows.step {s : Ui} (hs : s.Follows) (c : Call) : (procButton s c).Follows := by
  rcases procButton_cases s c with ⟨-, h⟩ | ⟨-, -, h⟩ | ⟨-, hsettles, h⟩
  · rw [h]
    exact hs
  · rw [h]
    refine ⟨hs.sampled c, hs.last, ?_, hs.pressed, hs.latch, hs.released⟩
    intro hne
    refine (hs.three hne).trans ?_
    rw [Ui.sampled, List.length_append]
    exact Nat.le_add_right _ _
  · obtain ⟨hpressed, hlatch, hreleased⟩ := Ui.change_spec s c hs.released
    have hlast : ((s.settled c).change c).btnFilterLast = c.btnPress := by
      rw [change_btnFilterLast]
      rfl
    rw [h]
    refine ⟨?_, ?_, ?_, ?_, ?_, hreleased⟩
    · rw [change_samples, change_btnHistory]
      exact hs.sampled c
    · rw [hlast, lastAccepted, change_accepted, List.getLast?_concat, settled_btnPress]
      rfl
    · intro _
      obtain ⟨hsuffix, -⟩ := (hs.settles_iff c).mp hsettles
      rw [change_samples]
      exact hsuffix.length_le
    · rw [hlast]
      exact hpressed
    · rw [hlast]
      exact hlatch

/-- **The buttons.**  In every run of `proc_button`, a call that is due takes a sample; it processes
a change just when the last three samples agree on a value other than the last one accepted, and
accepts that value.  After every call `button_not_released` is 0 just when the value accepted last
has no button, and then the last report sent, if any, is the release. -/
theorem button_follows (calls : List Call) (c : Call) :
    let s := runFrom procButton Ui.boot calls
    let s' := procButton s c
    s'.samples = (if s.Due c then s.samples ++ [c.btnPress] else s.samples) ∧
    s'.accepted = (if s.Due c ∧ [c.btnPress, c.btnPress, c.btnPress] <:+ s'.samples ∧
      c.btnPress ≠ s.lastAccepted then s.accepted ++ [c.btnPress] else s.accepted) ∧
    (s'.buttonNotReleased = 0 ↔ s'.lastAccepted = 0#8) ∧
    (s'.lastAccepted = 0#8 → s'.Released) := by
  intro s s'
  have hs : s.Follows := invariant (fun _ c h => h.step c) Ui.Follows.boot calls
  have hs' : s'.Follows := hs.step c
  have hsettles := hs.settles_iff c
  refine ⟨?_, ?_, ?_, ?_⟩
  · rcases procButton_cases s c with ⟨hdue, h⟩ | ⟨hdue, -, h⟩ | ⟨hdue, -, h⟩
    · rw [if_neg hdue]
      exact congrArg Ui.samples h
    · rw [if_pos hdue]
      exact congrArg Ui.samples h
    · rw [if_pos hdue]
      exact (congrArg Ui.samples h).trans (Ui.change_samples _ _)
  · rcases procButton_cases s c with ⟨hdue, h⟩ | ⟨hdue, hno, h⟩ | ⟨hdue, hyes, h⟩
    · rw [if_neg (fun hall => hdue hall.1)]
      exact congrArg Ui.accepted h
    · have hsamples : s'.samples = s.samples ++ [c.btnPress] := congrArg Ui.samples h
      have haccepted : s'.accepted = (s.sampled c).accepted := congrArg Ui.accepted h
      rw [hsamples, if_neg (fun hall => hno (hsettles.mpr hall.2)), haccepted]
      rfl
    · have hsamples : s'.samples = s.samples ++ [c.btnPress] :=
        (congrArg Ui.samples h).trans (Ui.change_samples _ _)
      have haccepted : s'.accepted = ((s.settled c).change c).accepted := congrArg Ui.accepted h
      rw [hsamples, if_pos ⟨hdue, hsettles.mp hyes⟩, haccepted, Ui.change_accepted,
        Ui.settled_btnPress]
      rfl
  · rw [← hs'.last]
    exact hs'.pressed
  · intro hzero
    rw [← hs'.last] at hzero
    exact hs'.released (hs'.latch hzero)

end TelinkB91.Keyboard.Button
