import TelinkB91.Audio.Adpcm
import TelinkB91.Lib.Runs

/-!
# Audio — the voice key

A press of the voice key notifies a START report, and its release an END report.  A notification
can fail, and `audio_start_status` and `audio_end_status` say so: 0 before the notification, 1 after
one that was taken and 2 after one that was not.  `audio_state_check` runs after every scan of the
keys and tries again while a status is 2.  The three variants for the HID service differ in the
codes of the reports.

A `Voice` also holds what was notified since `audio_start_status` was last cleared.

* `check_retries`: a START that failed is tried again by the next check, whatever comes between.
* `accepted_step`: what one step does to the number of STARTs that were taken.
* `started_once_iff`: a retry that is taken leaves the status at 2.  So there is one START for a
  press just when no failed press has two checks after it whose notification is taken.
-/

namespace TelinkB91.Audio.VoiceKey
open Runs

/-- The variants for the HID service. -/
inductive Service where
  | adpcm
  | sbc
  | msbc
  deriving DecidableEq, Repr

/-- The report with `code` in its fourth byte. -/
def value (code : U8) : List U8 := [0x99#8, 0x99#8, 0x99#8, code] ++ List.replicate 16 0#8

def Service.start : Service → List U8
  | .adpcm => value 0x21#8
  | .sbc => value 0x31#8
  | .msbc => value 0x31#8

def Service.stop : Service → List U8
  | .adpcm => value 0x24#8
  | .sbc => value 0x34#8
  | .msbc => value 0x34#8

/-- The globals, and the reports notified since `audio_start_status` was last cleared, each with
whether it was taken. -/
structure Voice where
  uiMicEnable : Bool
  audioStartStatus : U8
  audioEndStatus : U8
  audioEndTick : BitVec 32
  notified : List (List U8 × Bool)

def Voice.boot : Voice := ⟨false, 0#8, 0#8, 0#32, []⟩

/-- `blc_gatt_pushHandleValueNotify`, with its outcome. -/
def Voice.push (s : Voice) (report : List U8) (ok : Bool) : Voice :=
  { s with notified := s.notified ++ [(report, ok)] }

section functions

variable (v : Service) (s : Voice)

/-- `voice_key_press`, in a connection or not. -/
def Voice.voiceKeyPress (conn ok : Bool) : Voice :=
  if s.uiMicEnable = false ∧ conn = true then
    if s.audioStartStatus = 0#8 then
      { s.push v.start ok with audioStartStatus := if ok then 1#8 else 2#8 }
    else s
  else s

/-- `voice_key_release`. -/
def Voice.voiceKeyRelease (ok : Bool) (now : BitVec 32) : Voice :=
  if s.uiMicEnable = true ∧ s.audioEndStatus = 0#8 then
    { s.push v.stop ok with
      audioEndStatus := if ok then 1#8 else 2#8
      audioEndTick := now ||| 1#32 }
  else s

/-- The first half of `audio_state_check`. -/
def Voice.retryStart (ok : Bool) : Voice :=
  if s.audioStartStatus = 2#8 then
    let s := s.push v.start ok
    if ok then { s with audioStartStatus := 2#8 } else s
  else s

/-- The second half. -/
def Voice.retryStop (ok : Bool) : Voice :=
  if s.audioEndStatus = 2#8 then
    let s := s.push v.stop ok
    if ok then { s with audioEndStatus := 0#8 } else s
  else s

/-- `audio_state_check`. -/
def Voice.audioStateCheck (okStart okStop : Bool) : Voice :=
  (s.retryStart v okStart).retryStop v okStop

/-- `ui_enable_mic`. -/
def Voice.uiEnableMic (en : Bool) : Voice :=
  if en then { s with uiMicEnable := true, audioEndTick := 0#32 }
  else
    { uiMicEnable := false
      audioStartStatus := 0#8
      audioEndStatus := 0#8
      audioEndTick := 0#32
      notified := [] }

/-- `proc_audio` gives a press up whose microphone was not opened for three seconds. -/
def Voice.giveUp : Voice :=
  { s with audioStartStatus := 0#8, audioEndStatus := 0#8, notified := [] }

end functions

inductive Op where
  | press (conn ok : Bool)
  | release (ok : Bool) (now : BitVec 32)
  | check (okStart okStop : Bool)
  | enable (en : Bool)
  | giveUp
  deriving DecidableEq, Repr

def Voice.step (v : Service) (s : Voice) : Op → Voice
  | .press conn ok => s.voiceKeyPress v conn ok
  | .release ok now => s.voiceKeyRelease v ok now
  | .check okStart okStop => s.audioStateCheck v okStart okStop
  | .enable en => s.uiEnableMic en
  | .giveUp => s.giveUp

/-- `audio_start_status` is cleared. -/
def Op.Resets (op : Op) : Prop := op = .enable false ∨ op = .giveUp

instance (op : Op) : Decidable op.Resets := inferInstanceAs (Decidable (_ ∨ _))

/-! ### What is counted -/

/-- The outcomes of the STARTs since the reset. -/
def Voice.starts (v : Service) (s : Voice) : List Bool :=
  (s.notified.filter fun n => n.1 = v.start).map Prod.snd

/-- How many of them were taken. -/
def Voice.accepted (v : Service) (s : Voice) : Nat := (s.starts v).count true

/-- The last attempt has failed. -/
def Voice.Failed (v : Service) (s : Voice) : Prop := (s.starts v).getLast? = some false

instance (v : Service) (s : Voice) : Decidable (s.Failed v) := inferInstanceAs (Decidable (_ = _))

/-- A check with a failed attempt behind it makes another one. -/
def Retries (v : Service) (s : Voice) : Op → Prop
  | .check okStart okStop =>
      s.Failed v → ((s.step v (.check okStart okStop)).starts v) = s.starts v ++ [okStart]
  | _ => True

/-- A press notifies START, and that fails. -/
def FailedPress (s : Voice) : Op → Prop
  | .press conn ok =>
      s.uiMicEnable = false ∧ conn = true ∧ s.audioStartStatus = 0#8 ∧ ok = false
  | _ => False

instance (s : Voice) (op : Op) : Decidable (FailedPress s op) := by
  cases op <;> unfold FailedPress <;> infer_instance

/-- A check whose START is taken, when it notifies one. -/
def Op.takes : Op → Bool
  | .check okStart _ => okStart
  | _ => false

/-- How many there are up to the next reset. -/
def checksTaken : List Op → Nat
  | [] => 0
  | op :: ops => if op.Resets then 0 else op.takes.toNat + checksTaken ops

/-- After a failed press, one such check at most comes before the next reset. -/
def SingleRetry (v : Service) : Voice → List Op → Prop
  | _, [] => True
  | s, op :: ops =>
      (FailedPress s op → checksTaken ops ≤ 1) ∧ SingleRetry v (s.step v op) ops

/-! ### One step -/

section steps

variable {v : Service} {s : Voice}

theorem starts_push_start (ok : Bool) : (s.push v.start ok).starts v = s.starts v ++ [ok] := by
  rw [Voice.starts, Voice.push, List.filter_append, List.map_append, Voice.starts]
  simp

theorem starts_push_stop (ok : Bool) : (s.push v.stop ok).starts v = s.starts v := by
  have hne : v.stop ≠ v.start := by cases v <;> decide
  rw [Voice.starts, Voice.push, List.filter_append, List.map_append, Voice.starts]
  simp [hne]

theorem retryStop_starts (ok : Bool) : (s.retryStop v ok).starts v = s.starts v ∧
    (s.retryStop v ok).audioStartStatus = s.audioStartStatus := by
  rw [Voice.retryStop]
  split_ifs
  · exact ⟨starts_push_stop ok, rfl⟩
  · exact ⟨starts_push_stop ok, rfl⟩
  · exact ⟨rfl, rfl⟩

/-- What one step does to the status and to the STARTs. -/
inductive Moves (v : Service) (s : Voice) (op : Op) (s' : Voice) : Prop where
  | reset (hop : op.Resets) (hstatus : s'.audioStartStatus = 0#8) (hstarts : s'.starts v = [])
  | pressed (ok : Bool) (hop : ¬op.Resets) (hpress : FailedPress s op ↔ ok = false)
      (hclear : s.audioStartStatus = 0#8)
      (hstatus : s'.audioStartStatus = if ok then 1#8 else 2#8)
      (hstarts : s'.starts v = s.starts v ++ [ok])
  | retried (ok : Bool) (hop : ¬op.Resets) (hpress : ¬FailedPress s op) (htakes : op.takes = ok)
      (hfailed : s.audioStartStatus = 2#8) (hstatus : s'.audioStartStatus = 2#8)
      (hstarts : s'.starts v = s.starts v ++ [ok])
  | still (hop : ¬op.Resets) (hpress : ¬FailedPress s op)
      (htakes : s.audioStartStatus = 2#8 → op.takes = false)
      (hstatus : s'.audioStartStatus = s.audioStartStatus) (hstarts : s'.starts v = s.starts v)

theorem moves_press (conn ok : Bool) :
    Moves v s (.press conn ok) (s.voiceKeyPress v conn ok) := by
  have hop : ¬(Op.press conn ok).Resets := by simp [Op.Resets]
  rw [Voice.voiceKeyPress]
  by_cases hopen : s.uiMicEnable = false ∧ conn = true
  · rw [if_pos hopen]
    by_cases hclear : s.audioStartStatus = 0#8
    · rw [if_pos hclear]
      refine .pressed ok hop ?_ hclear rfl (starts_push_start ok)
      exact ⟨fun h => h.2.2.2, fun h => ⟨hopen.1, hopen.2, hclear, h⟩⟩
    · rw [if_neg hclear]
      exact .still hop (fun h => hclear h.2.2.1) (fun _ => rfl) rfl rfl
  · rw [if_neg hopen]
    exact .still hop (fun h => hopen ⟨h.1, h.2.1⟩) (fun _ => rfl) rfl rfl

theorem moves_release (ok : Bool) (now : BitVec 32) :
    Moves v s (.release ok now) (s.voiceKeyRelease v ok now) := by
  have hop : ¬(Op.release ok now).Resets := by simp [Op.Resets]
  rw [Voice.voiceKeyRelease]
  by_cases hopen : s.uiMicEnable = true ∧ s.audioEndStatus = 0#8
  · rw [if_pos hopen]
    exact .still hop id (fun _ => rfl) rfl (starts_push_stop ok)
  · rw [if_neg hopen]
    exact .still hop id (fun _ => rfl) rfl rfl

/-- A check with a status of 2 notifies START, and the status stays. -/
theorem check_failed (hfailed : s.audioStartStatus = 2#8) (okStart okStop : Bool) :
    (s.audioStateCheck v okStart okStop).starts v = s.starts v ++ [okStart] ∧
      (s.audioStateCheck v okStart okStop).audioStartStatus = 2#8 := by
  obtain ⟨hstarts, hstatus⟩ := retryStop_starts (v := v) (s := s.retryStart v okStart) okStop
  rw [Voice.audioStateCheck, hstarts, hstatus, Voice.retryStart, if_pos hfailed]
  cases okStart with
  | true => exact ⟨starts_push_start true, rfl⟩
  | false => exact ⟨starts_push_start false, hfailed⟩

theorem moves_check (okStart okStop : Bool) :
    Moves v s (.check okStart okStop) (s.audioStateCheck v okStart okStop) := by
  have hop : ¬(Op.check okStart okStop).Resets := by simp [Op.Resets]
  by_cases hfailed : s.audioStartStatus = 2#8
  · obtain ⟨hstarts, hstatus⟩ := check_failed (v := v) hfailed okStart okStop
    exact .retried okStart hop id rfl hfailed hstatus hstarts
  · have hsame : s.retryStart v okStart = s := by rw [Voice.retryStart, if_neg hfailed]
    obtain ⟨hstarts, hstatus⟩ := retryStop_starts (v := v) (s := s) okStop
    rw [Voice.audioStateCheck, hsame]
    exact .still hop id (fun h => absurd h hfailed) hstatus hstarts

/-- **One step.** -/
theorem moves_step (v : Service) (s : Voice) (op : Op) : Moves v s op (s.step v op) := by
  cases op with
  | press conn ok => exact moves_press conn ok
  | release ok now => exact moves_release ok now
  | check okStart okStop => exact moves_check okStart okStop
  | enable en =>
      cases en with
      | true => exact .still (by simp [Op.Resets]) id (fun _ => rfl) rfl rfl
      | false => exact .reset (.inl rfl) rfl rfl
  | giveUp => exact .reset (.inr rfl) rfl rfl

/-! ### A run -/

/-- The status says how the STARTs since the reset went: there was none, the press was taken, or it
failed. -/
def Told (v : Service) (s : Voice) : Prop :=
  (s.audioStartStatus = 0#8 ∧ s.starts v = []) ∨
    (s.audioStartStatus = 1#8 ∧ s.starts v = [true]) ∨
    (s.audioStartStatus = 2#8 ∧ s.starts v ≠ [])

theorem told_boot (v : Service) : Told v .boot := .inl ⟨rfl, rfl⟩

theorem Told.none (h : Told v s) (hclear : s.audioStartStatus = 0#8) : s.starts v = [] := by
  rcases h with ⟨-, hnone⟩ | ⟨hone, -⟩ | ⟨htwo, -⟩
  · exact hnone
  · rw [hclear] at hone
    exact absurd hone (by decide)
  · rw [hclear] at htwo
    exact absurd htwo (by decide)

theorem told_step (h : Told v s) (op : Op) : Told v (s.step v op) := by
  cases moves_step v s op with
  | reset _ hstatus hstarts => exact .inl ⟨hstatus, hstarts⟩
  | pressed ok _ _ hclear hstatus hstarts =>
      rw [h.none hclear] at hstarts
      cases ok with
      | true => exact .inr (.inl ⟨hstatus, hstarts⟩)
      | false => exact .inr (.inr ⟨hstatus, by rw [hstarts]; exact List.cons_ne_nil _ _⟩)
  | retried ok _ _ _ _ hstatus hstarts =>
      exact .inr (.inr ⟨hstatus, by rw [hstarts]; exact List.concat_ne_nil _ _⟩)
  | still _ _ _ hstatus hstarts =>
      rw [Told, hstatus, hstarts]
      exact h

/-- **Retries.**  A check tries again whenever the last START has failed. -/
theorem check_retries (h : Told v s) (op : Op) : Retries v s op := by
  cases op with
  | check okStart okStop =>
      intro hfailed
      have htwo : s.audioStartStatus = 2#8 := by
        rcases h with ⟨-, hnone⟩ | ⟨-, hone⟩ | ⟨htwo, -⟩
        · rw [Voice.Failed, hnone] at hfailed
          exact absurd hfailed (by decide)
        · rw [Voice.Failed, hone] at hfailed
          exact absurd hfailed (by decide)
        · exact htwo
      exact (check_failed htwo okStart okStop).1
  | press | release | enable | giveUp => trivial

/-- **The STARTs taken from a state on**: in a state with at most one, it stays at one until the
next reset just when a failed press has had, and will have, a single retry taken. -/
theorem accepted_iff (h : Told v s) (hs : s.accepted v ≤ 1) (ops : List Op) :
    (∀ t ∈ visited (Voice.step v) s ops, t.accepted v ≤ 1) ↔
      (s.audioStartStatus = 2#8 → s.accepted v + checksTaken ops ≤ 1) ∧ SingleRetry v s ops := by
  induction ops generalizing s with
  | nil => simp [visited, checksTaken, SingleRetry, hs]
  | cons op ops ih =>
      have hrun : (∀ t ∈ visited (Voice.step v) s (op :: ops), t.accepted v ≤ 1) ↔
          (s.step v op).accepted v ≤ 1 ∧
            ((s.step v op).audioStartStatus = 2#8 →
              (s.step v op).accepted v + checksTaken ops ≤ 1) ∧
            SingleRetry v (s.step v op) ops := by
        rw [visited, List.forall_mem_cons]
        exact and_congr_right fun hle => ih (told_step h op) hle
      rw [hrun, SingleRetry, checksTaken]
      cases moves_step v s op with
      | reset hop hstatus hstarts =>
          have hpress : ¬FailedPress s op := by rcases hop with rfl | rfl <;> exact id
          have hzero : (s.step v op).accepted v = 0 := by rw [Voice.accepted, hstarts]; rfl
          have htwo : ¬(s.step v op).audioStartStatus = 2#8 := by rw [hstatus]; decide
          simp [hop, hpress, hzero, htwo, hs]
      | pressed ok hop hpress hclear hstatus hstarts =>
          have hcount : (s.step v op).accepted v = ok.toNat := by
            rw [Voice.accepted, hstarts, h.none hclear]
            cases ok <;> rfl
          have hzero : ¬s.audioStartStatus = 2#8 := by rw [hclear]; decide
          rw [if_neg hop, hcount, hstatus, hpress]
          cases ok with
          | true => simp [hzero]
          | false => simp [hzero]
      | retried ok hop hpress htakes hfailed hstatus hstarts =>
          have hcount : (s.step v op).accepted v = s.accepted v + ok.toNat := by
            rw [Voice.accepted, hstarts, List.count_append, Voice.accepted]
            cases ok <;> rfl
          rw [if_neg hop, hcount, hstatus, htakes]
          simp only [hfailed, hpress, forall_const, false_imp_iff, true_and]
          rw [← and_assoc]
          exact and_congr_left fun _ => by omega
      | still hop hpress htakes hstatus hstarts =>
          have hsame : (s.step v op).accepted v = s.accepted v := by
            rw [Voice.accepted, hstarts, Voice.accepted]
          rw [if_neg hop, hsame, hstatus]
          simp only [hs, hpress, true_and, false_imp_iff]
          refine and_congr_left fun _ => forall_congr' fun htwo => ?_
          rw [htakes htwo, Bool.toNat_false, Nat.zero_add]

end steps

/-- **One START for a press.**  In every run, a failed START is tried again by every check; and no
more than one is taken between two resets just when, after a failed press, a single check has its
START taken before the next reset. -/
theorem started_once_iff (v : Service) (ops : List Op) :
    (∀ t ∈ visited (Voice.step v) .boot ops, t.accepted v ≤ 1) ∧
        Along (Voice.step v) (Retries v) .boot ops ↔
      SingleRetry v .boot ops := by
  have hretries : Along (Voice.step v) (Retries v) .boot ops :=
    Along.derive (P := fun _ _ => True) (I := Told v) (fun _ op h _ => told_step h op)
      (fun _ op h _ => check_retries h op) (told_boot v) (.intro ops)
  have hiff := accepted_iff (told_boot v) (Nat.zero_le 1) ops
  rw [and_iff_left hretries, hiff]
  exact and_iff_right fun h => absurd h (by decide)

/-- A press that fails, and two checks whose notifications are taken. -/
def twoChecks : List Op := [.press true false, .check true true, .check true true]

/-- They make two STARTs, in each variant. -/
theorem started_twice :
    (¬∀ t ∈ visited (Voice.step .adpcm) .boot twoChecks, t.accepted .adpcm ≤ 1) ∧
      (¬∀ t ∈ visited (Voice.step .sbc) .boot twoChecks, t.accepted .sbc ≤ 1) ∧
      ¬∀ t ∈ visited (Voice.step .msbc) .boot twoChecks, t.accepted .msbc ≤ 1 := by
  decide

end TelinkB91.Audio.VoiceKey
