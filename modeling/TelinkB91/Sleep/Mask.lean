import TelinkB91.Debug.Output
import TelinkB91.Keyboard.Button

/-!
# Sleep — the suspend mask

At the end of each iteration `main_loop` says by `bls_pm_setSuspendMask` whether the stack may
suspend.  `blt_pm_proc` disables it while a debug log is pending, allows it, and disables it while a
key is held or an OTA is running; with buttons, `main_loop` then disables or allows it once more.
The last call wins.

* `pmProc_mask`, `mainLoop_mask`: the mask that is left.
* `suspend_iff`: where suspend is allowed only with nothing pending, held or running.  With keys the
  call for a pending log is overwritten, and with buttons nobody looks for an OTA either.
* `suspend_pending`: a log line that is pending.
-/

namespace TelinkB91.Sleep
open Debug (Log tlkapiDebugIsBusy)
open Keyboard.Button (clockTimeExceed)

abbrev U8 := BitVec 8

abbrev U32 := BitVec 32

def suspendDisable : U8 := 0#8

def suspendAdv : U8 := 1#8

def suspendConn : U8 := 2#8

def deepsleepRetentionAdv : U8 := 4#8

def deepsleepRetentionConn : U8 := 8#8

def connDeepFlg : U8 := 2#8

/-- `BOARD_SELECT`: the boards with keys, and the dongle with its buttons. -/
inductive Board where
  | evk
  | dongle
  deriving DecidableEq, Repr

/-- A build, with `TEST_CONN_CURRENT_ENABLE`, `PM_DEEPSLEEP_RETENTION_ENABLE` of a board with keys,
and `TLKAPI_DEBUG_ENABLE`. -/
structure Build where
  board : Board
  test : Bool
  retention : Bool
  debug : Bool
  deriving DecidableEq, Repr

/-- `UI_KEYBOARD_ENABLE`. -/
def Build.Keys (b : Build) : Prop := b.board = .evk ∧ b.test = false

/-- `UI_BUTTON_ENABLE`. -/
def Build.Buttons (b : Build) : Prop := b.board = .dongle

/-- `PM_DEEPSLEEP_RETENTION_ENABLE`, which the dongle undefines. -/
def Build.Retention (b : Build) : Prop := b.board = .evk ∧ b.retention = true

instance (b : Build) : Decidable b.Keys := inferInstanceAs (Decidable (_ ∧ _))

instance (b : Build) : Decidable b.Buttons := inferInstanceAs (Decidable (_ = _))

instance (b : Build) : Decidable b.Retention := inferInstanceAs (Decidable (_ ∧ _))

/-- What `blc_ll_getCurrentState` answers. -/
inductive LinkState where
  | idle
  | adv
  | conn
  deriving DecidableEq, Repr

/-- What the application asks of the stack. -/
inductive Call where
  | deepSleep
  | terminate
  deriving DecidableEq, Repr

/-- The variables of the application, with those of the keyboard, of the buttons and of the debug
log, and `USED_DEEP_ANA_REG`. -/
structure App where
  suspendMask : U8
  scanPinNeed : U32
  keyNotReleased : Int
  buttonNotReleased : Int
  otaIsWorking : U8
  log : Log
  sendTerminateBeforeEnterDeep : U8
  deviceInConnectionState : Int
  advertiseBeginTick : U32
  latestUserEventTick : U32
  usedDeepAnaReg : U8
  calls : List Call

/-- What `blt_pm_proc` finds at the stack, and the time. -/
structure Env where
  eventPending : Bool
  state : LinkState
  now : U32

section functions

variable (b : Build) (s : App)

/-- `bls_pm_setSuspendMask`. -/
def App.setSuspendMask (mask : U8) : App := { s with suspendMask := mask }

/-- `cpu_sleep_wakeup`, which returns where the pad is at its level already. -/
def App.cpuSleepWakeup : App := { s with calls := s.calls ++ [.deepSleep] }

/-- `tlkapi_debug_isBusy`, which is `FALSE` in a build without the log. -/
def App.Busy : Prop := b.debug = true ∧ tlkapiDebugIsBusy s.log

/-- A key or a button is held. -/
def App.Held : Prop :=
  (b.Keys ∧ (s.scanPinNeed ≠ 0#32 ∨ s.keyNotReleased ≠ 0)) ∨
    (b.Buttons ∧ s.buttonNotReleased ≠ 0)

def App.Ota : Prop := s.otaIsWorking ≠ 0#8

instance : Decidable (s.Busy b) := inferInstanceAs (Decidable (_ ∧ _))

instance : Decidable (s.Held b) := inferInstanceAs (Decidable ((_ ∧ (_ ∨ _)) ∨ (_ ∧ _)))

instance : Decidable s.Ota := inferInstanceAs (Decidable (_ ≠ _))

/-- The end of `blt_pm_proc`. -/
def App.enterDeep (env : Env) : App :=
  let s := if s.sendTerminateBeforeEnterDeep = 2#8 then
      App.cpuSleepWakeup { s with usedDeepAnaReg := s.usedDeepAnaReg ||| connDeepFlg }
    else s
  if env.eventPending then s
  else if env.state = .adv ∧ s.sendTerminateBeforeEnterDeep = 0#8 ∧
      clockTimeExceed env.now s.advertiseBeginTick 60000000#32 then
    s.cpuSleepWakeup
  else if s.deviceInConnectionState ≠ 0 ∧
      clockTimeExceed env.now s.latestUserEventTick 60000000#32 then
    { s with calls := s.calls ++ [.terminate], sendTerminateBeforeEnterDeep := 1#8 }
  else s

/-- `blt_pm_proc`. -/
def App.bltPmProc (env : Env) : App :=
  let s := if s.Busy b then s.setSuspendMask suspendDisable else s
  let s := if b.Retention then
      s.setSuspendMask
        (suspendAdv ||| deepsleepRetentionAdv ||| suspendConn ||| deepsleepRetentionConn)
    else s.setSuspendMask (suspendAdv ||| suspendConn)
  let s := if b.test = false ∧ b.Keys ∧
      (s.scanPinNeed ≠ 0#32 ∨ s.keyNotReleased ≠ 0 ∨ s.otaIsWorking ≠ 0#8) then
      s.setSuspendMask suspendDisable
    else s
  if b.test then s else s.enterDeep env

/-- The block for the buttons in `main_loop`. -/
def App.buttonBlock : App :=
  if b.Buttons then
    if s.buttonNotReleased ≠ 0 then s.setSuspendMask suspendDisable
    else s.setSuspendMask (suspendAdv ||| suspendConn)
  else s

/-- `main_loop`.  `before` is what `blt_sdk_main_loop`, the handler of the log and the keys or
buttons do. -/
def mainLoop (before : App → App) (env : Env) : App := ((before s).bltPmProc b env).buttonBlock b

end functions

/-- The mask lets the stack suspend. -/
def App.AllowsSuspend (s : App) : Prop := s.suspendMask &&& (suspendAdv ||| suspendConn) ≠ 0#8

instance (s : App) : Decidable s.AllowsSuspend := inferInstanceAs (Decidable (_ ≠ _))

/-- Suspend is only allowed with nothing pending, held or running. -/
def App.SleepsWell (b : Build) (s : App) : Prop :=
  s.AllowsSuspend → ¬s.Busy b ∧ ¬s.Held b ∧ ¬s.Ota

/-- The last call does no harm.  With keys: one is held, an OTA is running, or no log is pending.
Without: a button is held, or there is neither a log pending nor an OTA running. -/
def App.Harmless (b : Build) (s : App) : Prop :=
  if b.Keys then s.Held b ∨ s.Ota ∨ ¬s.Busy b else s.Held b ∨ (¬s.Busy b ∧ ¬s.Ota)

section mask

variable {b : Build} {s : App}

/-- What `main_loop` looks at is the same in `t`. -/
structure Same (s t : App) : Prop where
  scanPinNeed : t.scanPinNeed = s.scanPinNeed
  keyNotReleased : t.keyNotReleased = s.keyNotReleased
  buttonNotReleased : t.buttonNotReleased = s.buttonNotReleased
  otaIsWorking : t.otaIsWorking = s.otaIsWorking
  log : t.log = s.log

theorem Same.busy {t : App} (h : Same s t) : t.Busy b ↔ s.Busy b := by
  rw [App.Busy, App.Busy, h.log]

theorem Same.held {t : App} (h : Same s t) : t.Held b ↔ s.Held b := by
  rw [App.Held, App.Held, h.scanPinNeed, h.keyNotReleased, h.buttonNotReleased]

theorem Same.ota {t : App} (h : Same s t) : t.Ota ↔ s.Ota := by
  rw [App.Ota, App.Ota, h.otaIsWorking]

theorem Same.setSuspendMask {t : App} (h : Same s t) (mask : U8) : Same s (t.setSuspendMask mask) :=
  ⟨h.scanPinNeed, h.keyNotReleased, h.buttonNotReleased, h.otaIsWorking, h.log⟩

theorem enterDeep_same (env : Env) :
    Same s (s.enterDeep env) ∧ (s.enterDeep env).suspendMask = s.suspendMask := by
  rw [App.enterDeep]
  split_ifs <;> exact ⟨⟨rfl, rfl, rfl, rfl, rfl⟩, rfl⟩

/-- The mask without regard to what is held, running or pending. -/
def Build.allowed (b : Build) : U8 :=
  if b.Retention then
    suspendAdv ||| deepsleepRetentionAdv ||| suspendConn ||| deepsleepRetentionConn
  else suspendAdv ||| suspendConn

/-- The mask that `blt_pm_proc` leaves. -/
def App.maskLeft (b : Build) (s : App) : U8 :=
  if b.Keys ∧ (s.scanPinNeed ≠ 0#32 ∨ s.keyNotReleased ≠ 0 ∨ s.Ota) then suspendDisable
  else b.allowed

/-- **The calls of `blt_pm_proc`.**  The first, for the log, is always overwritten. -/
theorem pmProc_eq (env : Env) : s.bltPmProc b env =
    if b.test then s.setSuspendMask (s.maskLeft b)
    else (s.setSuspendMask (s.maskLeft b)).enterDeep env := by
  have hallowed : ∀ t : App, (if b.Retention then
      t.setSuspendMask
        (suspendAdv ||| deepsleepRetentionAdv ||| suspendConn ||| deepsleepRetentionConn)
      else t.setSuspendMask (suspendAdv ||| suspendConn)) = t.setSuspendMask b.allowed := by
    intro t
    rw [Build.allowed]
    split_ifs <;> rfl
  have hfirst : ∀ mask, App.setSuspendMask
      (if s.Busy b then s.setSuspendMask suspendDisable else s) mask = s.setSuspendMask mask := by
    intro mask
    split_ifs <;> rfl
  have hlast : (if b.test = false ∧ b.Keys ∧
      (s.scanPinNeed ≠ 0#32 ∨ s.keyNotReleased ≠ 0 ∨ s.otaIsWorking ≠ 0#8) then
      s.setSuspendMask suspendDisable else s.setSuspendMask b.allowed) =
      s.setSuspendMask (s.maskLeft b) := by
    rw [App.maskLeft]
    by_cases hkeys : b.Keys ∧ (s.scanPinNeed ≠ 0#32 ∨ s.keyNotReleased ≠ 0 ∨ s.Ota)
    · rw [if_pos hkeys, if_pos ⟨hkeys.1.2, hkeys⟩]
    · rw [if_neg hkeys, if_neg fun h => hkeys h.2]
  rw [App.bltPmProc, hallowed, hfirst]
  exact congrArg (fun t : App => if b.test then t else t.enterDeep env) hlast

theorem pmProc_mask (env : Env) :
    Same s (s.bltPmProc b env) ∧ (s.bltPmProc b env).suspendMask = s.maskLeft b := by
  rw [pmProc_eq]
  split_ifs
  · exact ⟨⟨rfl, rfl, rfl, rfl, rfl⟩, rfl⟩
  · obtain ⟨hsame, hmask⟩ := enterDeep_same (s := s.setSuspendMask (s.maskLeft b)) env
    exact ⟨⟨hsame.1, hsame.2, hsame.3, hsame.4, hsame.5⟩, hmask⟩

theorem allows_disable {t : App} (ht : t.suspendMask = suspendDisable) : ¬t.AllowsSuspend := by
  rw [App.AllowsSuspend, ht]
  decide

theorem allows_allowed {t : App} (ht : t.suspendMask = b.allowed) : t.AllowsSuspend := by
  rw [App.AllowsSuspend, ht, Build.allowed]
  split_ifs <;> decide

/-- **The mask that `main_loop` leaves.**  With keys, it is disabled for what is held or for an OTA,
and otherwise for what is held. -/
theorem mainLoop_mask (before : App → App) (env : Env) :
    Same (before s) (mainLoop b s before env) ∧
      ((mainLoop b s before env).AllowsSuspend ↔
        ¬(before s).Held b ∧ (b.Keys → ¬(before s).Ota)) := by
  obtain ⟨hsame, hmask⟩ := pmProc_mask (b := b) (s := before s) env
  rw [mainLoop, App.buttonBlock]
  generalize (before s).bltPmProc b env = t at hsame hmask ⊢
  generalize before s = s at hsame hmask ⊢
  by_cases hbuttons : b.Buttons
  · have hkeys : ¬b.Keys := fun h => absurd (h.1.symm.trans hbuttons) (by decide)
    have hheld : s.Held b ↔ s.buttonNotReleased ≠ 0 := by
      rw [App.Held]
      exact ⟨fun h => (h.resolve_left fun h => hkeys h.1).2, fun h => .inr ⟨hbuttons, h⟩⟩
    rw [if_pos hbuttons, hsame.buttonNotReleased, hheld]
    by_cases hnot : s.buttonNotReleased ≠ 0
    · rw [if_pos hnot]
      exact ⟨hsame.setSuspendMask _, iff_of_false (allows_disable rfl) fun h => h.1 hnot⟩
    · rw [if_neg hnot]
      exact ⟨hsame.setSuspendMask _, iff_of_true
        (by decide : (suspendAdv ||| suspendConn) &&& (suspendAdv ||| suspendConn) ≠ 0#8)
        ⟨hnot, fun h => absurd h hkeys⟩⟩
  · rw [if_neg hbuttons]
    refine ⟨hsame, ?_⟩
    have hheld : s.Held b ↔ b.Keys ∧ (s.scanPinNeed ≠ 0#32 ∨ s.keyNotReleased ≠ 0) :=
      or_iff_left fun h => hbuttons h.1
    rw [App.maskLeft] at hmask
    rw [hheld]
    by_cases hcond : b.Keys ∧ (s.scanPinNeed ≠ 0#32 ∨ s.keyNotReleased ≠ 0 ∨ s.Ota)
    · rw [if_pos hcond] at hmask
      refine iff_of_false (allows_disable hmask) ?_
      rintro ⟨hnot, hota⟩
      rcases hcond.2 with h | h | h
      · exact hnot ⟨hcond.1, .inl h⟩
      · exact hnot ⟨hcond.1, .inr h⟩
      · exact hota hcond.1 h
    · rw [if_neg hcond] at hmask
      refine iff_of_true (allows_allowed hmask) ⟨fun h => hcond ⟨h.1, ?_⟩, fun h ho => ?_⟩
      · exact h.2.imp_right .inl
      · exact hcond ⟨h, .inr (.inr ho)⟩

/-- **Sleep permission.**  From any state, and whatever the loop does before: the mask that is left
allows suspend only with nothing pending, held or running, just when the last call does no harm. -/
theorem suspend_iff (b : Build) (s : App) (before : App → App) (env : Env) :
    (mainLoop b s before env).SleepsWell b ↔ (before s).Harmless b := by
  obtain ⟨hsame, hallows⟩ := mainLoop_mask (b := b) (s := s) before env
  rw [App.SleepsWell, hallows, hsame.busy, hsame.held, hsame.ota, App.Harmless]
  by_cases hkeys : b.Keys
  · rw [if_pos hkeys]
    tauto
  · rw [if_neg hkeys]
    tauto

end mask

/-- One log line is pending, and no key is down. -/
def pendingLog : App where
  suspendMask := suspendDisable
  scanPinNeed := 0#32
  keyNotReleased := 0
  buttonNotReleased := 0
  otaIsWorking := 0#8
  log := (Log.init .gsuart Debug.zeroCtl Debug.printFifo fun _ => 0#8).step (Debug.numbered 0)
  sendTerminateBeforeEnterDeep := 0#8
  deviceInConnectionState := 0
  advertiseBeginTick := 0#32
  latestUserEventTick := 0#32
  usedDeepAnaReg := 0#8
  calls := []

/-- **A pending log line.**  The stack may suspend before the line is out. -/
theorem suspend_pending :
    let t := mainLoop ⟨.evk, false, true, true⟩ pendingLog id ⟨false, .adv, 0#32⟩
    t.AllowsSuspend ∧ t.Busy ⟨.evk, false, true, true⟩ ∧
      ¬t.SleepsWell ⟨.evk, false, true, true⟩ := by
  have hallows : (mainLoop ⟨.evk, false, true, true⟩ pendingLog id
      ⟨false, .adv, 0#32⟩).AllowsSuspend := by decide
  have hbusy : (mainLoop ⟨.evk, false, true, true⟩ pendingLog id
      ⟨false, .adv, 0#32⟩).Busy ⟨.evk, false, true, true⟩ := by decide
  exact ⟨hallows, hbusy, fun hwell => (hwell hallows).1 hbusy⟩

end TelinkB91.Sleep
