import TelinkB91.Ir.Carrier
import TelinkB91.Ir.Replay
import TelinkB91.Keyboard.KeyChange

/-!
# Ir — the keys of the remote control

`switch_key` is the mode of the application, and the last key goes on to the next mode.  In
`IR_Learn_mode` the other three keys replay what was learned.  The two volume keys ask
`get_ir_learn_state` first, and the third does not: it copies from a recording that waits, goes on
or has failed, and enters `ir_learn_send`, which divides by the carrier cycle.

The interrupt comes at any time, also inside of `key_change_proc`.

* `replay_adds`: what a replay is entered with.
* `poll_calls`, `run_calls`: what the application calls in one step, and in a run.
* `replays_well_iff`: `ir_learn_send` is entered with a carrier cycle that is not 0, copied from a
  recording that succeeded, just when the third key is only pressed after a success, and no key
  replays ten intervals that were all 0.
* `replay_before_edge`: the third key, before any edge has come.

The LEDs and the registers of the pwm are left out.
-/

namespace TelinkB91.Ir
open Runs
open Keyboard (KbEvent Handle keyBuf consumerBytes crVolUp crVolDn vk1 vk2 mkeyVolUp mkeyVolDn)

/-- `switch_mode_e`. -/
def bleMode : U8 := 0#8

def irMode : U8 := 1#8

def irLearnMode : U8 := 2#8

/-- What the application calls.  An entry of `ir_learn_send` comes with the carrier cycle, and with
the state that its buffer was copied from. -/
inductive Call where
  | notify (h : Handle) (value : List U8)
  | irNecSend (addr1 addr2 cmd : U8)
  | rcIrInit
  | terminate
  | setAdvEnable (en : Bool)
  | irLearnSend (carrierCycle : U32) (copiedFrom : LearnState)
  deriving DecidableEq, Repr

/-- The globals, and the calls, oldest first.  `zeros` says of the recording that its first ten
intervals were all 0. -/
structure App where
  switchKey : U8
  keyType : U8
  keyNotReleased : Int
  keyScanTick : U32
  irqEnabled : Bool
  ctrl : Ctrl
  zeros : Bool
  irLearnResult : SendBuf
  calls : List Call

/-- `g_ir_learn_ctrl` is set by `ir_learn_init`, and not used before. -/
def App.boot : App where
  switchKey := bleMode
  keyType := 0#8
  keyNotReleased := 0
  keyScanTick := 0#32
  irqEnabled := false
  ctrl := { irLearnStart 0#32 with irLearnState := .disable }
  zeros := false
  irLearnResult := noResult
  calls := []

/-- One call of `proc_keyboard`: the time, the event that `kb_scan_key` detects, the edges that come
before `ir_learn_copy_result`, whether there is a connection, and the times that `ir_learn_start`
and `ir_learn_detect` read. -/
structure Poll where
  now : U32
  det : Option KbEvent
  mid : List U32
  conn : Bool
  startTime : U32
  detectTime : U32

section functions

variable (s : App)

def App.call (c : Call) : App := { s with calls := s.calls ++ [c] }

/-- The interrupt, at the time `tm`. -/
def App.irq (tm : U32) : App :=
  if s.irqEnabled then
    { s with
      ctrl := irLearnIrqHandler s.ctrl tm
      zeros := s.zeros || decide (s.ctrl.TenthZero tm) }
  else s

/-- `ir_learn_init` and `ir_learn_start`. -/
def App.learnStart (now : U32) : App :=
  { s with irqEnabled := true, ctrl := Ir.irLearnStart now, zeros := false }

/-- `ir_learn_stop`. -/
def App.irLearnStop : App := { s with irqEnabled := false }

/-- `ir_learn_detect` at the time `now`, which stops when it ends the recording. -/
def App.irLearnDetect (now : U32) : App :=
  let stops := (s.ctrl.irLearnState = .waitKey ∧
    ClockTimeExceed now s.ctrl.irLearnTick irLearnOvertimeThreshold) ∨ s.ctrl.Ended now
  let s := { s with ctrl := Ir.irLearnDetect s.ctrl now }
  if stops then s.irLearnStop else s

/-- `ir_learn_copy_result`, `ir_learn_send_init` and `ir_learn_send`, with the edges that come
before. -/
def App.replay (mid : List U32) : App :=
  let s := mid.foldl App.irq s
  let s := { s with irLearnResult := irLearnCopyResult s.ctrl s.irLearnResult }
  s.call (.irLearnSend s.irLearnResult.irLearnCarrierCycle s.ctrl.irLearnState)

/-- The branches for `CR_VOL_DN` and `CR_VOL_UP`. -/
def App.volumeKey (cmd : U8) (consumerKey : U16) (mid : List U32) : App :=
  if s.switchKey = irMode then s.call (.irNecSend 0#8 1#8 cmd)
  else if s.switchKey = irLearnMode then
    if getIrLearnState s.ctrl = 0#8 then s.replay mid else s
  else
    App.call { s with keyType := Handle.consumer.keyType }
      (.notify .consumer (consumerBytes consumerKey))

/-- The branch for `VK_1`. -/
def App.replayKey (mid : List U32) : App :=
  if s.switchKey = irMode then s.call (.irNecSend 0#8 1#8 2#8)
  else if s.switchKey = irLearnMode then s.replay mid
  else
    App.call { s with keyType := Handle.keyboard.keyType } (.notify .keyboard (keyBuf vk1))

/-- The switch over the new mode, in a connection or not. -/
def App.enterMode (conn : Bool) (startTime : U32) : App :=
  if s.switchKey = bleMode then (s.call .rcIrInit).irLearnStop.call (.setAdvEnable true)
  else if s.switchKey = irLearnMode then
    let s := if conn then s.call .terminate else s
    (s.call (.setAdvEnable false)).learnStart startTime
  else s

/-- The branch for `VK_2`. -/
def App.modeKey (conn : Bool) (startTime : U32) : App :=
  let s := App.call { s with keyType := Handle.keyboard.keyType } (.notify .keyboard (keyBuf vk2))
  let next := s.switchKey + 1
  App.enterMode { s with switchKey := if next > irLearnMode then bleMode else next } conn startTime

/-- The switch over `key0`. -/
def App.pressed (key0 : U8) (p : Poll) : App :=
  if key0 = crVolDn then s.volumeKey 0#8 mkeyVolDn p.mid
  else if key0 = crVolUp then s.volumeKey 1#8 mkeyVolUp p.mid
  else if key0 = vk1 then s.replayKey p.mid
  else if key0 = vk2 then s.modeKey p.conn p.startTime
  else s

/-- The branch without a key. -/
def App.released : App :=
  let s := { s with keyNotReleased := 0 }
  if s.keyType = Handle.consumer.keyType then s.call (.notify .consumer (consumerBytes 0#16))
  else if s.keyType = Handle.keyboard.keyType then s.call (.notify .keyboard (keyBuf 0#8))
  else s

/-- `key_change_proc`. -/
def App.keyChangeProc (e : KbEvent) (p : Poll) : App :=
  let key0 := e.keycode[0]?.getD 0#8
  let s := { s with keyNotReleased := 1 }
  if e.cnt = 2#8 then s else if e.cnt = 1#8 then s.pressed key0 p else s.released

/-- `proc_keyboard`. -/
def App.procKeyboard (p : Poll) : App :=
  if ClockTimeExceed p.now s.keyScanTick 8000#32 then
    let s := { s with keyScanTick := p.now }
    let s := match p.det with
      | some e => s.keyChangeProc e p
      | none => s
    if s.switchKey = irLearnMode then s.irLearnDetect p.detectTime else s
  else s

end functions

/-- A call of `proc_keyboard`, or an edge. -/
inductive Event where
  | poll (p : Poll)
  | edge (tm : U32)

def App.step (s : App) : Event → App
  | .poll p => s.procKeyboard p
  | .edge tm => s.irq tm

/-- `ir_learn_send` is entered with a carrier, from a recording that succeeded. -/
def Call.Well : Call → Prop
  | .irLearnSend carrierCycle copiedFrom => carrierCycle ≠ 0#32 ∧ copiedFrom = .success
  | _ => True

instance : (c : Call) → Decidable c.Well
  | .irLearnSend _ _ => inferInstanceAs (Decidable (_ ∧ _))
  | .notify _ _ => inferInstanceAs (Decidable True)
  | .irNecSend _ _ _ => inferInstanceAs (Decidable True)
  | .rcIrInit => inferInstanceAs (Decidable True)
  | .terminate => inferInstanceAs (Decidable True)
  | .setAdvEnable _ => inferInstanceAs (Decidable True)

/-- The key that is processed: the scan is due, and one key is down. -/
def Poll.key (p : Poll) (s : App) : Option U8 :=
  if ClockTimeExceed p.now s.keyScanTick 8000#32 then
    p.det.bind fun e => if e.cnt = 1#8 then some (e.keycode[0]?.getD 0#8) else none
  else none

/-- `VK_1` is only pressed when the recording has succeeded, and no key replays a recording whose
first ten intervals were all 0. -/
def KeyProper (s : App) (key : U8) : Prop :=
  (key = vk1 → s.ctrl.irLearnState = .success) ∧
    (key = vk1 ∨ key = crVolDn ∨ key = crVolUp → s.ctrl.irLearnState = .success →
      s.zeros = false)

instance (s : App) (key : U8) : Decidable (KeyProper s key) :=
  inferInstanceAs (Decidable ((_ → _) ∧ (_ ∨ _ ∨ _ → _ → _)))

/-- The keys that are pressed in `IR_Learn_mode` are proper. -/
def Proper (s : App) : Event → Prop
  | .poll p => s.switchKey = irLearnMode → ∀ key ∈ p.key s, KeyProper s key
  | .edge _ => True

/-! ### The interrupt -/

section irqs

variable {s : App}

theorem irqs_calls (mid : List U32) : (mid.foldl App.irq s).calls = s.calls := by
  induction mid generalizing s with
  | nil => rfl
  | cons tm mid ih =>
      rw [List.foldl_cons, ih, App.irq]
      split_ifs <;> rfl

theorem irq_zeros (h : Zeros s.ctrl s.zeros) (tm : U32) :
    Zeros (s.irq tm).ctrl (s.irq tm).zeros := by
  rw [App.irq]
  split_ifs
  · exact h.edge tm
  · exact h

theorem irqs_zeros (h : Zeros s.ctrl s.zeros) (mid : List U32) :
    Zeros (mid.foldl App.irq s).ctrl (mid.foldl App.irq s).zeros := by
  induction mid generalizing s with
  | nil => exact h
  | cons tm mid ih => exact ih (irq_zeros h tm)

/-- Behind a success, the interrupt changes nothing. -/
theorem irqs_success (hstate : s.ctrl.irLearnState = .success) (mid : List U32) :
    mid.foldl App.irq s = s := by
  have hrec : ¬s.ctrl.Recording := by
    rintro (h | h)
    · exact absurd (h.symm.trans hstate) (by decide)
    · exact absurd (h.symm.trans hstate) (by decide)
  have hone : ∀ tm, s.irq tm = s := by
    intro tm
    rw [App.irq, edge_stopped hrec, decide_eq_false fun ht => hrec ht.1, Bool.or_false, ite_self]
  induction mid with
  | nil => rfl
  | cons tm mid ih => rw [List.foldl_cons, hone, ih]

theorem irqs_not_success (hstate : s.ctrl.irLearnState ≠ .success) (mid : List U32) :
    (mid.foldl App.irq s).ctrl.irLearnState ≠ .success := by
  induction mid generalizing s with
  | nil => exact hstate
  | cons tm mid ih =>
      refine ih ?_
      rw [App.irq]
      split_ifs
      · exact edge_not_success hstate tm
      · exact hstate

end irqs

/-! ### One step -/

/-- `t` goes on from `s` with further calls, which are well just when `proper` holds. -/
structure Adds (s t : App) (proper : Prop) : Prop where
  zeros : Zeros t.ctrl t.zeros
  calls : ∃ new, t.calls = s.calls ++ new ∧ ((∀ c ∈ new, c.Well) ↔ proper)

section calls

variable {s t : App} {proper : Prop}

theorem Adds.of_well (hzeros : Zeros t.ctrl t.zeros) (new : List Call)
    (hcalls : t.calls = s.calls ++ new) (hwell : ∀ c ∈ new, c.Well) (hproper : proper) :
    Adds s t proper :=
  ⟨hzeros, new, hcalls, iff_of_true hwell hproper⟩

theorem Adds.none (hzeros : Zeros t.ctrl t.zeros) (hcalls : t.calls = s.calls)
    (hproper : proper) : Adds s t proper :=
  .of_well hzeros [] (hcalls.trans (List.append_nil _).symm)
    (fun _ hc => absurd hc List.not_mem_nil) hproper

theorem Adds.one (hzeros : Zeros t.ctrl t.zeros) {c : Call} (hcalls : t.calls = s.calls ++ [c])
    (hwell : c.Well) (hproper : proper) : Adds s t proper :=
  .of_well hzeros [c] hcalls (fun _ hc => List.mem_singleton.mp hc ▸ hwell) hproper

theorem Adds.congr {proper' : Prop} (h : Adds s t proper) (hproper : proper ↔ proper') :
    Adds s t proper' := by
  obtain ⟨hzeros, new, hcalls, hwell⟩ := h
  exact ⟨hzeros, new, hcalls, hwell.trans hproper⟩

/-- **A replay** is well behind a success, unless the first ten intervals were all 0. -/
theorem replay_adds (h : Zeros s.ctrl s.zeros) (mid : List U32) :
    Adds s (s.replay mid) (s.ctrl.irLearnState = .success ∧ s.zeros = false) := by
  have hcycle : ∀ d : App, (irLearnCopyResult d.ctrl d.irLearnResult).irLearnCarrierCycle =
      d.ctrl.carrCycleInterval := by
    intro d
    rw [copy_eq]
  refine ⟨irqs_zeros h mid, [_], congrArg (· ++ [_]) (irqs_calls mid), ?_⟩
  rw [List.forall_mem_singleton]
  change (irLearnCopyResult _ _).irLearnCarrierCycle ≠ 0#32 ∧ _ ↔ _
  rw [hcycle]
  by_cases hstate : s.ctrl.irLearnState = .success
  · rw [irqs_success hstate, h.success hstate]
    exact and_comm
  · exact iff_of_false (fun hw => irqs_not_success hstate mid hw.2) (fun hw => hstate hw.1)

/-- The volume keys replay behind a success only. -/
theorem volumeKey_adds (h : Zeros s.ctrl s.zeros) (cmd : U8) (consumerKey : U16) (mid : List U32) :
    Adds s (s.volumeKey cmd consumerKey mid)
      (s.switchKey = irLearnMode → s.ctrl.irLearnState = .success → s.zeros = false) := by
  rw [App.volumeKey]
  by_cases hir : s.switchKey = irMode
  · rw [if_pos hir]
    exact .one h rfl trivial fun hlearn => absurd (hir.symm.trans hlearn) (by decide)
  rw [if_neg hir]
  by_cases hlearn : s.switchKey = irLearnMode
  · rw [if_pos hlearn]
    by_cases hstate : s.ctrl.irLearnState = .success
    · rw [if_pos (getIrLearnState_eq_zero.mpr hstate)]
      exact (replay_adds h mid).congr
        ⟨fun hz _ _ => hz.2, fun hz => ⟨hstate, hz hlearn hstate⟩⟩
    · rw [if_neg (mt getIrLearnState_eq_zero.mp hstate)]
      exact .none h rfl fun _ hs => absurd hs hstate
  · rw [if_neg hlearn]
    exact .one h rfl trivial fun hl => absurd hl hlearn

/-- `VK_1` replays whatever there is. -/
theorem replayKey_adds (h : Zeros s.ctrl s.zeros) (mid : List U32) :
    Adds s (s.replayKey mid)
      (s.switchKey = irLearnMode → s.ctrl.irLearnState = .success ∧ s.zeros = false) := by
  rw [App.replayKey]
  by_cases hir : s.switchKey = irMode
  · rw [if_pos hir]
    exact .one h rfl trivial fun hlearn => absurd (hir.symm.trans hlearn) (by decide)
  rw [if_neg hir]
  by_cases hlearn : s.switchKey = irLearnMode
  · rw [if_pos hlearn]
    exact (replay_adds h mid).congr ⟨fun hz _ => hz, fun hz => hz hlearn⟩
  · rw [if_neg hlearn]
    exact .one h rfl trivial fun hl => absurd hl hlearn

/-- `IR_Learn_mode` begins with a new recording. -/
theorem enterMode_adds (h : Zeros s.ctrl s.zeros) (conn : Bool) (startTime : U32) :
    Adds s (s.enterMode conn startTime) True := by
  rw [App.enterMode]
  by_cases hble : s.switchKey = bleMode
  · rw [if_pos hble]
    exact .of_well h [.rcIrInit, .setAdvEnable true] (by simp [App.call, App.irLearnStop])
      (by simp [Call.Well]) trivial
  rw [if_neg hble]
  by_cases hlearn : s.switchKey = irLearnMode
  · rw [if_pos hlearn]
    cases conn with
    | true =>
        exact .of_well (zeros_start startTime) [.terminate, .setAdvEnable false]
          (by simp [App.call, App.learnStart]) (by simp [Call.Well]) trivial
    | false => exact .one (zeros_start startTime) rfl trivial trivial
  · rw [if_neg hlearn]
    exact .none h rfl trivial

theorem modeKey_adds (h : Zeros s.ctrl s.zeros) (conn : Bool) (startTime : U32) :
    Adds s (s.modeKey conn startTime) True := by
  obtain ⟨hzeros, new, hcalls, hwell⟩ := enterMode_adds (s := { s with
    keyType := Handle.keyboard.keyType
    calls := s.calls ++ [.notify .keyboard (keyBuf vk2)]
    switchKey := if s.switchKey + 1 > irLearnMode then bleMode else s.switchKey + 1 })
    h conn startTime
  exact .of_well hzeros (.notify .keyboard (keyBuf vk2) :: new)
    (hcalls.trans (List.append_assoc _ _ _))
    (List.forall_mem_cons.mpr ⟨trivial, hwell.mpr trivial⟩) trivial

theorem pressed_adds (h : Zeros s.ctrl s.zeros) (key : U8) (p : Poll) :
    Adds s (s.pressed key p) (s.switchKey = irLearnMode → KeyProper s key) := by
  have hvolume : key ≠ vk1 → key = crVolDn ∨ key = crVolUp →
      ((s.switchKey = irLearnMode → s.ctrl.irLearnState = .success → s.zeros = false) ↔
        (s.switchKey = irLearnMode → KeyProper s key)) := fun hvk hvol =>
    ⟨fun hz hl => ⟨fun hk => absurd hk hvk, fun _ => hz hl⟩, fun hz hl => (hz hl).2 (.inr hvol)⟩
  rw [App.pressed]
  by_cases hdn : key = crVolDn
  · rw [if_pos hdn]
    exact (volumeKey_adds h 0#8 mkeyVolDn p.mid).congr
      (hvolume (by rw [hdn]; decide) (.inl hdn))
  rw [if_neg hdn]
  by_cases hup : key = crVolUp
  · rw [if_pos hup]
    exact (volumeKey_adds h 1#8 mkeyVolUp p.mid).congr
      (hvolume (by rw [hup]; decide) (.inr hup))
  rw [if_neg hup]
  by_cases hvk : key = vk1
  · rw [if_pos hvk]
    exact (replayKey_adds h p.mid).congr
      ⟨fun hz hl => ⟨fun _ => (hz hl).1, fun _ _ => (hz hl).2⟩,
        fun hz hl => ⟨(hz hl).1 hvk, (hz hl).2 (.inl hvk) ((hz hl).1 hvk)⟩⟩
  rw [if_neg hvk]
  have hother : s.switchKey = irLearnMode → KeyProper s key := fun _ =>
    ⟨fun hk => absurd hk hvk, fun hk => absurd hk (not_or.mpr ⟨hvk, not_or.mpr ⟨hdn, hup⟩⟩)⟩
  by_cases hmode : key = vk2
  · rw [if_pos hmode]
    exact (modeKey_adds h p.conn p.startTime).congr ⟨fun _ => hother, fun _ => trivial⟩
  · rw [if_neg hmode]
    exact .none h rfl hother

theorem released_adds (h : Zeros s.ctrl s.zeros) : Adds s s.released True := by
  rw [App.released]
  dsimp only
  split_ifs
  · exact .one h rfl trivial trivial
  · exact .one h rfl trivial trivial
  · exact .none h rfl trivial

theorem detect_adds (hadds : Adds s t proper) (now : U32) :
    Adds s (if t.switchKey = irLearnMode then t.irLearnDetect now else t) proper := by
  obtain ⟨hzeros, hcalls⟩ := hadds
  rw [App.irLearnDetect]
  split_ifs
  · exact ⟨hzeros.detect now, hcalls⟩
  · exact ⟨hzeros.detect now, hcalls⟩
  · exact ⟨hzeros, hcalls⟩

/-- **The calls of one step.**  They are well just when its key is proper. -/
theorem poll_calls (h : Zeros s.ctrl s.zeros) (p : Poll) :
    Adds s (s.procKeyboard p) (Proper s (.poll p)) := by
  rw [App.procKeyboard, Proper, Poll.key]
  by_cases hdue : ClockTimeExceed p.now s.keyScanTick 8000#32
  · rw [if_pos hdue, if_pos hdue]
    refine detect_adds ?_ p.detectTime
    cases p.det with
    | none => exact .none h rfl fun _ key hkey => nomatch hkey
    | some e =>
        rw [Option.bind_some]
        dsimp only [App.keyChangeProc]
        by_cases htwo : e.cnt = 2#8
        · rw [if_pos htwo, htwo, if_neg (by decide)]
          exact .none h rfl fun _ key hkey => nomatch hkey
        rw [if_neg htwo]
        by_cases hone : e.cnt = 1#8
        · rw [if_pos hone, if_pos hone]
          obtain ⟨hzeros, new, hcalls, hwell⟩ := pressed_adds
            (s := { s with keyScanTick := p.now, keyNotReleased := 1 }) h (e.keycode[0]?.getD 0#8) p
          refine ⟨hzeros, new, hcalls, hwell.trans ?_⟩
          exact ⟨fun hk hl key hkey => Option.some.inj hkey ▸ hk hl, fun hk hl => hk hl _ rfl⟩
        · rw [if_neg hone, if_neg hone]
          obtain ⟨hzeros, new, hcalls, hwell⟩ := released_adds
            (s := { s with keyScanTick := p.now, keyNotReleased := 1 }) h
          exact .of_well hzeros new hcalls (hwell.mpr trivial) fun _ key hkey => nomatch hkey
  · rw [if_neg hdue, if_neg hdue]
    exact .none h rfl fun _ key hkey => nomatch hkey

theorem step_calls (h : Zeros s.ctrl s.zeros) (e : Event) : Adds s (s.step e) (Proper s e) := by
  cases e with
  | poll p => exact poll_calls h p
  | edge tm => exact .none (irq_zeros h tm) (irqs_calls [tm]) trivial

/-- The calls of a run are well just when those before it were, and every key is proper. -/
theorem run_calls (h : Zeros s.ctrl s.zeros) (es : List Event) :
    (∀ c ∈ (runFrom App.step s es).calls, c.Well) ↔
      (∀ c ∈ s.calls, c.Well) ∧ Along App.step Proper s es := by
  induction es generalizing s with
  | nil => exact (and_iff_left trivial).symm
  | cons e es ih =>
      obtain ⟨hzeros, new, hcalls, hwell⟩ := step_calls h e
      rw [runFrom_cons, ih hzeros, hcalls, List.forall_mem_append, hwell, along_cons, and_assoc]

end calls

theorem zeros_boot : Zeros App.boot.ctrl App.boot.zeros where
  all := fun h => absurd h (by decide)
  cnt := fun _ _ => rfl
  check := fun _ _ => by decide
  state := fun _ _ => by decide
  recording := fun _ _ => by decide

/-- **Replays.**  Whatever keys are pressed and whatever edges come: every entry of `ir_learn_send`
has a carrier cycle that is not 0, from a recording that succeeded, just when `VK_1` is pressed in
`IR_Learn_mode` only behind a success, and no key replays ten intervals that were all 0. -/
theorem replays_well_iff (es : List Event) :
    (∀ c ∈ (runFrom App.step App.boot es).calls, c.Well) ↔ Along App.step Proper App.boot es :=
  (run_calls zeros_boot es).trans (and_iff_right fun _ hc => absurd hc List.not_mem_nil)

/-- The single key `key`, 10 ms after the scan before. -/
def press (key : U8) (now : U32) : Event :=
  .poll ⟨now, some ⟨1#8, [key, 0#8, 0#8, 0#8, 0#8, 0#8], rfl⟩, [], false, now, now⟩

/-- **Before any edge.**  Two presses of `VK_2` enter `IR_Learn_mode`, and `VK_1` divides by 0. -/
theorem replay_before_edge :
    Call.irLearnSend 0#32 .waitKey ∈ (runFrom App.step App.boot
      [press vk2 160000#32, press vk2 320000#32, press vk1 480000#32]).calls ∧
    ¬∀ c ∈ (runFrom App.step App.boot
      [press vk2 160000#32, press vk2 320000#32, press vk1 480000#32]).calls, c.Well := by
  have hsend : Call.irLearnSend 0#32 .waitKey ∈ (runFrom App.step App.boot
      [press vk2 160000#32, press vk2 320000#32, press vk1 480000#32]).calls := by decide
  exact ⟨hsend, fun hwell => (hwell _ hsend).1 rfl⟩

end TelinkB91.Ir
