import TelinkB91.Keyboard.KeyChange
import TelinkB91.Lib.Runs
import TelinkB91.Sleep.Mask

/-!
# Sleep — a key that is stuck

A key that has been down for a minute must not keep the device awake.  `blt_pm_proc` then turns the
wakeup level of its pins, and in a connection it disables the advertising, pushes the release of the
key and a terminate request, and sets `sendTerminate_before_enterDeep` to 1.  `task_terminate` makes
it 2 when the link is gone, and with 2 the device enters deep sleep.

Behind that, still in the same call, a 1 is taken back when a key is down, as the stuck one is.

* `pm_stuck`: what one call does in an episode.
* `terminates_run`: every call of an episode pushes a terminate request.
* `shut_once_iff`: the shutdown is issued once just when there is no second call, the key was not
  one of the keyboard handle, whose release is longer than its buffer, and no terminate event comes,
  which would find a 0.
* `pm_gone`: the call after that has to start over.
* `terminated_twice`: two calls.
-/

namespace TelinkB91.Sleep.StuckKey
open Keyboard (Handle KbEvent Ui keyChangeProc)
open Keyboard.Button (clockTimeExceed)
open Runs

/-- What `blt_pm_proc` calls.  A release comes with the buffer it is taken from, and its length. -/
inductive PmCall where
  | setGpioWakeup (pin : Nat)
  | setWakeupSource
  | setAdvEnable (en : Bool)
  | release (h : Handle) (buffer : List U8) (len : Nat)
  | terminate
  | deepSleep
  deriving DecidableEq, Repr

def PmCall.isRelease : PmCall → Bool
  | .release _ _ _ => true
  | _ => false

/-- The globals, with those of `keyboard.c`, and the calls of `blt_pm_proc`, oldest first. -/
structure App where
  ui : Ui
  keyScanTick : U32
  stuckKeyKeyPressTime : U32
  scanPinNeed : U32
  stuckKeyPress : List U8
  sendTerminateBeforeEnterDeep : U8
  suspendMask : U8
  pmCalls : List PmCall

/-- A call of `proc_keyboard`: the time, what `kb_scan_key` leaves in `scan_pin_need` and
`stuckKeyPress`, the event that it detects, the time of that, and what `consumer_key` holds. -/
structure Scan where
  now : U32
  scanPinNeed : U32
  stuckKeyPress : List U8
  det : Option KbEvent
  pressTime : U32
  stack : Keyboard.U16

section functions

variable (s : App)

def App.call (c : PmCall) : App := { s with pmCalls := s.pmCalls ++ [c] }

/-- `proc_keyboard`. -/
def App.procKeyboard (k : Scan) : App :=
  if clockTimeExceed k.now s.keyScanTick 8000#32 then
    let s := { s with
      keyScanTick := k.now
      scanPinNeed := k.scanPinNeed
      stuckKeyPress := k.stuckKeyPress }
    match k.det with
    | some e =>
        let s := if e.cnt ≠ 0#8 then { s with stuckKeyKeyPressTime := k.pressTime ||| 1#32 } else s
        { s with ui := keyChangeProc s.ui e k.stack }
    | none => s
  else s

/-- `task_terminate`. -/
def App.taskTerminate : App :=
  if s.sendTerminateBeforeEnterDeep = 1#8 then { s with sendTerminateBeforeEnterDeep := 2#8 } else s

/-- The drive pins with a stuck key. -/
def App.stuckPins : List PmCall :=
  ((List.range 2).filter fun i => s.stuckKeyPress.getD i 0#8 ≠ 0#8).map .setGpioWakeup

/-- The release for the handle of the last key. -/
def App.releases : List PmCall :=
  if s.ui.keyType = Handle.consumer.keyType then [.release .consumer [0#8, 0#8] 2]
  else if s.ui.keyType = Handle.keyboard.keyType then [.release .keyboard [0#8, 0#8] 8]
  else []

/-- The block of `blt_pm_proc` for a stuck key. -/
def App.shutDown (state : LinkState) : App :=
  let s := App.call { s with pmCalls := s.pmCalls ++ s.stuckPins } .setWakeupSource
  if state = .conn then
    let s := s.call (.setAdvEnable false)
    let s := App.call { s with pmCalls := s.pmCalls ++ s.releases } .terminate
    { s with sendTerminateBeforeEnterDeep := 1#8 }
  else { s with sendTerminateBeforeEnterDeep := 2#8 }

/-- The last block. -/
def App.enterDeep (userTaskFlg : Bool) : App :=
  if s.sendTerminateBeforeEnterDeep = 1#8 then
    if userTaskFlg then
      App.call { s with sendTerminateBeforeEnterDeep := 0#8 } (.setAdvEnable true)
    else s
  else if s.sendTerminateBeforeEnterDeep = 2#8 then s.call .deepSleep
  else s

/-- A key has been down for a minute. -/
def App.Stuck (now : U32) : Prop :=
  s.ui.keyNotReleased ≠ 0 ∧ clockTimeExceed now s.stuckKeyKeyPressTime 60000000#32 = true

instance (now : U32) : Decidable (s.Stuck now) := inferInstanceAs (Decidable (_ ∧ _))

/-- `blt_pm_proc`. -/
def App.bltPmProc (state : LinkState) (now : U32) : App :=
  let s := { s with suspendMask :=
    suspendAdv ||| deepsleepRetentionAdv ||| suspendConn ||| deepsleepRetentionConn }
  let userTaskFlg := decide (s.scanPinNeed ≠ 0#32 ∨ s.ui.keyNotReleased ≠ 0)
  let s := if userTaskFlg then { s with suspendMask := suspendDisable } else s
  let s := if s.Stuck now then s.shutDown state else s
  s.enterDeep userTaskFlg

end functions

inductive Event where
  | scan (k : Scan)
  | pm (state : LinkState) (now : U32)
  | terminated

def App.step (s : App) : Event → App
  | .scan k => s.procKeyboard k
  | .pm state now => s.bltPmProc state now
  | .terminated => s.taskTerminate

def Event.isPm : Event → Bool
  | .pm _ _ => true
  | _ => false

/-- An episode in a connection: the key stays down, the minute has passed, and no terminate event
has come. -/
def Episode (s : App) : Event → Prop
  | .scan k => (s.procKeyboard k).ui.keyNotReleased ≠ 0
  | .pm state now => state = .conn ∧ s.Stuck now
  | .terminated => False

instance (s : App) : (e : Event) → Decidable (Episode s e)
  | .scan _ => inferInstanceAs (Decidable (_ ≠ _))
  | .pm _ _ => inferInstanceAs (Decidable (_ ∧ _))
  | .terminated => inferInstanceAs (Decidable False)

/-- The calls since `s`. -/
def since (s t : App) : List PmCall := t.pmCalls.drop s.pmCalls.length

/-- From `s` to `t` the shutdown is issued once, as it should be when the terminate event has come,
or has not yet. -/
structure ShutOnce (s t : App) (ended : Bool) : Prop where
  release : (since s t).countP PmCall.isRelease ≤ 1
  terminate : (since s t).count .terminate ≤ 1
  zero : ∀ h buffer len, .release h buffer len ∈ since s t →
    len ≤ buffer.length ∧ ∀ b ∈ buffer.take len, b = 0#8
  two : ended = true → t.taskTerminate.sendTerminateBeforeEnterDeep = 2#8

section episode

variable {s : App}

/-- What a call pushes in an episode. -/
def App.shutCalls (s : App) : List PmCall :=
  s.stuckPins ++ [.setWakeupSource, .setAdvEnable false] ++ s.releases ++
    [.terminate, .setAdvEnable true]

theorem shutDown_conn (s : App) : s.shutDown .conn = { s with
    sendTerminateBeforeEnterDeep := 1#8
    pmCalls := s.pmCalls ++
      (s.stuckPins ++ [.setWakeupSource, .setAdvEnable false] ++ s.releases ++ [.terminate]) } := by
  rw [App.shutDown, if_pos rfl]
  simp only [App.call, App.releases, List.append_assoc, List.cons_append, List.nil_append]

/-- While a key is stuck, every call starts the shutdown. -/
theorem bltPmProc_stuck {state : LinkState} {now : U32} (h : s.Stuck now) :
    s.bltPmProc state now =
      (App.shutDown { s with suspendMask := suspendDisable } state).enterDeep true := by
  have htask : decide (s.scanPinNeed ≠ 0#32 ∨ s.ui.keyNotReleased ≠ 0) = true :=
    decide_eq_true (.inr h.1)
  have hstuck : App.Stuck { s with suspendMask := suspendDisable } now := h
  rw [App.bltPmProc]
  dsimp only
  rw [htask, if_pos rfl, if_pos hstuck]

/-- **One call of `blt_pm_proc` in an episode.** -/
theorem pm_stuck {now : U32} (h : s.Stuck now) : s.bltPmProc .conn now = { s with
    suspendMask := suspendDisable
    sendTerminateBeforeEnterDeep := 0#8
    pmCalls := s.pmCalls ++ s.shutCalls } := by
  rw [bltPmProc_stuck h, shutDown_conn, App.enterDeep, if_pos rfl, if_pos rfl]
  simp only [App.call, App.shutCalls, App.stuckPins, App.releases, List.append_assoc,
    List.cons_append, List.nil_append]

/-- The keys have no part in the calls. -/
theorem scan_pmCalls (k : Scan) : (s.procKeyboard k).pmCalls = s.pmCalls ∧
    (s.procKeyboard k).sendTerminateBeforeEnterDeep = s.sendTerminateBeforeEnterDeep := by
  rw [App.procKeyboard]
  split_ifs
  · cases k.det with
    | none => exact ⟨rfl, rfl⟩
    | some e =>
        dsimp only
        split_ifs <;> exact ⟨rfl, rfl⟩
  · exact ⟨rfl, rfl⟩

/-- There is a terminate request in the calls of one call, and no more. -/
theorem count_shutCalls (s : App) : s.shutCalls.count .terminate = 1 := by
  have hpins : s.stuckPins.count .terminate = 0 := by
    rw [List.count_eq_zero]
    intro hmem
    obtain ⟨i, -, hi⟩ := List.mem_map.mp hmem
    exact nomatch hi
  have hreleases : s.releases.count .terminate = 0 := by
    rw [App.releases]
    split_ifs <;> rfl
  rw [App.shutCalls, List.count_append, List.count_append, List.count_append, hpins, hreleases]
  rfl

/-- **Every call of an episode** pushes a terminate request. -/
theorem terminates_run {es : List Event} (h : Along App.step Episode s es) :
    ∃ new, (runFrom App.step s es).pmCalls = s.pmCalls ++ new ∧
      new.count .terminate = es.countP Event.isPm := by
  induction es generalizing s with
  | nil => exact ⟨[], (List.append_nil _).symm, rfl⟩
  | cons e es ih =>
      obtain ⟨new, hnew, hcount⟩ := ih h.2
      rw [runFrom_cons, hnew]
      cases e with
      | scan k =>
          refine ⟨new, ?_, hcount⟩
          rw [App.step, (scan_pmCalls k).1]
      | pm state now =>
          obtain ⟨rfl, hstuck⟩ := h.1
          refine ⟨s.shutCalls ++ new, ?_, ?_⟩
          · rw [App.step, pm_stuck hstuck, List.append_assoc]
          · rw [List.count_append, count_shutCalls, hcount, List.countP_cons_of_pos rfl,
              Nat.add_comm]
      | terminated => exact h.1.elim

/-- Without a call, the keys leave everything behind. -/
theorem quiet_run {es : List Event} (h : Along App.step Episode s es)
    (hquiet : ∀ e ∈ es, e.isPm = false) : (runFrom App.step s es).pmCalls = s.pmCalls ∧
      (runFrom App.step s es).sendTerminateBeforeEnterDeep = s.sendTerminateBeforeEnterDeep := by
  induction es generalizing s with
  | nil => exact ⟨rfl, rfl⟩
  | cons e es ih =>
      obtain ⟨hcalls, hsend⟩ := ih h.2 fun e he => hquiet e (List.mem_cons_of_mem _ he)
      rw [runFrom_cons, hcalls, hsend]
      cases e with
      | scan k => exact scan_pmCalls k
      | pm state now =>
          have hpm : true = false := hquiet (.pm state now) List.mem_cons_self
          exact absurd hpm (by decide)
      | terminated => exact h.1.elim

/-- The releases of one call. -/
theorem mem_shutCalls {h : Handle} {buffer : List U8} {len : Nat} :
    PmCall.release h buffer len ∈ s.shutCalls ↔ PmCall.release h buffer len ∈ s.releases := by
  have hpins : PmCall.release h buffer len ∉ s.stuckPins := by
    intro hmem
    obtain ⟨i, -, hi⟩ := List.mem_map.mp hmem
    exact nomatch hi
  simp [App.shutCalls, hpins]

theorem countP_shutCalls (s : App) : s.shutCalls.countP PmCall.isRelease ≤ 1 := by
  have hpins : s.stuckPins.countP PmCall.isRelease = 0 := by
    rw [List.countP_eq_zero]
    intro c hmem
    obtain ⟨i, -, rfl⟩ := List.mem_map.mp hmem
    exact Bool.false_ne_true
  have hreleases : s.releases.countP PmCall.isRelease ≤ 1 := by
    rw [App.releases]
    split_ifs <;> decide
  rw [App.shutCalls, List.countP_append, List.countP_append, List.countP_append, hpins]
  simpa [PmCall.isRelease] using hreleases

/-- The terminate event finds a 0. -/
theorem terminated_zero (h : s.sendTerminateBeforeEnterDeep = 0#8) :
    s.taskTerminate.sendTerminateBeforeEnterDeep = 0#8 := by
  rw [App.taskTerminate, h, if_neg (by decide), h]

theorem enterDeep_two (h : s.sendTerminateBeforeEnterDeep = 2#8) (userTaskFlg : Bool) :
    s.enterDeep userTaskFlg = s.call .deepSleep := by
  rw [App.enterDeep, h, if_neg (by decide), if_pos rfl]

/-- **The shutdown is issued once.**  From the call of `blt_pm_proc` that finds the key stuck, and
through any further events of the episode: there is one release, of zero bytes from its buffer, one
terminate request, and a 2 behind the terminate event, just when there is no second call, the key
was not one of the keyboard handle, and the terminate event has not come. -/
theorem shut_once_iff (s : App) (now : U32) (es : List Event) (ended : Bool)
    (h : Along App.step Episode s (.pm .conn now :: es)) :
    ShutOnce s (runFrom App.step s (.pm .conn now :: es)) ended ↔
      (∀ e ∈ es, e.isPm = false) ∧ s.ui.keyType ≠ Handle.keyboard.keyType ∧ ended = false := by
  have hstuck : s.Stuck now := h.1.2
  have hrest : Along App.step Episode (s.bltPmProc .conn now) es := h.2
  obtain ⟨new, hnew, hcount⟩ := terminates_run hrest
  have hsince : since s (runFrom App.step s (.pm .conn now :: es)) = s.shutCalls ++ new := by
    rw [since, runFrom_cons, App.step, hnew, pm_stuck hstuck]
    dsimp only
    rw [List.append_assoc, List.drop_left]
  have hterminate : (s.shutCalls ++ new).count .terminate = 1 + es.countP Event.isPm := by
    rw [List.count_append, count_shutCalls, hcount]
  constructor
  · intro honce
    have hquiet : ∀ e ∈ es, e.isPm = false := by
      have hle := honce.terminate
      rw [hsince, hterminate] at hle
      have hzero : es.countP Event.isPm = 0 := by omega
      intro e he
      exact Bool.eq_false_iff.mpr (List.countP_eq_zero.mp hzero e he)
    refine ⟨hquiet, fun hkey => ?_, Bool.eq_false_iff.mpr fun hended => ?_⟩
    · have hmem : PmCall.release .keyboard [0#8, 0#8] 8 ∈ s.shutCalls := by
        rw [mem_shutCalls, App.releases, hkey, if_neg (by decide), if_pos rfl]
        exact List.mem_singleton_self _
      have hlen := (honce.zero .keyboard [0#8, 0#8] 8 (by
        rw [hsince]
        exact List.mem_append_left _ hmem)).1
      exact absurd hlen (by decide)
    · have hsend := (quiet_run hrest hquiet).2
      rw [pm_stuck hstuck] at hsend
      have htwo := honce.two hended
      rw [runFrom_cons, App.step, pm_stuck hstuck, terminated_zero hsend] at htwo
      exact absurd htwo (by decide)
  · rintro ⟨hquiet, hkey, hended⟩
    have hnil : new = [] := by
      have hcalls := (quiet_run hrest hquiet).1
      rw [hnew] at hcalls
      exact List.append_right_eq_self.mp hcalls
    rw [hnil, List.append_nil] at hsince
    rw [hnil, List.append_nil] at hterminate
    refine ⟨?_, ?_, fun hd buffer len hmem => ?_, fun he => ?_⟩
    · rw [hsince]
      exact countP_shutCalls s
    · rw [hsince, count_shutCalls]
    · rw [hsince, mem_shutCalls, App.releases, if_neg hkey] at hmem
      split_ifs at hmem
      · cases List.mem_singleton.mp hmem
        decide
      · exact absurd hmem List.not_mem_nil
    · exact absurd (he.symm.trans hended) (by decide)

/-- Behind the terminate event, the next call has to start over: it is only then that the device
goes to deep sleep. -/
theorem pm_gone {state : LinkState} {now : U32} (hstate : state ≠ .conn) (h : s.Stuck now) :
    (s.bltPmProc state now).sendTerminateBeforeEnterDeep = 2#8 ∧
      PmCall.deepSleep ∈ (s.bltPmProc state now).pmCalls := by
  rw [bltPmProc_stuck h, App.shutDown, if_neg hstate, enterDeep_two rfl]
  exact ⟨rfl, List.mem_append_right _ List.mem_cons_self⟩

end episode

/-- A volume key has been down from the time 1 on. -/
def volumeDown : App where
  ui := ⟨1, Handle.consumer.keyType, [(.consumer, [0xE9#8, 0#8])]⟩
  keyScanTick := 1#32
  stuckKeyKeyPressTime := 1#32
  scanPinNeed := 1#32
  stuckKeyPress := [1#8, 0#8]
  sendTerminateBeforeEnterDeep := 0#8
  suspendMask := suspendDisable
  pmCalls := []

/-- The next scan, 10 ms later: the key is still down. -/
def stillDown : Scan := ⟨960160002#32, 1#32, [1#8, 0#8], none, 0#32, 0#16⟩

theorem shut_once_volume :
    Along App.step Episode volumeDown [.pm .conn 960000002#32, .scan stillDown] ∧
    (ShutOnce volumeDown
        (runFrom App.step volumeDown [.pm .conn 960000002#32, .scan stillDown]) false ↔
      (∀ e ∈ [Event.scan stillDown], e.isPm = false) ∧
        volumeDown.ui.keyType ≠ Handle.keyboard.keyType ∧ false = false) := by
  have hepisode : Along App.step Episode volumeDown
      [.pm .conn 960000002#32, .scan stillDown] := by decide
  exact ⟨hepisode, shut_once_iff volumeDown 960000002#32 [.scan stillDown] false hepisode⟩

/-- **Two calls.**  The second pushes it all again, and the terminate event finds a 0. -/
theorem terminated_twice :
    let t := runFrom App.step volumeDown [.pm .conn 960000002#32, .pm .conn 960160002#32]
    Along App.step Episode volumeDown [.pm .conn 960000002#32, .pm .conn 960160002#32] ∧
      t.pmCalls.count .terminate = 2 ∧ t.pmCalls.countP PmCall.isRelease = 2 ∧
      t.taskTerminate.sendTerminateBeforeEnterDeep = 0#8 ∧ ¬ShutOnce volumeDown t true := by
  have hcount : (since volumeDown (runFrom App.step volumeDown
      [.pm .conn 960000002#32, .pm .conn 960160002#32])).count .terminate = 2 := by decide
  refine ⟨by decide, hcount, by decide, by decide, fun honce => ?_⟩
  have hle := honce.terminate
  rw [hcount] at hle
  exact absurd hle (by decide)

end TelinkB91.Sleep.StuckKey
