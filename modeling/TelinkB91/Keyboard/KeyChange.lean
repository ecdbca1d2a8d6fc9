import Mathlib.Data.BitVec
import TelinkB91.Lib.Runs

/-!
# Keyboard — the keys of the BLE sample

`key_change_proc` is called when the keys that are down have changed.  One key is notified on one
of two report handles, the volume keys on the consumer handle and all others on the keyboard
handle, and `key_type` remembers which.  The release is notified on the handle remembered.  Two
keys are not processed, and three or more take the branch of the release.

So a key stays down at the host when the next single key belongs to the other handle.

* `Tracks.step`: the state after one event, in terms of the events before it.
* `released_iff`: when the last event has no key, both handles are released at the host, and
  `key_not_released` has been right throughout, just when no event has three keys and no key of
  one handle gives way to a key of the other for good.
* `volume_stuck`: an event sequence for either defect.

The LEDs and the log lines are left out.
-/

namespace TelinkB91.Keyboard
open Runs

abbrev U8 := BitVec 8

abbrev U16 := BitVec 16

/-- `HID_CONSUME_REPORT_INPUT_DP_H` and `HID_NORMAL_KB_REPORT_INPUT_DP_H`. -/
inductive Handle where
  | consumer
  | keyboard
  deriving DecidableEq, Repr

/-- `kb_event`: the number of keys that are down, and their codes. -/
structure KbEvent where
  cnt : U8
  keycode : List U8
  length_keycode : keycode.length = 6

def crVolUp : U8 := 0xF0#8

def crVolDn : U8 := 0xF1#8

def vk1 : U8 := 0x1E#8

def vk2 : U8 := 0x1F#8

/-- `KB_MAP_NORMAL`, row by row. -/
def kbMapNormal : List U8 := [crVolDn, vk1, crVolUp, vk2]

def mkeyVolUp : U16 := 0x00E9#16

def mkeyVolDn : U16 := 0x00EA#16

/-- `CONSUMER_KEY` and `KEYBOARD_KEY`, the values of `key_type`. -/
def Handle.keyType : Handle → U8
  | .consumer => 1#8
  | .keyboard => 2#8

/-- The variables of `app_ui.c`, and the notifications, oldest first. -/
structure Ui where
  keyNotReleased : Int
  keyType : U8
  notified : List (Handle × List U8)
  deriving DecidableEq, Repr

def Ui.init : Ui := ⟨0, 0#8, []⟩

/-- `blc_gatt_pushHandleValueNotify`, which succeeds. -/
def Ui.notify (s : Ui) (h : Handle) (value : List U8) : Ui :=
  { s with notified := s.notified ++ [(h, value)] }

/-- The bytes of `consumer_key`. -/
def consumerBytes (w : U16) : List U8 := [w.setWidth 8, (w >>> 8).setWidth 8]

/-- `key_buf` with `key_buf[2] = key`. -/
def keyBuf (key : U8) : List U8 := [0#8, 0#8, key, 0#8, 0#8, 0#8, 0#8, 0#8]

/-- `key_change_proc`.  `stack` is what the local `consumer_key` holds before it is set. -/
def keyChangeProc (s : Ui) (e : KbEvent) (stack : U16) : Ui :=
  let key0 := e.keycode[0]?.getD 0#8
  let s := { s with keyNotReleased := 1 }
  if e.cnt = 2#8 then s
  else if e.cnt = 1#8 then
    if key0 ≥ crVolUp then
      let s := { s with keyType := Handle.consumer.keyType }
      let consumerKey :=
        if key0 = crVolUp then mkeyVolUp else if key0 = crVolDn then mkeyVolDn else stack
      s.notify .consumer (consumerBytes consumerKey)
    else
      let s := { s with keyType := Handle.keyboard.keyType }
      s.notify .keyboard (keyBuf key0)
  else
    let s := { s with keyNotReleased := 0 }
    if s.keyType = Handle.consumer.keyType then s.notify .consumer (consumerBytes 0#16)
    else if s.keyType = Handle.keyboard.keyType then s.notify .keyboard (keyBuf 0#8)
    else s

/-- An event, with what `consumer_key` holds before it is set. -/
def Ui.step (s : Ui) (e : KbEvent × U16) : Ui := keyChangeProc s e.1 e.2

/-- The keys that are down are in the map. -/
def KbEvent.InMap (e : KbEvent) : Prop := ∀ key ∈ e.keycode.take e.cnt.toNat, key ∈ kbMapNormal

instance (e : KbEvent) : Decidable e.InMap := by
  unfold KbEvent.InMap
  infer_instance

/-- The last value notified on `h`. -/
def Ui.lastValue (s : Ui) (h : Handle) : Option (List U8) :=
  ((s.notified.filter fun n => n.1 = h).getLast?).map Prod.snd

/-- On `h` the host sees a key down. -/
def Ui.Down (s : Ui) (h : Handle) : Prop := ∃ v, s.lastValue h = some v ∧ ∃ b ∈ v, b ≠ 0#8

/-- `key_not_released` after the event is 0 just when the event has no key. -/
def KnowsRelease (s : Ui) (e : KbEvent × U16) : Prop :=
  (s.step e).keyNotReleased = 0 ↔ e.1.cnt = 0#8

instance (s : Ui) (e : KbEvent × U16) : Decidable (KnowsRelease s e) := by
  unfold KnowsRelease
  infer_instance

/-! ### What an event asks for -/

/-- One key, for its handle, or no key. -/
inductive Kind where
  | press (h : Handle)
  | release
  deriving DecidableEq, Repr

/-- The handle of a key. -/
def handle (key : U8) : Handle := if key ≥ crVolUp then .consumer else .keyboard

/-- What an event asks for; two keys ask for nothing. -/
def kind (e : KbEvent × U16) : Option Kind :=
  if e.1.cnt = 2#8 then none
  else if e.1.cnt = 1#8 then some (.press (handle (e.1.keycode[0]?.getD 0#8)))
  else some .release

/-- The last key of one handle is directly followed by a key of the other. -/
def Switched (ks : List Kind) : Prop :=
  ∃ h h' xs ys, ks = xs ++ .press h :: .press h' :: ys ∧ h' ≠ h ∧ Kind.press h ∉ ys

/-- The handle of the last key. -/
def lastPress : List Kind → Option Handle
  | [] => none
  | .release :: ks => lastPress ks
  | .press h :: ks => some ((lastPress ks).getD h)

/-- The last key of `h` is not directly followed by a release. -/
def Pressed (h : Handle) (ks : List Kind) : Prop :=
  ∃ xs ys, ks = xs ++ .press h :: ys ∧ Kind.press h ∉ ys ∧ ys.head? ≠ some .release

section kinds

variable {ks : List Kind} {h h' : Handle}

theorem lastPress_append (ks ls : List Kind) :
    lastPress (ks ++ ls) = (lastPress ls).or (lastPress ks) := by
  induction ks with
  | nil => rw [List.nil_append, lastPress, Option.or_none]
  | cons k ks ih =>
      cases k with
      | release => rw [List.cons_append, lastPress, ih, lastPress]
      | press h =>
          rw [List.cons_append, lastPress, ih, lastPress]
          cases lastPress ls <;> rfl

/-- The handle of the last key is one that occurs. -/
theorem mem_of_lastPress (hlast : lastPress ks = some h) : Kind.press h ∈ ks := by
  induction ks with
  | nil => exact nomatch hlast
  | cons k ks ih =>
      cases k with
      | release => exact List.mem_cons_of_mem _ (ih hlast)
      | press h₀ =>
          rw [lastPress] at hlast
          cases hks : lastPress ks with
          | none =>
              rw [hks] at hlast
              cases hlast
              exact List.mem_cons_self
          | some h₁ =>
              rw [hks] at hlast ih
              cases hlast
              exact List.mem_cons_of_mem _ (ih rfl)

theorem not_pressed_nil : ¬ Pressed h [] := by
  rintro ⟨xs, ys, heq, -⟩
  exact List.append_ne_nil_of_right_ne_nil xs (List.cons_ne_nil _ ys) heq.symm

theorem pressed_append_press : Pressed h' (ks ++ [.press h]) ↔ h = h' ∨ Pressed h' ks := by
  constructor
  · rintro ⟨xs, ys, heq, hnot, hhead⟩
    rcases List.eq_nil_or_concat' ys with rfl | ⟨ys, k, rfl⟩
    · have hinj := List.append_inj' heq rfl
      cases hinj.2
      exact .inl rfl
    · rw [← List.cons_append, ← List.append_assoc] at heq
      obtain ⟨rfl, -⟩ := List.append_inj' heq rfl
      refine .inr ⟨xs, ys, rfl, fun hmem => hnot (List.mem_append_left _ hmem), ?_⟩
      intro hrel
      rw [List.head?_append, hrel] at hhead
      exact hhead rfl
  · rintro (rfl | ⟨xs, ys, rfl, hnot, hhead⟩)
    · exact ⟨ks, [], rfl, List.not_mem_nil, nofun⟩
    · by_cases heq : h = h'
      · exact ⟨_, [], by rw [heq], List.not_mem_nil, nofun⟩
      · refine ⟨xs, ys ++ [.press h], by rw [List.append_assoc, List.cons_append], ?_, ?_⟩
        · intro hmem
          rcases List.mem_append.mp hmem with hmem | hmem
          · exact hnot hmem
          · cases List.mem_singleton.mp hmem
            exact heq rfl
        · cases ys with
          | nil => nofun
          | cons k ys => exact hhead

theorem pressed_append_release :
    Pressed h' (ks ++ [.release]) ↔ lastPress ks ≠ some h' ∧ Pressed h' ks := by
  constructor
  · rintro ⟨xs, ys, heq, hnot, hhead⟩
    rcases List.eq_nil_or_concat' ys with rfl | ⟨ys, k, rfl⟩
    · have hinj := List.append_inj' heq rfl
      exact nomatch hinj.2
    · rw [← List.cons_append, ← List.append_assoc] at heq
      obtain ⟨rfl, hk⟩ := List.append_inj' heq rfl
      cases hk
      cases ys with
      | nil => exact absurd rfl hhead
      | cons k ys =>
          have hnot : Kind.press h' ∉ k :: ys := fun hmem => hnot (List.mem_append_left _ hmem)
          refine ⟨fun hlast => ?_, xs, k :: ys, rfl, hnot, hhead⟩
          cases k with
          | release => exact hhead rfl
          | press h₀ =>
              rw [lastPress_append, lastPress, lastPress, Option.getD_some, Option.some_or]
                at hlast
              refine hnot (mem_of_lastPress ?_)
              rw [lastPress]
              exact hlast
  · rintro ⟨hlast, xs, ys, rfl, hnot, hhead⟩
    refine ⟨xs, ys ++ [.release], by rw [List.append_assoc, List.cons_append], ?_, ?_⟩
    · intro hmem
      rcases List.mem_append.mp hmem with hmem | hmem
      · exact hnot hmem
      · exact nomatch List.mem_singleton.mp hmem
    · cases ys with
      | nil =>
          rw [lastPress_append, lastPress, lastPress] at hlast
          exact absurd rfl hlast
      | cons k ys => exact hhead

/-- At a release, a handle is left pressed just where a key of the other handle took over. -/
theorem switched_iff (hks : ks.getLast? = some .release) :
    Switched ks ↔ ∃ h, Pressed h ks := by
  constructor
  · rintro ⟨h, h', xs, ys, rfl, hne, hnot⟩
    refine ⟨h, xs, .press h' :: ys, rfl, fun hmem => ?_, nofun⟩
    rcases List.mem_cons.mp hmem with heq | hmem
    · cases heq
      exact hne rfl
    · exact hnot hmem
  · rintro ⟨h, xs, ys, rfl, hnot, hhead⟩
    cases ys with
    | nil =>
        rw [List.getLast?_append_of_ne_nil _ (List.cons_ne_nil _ _)] at hks
        exact nomatch hks
    | cons k ys =>
        cases k with
        | release => exact absurd rfl hhead
        | press h' =>
            refine ⟨h, h', xs, ys, rfl, fun heq => hnot ?_, fun hmem => hnot ?_⟩
            · rw [heq]
              exact List.mem_cons_self
            · exact List.mem_cons_of_mem _ hmem

end kinds

/-! ### The code -/

section notifications

variable {s : Ui} {h h' : Handle} {v : List U8}

theorem lastValue_notify :
    (s.notify h v).lastValue h' = if h = h' then some v else s.lastValue h' := by
  rw [Ui.lastValue, Ui.notify, List.filter_append]
  by_cases heq : h = h'
  · simp [heq]
  · simp [heq, Ui.lastValue]

theorem down_notify :
    (s.notify h v).Down h' ↔ if h = h' then ∃ b ∈ v, b ≠ 0#8 else s.Down h' := by
  rw [Ui.Down, lastValue_notify]
  split
  · constructor
    · rintro ⟨v', hv', hb⟩
      cases hv'
      exact hb
    · intro hb
      exact ⟨v, rfl, hb⟩
  · exact Iff.rfl

end notifications

/-- The code of the remembered handle. -/
def typeCode (h : Option Handle) : U8 := (h.map Handle.keyType).getD 0#8

/-- The state after events that ask for `ks`. -/
structure Tracks (s : Ui) (ks : List Kind) : Prop where
  keyType : s.keyType = typeCode (lastPress ks)
  down : ∀ h, s.Down h ↔ Pressed h ks

section steps

variable {s : Ui} {ks : List Kind}

theorem tracks_init : Tracks Ui.init [] where
  keyType := rfl
  down := by
    intro h
    constructor
    · rintro ⟨v, hv, -⟩
      exact nomatch hv
    · intro hpressed
      exact absurd hpressed not_pressed_nil

/-- A key is notified on its handle. -/
theorem Tracks.press (ht : Tracks s ks) {h : Handle} {v : List U8} (hv : ∃ b ∈ v, b ≠ 0#8)
    {s' : Ui} (hs' : s'.notified = (s.notify h v).notified) (htype : s'.keyType = h.keyType) :
    Tracks s' (ks ++ [.press h]) where
  keyType := by
    rw [htype, lastPress_append]
    rfl
  down := by
    intro h'
    have hdown : s'.Down h' ↔ (s.notify h v).Down h' := by
      rw [Ui.Down, Ui.Down, Ui.lastValue, Ui.lastValue, hs']
    rw [hdown, down_notify, pressed_append_press]
    split
    · rename_i heq
      exact ⟨fun _ => .inl heq, fun _ => hv⟩
    · rename_i hne
      rw [ht.down h', or_iff_right hne]

/-- The release is notified on the handle remembered. -/
theorem Tracks.release (ht : Tracks s ks) {s' : Ui} (hs' : s'.notified =
      match lastPress ks with
      | none => s.notified
      | some h => s.notified ++ [(h, if h = .consumer then consumerBytes 0#16 else keyBuf 0#8)])
    (htype : s'.keyType = s.keyType) : Tracks s' (ks ++ [.release]) where
  keyType := by
    rw [htype, ht.keyType, lastPress_append]
    rfl
  down := by
    intro h'
    rw [pressed_append_release, ← ht.down h']
    cases hlast : lastPress ks with
    | none =>
        -- no handle is remembered, and nothing is notified
        rw [hlast] at hs'
        have hdown : s'.Down h' ↔ s.Down h' := by
          rw [Ui.Down, Ui.Down, Ui.lastValue, Ui.lastValue, hs']
        rw [hdown]
        exact ⟨fun h => ⟨nofun, h⟩, fun h => h.2⟩
    | some h =>
        rw [hlast] at hs'
        have hdown : s'.Down h' ↔ (s.notify h
            (if h = .consumer then consumerBytes 0#16 else keyBuf 0#8)).Down h' := by
          rw [Ui.Down, Ui.Down, Ui.lastValue, Ui.lastValue, hs']
          rfl
        have hzero : ¬ ∃ b ∈ (if h = .consumer then consumerBytes 0#16 else keyBuf 0#8),
            b ≠ 0#8 := by cases h <;> decide
        rw [hdown, down_notify]
        by_cases heq : h = h'
        · subst heq
          rw [if_pos rfl]
          exact ⟨fun hb => absurd hb hzero, fun hb => absurd rfl hb.1⟩
        · rw [if_neg heq]
          exact ⟨fun hd => ⟨fun hsome => heq (Option.some.inj hsome), hd⟩, fun hd => hd.2⟩

theorem key0_mem {e : KbEvent} (hmap : e.InMap) (hcnt : e.cnt = 1#8) :
    e.keycode[0]?.getD 0#8 ∈ kbMapNormal := by
  obtain ⟨cnt, keycode, hlen⟩ := e
  cases hcnt
  cases keycode with
  | nil => exact absurd hlen (by decide)
  | cons key keys => exact hmap key List.mem_cons_self

/-- The keys of the map that are not below `CR_VOL_UP`. -/
theorem volume_key {key : U8} (hkey : key ∈ kbMapNormal) (hvol : key ≥ crVolUp) :
    key = crVolUp ∨ key = crVolDn := by
  revert key
  decide

/-- One key: it is notified on its handle, and the handle is remembered. -/
theorem Tracks.step_one (ht : Tracks s ks) {e : KbEvent} (hmap : e.InMap) (hone : e.cnt = 1#8)
    (stack : U16) : Tracks (s.step (e, stack)) (ks ++ (kind (e, stack)).toList) := by
  have htwo : ¬ e.cnt = 2#8 := by
    rw [hone]
    decide
  have hkey := key0_mem hmap hone
  obtain ⟨key, hkey0⟩ : ∃ key, e.keycode[0]?.getD 0#8 = key := ⟨_, rfl⟩
  rw [hkey0] at hkey
  have hkind : kind (e, stack) = some (.press (handle key)) := by
    rw [kind, if_neg htwo, if_pos hone, hkey0]
  rw [hkind, Option.toList_some]
  by_cases hvol : key ≥ crVolUp
  · -- no key of the map leaves the value to the stack
    rw [handle, if_pos hvol]
    have hbytes : ∃ b ∈ consumerBytes (if key = crVolUp then mkeyVolUp
        else if key = crVolDn then mkeyVolDn else stack), b ≠ 0#8 := by
      rcases volume_key hkey hvol with rfl | rfl
      · change ∃ b ∈ consumerBytes mkeyVolUp, b ≠ 0#8
        decide
      · change ∃ b ∈ consumerBytes mkeyVolDn, b ≠ 0#8
        decide
    have hstep : s.step (e, stack) = Ui.notify { s with
        keyNotReleased := 1
        keyType := Handle.consumer.keyType } .consumer (consumerBytes (if key = crVolUp then
          mkeyVolUp else if key = crVolDn then mkeyVolDn else stack)) := by
      simp only [Ui.step, keyChangeProc, if_neg htwo, if_pos hone, hkey0, if_pos hvol]
    rw [hstep]
    exact ht.press hbytes rfl rfl
  · rw [handle, if_neg hvol]
    have hbytes : ∃ b ∈ keyBuf key, b ≠ 0#8 := by
      refine ⟨key, List.mem_cons_of_mem _ (List.mem_cons_of_mem _ List.mem_cons_self), ?_⟩
      rintro rfl
      exact absurd hkey (by decide)
    have hstep : s.step (e, stack) = Ui.notify { s with
        keyNotReleased := 1
        keyType := Handle.keyboard.keyType } .keyboard (keyBuf key) := by
      simp only [Ui.step, keyChangeProc, if_neg htwo, if_pos hone, hkey0, if_neg hvol]
    rw [hstep]
    exact ht.press hbytes rfl rfl

/-- No key, or three and more: the handle remembered is released. -/
theorem Tracks.step_release (ht : Tracks s ks) {e : KbEvent} (htwo : ¬ e.cnt = 2#8)
    (hone : ¬ e.cnt = 1#8) (stack : U16) :
    Tracks (s.step (e, stack)) (ks ++ (kind (e, stack)).toList) := by
  have hkind : kind (e, stack) = some .release := by rw [kind, if_neg htwo, if_neg hone]
  rw [hkind, Option.toList_some]
  have htype := ht.keyType
  refine ht.release ?_ ?_
  · simp only [Ui.step, keyChangeProc, if_neg htwo, if_neg hone]
    cases hlast : lastPress ks with
    | none =>
        rw [hlast] at htype
        simp only [htype]
        rfl
    | some h =>
        rw [hlast] at htype
        simp only [htype]
        cases h with
        | consumer => rfl
        | keyboard => rfl
  · simp only [Ui.step, keyChangeProc, if_neg htwo, if_neg hone]
    split
    · rfl
    · split
      · rfl
      · rfl

/-- **One event.** -/
theorem Tracks.step (ht : Tracks s ks) {e : KbEvent × U16} (hmap : e.1.InMap) :
    Tracks (s.step e) (ks ++ (kind e).toList) := by
  obtain ⟨e, stack⟩ := e
  by_cases htwo : e.cnt = 2#8
  · -- two keys are not reported at all
    have hkind : kind (e, stack) = none := if_pos htwo
    have hstep : s.step (e, stack) = { s with keyNotReleased := 1 } := by
      simp only [Ui.step, keyChangeProc, if_pos htwo]
    rw [hkind, Option.toList_none, List.append_nil, hstep]
    exact ⟨ht.keyType, ht.down⟩
  · by_cases hone : e.cnt = 1#8
    · exact ht.step_one hmap hone stack
    · exact ht.step_release htwo hone stack

theorem Tracks.run (ht : Tracks s ks) {events : List (KbEvent × U16)}
    (hmap : ∀ e ∈ events, e.1.InMap) :
    Tracks (runFrom Ui.step s events) (ks ++ events.filterMap kind) := by
  induction events generalizing s ks with
  | nil =>
      rw [List.filterMap_nil, List.append_nil]
      exact ht
  | cons e events ih =>
      obtain ⟨he, hmap⟩ := List.forall_mem_cons.mp hmap
      have hrun := ih (ht.step he) hmap
      have hkinds : ks ++ (e :: events).filterMap kind =
          ks ++ (kind e).toList ++ events.filterMap kind := by
        rw [List.filterMap_cons, List.append_assoc]
        cases kind e <;> rfl
      rw [hkinds]
      exact hrun

end steps

/-- `key_not_released` is right but for three keys and more. -/
theorem knowsRelease_iff (s : Ui) (e : KbEvent × U16) : KnowsRelease s e ↔ e.1.cnt ≤ 2#8 := by
  obtain ⟨e, stack⟩ := e
  simp only [KnowsRelease, Ui.step, keyChangeProc]
  by_cases htwo : e.cnt = 2#8
  · simp [htwo]
  · by_cases hone : e.cnt = 1#8
    · simp only [if_neg htwo, if_pos hone]
      split <;> simp [Ui.notify, hone]
    · simp only [if_neg htwo, if_neg hone]
      have hcnt : e.cnt = 0#8 ↔ e.cnt ≤ 2#8 := by
        constructor <;> intro h <;> bv_omega
      rw [← hcnt]
      split
      · simp [Ui.notify]
      · split <;> simp [Ui.notify]

theorem along_knowsRelease (s : Ui) (events : List (KbEvent × U16)) :
    Along Ui.step KnowsRelease s events ↔ ∀ e ∈ events, e.1.cnt ≤ 2#8 := by
  induction events generalizing s with
  | nil => exact ⟨fun _ => nofun, fun _ => trivial⟩
  | cons e events ih => rw [along_cons, ih, knowsRelease_iff, List.forall_mem_cons]

/-- **No stuck key.**  After events of which the last has no key, both handles are released at the
host, and `key_not_released` was right after each event, just when no event had three keys or more
and, two keys apart, the last key of neither handle was directly followed by a key of the other. -/
theorem released_iff {events : List (KbEvent × U16)} {last : KbEvent × U16}
    (hmap : ∀ e ∈ events ++ [last], e.1.InMap) (hlast : last.1.cnt = 0#8) :
    ((∀ h v, (runFrom Ui.step Ui.init (events ++ [last])).lastValue h = some v →
        ∀ b ∈ v, b = 0#8) ∧
      Along Ui.step KnowsRelease Ui.init (events ++ [last])) ↔
    (∀ e ∈ events ++ [last], e.1.cnt ≤ 2#8) ∧ ¬ Switched ((events ++ [last]).filterMap kind) := by
  have htracks := tracks_init.run hmap
  rw [List.nil_append] at htracks
  have hkind : kind last = some .release := by
    rw [kind, hlast]
    rfl
  have hrelease : ((events ++ [last]).filterMap kind).getLast? = some .release := by
    rw [List.filterMap_append, List.filterMap_cons, hkind, List.filterMap_nil,
      List.getLast?_append_of_ne_nil _ (List.cons_ne_nil _ _), List.getLast?_singleton]
  have hdown : (∀ h v, (runFrom Ui.step Ui.init (events ++ [last])).lastValue h = some v →
      ∀ b ∈ v, b = 0#8) ↔ ∀ h, ¬ (runFrom Ui.step Ui.init (events ++ [last])).Down h := by
    constructor
    · rintro hall h ⟨v, hv, b, hb, hne⟩
      exact hne (hall h v hv b hb)
    · intro hnot h v hv b hb
      by_contra hne
      exact hnot h ⟨v, hv, b, hb, hne⟩
  rw [hdown, along_knowsRelease, switched_iff hrelease, not_exists, and_comm]
  exact and_congr_right fun _ => forall_congr' fun h => not_congr (htracks.down h)

/-- The keys `keys` down, of which there are six at most. -/
def down (keys : List U8) (h : keys.length ≤ 6) : KbEvent × U16 :=
  (⟨BitVec.ofNat 8 keys.length, keys ++ List.replicate (6 - keys.length) 0#8, by
    rw [List.length_append, List.length_replicate]
    omega⟩, 0xFFFF#16)

/-- A volume key, then a key of the keyboard after a release, with two keys in between. -/
theorem released_iff_volume :
    let events := [down [crVolUp] (by decide), down [] (by decide), down [vk1] (by decide),
      down [vk1, vk2] (by decide)]
    let last := down [] (by decide)
    ((∀ h v, (runFrom Ui.step Ui.init (events ++ [last])).lastValue h = some v →
        ∀ b ∈ v, b = 0#8) ∧
      Along Ui.step KnowsRelease Ui.init (events ++ [last])) ↔
    (∀ e ∈ events ++ [last], e.1.cnt ≤ 2#8) ∧
      ¬ Switched ((events ++ [last]).filterMap kind) := by
  intro events last
  exact released_iff (by decide) (by decide)

/-- **A stuck key, and a wrong flag.**  Volume up, then `VK_1` besides it, then `VK_1` alone, and
no key: the consumer handle is never released.  Three keys, and `key_not_released` is 0. -/
theorem volume_stuck :
    let s := runFrom Ui.step Ui.init [down [crVolUp] (by decide),
      down [crVolUp, vk1] (by decide), down [vk1] (by decide), down [] (by decide)]
    s.lastValue .consumer = some [0xE9#8, 0#8] ∧ s.lastValue .keyboard = some (keyBuf 0#8) ∧
      ¬ Along Ui.step KnowsRelease Ui.init
        [down [vk1, vk2, crVolUp] (by decide), down [] (by decide)] := by
  decide

end TelinkB91.Keyboard
