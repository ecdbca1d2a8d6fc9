import TelinkB91.Usb.Keyboard
import TelinkB91.Usb.Order

/-!
# Usb — no key stays down at the host

`usbkb_not_released` marks that a normal key is down at the host.  It is set where the report went
out at once.  Where the endpoint was busy the report goes out later, from the FIFO, and the mark is
not set then: neither an empty report nor `usbkb_release_check` releases such a key.

* `Held.step`: where every key that goes out from the FIFO finds the mark set, the mark is set
  whenever the last keyboard report at the host has a key or a modifier.
* `Clear.releaseKeys`: after the keys are released, the last report written or waiting is empty.
* `released`: in such a run, once the timeout has passed and the FIFO is drained, the last keyboard
  report at the host is empty.
* `stuck`: a key pressed and released while the endpoint is busy.
-/

namespace TelinkB91.Usb
open Ring Runs

/-- The report of no keys and no modifiers. -/
def Report.IsZero (r : Report) : Prop := r.head = 0#8 ∧ ∀ b ∈ r.data, b = 0#8

instance (r : Report) : Decidable r.IsZero := by
  unfold Report.IsZero
  infer_instance

/-- The last keyboard report, if there is one, is empty. -/
def LastZero (reports : List Report) : Prop := ∀ r, reports.getLast? = some r → r.IsZero

instance (reports : List Report) : Decidable (LastZero reports) :=
  match h : reports.getLast? with
  | none => .isTrue fun r hr => by rw [h] at hr; exact nomatch hr
  | some r => decidable_of_iff r.IsZero ⟨fun hz r' hr' => by
      rw [h] at hr'
      cases hr'
      exact hz, fun hz => hz r h⟩

/-- The mark of the normal keys. -/
def Kb.Marked (k : Kb) : Prop := k.usbkbNotReleased &&& kbNormalReleaseMask ≠ 0#32

instance (k : Kb) : Decidable k.Marked := inferInstanceAs (Decidable (_ ≠ _))

/-- A keyboard report with a key or a modifier that goes out from the FIFO finds the mark set. -/
def MarkedFirst (k : Kb) : Call → Prop
  | .proc false =>
      match k.hid.pipe.queue with
      | (.keyboard, r) :: _ => ¬ r.IsZero → k.Marked
      | _ => True
  | .proc true | .report _ _ _ | .releaseCheck _ _ => True

instance (k : Kb) (c : Call) : Decidable (MarkedFirst k c) := by
  unfold MarkedFirst
  split
  · split <;> infer_instance
  all_goals infer_instance

/-! ### The marks -/

theorem or_mark (n : U32) : (n ||| kbNormalReleaseMask) &&& kbNormalReleaseMask ≠ 0#32 := by
  intro h
  have hbit := congrArg (fun x : U32 => x.getLsbD 0) h
  simp [kbNormalReleaseMask] at hbit

theorem and_not_mark (n : U32) : n &&& ~~~kbNormalReleaseMask &&& kbNormalReleaseMask = 0#32 := by
  rw [BitVec.and_assoc, BitVec.not_and_self]
  exact BitVec.and_zero

/-- The mark of the system or of the media keys. -/
def Other (mask : U32) : Prop := mask = kbSysReleaseMask ∨ mask = kbMediaReleaseMask

theorem Other.or {mask : U32} (h : Other mask) (n : U32) :
    (n ||| mask) &&& kbNormalReleaseMask = n &&& kbNormalReleaseMask := by
  have hzero : mask &&& kbNormalReleaseMask = 0#32 := by rcases h with rfl | rfl <;> rfl
  rw [BitVec.and_or_distrib_right, hzero, BitVec.or_zero]

theorem Other.and_not {mask : U32} (h : Other mask) (n : U32) :
    n &&& ~~~mask &&& kbNormalReleaseMask = n &&& kbNormalReleaseMask := by
  have hone : ~~~mask &&& kbNormalReleaseMask = kbNormalReleaseMask := by
    rcases h with rfl | rfl <;> rfl
  rw [BitVec.and_assoc, hone]

/-! ### One report -/

/-- What a call on the way of the system or of the media keys does to the FIFO and the mark. -/
structure Beside (k k' : Kb) : Prop where
  valid : k'.hid.Valid
  marked : k'.Marked ↔ k.Marked
  pipe : k'.hid.pipe = k.hid.pipe ∨
    ∃ busy r, k'.hid.pipe = k.hid.pipe.submit .mouse busy r

section reports

variable {k : Kb} {mask : U32} {r : Report}

theorem press_beside (h : k.hid.Valid) (hmask : Other mask) (hr : r.Fits .mouse) (busy : Bool) :
    Beside k (k.press mask fun s => submit .mouse s busy r) := by
  obtain ⟨hvalid, hpipe⟩ := submit_pipe h hr busy
  refine ⟨hvalid, ?_, .inr ⟨busy, r, hpipe⟩⟩
  cases busy with
  | true => exact Iff.rfl
  | false => exact not_congr (Eq.congr (hmask.or _) rfl)

theorem release_beside (h : k.hid.Valid) (hmask : Other mask) (hr : r.Fits .mouse) (busy : Bool) :
    Beside k (k.release mask fun s => submit .mouse s busy r) := by
  rw [Kb.release]
  split
  · obtain ⟨hvalid, hpipe⟩ := submit_pipe h hr busy
    refine ⟨hvalid, ?_, .inr ⟨busy, r, hpipe⟩⟩
    cases busy with
    | true => exact Iff.rfl
    | false => exact not_congr (Eq.congr (hmask.and_not _) rfl)
  · exact ⟨h, Iff.rfl, .inl rfl⟩

theorem releaseSysKey_beside (h : k.hid.Valid) (busy : Bool) :
    Beside k (usbkbReleaseSysKey k busy) := by
  refine release_beside h (.inl rfl) ?_ busy
  exact Nat.le_of_ble_eq_true rfl

theorem releaseMediaKey_beside (h : k.hid.Valid) (busy : Bool) :
    Beside k (usbkbReleaseMediaKey k busy) := by
  refine release_beside h (.inr rfl) ?_ busy
  exact Nat.le_of_ble_eq_true rfl

theorem sysKey_beside (h : k.hid.Valid) (busy : Bool) (extKey : U8) :
    Beside k (usbkbReportSysKey k busy extKey) := by
  rw [usbkbReportSysKey]
  split
  · refine press_beside h (.inl rfl) ?_ busy
    exact Nat.le_of_ble_eq_true rfl
  · exact releaseSysKey_beside h busy

theorem mediaKey_beside (h : k.hid.Valid) (busy : Bool) (extKey : U8) :
    Beside k (usbkbReportMediaKey k busy extKey) := by
  rw [usbkbReportMediaKey]
  split
  · refine press_beside h (.inr rfl) ?_ busy
    exact Nat.le_of_ble_eq_true rfl
  · exact releaseMediaKey_beside h busy

theorem Beside.written {k' : Kb} (h : Beside k k') :
    k'.hid.written .keyboard = k.hid.written .keyboard := by
  have hwritten : ∀ s : Hid, s.written = s.pipe.written := fun _ => rfl
  rw [hwritten, hwritten]
  rcases h.pipe with heq | ⟨busy, r, heq⟩
  · rw [heq]
  · rw [heq]
    cases busy with
    | true => rfl
    | false =>
        have hsend : ∀ p : Pipe, p.submit .mouse false r = p.send .mouse r := fun _ => rfl
        rw [hsend, written_send, if_neg (by decide), List.append_nil]

theorem lastZero_append {reports : List Report} (h : r.IsZero) : LastZero (reports ++ [r]) := by
  intro r' hr'
  rw [List.getLast?_append_of_ne_nil _ (List.cons_ne_nil _ _), List.getLast?_singleton] at hr'
  cases hr'
  exact h

end reports

/-! ### Runs -/

/-- Without the mark, the last keyboard report at the host is empty. -/
structure Kb.Held (k : Kb) : Prop where
  valid : k.hid.Valid
  unmarked : ¬ k.Marked → LastZero (k.hid.written .keyboard)

/-- With the mark, the last keyboard report written or waiting is empty too. -/
structure Kb.Clear (k : Kb) : Prop extends k.Held where
  marked : k.Marked → LastZero (k.hid.pipe.written .keyboard ++ k.hid.pipe.waiting .keyboard)

section steps

variable {k k' : Kb}

theorem Kb.Held.beside (h : k.Held) (hb : Beside k k') : k'.Held where
  valid := hb.valid
  unmarked := by
    intro hk
    rw [hb.written]
    exact h.unmarked fun hmarked => hk (hb.marked.mpr hmarked)

/-- The report of no keys. -/
def zeroReport : Report := ⟨0#8, List.replicate 6 0#8⟩

theorem zeroReport_isZero : zeroReport.IsZero := by decide

theorem zeroReport_fits : zeroReport.Fits .keyboard := rfl

theorem written_keyboard (p : Pipe) (r : Report) :
    (p.send .keyboard r).written .keyboard = p.written .keyboard ++ [r] := by
  rw [written_send, if_pos rfl]

theorem Kb.Held.press (h : k.Held) (busy : Bool) {r : Report} (hr : r.Fits .keyboard) :
    (k.press kbNormalReleaseMask fun s => submit .keyboard s busy r).Held := by
  cases busy with
  | true => exact ⟨(put_pipe h.valid hr).1, h.unmarked⟩
  | false => exact ⟨(send_pipe h.valid).1, fun hk => absurd (or_mark _) hk⟩

theorem releaseNormal_unmarked (h : ¬ k.Marked) (busy : Bool) :
    usbkbReleaseNormalKey k busy = k := if_neg h

theorem releaseNormal_busy (h : k.Marked) : usbkbReleaseNormalKey k true =
    { k with hid := k.hid.put .keyboard zeroReport } := if_pos h

theorem releaseNormal_idle (h : k.Marked) : usbkbReleaseNormalKey k false =
    { k with
      hid := k.hid.send .keyboard zeroReport
      usbkbNotReleased := k.usbkbNotReleased &&& ~~~kbNormalReleaseMask } := if_pos h

theorem Kb.Held.releaseNormal (h : k.Held) (busy : Bool) :
    (usbkbReleaseNormalKey k busy).Held := by
  by_cases hk : k.Marked
  · cases busy with
    | true =>
        -- the release waits, and the mark stays
        rw [releaseNormal_busy hk]
        exact ⟨(put_pipe h.valid zeroReport_fits).1, h.unmarked⟩
    | false =>
        rw [releaseNormal_idle hk]
        refine ⟨(send_pipe h.valid).1, fun _ => ?_⟩
        have hwritten := written_keyboard k.hid.pipe zeroReport
        have hlast : LastZero (k.hid.pipe.written .keyboard ++ [zeroReport]) :=
          lastZero_append zeroReport_isZero
        rw [← hwritten] at hlast
        exact hlast
  · rw [releaseNormal_unmarked hk]
    exact h

theorem length_separateKey (keys : List U8 × U8) (key : U8) :
    (separateKey keys key).1.length ≤ keys.1.length + 1 := by
  rw [separateKey]
  split
  · exact Nat.le_succ _
  · rw [List.length_append, List.length_singleton]

theorem length_separate (keycode : List U8) (cnt : U8) :
    (usbkbSeparateKeyTypes keycode cnt).1.length ≤ cnt.toNat := by
  suffices h : ∀ (codes : List U8) (keys : List U8 × U8),
      (codes.foldl separateKey keys).1.length ≤ keys.1.length + codes.length by
    refine (h _ _).trans ?_
    rw [List.length_nil, Nat.zero_add]
    exact List.length_take_le _ _
  intro codes
  induction codes with
  | nil =>
      intro keys
      exact Nat.le_refl _
  | cons key codes ih =>
      intro keys
      have hkey := length_separateKey keys key
      have hcodes := ih (separateKey keys key)
      rw [List.foldl_cons, List.length_cons]
      omega

theorem Kb.Held.reportNormal (h : k.Held) (busy : Bool) (ctrlKey : U8) {keycode : List U8}
    (hkeycode : keycode.length = 6) (cnt : Nat) :
    (usbkbReportNormalKey k busy ctrlKey keycode cnt).Held := by
  rw [usbkbReportNormalKey]
  split
  · refine h.press busy ?_
    exact hkeycode
  · exact h.releaseNormal busy

/-- The variables a report does not look at. -/
theorem Kb.Held.congr (h : k.Held) (hhid : k'.hid = k.hid)
    (hmarks : k'.usbkbNotReleased = k.usbkbNotReleased) : k'.Held := by
  obtain ⟨hid, marks, time, last⟩ := k
  obtain ⟨hid', marks', time', last'⟩ := k'
  cases hhid
  cases hmarks
  exact ⟨h.valid, h.unmarked⟩

theorem checkRepeat_same (k : Kb) (data : KbData) :
    (usbkbCheckRepeatAndSave k data).1.hid = k.hid ∧
      (usbkbCheckRepeatAndSave k data).1.usbkbNotReleased = k.usbkbNotReleased := by
  rw [usbkbCheckRepeatAndSave]
  split
  · exact ⟨rfl, rfl⟩
  · exact ⟨rfl, rfl⟩

theorem Kb.Held.report (h : k.Held) (data : KbData) (busy : Busy) (now : U32) :
    (usbkbHidReport k data busy now).Held := by
  rw [usbkbHidReport]
  split
  · exact h
  · rename_i hcnt
    obtain ⟨⟨k₁, same⟩, hk₁⟩ : ∃ r : Kb × Bool,
      (if data.cnt > 0#8 ∨ data.ctrlKey ≠ 0#8 then usbkbCheckRepeatAndSave k data
        else (k, false)) = r := ⟨_, rfl⟩
    have h₁ : k₁.Held := by
      have hsame : k₁.hid = k.hid ∧ k₁.usbkbNotReleased = k.usbkbNotReleased := by
        split at hk₁
        · have hcheck := checkRepeat_same k data
          rw [hk₁] at hcheck
          exact hcheck
        · cases hk₁
          exact ⟨rfl, rfl⟩
      exact h.congr hsame.1 hsame.2
    rw [hk₁]
    dsimp only
    split
    · exact h₁.congr rfl rfl
    · -- six keys at most, so the key codes fill the six bytes of a report
      have hlen := length_separate data.keycode data.cnt
      have hkeycode : ((usbkbSeparateKeyTypes data.keycode data.cnt).1 ++ List.replicate
        (6 - (usbkbSeparateKeyTypes data.keycode data.cnt).1.length) 0#8).length = 6 := by
        have hsix : data.cnt.toNat ≤ 6 := by
          rw [gt_iff_lt, BitVec.lt_def] at hcnt
          exact Nat.not_lt.mp hcnt
        rw [List.length_append, List.length_replicate]
        omega
      have hnormal := h₁.reportNormal busy.normal data.ctrlKey hkeycode
        (usbkbSeparateKeyTypes data.keycode data.cnt).1.length
      have hsys := hnormal.beside (sysKey_beside hnormal.valid busy.sys
        (usbkbSeparateKeyTypes data.keycode data.cnt).2)
      have hmedia := hsys.beside (mediaKey_beside hsys.valid busy.media
        (usbkbSeparateKeyTypes data.keycode data.cnt).2)
      exact hmedia.congr rfl rfl

theorem Kb.Held.proc (h : k.Held) {busy : Bool} (hmarked : MarkedFirst k (.proc busy)) :
    (k.step (.proc busy)).Held := by
  obtain ⟨hvalid, hpipe⟩ := proc_pipe h.valid busy
  refine ⟨hvalid, ?_⟩
  intro hk
  have hk : ¬ k.Marked := hk
  have hlast := h.unmarked hk
  have hwritten : (k.step (.proc busy)).hid.written = (k.hid.pipe.proc busy).written :=
    congrArg Pipe.written hpipe
  rw [hwritten, Pipe.proc]
  cases hq : k.hid.pipe.queue with
  | nil => exact hlast
  | cons e queue =>
      obtain ⟨ep, r⟩ := e
      cases busy with
      | true => exact hlast
      | false =>
          change LastZero ((k.hid.pipe.send ep r).written .keyboard)
          cases ep with
          | mouse =>
              rw [written_send, if_neg (by decide), List.append_nil]
              exact hlast
          | keyboard =>
              -- with no mark set, only an empty report may go out
              have hzero : r.IsZero := by
                by_contra hr
                rw [MarkedFirst, hq] at hmarked
                exact hk (hmarked hr)
              rw [written_keyboard]
              exact lastZero_append hzero

/-- A report that waits behind all others still waits when a mouse report comes. -/
theorem waiting_beside {k' : Kb} (hb : Beside k k') {queue : List (Ep × Report)} {r : Report}
    (hq : k.hid.pipe.queue = queue ++ [(.keyboard, r)]) :
    ∃ reports, k'.hid.pipe.waiting .keyboard = reports ++ [r] := by
  have hsame : k.hid.pipe.waiting .keyboard =
      Pipe.waiting { k.hid.pipe with queue := queue } .keyboard ++ [r] := by
    rw [Pipe.waiting, hq, List.filterMap_append]
    rfl
  rcases hb.pipe with heq | ⟨busy, m, heq⟩
  · exact ⟨_, (congrArg (Pipe.waiting · .keyboard) heq).trans hsame⟩
  · cases busy with
    | false => exact ⟨_, (congrArg (Pipe.waiting · .keyboard) heq).trans hsame⟩
    | true =>
        have hput : k'.hid.pipe.waiting .keyboard = _ :=
          (congrArg (Pipe.waiting · .keyboard) heq).trans waiting_put
        rw [hput, if_neg (by decide : ¬ Ep.mouse = Ep.keyboard), List.append_nil]
        split
        · exact ⟨_, hsame⟩
        · rename_i hfull
          -- the oldest of four entries is not the last
          obtain ⟨e, rest, rfl⟩ : ∃ e rest, queue = e :: rest := by
            cases queue with
            | nil =>
                rw [hq] at hfull
                exact absurd (by decide : 1 < usbFifoNum) hfull
            | cons e rest => exact ⟨e, rest, rfl⟩
          rw [hq, Pipe.waiting, List.cons_append, List.tail_cons, List.filterMap_append]
          exact ⟨_, rfl⟩

/-- A mark that is still there after the release: the release is in the FIFO. -/
theorem Kb.Held.releaseNormal_waits (h : k.Held) {busy : Bool}
    (hmarked : (usbkbReleaseNormalKey k busy).Marked) : ∃ queue,
      (usbkbReleaseNormalKey k busy).hid.pipe.queue = queue ++ [(.keyboard, zeroReport)] := by
  by_cases hk : k.Marked
  · cases busy with
    | false =>
        rw [releaseNormal_idle hk] at hmarked
        exact absurd (and_not_mark _) hmarked
    | true =>
        rw [releaseNormal_busy hk]
        exact ⟨_, congrArg Pipe.queue (put_pipe h.valid zeroReport_fits).2⟩
  · rw [releaseNormal_unmarked hk] at hmarked
    exact absurd hmarked hk

/-- **The keys released.** -/
theorem Kb.Held.releaseKeys (h : k.Held) (busy : Busy) : (usbkbReleaseKeys k busy).Clear := by
  have hsys := h.beside (releaseSysKey_beside h.valid busy.sys)
  have hnormal := hsys.releaseNormal busy.normal
  have hmedia := releaseMediaKey_beside hnormal.valid busy.media
  refine ⟨hnormal.beside hmedia, ?_⟩
  intro hmarked
  -- the media keys come behind the release in the FIFO, and may push out the head
  obtain ⟨queue, hq⟩ := hsys.releaseNormal_waits (hmedia.marked.mp hmarked)
  obtain ⟨reports, hwaiting⟩ := waiting_beside hmedia hq
  rw [usbkbReleaseKeys, hwaiting, ← List.append_assoc]
  exact lastZero_append zeroReport_isZero

theorem Kb.Held.releaseCheck (h : k.Held) (busy : Busy) (now : U32)
    (hclear : clockTimeExceed k.usbkbDataReportTime usbKeyboardReleaseTimeout now = true ∨
      k.Clear) : (usbkbReleaseCheck k busy now).Clear := by
  rw [usbkbReleaseCheck]
  split
  · exact h.releaseKeys busy
  · rename_i hcond
    rcases hclear with htime | hclear
    · -- the timeout has passed, so it is the marks that are clear
      have hzero : k.usbkbNotReleased = 0#32 := by
        by_contra hne
        exact hcond ⟨hne, htime⟩
      refine ⟨h, ?_⟩
      intro hmarked
      rw [Kb.Marked, hzero] at hmarked
      exact absurd rfl hmarked
    · exact hclear

theorem Kb.Clear.proc (h : k.Clear) {busy : Bool} (hmarked : MarkedFirst k (.proc busy)) :
    (k.step (.proc busy)).Clear := by
  refine ⟨h.toHeld.proc hmarked, ?_⟩
  intro hk
  have hpipe : (k.step (.proc busy)).hid.pipe = k.hid.pipe.proc busy := (proc_pipe h.valid busy).2
  rw [hpipe, proc_moves]
  exact h.marked hk

/-- **One call.** -/
theorem Kb.Held.step (h : k.Held) {c : Call} (hmarked : MarkedFirst k c) : (k.step c).Held := by
  cases c with
  | report data busy now => exact h.report data busy now
  | proc busy => exact h.proc hmarked
  | releaseCheck busy now =>
      rw [Kb.step, usbkbReleaseCheck]
      split
      · exact (h.releaseKeys busy).toHeld
      · exact h

end steps

/-- The call is not one of `usbkb_hid_report`. -/
def Call.Quiet : Call → Prop
  | .report _ _ _ => False
  | .proc _ | .releaseCheck _ _ => True

instance (c : Call) : Decidable c.Quiet := by
  cases c <;> unfold Call.Quiet <;> infer_instance

theorem Kb.Clear.step {k : Kb} (h : k.Clear) {c : Call} (hquiet : c.Quiet)
    (hmarked : MarkedFirst k c) : (k.step c).Clear := by
  cases c with
  | report data busy now => exact hquiet.elim
  | proc busy => exact h.proc hmarked
  | releaseCheck busy now => exact h.toHeld.releaseCheck busy now (.inr h)

theorem held_init : Kb.init.Held where
  valid := valid_init
  unmarked := by
    intro _ r hr
    exact nomatch hr

theorem Kb.Clear.run {k : Kb} (h : k.Clear) {calls : List Call} (hquiet : ∀ c ∈ calls, c.Quiet)
    (hmarked : Along Kb.step MarkedFirst k calls) : (runFrom Kb.step k calls).Clear := by
  induction calls generalizing k with
  | nil => exact h
  | cons c calls ih =>
      obtain ⟨hc, hquiet⟩ := List.forall_mem_cons.mp hquiet
      exact ih (h.step hc hmarked.1) hquiet hmarked.2

theorem waiting_drained {s : Hid} (h : s.usbFfRptr = s.usbFfWptr) (ep : Ep) :
    s.pipe.waiting ep = [] := by
  have hnil : s.entries = [] := pending_eq_nil.mpr h
  rw [Pipe.waiting, Hid.pipe, hnil]
  rfl

theorem Kb.Clear.drained {k : Kb} (h : k.Clear) (hdrained : k.hid.usbFfRptr = k.hid.usbFfWptr) :
    LastZero (k.hid.written .keyboard) := by
  by_cases hk : k.Marked
  · have hlast := h.marked hk
    rw [waiting_drained hdrained, List.append_nil] at hlast
    exact hlast
  · exact h.unmarked hk

/-- **Released.**  Let every key that goes out from the FIFO find the mark set.  Then, once
`usbkb_release_check` has run after its timeout with no report behind it, and the FIFO is drained,
the last keyboard report at the host is empty. -/
theorem released {before behind : List Call} {busy : Busy} {now : U32}
    (hmarked : Along Kb.step MarkedFirst Kb.init (before ++ .releaseCheck busy now :: behind))
    (htime : clockTimeExceed (runFrom Kb.step Kb.init before).usbkbDataReportTime
      usbKeyboardReleaseTimeout now = true)
    (hquiet : ∀ c ∈ behind, c.Quiet)
    (hdrained : let k := runFrom Kb.step Kb.init (before ++ .releaseCheck busy now :: behind)
      k.hid.usbFfRptr = k.hid.usbFfWptr) :
    LastZero ((runFrom Kb.step Kb.init
      (before ++ .releaseCheck busy now :: behind)).hid.written .keyboard) := by
  obtain ⟨hbefore, -, hbehind⟩ := along_append.mp hmarked
  have hheld := hbefore.invariant (fun k c h hc => h.step hc) held_init
  have hclear := (hheld.releaseCheck busy now (.inl htime)).run hquiet hbehind
  rw [runFrom_append, runFrom_cons] at hdrained ⊢
  exact hclear.drained hdrained

/-- The key codes `a`, and nothing else. -/
def keyA : KbData := ⟨1#8, 0#8, [4#8, 0#8, 0#8, 0#8, 0#8, 0#8], rfl⟩

def noKey : KbData := ⟨0#8, 0#8, [0#8, 0#8, 0#8, 0#8, 0#8, 0#8], rfl⟩

/-- All endpoints idle, and all busy. -/
def idle : Busy := ⟨false, false, false⟩

def allBusy : Busy := ⟨true, true, true⟩

/-- The key goes out at once.  Its release does not, and is sent from the FIFO. -/
theorem released_late :
    let before : List Call := [.report keyA idle 0#32, .report noKey allBusy 100#32]
    let behind : List Call := [.proc true, .proc false, .proc false]
    let k := runFrom Kb.step Kb.init (before ++ .releaseCheck allBusy 8000000#32 :: behind)
    k.hid.written .keyboard = [⟨0#8, keyA.keycode⟩, zeroReport, zeroReport] ∧
      LastZero (k.hid.written .keyboard) := by
  intro before behind k
  refine ⟨by decide +kernel, ?_⟩
  exact @released before behind allBusy 8000000#32 (by decide +kernel) (by decide +kernel)
    (by decide +kernel) (by decide +kernel)

/-- **Stuck.**  A key goes out and is released, and is pressed and released once more before the
host has read the release.  The FIFO is drained, and the timeout passes. -/
theorem stuck :
    let calls : List Call := [.report keyA idle 0#32, .report noKey idle 100#32,
      .report keyA allBusy 200#32, .report noKey allBusy 300#32, .proc true, .proc false,
      .proc false, .releaseCheck idle 8000000#32]
    let k := runFrom Kb.step Kb.init calls
    clockTimeExceed 300#32 usbKeyboardReleaseTimeout 8000000#32 = true ∧
      k.hid.usbFfRptr = k.hid.usbFfWptr ∧ k.hid.written .keyboard =
        [⟨0#8, keyA.keycode⟩, zeroReport, ⟨0#8, keyA.keycode⟩] ∧
      ¬ LastZero (k.hid.written .keyboard) := by
  decide +kernel

end TelinkB91.Usb
