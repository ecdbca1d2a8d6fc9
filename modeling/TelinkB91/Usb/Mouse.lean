import TelinkB91.Lib.MaskedRing
import TelinkB91.Lib.Runs
import TelinkB91.Usb.Hid

/-!
# Usb — mouse movements

`usbmouse_add_frame` stores the movements of a packet in `mouse_dat_buff`, a ring of eight, and
`usbmouse_report_frame` reports the oldest one.  The ring has no entry to spare: when the eighth
movement goes in, its pointers meet and all eight are gone.  And where the endpoint is busy the
report is put into the report FIFO while the movement stays in the ring, so that it is written
twice.

* `Mouse.Delivers.addLoop_full`: whatever packet leaves no entry free empties the ring.
* `Mouse.Delivers.step`: one call, where neither happens.
* `mouse_delivered`: in a run of such calls every movement stored has been written once, in order,
  or is still in the ring.
* `mouse_twice_or_never`: a run for either defect.

`usbmouse_release_check` is not called.
-/

namespace TelinkB91.Usb
open Runs MaskedRing

/-- `mouse_data_t`, in its bytes. -/
abbrev MouseData := List U8

/-- The variables of `usbmouse.c`, beside the FIFO.  `stored` records the movements stored, oldest
first. -/
structure Mouse where
  hid : Hid
  mouseDatBuff : Fin 8 → MouseData
  usbmouseWptr : Int
  usbmouseRptr : Int
  usbmouseNotReleased : Bool
  usbmouseDataReportTime : BitVec 32
  stored : List MouseData

def Mouse.init : Mouse := ⟨Hid.init, fun _ => [0#8, 0#8, 0#8, 0#8], 0, 0, false, 0#32, []⟩

/-- `USB_HID_MOUSE`. -/
def usbHidMouse : U8 := 1#8

/-- One movement stored. -/
def Mouse.store (s : Mouse) (d : MouseData) : Mouse :=
  { s with
    mouseDatBuff := Function.update s.mouseDatBuff (slot 8 s.usbmouseWptr) d
    usbmouseWptr := (s.usbmouseWptr + 1) % 8
    stored := s.stored ++ [d] }

/-- The loop of `usbmouse_add_frame`, over the indices left. -/
def addLoop (data : Nat → U8) (s : Mouse) : List Nat → Mouse
  | [] => s
  | i :: is =>
      let s := s.store (ByteMemory.read data (4 * i) 4)
      if s.usbmouseWptr = s.usbmouseRptr then s else addLoop data s is

/-- `usbmouse_add_frame`. -/
def usbmouseAddFrame (s : Mouse) (pno : U8) (data : Nat → U8) : Mouse :=
  addLoop data s (List.range pno.toNat)

/-- The movement at the reader. -/
def Mouse.oldest (s : Mouse) : MouseData := s.mouseDatBuff (slot 8 s.usbmouseRptr)

/-- `usbmouse_report_frame`, without `USB_MOUSE_REPORT_SMOOTH`. -/
def usbmouseReportFrame (s : Mouse) (busy : Bool) (now : BitVec 32) : Mouse :=
  if s.usbmouseWptr ≠ s.usbmouseRptr then
    let data := s.oldest
    let r := usbmouseHidReport s.hid busy usbHidMouse data
    let s := { s with hid := r.1 }
    let s := if r.2 ≠ 0 then { s with usbmouseRptr := (s.usbmouseRptr + 1) % 8 } else s
    if data.all (· = 0#8) ∧ r.2 ≠ 0 then { s with usbmouseNotReleased := false }
    else { s with usbmouseNotReleased := true, usbmouseDataReportTime := now }
  else s

/-- The calls.  `busy` is what the call finds of the endpoint it looks at. -/
inductive MouseOp where
  | addFrame (pno : U8) (data : Nat → U8)
  | reportFrame (busy : Bool) (now : BitVec 32)
  | fifoProc (busy : Bool)

def Mouse.step (s : Mouse) : MouseOp → Mouse
  | .addFrame pno data => usbmouseAddFrame s pno data
  | .reportFrame busy now => usbmouseReportFrame s busy now
  | .fifoProc busy => { s with hid := (usbHidReportFifoProc s.hid busy).1 }

/-- The movements in the ring, as the pointers tell. -/
def Mouse.unread (s : Mouse) : List MouseData := held 8 s.mouseDatBuff s.usbmouseWptr s.usbmouseRptr

/-- A packet leaves an entry of the ring free, and a movement that is reported finds the endpoint
idle. -/
def Suits (s : Mouse) : MouseOp → Prop
  | .addFrame pno _ => s.unread.length + pno.toNat < 8
  | .reportFrame busy _ => s.unread ≠ [] → busy = false
  | .fifoProc _ => True

instance (s : Mouse) : (op : MouseOp) → Decidable (Suits s op)
  | .addFrame _ _ => inferInstanceAs (Decidable (_ < _))
  | .reportFrame _ _ => inferInstanceAs (Decidable (_ → _))
  | .fifoProc _ => .isTrue trivial

/-- The report of a movement. -/
def movement (d : MouseData) : Report := ⟨usbHidMouse, d⟩

/-- Every movement stored has been written, once and in order, or is still in the ring. -/
structure Mouse.Delivers (s : Mouse) : Prop where
  wptr : 0 ≤ s.usbmouseWptr ∧ s.usbmouseWptr < 8
  rptr : 0 ≤ s.usbmouseRptr ∧ s.usbmouseRptr < 8
  valid : s.hid.Valid
  fifo : s.hid.pipe.queue = []
  all : s.hid.written .mouse ++ s.unread.map movement = s.stored.map movement

variable {s : Mouse}

theorem Mouse.Delivers.init : Mouse.init.Delivers := by
  refine ⟨?_, ?_, valid_init, ?_, rfl⟩
  · simp [Mouse.init]
  · simp [Mouse.init]
  · have hentries : Hid.init.entries = [] := Ring.pending_self _
    rw [Mouse.init, Hid.pipe, hentries]
    rfl

/-- **One movement stored**, where an entry stays free. -/
theorem Mouse.Delivers.store (h : s.Delivers) (hroom : s.unread.length + 1 < 8) (d : MouseData) :
    (s.store d).Delivers ∧ (s.store d).unread = s.unread ++ [d] := by
  obtain ⟨hw, hr, hvalid, hfifo, hall⟩ := h
  have hlen : s.unread.length = ((s.usbmouseWptr - s.usbmouseRptr) % 8).toNat := length_held
  have hcount : (s.usbmouseWptr - s.usbmouseRptr) % 8 + 1 < 8 := by omega
  have hlt : (s.usbmouseWptr - s.usbmouseRptr) % 8 < 8 := by omega
  have hpush : (s.store d).unread = s.unread ++ [d] :=
    held_push (M := 8) (by decide) (by decide) d hlt hcount
  have hw' : 0 ≤ (s.usbmouseWptr + 1) % 8 ∧ (s.usbmouseWptr + 1) % 8 < 8 := by omega
  refine ⟨⟨hw', hr, hvalid, hfifo, ?_⟩, hpush⟩
  have hstored : (s.store d).stored = s.stored ++ [d] := rfl
  have hwritten : (s.store d).hid = s.hid := rfl
  rw [hpush, hstored, hwritten, List.map_append, List.map_append, ← List.append_assoc, hall]

/-- The loop goes to its end while an entry stays free. -/
theorem Mouse.Delivers.addLoop (data : Nat → U8) (is : List Nat) (h : s.Delivers)
    (hroom : s.unread.length + is.length < 8) : (addLoop data s is).Delivers := by
  induction is generalizing s with
  | nil => exact h
  | cons i is ih =>
      rw [List.length_cons] at hroom
      obtain ⟨hstore, hunread⟩ := h.store (by omega) (ByteMemory.read data (4 * i) 4)
      have hlen : (s.store (ByteMemory.read data (4 * i) 4)).unread.length =
          s.unread.length + 1 := by
        rw [hunread, List.length_append, List.length_singleton]
      rw [Usb.addLoop]
      split
      · exact hstore
      · exact ih hstore (by omega)

theorem Mouse.unread_eq_nil (h : s.Delivers) :
    s.unread = [] ↔ s.usbmouseWptr = s.usbmouseRptr := by
  obtain ⟨hw, hr, -⟩ := h
  rw [← List.length_eq_zero_iff, Mouse.unread, length_held]
  omega

/-- **The eighth movement.**  A packet that leaves no entry free leaves a ring that looks empty. -/
theorem Mouse.Delivers.addLoop_full (data : Nat → U8) (is : List Nat) (h : s.Delivers)
    (hfull : 8 ≤ s.unread.length + is.length) : (Usb.addLoop data s is).unread = [] := by
  have hlen : s.unread.length = ((s.usbmouseWptr - s.usbmouseRptr) % 8).toNat := length_held
  -- on the movements left
  induction is generalizing s with
  | nil =>
      rw [List.length_nil] at hfull
      omega
  | cons i is ih =>
      have hw := h.wptr
      have hr := h.rptr
      rw [List.length_cons] at hfull
      rw [Usb.addLoop]
      by_cases hroom : s.unread.length + 1 < 8
      · obtain ⟨hstore, hunread⟩ := h.store hroom (ByteMemory.read data (4 * i) 4)
        split
        · rename_i heq
          exact (Mouse.unread_eq_nil hstore).mpr heq
        · refine ih hstore ?_ length_held
          rw [hunread, List.length_append, List.length_singleton]
          omega
      · -- the writer comes round to the reader, and the loop ends
        have heq : (s.store (ByteMemory.read data (4 * i) 4)).usbmouseWptr =
            (s.store (ByteMemory.read data (4 * i) 4)).usbmouseRptr := by
          change (s.usbmouseWptr + 1) % 8 = s.usbmouseRptr
          omega
        rw [if_pos heq]
        refine List.length_eq_zero_iff.mp (length_held.trans ?_)
        rw [heq, Int.sub_self]
        rfl

/-- **One movement reported**, to an idle endpoint. -/
theorem Mouse.Delivers.reportFrame (h : s.Delivers) {busy : Bool} (now : BitVec 32)
    (hidle : s.unread ≠ [] → busy = false) : (usbmouseReportFrame s busy now).Delivers := by
  have hempty := Mouse.unread_eq_nil h
  obtain ⟨hw, hr, hvalid, hfifo, hall⟩ := h
  rw [usbmouseReportFrame]
  by_cases hne : s.usbmouseWptr = s.usbmouseRptr
  · rw [if_neg (not_not.mpr hne)]
    exact ⟨hw, hr, hvalid, hfifo, hall⟩
  · rw [if_pos hne, hidle (mt hempty.mp hne)]
    have hcount : (s.usbmouseWptr - s.usbmouseRptr) % 8 ≠ 0 := by omega
    have hcons : s.unread = s.oldest ::
        held 8 s.mouseDatBuff s.usbmouseWptr ((s.usbmouseRptr + 1) % 8) :=
      held_cons (M := 8) (by decide) (by decide) hcount
    have hwritten : (s.hid.send .mouse ⟨usbHidMouse, s.oldest⟩).written .mouse =
        s.hid.written .mouse ++ [movement s.oldest] := by
      simp only [Hid.send, Function.update_self]
      rfl
    have hnext : (s.hid.send .mouse ⟨usbHidMouse, s.oldest⟩).written .mouse ++
        (held 8 s.mouseDatBuff s.usbmouseWptr ((s.usbmouseRptr + 1) % 8)).map movement =
        s.stored.map movement := by
      rw [hwritten, ← hall, hcons, List.map_cons, List.append_assoc, List.singleton_append]
    have hr' : 0 ≤ (s.usbmouseRptr + 1) % 8 ∧ (s.usbmouseRptr + 1) % 8 < 8 := by omega
    have hsent : (s.hid.send .mouse ⟨usbHidMouse, s.oldest⟩).Valid := (send_pipe hvalid).1
    simp only [usbmouseHidReport, submit, Bool.false_eq_true, if_false, ne_eq, one_ne_zero,
      not_false_eq_true, if_true, and_true]
    split <;> exact ⟨hw, hr', hsent, hfifo, hnext⟩

/-- **One call** that suits. -/
theorem Mouse.Delivers.step (h : s.Delivers) (op : MouseOp) (hop : Suits s op) :
    (s.step op).Delivers := by
  cases op with
  | addFrame pno data =>
      refine h.addLoop data _ ?_
      rw [List.length_range]
      exact hop
  | reportFrame busy now => exact h.reportFrame now hop
  | fifoProc busy =>
      obtain ⟨hw, hr, hvalid, hfifo, hall⟩ := h
      obtain ⟨hvalid', hpipe⟩ := proc_pipe hvalid busy
      have hsame : s.hid.pipe.proc busy = s.hid.pipe := by rw [Pipe.proc, hfifo]
      rw [hsame] at hpipe
      have hwritten : (usbHidReportFifoProc s.hid busy).1.written = s.hid.written :=
        congrArg Pipe.written hpipe
      refine ⟨hw, hr, hvalid', ?_, ?_⟩
      · rw [Mouse.step, hpipe]
        exact hfifo
      · rw [Mouse.step, hwritten]
        exact hall

/-- **Once and in order.**  In every run in which no packet fills the ring and every movement
reported finds the endpoint idle, the movements stored are the ones written to the mouse endpoint,
in order, followed by the ones the ring holds. -/
theorem mouse_delivered {ops : List MouseOp} (h : Along Mouse.step Suits Mouse.init ops) :
    let s := runFrom Mouse.step Mouse.init ops
    s.hid.written .mouse ++ s.unread.map movement = s.stored.map movement ∧
      s.hid.pipe.waiting .mouse = [] := by
  intro s
  have hs : s.Delivers :=
    Along.invariant (I := Mouse.Delivers) (fun _ op h hop => h.step op hop) .init h
  refine ⟨hs.all, ?_⟩
  rw [Pipe.waiting, hs.fifo]
  rfl

/-- A packet of two movements, reported one after the other. -/
theorem mouse_delivered_two :
    let ops : List MouseOp := [.addFrame 2#8 (fun i => BitVec.ofNat 8 i), .fifoProc false,
      .reportFrame false 0#32, .reportFrame false 8#32]
    let s := runFrom Mouse.step Mouse.init ops
    s.hid.written .mouse ++ s.unread.map movement = s.stored.map movement ∧
      s.hid.pipe.waiting .mouse = [] := by
  intro ops
  exact mouse_delivered (by decide +kernel)

/-- **Twice, or never.**  A movement that is reported to a busy endpoint is written from the FIFO
and from the ring.  Two packets of four movements leave nothing in the ring and nothing written. -/
theorem mouse_twice_or_never :
    let ones : MouseData := [1#8, 1#8, 1#8, 1#8]
    let twice := runFrom Mouse.step Mouse.init [.addFrame 1#8 (fun _ => 1#8),
      .reportFrame true 0#32, .fifoProc false, .reportFrame false 0#32]
    let never := runFrom Mouse.step Mouse.init [.addFrame 4#8 (fun _ => 1#8),
      .addFrame 4#8 (fun _ => 2#8), .reportFrame false 0#32]
    (twice.stored = [ones] ∧ twice.hid.written .mouse = [movement ones, movement ones] ∧
      ¬(twice.hid.written .mouse).Sublist (twice.stored.map movement)) ∧
    (never.stored.length = 8 ∧ never.unread = [] ∧ never.hid.written .mouse = []) := by
  decide +kernel

end TelinkB91.Usb
