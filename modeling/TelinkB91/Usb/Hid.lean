import TelinkB91.Lib.ByteMemory
import TelinkB91.Lib.Ring
import Mathlib.Logic.Function.Basic

/-!
# Usb — the report FIFO of `usbkb.c` and `usbmouse.c`

A report for the host goes to the keyboard endpoint or to the mouse endpoint, which also carries
the media and system keys.  It is written to its endpoint at once where that is idle.  Where it is
busy the report is put into a FIFO of four slots, shared by the two endpoints, whose oldest entry
is given up when a fifth is put in.  `usb_hid_report_fifo_proc` writes the entry at the head once
its endpoint is idle.

`Hid` is the FIFO in its bytes with the reports written so far, and `Pipe` the same as a queue.

* `entry_fill`: a report is read back from its slot.
* `submit_pipe`, `proc_pipe`: on `Hid` the code does what `Pipe` says.

An endpoint goes from idle to busy only when a report is written to it, so the second look the
code takes at it, inside the report functions, is the first one's.
-/

namespace TelinkB91.Usb
open Ring ByteMemory

abbrev U8 := BitVec 8

/-- The memory from `pData` on. -/
abbrev Slot := Nat → U8

/-- `USB_EDP_KEYBOARD_IN` and `USB_EDP_MOUSE`. -/
inductive Ep where
  | keyboard
  | mouse
  deriving DecidableEq, Repr

/-- A report: the modifiers and the key codes, or the report id and the data. -/
structure Report where
  head : U8
  data : List U8
  deriving DecidableEq, Repr

def datTypeKb : U8 := 1#8

def datTypeMouse : U8 := 2#8

def usbFifoNum : Nat := 4

/-- What `usbkb_hid_report_normal` and `usbmouse_hid_report` store into a slot that holds `old`. -/
def Ep.fill (old : Slot) (r : Report) : Ep → Slot
  | .keyboard => write old 0 ([datTypeKb, r.head] ++ r.data)
  | .mouse => write (write old 0 [datTypeMouse, r.head, BitVec.ofNat 8 r.data.length]) 4 r.data

/-- The entry in a slot, as `usb_hid_report_fifo_proc` reads it. -/
def entry (pData : Slot) : Option (Ep × Report) :=
  if pData 0 = datTypeKb then some (.keyboard, ⟨pData 1, read pData 2 6⟩)
  else if pData 0 = datTypeMouse then some (.mouse, ⟨pData 1, read pData 4 (pData 2).toNat⟩)
  else none

/-- The FIFO, the reports written to the endpoints, and `edp_toggle`. -/
structure Hid where
  usbFifo : Nat → Slot
  usbFfRptr : U8
  usbFfWptr : U8
  written : Ep → List Report
  edpToggle : Ep → Bool

def Hid.init : Hid := ⟨fun _ _ => 0#8, 0#8, 0#8, fun _ => [], fun _ => false⟩

/-- A report put into the FIFO. -/
def Hid.put (s : Hid) (ep : Ep) (r : Report) : Hid :=
  let k := slot usbFifoNum s.usbFfWptr
  let usbFfWptr := s.usbFfWptr + 1
  let fifoUse := occupied s.usbFfRptr usbFfWptr &&& (usbFifoNum * 2 - 1)
  { s with
    usbFifo := Function.update s.usbFifo k (ep.fill (s.usbFifo k) r)
    usbFfWptr := usbFfWptr
    usbFfRptr := if fifoUse > usbFifoNum then s.usbFfRptr + 1 else s.usbFfRptr }

/-- A report written to its endpoint. -/
def Hid.send (s : Hid) (ep : Ep) (r : Report) : Hid :=
  { s with
    written := Function.update s.written ep (s.written ep ++ [r])
    edpToggle := Function.update s.edpToggle ep (!s.edpToggle ep) }

/-- The two report functions, with their result. -/
def submit (ep : Ep) (s : Hid) (busy : Bool) (r : Report) : Hid × Int :=
  if busy then (s.put ep r, 0) else (s.send ep r, 1)

def usbkbHidReportNormal (s : Hid) (busy : Bool) (ctrlKey : U8) (keycode : List U8) : Hid × Int :=
  submit .keyboard s busy ⟨ctrlKey, keycode⟩

def usbmouseHidReport (s : Hid) (busy : Bool) (reportId : U8) (data : List U8) : Hid × Int :=
  submit .mouse s busy ⟨reportId, data⟩

/-- `usb_hid_report_fifo_proc`, with its result.  `busy` is about the endpoint of the entry at the
head. -/
def usbHidReportFifoProc (s : Hid) (busy : Bool) : Hid × Int :=
  if s.usbFfRptr = s.usbFfWptr then (s, 0)
  else
    match entry (s.usbFifo (slot usbFifoNum s.usbFfRptr)) with
    | none => (s, 0)
    | some (ep, r) =>
        if busy then (s, 0)
        else
          let s := (submit ep s false r).1
          ({ s with usbFfRptr := s.usbFfRptr + 1 }, 1)

/-! ### A queue of reports -/

/-- The reports written, and the reports to be written, oldest first. -/
structure Pipe where
  written : Ep → List Report
  queue : List (Ep × Report)

/-- The reports to be written to the endpoint `ep`. -/
def Pipe.waiting (p : Pipe) (ep : Ep) : List Report :=
  p.queue.filterMap fun e => if e.1 = ep then some e.2 else none

def Pipe.send (p : Pipe) (ep : Ep) (r : Report) : Pipe :=
  { p with written := Function.update p.written ep (p.written ep ++ [r]) }

def Pipe.put (p : Pipe) (ep : Ep) (r : Report) : Pipe :=
  { p with queue := (if p.queue.length < usbFifoNum then p.queue else p.queue.tail) ++ [(ep, r)] }

def Pipe.submit (ep : Ep) (p : Pipe) (busy : Bool) (r : Report) : Pipe :=
  if busy then p.put ep r else p.send ep r

def Pipe.proc (p : Pipe) (busy : Bool) : Pipe :=
  match p.queue with
  | [] => p
  | (ep, r) :: queue => if busy then p else { p.send ep r with queue := queue }

/-- The entries in the slots in use. -/
def Hid.entries (s : Hid) : List (Option (Ep × Report)) :=
  pending usbFifoNum (fun k => entry (s.usbFifo k)) s.usbFfRptr s.usbFfWptr

/-- The queue a FIFO stands for. -/
def Hid.pipe (s : Hid) : Pipe := ⟨s.written, s.entries.filterMap id⟩

/-- Every slot in use holds a report, and no more slots are in use than there are. -/
structure Hid.Valid (s : Hid) : Prop where
  entries : s.entries = s.pipe.queue.map some
  length : s.pipe.queue.length ≤ usbFifoNum

/-- The reports that are submitted: six key codes, or up to four bytes. -/
def Report.Fits (r : Report) : Ep → Prop
  | .keyboard => r.data.length = 6
  | .mouse => r.data.length ≤ 4

instance (r : Report) (ep : Ep) : Decidable (r.Fits ep) := by
  cases ep <;> unfold Report.Fits <;> infer_instance

theorem isSize : IsSize usbFifoNum := ⟨2, by decide, rfl⟩

theorem valid_init : Hid.init.Valid where
  entries := by
    have hnil : Hid.init.entries = [] := pending_self _
    rw [Hid.pipe, hnil]
    rfl
  length := by
    have hnil : Hid.init.entries = [] := pending_self _
    rw [Hid.pipe, hnil]
    exact Nat.zero_le _

/-- **A slot.**  What is stored for a report is read as that report. -/
theorem entry_fill (old : Slot) {ep : Ep} {r : Report} (h : r.Fits ep) :
    entry (ep.fill old r) = some (ep, r) := by
  obtain ⟨head, data⟩ := r
  cases ep with
  | keyboard =>
      have hdata : read (Ep.fill old ⟨head, data⟩ .keyboard) 2 6 = data := by
        have hlen : data.length = 6 := h
        rw [Ep.fill, write_append, ← hlen]
        exact read_write _ _ _
      rw [entry, hdata]
      rfl
  | mouse =>
      have hcnt : (BitVec.ofNat 8 data.length).toNat = data.length := by
        have hlen : data.length ≤ 4 := h
        rw [BitVec.toNat_ofNat]
        omega
      have hhead (i : Nat) (hi : i < 4) : Ep.fill old ⟨head, data⟩ .mouse i =
          write old 0 [datTypeMouse, head, BitVec.ofNat 8 data.length] i := write_apart (.inl hi)
      have hdata : read (Ep.fill old ⟨head, data⟩ .mouse) 4 data.length = data := read_write _ _ _
      rw [entry, hhead 0 (by decide), hhead 1 (by decide), hhead 2 (by decide)]
      change some (Ep.mouse, Report.mk head (read _ 4 (BitVec.ofNat 8 data.length).toNat)) = _
      rw [hcnt, hdata]

section refinement

variable {s : Hid} {ep : Ep} {r : Report}

theorem Hid.Valid.occupied (h : s.Valid) : occupied s.usbFfRptr s.usbFfWptr =
    s.pipe.queue.length := by
  rw [← List.length_map some, ← h.entries, Hid.entries, length_pending]

/-- A FIFO whose slots in use hold the queue `q` stands for it. -/
theorem pipe_of_entries {q : List (Ep × Report)} (h : s.entries = q.map some) :
    s.pipe = ⟨s.written, q⟩ := by
  rw [Hid.pipe, h, List.filterMap_map]
  exact congrArg (Pipe.mk _) (List.filterMap_some)

theorem valid_of_entries {q : List (Ep × Report)} (h : s.entries = q.map some)
    (hlen : q.length ≤ usbFifoNum) : s.Valid := by
  have hpipe := pipe_of_entries h
  constructor
  · rw [hpipe, h]
  · rw [hpipe]
    exact hlen

theorem entries_put (h : s.Valid) (hr : r.Fits ep) :
    (s.put ep r).entries = (s.pipe.put ep r).queue.map some := by
  have hocc := h.occupied
  have hle : Ring.occupied s.usbFfRptr s.usbFfWptr ≤ 4 := hocc ▸ h.length
  have hpush : Ring.occupied s.usbFfRptr (s.usbFfWptr + 1) =
    Ring.occupied s.usbFfRptr s.usbFfWptr + 1 := occupied_push (by omega)
  have huse : Ring.occupied s.usbFfRptr (s.usbFfWptr + 1) &&& (usbFifoNum * 2 - 1) =
    Ring.occupied s.usbFfRptr s.usbFfWptr + 1 := by
    rw [occupied_and isSize (by decide) (by rw [hpush]; exact Nat.succ_le_succ hle), hpush]
  let k := slot usbFifoNum s.usbFfWptr
  have hmem : ∀ j, j ≠ k → entry (Function.update s.usbFifo k (ep.fill (s.usbFifo k) r) j) =
      entry (s.usbFifo j) := fun j hj => by rw [Function.update_of_ne hj]
  have hk : entry (Function.update s.usbFifo k (ep.fill (s.usbFifo k) r) k) = some (ep, r) := by
    rw [Function.update_self, entry_fill _ hr]
  have hentries := h.entries
  rw [Hid.entries] at hentries
  by_cases hspace : s.pipe.queue.length < usbFifoNum
  · have hput := pending_push isSize (hocc ▸ hspace) hmem
    have hr : (s.put ep r).usbFfRptr = s.usbFfRptr := by
      simp only [Hid.put, huse]
      exact if_neg (by omega)
    rw [Pipe.put, if_pos hspace, List.map_append, ← h.entries, Hid.entries, hr]
    exact hput.trans (congrArg (_ ++ [·]) hk)
  · have hfull : Ring.occupied s.usbFfRptr s.usbFfWptr = usbFifoNum := by
      rw [hocc]
      exact Nat.le_antisymm h.length (Nat.not_lt.mp hspace)
    have hput := pending_push_full isSize hfull hmem
    have hr : (s.put ep r).usbFfRptr = s.usbFfRptr + 1 := by
      simp only [Hid.put, huse, hfull]
      exact if_pos (by decide)
    rw [Pipe.put, if_neg hspace, List.map_append, List.map_tail, ← h.entries, Hid.entries, hr]
    exact hput.trans (congrArg (_ ++ [·]) hk)

theorem length_put (p : Pipe) (h : p.queue.length ≤ usbFifoNum) :
    (p.put ep r).queue.length ≤ usbFifoNum := by
  rw [Pipe.put]
  split
  · simp only [List.length_append, List.length_singleton]
    omega
  · simp only [List.length_append, List.length_tail, List.length_singleton, usbFifoNum] at h ⊢
    omega

theorem put_pipe (h : s.Valid) (hr : r.Fits ep) :
    (s.put ep r).Valid ∧ (s.put ep r).pipe = s.pipe.put ep r := by
  have hentries := entries_put h hr
  exact ⟨valid_of_entries hentries (length_put _ h.length), pipe_of_entries hentries⟩

theorem send_pipe (h : s.Valid) : (s.send ep r).Valid ∧ (s.send ep r).pipe = s.pipe.send ep r :=
  ⟨⟨h.entries, h.length⟩, rfl⟩

/-- **A submission.** -/
theorem submit_pipe (h : s.Valid) (hr : r.Fits ep) (busy : Bool) :
    (submit ep s busy r).1.Valid ∧ (submit ep s busy r).1.pipe = s.pipe.submit ep busy r := by
  cases busy with
  | true => exact put_pipe h hr
  | false => exact send_pipe h

/-- **The head of the FIFO.** -/
theorem proc_pipe (h : s.Valid) (busy : Bool) :
    (usbHidReportFifoProc s busy).1.Valid ∧
      (usbHidReportFifoProc s busy).1.pipe = s.pipe.proc busy := by
  have hentries := h.entries
  have hlength := h.length
  by_cases hempty : s.usbFfRptr = s.usbFfWptr
  · have hq : s.pipe.queue = [] := by
      rw [Hid.entries, hempty, pending_self] at hentries
      exact List.map_eq_nil_iff.mp hentries.symm
    rw [usbHidReportFifoProc, if_pos hempty, Pipe.proc, hq]
    exact ⟨h, rfl⟩
  · rw [Hid.entries, pending_pop hempty] at hentries
    obtain ⟨⟨ep, r⟩, queue, hq, hhead, hrest⟩ := List.map_eq_cons_iff.mp hentries.symm
    rw [usbHidReportFifoProc, if_neg hempty, Pipe.proc, hq, ← hhead]
    cases busy with
    | true => exact ⟨h, rfl⟩
    | false =>
        have hle : queue.length ≤ usbFifoNum := by
          rw [hq, List.length_cons] at hlength
          omega
        exact ⟨valid_of_entries hrest.symm hle, pipe_of_entries hrest.symm⟩

end refinement

end TelinkB91.Usb
