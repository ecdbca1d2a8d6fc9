import Mathlib.Data.BitVec
import Mathlib.Data.List.FinRange
import TelinkB91.Keyboard.KeyChange
import TelinkB91.Lib.MaskedRing

/-!
# Keyboard — the scanner

`kb_scan_key` drives all columns at once to see whether any key is down, and only then scans the
matrix column by column.  What it reads goes through `kb_rmv_ghost_key` and `key_debounce_filter`;
a filtered matrix that differs from the one before is pushed to `matrix_buff`, a ring of four, and
the oldest one not yet read is mapped to key codes in `kb_event`.

A column is one word, with bit `j` for scan pin `j`.  A reading of the scan pins is a word too,
and the readings a call takes are part of its input.

* `Kb.filter_changed`: a call reports a change just when the filtered matrix is a new one.
* `kbScanKeyValue_cases`: what one call does to the ring.

`kb_repeat_key` and the counters for stuck keys are left out here.
-/

namespace TelinkB91.Keyboard
open Runs MaskedRing

abbrev U32 := BitVec 32

/-- One word per drive pin. -/
abbrev Matrix (n : Nat) := Fin n → U32

/-- No key is down. -/
def NoKey {n : Nat} (m : Matrix n) : Prop := ∀ i, m i = 0#32

instance {n : Nat} (m : Matrix n) : Decidable (NoKey m) :=
  Nat.decidableForallFin _

/-- A table of key codes: scan pin, then drive pin. -/
abbrev KeyMap := Nat → Nat → U8

/-- What `app_config.h` fixes. -/
structure Board where
  /-- `ARRAY_SIZE(drive_pins)` and `ARRAY_SIZE(scan_pins)`. -/
  drivePins : Nat
  scanPins : Nat
  /-- Every scan pin has a bit in a column. -/
  scanPins_le : scanPins ≤ 32
  kbLineHighValid : Bool
  kbRmGhostKeyEn : Bool
  kbHasFnKey : Bool
  kbHasCtrlKeys : Bool
  kbStandardKeyboard : Bool
  kbMapNormal : KeyMap
  kbMapNum : KeyMap
  kbMapFn : KeyMap

/-- The BLE sample's `KB_MAP_NORMAL` as a table. -/
def sampleMap : KeyMap := fun j i => kbMapNormal[2 * j + i]?.getD 0#8

/-- The BLE sample's board: two by two keys, and a pin is active when it reads 0. -/
def sampleBoard : Board where
  drivePins := 2
  scanPins := 2
  scanPins_le := by decide
  kbLineHighValid := false
  kbRmGhostKeyEn := false
  kbHasFnKey := true
  kbHasCtrlKeys := true
  kbStandardKeyboard := false
  kbMapNormal := sampleMap
  kbMapNum := sampleMap
  kbMapFn := sampleMap

/-- `kb_data_t`. -/
structure KbData extends KbEvent where
  ctrlKey : U8

def vkCtrl : U8 := 0xE0#8

def vkRwin : U8 := 0xE7#8

def vkZoomIn : U8 := 0xB6#8

def vkZoomOut : U8 := 0xB7#8

def vkMinus : U8 := 0x2D#8

def vkEqual : U8 := 0x2E#8

def vkFn : U8 := 0xFF#8

def vkMskLctrl : U8 := 0x01#8

/-- `KB_RETURN_KEY_MAX`. -/
def kbReturnKeyMax : U8 := 6#8

/-- `KB_NUMLOCK_STATUS_INVALID`, bit 7. -/
def Invalid (numlockStatus : U32) : Prop := numlockStatus.getLsbD 7 = true

/-- `KB_NUMLOCK_STATUS_POWERON`, bit 15. -/
def PowerOn (numlockStatus : U32) : Prop := numlockStatus.getLsbD 15 = true

instance (w : U32) : Decidable (Invalid w) := inferInstanceAs (Decidable (_ = _))

instance (w : U32) : Decidable (PowerOn w) := inferInstanceAs (Decidable (_ = _))

/-- The variables of `keyboard.c`.  `changes` and `reads` record the matrices pushed to the ring
and read from it, oldest first. -/
structure Kb (n : Nat) where
  scanPinNeed : U32
  releaseCnt : U8
  retLast : U32
  kbIsFnPressed : Bool
  mtrxPre : Matrix n
  mtrxLast : Matrix n
  matrixBuff : Fin 4 → Matrix n
  matrixWptr : Int
  matrixRptr : Int
  kbEvent : KbData
  changes : List (Matrix n)
  reads : List (Matrix n)

def KbData.none : KbData := ⟨⟨0#8, [0#8, 0#8, 0#8, 0#8, 0#8, 0#8], rfl⟩, 0#8⟩

/-- Every variable is zero. -/
def Kb.boot (n : Nat) : Kb n :=
  ⟨0#32, 0#8, 0#32, false, fun _ => 0#32, fun _ => 0#32, fun _ _ => 0#32, 0, 0, .none, [], []⟩

/-! ### Reading the pins -/

/-- Scan pin `j` is at its valid level in the reading `gpio`. -/
def Board.active (b : Board) (gpio : U32) (j : Nat) : Bool := b.kbLineHighValid != !gpio.getLsbD j

/-- One scan pin of `kb_key_pressed`, with `ret` beside the state. -/
def sense (b : Board) (gpio : U32) (t : U32 × U8 × U32) (i : Nat) : U32 × U8 × U32 :=
  if b.active gpio i then (t.1 ||| 1#32 <<< i, 6#8, t.1 ||| 1#32 <<< i) else t

/-- `kb_key_pressed`.  `gpio` is read while every column is driven. -/
def kbKeyPressed {n : Nat} (b : Board) (s : Kb n) (gpio : U32) : U32 × Kb n :=
  let t := (List.range b.scanPins).foldl (sense b gpio) (0#32, s.releaseCnt, s.retLast)
  let s := { s with releaseCnt := t.2.1, retLast := t.2.2 }
  if s.releaseCnt ≠ 0#8 then (s.retLast, { s with releaseCnt := s.releaseCnt - 1#8 })
  else (t.1, s)

/-- One scan pin of `kb_scan_row`, with `matrix` and `kb_is_fn_pressed`. -/
def readPin (b : Board) (need : U32) (kMap : KeyMap) (drvInd : Nat) (gpio : U32)
    (t : U32 × Bool) (j : Nat) : U32 × Bool :=
  if need.getLsbD j then
    if b.active gpio j then
      (t.1 ||| 1#32 <<< j, if b.kbHasFnKey && kMap j drvInd == vkFn then true else t.2)
    else t
  else t

/-- `kb_scan_row`.  `gpio` is what the call before has left there. -/
def kbScanRow (b : Board) (need : U32) (kMap : KeyMap) (drvInd : Nat) (gpio : U32) (fn : Bool) :
    U32 × Bool :=
  (List.range b.scanPins).foldl (readPin b need kMap drvInd gpio) (0#32, fn)

/-- The drive pin of the `i`-th call in the loop of `kb_scan_key_value`. -/
def Board.drive (b : Board) (i : Nat) : Nat := if i < b.drivePins then i else 0

/-- `pressed_matrix` after the loop.  Column `k` comes from the call after the one that drove
pin `k`; `rows i` is read at the end of the `i`-th call. -/
def pressedMatrix (b : Board) (need : U32) (rows : Nat → U32) : Matrix b.drivePins := fun k =>
  (kbScanRow b need b.kbMapNormal (b.drive (k + 1)) (rows (k + 1)) false).1

/-- `kb_is_fn_pressed` after the loop. -/
def fnPressed (b : Board) (need gpio : U32) (rows : Nat → U32) : Bool :=
  (List.range (b.drivePins + 1)).foldl
    (fun fn i => (kbScanRow b need b.kbMapNormal (b.drive i) (rows i) fn).2)
    (kbScanRow b need b.kbMapNormal 0 gpio false).2

/-! ### Ghost keys and bouncing -/

/-- `BIT_IS_POW2`. -/
def bitIsPow2 (x : U32) : Bool := x &&& (x - 1#32) == 0#32

/-- One pair of columns of `kb_rmv_ghost_key`. -/
def mixPair {n : Nat} (m : Matrix n) (i : Fin n) (mixFinal : U32) (j : Fin n) : U32 :=
  let mix := m i &&& m j
  if mix ≠ 0#32 ∧ (¬bitIsPow2 mix ∨ m i ^^^ m j ≠ 0#32) then mixFinal ||| mix else mixFinal

/-- One column of `kb_rmv_ghost_key`, with `mix_final`. -/
def rmvColumn {n : Nat} (t : Matrix n × U32) (i : Fin n) : Matrix n × U32 :=
  let mixFinal := ((List.finRange n).filter (i < ·)).foldl (mixPair t.1 i) t.2
  (Function.update t.1 i (t.1 i &&& ~~~mixFinal), mixFinal)

/-- `kb_rmv_ghost_key`. -/
def kbRmvGhostKey {n : Nat} (m : Matrix n) : Matrix n :=
  ((List.finRange n).foldl rmvColumn (m, 0#32)).1

/-- One column of `key_debounce_filter`. -/
def debounce (filtEn : Bool) (pre last tmp : U32) : U32 :=
  if filtEn then (~~~last &&& (pre &&& tmp)) ||| (last &&& (pre ||| tmp)) else tmp

/-- `mtrx_cur` after `key_debounce_filter`. -/
def Kb.filtered {n : Nat} (s : Kb n) (filtEn : Bool) (tmp : Matrix n) : Matrix n := fun i =>
  debounce filtEn (s.mtrxPre i) (s.mtrxLast i) (tmp i)

/-- `key_debounce_filter`. -/
def Kb.keyDebounceFilter {n : Nat} (s : Kb n) (filtEn : Bool) (tmp : Matrix n) : Bool × Kb n :=
  ((List.finRange n).any fun i => s.filtered filtEn tmp i != s.mtrxLast i,
    { s with mtrxPre := tmp, mtrxLast := s.filtered filtEn tmp })

/-! ### Mapping keys -/

/-- `kb_data->keycode[kb_data->cnt++] = kc`. -/
def KbData.put (d : KbData) (kc : U8) : KbData :=
  ⟨⟨d.cnt + 1#8, d.keycode.set d.cnt.toNat kc, by
    rw [List.length_set]
    exact d.length_keycode⟩, d.ctrlKey⟩

/-- One key that is down, in `kb_remap_key_row`. -/
def remapKey (b : Board) (d : KbData) (kc : U8) : KbData :=
  if b.kbHasCtrlKeys then
    if vkCtrl ≤ kc ∧ kc ≤ vkRwin then
      { d with ctrlKey := d.ctrlKey ||| 1#8 <<< (kc - vkCtrl).toNat }
    else if vkZoomIn = kc ∨ vkZoomOut = kc then
      { d with ctrlKey := d.ctrlKey ||| vkMskLctrl }.put
        (if vkZoomIn = kc then vkEqual else vkMinus)
    else if kc ≠ vkFn then d.put kc
    else d
  else d.put kc

/-- `kb_remap_key_row`, over the scan pins left. -/
def kbRemapKeyRow (b : Board) (kMap : KeyMap) (drvInd : Nat) (keyMax : U8) :
    List Nat → U32 → KbData → KbData
  | [], _, d => d
  | i :: is, m, d =>
      let down := m.getLsbD 0
      let d := if down then remapKey b d (kMap i drvInd) else d
      if down ∧ d.cnt ≥ keyMax then d
      else if m >>> 1 = 0#32 then d
      else kbRemapKeyRow b kMap drvInd keyMax is (m >>> 1) d

/-- `kb_remap_key_code`, over the drive pins left. -/
def kbRemapColumns {n : Nat} (b : Board) (kMap : KeyMap) (keyMax : U8) (pressed : Matrix n) :
    List (Fin n) → KbData → KbData
  | [], d => d
  | i :: is, d =>
      if pressed i = 0#32 then kbRemapColumns b kMap keyMax pressed is d
      else
        let d := kbRemapKeyRow b kMap i keyMax (List.range b.scanPins) (pressed i) d
        if d.cnt ≥ keyMax then d else kbRemapColumns b kMap keyMax pressed is d

/-- `kb_k_mp` in `kb_remap_key_code`, an entry of `kb_p_map`. -/
def Board.kbKMp (b : Board) (numlockStatus : U32) (fn : Bool) : KeyMap :=
  if b.kbStandardKeyboard then
    if fn then b.kbMapFn else if numlockStatus.getLsbD 0 then b.kbMapNum else b.kbMapNormal
  else b.kbMapNormal

/-- `kb_remap_key_code`. -/
def kbRemapKeyCode {n : Nat} (b : Board) (pressed : Matrix n) (keyMax : U8) (d : KbData)
    (numlockStatus : U32) (fn : Bool) : KbData :=
  kbRemapColumns b (b.kbKMp numlockStatus fn) keyMax pressed (List.finRange n) d

/-! ### The ring -/

/-- A changed matrix goes into the ring; the reader is moved when it is more than four behind. -/
def Kb.pushMatrix {n : Nat} (s : Kb n) (m : Matrix n) : Kb n :=
  let s := { s with
    matrixBuff := Function.update s.matrixBuff (slot 4 s.matrixWptr) m
    matrixWptr := (s.matrixWptr + 1) % 8
    changes := s.changes ++ [m] }
  if (s.matrixWptr - s.matrixRptr) % 8 > 4 then { s with matrixRptr := (s.matrixWptr - 4) % 8 }
  else s

/-- The matrix at the reader. -/
def Kb.oldest {n : Nat} (s : Kb n) : Matrix n := s.matrixBuff (slot 4 s.matrixRptr)

/-- The matrix behind the writer. -/
def Kb.newest {n : Nat} (s : Kb n) : Matrix n := s.matrixBuff (slot 4 (s.matrixWptr - 1))

/-- The matrices not yet read, oldest first. -/
def Kb.unread {n : Nat} (s : Kb n) : List (Matrix n) :=
  held 8 s.matrixBuff s.matrixWptr s.matrixRptr

/-- The matrix at the reader is taken and mapped. -/
def Kb.readOut {n : Nat} (b : Board) (s : Kb n) (numlockStatus : U32) : Kb n :=
  { s with
    matrixRptr := (s.matrixRptr + 1) % 8
    kbEvent := kbRemapKeyCode b s.oldest kbReturnKeyMax s.kbEvent numlockStatus s.kbIsFnPressed
    reads := s.reads ++ [s.oldest] }

/-- The arguments of `kb_scan_key`, and the readings of the scan pins: one in `kb_key_pressed`,
and one at the end of each `kb_scan_row`. -/
structure Call where
  numlockStatus : U32
  readKey : Bool
  gpio : U32
  rows : Nat → U32

/-- What a call reads, before the filter. -/
def Call.matrix (b : Board) (need : U32) (c : Call) : Matrix b.drivePins :=
  if b.kbRmGhostKeyEn then kbRmvGhostKey (pressedMatrix b need c.rows)
  else pressedMatrix b need c.rows

/-- `kb_scan_key_value` up to the ring. -/
def Kb.filter (b : Board) (s : Kb b.drivePins) (c : Call) : Bool × Kb b.drivePins :=
  let s := { s with
    kbEvent := { s.kbEvent with cnt := 0#8, ctrlKey := 0#8 }
    kbIsFnPressed := fnPressed b s.scanPinNeed c.gpio c.rows }
  s.keyDebounceFilter (decide (¬PowerOn c.numlockStatus)) (c.matrix b s.scanPinNeed)

/-- `kb_scan_key_value`. -/
def kbScanKeyValue (b : Board) (s : Kb b.drivePins) (c : Call) : U32 × Kb b.drivePins :=
  let t := s.filter b c
  let s := if t.1 then t.2.pushMatrix t.2.mtrxLast else t.2
  if Invalid c.numlockStatus then (1#32, s)
  else if s.matrixWptr = s.matrixRptr ∨ c.readKey = false then (0#32, s)
  else (1#32, s.readOut b c.numlockStatus)

/-- `kb_scan_key`. -/
def kbScanKey (b : Board) (s : Kb b.drivePins) (c : Call) : U32 × Kb b.drivePins :=
  let t := kbKeyPressed b s c.gpio
  let s := { t.2 with scanPinNeed := t.1 }
  if s.scanPinNeed ≠ 0#32 then kbScanKeyValue b s c else (0#32, s)

/-! ### What a call does -/

/-- The filter reports a change just when the matrix it leaves is a new one. -/
theorem Kb.filter_changed {b : Board} {s : Kb b.drivePins} {c : Call} :
    (s.filter b c).1 = true ↔ (s.filter b c).2.mtrxLast ≠ s.mtrxLast := by
  rw [Kb.filter, keyDebounceFilter]
  simp only [List.any_eq_true, List.mem_finRange, true_and, bne_iff_ne, ne_eq, funext_iff,
    not_forall]

/-- The state after the push, if there is one. -/
def Kb.pushed (b : Board) (s : Kb b.drivePins) (c : Call) : Kb b.drivePins :=
  if (s.filter b c).1 then (s.filter b c).2.pushMatrix (s.filter b c).2.mtrxLast
  else (s.filter b c).2

/-- A call takes in the change there is, and then reads, unless the status is invalid, the reader
has caught up or no read is asked for. -/
theorem kbScanKeyValue_cases {b : Board} {s : Kb b.drivePins} {c : Call} :
    (Invalid c.numlockStatus ∧ kbScanKeyValue b s c = (1#32, s.pushed b c)) ∨
    (¬Invalid c.numlockStatus ∧
      ((s.pushed b c).matrixWptr = (s.pushed b c).matrixRptr ∨ c.readKey = false) ∧
      kbScanKeyValue b s c = (0#32, s.pushed b c)) ∨
    (¬Invalid c.numlockStatus ∧
      ¬((s.pushed b c).matrixWptr = (s.pushed b c).matrixRptr ∨ c.readKey = false) ∧
      kbScanKeyValue b s c = (1#32, (s.pushed b c).readOut b c.numlockStatus)) := by
  by_cases hinvalid : Invalid c.numlockStatus
  · refine .inl ⟨hinvalid, ?_⟩
    rw [kbScanKeyValue, if_pos hinvalid, Kb.pushed]
  · by_cases hread : (s.pushed b c).matrixWptr = (s.pushed b c).matrixRptr ∨ c.readKey = false
    · refine .inr (.inl ⟨hinvalid, hread, ?_⟩)
      rw [Kb.pushed] at hread
      rw [kbScanKeyValue, if_neg hinvalid, if_pos hread, Kb.pushed]
    · refine .inr (.inr ⟨hinvalid, hread, ?_⟩)
      rw [Kb.pushed] at hread
      rw [kbScanKeyValue, if_neg hinvalid, if_neg hread, Kb.pushed]

end TelinkB91.Keyboard
