import TelinkB91.Usb.Hid

/-!
# Usb — the keys of `usbkb.c`

`usbkb_hid_report` takes the keys that are down, drops a repetition, and reports them on three
ways: normal keys to the keyboard endpoint, system and media keys to the mouse endpoint.  A bit of
`usbkb_not_released` is set when a key went out on its way, and cleared when its release did.
Where no call of `usbkb_hid_report` comes for a while, `usbkb_release_check` releases what is
marked.

`Kb.step` is one call.  What it finds of the endpoints, at each look, and the time are part of it.
-/

namespace TelinkB91.Usb
open ByteMemory

abbrev U32 := BitVec 32

/-- `kb_data_t`. -/
structure KbData where
  cnt : U8
  ctrlKey : U8
  keycode : List U8
  length_keycode : keycode.length = 6

def kbReturnKeyMax : U8 := 6#8

def vkExtStart : U8 := 0xA0#8

def vkExtEnd : U8 := 0xB5#8

def vkSysStart : U8 := 0xA0#8

def vkSysEnd : U8 := 0xA3#8

def vkMediaStart : U8 := 0xA3#8

def vkMediaEnd : U8 := 0xB5#8

def usbHidKbMedia : U8 := 3#8

def usbHidKbSys : U8 := 4#8

def vkSysMap : List U8 := [0x01#8, 0x02#8, 0x04#8]

def vkMediaMap : List (List U8) := [
  [0x21#8, 0x02#8], [0x23#8, 0x02#8], [0x24#8, 0x02#8], [0x25#8, 0x02#8], [0x26#8, 0x02#8],
  [0x27#8, 0x02#8], [0x2A#8, 0x02#8], [0x83#8, 0x01#8], [0x8A#8, 0x01#8], [0x92#8, 0x01#8],
  [0x94#8, 0x01#8], [0xB5#8, 0x00#8], [0xB6#8, 0x00#8], [0xB7#8, 0x00#8], [0xCD#8, 0x00#8],
  [0xE2#8, 0x00#8], [0xE9#8, 0x00#8], [0xEA#8, 0x00#8]]

def kbNormalReleaseMask : U32 := 1#32

def kbSysReleaseMask : U32 := 2#32

def kbMediaReleaseMask : U32 := 4#32

/-- `USB_KEYBOARD_RELEASE_TIMEOUT`, in microseconds. -/
def usbKeyboardReleaseTimeout : U32 := 450000#32

/-- `clock_time_exceed` at the time `now`; a microsecond has 16 ticks. -/
def clockTimeExceed (ref us now : U32) : Bool := now - ref > us * 16#32

/-- The FIFO and the endpoints, and the variables of `usbkb.c`. -/
structure Kb where
  hid : Hid
  usbkbNotReleased : U32
  usbkbDataReportTime : U32
  lastData : KbData

def Kb.init : Kb := ⟨Hid.init, 0#32, 0#32, ⟨0#8, 0#8, List.replicate 6 0#8, rfl⟩⟩

/-- A key reported by `report`, and marked if the report went out. -/
def Kb.press (k : Kb) (mask : U32) (report : Hid → Hid × Int) : Kb :=
  let (hid, sent) := report k.hid
  { k with
    hid := hid
    usbkbNotReleased := if sent ≠ 0 then k.usbkbNotReleased ||| mask else k.usbkbNotReleased }

/-- A marked key released by `report`, and its mark cleared if the report went out. -/
def Kb.release (k : Kb) (mask : U32) (report : Hid → Hid × Int) : Kb :=
  if k.usbkbNotReleased &&& mask ≠ 0#32 then
    let (hid, sent) := report k.hid
    { k with
      hid := hid
      usbkbNotReleased := if sent ≠ 0 then k.usbkbNotReleased &&& ~~~mask else k.usbkbNotReleased }
  else k

def usbkbReleaseNormalKey (k : Kb) (busy : Bool) : Kb :=
  k.release kbNormalReleaseMask fun s => usbkbHidReportNormal s busy 0#8 (List.replicate 6 0#8)

def usbkbReleaseSysKey (k : Kb) (busy : Bool) : Kb :=
  k.release kbSysReleaseMask fun s => usbmouseHidReport s busy usbHidKbSys [0#8]

def usbkbReleaseMediaKey (k : Kb) (busy : Bool) : Kb :=
  k.release kbMediaReleaseMask fun s =>
    usbmouseHidReport s busy usbHidKbMedia (List.replicate 4 0#8)

/-- What the code finds of the endpoints: of the mouse endpoint for the system key, of the keyboard
endpoint, and of the mouse endpoint for the media key. -/
structure Busy where
  sys : Bool
  normal : Bool
  media : Bool
  deriving DecidableEq, Repr

def usbkbReleaseKeys (k : Kb) (busy : Busy) : Kb :=
  usbkbReleaseMediaKey (usbkbReleaseNormalKey (usbkbReleaseSysKey k busy.sys) busy.normal)
    busy.media

def usbkbReleaseCheck (k : Kb) (busy : Busy) (now : U32) : Kb :=
  if k.usbkbNotReleased ≠ 0#32 ∧
      clockTimeExceed k.usbkbDataReportTime usbKeyboardReleaseTimeout now then
    usbkbReleaseKeys k busy
  else k

/-- The body of the loop over the key codes: `normal_key` and `ext_key`. -/
def separateKey (keys : List U8 × U8) (key : U8) : List U8 × U8 :=
  if vkExtStart ≤ key ∧ key < vkExtEnd then (keys.1, key) else (keys.1 ++ [key], keys.2)

/-- `usbkb_separate_key_types`: the normal keys among the first `cnt` key codes, and the last of the
others. -/
def usbkbSeparateKeyTypes (keycode : List U8) (cnt : U8) : List U8 × U8 :=
  (keycode.take cnt.toNat).foldl separateKey ([], vkExtEnd)

def usbkbReportNormalKey (k : Kb) (busy : Bool) (ctrlKey : U8) (keycode : List U8) (cnt : Nat) :
    Kb :=
  if cnt > 0 ∨ ctrlKey ≠ 0#8 then
    k.press kbNormalReleaseMask fun s => usbkbHidReportNormal s busy ctrlKey keycode
  else usbkbReleaseNormalKey k busy

def usbkbReportSysKey (k : Kb) (busy : Bool) (extKey : U8) : Kb :=
  if vkSysStart ≤ extKey ∧ extKey < vkSysEnd then
    let val := vkSysMap[(extKey - vkSysStart).toNat]?.getD 0#8
    k.press kbSysReleaseMask fun s => usbmouseHidReport s busy usbHidKbSys [val]
  else usbkbReleaseSysKey k busy

def usbkbReportMediaKey (k : Kb) (busy : Bool) (extKey : U8) : Kb :=
  if vkMediaStart ≤ extKey ∧ extKey < vkMediaEnd then
    let val := vkMediaMap[(extKey - vkMediaStart).toNat]?.getD []
    k.press kbMediaReleaseMask fun s =>
      usbmouseHidReport s busy usbHidKbMedia [val[0]?.getD 0#8, val[1]?.getD 0#8, 0#8, 0#8]
  else usbkbReleaseMediaKey k busy

def kbIsDataSame (a b : KbData) : Bool :=
  a.cnt = b.cnt ∧ a.ctrlKey = b.ctrlKey ∧
    a.keycode.take a.cnt.toNat = b.keycode.take a.cnt.toNat

/-- `usbkb_check_repeat_and_save`, with its result. -/
def usbkbCheckRepeatAndSave (k : Kb) (data : KbData) : Kb × Bool :=
  if kbIsDataSame k.lastData data then (k, true) else ({ k with lastData := data }, false)

def usbkbHidReport (k : Kb) (data : KbData) (busy : Busy) (now : U32) : Kb :=
  if data.cnt > kbReturnKeyMax then k
  else
    let (k, same) :=
      if data.cnt > 0#8 ∨ data.ctrlKey ≠ 0#8 then usbkbCheckRepeatAndSave k data else (k, false)
    if same ∧ k.usbkbNotReleased ≠ 0#32 then { k with usbkbDataReportTime := now }
    else
      let (normalKey, extKey) := usbkbSeparateKeyTypes data.keycode data.cnt
      let normalKeycode := normalKey ++ List.replicate (6 - normalKey.length) 0#8
      let k := usbkbReportNormalKey k busy.normal data.ctrlKey normalKeycode normalKey.length
      let k := usbkbReportSysKey k busy.sys extKey
      let k := usbkbReportMediaKey k busy.media extKey
      { k with usbkbDataReportTime := now }

/-- A call of `usbkb_hid_report`, `usb_hid_report_fifo_proc` or `usbkb_release_check`. -/
inductive Call where
  | report (data : KbData) (busy : Busy) (now : U32)
  | proc (busy : Bool)
  | releaseCheck (busy : Busy) (now : U32)

def Kb.step (k : Kb) : Call → Kb
  | .report data busy now => usbkbHidReport k data busy now
  | .proc busy => { k with hid := (usbHidReportFifoProc k.hid busy).1 }
  | .releaseCheck busy now => usbkbReleaseCheck k busy now

end TelinkB91.Usb
