import TelinkB91.Debug.Command
import TelinkB91.Flash.FwCheck

/-!
# Debug — the answers to the commands of the host

`myudb_mem_cmd` reads or writes the RAM, the analog registers or the flash for the host, and sends
two packets with `usb_send_status_pkt`: 12 bytes of the command, and what was read.  The host asks
for up to 256 bytes.  `usb_send_status_pkt` clips a packet to 272 bytes, and does not look at the
size of a slot, which is 64 by default.  `usb_send_str_data` does.

* `inSlot_iff`: a packet stays in its slot just when it has at most `size - 6` bytes.
* `mem_usbSendStatusPkt`: the memory outside of the slot is as it was then.
* `memCmd_read`, `memCmd_write`, `memCmd_other`: the packets of a command.
* `memCmd_ret`: the result is that of `Command`.
* `status_in_slot_iff`: all packets of a command stay in their slots just when it is not one that
  reads more than 52 bytes.
* `read_past_slot`: 256 bytes.

The fields of the print FIFO are apart from the memory that the host writes.
-/

namespace TelinkB91.Debug.Status
open ByteMemory Fifo
open Command (myhciFwDownload)
open Flash (Chip flashReadPage flashPageProgram flashEraseSector)

/-- `TLKAPI_DEBUG_FIFO_SIZE`. -/
def tlkapiDebugFifoSize : Nat := 64

/-- The print FIFO in the RAM, the analog registers and the flash; what `flash_read_mid` returns,
`fw_download`, and the bit `MIE` of `mstatus`. -/
structure Target where
  sys : Sys
  analog : U8 → U8
  chip : Chip
  flashMid : U32
  fwDownload : Bool
  mie : Bool

/-- A call of `usb_send_status_pkt`: the print FIFO then, and the bytes written, by address. -/
structure Call where
  fifo : MyFifo
  writes : List (Nat × List U8)

/-- The writes of `usb_send_status_pkt`.  Two bytes behind the length are left out. -/
def statusWrites (f : MyFifo) (status bufferNum : U8) (pkt : Memory) (len : U16) :
    List (Nat × List U8) :=
  let p := f.addr f.wptr
  let len := if len > 272#16 then 272#16 else len
  [(p, [BitVec.ofNat 8 (len.toNat + 2), BitVec.ofNat 8 ((len.toNat + 2) >>> 8)]),
    (p + 4, [status, bufferNum] ++ read pkt 0 len.toNat)]

/-- `usb_send_status_pkt`. -/
def usbSendStatusPkt (t : Target) (status bufferNum : U8) (pkt : Memory) (len : U16) :
    Target × Call :=
  let ws := statusWrites t.sys.fifo status bufferNum pkt len
  ({ t with sys := ⟨myFifoNext t.sys.fifo, ws.foldl (fun m w => write m w.1 w.2) t.sys.mem⟩ },
    ⟨t.sys.fifo, ws⟩)

/-- `p[i] | (p[i + 1] << 8) | ..`, for `n` bytes. -/
def leAt (p : Memory) (i : Nat) : Nat → U32
  | 0 => 0#32
  | n + 1 => (p i).setWidth 32 ||| leAt p (i + 1) n <<< 8

/-- How many bytes a command asks for. -/
def requested (p : Memory) : Nat := (leAt p 6 2).toNat

/-- What is read for a command, into `rsp` from 6 on. -/
def Target.readFor (t : Target) (type : U8) (adr : U32) (n : Nat) (rsp : Memory) : Memory :=
  if type = 0#8 then write rsp 6 (read t.sys.mem adr.toNat n)
  else if type = 1#8 then
    write rsp 6 ((List.range n).map fun i => t.analog ((adr + BitVec.ofNat 32 i).setWidth 8))
  else if type = 2#8 ∨ type = 3#8 then
    write rsp 6 (flashReadPage (t.chip .flash) adr (BitVec.ofNat 32 n))
  else rsp

/-- `for (int i=0; i<nb; i+=4096) flash_erase_sector (adr + i)`. -/
def eraseSectors (c : Chip) (adr : U32) (nb : Int) : Chip :=
  (List.range ((nb.toNat + 4095) / 4096)).foldl
    (fun c i => flashEraseSector c (adr + BitVec.ofNat 32 (i * 4096))) c

/-- The size of the flash: the shift takes the low five bits of its count. -/
def flashBytes (flashMid : U32) : Int :=
  (1#32 <<< (((flashMid >>> 16 &&& 0xFF#32).toNat + 6) % 32)).toInt

/-- What a command writes, and the result of `myudb_mem_cmd`. -/
def Target.writeFor (t : Target) (type : U8) (adr : U32) (n : Nat) (p : Memory) : Target × U8 :=
  if type = 0#8 then
    ({ t with sys := { t.sys with mem := write t.sys.mem adr.toNat (read p 6 n) } }, 0#8)
  else if type = 1#8 then
    let analog := (List.range n).foldl
      (fun r i => Function.update r ((adr + BitVec.ofNat 32 i).setWidth 8) (p (i + 6))) t.analog
    ({ t with analog := analog }, 0#8)
  else if type = 2#8 then
    let c := if t.fwDownload ∧ adr &&& 0xFFF#32 = 0#32 then flashEraseSector t.chip adr else t.chip
    ({ t with chip := flashPageProgram p c adr (BitVec.ofNat 32 n) 6 }, 0#8)
  else if type = 3#8 then
    let nb := (leAt p 6 (min n 4)).toInt
    ({ t with chip := eraseSectors t.chip adr (if nb ≠ 0 then nb else flashBytes t.flashMid) }, 0#8)
  else if type = myhciFwDownload then
    ({ t with
      mie := false
      sys := { t.sys with fifo := { t.sys.fifo with rptr := t.sys.fifo.wptr } } }, myhciFwDownload)
  else (t, 0#8)

/-- `myudb_mem_cmd`, with the packets it sends.  `rsp` is what the buffer on the stack holds. -/
def myudbMemCmd (t : Target) (p : Memory) (nbyte : Int) (rsp : Memory) :
    Target × List Call × U8 :=
  if p 0 = 0x28#8 ∧ 8 ≤ nbyte then
    let (t, first) := usbSendStatusPkt t 0x81#8 8#8 p 12#16
    let rsp := write (write rsp 0 [0x29#8]) 1 (read p 1 5)
    let n := if requested p > 256 then 256 else requested p
    let rsp := t.readFor (p 1) (leAt p 2 4) n rsp
    let (t, second) := usbSendStatusPkt t 0x82#8 8#8 rsp (BitVec.ofNat 16 (n + 6))
    (t, [first, second], 0#8)
  else if p 0 = 0x2A#8 ∧ 6 < nbyte then
    let (t, first) := usbSendStatusPkt t 0x81#8 8#8 p 12#16
    let rsp := write (write rsp 0 [0x2B#8]) 1 (read p 1 16)
    let (t, ret) := t.writeFor (p 1) (leAt p 2 4) (nbyte - 6).toNat p
    let (t, second) := usbSendStatusPkt t 0x82#8 8#8 rsp 14#16
    (t, [first, second], ret)
  else (t, [], 1#8)

/-- The bytes are written inside the slot of `wptr`. -/
def InSlot (c : Call) : Prop :=
  ∀ w ∈ c.writes, c.fifo.addr c.fifo.wptr ≤ w.1 ∧
    w.1 + w.2.length ≤ c.fifo.addr c.fifo.wptr + c.fifo.size

/-! ### One packet -/

section packet

variable {t : Target} {f : MyFifo} {status bufferNum : U8} {pkt : Memory}

/-- The length is clipped. -/
theorem clipped (len : U16) :
    (if len > 272#16 then 272#16 else len).toNat = min len.toNat 272 := by
  split_ifs with h
  · exact (Nat.min_eq_right (Nat.le_of_lt h)).symm
  · exact (Nat.min_eq_left (Nat.not_lt.mp h)).symm

/-- **One packet.** -/
theorem inSlot_iff (len : U16) :
    InSlot ⟨f, statusWrites f status bufferNum pkt len⟩ ↔ 6 + min len.toNat 272 ≤ f.size := by
  rw [InSlot, statusWrites, List.forall_mem_cons, List.forall_mem_singleton, List.length_append,
    length_read, clipped]
  dsimp only [List.length_cons, List.length_nil]
  omega

/-- Nothing else is written. -/
theorem mem_usbSendStatusPkt {len : U16} {x : Nat}
    (h : InSlot (usbSendStatusPkt t status bufferNum pkt len).2)
    (hx : x < t.sys.fifo.addr t.sys.fifo.wptr ∨
      t.sys.fifo.addr t.sys.fifo.wptr + t.sys.fifo.size ≤ x) :
    (usbSendStatusPkt t status bufferNum pkt len).1.sys.mem x = t.sys.mem x := by
  obtain ⟨h₁, hmore⟩ := List.forall_mem_cons.mp h
  have h₂ := List.forall_mem_singleton.mp hmore
  rw [usbSendStatusPkt]
  dsimp only [statusWrites, List.foldl_cons, List.foldl_nil]
  rw [write_apart (hx.imp (fun hlt => hlt.trans_le h₂.1) fun hle => h₂.2.trans hle),
    write_apart (hx.imp (fun hlt => hlt.trans_le h₁.1) fun hle => h₁.2.trans hle)]

end packet

/-! ### The packets of a command -/

section command

variable {t : Target} {p rsp : Memory} {nbyte : Int}

theorem size_writeFor (t : Target) (type : U8) (adr : U32) (n : Nat) (p : Memory) :
    (t.writeFor type adr n p).1.sys.fifo.size = t.sys.fifo.size := by
  rw [Target.writeFor]
  split_ifs <;> rfl

/-- A command that reads. -/
theorem memCmd_read (t : Target) (rsp : Memory) (h : p 0 = 0x28#8 ∧ 8 ≤ nbyte) :
    ∃ rsp', (myudbMemCmd t p nbyte rsp).2.1 =
      [⟨t.sys.fifo, statusWrites t.sys.fifo 0x81#8 8#8 p 12#16⟩,
        ⟨myFifoNext t.sys.fifo, statusWrites (myFifoNext t.sys.fifo) 0x82#8 8#8 rsp'
          (BitVec.ofNat 16 ((if requested p > 256 then 256 else requested p) + 6))⟩] := by
  rw [myudbMemCmd, if_pos h]
  exact ⟨_, rfl⟩

/-- A command that writes. -/
theorem memCmd_write (t : Target) (rsp : Memory) (hread : ¬(p 0 = 0x28#8 ∧ 8 ≤ nbyte))
    (h : p 0 = 0x2A#8 ∧ 6 < nbyte) :
    ∃ f rsp', f.size = t.sys.fifo.size ∧ (myudbMemCmd t p nbyte rsp).2.1 =
      [⟨t.sys.fifo, statusWrites t.sys.fifo 0x81#8 8#8 p 12#16⟩,
        ⟨f, statusWrites f 0x82#8 8#8 rsp' 14#16⟩] := by
  have hsize := size_writeFor (usbSendStatusPkt t 0x81#8 8#8 p 12#16).1 (p 1) (leAt p 2 4)
    (nbyte - 6).toNat p
  rw [myudbMemCmd, if_neg hread, if_pos h]
  exact ⟨_, _, hsize, rfl⟩

/-- No other command is answered. -/
theorem memCmd_other (hread : ¬(p 0 = 0x28#8 ∧ 8 ≤ nbyte)) (hwrite : ¬(p 0 = 0x2A#8 ∧ 6 < nbyte)) :
    (myudbMemCmd t p nbyte rsp).2.1 = [] := by
  rw [myudbMemCmd, if_neg hread, if_neg hwrite]

theorem ret_writeFor (t : Target) (type : U8) (adr : U32) (n : Nat) (p : Memory) :
    (t.writeFor type adr n p).2 = if type = myhciFwDownload then myhciFwDownload else 0#8 := by
  by_cases hfw : type = myhciFwDownload
  · subst hfw
    rfl
  · rw [Target.writeFor, if_neg hfw, if_neg hfw]
    split_ifs <;> rfl

/-- The result. -/
theorem memCmd_ret (t : Target) (p : Memory) (n : Nat) (rsp : Memory) :
    (myudbMemCmd t p n rsp).2.2 = Command.myudbMemCmd p n := by
  rw [myudbMemCmd, Command.myudbMemCmd]
  by_cases hread : p 0 = 0x28#8 ∧ 8 ≤ n
  · rw [if_pos hread, if_pos ⟨hread.1, Int.ofNat_le.mpr hread.2⟩]
  · rw [if_neg hread, if_neg fun h => hread ⟨h.1, Int.ofNat_le.mp h.2⟩]
    by_cases hwrite : p 0 = 0x2A#8 ∧ 6 < n
    · rw [if_pos hwrite, if_pos ⟨hwrite.1, Int.ofNat_lt.mpr hwrite.2⟩]
      exact ret_writeFor ..
    · rw [if_neg hwrite, if_neg fun h => hwrite ⟨h.1, Int.ofNat_lt.mp h.2⟩]

/-- **The packets of a command.** -/
theorem inSlot_memCmd_iff (hsize : 20 ≤ t.sys.fifo.size) :
    (∀ c ∈ (myudbMemCmd t p nbyte rsp).2.1, InSlot c) ↔
      (p 0 = 0x28#8 ∧ 8 ≤ nbyte → 12 + min (requested p) 256 ≤ t.sys.fifo.size) := by
  have hfirst : InSlot ⟨t.sys.fifo, statusWrites t.sys.fifo 0x81#8 8#8 p 12#16⟩ :=
    (inSlot_iff 12#16).mpr ((by decide : 6 + min (12#16).toNat 272 ≤ 20).trans hsize)
  by_cases hread : p 0 = 0x28#8 ∧ 8 ≤ nbyte
  · obtain ⟨rsp', hsent⟩ := memCmd_read t rsp hread
    have hlen : (BitVec.ofNat 16 ((if requested p > 256 then 256 else requested p) + 6)).toNat =
        min (requested p) 256 + 6 := by
      rw [BitVec.toNat_ofNat]
      split_ifs <;> omega
    have hnext : (myFifoNext t.sys.fifo).size = t.sys.fifo.size := rfl
    rw [hsent, List.forall_mem_cons, List.forall_mem_singleton, inSlot_iff, inSlot_iff, hlen, hnext,
      forall_prop_of_true hread]
    have htwelve : (12#16).toNat = 12 := rfl
    omega
  · refine ⟨fun _ h => absurd h hread, fun _ => ?_⟩
    by_cases hwrite : p 0 = 0x2A#8 ∧ 6 < nbyte
    · obtain ⟨f, rsp', hf, hsent⟩ := memCmd_write t rsp hread hwrite
      have hsecond : InSlot ⟨f, statusWrites f 0x82#8 8#8 rsp' 14#16⟩ :=
        (inSlot_iff 14#16).mpr ((by decide : 6 + min (14#16).toNat 272 ≤ 20).trans (hf ▸ hsize))
      rw [hsent]
      exact List.forall_mem_cons.mpr ⟨hfirst, List.forall_mem_singleton.mpr hsecond⟩
    · rw [memCmd_other hread hwrite]
      exact fun _ h => absurd h List.not_mem_nil

end command

/-- **In the slot.**  With the default size of a slot, every packet of a command stays in its slot
just when the command does not read more than 52 bytes. -/
theorem status_in_slot_iff (t : Target) (p : Memory) (nbyte : Int) (rsp : Memory)
    (hsize : t.sys.fifo.size = tlkapiDebugFifoSize) :
    (∀ c ∈ (myudbMemCmd t p nbyte rsp).2.1, InSlot c) ↔
      ¬(p 0 = 0x28#8 ∧ 8 ≤ nbyte ∧ 52 < requested p) := by
  rw [tlkapiDebugFifoSize] at hsize
  rw [inSlot_memCmd_iff (hsize ▸ by decide), hsize]
  constructor
  · rintro hle ⟨hcmd, hlen, hlong⟩
    have hfits := hle ⟨hcmd, hlen⟩
    omega
  · rintro hshort ⟨hcmd, hlen⟩
    have hle : requested p ≤ 52 := Nat.not_lt.mp fun hlong => hshort ⟨hcmd, hlen, hlong⟩
    omega

/-- Nothing pending, and the memories blank. -/
def idle : Target where
  sys := ⟨printFifo, fun _ => 0#8⟩
  analog := fun _ => 0#8
  chip := fun _ _ => 0xFF#8
  flashMid := 0x146085#32
  fwDownload := false
  mie := true

/-- A command that reads `n` bytes of the RAM from 0 on. -/
def readCommand (n : U16) : Memory := fun i =>
  if i = 0 then 0x28#8
  else if i = 6 then n.setWidth 8
  else if i = 7 then (n >>> 8).setWidth 8
  else 0#8

/-- 52 bytes. -/
theorem status_in_slot_short :
    (myudbMemCmd idle (readCommand 52#16) 8 fun _ => 0#8).2.1.length = 2 ∧
      ∀ c ∈ (myudbMemCmd idle (readCommand 52#16) 8 fun _ => 0#8).2.1, InSlot c :=
  ⟨rfl, (status_in_slot_iff idle (readCommand 52#16) 8 (fun _ => 0#8) rfl).mpr (by decide)⟩

/-- **Past the slot.**  256 bytes of the RAM. -/
theorem read_past_slot : ¬∀ (t : Target) (p : Memory) (nbyte : Int) (rsp : Memory),
    t.sys.fifo.size = tlkapiDebugFifoSize →
    ∀ c ∈ (myudbMemCmd t p nbyte rsp).2.1, InSlot c := by
  intro h
  have hslot := (inSlot_memCmd_iff (by decide)).mp
    (h idle (readCommand 256#16) 8 (fun _ => 0#8) rfl) (by decide)
  exact absurd hslot (by decide)

end TelinkB91.Debug.Status
