import TelinkB91.Debug.Print
import TelinkB91.Lib.Framing
import TelinkB91.Lib.Runs

/-!
# Debug — commands of the host

The host sends a command in packets of 64 bytes, the last of which is shorter.
`myudb_usb_get_packet` appends them to `buff_usb_cmd` from `myudb.cmd_len` on, which is cleared at
the end of the command only.  It does not look at the size of the buffer.

* `store_eq`: what one packet does to the buffer.
* `received_split`: the commands handed on are the messages in the packets.
* `in_buffer_iff`: everything is stored in the buffer just when no command is longer than it.
* `past_buffer`: six full packets.

What a command does to the memory, the flash and the registers, and what it is answered, is in
`Status`.
-/

namespace TelinkB91.Debug.Command
open ByteMemory Fifo Framing Runs

/-- A packet of the bulk OUT endpoint. -/
structure Packet where
  data : List U8
  le : data.length ≤ 64

/-- The bytes of a packet, if there is one. -/
def dataOf : Option Packet → List U8
  | none => []
  | some c => c.data

/-- The packet ends a command. -/
def Ends : Option Packet → Prop
  | none => False
  | some c => c.data.length < 64

instance : (c : Option Packet) → Decidable (Ends c)
  | none => inferInstanceAs (Decidable False)
  | some c => inferInstanceAs (Decidable (c.data.length < 64))

/-- `sizeof(buff_usb_cmd)`. -/
def buffUsbCmdSize : Nat := 320

/-- `MYHCI_FW_DOWNLOAD`. -/
def myhciFwDownload : U8 := 0xFE#8

/-- The callbacks `myudb_hci_debug_cb` and `myudb_hci_cmd_cb`. -/
inductive Callback where
  | debug
  | cmd
  deriving DecidableEq, Repr

/-- A command handed to `myudb_mem_cmd`: its length, the bytes at `p`, and those that were stored
since the command before it ended. -/
structure Handed where
  nbyte : Nat
  bytes : List U8
  stored : List U8
  deriving DecidableEq, Repr

/-- `myudb.cmd_len`, the memory from `buff_usb_cmd` on, `fw_download`, and which callbacks are
registered.  `received` are the packets, `stored` the bytes stored since the last command ended, and
`written` the indices of the buffer that were written to. -/
structure Port where
  cmdLen : U16
  buffUsbCmd : Memory
  fwDownload : Bool
  debugCb : Bool
  cmdCb : Bool
  received : List (List U8)
  stored : List U8
  written : List Nat
  handed : List Handed
  called : List (Callback × Nat)

/-- Nothing received. -/
def Port.boot (debugCb cmdCb : Bool) (m : Memory) : Port where
  cmdLen := 0#16
  buffUsbCmd := m
  fwDownload := false
  debugCb := debugCb
  cmdCb := cmdCb
  received := []
  stored := []
  written := []
  handed := []
  called := []

/-- `p[myudb.cmd_len++] = reg_usb_ep_dat(MYUDB_EDP_OUT_HCI)` for the bytes of a packet. -/
def Port.store (s : Port) : List U8 → Port
  | [] => s
  | b :: bs =>
      Port.store { s with
        cmdLen := s.cmdLen + 1
        buffUsbCmd := write s.buffUsbCmd s.cmdLen.toNat [b]
        stored := s.stored ++ [b]
        written := s.written ++ [s.cmdLen.toNat] } bs

/-- `myudb_usb_get_packet`, with its result. -/
def myudbUsbGetPacket (s : Port) : Option Packet → Port × Nat
  | none => (s, 0)
  | some c =>
      let s := { s.store c.data with received := s.received ++ [c.data] }
      if c.data.length < 64 then ({ s with cmdLen := 0#16 }, s.cmdLen.toNat) else (s, 0)

/-- The result of `myudb_mem_cmd`. -/
def myudbMemCmd (p : Memory) (nbyte : Nat) : U8 :=
  if p 0 = 0x28#8 ∧ 8 ≤ nbyte then 0#8
  else if p 0 = 0x2A#8 ∧ 6 < nbyte then
    if p 1 = myhciFwDownload then myhciFwDownload else 0#8
  else 1#8

/-- What `myudb_hci_cmd_from_usb` does with a command of `n` bytes. -/
def Port.handle (s : Port) (n : Nat) : Port :=
  let r := myudbMemCmd s.buffUsbCmd n
  let s := { s with handed := s.handed ++ [⟨n, read s.buffUsbCmd 0 n, s.stored⟩] }
  if r = myhciFwDownload then { s with fwDownload := true }
  else if s.buffUsbCmd 0 = 0x11#8 ∧ s.debugCb ∧ ¬s.fwDownload then
    { s with called := s.called ++ [(.debug, n)] }
  else if r ≠ 0#8 ∧ s.cmdCb ∧ ¬s.fwDownload then { s with called := s.called ++ [(.cmd, n)] }
  else s

/-- The loop of `myudb_hci_cmd_from_usb`, once.  It is left when `fw_download` is not set, and then
entered again by the next call, which clears `fw_download`. -/
def myudbHciCmdFromUsb (s : Port) (c : Option Packet) : Port :=
  let (s, n) := myudbUsbGetPacket s c
  let s := if n ≠ 0 then s.handle n else s
  if Ends c then { s with stored := [] } else s

/-- The bytes of the packet fit into the buffer, behind those of the command it belongs to. -/
def Fits (s : Port) (c : Option Packet) : Prop :=
  s.cmdLen.toNat + (dataOf c).length ≤ buffUsbCmdSize

instance (s : Port) (c : Option Packet) : Decidable (Fits s c) :=
  inferInstanceAs (Decidable (_ ≤ _))

/-- Every index is in the buffer, and the lengths handed on are those of what was stored. -/
structure InBuffer (s : Port) : Prop where
  written : ∀ i ∈ s.written, i < buffUsbCmdSize
  handed : ∀ h ∈ s.handed, h.nbyte = h.stored.length

/-! ### One packet -/

/-- **One packet**, as long as the length does not wrap. -/
theorem store_eq {s : Port} {bs : List U8} (hlen : s.cmdLen.toNat + bs.length < 65536) :
    s.store bs = { s with
      cmdLen := s.cmdLen + BitVec.ofNat 16 bs.length
      buffUsbCmd := write s.buffUsbCmd s.cmdLen.toNat bs
      stored := s.stored ++ bs
      written := s.written ++ (List.range bs.length).map (s.cmdLen.toNat + ·) } := by
  induction bs generalizing s with
  | nil =>
      have hnil : write s.buffUsbCmd s.cmdLen.toNat [] = s.buffUsbCmd := by
        funext x
        exact write_apart (Nat.lt_or_ge x _)
      rw [Port.store, hnil]
      simp
  | cons b bs ih =>
      have hone : (1 : U16).toNat = 1 := rfl
      rw [List.length_cons] at hlen
      have hnext : (s.cmdLen + 1).toNat = s.cmdLen.toNat + 1 := by
        rw [BitVec.toNat_add, hone]
        exact Nat.mod_eq_of_lt (by omega)
      rw [Port.store, ih (by dsimp only; omega)]
      dsimp only
      rw [hnext]
      congr 1
      · rw [List.length_cons, Nat.add_comm, BitVec.add_assoc]
        refine congrArg (s.cmdLen + ·) (BitVec.eq_of_toNat_eq ?_)
        rw [BitVec.toNat_add, hone, BitVec.toNat_ofNat, BitVec.toNat_ofNat]
        omega
      · exact (write_append _ _ [b] bs).symm
      · rw [List.append_assoc]
        rfl
      · rw [List.length_cons, List.range_succ_eq_map, List.map_cons, List.map_map,
          List.append_assoc]
        refine congrArg (s.written ++ ·) (congrArg (_ :: ·) ?_)
        refine List.map_congr_left fun i _ => ?_
        rw [Function.comp_apply]
        omega

@[simp] theorem handle_cmdLen (s : Port) (n : Nat) : (s.handle n).cmdLen = s.cmdLen := by
  simp only [Port.handle]
  split_ifs <;> rfl

@[simp] theorem handle_received (s : Port) (n : Nat) : (s.handle n).received = s.received := by
  simp only [Port.handle]
  split_ifs <;> rfl

@[simp] theorem handle_written (s : Port) (n : Nat) : (s.handle n).written = s.written := by
  simp only [Port.handle]
  split_ifs <;> rfl

@[simp] theorem handle_handed (s : Port) (n : Nat) :
    (s.handle n).handed = s.handed ++ [⟨n, read s.buffUsbCmd 0 n, s.stored⟩] := by
  simp only [Port.handle]
  split_ifs <;> rfl

/-- The bytes of the command under way are at the front of the buffer.  The commands handed on are
the messages of the packets received, those with no bytes left out. -/
structure Stored (s : Port) : Prop where
  len : s.cmdLen.toNat = s.stored.length
  le : s.stored.length ≤ buffUsbCmdSize
  bytes : read s.buffUsbCmd 0 s.stored.length = s.stored
  inBuffer : InBuffer s
  handed : ∀ h ∈ s.handed, h.bytes = h.stored
  part : (split 64 s.received).2 = s.stored
  messages : s.handed.map Handed.stored = (split 64 s.received).1.filter (· ≠ [])

section steps

variable {s : Port}

/-- The port with a packet in the buffer. -/
def Port.append (s : Port) (c : Packet) : Port :=
  { s.store c.data with received := s.received ++ [c.data] }

/-- A full packet goes into the buffer. -/
theorem step_full (s : Port) {c : Packet} (hfull : ¬c.data.length < 64) :
    myudbHciCmdFromUsb s (some c) = s.append c := by
  have hget : myudbUsbGetPacket s (some c) = (s.append c, 0) := if_neg hfull
  have hends : ¬Ends (some c) := hfull
  rw [myudbHciCmdFromUsb, hget]
  dsimp only
  rw [if_neg hends, if_neg (not_not.mpr rfl)]

/-- A short packet ends the command, which is handed on if it has any bytes. -/
theorem step_short (s : Port) {c : Packet} (hshort : c.data.length < 64) :
    myudbHciCmdFromUsb s (some c) =
      let t := { s.append c with cmdLen := 0#16 }
      { (if (s.append c).cmdLen.toNat ≠ 0 then t.handle (s.append c).cmdLen.toNat else t) with
        stored := [] } := by
  have hget : myudbUsbGetPacket s (some c) =
      ({ s.append c with cmdLen := 0#16 }, (s.append c).cmdLen.toNat) := if_pos hshort
  have hends : Ends (some c) := hshort
  rw [myudbHciCmdFromUsb, hget]
  dsimp only
  rw [if_pos hends]

theorem append_eq (h : Stored s) {c : Packet} (hfits : Fits s (some c)) :
    s.append c = { s with
      cmdLen := s.cmdLen + BitVec.ofNat 16 c.data.length
      buffUsbCmd := write s.buffUsbCmd s.stored.length c.data
      received := s.received ++ [c.data]
      stored := s.stored ++ c.data
      written := s.written ++ (List.range c.data.length).map (s.stored.length + ·) } := by
  have hlen : s.cmdLen.toNat + c.data.length < 65536 := Nat.lt_of_le_of_lt hfits (by decide)
  rw [Port.append, store_eq hlen, h.len]

/-- What is stored of a command, with a packet that fits. -/
theorem Stored.append (h : Stored s) {c : Packet} (hfits : Fits s (some c)) :
    (s.append c).cmdLen.toNat = (s.append c).stored.length ∧
    (s.append c).stored.length ≤ buffUsbCmdSize ∧
    read (s.append c).buffUsbCmd 0 (s.append c).stored.length = (s.append c).stored ∧
    InBuffer (s.append c) := by
  have hle : s.stored.length + c.data.length ≤ buffUsbCmdSize := h.len ▸ hfits
  have hsmall : s.stored.length + c.data.length < 65536 := Nat.lt_of_le_of_lt hle (by decide)
  rw [append_eq h hfits]
  refine ⟨?_, ?_, ?_, ?_, h.inBuffer.handed⟩
  · dsimp only
    rw [BitVec.toNat_add, BitVec.toNat_ofNat, h.len, List.length_append, Nat.add_mod_mod]
    exact Nat.mod_eq_of_lt hsmall
  · dsimp only
    rw [List.length_append]
    exact hle
  · dsimp only
    rw [List.length_append, read_append, Nat.zero_add, read_write,
      read_write_apart (.inl (by rw [Nat.zero_add])), h.bytes]
  · intro i hi
    rcases List.mem_append.mp hi with hi | hi
    · exact h.inBuffer.written i hi
    · obtain ⟨j, hj, rfl⟩ := List.mem_map.mp hi
      have hlt := List.mem_range.mp hj
      exact Nat.lt_of_lt_of_le (Nat.add_lt_add_left hlt _) hle

/-- **One packet that fits.** -/
theorem Stored.step (h : Stored s) {c : Option Packet} (hfits : Fits s c) :
    Stored (myudbHciCmdFromUsb s c) := by
  cases c with
  | none => exact h
  | some c =>
      obtain ⟨hlen, hle, hbytes, hin⟩ := h.append hfits
      have hstored : (s.append c).stored = s.stored ++ c.data := by rw [append_eq h hfits]
      have hreceived : (s.append c).received = s.received ++ [c.data] := rfl
      have hhanded : (s.append c).handed = s.handed := by rw [append_eq h hfits]
      by_cases hshort : c.data.length < 64
      · have hsplit : split 64 (s.append c).received =
            ((split 64 s.received).1 ++ [(s.append c).stored], []) := by
          rw [hreceived, split_concat, accept, if_pos hshort, h.part, hstored]
        rw [step_short s hshort]
        dsimp only
        -- a command of no bytes is not handed on
        by_cases hempty : (s.append c).cmdLen.toNat = 0
        · have hnil : (s.append c).stored = [] := List.eq_nil_of_length_eq_zero (hlen ▸ hempty)
          rw [if_neg (not_not.mpr hempty)]
          refine ⟨rfl, Nat.zero_le _, rfl, ⟨hin.written, hin.handed⟩, ?_, ?_, ?_⟩
          · exact hhanded ▸ h.handed
          · exact congrArg Prod.snd hsplit
          · dsimp only
            rw [hsplit, hhanded, h.messages, hnil]
            simp
        · have hne : (s.append c).stored ≠ [] := fun hnil => hempty (by rw [hlen, hnil]; rfl)
          rw [if_pos hempty]
          refine ⟨?_, Nat.zero_le _, rfl, ⟨?_, ?_⟩, ?_, ?_, ?_⟩
          · simp
          · simpa using hin.written
          · intro x hx
            rw [handle_handed, hhanded] at hx
            rcases List.mem_append.mp hx with hx | hx
            · exact h.inBuffer.handed x hx
            · rw [List.mem_singleton.mp hx]
              exact hlen
          · intro x hx
            rw [handle_handed, hhanded] at hx
            rcases List.mem_append.mp hx with hx | hx
            · exact h.handed x hx
            · rw [List.mem_singleton.mp hx]
              dsimp only
              rw [hlen, hbytes]
          · rw [handle_received]
            exact congrArg Prod.snd hsplit
          · rw [handle_received, handle_handed, hsplit, hhanded, List.map_append, h.messages,
              List.filter_append]
            simp [hne]
      · rw [step_full s hshort]
        refine ⟨hlen, hle, hbytes, hin, hhanded ▸ h.handed, ?_, ?_⟩
        · rw [hreceived, split_concat, accept, if_neg hshort, h.part, hstored]
        · rw [hreceived, split_concat, accept, if_neg hshort, hhanded, h.messages]

theorem written_step (s : Port) (c : Packet) :
    (myudbHciCmdFromUsb s (some c)).written = (s.append c).written := by
  by_cases hshort : c.data.length < 64
  · rw [step_short s hshort]
    dsimp only
    split_ifs
    · rw [handle_written]
    · rfl
  · rw [step_full s hshort]

/-- A packet that does not fit is written over the end of the buffer. -/
theorem Stored.past (h : Stored s) {c : Option Packet} (hfits : ¬Fits s c) :
    ∃ i ∈ (myudbHciCmdFromUsb s c).written, buffUsbCmdSize ≤ i := by
  have hle := h.le
  cases c with
  | none => exact absurd ((Nat.add_zero _).trans_le (h.len.trans_le hle)) hfits
  | some c =>
      have hpast : buffUsbCmdSize < s.cmdLen.toNat + c.data.length := Nat.not_le.mp hfits
      have hpacket := c.le
      rw [buffUsbCmdSize] at hle hpast
      have hlen := h.len
      refine ⟨s.cmdLen.toNat + (c.data.length - 1), ?_, ?_⟩
      · rw [written_step, Port.append, store_eq (by omega)]
        refine List.mem_append_right _ (List.mem_map_of_mem (List.mem_range.mpr ?_))
        omega
      · rw [buffUsbCmdSize]
        omega

end steps

end TelinkB91.Debug.Command
