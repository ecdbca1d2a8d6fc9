import TelinkB91.Lib.LiveArray
import TelinkB91.Lib.NorFlash

/-!
# Pairing — the bond table of `custom_pair.c`

The master keeps the addresses of the slaves it has bonded with in a table in RAM
(`user_tbl_slaveMac`) and in one flash sector, eight bytes a slot: a mark, the address type and
the six address bytes.  Slots are written from the start of the sector on; a bond is deleted by
clearing its mark; the sector is erased only at boot, when more than half of it is used, and the
table is then written again from its start.

A function that writes flash is modelled by the list of flash commands it issues, in order,
beside the globals it leaves and its return value.  Flash addresses are offsets from
`FLASH_ADR_CUSTOM_PAIRING`.  `int` is `Int`: signed overflow has no meaning in C, and
`user_bond_slave_flash_cfg_idx` grows by 8 a call.
-/

namespace TelinkB91.Pairing
open NorFlash LiveArray

abbrev U8 := BitVec 8

/-- `USER_PAIR_SLAVE_MAX_NUM`. -/
abbrev userPairSlaveMaxNum : Nat := 4

/-- `ADR_BOND_MARK`. -/
def adrBondMark : U8 := 0x5A#8

/-- `ADR_ERASE_MARK`. -/
def adrEraseMark : U8 := 0x00#8

/-- `FLASH_CUSTOM_PAIRING_MAX_SIZE`. -/
def flashCustomPairingMaxSize : Nat := 4096

/-- `macAddr_t`. -/
structure MacAddr where
  bondMark : U8
  adrType : U8
  address : Vector U8 6
  deriving DecidableEq, Repr

/-- The record as eight bytes. -/
def MacAddr.bytes (d : MacAddr) : List Byte := d.bondMark :: d.adrType :: d.address.toList

/-- The record `flash_read_page` fills from the eight bytes at `a`. -/
def MacAddr.load (m : Mem) (a : Nat) : MacAddr :=
  ⟨m a, m (a + 1), Vector.ofFn fun i => m (a + 2 + i)⟩

/-- A record of zero bytes. -/
def MacAddr.zero : MacAddr := ⟨0#8, 0#8, Vector.replicate 6 0#8⟩

/-- `user_salveMac_t`. -/
structure UserSalveMac where
  bondFlashIdx : Vector Nat userPairSlaveMaxNum
  bondDevice : Vector MacAddr userPairSlaveMaxNum
  curNum : Nat
  deriving DecidableEq, Repr

namespace UserSalveMac

/-- `bond_flash_idx[i]`. -/
def flashIdx (t : UserSalveMac) (i : Nat) : Nat := t.bondFlashIdx[i]?.getD 0

/-- `bond_device[i]`. -/
def device (t : UserSalveMac) (i : Nat) : MacAddr := t.bondDevice[i]?.getD .zero

/-- The `move data` loop from `i` and `curNum --`. -/
def closeGap (t : UserSalveMac) (i : Nat) : UserSalveMac :=
  { bondFlashIdx := shiftDown t.bondFlashIdx i t.curNum
    bondDevice := shiftDown t.bondDevice i t.curNum
    curNum := t.curNum - 1 }

/-- Entry `curNum` written, and `curNum ++`. -/
def push (t : UserSalveMac) (idx : Nat) (d : MacAddr) : UserSalveMac :=
  { bondFlashIdx := store t.bondFlashIdx t.curNum idx
    bondDevice := store t.bondDevice t.curNum d
    curNum := t.curNum + 1 }

/-- The test for entry `i` of the search loops. -/
def isMatch (t : UserSalveMac) (adrType : U8) (adr : Vector U8 6) (i : Nat) : Bool :=
  (t.device i).adrType == adrType && (t.device i).address == adr

/-- The first entry a search loop stops at. -/
def firstMatch (t : UserSalveMac) (adrType : U8) (adr : Vector U8 6) : Option Nat :=
  (List.range t.curNum).find? (t.isMatch adrType adr)

/-- The table of a zeroed RAM. -/
def zero : UserSalveMac := ⟨Vector.replicate _ 0, Vector.replicate _ .zero, 0⟩

end UserSalveMac

/-- The globals: `user_tbl_slaveMac` and `user_bond_slave_flash_cfg_idx`. -/
structure Ram where
  slaveMac : UserSalveMac
  flashCfgIdx : Int
  deriving DecidableEq, Repr

/-- What a call does: the flash commands it issues, the globals it leaves, its return value. -/
structure Outcome where
  cmds : List Cmd
  ram : Ram
  ret : Int

/-- `user_tbl_slave_mac_delete_by_index`. -/
def userTblSlaveMacDeleteByIndex (r : Ram) (index : Nat) : List Cmd × Ram :=
  ([.program (r.slaveMac.flashIdx index) [adrEraseMark]],
    { r with slaveMac := r.slaveMac.closeGap index })

/-- The first test of `user_tbl_slave_mac_add`: a full table loses its oldest entry.  Both
branches set `add_new`. -/
def makeRoom (r : Ram) : List Cmd × Ram :=
  if r.slaveMac.curNum ≥ userPairSlaveMaxNum then userTblSlaveMacDeleteByIndex r 0 else ([], r)

/-- `user_tbl_slave_mac_add`. -/
def userTblSlaveMacAdd (r : Ram) (adrType : U8) (adr : Vector U8 6) : Outcome :=
  let (evict, r) := makeRoom r
  let cfgIdx := r.flashCfgIdx + 8
  if cfgIdx ≥ flashCustomPairingMaxSize then
    -- the sector is full: the index stays incremented, an evicted entry stays evicted
    ⟨evict, { r with flashCfgIdx := cfgIdx }, 0⟩
  else
    let d : MacAddr := ⟨adrBondMark, adrType, adr⟩
    ⟨evict ++ [.program cfgIdx.toNat d.bytes],
      { slaveMac := r.slaveMac.push cfgIdx.toNat d, flashCfgIdx := cfgIdx }, 1⟩

@[simp] theorem makeRoom_flashCfgIdx (r : Ram) : (makeRoom r).2.flashCfgIdx = r.flashCfgIdx := by
  rw [makeRoom]; split <;> rfl

/-- An addition at a full sector. -/
theorem add_of_full {r : Ram} (h : r.flashCfgIdx + 8 ≥ flashCustomPairingMaxSize) (adrType : U8)
    (adr : Vector U8 6) : userTblSlaveMacAdd r adrType adr =
      ⟨(makeRoom r).1, { (makeRoom r).2 with flashCfgIdx := r.flashCfgIdx + 8 }, 0⟩ := by
  rw [← makeRoom_flashCfgIdx] at h ⊢
  exact if_pos h

/-- An addition with room in the sector. -/
theorem add_of_room {r : Ram} (h : ¬ r.flashCfgIdx + 8 ≥ flashCustomPairingMaxSize) (adrType : U8)
    (adr : Vector U8 6) : userTblSlaveMacAdd r adrType adr =
      ⟨(makeRoom r).1 ++
          [.program (r.flashCfgIdx + 8).toNat (MacAddr.mk adrBondMark adrType adr).bytes],
        { slaveMac := (makeRoom r).2.slaveMac.push (r.flashCfgIdx + 8).toNat
            ⟨adrBondMark, adrType, adr⟩
          flashCfgIdx := r.flashCfgIdx + 8 }, 1⟩ := by
  rw [← makeRoom_flashCfgIdx] at h ⊢
  exact if_neg h

/-- `user_tbl_slave_mac_search`: the matching entry's number plus one, or 0. -/
def userTblSlaveMacSearch (r : Ram) (adrType : U8) (adr : Vector U8 6) : Int :=
  match r.slaveMac.firstMatch adrType adr with
  | some i => i + 1
  | none => 0

/-- `user_tbl_slave_mac_delete_by_adr`. -/
def userTblSlaveMacDeleteByAdr (r : Ram) (adrType : U8) (adr : Vector U8 6) : Outcome :=
  match r.slaveMac.firstMatch adrType adr with
  | some i =>
      ⟨[.program (r.slaveMac.flashIdx i) [adrEraseMark]],
        { r with slaveMac := r.slaveMac.closeGap i }, 1⟩
  | none => ⟨[], r, 0⟩

/-- `user_tbl_slave_mac_delete_all`: every mark cleared, every record zeroed, then the count. -/
def userTblSlaveMacDeleteAll (r : Ram) : List Cmd × Ram :=
  let is := List.range r.slaveMac.curNum
  (is.map fun i => .program (r.slaveMac.flashIdx i) [adrEraseMark],
    { r with slaveMac :=
        { r.slaveMac with
            bondDevice := is.foldl (fun v i => store v i .zero) r.slaveMac.bondDevice
            curNum := 0 } })

/-- One round of the rewrite loop of `user_bond_slave_flash_clean`. -/
def rewriteRound (s : List Cmd × Ram) (i : Nat) : List Cmd × Ram :=
  let cfgIdx := s.2.flashCfgIdx + 8
  (s.1 ++ [.program cfgIdx.toNat (s.2.slaveMac.device i).bytes],
    { slaveMac :=
        { s.2.slaveMac with bondFlashIdx := store s.2.slaveMac.bondFlashIdx i cfgIdx.toNat }
      flashCfgIdx := cfgIdx })

/-- `user_bond_slave_flash_clean` (`DBG_FLASH_CLEAN` is 0). -/
def userBondSlaveFlashClean (r : Ram) : List Cmd × Ram :=
  if r.flashCfgIdx < flashCustomPairingMaxSize / 2 then ([], r)
  else
    (List.range r.slaveMac.curNum).foldl rewriteRound
      ([.erase 0 flashCustomPairingMaxSize], { r with flashCfgIdx := -8 })

/-- The loop of `user_master_host_pairing_flash_init` with `n` of the 512 slots still to visit:
the loop index it ends with and the table, or `none` for the trap `while(1)`. -/
def scanSlots (m : Mem) : Nat → UserSalveMac → Option (Nat × UserSalveMac)
  | 0, t => some (4096, t)
  | n + 1, t =>
      let cfgIdx := 4096 - 8 * (n + 1)
      let flag := m cfgIdx
      if flag = adrBondMark then
        if t.curNum < userPairSlaveMaxNum then
          scanSlots m n (t.push cfgIdx (.load m cfgIdx))
        else none
      else if flag = 0xFF#8 then some (cfgIdx, t)
      else scanSlots m n t

/-- `user_master_host_pairing_flash_init` over the globals `r`: the commands of the compaction it
may run and the globals it leaves, or `none` for the trap. -/
def userMasterHostPairingFlashInit (m : Mem) (r : Ram) : Option (List Cmd × Ram) :=
  (scanSlots m 512 r.slaveMac).map fun (cfgIdx, t) =>
    userBondSlaveFlashClean { slaveMac := t, flashCfgIdx := (cfgIdx : Int) - 8 }

/-- The globals of a zeroed RAM. -/
def Ram.zero : Ram := ⟨.zero, 0⟩

/-! ### The device -/

/-- A running device: its flash sector and its globals. -/
structure Device where
  flash : Mem
  ram : Ram

/-- A call of the bond table's interface. -/
inductive Call where
  | add (adrType : U8) (adr : Vector U8 6)
  | deleteByAdr (adrType : U8) (adr : Vector U8 6)
  | deleteAll

/-- What a call does on these globals. -/
def Call.run (r : Ram) : Call → Outcome
  | .add adrType adr => userTblSlaveMacAdd r adrType adr
  | .deleteByAdr adrType adr => userTblSlaveMacDeleteByAdr r adrType adr
  | .deleteAll => ⟨(userTblSlaveMacDeleteAll r).1, (userTblSlaveMacDeleteAll r).2, 0⟩

/-- The device after a call. -/
def Device.perform (d : Device) (c : Call) : Device :=
  ⟨applyAll d.flash (c.run d.ram).cmds, (c.run d.ram).ram⟩

/-- A device is running, is without power, or hangs in the trap of the boot scan. -/
inductive Power where
  | on (d : Device)
  | off (m : Mem)
  | trapped (m : Mem)

/-- The flash image, whatever the device does. -/
def Power.flash : Power → Mem
  | .on d => d.flash
  | .off m => m
  | .trapped m => m

/-- Boot from the image `m`: RAM zeroed, then the initialisation. -/
def boot (m : Mem) : Power :=
  match userMasterHostPairingFlashInit m .zero with
  | some (cs, r) => .on ⟨applyAll m cs, r⟩
  | none => .trapped m

/-- A boot reset after `k` of its flash commands. -/
def bootCut (m : Mem) (k : Nat) : Power :=
  match userMasterHostPairingFlashInit m .zero with
  | some (cs, _) => .off (applyAll m (cs.take k))
  | none => .trapped m

/-- What the device is made to do: a call, or a reset followed by a boot. -/
inductive Action where
  | call (c : Call)
  | reboot

/-- An action that completes, or one cut by a reset after `k` of its flash commands. -/
inductive Event where
  | done (a : Action)
  | cut (a : Action) (k : Nat)

/-- One event.  Calls are made by the program, so only while the device runs; a device in the
trap stays there. -/
def Power.step : Power → Event → Power
  | .trapped m, _ => .trapped m
  | s, .done .reboot => boot s.flash
  | s, .cut .reboot k => bootCut s.flash k
  | .on d, .done (.call c) => .on (d.perform c)
  | .on d, .cut (.call c) k => .off (applyAll d.flash ((c.run d.ram).cmds.take k))
  | .off m, .done (.call _) => .off m
  | .off m, .cut (.call _) _ => .off m

/-- The first boot: an erased sector and a zeroed RAM. -/
def firstBoot : Power := boot fun _ => blank

end TelinkB91.Pairing
