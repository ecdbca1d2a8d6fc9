import TelinkB91.Flash.Lock
import TelinkB91.Lib.NorFlash
import TelinkB91.Lib.Runs

/-!
# Flash — the protection of the firmware over a run of events

The application locks the flash when it starts, opens it when an update begins to erase or to write
and locks it again at its end (`app_flash_protection_operation`).  `flash_protection_init` chooses
the functions by the device; the device 0x166085 takes its status register in two commands, either
of which it may drop.  In between anybody may program pages and erase sectors, and the device
refuses those inside the area its block protect bits name.

* `Settles`: after one lock or unlock the block protect bits are those asked for, and the other
  bits are as before.
* `Kept`: the invariant of the runs, with what the last event has left.
* `firmware_protected`: no byte of the locked area changes outside an update, and the sectors the
  application writes itself are never locked.
-/

namespace TelinkB91.Flash.Lock.Protection

open NorFlash (Mem programPage)

/-! ### The other devices -/

/-- The low byte of the one and the high byte of the other. -/
def mix (low high : U16) : U16 := ofBytes (low.setWidth 8) ((high >>> 8).setWidth 8)

/-- `flash_write_status`, with `FLASH_TYPE_16BIT_STATUS_TWO_CMD`: a command for each byte. -/
def flashWriteStatusTwoCmd (c : Chip) (d : Device) (data : U16) : Device :=
  let d := flashWriteStatus c d (mix data d.status)
  flashWriteStatus c d (mix d.status data)

/-- `flash_lock_mid146085`, with `flash_write_status_mid146085`. -/
def flashLockMid146085 (c : Chip) (data : U16) (d : Device) : Device :=
  flashWriteStatus c d (data ||| flashReadStatusMid156085 d &&& ~~~flashWriteStatusBp)

/-- `flash_unlock_mid146085`. -/
def flashUnlockMid146085 (c : Chip) (d : Device) : Device := flashLockMid146085 c flashLockNone d

/-- `flash_lock_mid166085`, with `flash_write_status_mid166085`. -/
def flashLockMid166085 (c : Chip) (data : U16) (d : Device) : Device :=
  let d := flashWriteConfigMid156085 c d 0x00#8 flashWriteConfigureWps
  flashWriteStatusTwoCmd c d (data ||| flashReadStatusMid156085 d &&& ~~~flashWriteStatusBp)

/-- `flash_unlock_mid166085`. -/
def flashUnlockMid166085 (c : Chip) (d : Device) : Device := flashLockMid166085 c flashLockNone d

/-- `flash_protection_init`, for the device it has read.  Reading the status is the same for all. -/
def flashProtectionInit (c : Chip) (flashGetLockStatus : U16 → U16) (blcFlashMid : U32) :
    Option FlashProt :=
  if blcFlashMid = 0x146085#32 then
    some ⟨fun cmd => flashLockMid146085 c (cmd.setWidth 16), flashUnlockMid146085 c,
      flashReadStatusMid156085, flashGetLockStatus, flashLockNone⟩
  else if blcFlashMid = 0x156085#32 then some (mid156085 c flashGetLockStatus)
  else if blcFlashMid = 0x166085#32 then
    some ⟨fun cmd => flashLockMid166085 c (cmd.setWidth 16), flashUnlockMid166085 c,
      flashReadStatusMid156085, flashGetLockStatus, flashLockNone⟩
  else none

/-- `flash_app_lock_e`. -/
def flashLockLow256K : U32 := 2#32

/-- `FLASH_LOCK_LOW_512K`. -/
def flashLockLow512K : U32 := 3#32

/-- `FLASH_LOCK_LOW_1M`. -/
def flashLockLow1M : U32 := 4#32

/-- `flash_change_app_lock_block_to_flash_lock_block`. -/
def flashChangeAppLockBlock (blcFlashMid appLockBlock : U32) : U16 :=
  if blcFlashMid = 0x146085#32 then
    if appLockBlock = flashLockLow256K then 0x002c#16
    else if appLockBlock = flashLockLow512K then 0x0030#16
    else if appLockBlock = flashLockLow1M then 0x4004#16
    else 0#16
  else if blcFlashMid = 0x156085#32 ∨ blcFlashMid = 0x166085#32 then
    if appLockBlock = flashLockLow256K then 0x002c#16
    else if appLockBlock = flashLockLow512K then 0x0030#16
    else if appLockBlock = flashLockLow1M then 0x0034#16
    else 0#16
  else 0#16

/-- `app_lockBlock`, by `multiBootAddress`; for any other address nothing sets it. -/
def appLockBlock (multiBootAddress unset : U32) : U32 :=
  if multiBootAddress = 0x20000#32 then flashLockLow256K
  else if multiBootAddress = 0x40000#32 then flashLockLow512K
  else if multiBootAddress = 0x80000#32 then flashLockLow1M
  else unset

/-! ### The board -/

/-- The device and the libraries: its status writes, its identity, the area that its registers
protect, `blc_ota_getCurrentUsedMultipleBootAddress`, and what a variable holds that nothing set. -/
structure Board where
  chip : Chip
  flashReadMid : U32
  flashGetLockStatus : U16 → U16
  protects : U16 → U8 → Nat → Bool
  multiBootAddress : U32
  unset : U32

/-- The variables of the protection, the registers and the contents of the flash; `stuck` once a
function was called through a null pointer. -/
structure State where
  blcFlashMid : U32
  prot : Option FlashProt
  flashLockBlockCmd : U16
  dev : Device
  mem : Mem
  stuck : Bool

def State.boot (blcFlashMid : U32) (dev : Device) (mem : Mem) : State :=
  ⟨blcFlashMid, none, 0#16, dev, mem, false⟩

/-- `flash_lock` and `flash_unlock`, through the pointers. -/
def State.through (s : State) (op : FlashProt → Device → Device) : State :=
  match s.prot with
  | some p => { s with dev := op p s.dev }
  | none => { s with stuck := true }

/-- `FLASH_OP_EVT_APP_INITIALIZATION`. -/
def evtAppInitialization : U8 := 1#8

/-- `FLASH_OP_EVT_STACK_OTA_CLEAR_OLD_FW_BEGIN`. -/
def evtOtaClearOldFwBegin : U8 := 10#8

/-- `FLASH_OP_EVT_STACK_OTA_CLEAR_OLD_FW_END`. -/
def evtOtaClearOldFwEnd : U8 := 11#8

/-- `FLASH_OP_EVT_STACK_OTA_WRITE_NEW_FW_BEGIN`. -/
def evtOtaWriteNewFwBegin : U8 := 12#8

/-- `FLASH_OP_EVT_STACK_OTA_WRITE_NEW_FW_END`. -/
def evtOtaWriteNewFwEnd : U8 := 13#8

/-- `app_flash_protection_operation`.  The addresses go to the log alone. -/
def Board.appFlashProtectionOperation (b : Board) (s : State) (flashOpEvt : U8)
    (_opAddrBegin _opAddrEnd : U32) : State :=
  if flashOpEvt = evtAppInitialization then
    let mid := if s.blcFlashMid = 0#32 then b.flashReadMid else s.blcFlashMid
    let cmd := flashChangeAppLockBlock mid (appLockBlock b.multiBootAddress b.unset)
    let s := { s with
      blcFlashMid := mid
      prot := (flashProtectionInit b.chip b.flashGetLockStatus mid).or s.prot
      flashLockBlockCmd := cmd }
    s.through fun p => p.flashLock (cmd.setWidth 32)
  else if flashOpEvt = evtOtaClearOldFwBegin then s.through fun p => p.flashUnlock
  else if flashOpEvt = evtOtaClearOldFwEnd then
    s.through fun p => p.flashLock (s.flashLockBlockCmd.setWidth 32)
  else if flashOpEvt = evtOtaWriteNewFwBegin then s.through fun p => p.flashUnlock
  else if flashOpEvt = evtOtaWriteNewFwEnd then
    s.through fun p => p.flashLock (s.flashLockBlockCmd.setWidth 32)
  else s

/-- What happens: an event of the protection, a page program, a sector erase. -/
inductive Event where
  | operation (flashOpEvt : U8) (opAddrBegin opAddrEnd : U32)
  | program (a : Nat) (bs : List U8)
  | erase (a : Nat)

/-- The device refuses a command whose address it protects. -/
def Board.command (b : Board) (s : State) (a : Nat) (m : Mem) : State :=
  if b.protects s.dev.status s.dev.config a then s else { s with mem := m }

def Board.step (b : Board) (s : State) (e : Event) : State :=
  if s.stuck then s
  else match e with
    | .operation evt opAddrBegin opAddrEnd =>
        b.appFlashProtectionOperation s evt opAddrBegin opAddrEnd
    | .program a bs => b.command s a (programPage 256 s.mem a bs)
    | .erase a => b.command s a (NorFlash.erase s.mem (a / 4096 * 4096) 4096)

/-! ### One write of the status -/

theorem getLsbD_mix (x y : U16) (j : Nat) :
    (mix x y).getLsbD j = if j < 8 then x.getLsbD j else y.getLsbD j := by
  rw [mix, ofBytes]
  simp only [BitVec.getLsbD_or, BitVec.getLsbD_setWidth, BitVec.getLsbD_shiftLeft,
    BitVec.getLsbD_ushiftRight]
  by_cases hlow : j < 8
  · have hj : j < 16 := by omega
    simp [hlow, hj]
  · by_cases hj : j < 16
    · have hback : 8 + (j - 8) = j := by omega
      have hhigh : j - 8 < 8 := by omega
      have hin : j - 8 < 16 := by omega
      simp [hlow, hj, hback, hhigh, hin]
    · have hy : y.getLsbD j = false := BitVec.getLsbD_of_ge y j (by omega)
      simp [hlow, hj, hy]

theorem mix_and (x y m : U16) : mix x y &&& m = mix (x &&& m) (y &&& m) := by
  refine BitVec.eq_of_getLsbD_eq fun j _ => ?_
  simp only [BitVec.getLsbD_and, getLsbD_mix]
  split <;> rfl

theorem mix_self (x : U16) : mix x x = x := ofBytes_bytes x

theorem flashReadStatus_eq (d : Device) : flashReadStatusMid156085 d = d.status :=
  ofBytes_bytes d.status

/-- The register after one command. -/
theorem flashWriteStatus_status (c : Chip) (d : Device) (data : U16) :
    (flashWriteStatus c d data).status =
      if c.takesStatus d.statusWrites.length then data else d.status := by
  rw [flashWriteStatus]
  dsimp only
  rw [ofBytes_bytes]

theorem flashWriteStatus_count (c : Chip) (d : Device) (data : U16) :
    (flashWriteStatus c d data).statusWrites.length = d.statusWrites.length + 1 := by
  simp [flashWriteStatus]

/-- An attempt in `k` commands for the bits `x`. -/
structure Writes (c : Chip) (k : Nat) (x : U16) (d d' : Device) : Prop where
  count : d'.statusWrites.length = d.statusWrites.length + k
  kept : d'.status &&& ~~~flashWriteStatusBp = d.status &&& ~~~flashWriteStatusBp
  config : d.config &&& flashWriteConfigureWps = 0#8 → d'.config &&& flashWriteConfigureWps = 0#8
  taken : (∀ j < k, c.takesStatus (d.statusWrites.length + j) = true) →
    d'.status &&& flashWriteStatusBp = x

variable {c : Chip} {x : U16}

theorem writes_one (hx : x &&& ~~~flashWriteStatusBp = 0#16) (d : Device) :
    Writes c 1 x d (flashWriteStatus c d (x ||| d.status &&& ~~~flashWriteStatusBp)) where
  count := flashWriteStatus_count c d _
  kept := by
    rw [flashWriteStatus_status]
    split
    · exact WordBits.insert_andNot hx d.status
    · rfl
  config h := h
  taken h := by
    have htaken : c.takesStatus d.statusWrites.length = true := h 0 Nat.one_pos
    rw [flashWriteStatus_status, if_pos htaken]
    exact WordBits.insert_and hx d.status

/-- Either byte may be dropped; what is kept is in both. -/
theorem writes_two (hx : x &&& ~~~flashWriteStatusBp = 0#16) (d : Device) :
    Writes c 2 x d (flashWriteStatusTwoCmd c d (x ||| d.status &&& ~~~flashWriteStatusBp)) := by
  have hin := WordBits.insert_and hx d.status
  have hout := WordBits.insert_andNot hx d.status
  constructor
  · rw [flashWriteStatusTwoCmd, flashWriteStatus_count, flashWriteStatus_count]
  · rw [flashWriteStatusTwoCmd, flashWriteStatus_status, flashWriteStatus_status]
    split <;> split <;> simp only [mix_and, hout, mix_self]
  · exact fun h => h
  · intro h
    have hlow : c.takesStatus d.statusWrites.length = true := h 0 (by decide)
    have hhigh : c.takesStatus (d.statusWrites.length + 1) = true := h 1 (by decide)
    rw [flashWriteStatusTwoCmd, flashWriteStatus_status, flashWriteStatus_status,
      flashWriteStatus_count, if_pos hhigh, if_pos hlow]
    simp only [mix_and, hin]
    refine BitVec.eq_of_getLsbD_eq fun j _ => ?_
    simp only [getLsbD_mix]
    split <;> rfl

/-- The functions of one device, with its commands for an attempt. -/
structure Driver (c : Chip) (k : Nat) (p : FlashProt) : Prop where
  unlock : ∀ d, Writes c k flashLockNone d (p.flashUnlockMid d)
  lock : ∀ x : U16, x &&& ~~~flashWriteStatusBp = 0#16 →
    ∀ d, Writes c k x d (p.flashLockMid (x.setWidth 32) d)
  status : ∀ d, p.curLockStatus d = d.status &&& flashWriteStatusBp
  unlockStatus : p.flashUnlockStatus = flashLockNone

/-- Clearing the bit of the configuration register first changes nothing else. -/
theorem Writes.configured {k : Nat} {d d' : Device}
    (h : Writes c k x (flashWriteConfigMid156085 c d 0x00#8 flashWriteConfigureWps) d') :
    Writes c k x d d' where
  count := h.count
  kept := h.kept
  config hd := by
    refine h.config ?_
    rw [flashWriteConfigMid156085, flashWriteConfig]
    dsimp only
    split
    · rw [BitVec.zero_or, BitVec.and_assoc]
      exact BitVec.and_zero
    · exact hd
  taken := h.taken

theorem none_field : flashLockNone &&& ~~~flashWriteStatusBp = 0#16 := BitVec.zero_and

theorem setWidth_back (x : U16) : (x.setWidth 32).setWidth 16 = x := by
  rw [BitVec.setWidth_setWidth_of_le _ (by decide), BitVec.setWidth_eq]

/-- The commands of an attempt. -/
def commandsOf (mid : U32) : Nat := if mid = 0x166085#32 then 2 else 1

theorem driver_of {get : U16 → U16} (hget : ∀ s, get s = s &&& flashWriteStatusBp) {k : Nat}
    {op : U16 → Device → Device}
    (hop : ∀ x : U16, x &&& ~~~flashWriteStatusBp = 0#16 → ∀ d, Writes c k x d (op x d)) :
    Driver c k ⟨fun cmd => op (cmd.setWidth 16), op flashLockNone, flashReadStatusMid156085, get,
      flashLockNone⟩ where
  unlock := hop flashLockNone none_field
  lock x hx d := by
    dsimp only
    rw [setWidth_back]
    exact hop x hx d
  status d := by
    rw [FlashProt.curLockStatus]
    dsimp only
    rw [flashReadStatus_eq, hget]
  unlockStatus := rfl

/-- **The device.**  What is chosen for each of the three drives it. -/
theorem driver_init {get : U16 → U16} (hget : ∀ s, get s = s &&& flashWriteStatusBp) {mid : U32}
    {p : FlashProt} (hp : flashProtectionInit c get mid = some p) :
    Driver c (commandsOf mid) p := by
  rw [flashProtectionInit] at hp
  split_ifs at hp with h₁ h₂ h₃
  · obtain rfl := Option.some.inj hp
    rw [commandsOf, if_neg (h₁ ▸ by decide)]
    refine driver_of hget fun x hx d => ?_
    rw [flashLockMid146085, flashReadStatus_eq]
    exact writes_one hx d
  · obtain rfl := Option.some.inj hp
    rw [commandsOf, if_neg (h₂ ▸ by decide)]
    refine driver_of hget fun x hx d => ?_
    rw [flashLockMid156085, flashWriteStatusMid156085, flashReadStatus_eq]
    exact (writes_one hx _).configured
  · obtain rfl := Option.some.inj hp
    rw [commandsOf, if_pos h₃]
    refine driver_of hget fun x hx d => ?_
    rw [flashLockMid166085, flashReadStatus_eq]
    exact (writes_two hx _).configured

/-! ### The loops -/

/-- Of three attempts of `k` commands in a row, the device takes one. -/
def Steady (c : Chip) (k : Nat) : Prop :=
  ∀ n, ∃ i < 3, ∀ j < k, c.takesStatus (n + k * i + j) = true

/-- The block protect bits are `x`, and the others as before. -/
structure Settles (x : U16) (d d' : Device) : Prop where
  field : d'.status &&& flashWriteStatusBp = x
  kept : d'.status &&& ~~~flashWriteStatusBp = d.status &&& ~~~flashWriteStatusBp
  config : d.config &&& flashWriteConfigureWps = 0#8 → d'.config &&& flashWriteConfigureWps = 0#8

/-- What every attempt leaves alone, the loop does. -/
theorem kept_tries {p : FlashProt} {op : Device → Device} {k : Nat}
    (hop : ∀ d, Writes c k x d (op d)) (wanted : U16 → Bool) (n : Nat) (d : Device) :
    (p.tries op wanted n d).status &&& ~~~flashWriteStatusBp = d.status &&& ~~~flashWriteStatusBp ∧
      (d.config &&& flashWriteConfigureWps = 0#8 →
        (p.tries op wanted n d).config &&& flashWriteConfigureWps = 0#8) := by
  induction n generalizing d with
  | zero => exact ⟨rfl, fun h => h⟩
  | succ n ih =>
      have hfirst := hop d
      rw [FlashProt.tries]
      split
      · exact ⟨hfirst.kept, hfirst.config⟩
      · obtain ⟨hkept, hconfig⟩ := ih (op d)
        exact ⟨hkept.trans hfirst.kept, fun h => hconfig (hfirst.config h)⟩

/-- **The attempts.**  One of those there are is taken, and then the loop stops. -/
theorem settles_tries {p : FlashProt} {op : Device → Device} {wanted : U16 → Bool} {k : Nat}
    (hop : ∀ d, Writes c k x d (op d))
    (hwanted : ∀ d, wanted (p.curLockStatus d) = true ↔ d.status &&& flashWriteStatusBp = x)
    (n : Nat) (d : Device)
    (htaken : ∃ i < n, ∀ j < k, c.takesStatus (d.statusWrites.length + k * i + j) = true) :
    Settles x d (p.tries op wanted n d) := by
  obtain ⟨i, hi, htaken⟩ := htaken
  obtain ⟨hkept, hconfig⟩ := kept_tries (p := p) hop wanted n d
  refine ⟨(hwanted _).mp (FlashProt.tries_wanted
    (fun e => ∀ j < k, c.takesStatus (e.statusWrites.length + j) = true) (fun e he => ?_) n d
    ⟨i, hi, ?_⟩), hkept, hconfig⟩
  · exact (hwanted _).mpr ((hop e).taken he)
  · rw [length_iterate fun e => (hop e).count]
    exact htaken

section loops

variable {p : FlashProt} {k : Nat}

/-- **Unlocking.** -/
theorem Driver.settles_unlock (hp : Driver c k p) (hc : Steady c k) (d : Device) :
    Settles flashLockNone d (p.flashUnlock d) := by
  rw [FlashProt.flashUnlock, hp.status, hp.unlockStatus]
  split
  · refine settles_tries hp.unlock (fun e => ?_) 3 d (hc _)
    rw [hp.status, hp.unlockStatus, beq_iff_eq]
  next hopen => exact ⟨not_not.mp hopen, rfl, fun h => h⟩

/-- **Locking.** -/
theorem Driver.settles_lock (hp : Driver c k p) (hc : Steady c k)
    (hx : x &&& ~~~flashWriteStatusBp = 0#16) (d : Device) :
    Settles x d (p.flashLock (x.setWidth 32) d) := by
  have hwide : ∀ s : U16, s.setWidth 32 = x.setWidth 32 ↔ s = x := by
    intro s
    refine ⟨fun h => ?_, congrArg _⟩
    rw [← setWidth_back s, h, setWidth_back]
  rw [FlashProt.flashLock, hp.status]
  split
  next hlocked => exact ⟨(hwide _).mp hlocked, rfl, fun h => h⟩
  · have hopened := hp.settles_unlock hc d
    have hlocked : Settles x (p.flashUnlock d) (p.lockTries (x.setWidth 32) (p.flashUnlock d)) := by
      refine settles_tries (hp.lock x hx) (fun e => ?_) 3 _ (hc _)
      rw [hp.status, beq_iff_eq, hwide]
    exact ⟨hlocked.field, hlocked.kept.trans hopened.kept,
      fun h => hlocked.config (hopened.config h)⟩

end loops

/-! ### The runs -/

/-- The devices that `flash_protection_init` knows. -/
def Supported (mid : U32) : Prop :=
  mid = 0x146085#32 ∨ mid = 0x156085#32 ∨ mid = 0x166085#32

instance : DecidablePred Supported := fun mid =>
  inferInstanceAs (Decidable (mid = 0x146085#32 ∨ mid = 0x156085#32 ∨ mid = 0x166085#32))

/-- The end of the area that a lock block names, by the comments of the lists of lock blocks.  The
device of 1M bytes leaves its last 64K. -/
def lockEnd (mid appLockBlock : U32) : Nat :=
  if appLockBlock = flashLockLow256K then 0x40000
  else if appLockBlock = flashLockLow512K then 0x80000
  else if mid = 0x146085#32 then 0xf0000
  else 0x100000

/-- `FLASH_ADR_SMP_PAIRING_1M_FLASH` and its siblings, by the size of the device.  The sectors of
the calibration and of the address lie behind it. -/
def flashAdrSmpPairing (mid : U32) : Nat :=
  if mid = 0x146085#32 then 0xfc000
  else if mid = 0x156085#32 then 0x1fc000
  else 0x3fc000

/-- The lock block of the board. -/
def Board.block (b : Board) : U32 := appLockBlock b.multiBootAddress b.unset

/-- The bits that lock the board. -/
def Board.cmd (b : Board) : U16 := flashChangeAppLockBlock b.flashReadMid b.block

/-- What the board is documented to be: the boot addresses of the updates, a device that takes one
of three attempts, the lock status as a field of the register, and the areas of the lock blocks. -/
structure Documented (b : Board) : Prop where
  boot : b.multiBootAddress = 0x20000#32 ∨ b.multiBootAddress = 0x40000#32 ∨
    b.multiBootAddress = 0x80000#32
  steady : Steady b.chip (commandsOf b.flashReadMid)
  lockStatus : ∀ s, b.flashGetLockStatus s = s &&& flashWriteStatusBp
  unlocked : ∀ s g a, g &&& flashWriteConfigureWps = 0#8 →
    s &&& flashWriteStatusBp = flashLockNone → b.protects s g a = false
  locked : ∀ s g a, g &&& flashWriteConfigureWps = 0#8 → s &&& flashWriteStatusBp = b.cmd →
    b.protects s g a = decide (a < lockEnd b.flashReadMid b.block)

/-- Whether the flash is locked, by the events. -/
def lockedAfter (locked : Bool) : Event → Bool
  | .operation evt _ _ =>
      if evt = evtAppInitialization ∨ evt = evtOtaClearOldFwEnd ∨ evt = evtOtaWriteNewFwEnd then true
      else if evt = evtOtaClearOldFwBegin ∨ evt = evtOtaWriteNewFwBegin then false
      else locked
  | _ => locked

/-- The events that open the flash. -/
def Opens : Event → Prop
  | .operation evt _ _ => evt = evtOtaClearOldFwBegin ∨ evt = evtOtaWriteNewFwBegin
  | _ => False

variable {b : Board}

/-- What holds once the application has started. -/
structure Kept (b : Board) (status : U16) (locked : Bool) (s : State) : Prop where
  mid : s.blcFlashMid = b.flashReadMid
  prot : ∃ p, s.prot = some p ∧ Driver b.chip (commandsOf b.flashReadMid) p
  cmd : s.flashLockBlockCmd = b.cmd
  field : s.dev.status &&& flashWriteStatusBp = if locked then b.cmd else flashLockNone
  others : s.dev.status &&& ~~~flashWriteStatusBp = status &&& ~~~flashWriteStatusBp
  config : s.dev.config &&& flashWriteConfigureWps = 0#8
  going : s.stuck = false

theorem supported_iff {c : Chip} {get : U16 → U16} {mid : U32} :
    Supported mid ↔ (flashProtectionInit c get mid).isSome = true := by
  rw [flashProtectionInit, Supported]
  split_ifs with h₁ h₂ h₃
  · simp [h₁]
  · simp [h₂]
  · simp [h₃]
  · simp [h₁, h₂, h₃]

theorem cmd_field (b : Board) : b.cmd &&& ~~~flashWriteStatusBp = 0#16 := by
  rw [Board.cmd, flashChangeAppLockBlock]
  split_ifs <;> decide

/-- A lock or an unlock keeps all but the field. -/
theorem Kept.settled {status : U16} {locked : Bool} {s : State} (h : Kept b status locked s)
    (locked' : Bool) {d : Device}
    (hd : Settles (if locked' then b.cmd else flashLockNone) s.dev d) :
    Kept b status locked' { s with dev := d } where
  mid := h.mid
  prot := h.prot
  cmd := h.cmd
  field := hd.field
  others := hd.kept.trans h.others
  config := hd.config h.config
  going := h.going

theorem through_some {s : State} {p : FlashProt} (h : s.prot = some p)
    (op : FlashProt → Device → Device) : s.through op = { s with dev := op p s.dev } := by
  simp only [State.through, h]

theorem Kept.lock (hb : Documented b) {status : U16} {locked : Bool} {s : State}
    (h : Kept b status locked s) :
    Kept b status true (s.through fun p => p.flashLock (s.flashLockBlockCmd.setWidth 32)) := by
  obtain ⟨p, hp, hdriver⟩ := h.prot
  rw [through_some hp]
  refine h.settled true ?_
  rw [h.cmd]
  exact hdriver.settles_lock hb.steady (cmd_field b) s.dev

theorem Kept.unlock (hb : Documented b) {status : U16} {locked : Bool} {s : State}
    (h : Kept b status locked s) : Kept b status false (s.through fun p => p.flashUnlock) := by
  obtain ⟨p, hp, hdriver⟩ := h.prot
  rw [through_some hp]
  exact h.settled false (hdriver.settles_unlock hb.steady s.dev)

/-- The state in which the initialization locks. -/
def Board.ready (b : Board) (s : State) : State :=
  { s with
    blcFlashMid := b.flashReadMid
    prot := (flashProtectionInit b.chip b.flashGetLockStatus b.flashReadMid).or s.prot
    flashLockBlockCmd := b.cmd }

theorem initialization_eq {s : State} (hmid : s.blcFlashMid = 0#32 ∨ s.blcFlashMid = b.flashReadMid)
    (x y : U32) : b.appFlashProtectionOperation s evtAppInitialization x y =
      (b.ready s).through fun p => p.flashLock (b.cmd.setWidth 32) := by
  have hread : (if s.blcFlashMid = 0#32 then b.flashReadMid else s.blcFlashMid) =
      b.flashReadMid := by
    split
    · rfl
    next h0 => exact hmid.resolve_left h0
  rw [Board.appFlashProtectionOperation, if_pos rfl]
  dsimp only
  rw [hread]
  rfl

/-- **The initialization** locks, from whatever state. -/
theorem kept_initialization (hb : Documented b) {s : State}
    (hmid : s.blcFlashMid = 0#32 ∨ s.blcFlashMid = b.flashReadMid)
    (hconfig : s.dev.config &&& flashWriteConfigureWps = 0#8) (hgoing : s.stuck = false)
    {p : FlashProt} (hp : flashProtectionInit b.chip b.flashGetLockStatus b.flashReadMid = some p)
    {status : U16} (hothers : s.dev.status &&& ~~~flashWriteStatusBp =
      status &&& ~~~flashWriteStatusBp) (x y : U32) :
    Kept b status true (b.appFlashProtectionOperation s evtAppInitialization x y) := by
  have hdriver := driver_init hb.lockStatus hp
  have hlocked := hdriver.settles_lock hb.steady (cmd_field b) s.dev
  have hprot : (b.ready s).prot = some p := by
    rw [Board.ready, hp]
    rfl
  rw [initialization_eq hmid, through_some hprot]
  exact
    { mid := rfl
      prot := ⟨p, hprot, hdriver⟩
      cmd := rfl
      field := hlocked.field
      others := hlocked.kept.trans hothers
      config := hlocked.config hconfig
      going := hgoing }

/-- The contents do not matter. -/
theorem Kept.command {status : U16} {locked : Bool} {s : State} (h : Kept b status locked s)
    (a : Nat) (m : Mem) : Kept b status locked (b.command s a m) := by
  rw [Board.command]
  split
  · exact h
  · exact { h with }

/-- **One step.** -/
theorem Kept.step (hb : Documented b) (hmid : Supported b.flashReadMid) {status : U16}
    {locked : Bool} {s : State} (h : Kept b status locked s) (e : Event) :
    Kept b status (lockedAfter locked e) (b.step s e) := by
  rw [Board.step.eq_def, if_neg (by rw [h.going]; decide)]
  cases e with
  | program a bs => exact h.command a _
  | erase a => exact h.command a _
  | operation evt x y =>
      rw [lockedAfter]
      by_cases hinit : evt = evtAppInitialization
      · subst hinit
        obtain ⟨p, hp⟩ := Option.isSome_iff_exists.mp (supported_iff.mp hmid)
        rw [if_pos (.inl rfl)]
        exact kept_initialization hb (.inr h.mid) h.config h.going hp h.others x y
      · dsimp only
        rw [Board.appFlashProtectionOperation, if_neg hinit]
        by_cases h₁ : evt = evtOtaClearOldFwBegin
        · subst h₁
          exact h.unlock hb
        by_cases h₂ : evt = evtOtaClearOldFwEnd
        · subst h₂
          exact h.lock hb
        by_cases h₃ : evt = evtOtaWriteNewFwBegin
        · subst h₃
          exact h.unlock hb
        by_cases h₄ : evt = evtOtaWriteNewFwEnd
        · subst h₄
          exact h.lock hb
        rw [if_neg h₁, if_neg h₂, if_neg h₃, if_neg h₄, if_neg (by simp [hinit, h₂, h₄]),
          if_neg (by simp [h₁, h₃])]
        exact h

theorem through_mem (s : State) (op : FlashProt → Device → Device) :
    (s.through op).mem = s.mem := by
  rw [State.through]
  split <;> rfl

theorem operation_mem (b : Board) (s : State) (evt : U8) (x y : U32) :
    (b.appFlashProtectionOperation s evt x y).mem = s.mem := by
  rw [Board.appFlashProtectionOperation]
  split_ifs <;> first | rfl | exact through_mem _ _

/-- The areas end between two sectors, so between two pages. -/
theorem lockEnd_sectors (mid appLockBlock : U32) : lockEnd mid appLockBlock % 4096 = 0 := by
  rw [lockEnd]
  split_ifs <;> rfl

/-- What the device does with a command. -/
theorem Kept.protects (hb : Documented b) {status : U16} {locked : Bool} {s : State}
    (h : Kept b status locked s) (a : Nat) : b.protects s.dev.status s.dev.config a =
      (locked && decide (a < lockEnd b.flashReadMid b.block)) := by
  have hfield := h.field
  cases locked with
  | true => exact hb.locked _ _ a h.config hfield
  | false => exact hb.unlocked _ _ a h.config hfield

/-- **Locked**, no byte of the area changes. -/
theorem Kept.mem_below (hb : Documented b) {status : U16} {s : State} (h : Kept b status true s)
    (e : Event) {x : Nat} (hx : x < lockEnd b.flashReadMid b.block) :
    (b.step s e).mem x = s.mem x := by
  have hsectors := lockEnd_sectors b.flashReadMid b.block
  rw [Board.step.eq_def, if_neg (by rw [h.going]; decide)]
  cases e with
  | operation evt y z => exact congrFun (operation_mem b s evt y z) x
  | program a bs =>
      dsimp only
      rw [Board.command, h.protects hb, Bool.true_and]
      split
      · rfl
      next hout =>
        rw [decide_eq_true_eq, Nat.not_lt] at hout
        exact NorFlash.programPage_apart (by decide) (.inl (by omega)) s.mem bs
  | erase a =>
      dsimp only
      rw [Board.command, h.protects hb, Bool.true_and]
      split
      · rfl
      next hout =>
        rw [decide_eq_true_eq, Nat.not_lt] at hout
        exact NorFlash.erase_apart (.inl (by omega))

/-- **Open**, or behind the area, a command is executed. -/
theorem Kept.writable (hb : Documented b) {status : U16} {locked : Bool} {s : State}
    (h : Kept b status locked s) {a : Nat}
    (ha : locked = false ∨ lockEnd b.flashReadMid b.block ≤ a) (bs : List U8) :
    (b.step s (.program a bs)).mem = programPage 256 s.mem a bs ∧
      (b.step s (.erase a)).mem = NorFlash.erase s.mem (a / 4096 * 4096) 4096 := by
  have hfree : b.protects s.dev.status s.dev.config a = false := by
    rw [h.protects hb]
    rcases ha with rfl | ha
    · exact Bool.false_and _
    · rw [decide_eq_false (Nat.not_lt.mpr ha), Bool.and_false]
  simp [Board.step, Board.command, h.going, hfree]

theorem lockedAfter_of_not_opens {e : Event} (h : ¬Opens e) : lockedAfter true e = true := by
  cases e with
  | program a bs => rfl
  | erase a => rfl
  | operation evt x y =>
      have hno : ¬(evt = evtOtaClearOldFwBegin ∨ evt = evtOtaWriteNewFwBegin) := h
      rw [lockedAfter, if_neg hno]
      exact ite_self true

/-- **Between the updates.** -/
theorem Kept.mem_later (hb : Documented b) (hmid : Supported b.flashReadMid) {status : U16}
    {s : State} (h : Kept b status true s) {later : List Event} (hlater : ∀ e ∈ later, ¬Opens e)
    {x : Nat} (hx : x < lockEnd b.flashReadMid b.block) :
    (Runs.runFrom b.step s later).mem x = s.mem x := by
  have hguard : Runs.Along b.step (fun _ e => ¬Opens e) s later :=
    .of_forall fun e he _ => hlater e he
  refine (Runs.Along.invariant (I := fun t => Kept b status true t ∧ t.mem x = s.mem x) ?_
    ⟨h, rfl⟩ hguard).2
  rintro t e ⟨ht, hsame⟩ he
  have hnext := ht.step hb hmid e
  rw [lockedAfter_of_not_opens he] at hnext
  exact ⟨hnext, (ht.mem_below hb e hx).trans hsame⟩

/-- Over a run, with what its events have left. -/
theorem Kept.run (hb : Documented b) (hmid : Supported b.flashReadMid) {status : U16} {locked : Bool}
    {s : State} (h : Kept b status locked s) (evs : List Event) :
    Kept b status (evs.foldl lockedAfter locked) (Runs.runFrom b.step s evs) := by
  induction evs generalizing s locked with
  | nil => exact h
  | cons e evs ih => exact ih (h.step hb hmid e)

/-- A call through a null pointer is the last step. -/
theorem stuck_run {s : State} (h : s.stuck = true) (evs : List Event) :
    (Runs.runFrom b.step s evs).stuck = true :=
  Runs.invariant (I := fun t : State => t.stuck = true)
    (fun t e ht => by rw [Board.step.eq_def, if_pos ht]; exact ht) h evs

/-- The areas hold both firmwares, and none of the sectors the application writes. -/
theorem lockEnd_bounds (hb : Documented b) (hmid : Supported b.flashReadMid) :
    (∀ a < 2 * b.multiBootAddress.toNat,
      a < lockEnd b.flashReadMid b.block ∨ b.flashReadMid = 0x146085#32 ∧ 0xf0000 ≤ a) ∧
      lockEnd b.flashReadMid b.block ≤ flashAdrSmpPairing b.flashReadMid := by
  have hsize : ∃ n block, b.multiBootAddress = n ∧ b.block = block ∧
      (n = 0x20000#32 ∧ block = flashLockLow256K ∨ n = 0x40000#32 ∧ block = flashLockLow512K ∨
        n = 0x80000#32 ∧ block = flashLockLow1M) := by
    refine ⟨_, _, rfl, rfl, ?_⟩
    rw [Board.block]
    rcases hb.boot with h | h | h
    · exact .inl ⟨h, by rw [h]; rfl⟩
    · exact .inr (.inl ⟨h, by rw [h]; rfl⟩)
    · exact .inr (.inr ⟨h, by rw [h]; rfl⟩)
  obtain ⟨n, block, hn, hblock, hcase⟩ := hsize
  rw [hn, hblock]
  rcases hcase with ⟨rfl, rfl⟩ | ⟨rfl, rfl⟩ | ⟨rfl, rfl⟩ <;>
    rcases hmid with hmid | hmid | hmid <;> rw [hmid] <;> refine ⟨fun a ha => ?_, by decide⟩ <;>
    simp [lockEnd, flashLockLow256K, flashLockLow512K, flashLockLow1M] at ha ⊢ <;> omega

/-- **The firmware is protected.**  The application runs on just where the device is one that is
known.  Then the bits outside the mask stay; the locked area holds both firmwares, but for the last
64K of the device of 1M bytes; while no update is going on no byte of the area changes, whatever is
programmed and erased; and during an update, or from the sectors of the application on, every
command is executed. -/
theorem firmware_protected (b : Board) (hb : Documented b) (blcFlashMid : U32)
    (hmid : blcFlashMid = 0#32 ∨ blcFlashMid = b.flashReadMid) (dev : Device)
    (hconfig : dev.config &&& flashWriteConfigureWps = 0#8) (mem : Mem) (x y : U32)
    (evs : List Event) :
    let s := Runs.runFrom b.step (.boot blcFlashMid dev mem)
      (.operation evtAppInitialization x y :: evs)
    let top := lockEnd b.flashReadMid b.block
    let locked := evs.foldl lockedAfter true
    (s.stuck = false ↔ Supported b.flashReadMid) ∧
      (Supported b.flashReadMid →
        s.dev.status &&& ~~~flashWriteStatusBp = dev.status &&& ~~~flashWriteStatusBp ∧
        (∀ a < 2 * b.multiBootAddress.toNat,
          a < top ∨ b.flashReadMid = 0x146085#32 ∧ 0xf0000 ≤ a) ∧
        (locked = true → ∀ later, (∀ e ∈ later, ¬Opens e) → ∀ a < top,
          (Runs.runFrom b.step s later).mem a = s.mem a) ∧
        ∀ a, (locked = false ∨ flashAdrSmpPairing b.flashReadMid ≤ a) → ∀ bs,
          (b.step s (.program a bs)).mem = programPage 256 s.mem a bs ∧
            (b.step s (.erase a)).mem = NorFlash.erase s.mem (a / 4096 * 4096) 4096) := by
  intro s top locked
  by_cases hsupported : Supported b.flashReadMid
  · obtain ⟨p, hp⟩ := Option.isSome_iff_exists.mp (supported_iff.mp hsupported)
    have hfirst : Kept b dev.status true (b.appFlashProtectionOperation
        (.boot blcFlashMid dev mem) evtAppInitialization x y) :=
      kept_initialization (s := .boot blcFlashMid dev mem) hb hmid hconfig rfl hp rfl x y
    have h : Kept b dev.status locked s := hfirst.run hb hsupported evs
    obtain ⟨hfirmware, hsectors⟩ := lockEnd_bounds hb hsupported
    refine ⟨iff_of_true h.going hsupported, fun _ => ⟨h.others, hfirmware, ?_, ?_⟩⟩
    · intro hlocked later hlater a ha
      rw [hlocked] at h
      exact h.mem_later hb hsupported hlater ha
    · intro a ha bs
      exact h.writable hb (ha.imp_right hsectors.trans) bs
  · have hnone : flashProtectionInit b.chip b.flashGetLockStatus b.flashReadMid = none :=
      Option.not_isSome_iff_eq_none.mp (mt supported_iff.mpr hsupported)
    have hprot : (b.ready (.boot blcFlashMid dev mem)).prot = none := by
      rw [Board.ready, hnone]
      rfl
    have hstuck : (b.appFlashProtectionOperation (.boot blcFlashMid dev mem)
        evtAppInitialization x y).stuck = true := by
      rw [initialization_eq hmid, State.through, hprot]
    have hend : s.stuck = true := stuck_run hstuck evs
    exact ⟨iff_of_false (by rw [hend]; decide) hsupported, fun h => absurd h hsupported⟩

/-- A device of 4M bytes that drops two status writes out of three pairs, and knows three areas. -/
def sampleBoard : Board where
  chip := ⟨fun n => n % 3 != 0, fun _ => true⟩
  flashReadMid := 0x166085#32
  flashGetLockStatus s := s &&& flashWriteStatusBp
  protects s _ a :=
    if s &&& flashWriteStatusBp = 0x0034#16 then decide (a < 0x100000)
    else if s &&& flashWriteStatusBp = 0x0030#16 then decide (a < 0x80000)
    else if s &&& flashWriteStatusBp = 0x002c#16 then decide (a < 0x40000)
    else false
  multiBootAddress := 0x40000#32
  unset := 0#32

theorem sampleBoard_documented : Documented sampleBoard where
  boot := .inr (.inl rfl)
  steady n := by
    show ∃ i < 3, ∀ j < 2, ((n + 2 * i + j) % 3 != 0) = true
    have hcases : n % 3 = 0 ∨ n % 3 = 1 ∨ n % 3 = 2 := by omega
    rcases hcases with h | h | h
    · exact ⟨2, by decide, fun j hj => by simp; omega⟩
    · exact ⟨0, by decide, fun j hj => by simp; omega⟩
    · exact ⟨1, by decide, fun j hj => by simp; omega⟩
  lockStatus _ := rfl
  unlocked s g a _ hs := by
    rw [sampleBoard]
    dsimp only
    rw [hs]
    rfl
  locked s g a _ hs := by
    have hcmd : sampleBoard.cmd = 0x0030#16 := by decide
    rw [hcmd] at hs
    rw [sampleBoard]
    dsimp only
    rw [hs]
    rfl

/-- The update has written the second firmware; after it, the first one stays. -/
theorem firmware_protected_sample :
    let dev : Device := ⟨0x0200#16, 0#8, [], []⟩
    let s := Runs.runFrom sampleBoard.step (.boot 0#32 dev fun _ => 0xFF#8)
      [.operation 1#8 0#32 0#32, .operation 12#8 0x40000#32 0x80000#32,
        .program 0x40000 [0x12#8], .operation 13#8 0#32 0#32]
    s.stuck = false ∧ s.mem 0x40000 = 0x12#8 ∧
      (Runs.runFrom sampleBoard.step s [.program 0x40000 [0x00#8]]).mem 0x40000 = s.mem 0x40000 := by
  intro dev s
  obtain ⟨hgoing, hsupported⟩ := firmware_protected sampleBoard sampleBoard_documented 0#32
    (.inl rfl) dev (by decide) (fun _ => 0xFF#8) 0#32 0#32
    [.operation 12#8 0x40000#32 0x80000#32, .program 0x40000 [0x12#8], .operation 13#8 0#32 0#32]
  obtain ⟨-, -, hkept, -⟩ := hsupported (by decide)
  exact ⟨hgoing.mpr (by decide), by decide +kernel,
    hkept (by decide) _ (by intro e he; obtain rfl := List.mem_singleton.mp he; exact id) _
      (by decide)⟩

end TelinkB91.Flash.Lock.Protection
