import Mathlib.Data.BitVec
import Mathlib.Logic.Function.Basic
import TelinkB91.Lib.ByteMemory
import TelinkB91.Lib.NorFlash

/-!
# Flash — writing by pages

A page program of the chip goes on with the start of the page behind its end, so `flash_write` and
`flash_write_otp` send a range in parts: what is left of the first page, and then a page at a time.

* `writePages_returns`: the loop ends, and what it sends.
* `Paged.programmed`: what the parts make of the chip.
* `flash_write_paged`: both functions.

The chip has three bytes of address.
-/

namespace TelinkB91.Flash
open ByteMemory
open NorFlash (Mem program programPage)

abbrev U8 := BitVec 8

abbrev U32 := BitVec 32

/-- The bytes of the RAM. -/
abbrev Memory := Nat → U8

/-- The commands of `flash_command_e` that program. -/
inductive FlashCommand where
  | write
  | quadPageProgram
  | writeSecurityRegisters
  deriving DecidableEq, Repr

/-- The memories of the chip: the flash itself, and the security registers. -/
inductive Region where
  | flash
  | otp
  deriving DecidableEq, Repr

def FlashCommand.region : FlashCommand → Region
  | .write | .quadPageProgram => .flash
  | .writeSecurityRegisters => .otp

/-- `PAGE_SIZE`. -/
def pageSize : U32 := 256#32

/-- `PAGE_SIZE_OTP`. -/
def pageSizeOtp : U32 := 256#32

/-- A call of `flash_mspi_write_ram`, with the bytes it sends. -/
structure Transfer where
  cmd : FlashCommand
  addr : U32
  data : List U8
  deriving DecidableEq, Repr

/-- The loop of `flash_write`, for at most as many rounds. -/
def writePages (page : U32) (cmd : FlashCommand) (ram : Memory) :
    Nat → U32 → U32 → U32 → Nat → Option (List Transfer)
  | 0, _, _, _, _ => none
  | k + 1, ns, addr, len, buf =>
      let nw := if len > ns then ns else len
      let t : Transfer := ⟨cmd, addr, read ram buf nw.toNat⟩
      if len - nw > 0#32 then
        (writePages page cmd ram k page (addr + nw) (len - nw) (buf + nw.toNat)).map (t :: ·)
      else some [t]

/-- `flash_write`. -/
def flashWrite (ram : Memory) (addr len : U32) (buf : Nat) (cmd : FlashCommand) (k : Nat) :
    Option (List Transfer) :=
  writePages pageSize cmd ram k (pageSize - (addr &&& (pageSize - 1))) addr len buf

/-- `flash_write_otp`. -/
def flashWriteOtp (ram : Memory) (addr len : U32) (buf : Nat) (k : Nat) :
    Option (List Transfer) :=
  writePages pageSizeOtp .writeSecurityRegisters ram k
    (pageSizeOtp - (addr &&& (pageSizeOtp - 1))) addr len buf

/-- The bytes of `flash_send_addr`. -/
def flashSendAddr (addr : U32) : List U8 :=
  [(addr >>> 16).setWidth 8, (addr >>> 8).setWidth 8, addr.setWidth 8]

/-- What the chip takes for the address. -/
def busAddr (bytes : List U8) : Nat := bytes.foldl (fun a b => a * 256 + b.toNat) 0

abbrev Chip := Region → Mem

/-- A transfer, as the chip executes it. -/
def Chip.transfer (c : Chip) (t : Transfer) : Chip :=
  Function.update c t.cmd.region
    (programPage 256 (c t.cmd.region) (busAddr (flashSendAddr t.addr)) t.data)

/-- `flash_page_program`.  `flash_write_isSome` says that the rounds are enough. -/
def flashPageProgram (ram : Memory) (c : Chip) (addr len : U32) (buf : Nat) : Chip :=
  ((flashWrite ram addr len buf .write (len.toNat + 1)).getD []).foldl Chip.transfer c

/-- `flash_erase_sector`. -/
def flashEraseSector (c : Chip) (addr : U32) : Chip :=
  Function.update c .flash
    (NorFlash.erase (c .flash) (busAddr (flashSendAddr addr) / 4096 * 4096) 4096)

/-- Each transfer starts where the one before has ended, from `a` to `b`. -/
def Consecutive : Nat → List Transfer → Nat → Prop
  | a, [], b => a = b
  | a, t :: ts, b => t.addr.toNat = a ∧ Consecutive (a + t.data.length) ts b

/-- The bytes are sent to the range from `a` on, each once, in parts that stay in their pages. -/
structure Paged (cmd : FlashCommand) (a : Nat) (bytes : List U8) (ts : List Transfer) : Prop where
  cmd : ∀ t ∈ ts, t.cmd = cmd
  inPage : ∀ t ∈ ts, t.addr.toNat % 256 + t.data.length ≤ 256
  consecutive : Consecutive a ts (a + bytes.length)
  data : ts.flatMap Transfer.data = bytes

/-- The function comes to its end, and has sent the bytes by pages.  In the chip they are anded into
those that were there, and nothing else is changed. -/
def WritesPages (run : Nat → Option (List Transfer)) (cmd : FlashCommand) (a : Nat)
    (bytes : List U8) : Prop :=
  ∃ n ts, (∀ k ≥ n, run k = some ts) ∧ Paged cmd a bytes ts ∧
    ∀ c : Chip, ts.foldl Chip.transfer c =
      Function.update c cmd.region (program (c cmd.region) a bytes)

/-! ### The parts -/

section pages

variable {page : U32} {cmd : FlashCommand} {ram : Memory} {ns addr len : U32} {buf k : Nat}

/-- The last part. -/
theorem writePages_last (h : ¬len > ns) :
    writePages page cmd ram (k + 1) ns addr len buf =
      some [⟨cmd, addr, read ram buf len.toNat⟩] := by
  have hend : ¬len - len > 0#32 := by
    rw [BitVec.sub_self]
    exact BitVec.lt_irrefl _
  rw [writePages, if_neg h]
  exact if_neg hend

/-- A part with more behind it. -/
theorem writePages_more (h : len > ns) :
    writePages page cmd ram (k + 1) ns addr len buf =
      (writePages page cmd ram k page (addr + ns) (len - ns) (buf + ns.toNat)).map
        (⟨cmd, addr, read ram buf ns.toNat⟩ :: ·) := by
  have hmore : len - ns > 0#32 := by bv_omega
  rw [writePages, if_pos h]
  exact if_pos hmore

/-- The loop ends for every range. -/
theorem writePages_isSome (hpage : page ≠ 0#32) (hns : ns ≠ 0#32) (hk : len.toNat < k) :
    (writePages page cmd ram k ns addr len buf).isSome := by
  induction k generalizing ns addr len buf with
  | zero => exact absurd hk (Nat.not_lt_zero _)
  | succ k ih =>
      by_cases hmore : len > ns
      · rw [writePages_more hmore, Option.isSome_map]
        exact ih hpage (by bv_omega)
      · rw [writePages_last hmore]
        rfl

/-- **The loop.** -/
theorem writePages_returns (cmd : FlashCommand) (ram : Memory) (buf n : Nat) (hn : len.toNat = n)
    (hns : addr.toNat % 256 + ns.toNat = 256) (hin : addr.toNat + n ≤ 2 ^ 24) :
    ∃ ts, (∀ k > n, writePages 256#32 cmd ram k ns addr len buf = some ts) ∧
      Paged cmd addr.toNat (read ram buf n) ts := by
  induction n using Nat.strong_induction_on generalizing ns addr len buf with
  | h n ih =>
      by_cases hmore : len > ns
      · have hless : ns.toNat < n := hn ▸ hmore
        have haddr : (addr + ns).toNat = addr.toNat + ns.toNat := by
          rw [BitVec.toNat_add]
          omega
        have hlen : (len - ns).toNat = n - ns.toNat := by
          rw [BitVec.toNat_sub]
          omega
        have hfull : (256#32).toNat = 256 := rfl
        have hns' : (addr + ns).toNat % 256 + (256#32).toNat = 256 := by omega
        obtain ⟨ts, hts, hpaged⟩ :=
          ih (n - ns.toNat) (by omega) (buf + ns.toNat) hlen hns' (by omega)
        have hbytes : read ram buf n =
            read ram buf ns.toNat ++ read ram (buf + ns.toNat) (n - ns.toNat) := by
          rw [← read_append, Nat.add_sub_cancel' hless.le]
        refine ⟨⟨cmd, addr, read ram buf ns.toNat⟩ :: ts, ?_, ?_⟩
        · intro k hk
          obtain ⟨k, rfl⟩ := Nat.exists_eq_add_of_lt hk
          rw [writePages_more hmore, hts _ (by omega), Option.map_some]
        · refine ⟨?_, ?_, ⟨rfl, ?_⟩, ?_⟩
          · exact List.forall_mem_cons.mpr ⟨rfl, hpaged.cmd⟩
          · refine List.forall_mem_cons.mpr ⟨?_, hpaged.inPage⟩
            rw [length_read]
            exact hns.le
          · have hnext := hpaged.consecutive
            rw [haddr, length_read] at hnext
            rw [length_read, length_read]
            convert hnext using 1
            omega
          · rw [List.flatMap_cons, hpaged.data, hbytes]
      · have hle : n ≤ ns.toNat := hn ▸ BitVec.not_lt.mp hmore
        refine ⟨[⟨cmd, addr, read ram buf n⟩], ?_, ?_⟩
        · intro k hk
          obtain ⟨k, rfl⟩ := Nat.exists_eq_add_of_lt hk
          rw [writePages_last hmore, hn]
        · refine ⟨?_, ?_, ⟨rfl, rfl⟩, ?_⟩
          · exact List.forall_mem_singleton.mpr rfl
          · refine List.forall_mem_singleton.mpr ?_
            rw [length_read]
            exact (Nat.add_le_add_left hle _).trans hns.le
          · rw [List.flatMap_singleton]

end pages

/-! ### The chip -/

/-- The three bytes of the address. -/
theorem busAddr_flashSendAddr (addr : U32) :
    busAddr (flashSendAddr addr) = addr.toNat % 2 ^ 24 := by
  simp only [busAddr, flashSendAddr, List.foldl_cons, List.foldl_nil, BitVec.toNat_setWidth,
    BitVec.toNat_ushiftRight, Nat.shiftRight_eq_div_pow]
  omega

/-- **What the parts do.** -/
theorem Paged.programmed {cmd : FlashCommand} {a : Nat} {bytes : List U8} {ts : List Transfer}
    (h : Paged cmd a bytes ts) (hin : a + bytes.length ≤ 2 ^ 24) (c : Chip) :
    ts.foldl Chip.transfer c = Function.update c cmd.region (program (c cmd.region) a bytes) := by
  induction ts generalizing a bytes c with
  | nil =>
      obtain rfl : [] = bytes := h.data
      rw [NorFlash.program_nil, Function.update_eq_self, List.foldl_nil]
  | cons t ts ih =>
      obtain ⟨haddr, hnext⟩ := h.consecutive
      obtain ⟨hcmd, hcmds⟩ := List.forall_mem_cons.mp h.cmd
      obtain ⟨hpage, hpages⟩ := List.forall_mem_cons.mp h.inPage
      have hdata := h.data
      rw [List.flatMap_cons] at hdata
      subst hdata
      rw [List.length_append, ← Nat.add_assoc] at hnext hin
      have hrest : Paged cmd (a + t.data.length) (ts.flatMap Transfer.data) ts :=
        ⟨hcmds, hpages, hnext, rfl⟩
      have hone : c.transfer t =
          Function.update c cmd.region (program (c cmd.region) a t.data) := by
        rw [Chip.transfer, hcmd]
        rcases hbytes : t.data with _ | ⟨b, bs⟩
        · rw [programPage, NorFlash.program_nil]
        · rw [hbytes, List.length_cons] at hin
          have hbus : busAddr (flashSendAddr t.addr) = a := by
            rw [busAddr_flashSendAddr, haddr]
            exact Nat.mod_eq_of_lt (by omega)
          rw [← hbytes, hbus, NorFlash.programPage_of_le (haddr ▸ hpage)]
      rw [List.foldl_cons, ih hrest hin, hone, Function.update_idem, Function.update_self,
        NorFlash.program_append]

/-- What is left of the first page. -/
theorem toNat_firstPage (addr : U32) :
    (256#32 - (addr &&& (256#32 - 1))).toNat = 256 - addr.toNat % 256 := by
  have hlow : (addr &&& (256#32 - 1)).toNat = addr.toNat % 256 :=
    Nat.and_two_pow_sub_one_eq_mod addr.toNat 8
  have hfull : (256#32).toNat = 256 := rfl
  rw [BitVec.toNat_sub, hlow, hfull]
  omega

theorem flash_write_isSome (ram : Memory) (addr len : U32) (buf : Nat) (cmd : FlashCommand) :
    (flashWrite ram addr len buf cmd (len.toNat + 1)).isSome := by
  refine writePages_isSome (by decide) ?_ (Nat.lt_succ_self _)
  intro hnone
  have hzero := congrArg BitVec.toNat hnone
  rw [pageSize, toNat_firstPage] at hzero
  have hlt := Nat.mod_lt addr.toNat (by decide : 256 > 0)
  exact absurd hzero (Nat.sub_ne_zero_of_lt hlt)

/-- One of the two functions, for the page size it has. -/
theorem writePages_writes (cmd : FlashCommand) (ram : Memory) (addr len : U32) (buf : Nat)
    (hin : addr.toNat + len.toNat ≤ 2 ^ 24) :
    WritesPages (fun k => writePages 256#32 cmd ram k (256#32 - (addr &&& (256#32 - 1))) addr len
      buf) cmd addr.toNat (read ram buf len.toNat) := by
  have hns : addr.toNat % 256 + (256#32 - (addr &&& (256#32 - 1))).toNat = 256 := by
    rw [toNat_firstPage]
    omega
  obtain ⟨ts, hts, hpaged⟩ :=
    writePages_returns cmd ram buf len.toNat rfl hns hin
  refine ⟨len.toNat + 1, ts, hts, hpaged, hpaged.programmed ?_⟩
  rw [length_read]
  exact hin

/-- **Both functions.**  For every range of the chip, the transfers stay in their pages and follow
one another from the start of the range to its end, and what is in the chip then is what was there,
anded with the bytes of the buffer. -/
theorem flash_write_paged (cmd : FlashCommand) (ram : Memory) (addr len : U32) (buf : Nat)
    (hin : addr.toNat + len.toNat ≤ 2 ^ 24) :
    WritesPages (flashWrite ram addr len buf cmd) cmd addr.toNat (read ram buf len.toNat) ∧
      WritesPages (flashWriteOtp ram addr len buf) .writeSecurityRegisters addr.toNat
        (read ram buf len.toNat) :=
  ⟨writePages_writes cmd ram addr len buf hin, writePages_writes _ ram addr len buf hin⟩

/-- 300 bytes from the middle of a page. -/
theorem flash_write_paged_middle :
    WritesPages (flashWrite (fun _ => 0#8) 0x180#32 300#32 0 .write) .write 0x180
        (read (fun _ => 0#8) 0 300) ∧
      WritesPages (flashWriteOtp (fun _ => 0#8) 0x180#32 300#32 0) .writeSecurityRegisters 0x180
        (read (fun _ => 0#8) 0 300) :=
  flash_write_paged .write (fun _ => 0#8) 0x180#32 300#32 0 (by decide)

end TelinkB91.Flash
