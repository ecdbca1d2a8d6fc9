import TelinkB91.Flash.Write

/-!
# Flash — the check of the firmware

`flash_fw_check` reads the firmware in blocks of 256 bytes and a rest, without the four bytes of the
CRC at its end, and takes each byte apart into two of four bits for `crc32_half_cal`, which is in a
library.

* `Progress.crc_part`: what one block, or the rest, adds to the CRC.
* `Progress.crc_blocks`: the blocks are one fold.
* `fw_check_iff`: the check succeeds just when the fold over the whole image gives the word behind
  it.
-/

namespace TelinkB91.Flash
open ByteMemory
open NorFlash (Mem)

abbrev U16 := BitVec 16

/-- The byte that the chip sends for an address. -/
def byteAt (flash : Mem) (addr : U32) : U8 := flash (busAddr (flashSendAddr addr))

/-- The `n` bytes from an address on. -/
def bytesAt (flash : Mem) (addr : U32) (n : Nat) : List U8 :=
  (List.range n).map fun i => byteAt flash (addr + BitVec.ofNat 32 i)

/-- `flash_read_page`: the bytes it stores. -/
def flashReadPage (flash : Mem) (addr len : U32) : List U8 := bytesAt flash addr len.toNat

/-- A word of the RAM, low byte first. -/
def word : List U8 → U32
  | [] => 0#32
  | b :: bs => b.setWidth 32 ||| word bs <<< 8

/-- A byte in two of four bits, as `ota_dat` gets them. -/
def halves (bytes : List U8) : List U8 := bytes.flatMap fun b => [b &&& 0x0F#8, b >>> 4]

/-- `fw_crc32_half_tbl`. -/
def fwCrc32HalfTbl : List U32 :=
  [0x00000000#32, 0x1db71064#32, 0x3b6e20c8#32, 0x26d930ac#32,
    0x76dc4190#32, 0x6b6b51f4#32, 0x4db26158#32, 0x5005713c#32,
    0xedb88320#32, 0xf00f9344#32, 0xd6d6a3e8#32, 0xcb61b38c#32,
    0x9b64c2b0#32, 0x86d3d2d4#32, 0xa00ae278#32, 0xbdbdf21c#32]

/-- `FW_READ_SIZE`. -/
def fwReadSize : Nat := 256

/-- The globals `ota_program_offset` and `ota_program_bootAddr`. -/
structure OtaProgram where
  offset : U32
  bootAddr : U32

/-- `fw_flashAddr`. -/
def OtaProgram.fwFlashAddr (g : OtaProgram) : U32 := if g.offset = 0#32 then g.bootAddr else 0#32

/-- `fw_size`, for the firmware at `addr`. -/
def fwSize (flash : Mem) (addr : U32) : U32 := word (flashReadPage flash (addr + 0x18#32) 4#32)

/-- `fw_crc_init`, `fw_tmpdata` and `ota_dat`. -/
structure Progress where
  crc : U32
  fwTmpdata : Memory
  otaDat : Memory

/-- The loop that takes `n` bytes of `fw_tmpdata` apart into `ota_dat`. -/
def takeApart (fwTmpdata otaDat : Memory) : Nat → Memory
  | 0 => otaDat
  | n + 1 =>
      write (write (takeApart fwTmpdata otaDat n) (n * 2) [fwTmpdata n &&& 0x0F#8]) (n * 2 + 1)
        [fwTmpdata n >>> 4]

/-- `crc32_half_cal (crc, input, table, len)`. -/
abbrev Crc32HalfCal := U32 → Memory → List U32 → Int → U32

/-- A block, or the rest: `len` bytes from `addr` on. -/
def Progress.part (cal : Crc32HalfCal) (flash : Mem) (s : Progress) (addr : U32) (len : Int) :
    Progress :=
  let tmp := write s.fwTmpdata 0 (flashReadPage flash addr (BitVec.ofInt 32 len))
  let dat := takeApart tmp s.otaDat len.toNat
  ⟨cal s.crc dat fwCrc32HalfTbl (len * 2), tmp, dat⟩

/-- The loop over the blocks. -/
def Progress.blocks (cal : Crc32HalfCal) (flash : Mem) (s : Progress) (addr : U32) (n : Nat) :
    Progress :=
  (List.range n).foldl
    (fun s i => s.part cal flash (addr + BitVec.ofNat 32 (i * fwReadSize)) fwReadSize) s

/-- The blocks, and the rest if there is more than the CRC. -/
def Progress.image (cal : Crc32HalfCal) (flash : Mem) (s : Progress) (addr size : U32) : Progress :=
  let fwBlock : U16 := (size / 256#32).setWidth 16
  let fwRemainSizeByte : U16 := (size % 256#32).setWidth 16
  let s := s.blocks cal flash addr fwBlock.toNat
  if fwRemainSizeByte ≠ 4#16 then
    s.part cal flash (addr + size - fwRemainSizeByte.setWidth 32) (fwRemainSizeByte.toNat - 4)
  else s

/-- `fw_crc_init` at the start. -/
def fwCrcInit (crcInitValue : U32) : U32 :=
  if crcInitValue = 0#32 then 0xFFFFFFFF#32 else crcInitValue

/-- `flash_fw_check`, with what `fw_tmpdata` and `ota_dat` hold before. -/
def flashFwCheck (cal : Crc32HalfCal) (flash : Mem) (g : OtaProgram) (fwTmpdata otaDat : Memory)
    (crcInitValue : U32) : Bool :=
  let addr := g.fwFlashAddr
  let size := fwSize flash addr
  let s := Progress.image cal flash ⟨fwCrcInit crcInitValue, fwTmpdata, otaDat⟩ addr size
  let fwCheckValue := word (flashReadPage flash (addr + size - 4#32) 4#32)
  decide (fwCheckValue ≠ s.crc)

/-- `crc32_half_cal` folds one step of the table over the first `n` bytes of its input. -/
def Folds (cal : Crc32HalfCal) (step : List U32 → U32 → U8 → U32) : Prop :=
  ∀ (crc : U32) (input : Memory) (table : List U32) (n : Nat),
    cal crc input table n = (read input 0 n).foldl (step table) crc

/-! ### The blocks -/

section check

variable {cal : Crc32HalfCal} {step : List U32 → U32 → U8 → U32} {flash : Mem}

@[simp] theorem length_bytesAt (addr : U32) (n : Nat) : (bytesAt flash addr n).length = n := by
  rw [bytesAt, List.length_map, List.length_range]

theorem bytesAt_append (addr : U32) (n k : Nat) :
    bytesAt flash addr (n + k) =
      bytesAt flash addr n ++ bytesAt flash (addr + BitVec.ofNat 32 n) k := by
  rw [bytesAt, List.range_add, List.map_append, List.map_map, bytesAt, bytesAt]
  refine congrArg (_ ++ ·) (List.map_congr_left fun i _ => ?_)
  rw [Function.comp_apply, BitVec.ofNat_add, BitVec.add_assoc]

theorem halves_append (bs cs : List U8) : halves (bs ++ cs) = halves bs ++ halves cs :=
  List.flatMap_append

/-- **Taken apart.** -/
theorem read_takeApart (tmp dat : Memory) (n : Nat) :
    read (takeApart tmp dat n) 0 (n * 2) = halves (read tmp 0 n) := by
  induction n with
  | zero => rfl
  | succ n ih =>
      have hpair : takeApart tmp dat (n + 1) =
          write (takeApart tmp dat n) (n * 2) [tmp n &&& 0x0F#8, tmp n >>> 4] :=
        (write_append _ _ [_] [_]).symm
      have hlast : read tmp (0 + n) 1 = [tmp n] := by
        rw [Nat.zero_add]
        rfl
      have htwo : read (write (takeApart tmp dat n) (n * 2) [tmp n &&& 0x0F#8, tmp n >>> 4])
          (0 + n * 2) 2 = halves [tmp n] := by
        rw [Nat.zero_add]
        exact read_write _ _ [tmp n &&& 0x0F#8, tmp n >>> 4]
      rw [read_append, halves_append, ← ih, hlast, hpair, Nat.succ_mul, read_append, htwo,
        read_write_apart (.inl (Nat.zero_add _).le)]

/-- **One block, or the rest.** -/
theorem Progress.crc_part (hcal : Folds cal step) (s : Progress) (addr : U32) {n : Nat}
    (hn : n < 2 ^ 32) :
    (s.part cal flash addr n).crc =
      (halves (bytesAt flash addr n)).foldl (step fwCrc32HalfTbl) s.crc := by
  have hlen : (BitVec.ofInt 32 n).toNat = n := by
    rw [BitVec.ofInt_natCast, BitVec.toNat_ofNat]
    exact Nat.mod_eq_of_lt hn
  have hread : read (write s.fwTmpdata 0 (flashReadPage flash addr (BitVec.ofInt 32 n))) 0 n =
      bytesAt flash addr n := by
    have hback := read_write s.fwTmpdata 0 (bytesAt flash addr n)
    rw [length_bytesAt] at hback
    rw [flashReadPage, hlen]
    exact hback
  have htwice : (n : Int) * 2 = (n * 2 : Nat) := rfl
  rw [Progress.part]
  dsimp only
  rw [htwice, hcal, Int.toNat_natCast, read_takeApart, hread]

/-- **The blocks are one fold.** -/
theorem Progress.crc_blocks (hcal : Folds cal step) (s : Progress) (addr : U32) (n : Nat) :
    (s.blocks cal flash addr n).crc =
      (halves (bytesAt flash addr (n * fwReadSize))).foldl (step fwCrc32HalfTbl) s.crc := by
  induction n with
  | zero =>
      rw [Nat.zero_mul]
      rfl
  | succ n ih =>
      have hlast : s.blocks cal flash addr (n + 1) = (s.blocks cal flash addr n).part cal flash
          (addr + BitVec.ofNat 32 (n * fwReadSize)) fwReadSize := by
        rw [Progress.blocks, List.range_succ, List.foldl_append]
        rfl
      rw [hlast, Progress.crc_part hcal _ _ (by decide), ih, Nat.succ_mul, bytesAt_append,
        halves_append, List.foldl_append]

/-- **The blocks and the rest.** -/
theorem Progress.crc_image (hcal : Folds cal step) (s : Progress) (addr : U32) {size : U32}
    (hrest : size.toNat % 16 = 4) (hsize : size.toNat < 2 ^ 24) :
    (s.image cal flash addr size).crc =
      (halves (bytesAt flash addr (size.toNat - 4))).foldl (step fwCrc32HalfTbl) s.crc := by
  have hfull : (256#32).toNat = 256 := rfl
  have hblock : ((size / 256#32).setWidth 16).toNat = size.toNat / fwReadSize := by
    rw [BitVec.toNat_setWidth, BitVec.toNat_udiv, hfull, fwReadSize]
    exact Nat.mod_eq_of_lt (by omega)
  have hremain : ((size % 256#32).setWidth 16).toNat = size.toNat % fwReadSize := by
    rw [BitVec.toNat_setWidth, BitVec.toNat_umod, hfull, fwReadSize]
    exact Nat.mod_eq_of_lt (by omega)
  have hdiv := Nat.div_add_mod' size.toNat fwReadSize
  have hmod : size.toNat % fwReadSize % 16 = 4 := by
    rw [fwReadSize]
    omega
  rw [Progress.image, hblock, hremain]
  by_cases hfour : (size % 256#32).setWidth 16 = 4#16
  · -- Nothing but the CRC is behind the last block.
    have hnone : size.toNat % fwReadSize = 4 := hremain.symm.trans (congrArg BitVec.toNat hfour)
    have hbytes : size.toNat - 4 = size.toNat / fwReadSize * fwReadSize := by omega
    rw [if_neg (not_not.mpr hfour), Progress.crc_blocks hcal, hbytes]
  · have hsize' : addr + size - ((size % 256#32).setWidth 16).setWidth 32 =
        addr + BitVec.ofNat 32 (size.toNat / fwReadSize * fwReadSize) := by
      have hsum : BitVec.ofNat 32 (size.toNat / fwReadSize * fwReadSize) +
          ((size % 256#32).setWidth 16).setWidth 32 = size := by
        refine BitVec.eq_of_toNat_eq ?_
        rw [BitVec.toNat_add, BitVec.toNat_ofNat, BitVec.toNat_setWidth, hremain]
        omega
      nth_rewrite 1 [← hsum]
      rw [← BitVec.add_assoc, BitVec.add_sub_cancel]
    have hlen :
        ((size.toNat % fwReadSize : Nat) : Int) - 4 = (size.toNat % fwReadSize - 4 : Nat) := by
      omega
    have hbytes : size.toNat - 4 =
        size.toNat / fwReadSize * fwReadSize + (size.toNat % fwReadSize - 4) := by omega
    rw [if_pos hfour, hsize', hlen, Progress.crc_part hcal _ _ (by omega),
      Progress.crc_blocks hcal, hbytes, bytesAt_append, halves_append, List.foldl_append]

/-- **The check of the firmware.**  It succeeds just when the CRC over the image, but for its last
four bytes, is the word in these. -/
theorem fw_check_iff (hcal : Folds cal step) (g : OtaProgram) (tmp dat : Memory)
    (crcInitValue : U32) (hrest : (fwSize flash g.fwFlashAddr).toNat % 16 = 4)
    (hsize : (fwSize flash g.fwFlashAddr).toNat < 2 ^ 24) :
    flashFwCheck cal flash g tmp dat crcInitValue = false ↔
      (halves (bytesAt flash g.fwFlashAddr ((fwSize flash g.fwFlashAddr).toNat - 4))).foldl
          (step fwCrc32HalfTbl) (fwCrcInit crcInitValue) =
        word (bytesAt flash (g.fwFlashAddr +
          BitVec.ofNat 32 ((fwSize flash g.fwFlashAddr).toNat - 4)) 4) := by
  have hword : g.fwFlashAddr + fwSize flash g.fwFlashAddr - 4#32 =
      g.fwFlashAddr + BitVec.ofNat 32 ((fwSize flash g.fwFlashAddr).toNat - 4) := by
    bv_omega
  rw [flashFwCheck, Progress.crc_image hcal _ _ hrest hsize, hword, decide_eq_false_iff_not,
    not_not]
  exact eq_comm

end check

/-- A step of the CRC by four bits. -/
def halfStep (table : List U32) (crc : U32) (x : U8) : U32 :=
  crc >>> 4 ^^^ table.getD ((crc ^^^ x.setWidth 32) &&& 0xF#32).toNat 0#32

/-- `crc32_half_cal` as a loop over the table. -/
def tableFold : Crc32HalfCal := fun crc input table len =>
  (read input 0 len.toNat).foldl (halfStep table) crc

/-- A firmware of 276 zero bytes, but for its size. -/
def zeroImage : Mem := fun a => if a = 0x18 then 0x14#8 else if a = 0x19 then 1#8 else 0#8

theorem fw_check_zeros :
    flashFwCheck tableFold zeroImage ⟨1#32, 0#32⟩ (fun _ => 0#8) (fun _ => 0#8) 0#32 = false ↔
      (halves (bytesAt zeroImage 0#32 272)).foldl (halfStep fwCrc32HalfTbl) 0xFFFFFFFF#32 =
        word (bytesAt zeroImage 272#32 4) := by
  have hfolds : Folds tableFold halfStep := fun _ _ _ _ => rfl
  exact fw_check_iff hfolds ⟨1#32, 0#32⟩ _ _ 0#32 (by decide +kernel) (by decide +kernel)

end TelinkB91.Flash
