import TelinkB91.Flash.FwCheck

/-!
# Flash — what the check of the firmware touches

`flash_fw_check` believes the size it finds in the image.  `fw_Block` has 16 bits, and the length of
the rest is the remainder less 4, which may be negative: `flash_read_page` takes it without a sign.

A `Traced` check records the lengths it reads into `fw_tmpdata`, the indices of its two arrays and
the blocks.

* `tracedImage_progress`: it is the check.
* `Traced.inRange_part_iff`: what one block, or the rest, adds to the record.
* `fw_reads_safe_iff`: all is in range, and all blocks are processed, just when the remainder is 4
  or more and the size is below `2 ^ 24`.
-/

namespace TelinkB91.Flash
open ByteMemory
open NorFlash (Mem)

/-! ### The check with a record -/

/-- `ota_dat`, and the indices of `fw_tmpdata` and `ota_dat` that were used for it. -/
structure Apart where
  otaDat : Memory
  tmpIndices : List Nat
  datIndices : List Nat

/-- `takeApart`, with a record. -/
def tracedApart (fwTmpdata otaDat : Memory) : Nat → Apart
  | 0 => ⟨otaDat, [], []⟩
  | n + 1 =>
      let a := tracedApart fwTmpdata otaDat n
      ⟨write (write a.otaDat (n * 2) [fwTmpdata n &&& 0x0F#8]) (n * 2 + 1) [fwTmpdata n >>> 4],
        a.tmpIndices ++ [n, n], a.datIndices ++ [n * 2, n * 2 + 1]⟩

/-- The check, the lengths of its reads into `fw_tmpdata`, the indices of the two arrays, the
lengths of `ota_dat` that `crc32_half_cal` was given, and the number of blocks. -/
structure Traced where
  progress : Progress
  reads : List U32
  tmpIndices : List Nat
  datIndices : List Nat
  given : List Int
  blocks : Nat

/-- `Progress.part`, with a record. -/
def Traced.part (cal : Crc32HalfCal) (flash : Mem) (t : Traced) (addr : U32) (len : Int) : Traced :=
  let page := flashReadPage flash addr (BitVec.ofInt 32 len)
  let tmp := write t.progress.fwTmpdata 0 page
  let a := tracedApart tmp t.progress.otaDat len.toNat
  ⟨⟨cal t.progress.crc a.otaDat fwCrc32HalfTbl (len * 2), tmp, a.otaDat⟩,
    t.reads ++ [BitVec.ofInt 32 len], t.tmpIndices ++ a.tmpIndices, t.datIndices ++ a.datIndices,
    t.given ++ [len * 2], t.blocks⟩

/-- `Progress.blocks`, with a record. -/
def Traced.allBlocks (cal : Crc32HalfCal) (flash : Mem) (t : Traced) (addr : U32) (n : Nat) :
    Traced :=
  (List.range n).foldl
    (fun t i =>
      let t := t.part cal flash (addr + BitVec.ofNat 32 (i * fwReadSize)) fwReadSize
      { t with blocks := t.blocks + 1 }) t

/-- `Progress.image`, with a record. -/
def Traced.image (cal : Crc32HalfCal) (flash : Mem) (t : Traced) (addr size : U32) : Traced :=
  let fwBlock : U16 := (size / 256#32).setWidth 16
  let fwRemainSizeByte : U16 := (size % 256#32).setWidth 16
  let t := t.allBlocks cal flash addr fwBlock.toNat
  if fwRemainSizeByte ≠ 4#16 then
    t.part cal flash (addr + size - fwRemainSizeByte.setWidth 32) (fwRemainSizeByte.toNat - 4)
  else t

/-- Nothing is recorded yet. -/
def Traced.start (s : Progress) : Traced := ⟨s, [], [], [], [], 0⟩

/-- `flash_fw_check` up to its comparison, with a record. -/
def tracedFwCheck (cal : Crc32HalfCal) (flash : Mem) (g : OtaProgram) (fwTmpdata otaDat : Memory)
    (crcInitValue : U32) : Traced :=
  (Traced.start ⟨fwCrcInit crcInitValue, fwTmpdata, otaDat⟩).image cal flash g.fwFlashAddr
    (fwSize flash g.fwFlashAddr)

/-- The reads fit in `fw_tmpdata`, and the indices are those of the arrays. -/
structure Traced.InRange (t : Traced) : Prop where
  reads : ∀ len ∈ t.reads, len.toNat ≤ fwReadSize
  tmpIndices : ∀ i ∈ t.tmpIndices, i < fwReadSize
  datIndices : ∀ i ∈ t.datIndices, i < fwReadSize * 2
  given : ∀ n ∈ t.given, 0 ≤ n ∧ n ≤ fwReadSize * 2

section reads

variable {cal : Crc32HalfCal} {flash : Mem}

theorem tracedApart_otaDat (tmp dat : Memory) (n : Nat) :
    (tracedApart tmp dat n).otaDat = takeApart tmp dat n := by
  induction n with
  | zero => rfl
  | succ n ih => rw [tracedApart, takeApart, ih]

theorem Traced.part_progress (t : Traced) (addr : U32) (len : Int) :
    (t.part cal flash addr len).progress = t.progress.part cal flash addr len := by
  rw [Traced.part, Progress.part]
  dsimp only
  rw [tracedApart_otaDat]

theorem Traced.allBlocks_succ (t : Traced) (addr : U32) (n : Nat) :
    t.allBlocks cal flash addr (n + 1) =
      { (t.allBlocks cal flash addr n).part cal flash (addr + BitVec.ofNat 32 (n * fwReadSize))
          fwReadSize with
        blocks := (t.allBlocks cal flash addr n).blocks + 1 } := by
  rw [Traced.allBlocks, List.range_succ, List.foldl_append]
  rfl

theorem Traced.allBlocks_progress (t : Traced) (addr : U32) (n : Nat) :
    (t.allBlocks cal flash addr n).progress = t.progress.blocks cal flash addr n := by
  induction n with
  | zero => rfl
  | succ n ih =>
      rw [Traced.allBlocks_succ, Progress.blocks, List.range_succ, List.foldl_append]
      dsimp only
      rw [Traced.part_progress, ih]
      rfl

/-- **The record is of the check.** -/
theorem tracedImage_progress (t : Traced) (addr size : U32) :
    (t.image cal flash addr size).progress = t.progress.image cal flash addr size := by
  rw [Traced.image, Progress.image]
  split_ifs
  · rw [Traced.part_progress, Traced.allBlocks_progress]
  · exact Traced.allBlocks_progress t addr _

/-- The check compares what the record ends with. -/
theorem flashFwCheck_traced (g : OtaProgram) (tmp dat : Memory) (crcInitValue : U32) :
    flashFwCheck cal flash g tmp dat crcInitValue =
      decide (word (flashReadPage flash (g.fwFlashAddr + fwSize flash g.fwFlashAddr - 4#32) 4#32) ≠
        (tracedFwCheck cal flash g tmp dat crcInitValue).progress.crc) := by
  rw [tracedFwCheck, tracedImage_progress]
  rfl

/-! ### What is recorded -/

theorem tracedApart_indices (tmp dat : Memory) (n : Nat) :
    (∀ i ∈ (tracedApart tmp dat n).tmpIndices, i < n) ∧
      ∀ i ∈ (tracedApart tmp dat n).datIndices, i < n * 2 := by
  induction n with
  | zero => exact ⟨List.forall_mem_nil _, List.forall_mem_nil _⟩
  | succ n ih =>
      obtain ⟨htmp, hdat⟩ := ih
      constructor <;> intro i hi <;> rcases List.mem_append.mp hi with hi | hi
      · exact (htmp i hi).trans n.lt_succ_self
      · rcases List.mem_pair.mp hi with rfl | rfl <;> exact Nat.lt_succ_self _
      · have hlt := hdat i hi
        omega
      · rcases List.mem_pair.mp hi with rfl | rfl <;> omega

/-- **One part.**  It is in range just when its length is from 0 up to `FW_READ_SIZE`. -/
theorem Traced.inRange_part_iff (cal : Crc32HalfCal) (flash : Mem) {t : Traced} (ht : t.InRange)
    (addr : U32) {len : Int} (hlow : -4 ≤ len) (hhigh : len ≤ fwReadSize) :
    (t.part cal flash addr len).InRange ↔ 0 ≤ len := by
  rw [fwReadSize] at hhigh
  constructor
  · intro h
    have hread := h.reads (BitVec.ofInt 32 len) (List.mem_concat_self)
    by_contra hneg
    rw [BitVec.toNat_ofInt, fwReadSize] at hread
    omega
  · intro hpos
    have hlen : (BitVec.ofInt 32 len).toNat ≤ fwReadSize := by
      rw [BitVec.toNat_ofInt, fwReadSize]
      omega
    have hnat : len.toNat ≤ fwReadSize := Int.toNat_le.mpr hhigh
    obtain ⟨htmp, hdat⟩ := tracedApart_indices
      (write t.progress.fwTmpdata 0 (flashReadPage flash addr (BitVec.ofInt 32 len)))
      t.progress.otaDat len.toNat
    refine ⟨fun n hn => ?_, fun i hi => ?_, fun i hi => ?_, fun n hn => ?_⟩
    · rcases List.mem_append.mp hn with hn | hn
      · exact ht.reads n hn
      · exact List.mem_singleton.mp hn ▸ hlen
    · rcases List.mem_append.mp hi with hi | hi
      · exact ht.tmpIndices i hi
      · exact (htmp i hi).trans_le hnat
    · rcases List.mem_append.mp hi with hi | hi
      · exact ht.datIndices i hi
      · exact (hdat i hi).trans_le (Nat.mul_le_mul_right 2 hnat)
    · rcases List.mem_append.mp hn with hn | hn
      · exact ht.given n hn
      · rw [List.mem_singleton.mp hn, fwReadSize]
        omega

/-- **The blocks.** -/
theorem Traced.inRange_allBlocks (cal : Crc32HalfCal) (flash : Mem) {t : Traced} (ht : t.InRange)
    (addr : U32) (n : Nat) :
    (t.allBlocks cal flash addr n).InRange ∧
      (t.allBlocks cal flash addr n).blocks = t.blocks + n := by
  induction n with
  | zero => exact ⟨ht, rfl⟩
  | succ n ih =>
      obtain ⟨hrange, hblocks⟩ := ih
      rw [Traced.allBlocks_succ]
      have hpos : (0 : Int) ≤ fwReadSize := by decide
      have hpart := (Traced.inRange_part_iff cal flash hrange
        (addr + BitVec.ofNat 32 (n * fwReadSize)) (by omega) le_rfl).mpr hpos
      exact ⟨⟨hpart.reads, hpart.tmpIndices, hpart.datIndices, hpart.given⟩,
        congrArg (· + 1) hblocks⟩

/-- **The blocks and the rest.** -/
theorem Traced.image_iff (cal : Crc32HalfCal) (flash : Mem) {t : Traced} (ht : t.InRange)
    (addr size : U32) :
    ((t.image cal flash addr size).InRange ↔ 4 ≤ size.toNat % fwReadSize) ∧
      (t.image cal flash addr size).blocks = t.blocks + size.toNat / fwReadSize % 2 ^ 16 := by
  have hfull : (256#32).toNat = fwReadSize := rfl
  have hblock : ((size / 256#32).setWidth 16).toNat = size.toNat / fwReadSize % 2 ^ 16 := by
    rw [BitVec.toNat_setWidth, BitVec.toNat_udiv, hfull]
  have hremain : ((size % 256#32).setWidth 16).toNat = size.toNat % fwReadSize := by
    rw [BitVec.toNat_setWidth, BitVec.toNat_umod, hfull, fwReadSize]
    exact Nat.mod_eq_of_lt (by omega)
  have hrest : size.toNat % fwReadSize < fwReadSize := Nat.mod_lt _ (by decide)
  obtain ⟨hrange, hblocks⟩ := Traced.inRange_allBlocks cal flash ht addr
    (size.toNat / fwReadSize % 2 ^ 16)
  rw [Traced.image, hblock, hremain]
  by_cases hfour : (size % 256#32).setWidth 16 = 4#16
  · have hnone : size.toNat % fwReadSize = 4 := hremain.symm.trans (congrArg BitVec.toNat hfour)
    rw [if_neg (not_not.mpr hfour)]
    exact ⟨⟨fun _ => hnone.ge, fun _ => hrange⟩, hblocks⟩
  · rw [if_pos hfour]
    refine ⟨?_, hblocks⟩
    rw [Traced.inRange_part_iff cal flash hrange _ (by omega) (by omega)]
    omega

/-- **When the check is safe.**  Every read and every index is in range and every block is processed
just when the remainder of the size is 4 or more and the size is below `2 ^ 24`. -/
theorem fw_reads_safe_iff (cal : Crc32HalfCal) (flash : Mem) (g : OtaProgram) (tmp dat : Memory)
    (crcInitValue : U32) :
    ((tracedFwCheck cal flash g tmp dat crcInitValue).InRange ∧
        (tracedFwCheck cal flash g tmp dat crcInitValue).blocks =
          (fwSize flash g.fwFlashAddr).toNat / 256) ↔
      4 ≤ (fwSize flash g.fwFlashAddr).toNat % 256 ∧
        (fwSize flash g.fwFlashAddr).toNat < 2 ^ 24 := by
  have hstart : (Traced.start ⟨fwCrcInit crcInitValue, tmp, dat⟩).InRange :=
    ⟨List.forall_mem_nil _, List.forall_mem_nil _, List.forall_mem_nil _, List.forall_mem_nil _⟩
  obtain ⟨hrange, hblocks⟩ := Traced.image_iff cal flash hstart g.fwFlashAddr
    (fwSize flash g.fwFlashAddr)
  rw [tracedFwCheck, hrange, hblocks]
  have hzero : (Traced.start ⟨fwCrcInit crcInitValue, tmp, dat⟩).blocks = 0 := rfl
  rw [hzero, fwReadSize]
  refine and_congr_right fun _ => ?_
  have hsize := (fwSize flash g.fwFlashAddr).isLt
  omega

end reads

/-- The size 0: the rest is a read of `2 ^ 32 - 4` bytes. -/
theorem fw_reads_zero_size :
    ¬ ∀ (cal : Crc32HalfCal) (flash : Mem) (g : OtaProgram) (tmp dat : Memory)
      (crcInitValue : U32),
      (tracedFwCheck cal flash g tmp dat crcInitValue).InRange ∧
        (tracedFwCheck cal flash g tmp dat crcInitValue).blocks =
          (fwSize flash g.fwFlashAddr).toNat / 256 := by
  intro h
  have hread := (h (fun _ _ _ _ => 0#32) (fun _ => 0#8) ⟨1#32, 0#32⟩ (fun _ => 0#8) (fun _ => 0#8)
    0#32).1.reads 0xFFFFFFFC#32
  have hmem : 0xFFFFFFFC#32 ∈ (tracedFwCheck (fun _ _ _ _ => 0#32) (fun _ => 0#8) ⟨1#32, 0#32⟩
      (fun _ => 0#8) (fun _ => 0#8) 0#32).reads := by
    decide +kernel
  exact absurd (hread hmem) (by decide)

end TelinkB91.Flash
