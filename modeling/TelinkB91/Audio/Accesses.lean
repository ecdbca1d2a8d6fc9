import TelinkB91.Audio.Abuf

/-!
# Audio — what the decoder accesses

`adpcm_to_pcm` reads `steptbl[predict_idx]` at the start of every round, and clamps `predict_idx` at
its end: a first index that a packet has brought is used as it is.  It reads a code byte before the
loop and one more after every odd sample, so that one byte behind the last code is read as well.

A `Traced` loop records the indices and the bytes, as offsets from `ps`.

* `tracedLoop_loop`: it is the decoder's loop.
* `tracedLoop_bytes`, `tracedLoop_indices`: what is recorded.
* `indices_in_table`: all indices are in the table just when the byte of the header is at most 88,
  or there is nothing to decode.
* `reads_stay_iff`: of the three frames only Google's, which is two bytes longer than its packet,
  has room for the last byte.
-/

namespace TelinkB91.Audio
open Nibbles Ring

/-! ### The loop with a record -/

/-- The loop of `adpcm_to_pcm`, the indices of `steptbl` it has used, and the bytes it has read. -/
structure Traced where
  loop : DecLoop
  indices : List Int
  bytes : List Nat

/-- The body of the loop. -/
def tracedRound (fetch : U8 → U8) (m : Memory) (t : Traced) (i : Nat) : Traced where
  loop := decRound fetch m t.loop i
  indices := t.indices ++ [t.loop.st.predictIdx]
  bytes := if i % 2 = 1 then t.bytes ++ [t.loop.pcode] else t.bytes

/-- The loop, from `predict_idx`, `predict` and `pcode` on, after the bytes of the header. -/
def tracedLoop (fetch : U8 → U8) (m : Memory) (header : List Nat) (st : State) (pcode len : Nat) :
    Traced :=
  (List.range len).foldl (tracedRound fetch m)
    ⟨⟨fetch (m pcode), pcode + 1, st, []⟩, [], header ++ [pcode]⟩

section loop

variable {fetch : U8 → U8} {m : Memory} {header : List Nat} {st : State} {pcode : Nat}

theorem tracedLoop_succ (n : Nat) : tracedLoop fetch m header st pcode (n + 1) =
    tracedRound fetch m (tracedLoop fetch m header st pcode n) n := by
  rw [tracedLoop, List.range_succ, List.foldl_append, List.foldl_cons, List.foldl_nil, tracedLoop]

/-- **The loop is the decoder's.** -/
theorem tracedLoop_loop (len : Nat) :
    (tracedLoop fetch m header st pcode len).loop = decLoop fetch m st pcode len := by
  induction len with
  | zero => rfl
  | succ n ih => rw [tracedLoop_succ, decLoop_succ, ← ih, tracedRound]

theorem decRound_pcode (l : DecLoop) (i : Nat) :
    (decRound fetch m l i).pcode = if i % 2 = 1 then l.pcode + 1 else l.pcode := by
  rw [decRound]
  split
  · rfl
  · rfl

/-- After `n` rounds `pcode` is behind the byte of the next code. -/
theorem decLoop_pcode (n : Nat) : (decLoop fetch m st pcode n).pcode = pcode + n / 2 + 1 := by
  induction n with
  | zero => rfl
  | succ n ih =>
      rw [decLoop_succ, decRound_pcode, ih]
      split <;> omega

/-- **The bytes**: the header, and one for every two codes, and one more. -/
theorem tracedLoop_bytes (len : Nat) : (tracedLoop fetch m header st pcode len).bytes =
    header ++ List.range' pcode (len / 2 + 1) := by
  induction len with
  | zero => rfl
  | succ n ih =>
      rw [tracedLoop_succ, tracedRound, ih, tracedLoop_loop, decLoop_pcode]
      dsimp only
      split
      · have hdiv : (n + 1) / 2 + 1 = n / 2 + 1 + 1 := by omega
        have hlast : List.range' pcode (n / 2 + 1 + 1) =
            List.range' pcode (n / 2 + 1) ++ [pcode + (n / 2 + 1)] := by
          rw [List.range'_concat, Nat.one_mul]
        rw [hdiv, hlast, List.append_assoc, Nat.add_assoc pcode]
      · have hdiv : (n + 1) / 2 = n / 2 := by omega
        rw [hdiv]

/-- **The indices**: in each round, the index the rounds before it have left. -/
theorem tracedLoop_indices (len : Nat) : (tracedLoop fetch m header st pcode len).indices =
    (List.range len).map fun n => (decLoop fetch m st pcode n).st.predictIdx := by
  induction len with
  | zero => rfl
  | succ n ih =>
      rw [tracedLoop_succ, tracedRound, ih, tracedLoop_loop, List.range_succ, List.map_append,
        List.map_singleton]

/-- An index of the table. -/
def InTable (i : Int) : Prop := 0 ≤ i ∧ i ≤ 88

/-- A round leaves an index of the table. -/
theorem decLoop_inTable (n : Nat) : InTable (decLoop fetch m st pcode (n + 1)).st.predictIdx := by
  have hround : (decRound fetch m (decLoop fetch m st pcode n) n).st =
      decodeSample (decLoop fetch m st pcode n).st (decLoop fetch m st pcode n).code := by
    rw [decRound]
    split
    · rfl
    · rfl
  rw [decLoop_succ, hround]
  exact (State.adapt_inRange ..).predictIdx

/-- So all depends on the first. -/
theorem inTable_iff (len : Nat) :
    (∀ i ∈ (tracedLoop fetch m header st pcode len).indices, InTable i) ↔
      len = 0 ∨ InTable st.predictIdx := by
  rw [tracedLoop_indices, List.forall_mem_map]
  constructor
  · intro h
    rcases Nat.eq_zero_or_pos len with hzero | hpos
    · exact .inl hzero
    · exact .inr (h 0 (List.mem_range.mpr hpos))
  · rintro (rfl | hfirst) n hn
    · exact absurd (List.mem_range.mp hn) (Nat.not_lt_zero n)
    · cases n with
      | zero => exact hfirst
      | succ n => exact decLoop_inTable n

end loop

/-! ### The index a packet brings -/

/-- `predict` and `predict_idx` from the header of a packet. -/
def Variant.fromHeader : Variant → Memory → State
  | .telink, m => ⟨(m.word 0).toInt, (m.word 1 &&& 0xFF#16).toNat⟩
  | .google, m =>
      let predict := (m.word 1 &&& 0xFF00#16) ||| (m.word 2 &&& 0x00FF#16)
      let predictIdx : U8 := ((m.word 2 &&& 0xFF00#16) >>> 8).setWidth 8
      ⟨predict.toInt, predictIdx.toInt⟩

/-- The bytes of the header that `adpcm_to_pcm` reads, and where the codes begin. -/
def Variant.headerBytes : Variant → List Nat
  | .telink => [0, 1, 2, 3]
  | .google => [2, 3, 4, 5]

def Variant.codeStart : Variant → Nat
  | .telink => 4
  | .google => 6

def Variant.fetch : Variant → U8 → U8
  | .telink => id
  | .google => swap

/-- `adpcm_to_pcm` of a variant for a GATT service, with the record. -/
def Variant.traced (v : Variant) (m : Memory) (len : Nat) : Traced :=
  tracedLoop v.fetch m v.headerBytes (v.fromHeader m) v.codeStart len

theorem adpcmToPcm_traced (v : Variant) (m : Memory) (len : Nat) :
    adpcmToPcm v m len = ((v.traced m len).loop.pd, (v.traced m len).loop.st) := by
  rw [Variant.traced, tracedLoop_loop]
  cases v with
  | telink => rfl
  | google => rfl

/-- The byte of the header with the index. -/
def Variant.indexByte : Variant → Nat
  | .telink => 2
  | .google => 5

theorem low_byte (a b : U8) : (a ++ b &&& 0xFF#16).toNat = b.toNat := by
  rw [BitVec.toNat_and, BitVec.toNat_append]
  have hb := b.isLt
  have hand := Nat.and_two_pow_sub_one_eq_mod (a.toNat <<< 8 ||| b.toNat) 8
  have hor := Nat.shiftLeft_add_eq_or_of_lt hb a.toNat
  have hmod : (a.toNat <<< 8 ||| b.toNat) % 2 ^ 8 = b.toNat := by
    rw [← hor, Nat.shiftLeft_eq]
    omega
  exact hand.trans hmod

theorem high_byte (a b : U8) : ((a ++ b &&& 0xFF00#16) >>> 8).setWidth 8 = a := by
  refine BitVec.eq_of_getLsbD_eq fun i hi => ?_
  simp only [BitVec.getLsbD_setWidth, BitVec.getLsbD_ushiftRight, BitVec.getLsbD_and,
    BitVec.getLsbD_append]
  have hbit : ∀ i < 8, (0xFF00#16).getLsbD (8 + i) = true := by decide
  simp [hi, hbit i hi]

/-- The index of the header is in the table just when its byte is at most 88, read without a sign
or with one. -/
theorem fromHeader_inTable (v : Variant) (m : Memory) :
    InTable (v.fromHeader m).predictIdx ↔ (m v.indexByte).toNat ≤ 88 := by
  cases v with
  | telink =>
      simp only [Variant.fromHeader, Variant.indexByte, Memory.word, InTable, low_byte, Nat.mul_one]
      omega
  | google =>
      have hbyte := (m 5).isLt
      have hint := BitVec.toInt_eq_toNat_cond (m 5)
      simp only [Variant.fromHeader, Variant.indexByte, Memory.word, InTable, high_byte,
        Nat.reduceMul, Nat.reduceAdd]
      split at hint <;> omega

/-- **The table is read in its bounds** just when there is nothing to decode, or the packet brings
an index of the table. -/
theorem indices_in_table (v : Variant) (m : Memory) (len : Int) :
    (∀ i ∈ (v.traced m len.toNat).indices, InTable i) ↔
      len ≤ 0 ∨ (m v.indexByte).toNat ≤ 88 := by
  rw [Variant.traced, inTable_iff, fromHeader_inTable, Int.toNat_eq_zero]

/-- A packet of zeros but for an index of 89. -/
def badIndex (v : Variant) : Memory := fun k => if k = v.indexByte then 89#8 else 0#8

/-- Both variants read behind the table, for one sample. -/
theorem index_outside :
    (¬∀ i ∈ (Variant.telink.traced (badIndex .telink) (1 : Int).toNat).indices, InTable i) ∧
      ¬∀ i ∈ (Variant.google.traced (badIndex .google) (1 : Int).toNat).indices, InTable i := by
  refine ⟨fun h => ?_, fun h => ?_⟩
  · exact absurd (h 89 (by decide)).2 (by decide)
  · exact absurd (h 89 (by decide)).2 (by decide)

/-! ### The frame of a slot -/

/-- The variants of `adpcm_to_pcm`. -/
inductive Decoder where
  | gatt (v : Variant)
  | hid
  deriving DecidableEq, Repr

/-- `MIC_ADPCM_FRAME_SIZE`. -/
def Decoder.micAdpcmFrameSize : Decoder → Nat
  | .gatt .telink => Abuf.telink.micAdpcmFrameSize
  | .gatt .google => Abuf.google.micAdpcmFrameSize
  | .hid => Abuf.hid.micAdpcmFrameSize

/-- `MIC_SHORT_DEC_SIZE`. -/
def Decoder.micShortDecSize : Decoder → Nat
  | .gatt .telink => Abuf.telink.micShortDecSize
  | .gatt .google => Abuf.google.micShortDecSize
  | .hid => Abuf.hid.micShortDecSize

/-- The frames of `abuf_mic`. -/
def Decoder.micFrames : Decoder → Nat
  | .gatt .telink => Abuf.telink.micFrames
  | .gatt .google => Abuf.google.micFrames
  | .hid => Abuf.hid.micFrames

/-- The bytes of the header, of which the variant for the HID service has none. -/
def Decoder.headerBytes : Decoder → List Nat
  | .gatt v => v.headerBytes
  | .hid => []

def Decoder.codeStart : Decoder → Nat
  | .gatt v => v.codeStart
  | .hid => 0

/-- `adpcm_to_pcm` with the record; the variant for the HID service starts from its globals. -/
def Decoder.traced (d : Decoder) (m : Memory) (st : State) (len : Nat) : Traced :=
  match d with
  | .gatt v => v.traced m len
  | .hid => tracedLoop swap m [] st 0 len

theorem hid_traced (m : Memory) (st : State) (len : Nat) : Hid.adpcmToPcm m st len =
    ((Decoder.hid.traced m st len).loop.pd, (Decoder.hid.traced m st len).loop.st) := by
  rw [Decoder.traced, tracedLoop_loop, Hid.adpcmToPcm]

/-- `abuf_mic + (abuf_dec_wptr & 3) * MIC_ADPCM_FRAME_SIZE`, or with `& 7`. -/
def Decoder.frameAddr (d : Decoder) (abufDecWptr : U8) : Nat :=
  slot d.micFrames abufDecWptr * d.micAdpcmFrameSize

/-- The call of `adpcm_to_pcm` in `abuf_mic_dec`. -/
def Decoder.called (d : Decoder) (abufMic : Memory) (st : State) (abufDecWptr : U8) : Traced :=
  d.traced (fun k => abufMic (d.frameAddr abufDecWptr + k)) st d.micShortDecSize

theorem called_gatt (v : Variant) (abufMic : Memory) (st : State) (abufDecWptr : U8) :
    ((Decoder.gatt v).called abufMic st abufDecWptr).loop.pd = (adpcmToPcm v
      (fun k => abufMic ((Decoder.gatt v).frameAddr abufDecWptr + k))
      (Decoder.gatt v).micShortDecSize).1 := by
  rw [Decoder.called, Decoder.traced, adpcmToPcm_traced]

theorem called_hid (abufMic : Memory) (st : State) (abufDecWptr : U8) :
    (Decoder.hid.called abufMic st abufDecWptr).loop.pd = (Hid.adpcmToPcm
      (fun k => abufMic (Decoder.hid.frameAddr abufDecWptr + k)) st
      Decoder.hid.micShortDecSize).1 := by
  rw [Decoder.called, hid_traced]

/-- What `abuf_mic_dec` decodes is what that call gives. -/
theorem pcm_called :
    (∀ (s : Abuf.Dongle Unit) (st : State), (s.pcm Abuf.telink).1 =
        ((Decoder.gatt .telink).called s.abufMic st s.abufDecWptr).loop.pd) ∧
      (∀ (s : Abuf.Dongle Unit) (st : State), (s.pcm Abuf.google).1 =
        ((Decoder.gatt .google).called s.abufMic st s.abufDecWptr).loop.pd) ∧
      ∀ s : Abuf.Dongle State, (s.pcm Abuf.hid).1 =
        (Decoder.hid.called s.abufMic s.codec s.abufDecWptr).loop.pd := by
  refine ⟨fun s st => ?_, fun s st => ?_, fun s => ?_⟩
  · rw [called_gatt]
    rfl
  · rw [called_gatt]
    rfl
  · rw [called_hid]
    rfl

/-- The places of `abuf_mic` that it reads. -/
def Decoder.reads (d : Decoder) (abufMic : Memory) (st : State) (abufDecWptr : U8) : List Nat :=
  (d.called abufMic st abufDecWptr).bytes.map (d.frameAddr abufDecWptr + ·)

/-- The bytes read for a frame, from its start on. -/
def Decoder.offsets (d : Decoder) : List Nat :=
  d.headerBytes ++ List.range' d.codeStart (d.micShortDecSize / 2 + 1)

theorem reads_eq (d : Decoder) (abufMic : Memory) (st : State) (abufDecWptr : U8) :
    d.reads abufMic st abufDecWptr = d.offsets.map (d.frameAddr abufDecWptr + ·) := by
  rw [Decoder.reads, Decoder.called, Decoder.offsets]
  cases d with
  | gatt v => rw [Decoder.traced, Variant.traced, tracedLoop_bytes]; rfl
  | hid => rw [Decoder.traced, tracedLoop_bytes]; rfl

/-- The last byte read decides. -/
theorem offsets_lt_iff (d : Decoder) : (∀ k ∈ d.offsets, k < d.micAdpcmFrameSize) ↔
    d.codeStart + d.micShortDecSize / 2 < d.micAdpcmFrameSize := by
  have hheader : ∀ k ∈ d.headerBytes, k < d.codeStart := by
    match d with
    | .gatt .telink => decide
    | .gatt .google => decide
    | .hid => decide
  rw [Decoder.offsets]
  constructor
  · intro h
    exact h _ (List.mem_append_right _ (List.mem_range'_1.mpr ⟨Nat.le_add_right _ _, by omega⟩))
  · intro h k hk
    rcases List.mem_append.mp hk with hk | hk
    · exact (hheader k hk).trans (by omega)
    · have hk := List.mem_range'_1.mp hk
      omega

/-- The bytes of the codes, and one more: 125 from 4 on, 129 from 6 on and 121 from 0 on. -/
theorem fits_iff (d : Decoder) :
    d.codeStart + d.micShortDecSize / 2 < d.micAdpcmFrameSize ↔ d = .gatt .google := by
  cases d with
  | gatt v =>
      cases v with
      | telink => exact iff_of_false (Nat.lt_irrefl 128) (by decide)
      | google => exact iff_of_true (show 134 < 136 by decide) rfl
  | hid => exact iff_of_false (Nat.lt_irrefl 120) (by decide)

/-- All that is read for the frame is in it, and for the last slot in the array. -/
def Decoder.StaysIn (d : Decoder) (abufMic : Memory) (st : State) (abufDecWptr : U8) : Prop :=
  (∀ a ∈ d.reads abufMic st abufDecWptr, d.frameAddr abufDecWptr ≤ a ∧
      a < d.frameAddr abufDecWptr + d.micAdpcmFrameSize) ∧
    (slot d.micFrames abufDecWptr = d.micFrames - 1 →
      ∀ a ∈ d.reads abufMic st abufDecWptr, a < d.micFrames * d.micAdpcmFrameSize)

/-- The last slot ends with the array. -/
theorem frameAddr_last {d : Decoder} {abufDecWptr : U8}
    (hlast : slot d.micFrames abufDecWptr = d.micFrames - 1) :
    d.frameAddr abufDecWptr + d.micAdpcmFrameSize = d.micFrames * d.micAdpcmFrameSize := by
  have hframes : d.micFrames - 1 + 1 = d.micFrames := by
    match d with
    | .gatt .telink => rfl
    | .gatt .google => rfl
    | .hid => rfl
  rw [Decoder.frameAddr, hlast, ← Nat.succ_mul, Nat.succ_eq_add_one, hframes]

/-- **The decoder stays in its frame** just in the Google variant: the other two read the byte
behind it, which for the last slot is the byte behind the array. -/
theorem reads_stay_iff (d : Decoder) (abufMic : Memory) (st : State) (abufDecWptr : U8) :
    d.StaysIn abufMic st abufDecWptr ↔ d = .gatt .google := by
  have hin : (∀ a ∈ d.reads abufMic st abufDecWptr, d.frameAddr abufDecWptr ≤ a ∧
      a < d.frameAddr abufDecWptr + d.micAdpcmFrameSize) ↔
      ∀ k ∈ d.offsets, k < d.micAdpcmFrameSize := by
    rw [reads_eq, List.forall_mem_map]
    exact forall₂_congr fun k _ => by omega
  have hoffsets := (offsets_lt_iff d).trans (fits_iff d)
  rw [Decoder.StaysIn]
  constructor
  · rintro ⟨hframe, -⟩
    exact hoffsets.mp (hin.mp hframe)
  · intro hgoogle
    have hframe := hin.mpr (hoffsets.mpr hgoogle)
    refine ⟨hframe, fun hlast a ha => ?_⟩
    rw [← frameAddr_last hlast]
    exact (hframe a ha).2

/-- The last slot of the Telink variant: the byte behind `abuf_mic` is read. -/
theorem read_behind : ¬(Decoder.gatt .telink).StaysIn (fun _ => 0#8) ⟨0, 0⟩ 3#8 := by
  rintro ⟨-, harray⟩
  have hread : 512 ∈ (Decoder.gatt .telink).reads (fun _ => 0#8) ⟨0, 0⟩ 3#8 := by
    have hlast : 128 ∈ (Decoder.gatt .telink).offsets := by
      rw [Decoder.offsets]
      exact List.mem_append_right _ (List.mem_range'_1.mpr (by decide))
    have haddr : (Decoder.gatt .telink).frameAddr 3#8 + 128 = 512 := by decide
    rw [reads_eq]
    exact haddr ▸ List.mem_map_of_mem hlast
  exact absurd (harray rfl 512 hread) (by decide)

end TelinkB91.Audio
