import TelinkB91.Audio.LockStep
import TelinkB91.Lib.Ring
import TelinkB91.Lib.RoundLine

/-!
# Audio — the dongle's buffers

The dongle keeps the frames it receives in `abuf_mic` and the samples it decodes in `abuf_dec`.
`abuf_mic_add` stores a frame, `abuf_mic_dec` decodes one, and `abuf_dec_usb` copies 16 samples a
millisecond to the ISO endpoint.  `abuf_mic_wptr` and `abuf_dec_wptr` count frames, in eight bits;
`abuf_dec_wptr` is the reader of one ring and the writer of the other.  `abuf_dec_rptr` counts
samples, over 256 frames.

The five variants that decode differ in their sizes and in how `abuf_mic_dec` looks at the two
rings; a `Conf` is a variant.  A `Dongle` also holds what the code does not: what was received,
passed to the decoder, decoded and sent, and which samples are still to be sent.

* `Sync`: the reader and the writer of `abuf_dec` on one line.
* `numDec_eq`: the frames between them.
* `isoPositions_eq`: a packet is the next 16 samples of the line.
-/

namespace TelinkB91.Audio.Abuf
open ByteMemory Ring RoundLine

/-- How `abuf_mic_dec` looks at the rings: as the two variants for a GATT service, as the one for
the HID service, or as the two that decode SBC. -/
inductive Kind where
  | gatt
  | hid
  | sbc
  deriving DecidableEq, Repr

/-- A variant: `MIC_ADPCM_FRAME_SIZE`, `MIC_SHORT_DEC_SIZE`, the frames in `abuf_mic` and in
`abuf_dec`, the decoder, and whether `abuf_dec_usb` fills a packet with zeros. -/
structure Conf (σ : Type) where
  kind : Kind
  micAdpcmFrameSize : Nat
  micShortDecSize : Nat
  micFrames : Nat
  decFrames : Nat
  decode : σ → Memory → List S16 × σ
  silence : Bool
  micFrames_isSize : IsSize micFrames
  decFrames_isSize : IsSize decFrames
  eight_dvd : 8 ∣ micShortDecSize
  size_ge : 16 ≤ micShortDecSize
  size_le : micShortDecSize ≤ 256
  length_decode : ∀ st m, (decode st m).1.length = micShortDecSize

/-- The globals of the dongle, and the statics of its functions; what the last `abuf_dec_usb` wrote
to the endpoint; the frames received, how many of them were taken, and which were decoded, each
with its place; the samples decoded and sent since the two pointers of `abuf_dec` last met, the
places of `abuf_dec` with samples still to be sent, and those whose samples were lost. -/
structure Dongle (σ : Type) where
  abufMicWptr : U8
  abufDecWptr : U8
  abufDecRptr : U16
  abufMic : Memory
  abufDec : Nat → S16
  abufReset : Nat
  start : Bool
  bufferEmpty : Bool
  nUsbIso : U8
  codec : σ
  ep7 : List S16
  received : List (List U8)
  taken : Nat
  passed : List (Nat × List U8)
  decoded : List S16
  sent : List S16
  unread : Nat → Bool
  lost : List Nat

/-- `USB_ISO_IN_SIZE`. -/
def usbIsoInSize : Nat := 16

section functions

variable {σ : Type} (C : Conf σ) (s : Dongle σ)

/-! ### Receiving -/

/-- `DEC_BUFFER_SIZE`. -/
def Conf.decBufferSize : Nat := C.decFrames * C.micShortDecSize

/-- Where a frame is stored. -/
def Conf.micAddr (c : U8) : Nat := slot C.micFrames c * C.micAdpcmFrameSize

/-- Where the samples of a frame are stored. -/
def Conf.decAddr (c : U8) : Nat := slot C.decFrames c * C.micShortDecSize

def Dongle.abufMicAdd (p : Memory) : Dongle σ := { s with
  abufMic := write s.abufMic (C.micAddr s.abufMicWptr) (read p 0 C.micAdpcmFrameSize)
  abufMicWptr := s.abufMicWptr + 1
  received := s.received ++ [read p 0 C.micAdpcmFrameSize] }

/-! ### Decoding -/

def Dongle.numMic : U8 := s.abufMicWptr - s.abufDecWptr

def Dongle.numDec : U8 :=
  s.abufDecWptr - BitVec.ofNat 8 (s.abufDecRptr.toNat / C.micShortDecSize)

/-- There are frames enough to decode one. -/
def Dongle.Due : Prop := ¬ s.start ∧ s.numMic ≥ 1#8 ∨ s.start ∧ s.numMic ≥ 2#8

instance : Decidable s.Due := inferInstanceAs (Decidable (_ ∨ _))

/-- `abuf_dec_rptr = abuf_dec_wptr*MIC_SHORT_DEC_SIZE`. -/
def Dongle.resync : Dongle σ := { s with
  abufDecRptr := BitVec.ofNat 16 (s.abufDecWptr.toNat * C.micShortDecSize)
  decoded := []
  sent := []
  unread := fun _ => false }

/-- `abuf_dec_wptr ++`, in case of overflow. -/
def Dongle.skip : Dongle σ := { s with abufDecWptr := s.abufDecWptr + 1, taken := s.taken + 1 }

/-- `abuf_dec_wptr = abuf_mic_wptr`. -/
def Dongle.skipAll : Dongle σ := { s with abufDecWptr := s.abufMicWptr, taken := s.received.length }

/-- The samples of the frame at `abuf_dec_wptr`, and what the decoder keeps. -/
def Dongle.pcm : List S16 × σ :=
  C.decode s.codec fun k => s.abufMic (C.micAddr s.abufDecWptr + k)

/-- The frame at `abuf_dec_wptr` decoded. -/
def Dongle.decodeFrame : Dongle σ := { s with
  codec := (s.pcm C).2
  abufDec := write s.abufDec (C.decAddr s.abufDecWptr) (s.pcm C).1
  abufDecWptr := s.abufDecWptr + 1
  start := false
  passed := s.passed ++ [(s.taken, read s.abufMic (C.micAddr s.abufDecWptr) C.micAdpcmFrameSize)]
  taken := s.taken + 1
  decoded := s.decoded ++ (s.pcm C).1
  lost := s.lost ++ (List.range' (C.decAddr s.abufDecWptr) C.micShortDecSize).filter s.unread
  unread := write s.unread (C.decAddr s.abufDecWptr) ((s.pcm C).1.map fun _ => true) }

/-- `abuf_mic_dec` of the variants for a GATT service. -/
def Dongle.abufMicDecGatt : Dongle σ :=
  if s.abufReset ≠ 0 then s.skipAll
  else
    let s' := if s.numMic.toNat > C.micFrames then s.skip else s
    if (s.numDec C).toNat > C.decFrames then { s' with abufReset := 16, start := true }
    else if s.Due ∧ (s.numDec C).toNat ≤ C.decFrames - 1 then s'.decodeFrame C
    else s'

/-- `abuf_mic_dec` of the variant for the HID service. -/
def Dongle.abufMicDecHid : Dongle σ :=
  let s' := if (s.numDec C).toNat > C.decFrames then s.resync C else s
  if s.Due then s'.decodeFrame C else s'

/-- `abuf_mic_dec` of the variants that decode SBC. -/
def Dongle.abufMicDecSbc : Dongle σ :=
  if s.abufReset ≠ 0 then s.skipAll
  else
    let s' := if s.numMic.toNat > C.micFrames then s.skip else s
    if s.Due then s'.decodeFrame C else s'

def Dongle.abufMicDec : Dongle σ :=
  match C.kind with
  | .gatt => s.abufMicDecGatt C
  | .hid => s.abufMicDecHid C
  | .sbc => s.abufMicDecSbc C

/-- `abuf_mic_dec` decodes a frame, where it does not reset. -/
def Dongle.Decodes : Prop :=
  s.Due ∧ (C.kind = .gatt → (s.numDec C).toNat ≤ C.decFrames - 1)

instance : Decidable (s.Decodes C) := inferInstanceAs (Decidable (_ ∧ _))

/-! ### Sending -/

/-- `abuf_dec_usb` up to the packet; `exceeded` is whether the last call was over 4 ms ago. -/
def Dongle.tick (exceeded : Bool) : Dongle σ :=
  let s := { s with
    nUsbIso := s.nUsbIso + 1
    abufReset := if exceeded then 16 else s.abufReset }
  if s.abufReset ≠ 0 then { s.resync C with abufReset := s.abufReset - 1 } else s

/-- A packet of samples is sent. -/
def Dongle.Sends : Prop :=
  s.bufferEmpty ∧ (s.numDec C).toNat ≥ C.decFrames - 1 ∨
    ¬ s.bufferEmpty ∧
      (s.numDec C ≥ 1#8 ∨ s.nUsbIso &&& BitVec.ofNat 8 (C.decFrames - 1) ≠ 0#8)

instance : Decidable (s.Sends C) := inferInstanceAs (Decidable (_ ∨ _))

/-- The places a packet is copied from. -/
def Dongle.isoPositions : List Nat :=
  let offset := s.abufDecRptr.toNat % C.decBufferSize
  if offset = C.decBufferSize - usbIsoInSize / 2 then
    List.range' offset (usbIsoInSize / 2) ++ List.range' 0 (usbIsoInSize / 2)
  else List.range' offset usbIsoInSize

/-- `abuf_dec_rptr` after a packet. -/
def Dongle.nextRptr : U16 :=
  let abufDecRptr := s.abufDecRptr + BitVec.ofNat 16 usbIsoInSize
  if abufDecRptr.toNat ≥ C.micShortDecSize <<< 8 then 0#16 else abufDecRptr

/-- A packet of samples. -/
def Dongle.send : Dongle σ := { s with
  bufferEmpty := false
  abufDecRptr := s.nextRptr C
  ep7 := (s.isoPositions C).map s.abufDec
  sent := s.sent ++ (s.isoPositions C).map s.abufDec
  unread := fun x => if x ∈ s.isoPositions C then false else s.unread x }

/-- A packet with no samples. -/
def Dongle.silent : Dongle σ :=
  { s with ep7 := if C.silence then List.replicate usbIsoInSize 0#16 else [] }

def Dongle.abufDecUsb (exceeded : Bool) : Dongle σ :=
  let s := s.tick C exceeded
  if s.numDec C ≠ 0#8 then
    if s.Sends C then s.send C else s.silent C
  else { s.silent C with bufferEmpty := true }

/-- A call sends a packet of samples; the state is that behind `tick`. -/
def Dongle.Sending : Prop := s.numDec C ≠ 0#8 ∧ s.Sends C

instance : Decidable (s.Sending C) := inferInstanceAs (Decidable (_ ∧ _))

/-- The 16 samples of a packet are decoded. -/
def Dongle.Covered : Prop :=
  s.abufDecRptr.toNat % C.micShortDecSize + usbIsoInSize ≤ (s.numDec C).toNat * C.micShortDecSize

instance : Decidable (s.Covered C) := inferInstanceAs (Decidable (_ ≤ _))

/-- A step of the dongle. -/
inductive Op where
  | add (p : Memory)
  | dec
  | usb (exceeded : Bool)

def Dongle.step : Op → Dongle σ
  | .add p => s.abufMicAdd C p
  | .dec => s.abufMicDec C
  | .usb exceeded => s.abufDecUsb C exceeded

end functions

/-! ### What `abuf_mic_dec` can do -/

section micDec

variable {σ : Type} (C : Conf σ) (s : Dongle σ)

/-- The dongle after `abuf_mic_dec` has seen to an overflow, and before it decodes. -/
def Dongle.before : Dongle σ :=
  match C.kind with
  | .hid => if (s.numDec C).toNat > C.decFrames then s.resync C else s
  | _ => if s.numMic.toNat > C.micFrames then s.skip else s

/-- The ways a call of `abuf_mic_dec` ends: in a reset all frames are dropped; a frame is decoded,
or none; or a reset begins, for a writer that is too far ahead. -/
inductive MicDec : Dongle σ → Prop where
  | dropped (hkind : C.kind ≠ .hid) (hreset : s.abufReset ≠ 0) : MicDec s.skipAll
  | decoded (hrun : C.kind = .hid ∨ s.abufReset = 0) (hdecodes : s.Decodes C) :
      MicDec ((s.before C).decodeFrame C)
  | waited (hrun : C.kind = .hid ∨ s.abufReset = 0) (hdecodes : ¬ s.Decodes C)
      (hroom : C.kind = .gatt → (s.numDec C).toNat ≤ C.decFrames) : MicDec (s.before C)
  | reset (hkind : C.kind = .gatt) (hrun : s.abufReset = 0)
      (hover : C.decFrames < (s.numDec C).toNat) :
      MicDec { s.before C with abufReset := 16, start := true }

theorem micDec_gatt (hkind : C.kind = .gatt) : MicDec C s (s.abufMicDecGatt C) := by
  have hbefore : s.before C = if s.numMic.toNat > C.micFrames then s.skip else s := by
    rw [Dongle.before, hkind]
  rw [Dongle.abufMicDecGatt, ← hbefore]
  split
  · rename_i hreset
    refine .dropped ?_ hreset
    rw [hkind]
    exact Kind.noConfusion
  · rename_i hreset
    have hrun := not_not.mp hreset
    split
    · rename_i hover
      exact .reset hkind hrun hover
    · rename_i hover
      split
      · rename_i hdecodes
        exact .decoded (.inr hrun) ⟨hdecodes.1, fun _ => hdecodes.2⟩
      · rename_i hdecodes
        exact .waited (.inr hrun) (fun h => hdecodes ⟨h.1, h.2 hkind⟩) fun _ => Nat.not_lt.mp hover

theorem micDec_hid (hkind : C.kind = .hid) : MicDec C s (s.abufMicDecHid C) := by
  have hgatt : C.kind ≠ .gatt := by
    rw [hkind]
    exact Kind.noConfusion
  have hbefore : s.before C = if (s.numDec C).toNat > C.decFrames then s.resync C else s := by
    rw [Dongle.before, hkind]
  rw [Dongle.abufMicDecHid, ← hbefore]
  split
  · rename_i hdue
    exact .decoded (.inl hkind) ⟨hdue, fun h => absurd h hgatt⟩
  · rename_i hdue
    exact .waited (.inl hkind) (fun h => hdue h.1) fun h => absurd h hgatt

theorem micDec_sbc (hkind : C.kind = .sbc) : MicDec C s (s.abufMicDecSbc C) := by
  have hgatt : C.kind ≠ .gatt := by
    rw [hkind]
    exact Kind.noConfusion
  have hbefore : s.before C = if s.numMic.toNat > C.micFrames then s.skip else s := by
    rw [Dongle.before, hkind]
  rw [Dongle.abufMicDecSbc, ← hbefore]
  split
  · rename_i hreset
    refine .dropped ?_ hreset
    rw [hkind]
    exact Kind.noConfusion
  · rename_i hreset
    have hrun := not_not.mp hreset
    split
    · rename_i hdue
      exact .decoded (.inr hrun) ⟨hdue, fun h => absurd h hgatt⟩
    · rename_i hdue
      exact .waited (.inr hrun) (fun h => hdue h.1) fun h => absurd h hgatt

/-- **Inversion of `abuf_mic_dec`.** -/
theorem micDec : MicDec C s (s.abufMicDec C) := by
  rw [Dongle.abufMicDec]
  cases hkind : C.kind with
  | gatt => exact micDec_gatt C s hkind
  | hid => exact micDec_hid C s hkind
  | sbc => exact micDec_sbc C s hkind

end micDec

/-! ### The line of samples -/

section sync

variable {σ : Type} {C : Conf σ} {s : Dongle σ} {r w : Nat}

theorem Conf.decFrames_dvd (C : Conf σ) : C.decFrames ∣ 256 :=
  C.decFrames_isSize.dvd.trans (by decide)

theorem Conf.size_pos (C : Conf σ) : 0 < C.micShortDecSize :=
  Nat.lt_of_lt_of_le (by decide) C.size_ge

theorem Conf.decBufferSize_dvd (C : Conf σ) : C.decBufferSize ∣ 256 * C.micShortDecSize :=
  Nat.mul_dvd_mul_right C.decFrames_dvd _

/-- The reader is at the sample `r` of the line, and the writer at the start of the frame `w`. -/
structure Sync (C : Conf σ) (s : Dongle σ) (r w : Nat) : Prop where
  rptr : s.abufDecRptr.toNat = r % (256 * C.micShortDecSize)
  wptr : s.abufDecWptr.toNat = w % 256
  le : r ≤ w * C.micShortDecSize
  lap : w < r / C.micShortDecSize + 256
  phase : 8 ∣ r

/-- A step that leaves the pointers alone. -/
theorem Sync.congr {s' : Dongle σ} (h : Sync C s r w) (hrptr : s'.abufDecRptr = s.abufDecRptr)
    (hwptr : s'.abufDecWptr = s.abufDecWptr) : Sync C s' r w := by
  refine ⟨?_, ?_, h.le, h.lap, h.phase⟩
  · rw [hrptr, h.rptr]
  · rw [hwptr, h.wptr]

theorem Sync.div_le (h : Sync C s r w) : r / C.micShortDecSize ≤ w :=
  Nat.div_le_of_le_mul (Nat.mul_comm w _ ▸ h.le)

/-- **The frames between the pointers**, with the one the reader is in. -/
theorem numDec_eq (h : Sync C s r w) :
    (s.numDec C).toNat = w - r / C.micShortDecSize := by
  have hle := h.div_le
  have hlap := h.lap
  rw [Dongle.numDec, BitVec.toNat_sub, BitVec.toNat_ofNat, h.wptr, h.rptr,
    Nat.mod_mul_left_div_self]
  omega

/-- The reader is in the frame before the writer, or further back. -/
theorem numDec_ne (h : Sync C s r w) (hne : s.numDec C ≠ 0#8) : r < w * C.micShortDecSize := by
  have hpos : 0 < (s.numDec C).toNat :=
    Nat.pos_of_ne_zero fun heq => hne (BitVec.eq_of_toNat_eq heq)
  rw [numDec_eq h] at hpos
  exact (Nat.div_lt_iff_lt_mul C.size_pos).mp (Nat.lt_of_sub_pos hpos)

/-- The samples of the next frame lie at the writer. -/
theorem decAddr_eq (h : Sync C s r w) :
    C.decAddr s.abufDecWptr = w * C.micShortDecSize % C.decBufferSize := by
  rw [Conf.decAddr, slot_eq C.decFrames_isSize, h.wptr, Nat.mod_mod_of_dvd _ C.decFrames_dvd,
    Conf.decBufferSize, Nat.mul_mod_mul_right]

/-- A frame does not reach over the end of the ring. -/
theorem Conf.frame_fits (C : Conf σ) (w : Nat) :
    w * C.micShortDecSize % C.decBufferSize + C.micShortDecSize ≤ C.decBufferSize := by
  have hcells := Nat.mul_le_mul_right C.micShortDecSize
    (Nat.succ_le_of_lt (Nat.mod_lt w C.decFrames_isSize.pos))
  rw [Nat.succ_mul] at hcells
  rw [Conf.decBufferSize, Nat.mul_mod_mul_right]
  exact hcells

theorem offset_eq (h : Sync C s r w) :
    s.abufDecRptr.toNat % C.decBufferSize = r % C.decBufferSize := by
  rw [h.rptr, Nat.mod_mod_of_dvd _ C.decBufferSize_dvd]

/-- **A packet** is the next 16 samples of the line. -/
theorem isoPositions_eq (h : Sync C s r w) :
    s.isoPositions C = (List.range usbIsoInSize).map fun i => (r + i) % C.decBufferSize := by
  have hpos : 0 < C.decBufferSize := Nat.mul_pos C.decFrames_isSize.pos C.size_pos
  have hlt := Nat.mod_lt r hpos
  have hle : 16 ≤ C.decBufferSize :=
    C.size_ge.trans (Nat.le_mul_of_pos_left _ C.decFrames_isSize.pos)
  have hdvd : 8 ∣ C.decBufferSize := Nat.dvd_mul_left_of_dvd C.eight_dvd _
  have hphase : 8 ∣ r % C.decBufferSize := (Nat.dvd_mod_iff hdvd).mpr h.phase
  rw [Dongle.isoPositions, offset_eq h, usbIsoInSize]
  split
  · -- eight samples at the end of the ring, and eight at its start
    rename_i hoffset
    rw [List.range'_eq_map_range, List.range'_eq_map_range, List.range_add (n := 8) (m := 8),
      List.map_append, List.map_map]
    congr 1
    · refine List.map_congr_left fun i hi => ?_
      have hi : i < 8 := List.mem_range.mp hi
      rw [← Nat.mod_add_mod, Nat.mod_eq_of_lt (a := r % C.decBufferSize + i) (by omega)]
    · refine List.map_congr_left fun i hi => ?_
      have hi : i < 8 := List.mem_range.mp hi
      have hsum : r % C.decBufferSize + (8 + i) = i + C.decBufferSize := by omega
      rw [Function.comp_apply, ← Nat.mod_add_mod, hsum, Nat.add_mod_right,
        Nat.mod_eq_of_lt (by omega), Nat.zero_add]
  · rename_i hoffset
    rw [List.range'_eq_map_range]
    refine List.map_congr_left fun i hi => ?_
    have hi : i < 16 := List.mem_range.mp hi
    rw [← Nat.mod_add_mod, Nat.mod_eq_of_lt (a := r % C.decBufferSize + i) (by omega)]

/-- The samples of a packet. -/
theorem iso_eq_line (h : Sync C s r w) :
    (s.isoPositions C).map s.abufDec = line C.decBufferSize s.abufDec r usbIsoInSize := by
  rw [isoPositions_eq h, List.map_map]
  rfl

/-- The reader after a packet, in 16 bits. -/
theorem nextRptr_toNat (C : Conf σ) (s : Dongle σ) : (s.nextRptr C).toNat =
    if 256 * C.micShortDecSize ≤ (s.abufDecRptr.toNat + usbIsoInSize) % 65536 then 0
    else (s.abufDecRptr.toNat + usbIsoInSize) % 65536 := by
  have hsum : (s.abufDecRptr + BitVec.ofNat 16 usbIsoInSize).toNat =
      (s.abufDecRptr.toNat + usbIsoInSize) % 65536 := BitVec.toNat_add _ _
  have hshift : C.micShortDecSize <<< 8 = 256 * C.micShortDecSize := by
    rw [Nat.shiftLeft_eq, Nat.mul_comm]
  rw [Dongle.nextRptr, hshift, ← hsum]
  split
  · rfl
  · rfl

/-- The reader after a packet that does not reach over its last sample. -/
theorem nextRptr_eq
    (hwrap : s.abufDecRptr.toNat + usbIsoInSize ≤ 256 * C.micShortDecSize) :
    (s.nextRptr C).toNat = (s.abufDecRptr.toNat + usbIsoInSize) % (256 * C.micShortDecSize) := by
  have hle := C.size_le
  rw [nextRptr_toNat]
  rcases Nat.lt_or_eq_of_le hwrap with hlt | heq
  · rw [Nat.mod_eq_of_lt hlt, if_neg (by omega), Nat.mod_eq_of_lt (by omega)]
  · rw [heq, Nat.mod_self]
    split
    · rfl
    · omega

theorem covered_le (h : Sync C s r w) (hcovered : s.Covered C) :
    r + usbIsoInSize ≤ w * C.micShortDecSize := by
  rw [Dongle.Covered, numDec_eq h, Nat.sub_mul, h.rptr, Nat.mod_mod_of_dvd _ (Nat.dvd_mul_left _ _)]
    at hcovered
  have hdiv := Nat.div_add_mod' r C.micShortDecSize
  have hle := Nat.mul_le_mul_right C.micShortDecSize h.div_le
  omega

/-- The writer goes on by a frame. -/
theorem Sync.next {s' : Dongle σ} (h : Sync C s r w) (hrptr : s'.abufDecRptr = s.abufDecRptr)
    (hwptr : s'.abufDecWptr = s.abufDecWptr + 1) (hlap : w + 1 < r / C.micShortDecSize + 256) :
    Sync C s' r (w + 1) := by
  have hframe := h.wptr
  refine ⟨?_, ?_, h.le.trans (Nat.mul_le_mul_right _ w.le_succ), hlap, h.phase⟩
  · rw [hrptr, h.rptr]
  · rw [hwptr]
    bv_omega

/-- The reader goes on by a packet. -/
theorem Sync.send (h : Sync C s r w) (hle : r + usbIsoInSize ≤ w * C.micShortDecSize)
    (hwrap : s.abufDecRptr.toNat + usbIsoInSize ≤ 256 * C.micShortDecSize) :
    Sync C (s.send C) (r + usbIsoInSize) w := by
  refine ⟨?_, h.wptr, hle, ?_, Nat.dvd_add h.phase (by decide)⟩
  · refine (nextRptr_eq hwrap).trans ?_
    rw [h.rptr, Nat.mod_add_mod]
  · exact h.lap.trans_le (Nat.add_le_add_right
      (Nat.div_le_div_right (Nat.le_add_right _ _)) _)

/-- While a reset lasts, and where the call comes too late, the reader is set to the writer. -/
theorem tick_cases (C : Conf σ) (s : Dongle σ) (exceeded : Bool) :
    (∃ n, n + 1 = (if exceeded then 16 else s.abufReset) ∧ s.tick C exceeded =
      { s.resync C with nUsbIso := s.nUsbIso + 1, abufReset := n }) ∨
        exceeded = false ∧ s.abufReset = 0 ∧
          s.tick C exceeded = { s with nUsbIso := s.nUsbIso + 1 } := by
  cases exceeded with
  | true => exact .inl ⟨15, rfl, rfl⟩
  | false =>
      rw [Dongle.tick, if_neg Bool.false_ne_true]
      by_cases hreset : s.abufReset = 0
      · refine .inr ⟨rfl, hreset, ?_⟩
        rw [if_neg (not_not.mpr hreset)]
      · refine .inl ⟨s.abufReset - 1, Nat.succ_pred_eq_of_ne_zero hreset, ?_⟩
        rw [if_pos hreset]
        rfl

/-- A call of `abuf_dec_usb` sends a packet of samples, or leaves both rings alone. -/
theorem abufDecUsb_cases (C : Conf σ) (s : Dongle σ) (exceeded : Bool) :
    (s.tick C exceeded).Sending C ∧ s.abufDecUsb C exceeded = (s.tick C exceeded).send C ∨
      ¬ (s.tick C exceeded).Sending C ∧ ∃ ep7 bufferEmpty, s.abufDecUsb C exceeded =
        { s.tick C exceeded with ep7 := ep7, bufferEmpty := bufferEmpty } := by
  rw [Dongle.abufDecUsb]
  by_cases hnum : (s.tick C exceeded).numDec C ≠ 0#8
  · by_cases hsends : (s.tick C exceeded).Sends C
    · refine .inl ⟨⟨hnum, hsends⟩, ?_⟩
      rw [if_pos hnum, if_pos hsends]
    · refine .inr ⟨fun h => hsends h.2, ((s.tick C exceeded).silent C).ep7,
        (s.tick C exceeded).bufferEmpty, ?_⟩
      rw [if_pos hnum, if_neg hsends]
      rfl
  · refine .inr ⟨fun h => hnum h.1, ((s.tick C exceeded).silent C).ep7, true, ?_⟩
    rw [if_neg hnum]
    rfl

theorem abufDecUsb_abufReset (C : Conf σ) (s : Dongle σ) (exceeded : Bool) :
    (s.abufDecUsb C exceeded).abufReset = (s.tick C exceeded).abufReset := by
  rcases abufDecUsb_cases C s exceeded with ⟨-, heq⟩ | ⟨-, ep7, bufferEmpty, heq⟩
  · rw [heq]
    rfl
  · rw [heq]

/-- The pointers meet, at the start of a frame. -/
structure Met (C : Conf σ) (s : Dongle σ) : Prop where
  rptr : s.abufDecRptr.toNat = s.abufDecWptr.toNat * C.micShortDecSize
  decoded : s.decoded = []
  sent : s.sent = []
  unread : ∀ x, s.unread x = false

theorem Met.sync (h : Met C s) :
    Sync C s (s.abufDecWptr.toNat * C.micShortDecSize) s.abufDecWptr.toNat := by
  have hlt := s.abufDecWptr.isLt
  refine ⟨?_, (Nat.mod_eq_of_lt hlt).symm, le_rfl, ?_, Nat.dvd_mul_left_of_dvd C.eight_dvd _⟩
  · rw [h.rptr, Nat.mod_eq_of_lt (Nat.mul_lt_mul_of_pos_right hlt C.size_pos)]
  · rw [Nat.mul_div_cancel _ C.size_pos]
    omega

theorem met_resync (C : Conf σ) (s : Dongle σ) : Met C (s.resync C) := by
  refine ⟨?_, rfl, rfl, fun _ => rfl⟩
  have hlt := s.abufDecWptr.isLt
  have hmul := Nat.mul_le_mul (Nat.le_of_lt_succ hlt) C.size_le
  exact Nat.mod_eq_of_lt (by omega)

end sync

/-! ### The variants -/

theorem length_decLoop (fetch : U8 → U8) (m : Memory) (st : State) (pcode len : Nat) :
    (decLoop fetch m st pcode len).pd.length = len := by
  have hround : ∀ l i, (decRound fetch m l i).pd.length = l.pd.length + 1 := by
    intro l i
    rw [decRound]
    split
    · exact List.length_append
    · exact List.length_append
  induction len with
  | zero => rfl
  | succ len ih =>
      rw [decLoop_succ, hround]
      exact congrArg (· + 1) ih

def telink : Conf Unit where
  kind := .gatt
  micAdpcmFrameSize := 128
  micShortDecSize := 248
  micFrames := 4
  decFrames := 4
  decode _ m := ((adpcmToPcmTelink m 248).1, ())
  silence := true
  micFrames_isSize := ⟨2, by decide, rfl⟩
  decFrames_isSize := ⟨2, by decide, rfl⟩
  eight_dvd := by decide
  size_ge := by decide
  size_le := by decide
  length_decode _ m := length_decLoop _ _ _ _ _

def google : Conf Unit where
  kind := .gatt
  micAdpcmFrameSize := 136
  micShortDecSize := 256
  micFrames := 4
  decFrames := 4
  decode _ m := ((adpcmToPcmGoogle m 256).1, ())
  silence := false
  micFrames_isSize := ⟨2, by decide, rfl⟩
  decFrames_isSize := ⟨2, by decide, rfl⟩
  eight_dvd := by decide
  size_ge := by decide
  size_le := by decide
  length_decode _ m := length_decLoop _ _ _ _ _

def hid : Conf State where
  kind := .hid
  micAdpcmFrameSize := 120
  micShortDecSize := 240
  micFrames := 8
  decFrames := 4
  decode st m := Hid.adpcmToPcm m st 240
  silence := false
  micFrames_isSize := ⟨3, by decide, rfl⟩
  decFrames_isSize := ⟨2, by decide, rfl⟩
  eight_dvd := by decide
  size_ge := by decide
  size_le := by decide
  length_decode _ m := length_decLoop _ _ _ _ _

/-- The library that decodes SBC fills the output it is given. -/
structure SbcDecode (σ : Type) (len : Nat) where
  decode : σ → Memory → List S16 × σ
  length_decode : ∀ st m, (decode st m).1.length = len

def sbc {σ : Type} (lib : SbcDecode σ 80) : Conf σ where
  kind := .sbc
  micAdpcmFrameSize := 20
  micShortDecSize := 80
  micFrames := 8
  decFrames := 8
  decode := lib.decode
  silence := false
  micFrames_isSize := ⟨3, by decide, rfl⟩
  decFrames_isSize := ⟨3, by decide, rfl⟩
  eight_dvd := by decide
  size_ge := by decide
  size_le := by decide
  length_decode := lib.length_decode

def msbc {σ : Type} (lib : SbcDecode σ 120) : Conf σ where
  kind := .sbc
  micAdpcmFrameSize := 57
  micShortDecSize := 120
  micFrames := 8
  decFrames := 8
  decode := lib.decode
  silence := false
  micFrames_isSize := ⟨3, by decide, rfl⟩
  decFrames_isSize := ⟨3, by decide, rfl⟩
  eight_dvd := by decide
  size_ge := by decide
  size_le := by decide
  length_decode := lib.length_decode

/-- The dongle after its start-up, both rings empty at the frame `c`. -/
def Dongle.ready {σ : Type} (C : Conf σ) (codec : σ) (c : U8) : Dongle σ where
  abufMicWptr := c
  abufDecWptr := c
  abufDecRptr := BitVec.ofNat 16 (c.toNat * C.micShortDecSize)
  abufMic _ := 0#8
  abufDec _ := 0#16
  abufReset := 0
  start := true
  bufferEmpty := true
  nUsbIso := 0#8
  codec := codec
  ep7 := []
  received := []
  taken := 0
  passed := []
  decoded := []
  sent := []
  unread _ := false
  lost := []

theorem met_ready {σ : Type} (C : Conf σ) (codec : σ) (c : U8) : Met C (.ready C codec c) :=
  met_resync C (.ready C codec c)

/-- `n` frames received and decoded, and `k` packets. -/
def frames (n k : Nat) : List Op :=
  [.add fun _ => 0#8, .add fun _ => 0#8, .dec] ++
    (List.replicate (n - 2) [Op.add fun _ => 0#8, .dec]).flatten ++ [.dec] ++
      List.replicate k (.usb false)

/-- An SBC decoder that hears nothing. -/
def deaf (len : Nat) : SbcDecode Unit len where
  decode _ _ := (List.replicate len 0#16, ())
  length_decode _ _ := List.length_replicate

end TelinkB91.Audio.Abuf
