import TelinkB91.Lib.Nibbles

/-!
# Audio — the ADPCM codec of `adpcm.c`

A remote control codes 16-bit samples into four bits each and sends them in packets; a dongle
decodes them.  Both keep a prediction and an index into a table of step sizes, and every packet
starts with the encoder's, so that it can be decoded by itself.  The code is compiled in one of
several variants; this is the two that use a GATT service.

* `mic_to_adpcm_split` codes a block of samples and packs the codes through a 16-bit word.
* `adpcm_to_pcm` reads the codes back byte by byte.

The Google variant sends the header bytes in the other order, with a serial number, and exchanges
the nibbles of every byte.

A packet is the list of bytes written through `pds`; the decoder reads memory, by address from
`ps`, and reads one byte past the last code.  `int` is `Int`: no value leaves its range.
-/

namespace TelinkB91.Audio
open Nibbles

abbrev U8 := BitVec 8

abbrev U16 := BitVec 16

/-- A sample; its value is `toInt`. -/
abbrev S16 := BitVec 16

def idxtbl : List Int := [-1, -1, -1, -1, 2, 4, 6, 8, -1, -1, -1, -1, 2, 4, 6, 8]

def steptbl : List Int := [
  7, 8, 9, 10, 11, 12, 13, 14, 16, 17,
  19, 21, 23, 25, 28, 31, 34, 37, 41, 45,
  50, 55, 60, 66, 73, 80, 88, 97, 107, 118,
  130, 143, 157, 173, 190, 209, 230, 253, 279, 307,
  337, 371, 408, 449, 494, 544, 598, 658, 724, 796,
  876, 963, 1060, 1166, 1282, 1411, 1552, 1707, 1878, 2066,
  2272, 2499, 2749, 3024, 3327, 3660, 4026, 4428, 4871, 5358,
  5894, 6484, 7132, 7845, 8630, 9493, 10442, 11487, 12635, 13899,
  15289, 16818, 18500, 20350, 22385, 24623, 27086, 29794, 32767]

/-- `predict` and `predict_idx`. -/
structure State where
  predict : Int
  predictIdx : Int
  deriving DecidableEq, Repr

/-- `steptbl[predict_idx]`. -/
def State.step (s : State) : Int := steptbl[s.predictIdx.toNat]?.getD 0

/-- The clamping of `predict`. -/
def clampPredict (p : Int) : Int := if p > 32767 then 32767 else if p < -32768 then -32768 else p

/-- The clamping of `predict_idx`. -/
def clampPredictIdx (i : Int) : Int := if i < 0 then 0 else if i > 88 then 88 else i

/-- The end of both loops: `predict` moves by `diffq`, `predict_idx` by the entry of the code. -/
def State.adapt (s : State) (down : Prop) [Decidable down] (diffq : Int) (code : Nat) : State where
  predict := clampPredict (if down then s.predict - diffq else s.predict + diffq)
  predictIdx := clampPredictIdx (s.predictIdx + idxtbl[code]?.getD 0)

/-! ### The encoder -/

/-- The variables of the quantizing loop. -/
structure Quant where
  diff : Int
  step : Int
  diffq : Int
  code : U16

/-- The body of `for (j=4; j>0; j=j>>1)`. -/
def Quant.round (q : Quant) (j : U16) : Quant :=
  let q := if q.diff ≥ q.step then
      { q with diff := q.diff - q.step, diffq := q.diffq + q.step, code := q.code + j }
    else q
  { q with step := q.step >>> (1 : Nat) }

/-- The code of a sample, and the change it stands for. -/
def quantize (s : State) (di : S16) : Quant :=
  let diff := di.toInt - s.predict
  let q : Quant :=
    if diff ≥ 0 then ⟨diff, s.step, s.step >>> (3 : Nat), 0#16⟩
    else ⟨-diff, s.step, s.step >>> (3 : Nat), 8#16⟩
  [4#16, 2#16, 1#16].foldl Quant.round q

/-- One sample: its code, and the state after it. -/
def encodeSample (s : State) (di : S16) : U16 × State :=
  let q := quantize s di
  (q.code, s.adapt (q.code ≥ 8#16) q.diffq q.code.toNat)

/-- The variables of the loop over the samples, and the words written through `pd`. -/
structure EncLoop where
  st : State
  code16 : U16
  pd : List U16

/-- The body of the loop.  `emit` is what the variant does to a full word. -/
def encRound (emit : U16 → U16) (l : EncLoop) (i : Nat) (di : S16) : EncLoop :=
  let (code, st) := encodeSample l.st di
  let code16 := shiftIn l.code16 code
  if i % 4 = 3 then ⟨st, emit code16, l.pd ++ [emit code16]⟩ else ⟨st, code16, l.pd⟩

/-- The loop over the samples `ps`, the first of which has index `i`. -/
def encLoop (emit : U16 → U16) : Nat → EncLoop → List S16 → EncLoop
  | _, l, [] => l
  | i, l, di :: ps => encLoop emit (i + 1) (encRound emit l i di) ps

/-- What the encoder keeps from call to call.  The Telink variant has no `adpcm_serial_num`. -/
structure Statics where
  st : State
  adpcmSerialNum : U16
  deriving DecidableEq, Repr

/-- `ADPCM_PACKET_LEN` of the Telink variant. -/
def adpcmPacketLen : Nat := 128

/-- `mic_to_adpcm_split` of the Telink variant, with the bytes it writes. -/
def micToAdpcmSplitTelink (g : Statics) (ps : List S16) (start : Bool) : Statics × List U8 :=
  let header := if start then
      bytes (BitVec.ofInt 16 g.st.predict) ++
        [BitVec.ofInt 8 g.st.predictIdx, BitVec.ofNat 8 (adpcmPacketLen - 4)]
    else []
  let l := encLoop id 0 ⟨g.st, 0#16, []⟩ ps
  ({ g with st := l.st }, header ++ bytesOf l.pd)

/-- `ADPCM_ANDROID_ID`. -/
def adpcmAndroidId : U16 := 0x00#16

/-- `mic_to_adpcm_split` of the Google variant, with the bytes it writes. -/
def micToAdpcmSplitGoogle (g : Statics) (ps : List S16) (start : Bool) : Statics × List U8 :=
  let predict := BitVec.ofInt 16 g.st.predict
  let predictIdx := BitVec.ofInt 16 g.st.predictIdx
  let header := if start then
      [(g.adpcmSerialNum >>> 8 &&& 0x00FF#16) ||| (g.adpcmSerialNum <<< 8 &&& 0xFF00#16),
        adpcmAndroidId ||| (predict &&& 0xFF00#16),
        (predict &&& 0x00FF#16) ||| (predictIdx <<< 8 &&& 0xFF00#16)]
    else []
  let l := encLoop swapWord 0 ⟨g.st, 0#16, []⟩ ps
  ({ st := l.st, adpcmSerialNum := if start then g.adpcmSerialNum + 1 else g.adpcmSerialNum },
    bytesOf header ++ bytesOf l.pd)

/-! ### The decoder -/

/-- The memory from `ps` on. -/
abbrev Memory := Nat → U8

/-- `ps[k]`. -/
def Memory.word (m : Memory) (k : Nat) : U16 := m (2 * k + 1) ++ m (2 * k)

/-- The state after one code, in the low nibble of `code`. -/
def decodeSample (s : State) (code : U8) : State :=
  let step := s.step
  let diffq := step >>> (3 : Nat)
  let diffq := if code &&& 4#8 ≠ 0#8 then diffq + step else diffq
  let step := step >>> (1 : Nat)
  let diffq := if code &&& 2#8 ≠ 0#8 then diffq + step else diffq
  let step := step >>> (1 : Nat)
  let diffq := if code &&& 1#8 ≠ 0#8 then diffq + step else diffq
  s.adapt (code &&& 8#8 ≠ 0#8) diffq (code &&& 15#8).toNat

/-- The variables of the decoder's loop, and the samples written through `pd`. -/
structure DecLoop where
  code : U8
  pcode : Nat
  st : State
  pd : List S16

/-- The body of the loop.  `fetch` is what the variant does to a byte it reads. -/
def decRound (fetch : U8 → U8) (m : Memory) (l : DecLoop) (i : Nat) : DecLoop :=
  let st := decodeSample l.st l.code
  if i % 2 = 1 then
    ⟨fetch (m l.pcode), l.pcode + 1, st, l.pd ++ [BitVec.ofInt 16 st.predict]⟩
  else ⟨l.code >>> 4, l.pcode, st, l.pd ++ [BitVec.ofInt 16 st.predict]⟩

/-- The loop over `len` codes, the first of which is in the byte at `pcode`. -/
def decLoop (fetch : U8 → U8) (m : Memory) (st : State) (pcode len : Nat) : DecLoop :=
  (List.range len).foldl (decRound fetch m) ⟨fetch (m pcode), pcode + 1, st, []⟩

/-- `adpcm_to_pcm` of the Telink variant: the samples, and the state at its end. -/
def adpcmToPcmTelink (m : Memory) (len : Nat) : List S16 × State :=
  let l := decLoop id m ⟨(m.word 0).toInt, (m.word 1 &&& 0xFF#16).toNat⟩ 4 len
  (l.pd, l.st)

/-- `adpcm_to_pcm` of the Google variant: the samples, and the state at its end. -/
def adpcmToPcmGoogle (m : Memory) (len : Nat) : List S16 × State :=
  let predict := (m.word 1 &&& 0xFF00#16) ||| (m.word 2 &&& 0x00FF#16)
  let predictIdx : U8 := ((m.word 2 &&& 0xFF00#16) >>> 8).setWidth 8
  let l := decLoop swap m ⟨predict.toInt, predictIdx.toInt⟩ 6 len
  (l.pd, l.st)

/-! ### The variants -/

/-- The two variants for a GATT service. -/
inductive Variant where
  | telink
  | google
  deriving DecidableEq, Repr

/-- `TL_MIC_ADPCM_UNIT_SIZE`. -/
def Variant.unitSize : Variant → Nat
  | telink => 248
  | google => 256

/-- `mic_to_adpcm_split`. -/
def micToAdpcmSplit : Variant → Statics → List S16 → Bool → Statics × List U8
  | .telink => micToAdpcmSplitTelink
  | .google => micToAdpcmSplitGoogle

/-- `adpcm_to_pcm`. -/
def adpcmToPcm : Variant → Memory → Nat → List S16 × State
  | .telink => adpcmToPcmTelink
  | .google => adpcmToPcmGoogle

/-- A packet in memory, followed by `beyond`. -/
def received (packet : List U8) (beyond : Memory) : Memory := fun k =>
  packet[k]?.getD (beyond (k - packet.length))

end TelinkB91.Audio
