import TelinkB91.Audio.Adpcm
import TelinkB91.Lib.Runs

/-!
# Audio — the decoder follows the encoder

What the two sides share is a stream of 4-bit codes.  The encoder's word register and the
decoder's byte reader are two ways of carrying it, and a code moves the prediction and the index
the same way on both sides.

* `decode_encode`: the code of a sample takes the decoder from the encoder's state before the
  sample to its state after it.
* `nibbles_encLoop`: the words the encoder writes carry its codes, in order.
* `decLoop_spec`: the decoder runs over the nibbles in memory.
* `packets_decode`: every packet of a session decodes, by itself, to what the encoder
  reconstructed.
-/

namespace TelinkB91.Audio
open Nibbles Runs

/-! ### One code -/

/-- The state after a code of four bits. -/
def decodeNibble (s : State) (c : Nibble) : State := decodeSample s (c.setWidth 8)

/-- Only the low nibble of the code byte counts. -/
theorem decodeSample_low (s : State) (x : U8) : decodeSample s x = decodeNibble s (low x) := by
  have hlow : (low x).setWidth 8 = x &&& 15#8 := by revert x; decide
  have hand : ∀ k : U8, 15#8 &&& k = k → (x &&& 15#8) &&& k = x &&& k := fun k hk => by
    rw [BitVec.and_assoc, hk]
  simp only [decodeNibble, hlow, decodeSample, hand 4#8 rfl, hand 2#8 rfl, hand 1#8 rfl,
    hand 8#8 rfl, hand 15#8 rfl]

/-- The bit `n` of a code, when it is set. -/
def bit (b : Bool) (n : U16) : U16 := if b then n else 0#16

/-- The change a set bit of a code stands for. -/
def part (b : Bool) (n : Int) : Int := if b then n else 0

theorem Quant.round_bits (q : Quant) (j : U16) : ∃ b : Bool, (q.round j).code = q.code + bit b j ∧
    (q.round j).diffq = q.diffq + part b q.step ∧ (q.round j).step = q.step >>> (1 : Nat) := by
  by_cases h : q.diff ≥ q.step
  · exact ⟨true, by simp [Quant.round, h, bit, part]⟩
  · exact ⟨false, by simp [Quant.round, h, bit, part]⟩

/-- A code is a sign and three bits, and they say what change it stands for. -/
theorem quantize_bits (s : State) (di : S16) : ∃ sign b₂ b₁ b₀ : Bool,
    (quantize s di).code = bit sign 8#16 + bit b₂ 4#16 + bit b₁ 2#16 + bit b₀ 1#16 ∧
      (quantize s di).diffq = s.step >>> (3 : Nat) + part b₂ s.step +
        part b₁ (s.step >>> (1 : Nat)) + part b₀ (s.step >>> (1 : Nat) >>> (1 : Nat)) := by
  obtain ⟨sign, q, hcode, hdiffq, hstep, hq⟩ : ∃ (sign : Bool) (q : Quant),
      q.code = bit sign 8#16 ∧ q.diffq = s.step >>> (3 : Nat) ∧ q.step = s.step ∧
        quantize s di = ((q.round 4#16).round 2#16).round 1#16 := by
    by_cases h : di.toInt - s.predict ≥ 0
    · refine ⟨false, ⟨di.toInt - s.predict, s.step, s.step >>> (3 : Nat), 0#16⟩, rfl, rfl, rfl, ?_⟩
      simp only [quantize, if_pos h, List.foldl_cons, List.foldl_nil]
    · refine ⟨true, ⟨-(di.toInt - s.predict), s.step, s.step >>> (3 : Nat), 8#16⟩, rfl, rfl, rfl,
        ?_⟩
      simp only [quantize, if_neg h, List.foldl_cons, List.foldl_nil]
  obtain ⟨b₂, hc₂, hd₂, hs₂⟩ := q.round_bits 4#16
  obtain ⟨b₁, hc₁, hd₁, hs₁⟩ := (q.round 4#16).round_bits 2#16
  obtain ⟨b₀, hc₀, hd₀, -⟩ := ((q.round 4#16).round 2#16).round_bits 1#16
  refine ⟨sign, b₂, b₁, b₀, ?_, ?_⟩
  · rw [hq, hc₀, hc₁, hc₂, hcode]
  · rw [hq, hd₀, hd₁, hd₂, hdiffq, hs₁, hs₂, hstep]

/-- The state of the encoder after a sample. -/
def encodeState (s : State) (di : S16) : State := (encodeSample s di).2

/-- The code of a sample. -/
def encodeCode (s : State) (di : S16) : Nibble := (encodeSample s di).1.setWidth 4

/-- **One sample.**  Its code takes the decoder where the encoder goes. -/
theorem decode_encode (s : State) (di : S16) :
    decodeNibble s (encodeCode s di) = encodeState s di := by
  obtain ⟨sign, b₂, b₁, b₀, hcode, hdiffq⟩ := quantize_bits s di
  simp only [decodeNibble, encodeCode, encodeState, encodeSample, hcode, hdiffq]
  -- sixteen codes
  cases sign <;> cases b₂ <;> cases b₁ <;> cases b₀ <;>
    simp [decodeSample, bit, part, State.adapt]

/-! ### A stream of codes -/

/-- The codes of the samples `ps`. -/
def codes : State → List S16 → List Nibble
  | _, [] => []
  | s, di :: ps => encodeCode s di :: codes (encodeState s di) ps

theorem length_codes (s : State) (ps : List S16) : (codes s ps).length = ps.length := by
  induction ps generalizing s with
  | nil => rfl
  | cons di ps ih => rw [codes, List.length_cons, ih, List.length_cons]

/-- Over the codes of a block the decoder goes through the encoder's states. -/
theorem visited_codes (s : State) (ps : List S16) :
    visited decodeNibble s (codes s ps) = visited encodeState s ps := by
  induction ps generalizing s with
  | nil => rfl
  | cons di ps ih => rw [codes, visited, visited, decode_encode, ih]

theorem runFrom_codes (s : State) (ps : List S16) :
    runFrom decodeNibble s (codes s ps) = runFrom encodeState s ps := by
  induction ps generalizing s with
  | nil => rfl
  | cons di ps ih => rw [codes, runFrom_cons, runFrom_cons, decode_encode, ih]

/-! ### The encoder's words -/

/-- Four samples from a multiple of four on: one word, which holds their codes. -/
theorem encLoop_four (emit : U16 → U16) {i : Nat} (hi : i % 4 = 0) (l : EncLoop)
    (p₀ p₁ p₂ p₃ : S16) (ps : List S16) :
    ∃ w : U16, nibbles (bytes w) = codes l.st [p₀, p₁, p₂, p₃] ∧
      encLoop emit i l (p₀ :: p₁ :: p₂ :: p₃ :: ps) = encLoop emit (i + 4)
        ⟨runFrom encodeState l.st [p₀, p₁, p₂, p₃], emit w, l.pd ++ [emit w]⟩ ps := by
  have h₀ : ¬ i % 4 = 3 := by omega
  have h₁ : ¬ (i + 1) % 4 = 3 := by omega
  have h₂ : ¬ (i + 2) % 4 = 3 := by omega
  have h₃ : (i + 3) % 4 = 3 := by omega
  let s₁ := encodeState l.st p₀
  let s₂ := encodeState s₁ p₁
  let s₃ := encodeState s₂ p₂
  refine ⟨shiftIn (shiftIn (shiftIn (shiftIn l.code16 (encodeSample l.st p₀).1)
    (encodeSample s₁ p₁).1) (encodeSample s₂ p₂).1) (encodeSample s₃ p₃).1, ?_, ?_⟩
  · rw [nibbles_shiftIn, codes, codes, codes, codes, codes]
    rfl
  · simp only [encLoop, encRound, if_neg h₀, if_neg h₁, if_neg h₂, if_pos h₃]
    rfl

theorem encLoop_st (emit : U16 → U16) (i : Nat) (l : EncLoop) (ps : List S16) :
    (encLoop emit i l ps).st = runFrom encodeState l.st ps := by
  induction ps generalizing i l with
  | nil => rfl
  | cons di ps ih =>
      have hround : (encRound emit l i di).st = encodeState l.st di := by
        simp only [encRound]
        split
        · rfl
        · rfl
      rw [encLoop, ih, hround, runFrom_cons]

/-- **The encoder's words.**  The bytes of a block, as the decoder fetches them, hold its codes. -/
theorem nibbles_encLoop {emit : U16 → U16} {fetch : U8 → U8}
    (hfetch : ∀ w, (bytes (emit w)).map fetch = bytes w) {i : Nat} (hi : i % 4 = 0) (l : EncLoop)
    (ps : List S16) (hps : ps.length % 4 = 0) :
    ∃ ws, (encLoop emit i l ps).pd = l.pd ++ ws ∧
      nibbles ((bytesOf ws).map fetch) = codes l.st ps := by
  match ps, hps with
  | [], _ => exact ⟨[], (List.append_nil _).symm, rfl⟩
  | p₀ :: p₁ :: p₂ :: p₃ :: ps, hps =>
      obtain ⟨w, hw, hloop⟩ := encLoop_four emit hi l p₀ p₁ p₂ p₃ ps
      obtain ⟨ws, hpd, hws⟩ := nibbles_encLoop hfetch (i := i + 4) (by omega)
        ⟨runFrom encodeState l.st [p₀, p₁, p₂, p₃], emit w, l.pd ++ [emit w]⟩ ps
        (by simp only [List.length_cons] at hps; omega)
      rw [hloop]
      refine ⟨emit w :: ws, hpd.trans (List.append_assoc _ _ _), ?_⟩
      rw [bytesOf_cons, List.map_append, hfetch, nibbles_append, hw, hws]
      rfl

/-! ### The decoder's bytes -/

/-- The decoder's code, after `i` rounds over the bytes `bs`, is the byte `i / 2` of them, shifted
at odd rounds. -/
def codeAt (fetch : U8 → U8) (m : Memory) (base i : Nat) : U8 :=
  if i % 2 = 0 then fetch (m (base + i / 2)) else fetch (m (base + i / 2)) >>> 4

theorem decLoop_succ (fetch : U8 → U8) (m : Memory) (st : State) (pcode n : Nat) :
    decLoop fetch m st pcode (n + 1) = decRound fetch m (decLoop fetch m st pcode n) n := by
  rw [decLoop, List.range_succ, List.foldl_append, List.foldl_cons, List.foldl_nil, decLoop]

/-- **The decoder's loop.**  Over bytes in memory it goes through the states that their nibbles
give, and writes the prediction of each. -/
theorem decLoop_spec {fetch : U8 → U8} {m : Memory} {base : Nat} {cs : List Nibble}
    (hcs : ∀ i (hi : i < cs.length), cs[i] = low (codeAt fetch m base i)) (s : State) :
    ∀ n ≤ cs.length, decLoop fetch m s base n =
      ⟨codeAt fetch m base n, base + n / 2 + 1, runFrom decodeNibble s (cs.take n),
        (visited decodeNibble s (cs.take n)).map fun t => BitVec.ofInt 16 t.predict⟩ := by
  intro n hn
  induction n with
  | zero => rfl
  | succ n ih =>
      have htake : cs.take (n + 1) = cs.take n ++ [cs[n]] := by simp
      have hstep : decodeSample (runFrom decodeNibble s (cs.take n)) (codeAt fetch m base n) =
          decodeNibble (runFrom decodeNibble s (cs.take n)) cs[n] := by
        rw [decodeSample_low, hcs n hn]
      rw [decLoop_succ, ih (by omega), htake, runFrom_append, visited_append, List.map_append]
      simp only [decRound, hstep]
      rcases Nat.mod_two_eq_zero_or_one n with h | h
      · have h' : ¬ (n + 1) % 2 = 0 := by omega
        have hdiv : (n + 1) / 2 = n / 2 := by omega
        simp [codeAt, h, h', hdiv, visited]
      · have h' : (n + 1) % 2 = 0 := by omega
        have hdiv : (n + 1) / 2 = n / 2 + 1 := by omega
        simp [codeAt, h, h', hdiv, visited, Nat.add_assoc]

/-! ### The header -/

/-- The states the code can be in. -/
structure State.InRange (s : State) : Prop where
  predict : -32768 ≤ s.predict ∧ s.predict ≤ 32767
  predictIdx : 0 ≤ s.predictIdx ∧ s.predictIdx ≤ 88

theorem State.adapt_inRange (s : State) (down : Prop) [Decidable down] (diffq : Int) (code : Nat) :
    (s.adapt down diffq code).InRange := by
  refine ⟨?_, ?_⟩
  · simp only [State.adapt, clampPredict]; omega
  · simp only [State.adapt, clampPredictIdx]; omega

theorem encodeState_inRange (s : State) (di : S16) : (encodeState s di).InRange :=
  State.adapt_inRange ..

theorem runFrom_inRange {s : State} (h : s.InRange) (ps : List S16) :
    (runFrom encodeState s ps).InRange :=
  Runs.invariant (fun s di _ => encodeState_inRange s di) h ps

/-- A prediction goes through 16 bits. -/
theorem toInt_predict {s : State} (h : s.InRange) :
    (BitVec.ofInt 16 s.predict).toInt = s.predict := by
  obtain ⟨⟨h₁, h₂⟩, -⟩ := h
  rw [BitVec.toInt_ofInt, Int.bmod_eq_of_le] <;> omega

/-- The predictions of a block, as the decoder writes them and the caller reads them. -/
theorem toInt_visited {s : State} (ps : List S16) :
    ((visited encodeState s ps).map fun t => BitVec.ofInt 16 t.predict).map BitVec.toInt =
      (visited encodeState s ps).map State.predict := by
  induction ps generalizing s with
  | nil => rfl
  | cons di ps ih =>
      simp only [visited, List.map_cons, toInt_predict (encodeState_inRange s di), ih]

/-! ### One packet -/

/-- The decoder finds the nibbles of a packet's body behind its header. -/
theorem nibbles_received (fetch : U8 → U8) (header body : List U8) (beyond : Memory) (i : Nat)
    (hi : i < (nibbles (body.map fetch)).length) : (nibbles (body.map fetch))[i] =
      low (codeAt fetch (received (header ++ body) beyond) header.length i) := by
  have hbody : i / 2 < body.length := by
    rw [length_nibbles, List.length_map] at hi
    omega
  have hreceived : received (header ++ body) beyond (header.length + i / 2) = body[i / 2] := by
    simp [received, hbody]
  have hnibble := nibbles_getElem? (body.map fetch) i
  rw [List.getElem?_eq_getElem hi, List.getElem?_map, List.getElem?_eq_getElem hbody,
    Option.map_some, Option.map_some, Option.some.injEq] at hnibble
  rw [hnibble, codeAt, hreceived]
  split
  · rfl
  · rfl

/-- **The body of a packet.**  Read back from the encoder's state, it gives the encoder's
states. -/
theorem body_decodes {emit : U16 → U16} {fetch : U8 → U8}
    (hfetch : ∀ w, (bytes (emit w)).map fetch = bytes w) (header : List U8) (beyond : Memory)
    (s : State) {ps : List S16} (hps : ps.length % 4 = 0) :
    let body := bytesOf (encLoop emit 0 ⟨s, 0#16, []⟩ ps).pd
    let l := decLoop fetch (received (header ++ body) beyond) s header.length ps.length
    l.pd.map BitVec.toInt = (visited encodeState s ps).map State.predict ∧
      l.st = (encLoop emit 0 ⟨s, 0#16, []⟩ ps).st := by
  intro body l
  obtain ⟨ws, hws, hcodes⟩ := nibbles_encLoop hfetch (Nat.zero_mod 4) ⟨s, 0#16, []⟩ ps hps
  have hbody : nibbles (body.map fetch) = codes s ps := by
    rw [show body = bytesOf ws from congrArg bytesOf hws, hcodes]
  have hlen : ps.length = (nibbles (body.map fetch)).length := by rw [hbody, length_codes]
  have hl : l = _ := decLoop_spec (nibbles_received fetch header body beyond) s ps.length hlen.le
  rw [hl, encLoop_st, hlen, List.take_length, hbody, visited_codes, runFrom_codes]
  exact ⟨toInt_visited ps, rfl⟩

/-- What the Telink variant writes in front of a block. -/
def headerTelink (s : State) : List U8 :=
  bytes (BitVec.ofInt 16 s.predict) ++
    [BitVec.ofInt 8 s.predictIdx, BitVec.ofNat 8 (adpcmPacketLen - 4)]

/-- What the Google variant writes in front of a block. -/
def headerGoogle (g : Statics) : List U8 := bytesOf
  [(g.adpcmSerialNum >>> 8 &&& 0x00FF#16) ||| (g.adpcmSerialNum <<< 8 &&& 0xFF00#16),
    adpcmAndroidId ||| (BitVec.ofInt 16 g.st.predict &&& 0xFF00#16),
    (BitVec.ofInt 16 g.st.predict &&& 0x00FF#16) |||
      (BitVec.ofInt 16 g.st.predictIdx <<< 8 &&& 0xFF00#16)]

theorem headerTelink_word_zero (s : State) (body : List U8) (beyond : Memory) :
    (received (headerTelink s ++ body) beyond).word 0 = BitVec.ofInt 16 s.predict :=
  append_bytes _

theorem headerTelink_word_one {s : State} (h : s.InRange) (body : List U8) (beyond : Memory) :
    (((received (headerTelink s ++ body) beyond).word 1 &&& 0xFF#16).toNat : Int) =
      s.predictIdx := by
  obtain ⟨-, h₁, h₂⟩ := h
  have hword : (received (headerTelink s ++ body) beyond).word 1 =
    BitVec.ofNat 8 (adpcmPacketLen - 4) ++ BitVec.ofInt 8 s.predictIdx := rfl
  rw [hword, append_and_low, BitVec.toNat_setWidth, BitVec.toNat_ofInt]
  omega

theorem telink_decodes {g : Statics} (hg : g.st.InRange) (beyond : Memory) {ps : List S16}
    (hps : ps.length % 4 = 0) :
    let r := adpcmToPcmTelink (received (micToAdpcmSplitTelink g ps true).2 beyond) ps.length
    r.1.map BitVec.toInt = (visited encodeState g.st ps).map State.predict ∧
      r.2 = (micToAdpcmSplitTelink g ps true).1.st := by
  intro r
  have hpacket : (micToAdpcmSplitTelink g ps true).2 =
    headerTelink g.st ++ bytesOf (encLoop id 0 ⟨g.st, 0#16, []⟩ ps).pd := rfl
  have hfetch : ∀ w, (bytes (id w)).map id = bytes w := fun w => List.map_id _
  have hread := body_decodes hfetch (headerTelink g.st) beyond g.st hps
  simp only [r, adpcmToPcmTelink, hpacket, headerTelink_word_zero, headerTelink_word_one hg,
    toInt_predict hg]
  exact hread

/-- The Google header spreads the prediction over two words. -/
theorem headerGoogle_predict (p i : U16) :
    ((adpcmAndroidId ||| (p &&& 0xFF00#16)) &&& 0xFF00#16) |||
      (((p &&& 0x00FF#16) ||| (i <<< 8 &&& 0xFF00#16)) &&& 0x00FF#16) = p := by
  refine BitVec.eq_of_getLsbD_eq ?_
  intro k hk
  simp only [adpcmAndroidId, BitVec.getLsbD_or, BitVec.getLsbD_and, BitVec.getLsbD_shiftLeft]
  interval_cases k <;> simp

theorem headerGoogle_predictIdx (p i : U16) :
    ((((p &&& 0x00FF#16) ||| (i <<< 8 &&& 0xFF00#16)) &&& 0xFF00#16) >>> 8).setWidth 8 =
      i.setWidth 8 := by
  refine BitVec.eq_of_getLsbD_eq ?_
  intro k hk
  simp only [BitVec.getLsbD_or, BitVec.getLsbD_and, BitVec.getLsbD_shiftLeft,
    BitVec.getLsbD_setWidth, BitVec.getLsbD_ushiftRight]
  interval_cases k <;> simp

theorem toInt_predictIdx {s : State} (h : s.InRange) :
    ((BitVec.ofInt 16 s.predictIdx).setWidth 8).toInt = s.predictIdx := by
  obtain ⟨-, h₁, h₂⟩ := h
  have hbyte : (BitVec.ofInt 16 s.predictIdx).setWidth 8 = BitVec.ofInt 8 s.predictIdx := by
    refine BitVec.eq_of_toNat_eq ?_
    rw [BitVec.toNat_setWidth, BitVec.toNat_ofInt, BitVec.toNat_ofInt]
    omega
  rw [hbyte, BitVec.toInt_ofInt, Int.bmod_eq_of_le] <;> omega

theorem google_decodes {g : Statics} (hg : g.st.InRange) (beyond : Memory) {ps : List S16}
    (hps : ps.length % 4 = 0) :
    let r := adpcmToPcmGoogle (received (micToAdpcmSplitGoogle g ps true).2 beyond) ps.length
    r.1.map BitVec.toInt = (visited encodeState g.st ps).map State.predict ∧
      r.2 = (micToAdpcmSplitGoogle g ps true).1.st := by
  intro r
  have hpacket : (micToAdpcmSplitGoogle g ps true).2 =
    headerGoogle g ++ bytesOf (encLoop swapWord 0 ⟨g.st, 0#16, []⟩ ps).pd := rfl
  have hword₁ (m : List U8) : (received (headerGoogle g ++ m) beyond).word 1 =
    adpcmAndroidId ||| (BitVec.ofInt 16 g.st.predict &&& 0xFF00#16) := append_bytes _
  have hword₂ (m : List U8) : (received (headerGoogle g ++ m) beyond).word 2 =
    (BitVec.ofInt 16 g.st.predict &&& 0x00FF#16) |||
      (BitVec.ofInt 16 g.st.predictIdx <<< 8 &&& 0xFF00#16) := append_bytes _
  have hread := body_decodes map_swap_swapWord (headerGoogle g) beyond g.st hps
  simp only [r, adpcmToPcmGoogle, hpacket, hword₁, hword₂, headerGoogle_predict,
    headerGoogle_predictIdx, toInt_predict hg, toInt_predictIdx hg]
  exact hread

/-! ### A session -/

/-- A block the encoder was called with, its state before and after, and the packet it wrote. -/
structure Sent where
  before : State
  samples : List S16
  packet : List U8
  after : State

/-- The calls for the blocks `blocks`, each of which starts a packet. -/
def session (v : Variant) : Statics → List (List S16) → List Sent
  | _, [] => []
  | g, ps :: blocks =>
      let (g', packet) := micToAdpcmSplit v g ps true
      ⟨g.st, ps, packet, g'.st⟩ :: session v g' blocks

/-- The predictions after each sample of the block, and the state at its end. -/
def Sent.reconstruction (x : Sent) : List Int × State :=
  ((visited encodeState x.before x.samples).map State.predict, x.after)

/-- What the decoder makes of the packet. -/
def Sent.decoded (v : Variant) (beyond : Memory) (x : Sent) : List Int × State :=
  let (pd, st) := adpcmToPcm v (received x.packet beyond) x.samples.length
  (pd.map BitVec.toInt, st)

/-- The blocks the callers pass. -/
def Block (v : Variant) (ps : List S16) : Prop := ps.length % 4 = 0 ∧ ps.length ≤ v.unitSize

/-- The decoder reads what the encoder wrote. -/
theorem packet_decodes (v : Variant) {g : Statics} (hg : g.st.InRange) (beyond : Memory)
    {ps : List S16} (hps : ps.length % 4 = 0) :
    let r := adpcmToPcm v (received (micToAdpcmSplit v g ps true).2 beyond) ps.length
    r.1.map BitVec.toInt = (visited encodeState g.st ps).map State.predict ∧
      r.2 = (micToAdpcmSplit v g ps true).1.st := by
  cases v with
  | telink => exact telink_decodes hg beyond hps
  | google => exact google_decodes hg beyond hps

/-- The encoder keeps its state in range. -/
theorem micToAdpcmSplit_inRange (v : Variant) {g : Statics} (hg : g.st.InRange) (ps : List S16)
    (start : Bool) : (micToAdpcmSplit v g ps start).1.st.InRange := by
  have hst : (micToAdpcmSplit v g ps start).1.st = runFrom encodeState g.st ps := by
    cases v with
    | telink => exact encLoop_st id 0 ⟨g.st, 0#16, []⟩ ps
    | google => exact encLoop_st swapWord 0 ⟨g.st, 0#16, []⟩ ps
  rw [hst]
  exact runFrom_inRange hg ps

theorem session_decodes (v : Variant) {g : Statics} (hg : g.st.InRange)
    {blocks : List (List S16)} (hblocks : ∀ ps ∈ blocks, Block v ps) (beyond : Memory) :
    ∀ x ∈ session v g blocks, x.decoded v beyond = x.reconstruction := by
  induction blocks generalizing g with
  | nil => exact fun x hx => absurd hx List.not_mem_nil
  | cons ps blocks ih =>
      obtain ⟨hps, hblocks⟩ := List.forall_mem_cons.mp hblocks
      intro x hx
      rcases List.mem_cons.mp hx with rfl | hx
      · obtain ⟨hpredict, hst⟩ := packet_decodes v hg beyond hps.1
        exact Prod.ext hpredict hst
      · exact ih (micToAdpcmSplit_inRange v hg ps true) hblocks x hx

/-- **Agreement.**  Whichever packets of a session arrive, and whatever lies behind each of them
in memory, every one decodes to what the encoder reconstructed: its prediction after each
sample, and its state at the end of the block. -/
theorem packets_decode (v : Variant) {g : Statics} (hg : g.st.InRange)
    {blocks : List (List S16)} (hblocks : ∀ ps ∈ blocks, Block v ps) {arrived : List Sent}
    (harrived : arrived.Sublist (session v g blocks)) (beyond : Sent → Memory) :
    arrived.map (fun x => x.decoded v (beyond x)) = arrived.map Sent.reconstruction :=
  List.map_congr_left fun x hx =>
    session_decodes v hg hblocks (beyond x) x (harrived.subset hx)

/-- Two blocks, the packet of the first lost. -/
theorem packets_decode_lost :
    let blocks : List (List S16) := [[100#16, 200#16, 300#16, 400#16], [0#16, 7#16, 14#16, 21#16]]
    let arrived := (session .google ⟨⟨0, 1⟩, 0#16⟩ blocks).drop 1
    arrived.map (fun x => x.decoded .google fun _ => 0#8) = [([-16, 22, -12, 19], ⟨19, 36⟩)] :=
  (packets_decode .google ⟨by decide, by decide⟩
    (by simp only [Block, Variant.unitSize]; decide) (List.drop_sublist _ _) _).trans
      (by decide +kernel)

end TelinkB91.Audio
