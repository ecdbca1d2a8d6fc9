import TelinkB91.Audio.Agreement

/-!
# Audio — lock-step of the HID variant

The variant for the HID service sends its codes without a header.  `predict` and `predict_idx` are
globals of both sides, cleared once, by `audio_mic_param_init` on the remote control and by
`abuf_init` on the dongle, and nothing brings them together again afterwards.

A `Link` is the two sides and the packets between them.  The remote control encodes and the dongle
decodes at any time; packets arrive in order, each of them once.

* `InStep`: the packets on their way are what the remote control wrote from the dongle's state on.
* `lock_step`: the dongle's samples are the encoder's predictions, and after each packet it holds
  the pair the encoder held after that packet.
-/

namespace TelinkB91.Audio.Hid
open Nibbles Runs

/-- `TL_MIC_ADPCM_UNIT_SIZE` of the HID variant; the dongle decodes as many samples. -/
def unitSize : Nat := 240

/-- `mic_to_adpcm_split` of the HID variant, from the globals, with the bytes it writes.  It reads
`idxtbl[code & 15]`, which is `idxtbl[code]`, as a code has four bits (`quantize_bits`). -/
def micToAdpcmSplit (st : State) (ps : List S16) : State × List U8 :=
  let l := encLoop swapWord 0 ⟨st, 0#16, []⟩ ps
  (l.st, bytesOf l.pd)

/-- `adpcm_to_pcm` of the HID variant, from the globals: the samples, and the globals at its end. -/
def adpcmToPcm (m : Memory) (st : State) (len : Nat) : List S16 × State :=
  let l := decLoop swap m st 0 len
  (l.pd, l.st)

/-- The globals of the remote control that `audio_mic_param_init` sets. -/
structure Rcu where
  st : State
  bufferMicPktWptr : U8
  bufferMicPktRptr : U8
  deriving DecidableEq, Repr

def audioMicParamInit (_ : Rcu) : Rcu where
  st := ⟨0, 0⟩
  bufferMicPktWptr := 0#8
  bufferMicPktRptr := 0#8

/-- The globals of the dongle that `abuf_init` sets. -/
structure Dongle where
  st : State
  abufMicWptr : U8
  abufDecWptr : U8
  abufReset : Int
  micCnt : U8
  deriving DecidableEq, Repr

def abufInit (_ : Dongle) : Dongle where
  st := ⟨0, 0⟩
  abufMicWptr := 0#8
  abufDecWptr := 0#8
  abufReset := 16
  micCnt := 0#8

/-- The two sides, the packets on their way, oldest first, and the samples the dongle wrote. -/
structure Link where
  rcu : Rcu
  air : List (List U8)
  dongle : Dongle
  pcm : List S16

/-- Both sides initialised, from whatever they held. -/
def Link.init (r : Rcu) (d : Dongle) : Link := ⟨audioMicParamInit r, [], abufInit d, []⟩

/-- The remote control encodes the samples `ps`, or the dongle decodes the next packet, which
`beyond` follows in its memory. -/
inductive Op where
  | encode (ps : List S16)
  | decode (beyond : Memory)

def Link.step (l : Link) : Op → Link
  | .encode ps =>
      let (st, packet) := micToAdpcmSplit l.rcu.st ps
      { l with
        rcu := { l.rcu with st := st, bufferMicPktWptr := l.rcu.bufferMicPktWptr + 1 }
        air := l.air ++ [packet] }
  | .decode beyond =>
      match l.air with
      | [] => l
      | packet :: air =>
          let (pd, st) := adpcmToPcm (received packet beyond) l.dongle.st unitSize
          { l with
            air := air
            dongle := { l.dongle with st := st, abufDecWptr := l.dongle.abufDecWptr + 1 }
            pcm := l.pcm ++ pd }

/-- The block an operation encodes. -/
def Op.block : Op → List (List S16)
  | .encode ps => [ps]
  | .decode _ => []

/-- The blocks encoded, in order. -/
def blocks (ops : List Op) : List (List S16) := ops.flatMap Op.block

/-- The encoder's pair after the blocks `sent`. -/
def stateAfter (sent : List (List S16)) : State :=
  sent.foldl (fun st ps => (micToAdpcmSplit st ps).1) ⟨0, 0⟩

/-- The encoder's `predict` after each sample of the blocks `sent`. -/
def predictStream (sent : List (List S16)) : List Int :=
  (visited encodeState ⟨0, 0⟩ sent.flatten).map State.predict

/-! ### One packet -/

theorem micToAdpcmSplit_st (st : State) (ps : List S16) :
    (micToAdpcmSplit st ps).1 = runFrom encodeState st ps :=
  encLoop_st swapWord 0 ⟨st, 0#16, []⟩ ps

/-- From the encoder's pair before a block, the dongle decodes its packet to the predictions, and
to the pair after it. -/
theorem packet_decodes (beyond : Memory) (st : State) {ps : List S16} (hps : ps.length = unitSize) :
    let r := adpcmToPcm (received (micToAdpcmSplit st ps).2 beyond) st unitSize
    r.1.map BitVec.toInt = (visited encodeState st ps).map State.predict ∧
      r.2 = (micToAdpcmSplit st ps).1 := by
  have hfour : ps.length % 4 = 0 := by rw [hps]; rfl
  have hread := body_decodes map_swap_swapWord [] beyond st hfour
  rw [hps] at hread
  exact hread

theorem stateAfter_eq (sent : List (List S16)) :
    stateAfter sent = runFrom encodeState ⟨0, 0⟩ sent.flatten := by
  suffices h : ∀ st, sent.foldl (fun st ps => (micToAdpcmSplit st ps).1) st =
      runFrom encodeState st sent.flatten from h _
  induction sent with
  | nil =>
      intro st
      rfl
  | cons ps sent ih =>
      intro st
      rw [List.foldl_cons, ih, micToAdpcmSplit_st, List.flatten_cons, runFrom_append]

theorem stateAfter_append (sent : List (List S16)) (ps : List S16) :
    stateAfter (sent ++ [ps]) = (micToAdpcmSplit (stateAfter sent) ps).1 :=
  List.foldl_append

theorem predictStream_append (sent : List (List S16)) (ps : List S16) :
    predictStream (sent ++ [ps]) =
      predictStream sent ++ (visited encodeState (stateAfter sent) ps).map State.predict := by
  rw [predictStream, List.flatten_append, List.flatten_singleton, visited_append, List.map_append,
    stateAfter_eq, predictStream]

/-! ### The link -/

/-- The packets the encoder writes for the blocks, from the pair `st` on. -/
def packets : State → List (List S16) → List (List U8)
  | _, [] => []
  | st, ps :: sent => (micToAdpcmSplit st ps).2 :: packets (micToAdpcmSplit st ps).1 sent

theorem length_packets (st : State) (sent : List (List S16)) :
    (packets st sent).length = sent.length := by
  induction sent generalizing st with
  | nil => rfl
  | cons ps sent ih => rw [packets, List.length_cons, ih, List.length_cons]

theorem packets_append (st : State) (sent : List (List S16)) (ps : List S16) :
    packets st (sent ++ [ps]) = packets st sent ++
      [(micToAdpcmSplit (sent.foldl (fun st ps => (micToAdpcmSplit st ps).1) st) ps).2] := by
  induction sent generalizing st with
  | nil => rfl
  | cons p sent ih => rw [List.cons_append, packets, ih, packets, List.cons_append, List.foldl_cons]

/-- The dongle has decoded the blocks `done` and is to decode `left`. -/
structure InStep (l : Link) (done left : List (List S16)) : Prop where
  rcu : l.rcu.st = stateAfter (done ++ left)
  air : l.air = packets (stateAfter done) left
  dongle : l.dongle.st = stateAfter done
  pcm : l.pcm.map BitVec.toInt = predictStream done
  unit : ∀ ps ∈ left, ps.length = unitSize

theorem InStep.encode {l : Link} {done left : List (List S16)} (h : InStep l done left)
    {ps : List S16} (hps : ps.length = unitSize) :
    InStep (l.step (.encode ps)) done (left ++ [ps]) where
  rcu := by
    rw [← List.append_assoc, stateAfter_append, ← h.rcu]
    rfl
  air := by
    have hlast : left.foldl (fun st ps => (micToAdpcmSplit st ps).1) (stateAfter done) =
      l.rcu.st := by rw [h.rcu, stateAfter, stateAfter, List.foldl_append]
    rw [packets_append, ← h.air, hlast]
    rfl
  dongle := h.dongle
  pcm := h.pcm
  unit := by
    intro q hq
    rcases List.mem_append.mp hq with hq | hq
    · exact h.unit q hq
    · rw [List.mem_singleton.mp hq, hps]

theorem InStep.decode {l : Link} {done left : List (List S16)} {ps : List S16}
    (h : InStep l done (ps :: left)) (beyond : Memory) :
    InStep (l.step (.decode beyond)) (done ++ [ps]) left := by
  obtain ⟨hrcu, hair, hdongle, hpcm, hunit⟩ := h
  obtain ⟨hps, hleft⟩ := List.forall_mem_cons.mp hunit
  obtain ⟨hpd, hst⟩ := packet_decodes beyond (stateAfter done) hps
  rw [packets] at hair
  rw [Link.step, hair, hdongle]
  refine ⟨?_, ?_, ?_, ?_, hleft⟩
  · rw [List.append_assoc]
    exact hrcu
  · rw [stateAfter_append]
  · rw [stateAfter_append]
    exact hst
  · rw [List.map_append, hpcm, predictStream_append, hpd]

/-- **One operation.**  It keeps the two sides in step, and the blocks in order. -/
theorem InStep.step {l : Link} {done left : List (List S16)} (h : InStep l done left) (op : Op)
    (hop : ∀ ps ∈ op.block, ps.length = unitSize) : ∃ done' left',
      InStep (l.step op) done' left' ∧ done' ++ left' = done ++ left ++ op.block := by
  cases op with
  | encode ps =>
      refine ⟨done, left ++ [ps], h.encode (hop ps (List.mem_singleton_self ps)), ?_⟩
      rw [Op.block, List.append_assoc]
  | decode beyond =>
      cases left with
      | nil =>
          -- nothing on its way: the dongle does not decode
          have hnil : l.step (.decode beyond) = l := by rw [Link.step, h.air]; rfl
          refine ⟨done, [], ?_, ?_⟩
          · rw [hnil]
            exact h
          · simp only [Op.block, List.append_nil]
      | cons ps left =>
          refine ⟨done ++ [ps], left, h.decode beyond, ?_⟩
          rw [Op.block, List.append_nil, List.append_assoc, List.singleton_append]

theorem InStep.run {l : Link} {done left : List (List S16)} (h : InStep l done left)
    {ops : List Op} (hops : ∀ ps ∈ blocks ops, ps.length = unitSize) : ∃ done' left',
      InStep (runFrom Link.step l ops) done' left' ∧
        done' ++ left' = done ++ left ++ blocks ops := by
  induction ops generalizing l done left with
  | nil => exact ⟨done, left, h, (List.append_nil _).symm⟩
  | cons op ops ih =>
      obtain ⟨hop, hrest⟩ := List.forall_mem_append.mp hops
      obtain ⟨done₁, left₁, h₁, heq₁⟩ := h.step op hop
      obtain ⟨done', left', h', heq'⟩ := ih h₁ hrest
      refine ⟨done', left', h', ?_⟩
      rw [heq', heq₁, List.append_assoc]
      rfl

theorem inStep_init (r : Rcu) (d : Dongle) : InStep (Link.init r d) [] [] where
  rcu := rfl
  air := rfl
  dongle := rfl
  pcm := rfl
  unit := by
    intro ps hps
    exact absurd hps List.not_mem_nil

/-- **Lock-step.**  However encoding and decoding interleave, the dongle has written the encoder's
predictions over the blocks whose packets have arrived, and it holds the pair the encoder held
after the last of them; once all have arrived the two pairs are equal. -/
theorem lock_step (r : Rcu) (d : Dongle) {ops : List Op}
    (hops : ∀ ps ∈ blocks ops, ps.length = unitSize) :
    let l := runFrom Link.step (Link.init r d) ops
    let decoded := (blocks ops).take ((blocks ops).length - l.air.length)
    l.pcm.map BitVec.toInt = predictStream decoded ∧ l.dongle.st = stateAfter decoded ∧
      l.rcu.st = stateAfter (blocks ops) ∧ (l.air = [] → l.dongle.st = l.rcu.st) := by
  intro l decoded
  obtain ⟨done, left, h, heq⟩ := (inStep_init r d).run hops
  rw [List.append_nil, List.nil_append] at heq
  have hlen : l.air.length = left.length := by rw [h.air, length_packets]
  have hdecoded : decoded = done := by
    have hsub : (blocks ops).length - l.air.length = done.length := by
      rw [← heq, List.length_append, hlen, Nat.add_sub_cancel]
    rw [show decoded = (blocks ops).take _ from rfl, hsub, ← heq, List.take_left]
  rw [hdecoded, ← heq]
  refine ⟨h.pcm, h.dongle, h.rcu, ?_⟩
  intro hair
  have hleft : left = [] := List.length_eq_zero_iff.mp (by rw [← hlen, hair, List.length_nil])
  rw [h.dongle, h.rcu, hleft, List.append_nil]

/-- A loud block and a silent one; the first is decoded before the second is encoded. -/
def loudThenSilent : List Op :=
  [.encode (List.replicate unitSize 32767#16), .decode fun _ => 0#8,
    .encode (List.replicate unitSize 0#16), .decode fun _ => 0#8]

theorem lock_step_loud :
    let l := runFrom Link.step
      (Link.init ⟨⟨5, 7⟩, 1#8, 1#8⟩ ⟨⟨-9, 2⟩, 3#8, 2#8, 0, 4#8⟩) loudThenSilent
    l.air = [] ∧ l.dongle.st = l.rcu.st := by
  have hops : ∀ ps ∈ blocks loudThenSilent, ps.length = unitSize := by
    intro ps hps
    have hps : ps ∈ [List.replicate unitSize 32767#16, List.replicate unitSize 0#16] := hps
    rcases List.mem_pair.mp hps with rfl | rfl
    · exact List.length_replicate
    · exact List.length_replicate
  exact ⟨rfl, (lock_step ⟨⟨5, 7⟩, 1#8, 1#8⟩ ⟨⟨-9, 2⟩, 3#8, 2#8, 0, 4#8⟩ hops).2.2.2 rfl⟩

end TelinkB91.Audio.Hid
