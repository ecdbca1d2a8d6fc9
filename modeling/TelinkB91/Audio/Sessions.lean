import TelinkB91.Audio.Fragments

/-!
# Audio — sessions of the Google service

`ui_enable_mic(1)` clears `adpcm_serial_num` and `audio_send_index`.  It does not clear
`buffer_mic_pkt_wptr` and `buffer_mic_pkt_rptr`, and a packet that an earlier session left in the
slots is sent first in the next one, under its old number.

From `ui_enable_mic(1)` on, `encoded` and `sent` are what the session encoded and sent.

* `Held.turn`: what one step keeps of the packets in the slots.
* `sessions_isolated`: in every run of sessions that open with empty slots, a fragment sent is one
  of a packet that its session encoded; where no packet is torn the packets are numbered by their
  places in the session, in order; and where the encoder keeps the first packet they start at 0.
* `sessions_mixed`: a packet left over, a packet torn, and a first packet given up.
-/

namespace TelinkB91.Audio.Google
open ByteMemory Nibbles Ring Runs

/-- What `ui_enable_mic` does to the globals; opening the microphone starts a session. -/
def Rcu.uiEnableMic (s : Rcu) (en : Bool) : Rcu :=
  if en then
    { s with
      codec := { s.codec with adpcmSerialNum := 0#16 }
      audioSendIndex := 0#8
      encoded := []
      sent := [] }
  else s

/-- A step of a run of sessions. -/
inductive Turn where
  | enable (en : Bool)
  | step (op : Op)

def Rcu.turn (s : Rcu) : Turn → Rcu
  | .enable en => s.uiEnableMic en
  | .step op => s.step op

/-- The number at the head of a packet. -/
def serial (packet : List U8) : U16 := packet[0]?.getD 0#8 ++ packet[1]?.getD 0#8

/-- The numbers in the fragments sent, each in the first one of a packet. -/
def serials (sent : List Fragment) : List U16 :=
  (sent.filter fun f => f.1 = 0#8).map fun f => serial f.2

/-! ### What a session is to be -/

/-- A fragment sent is one of a packet encoded. -/
def Rcu.Isolated (s : Rcu) : Prop := ∀ f ∈ s.sent, ∃ packet ∈ s.encoded, f ∈ fragments packet

/-- What was sent is the fragments of packets at increasing places, which are their numbers. -/
def Rcu.Increasing (s : Rcu) : Prop :=
  ∃ places : List Nat, places.Pairwise (· < ·) ∧ (∀ k ∈ places, k < s.encoded.length) ∧
    s.sent <+: places.flatMap (fun k => fragments (s.encoded[k]?.getD [])) ∧
      serials s.sent = places.map (BitVec.ofNat 16)

def Rcu.FromZero (s : Rcu) : Prop := ∀ n ∈ (serials s.sent).head?, n = 0#16

/-- A session opens with no packet in the slots. -/
def OpensEmpty (s : Rcu) : Turn → Prop
  | .enable en => en = true → s.bufferMicPktRptr = s.bufferMicPktWptr
  | .step _ => True

/-- A step that tears no packet. -/
def SteadyTurn (s : Rcu) : Turn → Prop
  | .enable _ => True
  | .step op => Steady s op

/-- What the encoder finds, where the step calls it. -/
def Op.mic? : Op → Option Mic
  | .encode mic => some mic
  | .task c => if ¬ c.exceeded then none else if c.timeout then none else some c.mic

/-- The encoder gives up no packet before a fragment was sent. -/
def Keeps (s : Rcu) (mic : Mic) : Prop := s.sent = [] → s.Ready mic → s.pkts < tlMicPacketBufferNum

/-- A step that does not give up the first packet of a session. -/
def KeepsFirst (s : Rcu) : Turn → Prop
  | .enable _ => True
  | .step op => ∀ mic ∈ op.mic?, Keeps s mic

instance (s : Rcu) (mic : Mic) : Decidable (Keeps s mic) :=
  inferInstanceAs (Decidable (_ → _ → _))

instance (s : Rcu) : (t : Turn) → Decidable (OpensEmpty s t)
  | .enable en => inferInstanceAs (Decidable (en = true → _))
  | .step _ => .isTrue trivial

instance (s : Rcu) : (t : Turn) → Decidable (SteadyTurn s t)
  | .enable _ => .isTrue trivial
  | .step op => inferInstanceAs (Decidable (Steady s op))

instance (s : Rcu) : (t : Turn) → Decidable (KeepsFirst s t)
  | .enable _ => .isTrue trivial
  | .step op => inferInstanceAs (Decidable (∀ mic ∈ op.mic?, Keeps s mic))

/-! ### Steps -/

/-- A session that opens with empty slots. -/
theorem uiEnableMic_eq {s : Rcu} (h : s.bufferMicPktRptr = s.bufferMicPktWptr) :
    s.uiEnableMic true = Rcu.init { s.codec with adpcmSerialNum := 0#16 } s.bufferMicRptr
      s.bufferMicEnc s.bufferMicPktWptr := by
  rw [Rcu.uiEnableMic, if_pos rfl, Rcu.init, h]

/-- A step calls the encoder, or not; and then it may send. -/
theorem step_cases (s : Rcu) (op : Op) : s.step op = s ∨ ∃ mic, op.mic? = some mic ∧
    (s.step op = s.procMicEncoder mic ∨ ∃ ok, (s.procMicEncoder mic).pending ≠ [] ∧
      s.step op = (s.procMicEncoder mic).sendLoop ok
        (packetAddr (s.procMicEncoder mic).bufferMicPktRptr) 7 0) := by
  cases op with
  | encode mic => exact .inr ⟨mic, rfl, .inl rfl⟩
  | task c =>
      rw [Rcu.step, Rcu.taskAudio, Op.mic?]
      split
      · exact .inl rfl
      · split
        · exact .inl rfl
        · refine .inr ⟨c.mic, rfl, ?_⟩
          dsimp only
          split
          · split
            · exact .inl rfl
            · rename_i p hp
              obtain ⟨hne, rfl⟩ := micEncoderDataBuffer_some hp
              exact .inr ⟨c.ok, hne, rfl⟩
          · exact .inl rfl

/-- **The loop keeps** what each notification that is taken keeps; the rounds left go down. -/
theorem sendLoop_keeps {I : Nat → Rcu → Prop} {p : Nat}
    (hstep : ∀ n s, I (n + 1) s → I n (s.notified p)) (ok : Nat → Bool) {n : Nat} (i : Nat)
    {s : Rcu} (h : I n s) : ∃ m, I m (s.sendLoop ok p n i) := by
  induction n generalizing s i with
  | zero => exact ⟨0, h⟩
  | succ n ih =>
      rw [Rcu.sendLoop]
      split
      · exact ih (i + 1) (hstep n s h)
      · exact ⟨n + 1, h⟩

/-! ### The numbers -/

/-- The packets encoded are numbered by their places. -/
structure Numbered (s : Rcu) : Prop where
  next : s.codec.adpcmSerialNum = BitVec.ofNat 16 s.encoded.length
  serials : ∀ k packet, s.encoded[k]? = some packet → serial packet = BitVec.ofNat 16 k

theorem serial_split (s : Rcu) (mic : Mic) :
    serial (s.split mic).2 = s.codec.adpcmSerialNum := by
  have hbits : ∀ n : U16, serial (bytes ((n >>> 8 &&& 0x00FF#16) ||| (n <<< 8 &&& 0xFF00#16))) =
      n := by
    intro n
    refine BitVec.eq_of_getLsbD_eq ?_
    intro i hi
    simp only [serial, bytes, List.getElem?_cons_zero, List.getElem?_cons_succ, Option.getD_some,
      BitVec.getLsbD_append, BitVec.getLsbD_setWidth, BitVec.getLsbD_ushiftRight,
      BitVec.getLsbD_or, BitVec.getLsbD_and, BitVec.getLsbD_shiftLeft]
    interval_cases i <;> simp
  exact hbits s.codec.adpcmSerialNum

theorem adpcmSerialNum_split (s : Rcu) (mic : Mic) :
    (s.split mic).1.adpcmSerialNum = s.codec.adpcmSerialNum + 1 := by
  rw [Rcu.split, micToAdpcmSplit, micToAdpcmSplitGoogle, if_pos rfl]

theorem Numbered.procMicEncoder {s : Rcu} (h : Numbered s) (mic : Mic) :
    Numbered (s.procMicEncoder mic) := by
  rw [Rcu.procMicEncoder]
  split
  · constructor
    case next =>
      rw [encode_encoded, List.length_append, List.length_singleton, BitVec.ofNat_add, ← h.next]
      exact adpcmSerialNum_split s mic
    case serials =>
      intro k packet hk
      rw [encode_encoded] at hk
      rcases Nat.lt_trichotomy k s.encoded.length with hlt | rfl | hgt
      · rw [List.getElem?_append_left hlt] at hk
        exact h.serials k packet hk
      · rw [List.getElem?_concat_length, Option.some_inj] at hk
        rw [← hk, serial_split, h.next]
      · rw [List.getElem?_eq_none (by rw [List.length_append]; exact hgt)] at hk
        cases hk
  · exact h

/-- The loop leaves the encoder alone. -/
theorem Numbered.sendLoop {s : Rcu} (h : Numbered s) (ok : Nat → Bool) (p n i : Nat) :
    Numbered (s.sendLoop ok p n i) := by
  have hstep : ∀ (_ : Nat) s, Numbered s → Numbered (s.notified p) := by
    intro _ s h
    rw [Rcu.notified]
    split
    · exact ⟨h.next, h.serials⟩
    · exact ⟨h.next, h.serials⟩
  obtain ⟨-, h⟩ := sendLoop_keeps (I := fun _ => Numbered) hstep ok i (n := n) h
  exact h

theorem Numbered.turn {s : Rcu} (h : Numbered s) (t : Turn) : Numbered (s.turn t) := by
  cases t with
  | enable en =>
      rw [Rcu.turn, Rcu.uiEnableMic]
      split
      · refine ⟨rfl, ?_⟩
        intro k packet hk
        exact nomatch hk
      · exact h
  | step op =>
      rcases step_cases s op with heq | ⟨mic, -, heq | ⟨ok, -, heq⟩⟩
      · rw [Rcu.turn, heq]
        exact h
      · rw [Rcu.turn, heq]
        exact h.procMicEncoder mic
      · rw [Rcu.turn, heq]
        exact (h.procMicEncoder mic).sendLoop ok _ _ _

/-! ### The packets in the slots -/

/-- Between two steps: the packets in the slots are of this session, and so is what was sent. -/
structure Held (s : Rcu) : Prop where
  index : s.audioSendIndex < 7#8
  room : s.pkts ≤ tlMicPacketBufferNum
  pending : ∀ packet ∈ s.pending, packet ∈ s.encoded
  sent : s.Isolated

theorem Held.procMicEncoder {s : Rcu} (h : Held s) (mic : Mic) : Held (s.procMicEncoder mic) := by
  rw [Rcu.procMicEncoder]
  split
  · have hsent : (s.encode mic).Isolated := by
      intro f hf
      rw [encode_sent] at hf
      obtain ⟨packet, hpacket, hmem⟩ := h.sent f hf
      rw [encode_encoded]
      exact ⟨packet, List.mem_append_left _ hpacket, hmem⟩
    -- what stays in the slots was there before
    obtain ⟨kept, hkept, hlen, hpending⟩ : ∃ kept, kept ⊆ s.pending ∧
        kept.length + 1 ≤ tlMicPacketBufferNum ∧
          (s.encode mic).pending = kept ++ [(s.split mic).2] := by
      rcases Nat.lt_or_eq_of_le h.room with hspace | hfull
      · exact ⟨s.pending, List.Subset.refl _, s.length_pending ▸ hspace, pending_encode hspace mic⟩
      · refine ⟨s.pending.tail, List.tail_subset _, ?_, pending_encode_full hfull mic⟩
        rw [List.length_tail, s.length_pending, hfull]
        rfl
    constructor
    case index =>
      rw [encode_audioSendIndex]
      exact h.index
    case room =>
      rw [← Rcu.length_pending, hpending, List.length_append]
      exact hlen
    case pending =>
      intro packet hpacket
      rw [hpending] at hpacket
      rw [encode_encoded]
      rcases List.mem_append.mp hpacket with hmem | hmem
      · exact List.mem_append_left _ (h.pending packet (hkept hmem))
      · exact List.mem_append_right _ hmem
    case sent => exact hsent
  · exact h

/-- The state within the loop, with `n` rounds left: it sends from the slot of `c`, and its call
finishes one packet at most. -/
structure Sending (c : U8) (n : Nat) (s : Rcu) : Prop where
  held : Held s
  packet : s.slots (slot tlMicPacketBufferNum c) ∈ s.encoded
  rounds : s.pending ≠ [] ∧ n ≤ 7 ∨ n + s.audioSendIndex.toNat < 7

theorem Sending.notified {c : U8} {n : Nat} {s : Rcu} (h : Sending c (n + 1) s) :
    Sending c n (s.notified (packetAddr c)) := by
  have hindex := h.held.index
  have hsent : ∀ f ∈ s.sent ++ [(s.audioSendIndex, read s.bufferMicEnc
      (packetAddr c + s.audioSendIndex.toNat * 20) (audioSendLength s.audioSendIndex))],
        ∃ packet ∈ s.encoded, f ∈ fragments packet := by
    intro f hf
    rcases List.mem_append.mp hf with hmem | hmem
    · exact h.held.sent f hmem
    · rw [List.mem_singleton.mp hmem]
      exact ⟨_, h.packet, List.mem_of_getElem? (fragment_sent hindex c)⟩
  rw [Rcu.notified]
  split
  · -- the packet is counted out, and the index starts again
    rename_i hlast
    have hne : s.pending ≠ [] := by
      rcases h.rounds with ⟨hne, -⟩ | hlt
      · exact hne
      · bv_omega
    have hptr : s.bufferMicPktRptr ≠ s.bufferMicPktWptr := fun heq => hne (pending_eq_nil.mpr heq)
    have hroom : s.micEncoderDataReadOk.pkts + 1 = s.pkts := occupied_pop hptr
    refine ⟨⟨(by decide : 0#8 < 7#8), (Nat.le_of_succ_le hroom.le).trans h.held.room, ?_, hsent⟩,
      h.packet, .inr ?_⟩
    · intro packet hpacket
      have hmem : packet ∈ s.pending := by
        rw [pending_cons hptr]
        exact List.mem_cons_of_mem _ hpacket
      exact h.held.pending packet hmem
    · change n + 0 < 7
      rcases h.rounds with ⟨-, hle⟩ | hlt
      · exact hle
      · omega
  · rename_i hlast
    refine ⟨⟨?_, h.held.room, h.held.pending, hsent⟩, h.packet, ?_⟩
    · change s.audioSendIndex + 1 < 7#8
      change s.audioSendIndex + 1 ≠ 7#8 at hlast
      bv_omega
    · rcases h.rounds with ⟨hne, hle⟩ | hlt
      · exact .inl ⟨hne, Nat.le_of_succ_le hle⟩
      · refine .inr ?_
        change n + (s.audioSendIndex + 1).toNat < 7
        bv_omega

/-- The loop at its start. -/
theorem Held.sending {s : Rcu} (h : Held s) (hne : s.pending ≠ []) :
    Sending s.bufferMicPktRptr 7 s := by
  refine ⟨h, ?_, .inl ⟨hne, le_rfl⟩⟩
  refine h.pending _ ?_
  rw [pending_cons fun heq => hne (pending_eq_nil.mpr heq)]
  exact List.mem_cons_self

theorem held_init (codec : Statics) (bufferMicRptr : U16) (bufferMicEnc : Memory) (pkt : U8) :
    Held (Rcu.init codec bufferMicRptr bufferMicEnc pkt) := by
  have h := inPacket_init codec bufferMicRptr bufferMicEnc pkt
  refine ⟨h.index, h.room, ?_, ?_⟩
  · intro packet hpacket
    rw [h.encoded]
    exact hpacket
  · intro f hf
    exact absurd hf List.not_mem_nil

/-- **One step.** -/
theorem Held.turn {s : Rcu} (h : Held s) {t : Turn} (ht : OpensEmpty s t) : Held (s.turn t) := by
  cases t with
  | enable en =>
      cases en with
      | false => exact h
      | true =>
          rw [Rcu.turn, uiEnableMic_eq (ht rfl)]
          exact held_init _ _ _ _
  | step op =>
      rcases step_cases s op with heq | ⟨mic, -, heq | ⟨ok, hne, heq⟩⟩
      · rw [Rcu.turn, heq]
        exact h
      · rw [Rcu.turn, heq]
        exact h.procMicEncoder mic
      · obtain ⟨m, hsending⟩ := sendLoop_keeps (I := Sending _)
          (fun _ _ h => h.notified) ok 0 ((h.procMicEncoder mic).sending hne)
        rw [Rcu.turn, heq]
        exact hsending.held

/-! ### Increasing numbers -/

theorem serial_take (packet : List U8) : serial (packet.take 20) = serial packet := by
  rw [serial, List.getElem?_take_of_lt (by decide), List.getElem?_take_of_lt (by decide), serial]

theorem serials_append (l l' : List Fragment) : serials (l ++ l') = serials l ++ serials l' := by
  rw [serials, List.filter_append, List.map_append, serials, serials]

/-- Of the fragments of a packet the first one holds its number. -/
theorem serials_take {packet : List U8} {n : Nat} (h : n ≠ 0) :
    serials ((fragments packet).take n) = [serial packet] := by
  obtain ⟨n, rfl⟩ := Nat.exists_eq_succ_of_ne_zero h
  have hrest : ∀ f ∈ (fragments packet).tail, f.1 ≠ 0#8 := by
    intro f hf
    obtain ⟨i, hi, rfl⟩ := List.mem_map.mp hf
    have hne : ∀ i ∈ [1, 2, 3, 4, 5, 6], BitVec.ofNat 8 i ≠ 0#8 := by decide
    exact hne i hi
  have hnone : ((fragments packet).tail.take n).filter (fun f => f.1 = 0#8) = [] := by
    refine List.filter_eq_nil_iff.mpr fun f hf => ?_
    rw [decide_eq_true_iff]
    exact hrest f (List.take_subset _ _ hf)
  have hcons : fragments packet = (0#8, packet.take 20) :: (fragments packet).tail := rfl
  rw [hcons, List.take_succ_cons, serials, List.filter_cons_of_pos (by rfl), hnone,
    List.map_singleton, serial_take]

theorem serials_fragments (packet : List U8) : serials (fragments packet) = [serial packet] := by
  have htake : serials ((fragments packet).take 7) = [serial packet] := serials_take (by decide)
  rwa [List.take_of_length_le (length_fragments packet).le] at htake

theorem serials_flatMap (packets : List (List U8)) :
    serials (packets.flatMap fragments) = packets.map serial := by
  induction packets with
  | nil => rfl
  | cons packet packets ih =>
      rw [List.flatMap_cons, serials_append, serials_fragments, ih, List.map_cons,
        List.singleton_append]

/-- The places of a sublist. -/
theorem exists_places {l l' : List (List U8)} (h : l.Sublist l') : ∃ places : List Nat,
    places.Pairwise (· < ·) ∧ (∀ k ∈ places, k < l'.length) ∧
      places.map (fun k => l'[k]?.getD []) = l := by
  induction h with
  | slnil => exact ⟨[], .nil, fun k hk => absurd hk List.not_mem_nil, rfl⟩
  | cons a _ ih =>
      obtain ⟨places, hpairwise, hlt, hmap⟩ := ih
      refine ⟨places.map (· + 1), ?_, ?_, ?_⟩
      · exact hpairwise.map _ fun i j hij => Nat.succ_lt_succ hij
      · intro k hk
        obtain ⟨j, hj, rfl⟩ := List.mem_map.mp hk
        exact Nat.succ_lt_succ (hlt j hj)
      · rw [List.map_map]
        exact hmap
  | cons_cons a _ ih =>
      obtain ⟨places, hpairwise, hlt, hmap⟩ := ih
      refine ⟨0 :: places.map (· + 1), ?_, ?_, ?_⟩
      · refine List.pairwise_cons.mpr ⟨?_, hpairwise.map _ fun i j hij => Nat.succ_lt_succ hij⟩
        intro k hk
        obtain ⟨j, -, rfl⟩ := List.mem_map.mp hk
        exact j.succ_pos
      · intro k hk
        rcases List.mem_cons.mp hk with rfl | hk
        · exact Nat.succ_pos _
        · obtain ⟨j, hj, rfl⟩ := List.mem_map.mp hk
          exact Nat.succ_lt_succ (hlt j hj)
      · rw [List.map_cons, List.map_map]
        exact congrArg (a :: ·) hmap

theorem InPacket.increasing {s : Rcu} {old done : List (List U8)} (h : InPacket s old done)
    (hnum : Numbered s) : s.Increasing := by
  obtain ⟨begun, hsublist, hbegun⟩ := h.begun
  -- a packet begun is one whose number was sent
  have hsent : s.sent <+: (done ++ begun).flatMap fragments ∧
      serials s.sent = (done ++ begun).map serial := by
    rw [h.sent, List.flatMap_append, serials_append, serials_flatMap, List.map_append]
    rcases hbegun with ⟨rfl, hpart⟩ | ⟨hindex, packet, rfl, hpart⟩
    · rw [hpart]
      exact ⟨List.prefix_rfl, rfl⟩
    · have hne : s.audioSendIndex.toNat ≠ 0 := fun heq => hindex (BitVec.eq_of_toNat_eq heq)
      rw [hpart, serials_take hne, List.flatMap_singleton]
      exact ⟨(List.prefix_append_right_inj _).mpr (List.take_prefix _ _), rfl⟩
  obtain ⟨places, hpairwise, hlt, hmap⟩ := exists_places hsublist
  refine ⟨places, hpairwise, hlt, ?_, ?_⟩
  · rw [← hmap, List.flatMap_map] at hsent
    exact hsent.1
  · rw [hsent.2, ← hmap, List.map_map]
    refine List.map_congr_left fun k hk => ?_
    have hget := List.getElem?_eq_getElem (hlt k hk)
    rw [Function.comp_apply, hget, Option.getD_some]
    exact hnum.serials k _ hget

/-! ### The first number -/

/-- Between two steps: until a fragment is sent the slots hold all packets of the session; and the
first fragment sent is one of the first packet. -/
structure Begins (s : Rcu) : Prop where
  silent : s.sent = [] → s.encoded = s.pending ∧ s.audioSendIndex = 0#8
  first : ∀ f ∈ s.sent.head?, ∃ packet ∈ s.encoded.head?, (fragments packet).head? = some f

theorem Begins.procMicEncoder {s : Rcu} (h : Begins s) {mic : Mic} (hkeeps : Keeps s mic) :
    Begins (s.procMicEncoder mic) := by
  rw [Rcu.procMicEncoder]
  split
  · rename_i hready
    constructor
    case silent =>
      intro hsent
      rw [encode_sent] at hsent
      obtain ⟨hencoded, hindex⟩ := h.silent hsent
      rw [encode_encoded, encode_audioSendIndex, pending_encode (hkeeps hsent hready), hencoded]
      exact ⟨rfl, hindex⟩
    case first =>
      intro f hf
      rw [encode_sent] at hf
      obtain ⟨packet, hpacket, hhead⟩ := h.first f hf
      rw [encode_encoded, List.head?_append, Option.mem_def.mp hpacket]
      exact ⟨packet, rfl, hhead⟩
  · exact h

/-- The state within the loop, before a fragment of the session is sent or after it. -/
structure Opening (c : U8) (n : Nat) (s : Rcu) : Prop where
  sending : Sending c n s
  begins : Begins s
  start : s.sent = [] → c = s.bufferMicPktRptr ∧ s.pending ≠ []

theorem Opening.notified {c : U8} {n : Nat} {s : Rcu} (h : Opening c (n + 1) s) :
    Opening c n (s.notified (packetAddr c)) := by
  have hencoded : (s.notified (packetAddr c)).encoded = s.encoded := by
    rw [Rcu.notified]
    split
    · rfl
    · rfl
  have hsent : (s.notified (packetAddr c)).sent = s.sent ++ [(s.audioSendIndex,
      read s.bufferMicEnc (packetAddr c + s.audioSendIndex.toNat * 20)
        (audioSendLength s.audioSendIndex))] := by
    rw [Rcu.notified]
    split
    · rfl
    · rfl
  have hne : (s.notified (packetAddr c)).sent ≠ [] := by
    rw [hsent]
    exact List.append_ne_nil_of_right_ne_nil _ (List.cons_ne_nil _ _)
  refine ⟨h.sending.notified, ⟨fun hnil => absurd hnil hne, ?_⟩, fun hnil => absurd hnil hne⟩
  intro f hf
  rw [hencoded]
  rw [hsent] at hf
  by_cases hnil : s.sent = []
  · -- the first one: it is taken from the head of the slots
    obtain ⟨rfl, hpending⟩ := h.start hnil
    obtain ⟨hslots, hindex⟩ := h.begins.silent hnil
    have hfragment := fragment_sent h.sending.held.index s.bufferMicPktRptr
    have hzero : s.audioSendIndex.toNat = 0 := by rw [hindex]; rfl
    rw [hnil] at hf
    rw [hslots, pending_cons fun heq => hpending (pending_eq_nil.mpr heq)]
    refine ⟨_, rfl, ?_⟩
    rw [← Option.mem_def.mp hf, List.head?_eq_getElem?, ← hzero, hfragment]
    rfl
  · rw [List.head?_append_of_ne_nil _ hnil] at hf
    exact h.begins.first f hf

theorem Begins.turn {s : Rcu} (h : Begins s) (hheld : Held s) {t : Turn} (ht : OpensEmpty s t)
    (hkeeps : KeepsFirst s t) : Begins (s.turn t) := by
  cases t with
  | enable en =>
      cases en with
      | false => exact h
      | true =>
          rw [Rcu.turn, uiEnableMic_eq (ht rfl)]
          refine ⟨fun _ => ⟨(pending_self _).symm, rfl⟩, ?_⟩
          intro f hf
          exact nomatch hf
  | step op =>
      rcases step_cases s op with heq | ⟨mic, hmic, heq | ⟨ok, hne, heq⟩⟩
      · rw [Rcu.turn, heq]
        exact h
      · rw [Rcu.turn, heq]
        exact h.procMicEncoder (hkeeps mic hmic)
      · obtain ⟨m, hopening⟩ := sendLoop_keeps (I := Opening _) (fun _ _ h => h.notified) ok 0
          ⟨(hheld.procMicEncoder mic).sending hne, h.procMicEncoder (hkeeps mic hmic),
            fun _ => ⟨rfl, hne⟩⟩
        rw [Rcu.turn, heq]
        exact hopening.begins

theorem Begins.fromZero {s : Rcu} (h : Begins s) (hnum : Numbered s) : s.FromZero := by
  intro n hn
  cases hsent : s.sent with
  | nil =>
      rw [hsent] at hn
      exact nomatch hn
  | cons f rest =>
      obtain ⟨packet, hpacket, hhead⟩ := h.first f (by rw [hsent]; rfl)
      obtain rfl : (0#8, packet.take 20) = f := Option.some_inj.mp hhead
      rw [hsent, serials, List.filter_cons_of_pos (by rfl), List.map_cons, serial_take] at hn
      obtain rfl : serial packet = n := Option.some_inj.mp hn
      rw [List.head?_eq_getElem?] at hpacket
      exact hnum.serials 0 packet hpacket

/-! ### Runs -/

/-- **Sessions.**  Whatever the remote control held before, in every run of sessions that open with
empty slots the fragments sent in a session are of packets it encoded.  Where no packet is torn,
the packets sent are numbered by their places in the session, and the numbers increase; where the
encoder gives up no packet before the first fragment, they start at 0. -/
theorem sessions_isolated (before : Rcu) {turns : List Turn}
    (hopen : Along Rcu.turn OpensEmpty before (.enable true :: turns)) :
    let s := runFrom Rcu.turn before (.enable true :: turns)
    s.Isolated ∧
      (Along Rcu.turn SteadyTurn before (.enable true :: turns) → s.Increasing) ∧
        (Along Rcu.turn KeepsFirst before (.enable true :: turns) → s.FromZero) := by
  have hinit := uiEnableMic_eq (hopen.1 rfl)
  have hheld : Held (before.uiEnableMic true) := by
    rw [hinit]
    exact held_init _ _ _ _
  have hnum : Numbered (before.uiEnableMic true) := by
    rw [hinit]
    exact ⟨rfl, fun k packet hk => nomatch hk⟩
  have hnum' : Numbered (runFrom Rcu.turn (before.uiEnableMic true) turns) :=
    invariant (fun s t h => h.turn t) hnum turns
  have hrun := hopen.2.invariant (I := Held) (fun s t h ht => h.turn ht) hheld
  refine ⟨hrun.sent, ?_, ?_⟩
  · intro hsteady
    have hpacket : InPacket (before.uiEnableMic true) [] [] := by
      rw [hinit]
      exact inPacket_init _ _ _ _
    have hstep : ∀ s t, (∃ old done, InPacket s old done) → OpensEmpty s t ∧ SteadyTurn s t →
        ∃ old done, InPacket (s.turn t) old done := by
      rintro s t ⟨old, done, h⟩ ⟨hempty, hsteady⟩
      cases t with
      | enable en =>
          cases en with
          | false => exact ⟨old, done, h⟩
          | true =>
              rw [Rcu.turn, uiEnableMic_eq (hempty rfl)]
              exact ⟨[], [], inPacket_init _ _ _ _⟩
      | step op => exact h.step hsteady
    obtain ⟨old, done, h⟩ := (hopen.2.and hsteady.2).invariant hstep
      ⟨[], [], hpacket⟩
    exact h.increasing hnum'
  · intro hkeeps
    have hstep : ∀ s t, Held s ∧ Begins s → OpensEmpty s t ∧ KeepsFirst s t →
        Held (s.turn t) ∧ Begins (s.turn t) := by
      rintro s t ⟨hheld, h⟩ ⟨hempty, hkeeps⟩
      exact ⟨hheld.turn hempty, h.turn hheld hempty hkeeps⟩
    have hbegins : Begins (before.uiEnableMic true) := by
      rw [hinit]
      exact ⟨fun _ => ⟨(pending_self _).symm, rfl⟩, fun f hf => nomatch hf⟩
    exact ((hopen.2.and hkeeps.2).invariant hstep ⟨hheld, hbegins⟩).2.fromZero hnum'

/-- Two sessions; a packet of the second is given up after its first was sent. -/
def twoSessions : List Turn :=
  [.step (.encode (silent 256#16)), .step (.encode (silent 512#16)), .step (.task (takes 7)),
    .step (.task (takes 7)), .enable false, .enable true,
    .step (.encode (silent 256#16)), .step (.encode (silent 512#16)), .step (.task (takes 7)),
    .step (.encode (silent 256#16)), .step (.encode (silent 512#16)),
    .step (.encode (silent 256#16)), .step (.encode (silent 512#16)), .step (.task (takes 7))]

theorem sessions_isolated_two :
    let s := runFrom Rcu.turn boot (.enable true :: twoSessions)
    s.Isolated ∧ s.Increasing ∧ s.FromZero ∧ serials s.sent = [0#16, 2#16] := by
  intro s
  have hopen : Along Rcu.turn OpensEmpty boot (.enable true :: twoSessions) := by decide +kernel
  have h := sessions_isolated boot hopen
  exact ⟨h.1, h.2.1 (by decide +kernel), h.2.2 (by decide +kernel), by decide +kernel⟩

/-- The first session leaves a packet in the slots, which the second sends. -/
def leftOver : Rcu :=
  runFrom Rcu.turn boot
    [.enable true, .step (.encode (silent 256#16)), .step (.encode (silent 512#16)),
      .step (.task (takes 7)), .enable false, .enable true, .step (.task (takes 7))]

/-- The loop goes on behind the end of a packet, and sends the head of that packet again. -/
def sentTwice : Rcu :=
  runFrom Rcu.turn boot
    [.enable true, .step (.encode (silent 256#16)), .step (.encode (silent 512#16)),
      .step (.task (takes 1)), .step (.task (takes 7)), .step (.task (takes 6))]

/-- Six packets are encoded before the first fragment is sent. -/
def givenUp : Rcu :=
  runFrom Rcu.turn boot
    [.enable true, .step (.encode (silent 256#16)), .step (.encode (silent 512#16)),
      .step (.encode (silent 256#16)), .step (.encode (silent 512#16)),
      .step (.encode (silent 256#16)), .step (.encode (silent 512#16)), .step (.task (takes 7))]

/-- **Sessions that mix, or do not count from 0.** -/
theorem sessions_mixed : ¬ leftOver.Isolated ∧ serials leftOver.sent = [1#16] ∧
    ¬ sentTwice.Increasing ∧ ¬ givenUp.FromZero := by
  refine ⟨?_, by decide +kernel, ?_, ?_⟩
  · have hsent : leftOver.sent ≠ [] ∧ leftOver.encoded = [] := by decide +kernel
    obtain ⟨f, rest, hcons⟩ := List.exists_cons_of_ne_nil hsent.1
    intro h
    obtain ⟨packet, hpacket, -⟩ := h f (by rw [hcons]; exact List.mem_cons_self)
    rw [hsent.2] at hpacket
    exact List.not_mem_nil hpacket
  · rintro ⟨places, hpairwise, hlt, -, hserials⟩
    have htwice : serials sentTwice.sent = [0#16, 0#16] ∧ sentTwice.encoded.length = 2 := by
      decide +kernel
    rw [htwice.1] at hserials
    rw [htwice.2] at hlt
    match places with
    | [i, j] =>
        have hij : i < j := (List.pairwise_cons.mp hpairwise).1 j (List.mem_singleton_self j)
        have hj : j < 2 := hlt j (by simp)
        obtain rfl : j = 1 := by omega
        exact absurd hserials (by simp)
    | [] => exact nomatch hserials
    | [i] => exact absurd hserials (by simp)
    | _ :: _ :: _ :: _ => exact absurd hserials (by simp)
  · intro h
    have hserials : serials givenUp.sent = [2#16] := by decide +kernel
    have htwo := h 2#16 (by rw [hserials]; rfl)
    exact absurd htwo (by decide)

end TelinkB91.Audio.Google
