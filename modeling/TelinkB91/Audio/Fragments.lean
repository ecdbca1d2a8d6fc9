import Mathlib.Data.List.Sublists
import TelinkB91.Audio.GoogleVoice

/-!
# Audio — the fragments of the Google service

A packet that is sent in part is remembered by `audio_send_index` only; the slot it is in is the
one of `buffer_mic_pkt_rptr`.  Two things take the slot away from the index.

* The loop of `task_audio` makes seven rounds, also where it goes on with a packet, and fetches the
  pointer before the first: after the packet's last fragment it sends the packet's first ones again.
* The encoder counts `buffer_mic_pkt_rptr` up when it gives up the oldest packet, whatever
  `audio_send_index` is.

`Steady` leaves out these two.

* `InPacket.step`: what one step keeps between what was encoded, what was sent and the index.
* `fragments_whole`: in every run whose steps are `Steady` the fragments sent are those of some of
  the packets, in the order of encoding, each packet once.
* `fragments_torn`: a call that goes on with a packet and succeeds seven times tears the next one.
-/

namespace TelinkB91.Audio.Google
open ByteMemory Ring Runs

/-- What was sent is the fragments of some of the packets encoded, in order and each once; of the
last of them maybe the first ones only. -/
def Rcu.Untorn (s : Rcu) : Prop :=
  ∃ packets : List (List U8), packets.Sublist s.encoded ∧ s.sent <+: packets.flatMap fragments

/-- The encoder does not give up a packet sent in part. -/
def Spares (s : Rcu) (mic : Mic) : Prop :=
  s.Ready mic → s.audioSendIndex ≠ 0#8 → s.pkts < tlMicPacketBufferNum

/-- The loop, where it goes on with a packet, stops at its end. -/
def Stops (s : Rcu) (c : Call) : Prop :=
  s.audioSendIndex ≠ 0#8 → ∃ j ≤ 7 - s.audioSendIndex.toNat, c.ok j = false

/-- A step that keeps to the packet it is in. -/
def Steady (s : Rcu) : Op → Prop
  | .encode mic => Spares s mic
  | .task c => c.exceeded → ¬ c.timeout → Spares s c.mic ∧ (c.txFifoNumber < 7#8 → Stops s c)

instance (s : Rcu) (mic : Mic) : Decidable (Spares s mic) := by unfold Spares; infer_instance

instance (s : Rcu) (c : Call) : Decidable (Stops s c) := by unfold Stops; infer_instance

instance (s : Rcu) (op : Op) : Decidable (Steady s op) := by
  cases op <;> unfold Steady <;> infer_instance

/-- What was sent of the packet in progress. -/
def Rcu.part (s : Rcu) : List Fragment :=
  (fragments (s.pending.headD [])).take s.audioSendIndex.toNat

/-- Between two steps: the packets in `old` are behind the read counter, and those in `done` were
sent. -/
structure InPacket (s : Rcu) (old done : List (List U8)) : Prop where
  index : s.audioSendIndex < 7#8
  room : s.pkts ≤ tlMicPacketBufferNum
  started : s.audioSendIndex ≠ 0#8 → s.pending ≠ []
  encoded : s.encoded = old ++ s.pending
  order : List.Sublist done old
  sent : s.sent = done.flatMap fragments ++ s.part

section steps

variable {s : Rcu} {old done : List (List U8)}

theorem part_zero (h : s.audioSendIndex = 0#8) : s.part = [] := by
  rw [Rcu.part, h]
  rfl

/-! ### The encoder -/

/-- **An encoder step with a free slot.** -/
theorem InPacket.encode (h : InPacket s old done) (hspace : s.pkts < tlMicPacketBufferNum)
    (mic : Mic) : InPacket (s.encode mic) old done := by
  have hpending := pending_encode hspace mic
  have hlen := congrArg List.length hpending
  rw [List.length_append, Rcu.length_pending, Rcu.length_pending] at hlen
  -- a packet sent in part stays the oldest one
  have hpart : (s.encode mic).part = s.part := by
    by_cases hindex : s.audioSendIndex = 0#8
    · rw [part_zero hindex, part_zero ((encode_audioSendIndex s mic).trans hindex)]
    · obtain ⟨packet, rest, hcons⟩ := List.exists_cons_of_ne_nil (h.started hindex)
      rw [Rcu.part, Rcu.part, hpending, hcons, encode_audioSendIndex]
      rfl
  constructor
  case index =>
    rw [encode_audioSendIndex]
    exact h.index
  case room => exact hlen.trans_le hspace
  case started =>
    intro _
    rw [hpending]
    exact List.append_ne_nil_of_right_ne_nil _ (List.cons_ne_nil _ _)
  case encoded => rw [encode_encoded, h.encoded, hpending, List.append_assoc]
  case order => exact h.order
  case sent => rw [encode_sent, hpart, h.sent]

/-- **An encoder step with no free slot.**  None of the packet given up was sent. -/
theorem InPacket.encode_full (h : InPacket s old done) (hfull : s.pkts = tlMicPacketBufferNum)
    (hindex : s.audioSendIndex = 0#8) (mic : Mic) :
    ∃ packet, InPacket (s.encode mic) (old ++ [packet]) done := by
  have hlen : s.pending.length = tlMicPacketBufferNum := s.length_pending.trans hfull
  obtain ⟨packet, rest, hcons⟩ := List.exists_cons_of_length_pos (hlen ▸ isSize.pos)
  have hpending := pending_encode_full hfull mic
  have hlen' := congrArg List.length hpending
  have hindex' := (encode_audioSendIndex s mic).trans hindex
  rw [hcons, List.tail_cons] at hpending hlen'
  rw [Rcu.length_pending, List.length_append] at hlen'
  rw [hcons, List.length_cons] at hlen
  refine ⟨packet, ?_⟩
  constructor
  case index =>
    rw [hindex']
    decide
  case room => exact (hlen'.trans hlen).le
  case started =>
    intro hne
    exact absurd hindex' hne
  case encoded =>
    rw [encode_encoded, h.encoded, hpending, hcons, List.append_assoc, List.append_assoc]
    rfl
  case order => exact h.order.trans (List.sublist_append_left _ _)
  case sent => rw [encode_sent, h.sent, part_zero hindex, part_zero hindex']

theorem InPacket.procMicEncoder (h : InPacket s old done) {mic : Mic} (hspares : Spares s mic) :
    ∃ old, InPacket (s.procMicEncoder mic) old done := by
  rw [Rcu.procMicEncoder]
  split
  · rename_i hready
    rcases Nat.lt_or_eq_of_le h.room with hspace | hfull
    · exact ⟨old, h.encode hspace mic⟩
    · have hindex : s.audioSendIndex = 0#8 := by
        by_contra hne
        exact Nat.ne_of_lt (hspares hready hne) hfull
      obtain ⟨packet, h⟩ := h.encode_full hfull hindex mic
      exact ⟨old ++ [packet], h⟩
  · exact ⟨old, h⟩

/-! ### The sender -/

/-- One fragment more of a packet. -/
theorem take_fragments (h : s.audioSendIndex < 7#8) (c : U8) :
    (fragments (s.slots (slot tlMicPacketBufferNum c))).take (s.audioSendIndex.toNat + 1) =
      (fragments (s.slots (slot tlMicPacketBufferNum c))).take s.audioSendIndex.toNat ++
        [(s.audioSendIndex, read s.bufferMicEnc (packetAddr c + s.audioSendIndex.toNat * 20)
          (audioSendLength s.audioSendIndex))] := by
  rw [List.take_add_one, fragment_sent h]
  rfl

theorem headD_pending (h : s.pending ≠ []) :
    s.pending.headD [] = s.slots (slot tlMicPacketBufferNum s.bufferMicPktRptr) := by
  rw [pending_cons (fun heq => h (pending_eq_nil.mpr heq))]
  rfl

/-- **A fragment before the last.** -/
theorem InPacket.notified (h : InPacket s old done) (hne : s.pending ≠ [])
    (hlast : s.audioSendIndex ≠ 6#8) :
    InPacket (s.notified (packetAddr s.bufferMicPktRptr)) old done := by
  have hindex := h.index
  have hnext : s.audioSendIndex + 1 ≠ 7#8 := by bv_omega
  have htoNat : (s.audioSendIndex + 1).toNat = s.audioSendIndex.toNat + 1 := by bv_omega
  rw [Rcu.notified, if_neg hnext]
  refine ⟨by bv_omega, h.room, fun _ => hne, h.encoded, h.order, ?_⟩
  change s.sent ++ _ = done.flatMap fragments ++
    (fragments (s.pending.headD [])).take (s.audioSendIndex + 1).toNat
  rw [h.sent, Rcu.part, List.append_assoc, htoNat, headD_pending hne, take_fragments hindex]

/-- **The last fragment.**  The packet is sent, and the slot counted out. -/
theorem InPacket.notified_last (h : InPacket s old done) (hne : s.pending ≠ [])
    (hlast : s.audioSendIndex = 6#8) : ∃ packet,
    InPacket (s.notified (packetAddr s.bufferMicPktRptr)) (old ++ [packet]) (done ++ [packet]) := by
  have hptr : s.bufferMicPktRptr ≠ s.bufferMicPktWptr := fun heq => hne (pending_eq_nil.mpr heq)
  have hcons := pending_cons hptr
  have htake := take_fragments h.index s.bufferMicPktRptr
  rw [hlast] at htake
  have hall := (List.take_of_length_le (length_fragments _).le).symm.trans htake
  have hroom : s.micEncoderDataReadOk.pkts + 1 = s.pkts := occupied_pop hptr
  rw [Rcu.notified, if_pos (by rw [hlast]; rfl)]
  refine ⟨s.slots (slot tlMicPacketBufferNum s.bufferMicPktRptr), ?_⟩
  constructor
  case index => exact (by decide : 0#8 < 7#8)
  case room => exact (Nat.le_of_succ_le hroom.le).trans h.room
  case started =>
    intro hindex
    exact absurd rfl hindex
  case encoded =>
    change s.encoded = _ ++ s.micEncoderDataReadOk.pending
    rw [h.encoded, hcons, List.append_assoc]
    rfl
  case order => exact h.order.append (List.Sublist.refl _)
  case sent =>
    rw [part_zero rfl, List.append_nil, List.flatMap_append, List.flatMap_singleton, hall]
    change s.sent ++ _ = _
    rw [h.sent, Rcu.part, headD_pending hne, hlast, List.append_assoc]

/-- The loop at its end, or at a notification that is not taken. -/
theorem sendLoop_stop {ok : Nat → Bool} {n i : Nat} (h : 0 = n ∨ ok i = false) (p : Nat)
    (s : Rcu) : s.sendLoop ok p n i = s := by
  rcases h with rfl | h
  · rfl
  · cases n with
    | zero => rfl
    | succ n => rw [Rcu.sendLoop, h, if_neg Bool.false_ne_true]

/-- **The loop**, where it stops at the last fragment of a packet. -/
theorem InPacket.sendLoop (h : InPacket s old done) (hne : s.pending ≠ []) {ok : Nat → Bool}
    {n i : Nat} (hstop : ∃ j ≤ 7 - s.audioSendIndex.toNat, j = n ∨ ok (i + j) = false) :
    ∃ old done, InPacket (s.sendLoop ok (packetAddr s.bufferMicPktRptr) n i) old done := by
  -- on the rounds left; `j` of them stay in the packet
  induction n generalizing s i with
  | zero => exact ⟨old, done, h⟩
  | succ n ih =>
      rw [Rcu.sendLoop]
      split
      · rename_i hok
        obtain ⟨j, hj, hstop⟩ := hstop
        have hj₀ : j ≠ 0 := by
          rintro rfl
          rcases hstop with hn | hfail
          · exact absurd hn.symm n.succ_ne_zero
          · exact Bool.false_ne_true (hfail.symm.trans hok)
        obtain ⟨j, rfl⟩ := Nat.exists_eq_succ_of_ne_zero hj₀
        rw [Nat.add_one_inj, Nat.succ_eq_one_add, ← Nat.add_assoc] at hstop
        have hindex := h.index
        by_cases hlast : s.audioSendIndex = 6#8
        · obtain ⟨packet, h'⟩ := h.notified_last hne hlast
          obtain rfl : j = 0 := by
            rw [hlast] at hj
            exact Nat.le_zero.mp (Nat.le_of_succ_le_succ hj)
          -- the next round would send from the slot that is counted out
          rw [sendLoop_stop hstop]
          exact ⟨old ++ [packet], done ++ [packet], h'⟩
        · have h' := h.notified hne hlast
          have hnext : s.audioSendIndex + 1 ≠ 7#8 := by bv_omega
          rw [Rcu.notified, if_neg hnext] at h' ⊢
          refine ih h' hne ⟨j, ?_, hstop⟩
          change j ≤ 7 - (s.audioSendIndex + 1).toNat
          bv_omega
      · exact ⟨old, done, h⟩

theorem InPacket.taskAudio (h : InPacket s old done) {c : Call} (hsteady : Steady s (.task c)) :
    ∃ old done, InPacket (s.taskAudio c) old done := by
  rw [Rcu.taskAudio]
  split
  · exact ⟨old, done, h⟩
  · rename_i hexceeded
    split
    · exact ⟨old, done, h⟩
    · rename_i htimeout
      obtain ⟨hspares, hstops⟩ := hsteady (not_not.mp hexceeded) htimeout
      obtain ⟨old, h⟩ := h.procMicEncoder hspares
      dsimp only
      split
      · rename_i hfifo
        split
        · exact ⟨old, done, h⟩
        · rename_i p hp
          obtain ⟨hne, rfl⟩ := micEncoderDataBuffer_some hp
          refine h.sendLoop hne ?_
          rw [procMicEncoder_audioSendIndex]
          by_cases hindex : s.audioSendIndex = 0#8
          · rw [hindex]
            exact ⟨7, le_rfl, .inl rfl⟩
          · obtain ⟨j, hj, hfail⟩ := hstops hfifo hindex
            exact ⟨j, hj, .inr ((Nat.zero_add j).symm ▸ hfail)⟩
      · exact ⟨old, done, h⟩

/-- **One step.** -/
theorem InPacket.step (h : InPacket s old done) {op : Op} (hsteady : Steady s op) :
    ∃ old done, InPacket (s.step op) old done := by
  cases op with
  | encode mic =>
      obtain ⟨old, h⟩ := h.procMicEncoder hsteady
      exact ⟨old, done, h⟩
  | task c => exact h.taskAudio hsteady

/-- The packets of which a fragment was sent: those done, and the packet in progress. -/
theorem InPacket.begun (h : InPacket s old done) : ∃ begun, (done ++ begun).Sublist s.encoded ∧
    (begun = [] ∧ s.part = [] ∨ s.audioSendIndex ≠ 0#8 ∧
      ∃ packet, begun = [packet] ∧ s.part = (fragments packet).take s.audioSendIndex.toNat) := by
  by_cases hindex : s.audioSendIndex = 0#8
  · refine ⟨[], ?_, .inl ⟨rfl, part_zero hindex⟩⟩
    rw [h.encoded, List.append_nil]
    exact h.order.trans (List.sublist_append_left _ _)
  · obtain ⟨packet, rest, hcons⟩ := List.exists_cons_of_ne_nil (h.started hindex)
    refine ⟨[packet], ?_, .inr ⟨hindex, packet, rfl, ?_⟩⟩
    · rw [h.encoded, hcons]
      exact h.order.append (List.singleton_sublist.mpr List.mem_cons_self)
    · rw [Rcu.part, hcons]
      rfl

theorem InPacket.untorn (h : InPacket s old done) : s.Untorn := by
  obtain ⟨begun, hsublist, ⟨rfl, hpart⟩ | ⟨-, packet, rfl, hpart⟩⟩ := h.begun
  · refine ⟨done ++ [], hsublist, ?_⟩
    rw [h.sent, hpart, List.append_nil, List.append_nil]
  · refine ⟨done ++ [packet], hsublist, ?_⟩
    rw [h.sent, hpart, List.flatMap_append, List.flatMap_singleton]
    exact (List.prefix_append_right_inj _).mpr (List.take_prefix _ _)

end steps

/-! ### Runs -/

/-- The remote control with no packet in its slots, at any phase of the counters. -/
def Rcu.init (codec : Statics) (bufferMicRptr : U16) (bufferMicEnc : Memory) (pkt : U8) : Rcu where
  codec := codec
  bufferMicRptr := bufferMicRptr
  bufferMicEnc := bufferMicEnc
  bufferMicPktWptr := pkt
  bufferMicPktRptr := pkt
  audioSendIndex := 0#8
  encoded := []
  sent := []

theorem inPacket_init (codec : Statics) (bufferMicRptr : U16) (bufferMicEnc : Memory) (pkt : U8) :
    InPacket (Rcu.init codec bufferMicRptr bufferMicEnc pkt) [] [] := by
  have hpending : (Rcu.init codec bufferMicRptr bufferMicEnc pkt).pending = [] := pending_self pkt
  constructor
  case index => exact (by decide : 0#8 < 7#8)
  case room =>
    rw [← Rcu.length_pending, hpending]
    exact Nat.zero_le _
  case started =>
    intro hne
    exact absurd rfl hne
  case encoded => rw [hpending]; rfl
  case order => exact .slnil
  case sent => rw [part_zero rfl]; rfl

/-- **Whole packets.**  In every run in which the encoder spares a packet sent in part and the loop
stops at the end of a packet it goes on with, the fragments sent are those of packets encoded, in
order, each packet once. -/
theorem fragments_whole (codec : Statics) (bufferMicRptr : U16) (bufferMicEnc : Memory) (pkt : U8)
    {ops : List Op}
    (hsteady : Along Rcu.step Steady (Rcu.init codec bufferMicRptr bufferMicEnc pkt) ops) :
    (runFrom Rcu.step (Rcu.init codec bufferMicRptr bufferMicEnc pkt) ops).Untorn := by
  have hstep : ∀ s op, (∃ old done, InPacket s old done) → Steady s op →
      ∃ old done, InPacket (s.step op) old done := by
    rintro s op ⟨old, done, h⟩ hop
    exact h.step hop
  obtain ⟨old, done, hrun⟩ := hsteady.invariant hstep
    ⟨[], [], inPacket_init codec bufferMicRptr bufferMicEnc pkt⟩
  exact hrun.untorn

/-- A silent microphone. -/
def silent (wptr : U16) : Mic := ⟨wptr, fun _ => 0#16⟩

/-- A call whose first `n` notifications are taken. -/
def takes (n : Nat) : Call := ⟨true, false, silent 0#16, 0#8, fun i => decide (i < n)⟩

/-- The remote control at its start. -/
def boot : Rcu := Rcu.init ⟨⟨0, 0⟩, 0#16⟩ 0#16 (fun _ => 0#8) 0#8

/-- A packet sent in two calls, and the next one in one. -/
theorem fragments_whole_resumed :
    (runFrom Rcu.step boot
      [.encode (silent 256#16), .encode (silent 512#16), .task (takes 3), .task (takes 4),
        .task (takes 7)]).Untorn :=
  fragments_whole ⟨⟨0, 0⟩, 0#16⟩ 0#16 (fun _ => 0#8) 0#8 (by decide +kernel)

/-- A call is cut off after one fragment; the next one sends the other six, and the first again;
and the third goes on with the second fragment of the next packet. -/
def cutOff : Rcu :=
  runFrom Rcu.step boot
    [.encode (silent 256#16), .encode (silent 512#16), .task (takes 1), .task (takes 7),
      .task (takes 6)]

/-- **A torn packet.**  Two groups of seven were sent, and are not the fragments of packets
encoded. -/
theorem fragments_torn :
    cutOff.sent.map Prod.fst = (List.range 7 ++ List.range 7).map (BitVec.ofNat 8) ∧
      ¬ cutOff.Untorn := by
  refine ⟨by decide +kernel, ?_⟩
  rintro ⟨packets, hsublist, hprefix⟩
  have hnone : ∀ packets ∈ cutOff.encoded.sublists,
      ¬ cutOff.sent <+: packets.flatMap fragments := by
    decide +kernel
  exact hnone packets (List.mem_sublists.mpr hsublist) hprefix

end TelinkB91.Audio.Google
