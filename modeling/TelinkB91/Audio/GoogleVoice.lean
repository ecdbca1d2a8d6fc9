import TelinkB91.Audio.Agreement
import TelinkB91.Lib.ByteMemory
import TelinkB91.Lib.Ring

/-!
# Audio — voice over the Google service

`proc_mic_encoder` codes each block of samples into a packet, in the next of four slots, and gives
up the oldest packet when there are more than four.  `task_audio` calls it, and then sends the
oldest packet in seven notifications; where one is not taken it returns, and `audio_send_index`
says at which fragment the next call goes on.

Memory is `buffer_mic_enc` as bytes, from address 0.  An `Rcu` also holds what was encoded and what
was sent up to now, which the code does not.

* `length_packet`: a packet has 134 bytes.
* `pending_encode`, `pending_encode_full`: what an encoder step does to the packets in the slots.
* `fragment_sent`: what a notification sends of the oldest packet.
-/

namespace TelinkB91.Audio.Google
open Nibbles ByteMemory Ring

/-- `ADPCM_PACKET_LEN` of the Google variant. -/
def adpcmPacketLen : Nat := 136

/-- `TL_MIC_BUFFER_SIZE` of the Google variant. -/
def tlMicBufferSize : Nat := 1024

/-- `TL_MIC_PACKET_BUFFER_NUM`. -/
def tlMicPacketBufferNum : Nat := 4

/-- The length of what `mic_to_adpcm_split` writes. -/
def packetLen : Nat := 134

/-- A notification: `audio_send_index`, and the value. -/
abbrev Fragment := U8 × List U8

/-- The globals of the remote control; the packets encoded and the fragments sent up to now. -/
structure Rcu where
  codec : Statics
  bufferMicRptr : U16
  bufferMicEnc : Memory
  bufferMicPktWptr : U8
  bufferMicPktRptr : U8
  audioSendIndex : U8
  encoded : List (List U8)
  sent : List Fragment

/-- What `proc_mic_encoder` finds: `mic_wptr`, and the samples of `buffer_mic` as the filters of
the build leave them. -/
structure Mic where
  wptr : U16
  buffer : Nat → S16

/-- What `task_audio` finds: whether its 500 us are over, what `app_audio_timeout_proc` returns,
the microphone, `blc_ll_getTxFifoNumber`, and which of its notifications return `BLE_SUCCESS`. -/
structure Call where
  exceeded : Bool
  timeout : Bool
  mic : Mic
  txFifoNumber : U8
  ok : Nat → Bool

/-! ### The encoder -/

/-- `l`, the samples that are new. -/
def Rcu.available (s : Rcu) (mic : Mic) : U16 :=
  if mic.wptr ≥ s.bufferMicRptr then mic.wptr - s.bufferMicRptr else 0xffff#16

/-- A block of samples is there. -/
def Rcu.Ready (s : Rcu) (mic : Mic) : Prop := (s.available mic).toNat ≥ tlMicBufferSize >>> 2

/-- The samples from `ps` on. -/
def Rcu.block (s : Rcu) (mic : Mic) : List S16 :=
  (List.range Variant.google.unitSize).map fun i => mic.buffer (s.bufferMicRptr.toNat + i)

/-- The packet of the block, and what the encoder keeps. -/
def Rcu.split (s : Rcu) (mic : Mic) : Statics × List U8 :=
  micToAdpcmSplit .google s.codec (s.block mic) true

/-- The slot of a counter. -/
def packetAddr (c : U8) : Nat := slot tlMicPacketBufferNum c * (4 * (adpcmPacketLen >>> 2))

/-- `pkts > TL_MIC_PACKET_BUFFER_NUM`, with `buffer_mic_pkt_wptr` counted up. -/
def Rcu.Overflow (s : Rcu) : Prop :=
  occupied s.bufferMicPktRptr (s.bufferMicPktWptr + 1) &&& (tlMicPacketBufferNum * 2 - 1) >
    tlMicPacketBufferNum

instance (s : Rcu) (mic : Mic) : Decidable (s.Ready mic) := by unfold Rcu.Ready; infer_instance

instance (s : Rcu) : Decidable s.Overflow := by unfold Rcu.Overflow; infer_instance

/-- The packet stored, and the counters after it. -/
def Rcu.encode (s : Rcu) (mic : Mic) : Rcu := { s with
  codec := (s.split mic).1
  bufferMicRptr :=
    if s.bufferMicRptr ≠ 0#16 then 0#16 else BitVec.ofNat 16 (tlMicBufferSize >>> 2)
  bufferMicEnc := write s.bufferMicEnc (packetAddr s.bufferMicPktWptr) (s.split mic).2
  bufferMicPktWptr := s.bufferMicPktWptr + 1
  bufferMicPktRptr := if s.Overflow then s.bufferMicPktRptr + 1 else s.bufferMicPktRptr
  encoded := s.encoded ++ [(s.split mic).2] }

@[simp] theorem encode_audioSendIndex (s : Rcu) (mic : Mic) :
    (s.encode mic).audioSendIndex = s.audioSendIndex := by
  rw [Rcu.encode]

@[simp] theorem encode_encoded (s : Rcu) (mic : Mic) :
    (s.encode mic).encoded = s.encoded ++ [(s.split mic).2] := by
  rw [Rcu.encode]

@[simp] theorem encode_sent (s : Rcu) (mic : Mic) : (s.encode mic).sent = s.sent := by
  rw [Rcu.encode]

def Rcu.procMicEncoder (s : Rcu) (mic : Mic) : Rcu := if s.Ready mic then s.encode mic else s

@[simp] theorem procMicEncoder_audioSendIndex (s : Rcu) (mic : Mic) :
    (s.procMicEncoder mic).audioSendIndex = s.audioSendIndex := by
  rw [Rcu.procMicEncoder]
  split
  · exact encode_audioSendIndex s mic
  · rfl

/-! ### The sender -/

def Rcu.micEncoderDataBuffer (s : Rcu) : Option Nat :=
  if s.bufferMicPktRptr = s.bufferMicPktWptr then none else some (packetAddr s.bufferMicPktRptr)

def Rcu.micEncoderDataReadOk (s : Rcu) : Rcu :=
  { s with bufferMicPktRptr := s.bufferMicPktRptr + 1 }

/-- `audio_send_length`. -/
def audioSendLength (audioSendIndex : U8) : Nat :=
  if audioSendIndex < 6#8 then 20 else if audioSendIndex = 6#8 then 14 else 0

/-- The body of the loop, after a notification of the packet at `p` that was taken. -/
def Rcu.notified (s : Rcu) (p : Nat) : Rcu :=
  let value := read s.bufferMicEnc (p + s.audioSendIndex.toNat * 20)
    (audioSendLength s.audioSendIndex)
  let s := { s with
    sent := s.sent ++ [(s.audioSendIndex, value)]
    audioSendIndex := s.audioSendIndex + 1 }
  if s.audioSendIndex = 7#8 then { s with audioSendIndex := 0#8 }.micEncoderDataReadOk else s

/-- The loop from its round `i` on, with `n` rounds left. -/
def Rcu.sendLoop (ok : Nat → Bool) (p : Nat) : Nat → Nat → Rcu → Rcu
  | 0, _, s => s
  | n + 1, i, s => if ok i then sendLoop ok p n (i + 1) (s.notified p) else s

def Rcu.taskAudio (s : Rcu) (c : Call) : Rcu :=
  if ¬ c.exceeded then s
  else if c.timeout then s
  else
    let s := s.procMicEncoder c.mic
    if c.txFifoNumber < 7#8 then
      match s.micEncoderDataBuffer with
      | none => s
      | some p => s.sendLoop c.ok p 7 0
    else s

/-- A step: the encoder, or `task_audio`. -/
inductive Op where
  | encode (mic : Mic)
  | task (c : Call)

def Rcu.step (s : Rcu) : Op → Rcu
  | .encode mic => s.procMicEncoder mic
  | .task c => s.taskAudio c

/-! ### The packets in the slots -/

/-- The packet in the slot `k`. -/
def Rcu.slots (s : Rcu) (k : Nat) : List U8 :=
  read s.bufferMicEnc (k * (4 * (adpcmPacketLen >>> 2))) packetLen

/-- The packets in the slots in use, oldest first. -/
def Rcu.pending (s : Rcu) : List (List U8) :=
  Ring.pending tlMicPacketBufferNum s.slots s.bufferMicPktRptr s.bufferMicPktWptr

/-- The number of packets in the slots. -/
def Rcu.pkts (s : Rcu) : Nat := occupied s.bufferMicPktRptr s.bufferMicPktWptr

theorem Rcu.length_pending (s : Rcu) : s.pending.length = s.pkts := Ring.length_pending

theorem isSize : IsSize tlMicPacketBufferNum := ⟨2, by decide, rfl⟩

theorem length_packet (s : Rcu) (mic : Mic) : (s.split mic).2.length = packetLen := by
  have hblock : (s.block mic).length = 256 := by
    rw [Rcu.block, List.length_map, List.length_range]
    rfl
  -- two codes a byte, behind three words of header
  obtain ⟨ws, hpd, hws⟩ := nibbles_encLoop map_swap_swapWord (i := 0) rfl ⟨s.codec.st, 0#16, []⟩
    (s.block mic) (by rw [hblock])
  have hlen := congrArg List.length hws
  rw [length_nibbles, List.length_map, length_codes, hblock] at hlen
  change (bytesOf _ ++ bytesOf (encLoop swapWord 0 ⟨s.codec.st, 0#16, []⟩ (s.block mic)).pd).length
    = 134
  rw [List.length_append, hpd, List.nil_append, if_pos rfl, length_bytesOf, List.length_cons,
    List.length_cons, List.length_singleton]
  omega

/-- A packet in the slot of `buffer_mic_pkt_wptr`. -/
theorem slots_encode_self (s : Rcu) (mic : Mic) :
    (s.encode mic).slots (slot tlMicPacketBufferNum s.bufferMicPktWptr) = (s.split mic).2 := by
  have hread := read_write s.bufferMicEnc (packetAddr s.bufferMicPktWptr) (s.split mic).2
  rw [length_packet] at hread
  exact hread

theorem slots_encode {s : Rcu} {k : Nat} (h : k ≠ slot tlMicPacketBufferNum s.bufferMicPktWptr)
    (mic : Mic) : (s.encode mic).slots k = s.slots k := by
  have hn : packetLen ≤ 4 * (adpcmPacketLen >>> 2) := by decide
  have hread := read_write_slot (m := s.bufferMicEnc) (a := 0) hn
    ((length_packet s mic).trans_le hn) h
  rw [Nat.zero_add, Nat.zero_add] at hread
  exact hread

/-- The encoder gives up a packet where all slots are in use. -/
theorem overflow_iff {s : Rcu} (h : s.pkts ≤ tlMicPacketBufferNum) :
    s.Overflow ↔ s.pkts = tlMicPacketBufferNum := by
  have hlt : s.pkts < 255 := Nat.lt_of_le_of_lt h (by decide)
  have hpush : occupied s.bufferMicPktRptr (s.bufferMicPktWptr + 1) = s.pkts + 1 :=
    occupied_push hlt
  rw [Rcu.Overflow, occupied_and isSize (by decide) (hpush.trans_le (Nat.succ_le_succ h)), hpush]
  omega

/-- **An encoder step with a free slot.** -/
theorem pending_encode {s : Rcu} (h : s.pkts < tlMicPacketBufferNum) (mic : Mic) :
    (s.encode mic).pending = s.pending ++ [(s.split mic).2] := by
  have hrptr : (s.encode mic).bufferMicPktRptr = s.bufferMicPktRptr :=
    if_neg fun hover => Nat.ne_of_lt h ((overflow_iff h.le).mp hover)
  rw [Rcu.pending, hrptr, ← slots_encode_self s mic]
  exact pending_push isSize h fun k hk => slots_encode hk mic

/-- **An encoder step with no free slot.**  The oldest packet is given up. -/
theorem pending_encode_full {s : Rcu} (h : s.pkts = tlMicPacketBufferNum) (mic : Mic) :
    (s.encode mic).pending = s.pending.tail ++ [(s.split mic).2] := by
  have hrptr : (s.encode mic).bufferMicPktRptr = s.bufferMicPktRptr + 1 :=
    if_pos ((overflow_iff h.le).mpr h)
  rw [Rcu.pending, hrptr, ← slots_encode_self s mic]
  exact pending_push_full isSize h fun k hk => slots_encode hk mic

/-- The packet the sender takes its fragments from. -/
theorem pending_cons {s : Rcu} (h : s.bufferMicPktRptr ≠ s.bufferMicPktWptr) :
    s.pending = s.slots (slot tlMicPacketBufferNum s.bufferMicPktRptr) ::
      s.micEncoderDataReadOk.pending :=
  pending_pop h

theorem micEncoderDataBuffer_some {s : Rcu} {p : Nat} (h : s.micEncoderDataBuffer = some p) :
    s.pending ≠ [] ∧ p = packetAddr s.bufferMicPktRptr := by
  rw [Rcu.micEncoderDataBuffer] at h
  split at h
  · exact nomatch h
  · rename_i hne
    cases h
    exact ⟨fun hnil => hne (pending_eq_nil.mp hnil), rfl⟩

/-! ### Fragments -/

/-- The fragments of a packet: the bytes [0, 20) to [120, 134). -/
def fragments (packet : List U8) : List Fragment :=
  (List.range 7).map fun i => (BitVec.ofNat 8 i, (packet.drop (20 * i)).take 20)

@[simp] theorem length_fragments (packet : List U8) : (fragments packet).length = 7 := by
  rw [fragments, List.length_map, List.length_range]

theorem audioSendLength_eq {k : U8} (h : k < 7#8) :
    audioSendLength k = min 20 (packetLen - 20 * k.toNat) := by
  revert k
  decide

/-- **What a notification sends.**  The fragment with the index, of the packet at `p`. -/
theorem fragment_sent {s : Rcu} (h : s.audioSendIndex < 7#8) (c : U8) :
    (fragments (s.slots (slot tlMicPacketBufferNum c)))[s.audioSendIndex.toNat]? =
      some (s.audioSendIndex, read s.bufferMicEnc (packetAddr c + s.audioSendIndex.toNat * 20)
        (audioSendLength s.audioSendIndex)) := by
  have hlt : s.audioSendIndex.toNat < 7 := h
  rw [fragments, List.getElem?_map, List.getElem?_range hlt, Option.map_some, BitVec.ofNat_toNat,
    BitVec.setWidth_eq, Rcu.slots, drop_read, take_read, ← audioSendLength_eq h, Nat.mul_comm 20]
  rfl

end TelinkB91.Audio.Google
