import TelinkB91.Audio.GoogleVoice
import TelinkB91.Audio.LockStep

/-!
# Audio — voice over the HID service

The remote control for the HID service codes blocks of 240 samples into packets of 120 bytes
without a header, in four slots; while all four are in use it does not code.  `task_audio` sends
the oldest packet in six notifications of 20 bytes.  It makes up to twelve tries in one call, does
not move on where a try is not taken, and returns after the sixth fragment.

`ui_enable_mic` clears the counters and `audio_send_idx`, and an `Rcu` also holds what was encoded
and what was sent since.

* `InOrder.step`: what one step keeps between the two.
* `stream_in_order`: what was sent is the beginning of what was encoded, and a packet is stored
  only into a slot whose earlier packets were sent whole.
-/

namespace TelinkB91.Audio.HidVoice
open ByteMemory Google Hid Nibbles Ring Runs

/-- `ADPCM_PACKET_LEN` of the HID variant. -/
def adpcmPacketLen : Nat := 120

/-- `TL_MIC_BUFFER_SIZE` of the HID variant. -/
def tlMicBufferSize : Nat := 960

/-- The globals of the remote control; the packets encoded in the session, each with its slot, and
the notifications taken, each with its distance from `HID_AUDIO_REPORT_INPUT_FIRST_DP_H`. -/
structure Rcu where
  st : State
  bufferMicRptr : U16
  bufferMicEnc : Memory
  bufferMicPktWptr : U8
  bufferMicPktRptr : U8
  audioSendIdx : U8
  encoded : List (Nat × List U8)
  sent : List (Nat × List U8)

/-- What `task_audio` finds: whether its 500 us are over, the microphone,
`blc_ll_getTxFifoNumber`, and which of its notifications return `BLE_SUCCESS`. -/
structure Call where
  exceeded : Bool
  mic : Mic
  txFifoNumber : U8
  ok : Nat → Bool

def Rcu.audioMicParamInit (s : Rcu) : Rcu :=
  { s with st := ⟨0, 0⟩, bufferMicPktWptr := 0#8, bufferMicPktRptr := 0#8 }

/-- What `ui_enable_mic` does to the globals; opening the microphone starts a session. -/
def Rcu.uiEnableMic (s : Rcu) (en : Bool) : Rcu :=
  if en then
    { s.audioMicParamInit with
      audioSendIdx := 0#8
      bufferMicPktRptr := 0#8
      bufferMicPktWptr := 0#8
      encoded := []
      sent := [] }
  else { s with bufferMicPktRptr := 0#8, bufferMicPktWptr := 0#8 }

/-! ### The encoder -/

/-- `l`, the samples that are new. -/
def Rcu.available (s : Rcu) (mic : Mic) : U16 :=
  if mic.wptr ≥ s.bufferMicRptr then mic.wptr - s.bufferMicRptr else 0xffff#16

/-- A block of samples is there, and a slot is free. -/
def Rcu.Ready (s : Rcu) (mic : Mic) : Prop :=
  (s.available mic).toNat ≥ tlMicBufferSize >>> 2 ∧
    occupied s.bufferMicPktRptr s.bufferMicPktWptr &&& (tlMicPacketBufferNum * 2 - 1) <
      tlMicPacketBufferNum

instance (s : Rcu) (mic : Mic) : Decidable (s.Ready mic) :=
  inferInstanceAs (Decidable (_ ∧ _))

/-- The samples from `ps` on. -/
def Rcu.block (s : Rcu) (mic : Mic) : List S16 :=
  (List.range unitSize).map fun i => mic.buffer (s.bufferMicRptr.toNat + i)

/-- The packet of the block, and what the encoder keeps. -/
def Rcu.split (s : Rcu) (mic : Mic) : State × List U8 := Hid.micToAdpcmSplit s.st (s.block mic)

/-- The address of a slot. -/
def slotAddr (k : Nat) : Nat := k * (4 * (adpcmPacketLen >>> 2))

/-- The packet stored, and the counters after it. -/
def Rcu.encode (s : Rcu) (mic : Mic) : Rcu := { s with
  st := (s.split mic).1
  bufferMicRptr :=
    if s.bufferMicRptr ≠ 0#16 then 0#16 else BitVec.ofNat 16 (tlMicBufferSize >>> 2)
  bufferMicEnc :=
    write s.bufferMicEnc (slotAddr (slot tlMicPacketBufferNum s.bufferMicPktWptr)) (s.split mic).2
  bufferMicPktWptr := s.bufferMicPktWptr + 1
  encoded := s.encoded ++ [(slot tlMicPacketBufferNum s.bufferMicPktWptr, (s.split mic).2)] }

@[simp] theorem encode_bufferMicPktWptr (s : Rcu) (mic : Mic) :
    (s.encode mic).bufferMicPktWptr = s.bufferMicPktWptr + 1 := by
  rw [Rcu.encode]

@[simp] theorem encode_bufferMicPktRptr (s : Rcu) (mic : Mic) :
    (s.encode mic).bufferMicPktRptr = s.bufferMicPktRptr := by
  rw [Rcu.encode]

@[simp] theorem encode_audioSendIdx (s : Rcu) (mic : Mic) :
    (s.encode mic).audioSendIdx = s.audioSendIdx := by
  rw [Rcu.encode]

@[simp] theorem encode_encoded (s : Rcu) (mic : Mic) : (s.encode mic).encoded =
    s.encoded ++ [(slot tlMicPacketBufferNum s.bufferMicPktWptr, (s.split mic).2)] := by
  rw [Rcu.encode]

@[simp] theorem encode_sent (s : Rcu) (mic : Mic) : (s.encode mic).sent = s.sent := by
  rw [Rcu.encode]

def Rcu.procMicEncoder (s : Rcu) (mic : Mic) : Rcu := if s.Ready mic then s.encode mic else s

/-! ### The sender -/

def Rcu.micEncoderDataBuffer (s : Rcu) : Option Nat :=
  if s.bufferMicPktRptr = s.bufferMicPktWptr then none
  else some (slotAddr (slot tlMicPacketBufferNum s.bufferMicPktRptr))

/-- A notification of the packet at `p` that was taken. -/
def Rcu.notified (s : Rcu) (p : Nat) : Rcu := { s with
  sent := s.sent ++
    [(s.audioSendIdx.toNat % 3 * 4, read s.bufferMicEnc (p + 20 * s.audioSendIdx.toNat) 20)]
  audioSendIdx := s.audioSendIdx + 1 }

/-- The packet counted out. -/
def Rcu.finished (s : Rcu) : Rcu :=
  { s with audioSendIdx := 0#8, bufferMicPktRptr := s.bufferMicPktRptr + 1 }

/-- The loop from its round `i` on, with `n` rounds left. -/
def Rcu.sendLoop (ok : Nat → Bool) (p : Nat) : Nat → Nat → Rcu → Rcu
  | 0, _, s => s
  | n + 1, i, s =>
    let s := if ok i then s.notified p else s
    if s.audioSendIdx = 6#8 then s.finished else sendLoop ok p n (i + 1) s

def Rcu.taskAudio (s : Rcu) (c : Call) : Rcu :=
  if ¬ c.exceeded then s
  else
    let s := s.procMicEncoder c.mic
    if c.txFifoNumber.toNat < 8 + s.audioSendIdx.toNat then
      match s.micEncoderDataBuffer with
      | none => s
      | some p => s.sendLoop c.ok p 12 0
    else s

/-- A step: the encoder, or `task_audio`. -/
inductive Op where
  | encode (mic : Mic)
  | task (c : Call)

def Rcu.step (s : Rcu) : Op → Rcu
  | .encode mic => s.procMicEncoder mic
  | .task c => s.taskAudio c

/-! ### The packets in the slots -/

/-- The slot `k` and the packet in it. -/
def Rcu.slots (s : Rcu) (k : Nat) : Nat × List U8 :=
  (k, read s.bufferMicEnc (slotAddr k) adpcmPacketLen)

/-- The slots in use with their packets, oldest first. -/
def Rcu.pending (s : Rcu) : List (Nat × List U8) :=
  Ring.pending tlMicPacketBufferNum s.slots s.bufferMicPktRptr s.bufferMicPktWptr

/-- The number of packets in the slots. -/
def Rcu.pkts (s : Rcu) : Nat := occupied s.bufferMicPktRptr s.bufferMicPktWptr

theorem Rcu.length_pending (s : Rcu) : s.pending.length = s.pkts := Ring.length_pending

theorem length_packet (s : Rcu) (mic : Mic) : (s.split mic).2.length = adpcmPacketLen := by
  have hblock : (s.block mic).length = 240 := by
    rw [Rcu.block, List.length_map, List.length_range]
    rfl
  -- two codes a byte
  obtain ⟨ws, hpd, hws⟩ := nibbles_encLoop map_swap_swapWord (i := 0) rfl ⟨s.st, 0#16, []⟩
    (s.block mic) (by rw [hblock])
  have hlen := congrArg List.length hws
  rw [length_nibbles, List.length_map, length_codes, hblock] at hlen
  rw [Rcu.split, Hid.micToAdpcmSplit, hpd, List.nil_append, adpcmPacketLen]
  dsimp only
  omega

theorem ready_iff {s : Rcu} (h : s.pkts ≤ tlMicPacketBufferNum) (mic : Mic) : s.Ready mic ↔
    (s.available mic).toNat ≥ tlMicBufferSize >>> 2 ∧ s.pkts < tlMicPacketBufferNum := by
  rw [Rcu.Ready, occupied_and isSize (by decide) (Nat.le_succ_of_le h), Rcu.pkts]

theorem slots_encode_self (s : Rcu) (mic : Mic) :
    (s.encode mic).slots (slot tlMicPacketBufferNum s.bufferMicPktWptr) =
      (slot tlMicPacketBufferNum s.bufferMicPktWptr, (s.split mic).2) := by
  have hread := read_write s.bufferMicEnc
    (slotAddr (slot tlMicPacketBufferNum s.bufferMicPktWptr)) (s.split mic).2
  rw [length_packet] at hread
  rw [Rcu.slots, Rcu.encode, hread]

theorem slots_encode {s : Rcu} {k : Nat} (h : k ≠ slot tlMicPacketBufferNum s.bufferMicPktWptr)
    (mic : Mic) : (s.encode mic).slots k = s.slots k := by
  have hread := read_write_slot (m := s.bufferMicEnc) (a := 0) (n := adpcmPacketLen) le_rfl
    (length_packet s mic).le h
  rw [Nat.zero_add, Nat.zero_add] at hread
  rw [Rcu.slots, Rcu.encode, Rcu.slots]
  exact congrArg (Prod.mk k) hread

/-- **An encoder step.**  The packet is the last in the slots. -/
theorem pending_encode {s : Rcu} (h : s.pkts < tlMicPacketBufferNum) (mic : Mic) :
    (s.encode mic).pending =
      s.pending ++ [(slot tlMicPacketBufferNum s.bufferMicPktWptr, (s.split mic).2)] := by
  rw [Rcu.pending, encode_bufferMicPktRptr, encode_bufferMicPktWptr, ← slots_encode_self s mic]
  exact pending_push isSize h fun k hk => slots_encode hk mic

/-- The packet the sender takes its fragments from. -/
theorem pending_cons {s : Rcu} (h : s.pending ≠ []) :
    s.pending = s.slots (slot tlMicPacketBufferNum s.bufferMicPktRptr) :: s.finished.pending :=
  pending_pop fun heq => h (pending_eq_nil.mpr heq)

theorem micEncoderDataBuffer_some {s : Rcu} {p : Nat} (h : s.micEncoderDataBuffer = some p) :
    s.pending ≠ [] ∧ p = slotAddr (slot tlMicPacketBufferNum s.bufferMicPktRptr) := by
  rw [Rcu.micEncoderDataBuffer] at h
  split at h
  · exact nomatch h
  · rename_i hne
    cases h
    exact ⟨fun hnil => hne (pending_eq_nil.mp hnil), rfl⟩

/-! ### The stream -/

/-- The bytes of packets or notifications, one after the other. -/
def bytesIn (l : List (Nat × List U8)) : List U8 := l.flatMap Prod.snd

theorem bytesIn_append (l l' : List (Nat × List U8)) :
    bytesIn (l ++ l') = bytesIn l ++ bytesIn l' := List.flatMap_append

/-- What was sent of the packet in progress. -/
def Rcu.part (s : Rcu) : List U8 := (bytesIn s.pending).take (20 * s.audioSendIdx.toNat)

/-- A packet that the step stores is the only one in its slot that was not sent whole. -/
def Spares (s : Rcu) (op : Op) : Prop :=
  ∀ b packet, (s.step op).encoded = s.encoded ++ [(b, packet)] →
    ∀ k packet', s.encoded[k]? = some (b, packet') → 6 * (k + 1) ≤ s.sent.length

/-- Between two steps: the packets in `old` were sent, and the first one in the slots as far as
`audio_send_idx` says. -/
structure InOrder (s : Rcu) (old : List (Nat × List U8)) : Prop where
  index : s.audioSendIdx < 6#8
  room : s.pkts ≤ tlMicPacketBufferNum
  started : s.audioSendIdx ≠ 0#8 → s.pending ≠ []
  encoded : s.encoded = old ++ s.pending
  sent : bytesIn s.sent = bytesIn old ++ s.part
  count : s.sent.length = 6 * old.length + s.audioSendIdx.toNat

section steps

variable {s : Rcu} {old : List (Nat × List U8)}

theorem part_zero (h : s.audioSendIdx = 0#8) : s.part = [] := by
  rw [Rcu.part, h]
  rfl

/-- The packet in progress is the head of the slots. -/
theorem part_head (h : s.audioSendIdx.toNat ≤ 6) (hne : s.pending ≠ []) : s.part =
    (s.slots (slot tlMicPacketBufferNum s.bufferMicPktRptr)).2.take
      (20 * s.audioSendIdx.toNat) := by
  rw [Rcu.part, pending_cons hne, bytesIn, List.flatMap_cons]
  refine List.take_append_of_le_length ?_
  rw [Rcu.slots, length_read, adpcmPacketLen]
  omega

/-- **An encoder step.** -/
theorem InOrder.encode (h : InOrder s old) (hspace : s.pkts < tlMicPacketBufferNum) (mic : Mic) :
    InOrder (s.encode mic) old := by
  have hpending := pending_encode hspace mic
  have hlen := congrArg List.length hpending
  rw [List.length_append, Rcu.length_pending, Rcu.length_pending] at hlen
  have hne : (s.encode mic).pending ≠ [] := by
    rw [hpending]
    exact List.append_ne_nil_of_right_ne_nil _ (List.cons_ne_nil _ _)
  have hindex : s.audioSendIdx.toNat < 6 := h.index
  -- a packet sent in part stays the first one
  have hpart : (s.encode mic).part = s.part := by
    by_cases hzero : s.audioSendIdx = 0#8
    · rw [part_zero hzero, part_zero ((encode_audioSendIdx s mic).trans hzero)]
    · rw [Rcu.part, Rcu.part, hpending, bytesIn_append, encode_audioSendIdx]
      refine List.take_append_of_le_length ?_
      rw [pending_cons (h.started hzero), bytesIn, List.flatMap_cons, List.length_append,
        Rcu.slots, length_read, adpcmPacketLen]
      omega
  constructor
  case index =>
    rw [encode_audioSendIdx]
    exact h.index
  case room => exact hlen.trans_le hspace
  case started =>
    intro _
    exact hne
  case encoded => rw [encode_encoded, h.encoded, hpending, List.append_assoc]
  case sent => rw [encode_sent, hpart, h.sent]
  case count => rw [encode_sent, encode_audioSendIdx, h.count]

theorem InOrder.procMicEncoder (h : InOrder s old) (mic : Mic) :
    InOrder (s.procMicEncoder mic) old := by
  rw [Rcu.procMicEncoder]
  split
  · rename_i hready
    exact h.encode ((ready_iff h.room mic).mp hready).2 mic
  · exact h

/-- One fragment more. -/
theorem take_fragment (p n : Nat) (m : Memory) (h : n < 6) :
    (read m p adpcmPacketLen).take (20 * (n + 1)) =
      (read m p adpcmPacketLen).take (20 * n) ++ read m (p + 20 * n) 20 := by
  have hmin : min (20 * (n + 1)) adpcmPacketLen = 20 * n + 20 := by
    rw [adpcmPacketLen]
    omega
  have hmin' : min (20 * n) adpcmPacketLen = 20 * n := by
    rw [adpcmPacketLen]
    omega
  rw [take_read, take_read, hmin, hmin', read_append]

/-- What a notification that is taken sends. -/
theorem notified_sent (h : InOrder s old) (hne : s.pending ≠ []) :
    let s' := s.notified (slotAddr (slot tlMicPacketBufferNum s.bufferMicPktRptr))
    bytesIn s'.sent = bytesIn old ++ s'.part ∧
      s'.sent.length = 6 * old.length + s'.audioSendIdx.toNat ∧
      s'.audioSendIdx.toNat = s.audioSendIdx.toNat + 1 := by
  intro s'
  have hindex : s.audioSendIdx.toNat < 6 := h.index
  have hnext : s'.audioSendIdx.toNat = s.audioSendIdx.toNat + 1 := by
    change (s.audioSendIdx + 1).toNat = _
    bv_omega
  have hhead : s'.part =
      (s.slots (slot tlMicPacketBufferNum s.bufferMicPktRptr)).2.take
        (20 * s'.audioSendIdx.toNat) := part_head (hnext.trans_le hindex) hne
  refine ⟨?_, ?_, hnext⟩
  · rw [hhead, hnext, Rcu.slots, take_fragment _ _ _ hindex, ← List.append_assoc]
    change bytesIn (s.sent ++ _) = _
    rw [bytesIn_append, h.sent, part_head hindex.le hne]
    exact congrArg (_ ++ ·) (List.append_nil _)
  · change (s.sent ++ _).length = _
    rw [List.length_append, h.count, hnext]
    rfl

/-- **A fragment before the sixth.** -/
theorem InOrder.notified (h : InOrder s old) (hne : s.pending ≠ [])
    (hlast : (s.notified (slotAddr (slot tlMicPacketBufferNum s.bufferMicPktRptr))).audioSendIdx ≠
      6#8) :
    InOrder (s.notified (slotAddr (slot tlMicPacketBufferNum s.bufferMicPktRptr))) old := by
  obtain ⟨hsent, hcount, hnext⟩ := notified_sent h hne
  have hindex : s.audioSendIdx.toNat < 6 := h.index
  refine ⟨?_, h.room, fun _ => hne, h.encoded, hsent, hcount⟩
  exact Nat.lt_of_le_of_ne (hnext.trans_le hindex) fun heq => hlast (BitVec.eq_of_toNat_eq heq)

/-- **The sixth fragment.**  The packet is sent, and the slot counted out. -/
theorem InOrder.finished (h : InOrder s old) (hne : s.pending ≠ [])
    (hlast : (s.notified (slotAddr (slot tlMicPacketBufferNum s.bufferMicPktRptr))).audioSendIdx =
      6#8) :
    InOrder (s.notified (slotAddr (slot tlMicPacketBufferNum s.bufferMicPktRptr))).finished
      (old ++ [s.slots (slot tlMicPacketBufferNum s.bufferMicPktRptr)]) := by
  obtain ⟨hsent, hcount, -⟩ := notified_sent h hne
  have hcons := pending_cons hne
  have hlen := congrArg List.length hcons
  rw [List.length_cons, Rcu.length_pending, Rcu.length_pending] at hlen
  have hall : (s.notified (slotAddr (slot tlMicPacketBufferNum s.bufferMicPktRptr))).part =
      (s.slots (slot tlMicPacketBufferNum s.bufferMicPktRptr)).2 := by
    refine (part_head (s := s.notified _) (by rw [hlast]; decide) hne).trans ?_
    rw [hlast]
    exact List.take_of_length_le (length_read _ _ _).le
  constructor
  case index => exact (by decide : 0#8 < 6#8)
  case room => exact (Nat.le_of_succ_le hlen.ge).trans h.room
  case started =>
    intro hzero
    exact absurd rfl hzero
  case encoded =>
    change s.encoded = _ ++ s.finished.pending
    rw [h.encoded, hcons, List.append_assoc]
    rfl
  case sent =>
    rw [part_zero rfl, List.append_nil, bytesIn_append]
    exact hsent.trans (congrArg (_ ++ ·) (hall.trans (List.append_nil _).symm))
  case count =>
    rw [hlast] at hcount
    rw [List.length_append, Nat.mul_add]
    exact hcount

/-- **The loop.** -/
theorem InOrder.sendLoop (h : InOrder s old) (hne : s.pending ≠ []) (ok : Nat → Bool) (n i : Nat) :
    ∃ old, InOrder (s.sendLoop ok (slotAddr (slot tlMicPacketBufferNum s.bufferMicPktRptr)) n i)
      old := by
  -- on the rounds left
  induction n generalizing s i with
  | zero => exact ⟨old, h⟩
  | succ n ih =>
      rw [Rcu.sendLoop]
      by_cases hok : ok i = true
      · rw [if_pos hok]
        split
        · rename_i hlast
          exact ⟨_, h.finished hne hlast⟩
        · rename_i hlast
          exact ih (s := s.notified _) (h.notified hne hlast) hne (i + 1)
      · -- a try that is not taken leaves everything as it is
        rw [if_neg hok, if_neg fun hlast => absurd h.index (by rw [hlast]; decide)]
        exact ih h hne (i + 1)

theorem InOrder.taskAudio (h : InOrder s old) (c : Call) : ∃ old, InOrder (s.taskAudio c) old := by
  rw [Rcu.taskAudio]
  split
  · exact ⟨old, h⟩
  · have h := h.procMicEncoder c.mic
    dsimp only
    split
    · split
      · exact ⟨old, h⟩
      · rename_i p hp
        obtain ⟨hne, rfl⟩ := micEncoderDataBuffer_some hp
        exact h.sendLoop hne c.ok 12 0
    · exact ⟨old, h⟩

/-- **One step.** -/
theorem InOrder.step (h : InOrder s old) (op : Op) : ∃ old, InOrder (s.step op) old := by
  cases op with
  | encode mic => exact ⟨old, h.procMicEncoder mic⟩
  | task c => exact h.taskAudio c

/-! ### What a step stores -/

theorem sendLoop_encoded (ok : Nat → Bool) (p n i : Nat) (s : Rcu) :
    (s.sendLoop ok p n i).encoded = s.encoded := by
  induction n generalizing s i with
  | zero => rfl
  | succ n ih =>
      have hround : (if ok i then s.notified p else s).encoded = s.encoded := by
        split
        · rfl
        · rfl
      rw [← hround, Rcu.sendLoop]
      generalize (if ok i then s.notified p else s) = t
      split
      · rfl
      · exact ih _ _

/-- A step that stores a packet has the encoder store it. -/
theorem step_encoded {op : Op} {b : Nat} {packet : List U8}
    (h : (s.step op).encoded = s.encoded ++ [(b, packet)]) :
    ∃ mic, (s.procMicEncoder mic).encoded = s.encoded ++ [(b, packet)] := by
  cases op with
  | encode mic => exact ⟨mic, h⟩
  | task c =>
      refine ⟨c.mic, ?_⟩
      rw [← h, Rcu.step, Rcu.taskAudio]
      split
      · rename_i hexceeded
        rw [Rcu.step, Rcu.taskAudio, if_pos hexceeded] at h
        exact absurd (List.self_eq_append_right.mp h) (List.cons_ne_nil _ _)
      · dsimp only
        split
        · split
          · rfl
          · exact (sendLoop_encoded _ _ _ _ _).symm
        · rfl

/-- **Back-pressure.**  The slot of a packet stored holds none that is still to be sent. -/
theorem InOrder.spares (h : InOrder s old) (op : Op) : Spares s op := by
  intro b packet hstored k packet' hk
  obtain ⟨mic, hencode⟩ := step_encoded hstored
  rw [Rcu.procMicEncoder] at hencode
  split at hencode
  · rename_i hready
    have hspace := ((ready_iff h.room mic).mp hready).2
    obtain ⟨rfl, -⟩ := Prod.mk.injEq _ _ _ _ ▸ List.singleton_inj.mp
      (List.append_cancel_left hencode)
    -- the packets in the slots are in other slots than this one
    have hold : k < old.length := by
      by_contra hge
      rw [h.encoded, List.getElem?_append_right (Nat.not_lt.mp hge)] at hk
      obtain ⟨j, hj, hslot⟩ := slot_apart_of_mem isSize hspace (List.mem_of_getElem? hk)
      exact hj (congrArg Prod.fst hslot)
    rw [h.count]
    exact (Nat.mul_le_mul_left 6 hold).trans (Nat.le_add_right _ _)
  · exact absurd (List.self_eq_append_right.mp hencode) (List.cons_ne_nil _ _)

end steps

/-! ### Sessions -/

theorem inOrder_uiEnableMic (s : Rcu) : InOrder (s.uiEnableMic true) [] := by
  have hpending : (s.uiEnableMic true).pending = [] := pending_self _
  constructor
  case index => exact (by decide : 0#8 < 6#8)
  case room =>
    rw [← Rcu.length_pending, hpending]
    exact Nat.zero_le _
  case started =>
    intro hzero
    exact absurd rfl hzero
  case encoded =>
    rw [hpending]
    rfl
  case sent =>
    rw [part_zero rfl]
    rfl
  case count => rfl

/-- **A session.**  Whatever the remote control held before `ui_enable_mic(1)`, and however encoder
steps and `task_audio` calls follow, the bytes sent are the beginning of the bytes encoded, and no
step stores a packet over one that was not sent whole. -/
theorem stream_in_order (before : Rcu) (ops : List Op) :
    bytesIn (runFrom Rcu.step (before.uiEnableMic true) ops).sent <+:
        bytesIn (runFrom Rcu.step (before.uiEnableMic true) ops).encoded ∧
      Along Rcu.step Spares (before.uiEnableMic true) ops := by
  have hstep : ∀ s op, (∃ old, InOrder s old) → ∃ old, InOrder (s.step op) old := by
    rintro s op ⟨old, h⟩
    exact h.step op
  have h₀ : ∃ old, InOrder (before.uiEnableMic true) old := ⟨[], inOrder_uiEnableMic before⟩
  constructor
  · obtain ⟨old, h⟩ := invariant hstep h₀ ops
    rw [h.encoded, bytesIn_append, h.sent]
    exact (List.prefix_append_right_inj _).mpr (List.take_prefix _ _)
  · refine (Along.intro ops).derive (fun s op h _ => hstep s op h) ?_ h₀
    rintro s op ⟨old, h⟩ -
    exact h.spares op

end TelinkB91.Audio.HidVoice
