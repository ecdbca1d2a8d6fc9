import TelinkB91.Serial.Transmit

/-!
# Serial — data from the master

`module_onReceiveData` turns an ATT write into an event, in the packet itself: the token and
`paramLen` are written over the head of the packet, `eventId` over the length, and everything from
the opcode on is moved up behind them.  The length has 16 bits, but `paramLen` has eight, and
`spp_send_data` sees only those.

* `eventOf_eq`, `eventAt_eventOf`: what the packet holds then, and what is sent of it.
* `data_complete_iff`: the event in the FIFO is complete, or there is none, unless `paramLen` has
  lost bits and is short enough for a slot.
* `data_cut`: 254 bytes, of which none is queued.
-/

namespace TelinkB91.Serial
open ByteMemory Fifo Ring

/-- `p->l2capLen`. -/
def l2capLen (p : Memory) : BitVec 16 := (p 2).setWidth 16 ||| (p 3).setWidth 16 <<< 8

/-- The packet, rewritten as an event. -/
def eventOf (p : Memory) : Memory :=
  let len := l2capLen p - 3#16
  let pEvt := write p 0 [0xFF#8]
  let pEvt := write pEvt 1 [(l2capLen pEvt + 2#16).setWidth 8]
  let pEvt := write pEvt 2 [0xA0#8, 0x07#8]
  copy pEvt 4 6 (len.toNat + 3)

/-- `module_onReceiveData`. -/
def moduleOnReceiveData (s : Tx) (p : Memory) : Tx :=
  let len := l2capLen p - 3#16
  if len > 0#16 then (sppSendData s hciFlagEventTlkModule (eventOf p)).1 else s

/-- The event `e` is queued, with all that the packet has from the opcode on. -/
structure QueuesAll (s t : Tx) (p : Memory) (e : List U8) : Prop where
  stored : t.sys = s.sys.store (framedEvent e)
  accepted : t.accepted = s.accepted ++ [e]
  paramLen : (e[1]?.map BitVec.toNat) = some ((l2capLen p).toNat + 2)
  payload : e.drop 4 = read p 6 (l2capLen p).toNat

/-- Nothing is queued, or a complete event. -/
def CompleteOrDropped (s t : Tx) (p : Memory) : Prop := t = s ∨ ∃ e, QueuesAll s t p e

/-- `paramLen` has lost bits, what is left is short enough for a slot, and a slot is free. -/
def CutShort (s : Tx) (p : Memory) : Prop :=
  256 ≤ (l2capLen p).toNat + 2 ∧ ((l2capLen p).toNat + 2) % 256 + 4 < s.sys.fifo.size ∧
    occupied s.sys.fifo.rptr s.sys.fifo.wptr < s.sys.fifo.num

/-! ### The packet -/

section packet

variable {p : Memory}

theorem toNat_sub_three (h : 3 ≤ (l2capLen p).toNat) :
    (l2capLen p - 3#16).toNat + 3 = (l2capLen p).toNat := by
  have hle : 3#16 ≤ l2capLen p := h
  rw [BitVec.toNat_sub_of_le hle]
  exact Nat.sub_add_cancel h

/-- **The event.**  The head is overwritten, and the rest is copied over what is behind the head. -/
theorem eventOf_eq (h : 3 ≤ (l2capLen p).toNat) : eventOf p =
    write p 0 ([0xFF#8, (l2capLen p + 2#16).setWidth 8, 0xA0#8, 0x07#8] ++
      read p 6 (l2capLen p).toNat) := by
  have hlen : l2capLen (write p 0 [0xFF#8]) = l2capLen p := rfl
  have hhead : write (write (write p 0 [0xFF#8]) 1 [(l2capLen p + 2#16).setWidth 8]) 2
      [0xA0#8, 0x07#8] =
        write p 0 [0xFF#8, (l2capLen p + 2#16).setWidth 8, 0xA0#8, 0x07#8] := by
    have htwo := write_append p 0 [0xFF#8] [(l2capLen p + 2#16).setWidth 8]
    have hfour := write_append p 0 [0xFF#8, (l2capLen p + 2#16).setWidth 8] [0xA0#8, 0x07#8]
    exact (congrArg (write · 2 [0xA0#8, 0x07#8]) htwo.symm).trans hfour.symm
  have hread : read (write p 0 [0xFF#8, (l2capLen p + 2#16).setWidth 8, 0xA0#8, 0x07#8]) 6
      (l2capLen p).toNat = read p 6 (l2capLen p).toNat :=
    read_write_apart (.inr (Nat.le_of_ble_eq_true rfl))
  rw [eventOf, hlen, hhead, toNat_sub_three h, copy_of_le _ (by decide), hread, write_append]
  rfl

/-- `paramLen` has the low eight bits. -/
theorem toNat_paramLen (p : Memory) :
    ((l2capLen p + 2#16).setWidth 8).toNat = ((l2capLen p).toNat + 2) % 256 := by
  have htwo : (2#16).toNat = 2 := rfl
  rw [BitVec.toNat_setWidth, BitVec.toNat_add, htwo]
  omega

theorem eventOf_paramLen (h : 3 ≤ (l2capLen p).toNat) :
    (eventOf p 1).toNat = ((l2capLen p).toNat + 2) % 256 := by
  have hbyte : eventOf p 1 = (l2capLen p + 2#16).setWidth 8 := by
    rw [eventOf_eq h]
    exact write_at (i := 1) rfl
  rw [hbyte, toNat_paramLen]

/-- The event, when `paramLen` has all the bits. -/
theorem eventAt_eventOf (h : 3 ≤ (l2capLen p).toNat) (hshort : (l2capLen p).toNat + 2 < 256) :
    eventAt (eventOf p) = [0xFF#8, (l2capLen p + 2#16).setWidth 8, 0xA0#8, 0x07#8] ++
      read p 6 (l2capLen p).toNat := by
  have hlen : sppEvtLen (eventOf p) = ([0xFF#8, (l2capLen p + 2#16).setWidth 8, 0xA0#8, 0x07#8] ++
      read p 6 (l2capLen p).toNat).length := by
    rw [sppEvtLen, eventOf_paramLen h, Nat.mod_eq_of_lt hshort, List.length_append, length_read]
    exact Nat.add_comm _ 4
  rw [eventAt, hlen, eventOf_eq h]
  exact read_write _ _ _

end packet

/-! ### What is queued -/

/-- An ATT write that is queued, as the event it is in the packet. -/
theorem moduleOnReceiveData_queued {s : Tx} {p : Memory} (h : 3 < (l2capLen p).toNat)
    (hspace : occupied s.sys.fifo.rptr s.sys.fifo.wptr < s.sys.fifo.num)
    (hsize : (eventOf p 1).toNat + 4 < s.sys.fifo.size) : moduleOnReceiveData s p = { s with
      sys := s.sys.store (framedEvent (eventAt (eventOf p)))
      accepted := s.accepted ++ [eventAt (eventOf p)] } := by
  have hlen : l2capLen p - 3#16 > 0#16 := by
    have hsub := toNat_sub_three (Nat.le_of_lt h)
    rw [gt_iff_lt, BitVec.lt_def, BitVec.toNat_zero]
    omega
  have hheader : hciFlagEventTlkModule &&& hciFlagEventTlkModule ≠ 0#32 := by decide
  rw [moduleOnReceiveData, if_pos hlen, sppSendData_accepted hheader hspace hsize]

/-- **One ATT write.**  Nothing is queued, or the event as it is in the packet. -/
theorem moduleOnReceiveData_cases (s : Tx) (p : Memory) :
    moduleOnReceiveData s p = s ∨
    (occupied s.sys.fifo.rptr s.sys.fifo.wptr < s.sys.fifo.num ∧
      (eventAt (eventOf p)).length + 2 < s.sys.fifo.size ∧
      moduleOnReceiveData s p = { s with
        sys := s.sys.store (framedEvent (eventAt (eventOf p)))
        accepted := s.accepted ++ [eventAt (eventOf p)] }) := by
  have hheader : hciFlagEventTlkModule &&& hciFlagEventTlkModule ≠ 0#32 := by decide
  rw [moduleOnReceiveData]
  split_ifs
  · rcases sppSendData_cases s (eventOf p) hheader with hdrop | ⟨hspace, hsize, hstore⟩
    · exact .inl (congrArg Prod.fst hdrop)
    · exact .inr ⟨hspace, hsize, congrArg Prod.fst hstore⟩
  · exact .inl rfl

/-- **Data from the master.**  An ATT write leaves a complete event in the FIFO, or none, just when
it is not cut short. -/
theorem data_complete_iff (s : Tx) (p : Memory) (h : 3 ≤ (l2capLen p).toNat) :
    CompleteOrDropped s (moduleOnReceiveData s p) p ↔ ¬CutShort s p := by
  have hparam := eventOf_paramLen h
  constructor
  · rintro hdone ⟨hlong, hsize, hspace⟩
    rw [← hparam] at hsize
    rw [moduleOnReceiveData_queued (by omega) hspace hsize] at hdone
    rcases hdone with hnone | ⟨e, hqueued⟩
    · have haccepted := congrArg (List.length ∘ Tx.accepted) hnone
      simp at haccepted
    · -- the second byte of what is queued is `paramLen`, and has lost bits
      have he : eventAt (eventOf p) = e :=
        List.singleton_inj.mp (List.append_cancel_left hqueued.accepted)
      have hlen := hqueued.paramLen
      rw [← he, eventAt, sppEvtLen, Nat.add_comm, read_append] at hlen
      have hbyte : (eventOf p 1).toNat = (l2capLen p).toNat + 2 := Option.some.inj hlen
      omega
  · intro hnot
    rcases moduleOnReceiveData_cases s p with hnone | ⟨hspace, hsize, hstore⟩
    · exact .inl hnone
    · have hshort : (l2capLen p).toNat + 2 < 256 := by
        by_contra hlong
        rw [length_eventAt, hparam] at hsize
        exact hnot ⟨Nat.not_lt.mp hlong, hsize, hspace⟩
      refine .inr ⟨eventAt (eventOf p), ?_, ?_, ?_, ?_⟩
      · rw [hstore]
      · rw [hstore]
      · rw [eventAt_eventOf h hshort]
        exact congrArg some ((toNat_paramLen p).trans (Nat.mod_eq_of_lt hshort))
      · rw [eventAt_eventOf h hshort]
        rfl

/-- An ATT write of `n` zero bytes from the opcode on. -/
def attWrite (n : BitVec 16) : Memory := fun i =>
  if i = 2 then n.setWidth 8 else if i = 3 then (n >>> 8).setWidth 8 else 0#8

/-- The transmitter with nothing to send. -/
def idleTx : Tx := Tx.boot 0 (fun _ => 0#8) ⟨0, fun _ => 0#8⟩

/-- 23 bytes from the opcode on. -/
theorem data_complete_short : CompleteOrDropped idleTx (moduleOnReceiveData idleTx (attWrite 23#16))
    (attWrite 23#16) := by
  refine (data_complete_iff idleTx (attWrite 23#16) (by decide)).mpr ?_
  rintro ⟨hlong, -⟩
  exact absurd hlong (by decide)

/-- **254 bytes.**  `paramLen` is 0, and an event with none of them is queued. -/
theorem data_cut : ¬∀ (s : Tx) (p : Memory), 3 ≤ (l2capLen p).toNat →
    CompleteOrDropped s (moduleOnReceiveData s p) p := by
  intro h
  have hlong : 3 < (l2capLen (attWrite 254#16)).toNat := by decide
  have hparam := eventOf_paramLen (Nat.le_of_lt hlong)
  have hzero : ((l2capLen (attWrite 254#16)).toNat + 2) % 256 = 0 := by decide
  rw [hzero] at hparam
  have hsize : (eventOf (attWrite 254#16) 1).toNat + 4 < idleTx.sys.fifo.size := by
    rw [hparam]
    decide
  have hqueued := moduleOnReceiveData_queued hlong (s := idleTx) (by decide) hsize
  rcases h idleTx (attWrite 254#16) (Nat.le_of_lt hlong) with hnone | ⟨e, hall⟩
  · rw [hqueued] at hnone
    exact absurd (congrArg (List.length ∘ Tx.accepted) hnone) (by decide)
  · have haccepted := hall.accepted
    rw [hqueued] at haccepted
    have he : eventAt (eventOf (attWrite 254#16)) = e :=
      List.singleton_inj.mp (List.append_cancel_left haccepted)
    have hlen := congrArg List.length hall.payload
    rw [← he, List.length_drop, length_eventAt, hparam, length_read] at hlen
    exact absurd hlen (by decide)

end TelinkB91.Serial
