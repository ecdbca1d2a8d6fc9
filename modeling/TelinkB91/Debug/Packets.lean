import TelinkB91.Debug.Output
import TelinkB91.Lib.Framing

/-!
# Debug — the log in packets

`myudb_to_usb` sends the records of the print FIFO to the host, one packet of 64 bytes at most in
each call.  A record has its length in front; what is sent is the payload, and its last packet is
shorter than 64 bytes, if need be empty.  The host puts it together as `split 64` does.

`Sender` is the FIFO with the two static variables of `myudb_to_usb` and the packets sent.

* `Sends.step`: a step keeps the payloads at the host, under way and in the FIFO those put in.
* `records_arrive`: so does a run, and so many calls that find the endpoint idle send all of them.
-/

namespace TelinkB91.Debug.Packets
open ByteMemory Fifo Framing Ring Runs

/-- What a producer writes into a slot: the length of the payload, two zero bytes and the
payload. -/
def framed (payload : List U8) : List U8 :=
  [BitVec.ofNat 8 payload.length, BitVec.ofNat 8 (payload.length >>> 8), 0#8, 0#8] ++ payload

/-- `usb` is `p` and `len` of `myudb_to_usb`, where `p` is not null.  `packets` are the packets that
were sent, and `records` the payloads that were put into the FIFO. -/
structure Sender where
  sys : Sys
  usb : Option (Nat × Nat)
  packets : List (List U8)
  records : List (List U8)

/-- An empty FIFO, and nothing under way. -/
def Sender.start (f : MyFifo) (m : Memory) : Sender := ⟨⟨f, m⟩, none, [], []⟩

/-- `p` and `len` set to the record of `rptr`, which is counted out. -/
def Sender.first (s : Sender) : Sender :=
  let p := s.sys.fifo.addr s.sys.fifo.rptr
  { s with
    sys := { s.sys with fifo := myFifoPop s.sys.fifo }
    usb := some (p + 4, lenAt s.sys.mem p) }

/-- A packet from `p`. -/
def Sender.packet (s : Sender) (p len : Nat) : Sender :=
  let n := if len < 64 then len else 64
  { s with
    packets := s.packets ++ [read s.sys.mem p n]
    usb := if n < 64 then none else some (p + n, len - n) }

/-- `myudb_to_usb`. -/
def Sender.toUsb (s : Sender) (epBusy : Bool) : Sender :=
  if epBusy then s
  else
    let s := if s.usb = none ∧ s.sys.fifo.wptr ≠ s.sys.fifo.rptr then s.first else s
    match s.usb with
    | none => s
    | some (p, len) => s.packet p len

/-- A producer puts a record into the slot of `wptr`, or `myudb_to_usb` is called. -/
inductive Op where
  | put (payload : List U8)
  | toUsb (epBusy : Bool)
  deriving DecidableEq, Repr

def Sender.step (s : Sender) : Op → Sender
  | .put payload =>
      { s with sys := s.sys.store (framed payload), records := s.records ++ [payload] }
  | .toUsb epBusy => s.toUsb epBusy

/-- None of the `k` bytes from `b` on is among the `n` bytes from `a` on. -/
def Apart (a n b k : Nat) : Prop := k = 0 ∨ a + n ≤ b ∨ b + k ≤ a

/-- The record is written neither over the bytes that are still to be sent of the one under way, nor
over a record in the FIFO. -/
structure Untouched (s : Sender) (payload : List U8) : Prop where
  sending : ∀ p len, s.usb = some (p, len) →
    Apart (s.sys.fifo.addr s.sys.fifo.wptr) (framed payload).length p len
  pending : ∀ i < occupied s.sys.fifo.rptr s.sys.fifo.wptr,
    let p := s.sys.fifo.addr (s.sys.fifo.rptr + BitVec.ofNat 8 i)
    Apart (s.sys.fifo.addr s.sys.fifo.wptr) (framed payload).length p (4 + lenAt s.sys.mem p)

/-- The length of a record has two bytes, and no record is overwritten before it is sent. -/
def Whole (s : Sender) : Op → Prop
  | .put payload => payload.length < 65536 ∧ Untouched s payload
  | .toUsb _ => True

/-! ### What is to be sent -/

/-- The payload of the record at `p`. -/
def payloadAt (m : Memory) (p : Nat) : List U8 := read m (p + 4) (lenAt m p)

/-- What is left of the record under way. -/
def Sender.rest (s : Sender) : Option (List U8) := s.usb.map fun u => read s.sys.mem u.1 u.2

/-- The payloads in the FIFO, the oldest first. -/
def Sender.waiting (s : Sender) : List (List U8) :=
  Ring.pending s.sys.fifo.num
    (fun k => payloadAt s.sys.mem (s.sys.fifo.p + k * s.sys.fifo.size))
    s.sys.fifo.rptr s.sys.fifo.wptr

/-- The packets it takes to send a payload. -/
def packetCount (payload : List U8) : Nat := payload.length / 64 + 1

/-- The packets that are still to be sent. -/
def Sender.work (s : Sender) : Nat :=
  (s.rest.map packetCount).getD 0 + (s.waiting.map packetCount).sum

theorem length_framed (payload : List U8) : (framed payload).length = 4 + payload.length := by
  rw [framed, List.length_append]
  rfl

theorem lenAt_framed (m : Memory) (p : Nat) {payload : List U8} (hlen : payload.length < 65536) :
    lenAt (write m p (framed payload)) p = payload.length :=
  lenAt_write m p _ hlen

/-- A record is read back. -/
theorem payloadAt_framed (m : Memory) (p : Nat) {payload : List U8}
    (hlen : payload.length < 65536) : payloadAt (write m p (framed payload)) p = payload := by
  rw [payloadAt, lenAt_framed m p hlen, framed, write_append]
  exact read_write _ _ _

theorem Apart.read {m : Memory} {a b k : Nat} {bs : List U8} (h : Apart a bs.length b k) :
    read (write m a bs) b k = read m b k := by
  rcases h with rfl | h | h
  · rfl
  · exact read_write_apart (.inr h)
  · exact read_write_apart (.inl h)

theorem lenAt_apart {m : Memory} {a p k : Nat} {bs : List U8} (h : Apart a bs.length p (4 + k)) :
    lenAt (write m a bs) p = lenAt m p := by
  have hread := h.read (m := m)
  rw [read_append, read_append] at hread
  have hhead := List.append_inj_left hread (by rw [length_read, length_read])
  simp only [ByteMemory.read, List.range_succ, List.range_zero, List.map_cons, List.map_nil,
    List.nil_append, List.cons_append, List.cons.injEq, Nat.add_zero] at hhead
  rw [lenAt, lenAt, hhead.1, hhead.2.1]

theorem payloadAt_apart {m : Memory} {a p : Nat} {bs : List U8}
    (h : Apart a bs.length p (4 + lenAt m p)) :
    payloadAt (write m a bs) p = payloadAt m p := by
  have hread := h.read (m := m)
  rw [read_append, read_append] at hread
  rw [payloadAt, payloadAt, lenAt_apart h]
  exact List.append_inj_right hread (by rw [length_read, length_read])

/-- On the USB channel `tlkapi_send_str_data` writes such a record. -/
theorem record_udb (str pData : Memory) (ns dataLen : Nat) :
    record .udb str pData ns dataLen =
      framed ([0x82#8, 8#8, 0x22#8, BitVec.ofNat 8 dataLen, BitVec.ofNat 8 (dataLen >>> 8)] ++
        read pData 0 dataLen ++ read str 0 ns) := by
  have hlen : ([0x82#8, 8#8, 0x22#8, BitVec.ofNat 8 dataLen, BitVec.ofNat 8 (dataLen >>> 8)] ++
      read pData 0 dataLen ++ read str 0 ns).length = ns + dataLen + 5 := by
    rw [List.length_append, List.length_append, length_read, length_read, List.length_cons,
      List.length_cons, List.length_cons, List.length_cons, List.length_cons, List.length_nil]
    omega
  rw [framed, hlen]
  rfl

/-- The FIFO, `p` and `len` of the log move as those of the sender. -/
theorem toUsb_log (l : Log) (epBusy : Bool) (packets records : List (List U8)) :
    let s := (Sender.mk l.sys l.usb packets records).toUsb epBusy
    (myudbToUsb l epBusy).sys = s.sys ∧ (myudbToUsb l epBusy).usb = s.usb := by
  have hpacket (len : Nat) : (if len < 64 then len else 64) = min len 64 := by
    split
    · omega
    · omega
  have hnext (p len : Nat) : (if len < 64 then none else some (p + 64, len - 64)) =
      if len < 64 then none else some (p + min len 64, len - min len 64) := by
    split
    · rfl
    · rw [Nat.min_eq_right (by omega)]
  intro s
  cases epBusy with
  | true => exact ⟨rfl, rfl⟩
  | false =>
      cases husb : l.usb with
      | some u =>
          simp [s, myudbToUsb, Sender.toUsb, Sender.packet, husb, hpacket]
          exact hnext _ _
      | none =>
          by_cases hempty : l.sys.fifo.wptr = l.sys.fifo.rptr
          · simp [s, myudbToUsb, Sender.toUsb, Log.Nonempty, husb, hempty]
          · simp [s, myudbToUsb, Sender.toUsb, Sender.first, Sender.packet, Log.Nonempty, Log.pop,
              lenAt, husb, hempty, hpacket]
            exact hnext _ _

/-! ### One step -/

/-- The payloads at the host, under way and in the FIFO are those put in. -/
structure Sends (s : Sender) : Prop where
  num : IsSize s.sys.fifo.num
  records : outgoing (split 64 s.packets) s.rest ++ s.waiting = s.records
  idle : s.usb = none → (split 64 s.packets).2 = []
  short : ∀ c ∈ s.packets, c.length ≤ 64

section steps

variable {s : Sender}

theorem rest_eq_none : s.rest = none ↔ s.usb = none := by
  rw [Sender.rest, Option.map_eq_none_iff]

/-- While no record in the FIFO is written over, there is room for one more. -/
theorem Untouched.room (hnum : IsSize s.sys.fifo.num) {payload : List U8}
    (h : Untouched s payload) : occupied s.sys.fifo.rptr s.sys.fifo.wptr < s.sys.fifo.num := by
  by_contra hfull
  obtain ⟨j, hj⟩ := Nat.exists_eq_add_of_le (Nat.not_lt.mp hfull)
  have hpos := hnum.pos
  have hlen := length_framed payload
  -- a whole round behind `wptr` is a record in the same slot
  have hslot : slot s.sys.fifo.num (s.sys.fifo.rptr + BitVec.ofNat 8 j) =
      slot s.sys.fifo.num s.sys.fifo.wptr := by
    have hround := slot_add hnum s.sys.fifo.rptr (s.sys.fifo.num + j)
    rw [← hj, add_occupied, hj, Nat.add_left_comm, Nat.add_mod_left] at hround
    rw [slot_add hnum, hround]
  have hapart := h.pending j (by omega)
  simp only [MyFifo.addr, hslot] at hapart
  rcases hapart with hapart | hapart | hapart
  · omega
  · omega
  · omega

/-- A record is put behind the others. -/
theorem waiting_put (hnum : IsSize s.sys.fifo.num) {payload : List U8}
    (hlen : payload.length < 65536) (h : Untouched s payload) :
    (s.step (.put payload)).waiting = s.waiting ++ [payload] := by
  have hroom := h.room hnum
  have hlt : occupied s.sys.fifo.rptr s.sys.fifo.wptr < 255 :=
    hroom.trans_le (hnum.le.trans (by decide))
  refine (pending_append hlt fun i hi => ?_).trans (congrArg (s.waiting ++ [·]) ?_)
  · exact payloadAt_apart (h.pending i hi)
  · exact payloadAt_framed _ _ hlen

theorem rest_put {payload : List U8} (h : Untouched s payload) :
    (s.step (.put payload)).rest = s.rest := by
  rw [Sender.rest, Sender.rest]
  refine Option.map_congr fun u hu => ?_
  exact (h.sending u.1 u.2 hu).read

theorem Sends.put (h : Sends s) {payload : List U8} (hlen : payload.length < 65536)
    (huntouched : Untouched s payload) : Sends (s.step (.put payload)) := by
  obtain ⟨hnum, hrecords, hidle, hshort⟩ := h
  refine ⟨hnum, ?_, hidle, hshort⟩
  rw [rest_put huntouched, waiting_put hnum hlen huntouched, ← List.append_assoc]
  exact congrArg (· ++ [payload]) hrecords

/-- The next record is the one at the head of the FIFO. -/
theorem waiting_first (hne : s.sys.fifo.rptr ≠ s.sys.fifo.wptr) :
    ∃ payload, s.first.rest = some payload ∧ s.waiting = payload :: s.first.waiting :=
  ⟨_, rfl, pending_pop hne⟩

theorem Sends.first (h : Sends s) (husb : s.usb = none)
    (hne : s.sys.fifo.rptr ≠ s.sys.fifo.wptr) : Sends s.first := by
  obtain ⟨payload, hrest, hwaiting⟩ := waiting_first hne
  have hnone := rest_eq_none.mpr husb
  have hrecords := h.records
  have hpart := h.idle husb
  rw [hnone, hwaiting] at hrecords
  refine ⟨h.num, ?_, (nomatch ·), h.short⟩
  rw [hrest]
  refine Eq.trans ?_ hrecords
  change outgoing (split 64 s.packets) (some payload) ++ _ = _
  rw [outgoing, outgoing, hpart, List.nil_append, List.append_assoc]
  rfl

/-- A packet takes the front of what is left. -/
theorem packet_eq {p len : Nat} (husb : s.usb = some (p, len)) :
    ∃ payload, s.rest = some payload ∧ (s.packet p len).packets = s.packets ++ [payload.take 64] ∧
      (s.packet p len).rest = remainder 64 payload := by
  refine ⟨read s.sys.mem p len, by rw [Sender.rest, husb]; rfl, ?_, ?_⟩
  · rw [take_read, Sender.packet]
    dsimp only
    congr 3
    split
    · omega
    · omega
  · rw [remainder, List.length_take, length_read, Sender.packet, Sender.rest]
    dsimp only
    by_cases hlt : len < 64
    · rw [if_pos hlt, if_pos hlt, if_pos (by omega)]
      rfl
    · rw [if_neg hlt, if_neg (Nat.lt_irrefl 64), if_neg (by omega), drop_read]
      rfl

theorem Sends.packet (h : Sends s) {p len : Nat} (husb : s.usb = some (p, len)) :
    Sends (s.packet p len) := by
  obtain ⟨payload, hrest, hpackets, hremainder⟩ := packet_eq husb
  obtain ⟨hout, hend⟩ := outgoing_send 64 (split 64 s.packets) payload
  have hrecords := h.records
  rw [hrest] at hrecords
  refine ⟨h.num, ?_, ?_, ?_⟩
  · rw [hpackets, split_concat, hremainder, hout]
    exact hrecords
  · intro hnone
    rw [hpackets, split_concat]
    exact hend (hremainder ▸ rest_eq_none.mpr hnone)
  · intro c hc
    rw [hpackets] at hc
    rcases List.mem_append.mp hc with hc | hc
    · exact h.short c hc
    · rw [List.mem_singleton.mp hc]
      exact List.length_take_le _ _

/-- What a call that finds the endpoint idle does: nothing, or a packet of the record under way, or
the first one of the next record. -/
theorem toUsb_cases (s : Sender) :
    (s.usb = none ∧ s.sys.fifo.rptr = s.sys.fifo.wptr ∧ s.toUsb false = s) ∨
    (∃ p len, s.usb = some (p, len) ∧ s.toUsb false = s.packet p len) ∨
    (s.usb = none ∧ s.sys.fifo.rptr ≠ s.sys.fifo.wptr ∧
      ∃ p len, s.first.usb = some (p, len) ∧ s.toUsb false = s.first.packet p len) := by
  cases husb : s.usb with
  | some u =>
      refine .inr (.inl ⟨u.1, u.2, rfl, ?_⟩)
      simp [Sender.toUsb, husb]
  | none =>
      by_cases hempty : s.sys.fifo.rptr = s.sys.fifo.wptr
      · refine .inl ⟨rfl, hempty, ?_⟩
        simp [Sender.toUsb, husb, hempty]
      · refine .inr (.inr ⟨rfl, hempty, _, _, rfl, ?_⟩)
        have hne : s.sys.fifo.wptr ≠ s.sys.fifo.rptr := fun h => hempty h.symm
        simp [Sender.toUsb, husb, hne, Sender.first]

theorem Sends.toUsb (h : Sends s) (epBusy : Bool) : Sends (s.toUsb epBusy) := by
  cases epBusy with
  | true => exact h
  | false =>
      rcases toUsb_cases s with ⟨-, -, hsame⟩ | ⟨p, len, husb, hpacket⟩ |
        ⟨hnone, hne, p, len, husb, hpacket⟩
      · rw [hsame]
        exact h
      · rw [hpacket]
        exact h.packet husb
      · rw [hpacket]
        exact (h.first hnone hne).packet husb

/-- **One step.** -/
theorem Sends.step (h : Sends s) {op : Op} (hop : Whole s op) : Sends (s.step op) := by
  cases op with
  | put payload => exact h.put hop.1 hop.2
  | toUsb epBusy => exact h.toUsb epBusy

/-! ### Progress -/

theorem packetCount_remainder (payload : List U8) :
    packetCount payload = ((remainder 64 payload).map packetCount).getD 0 + 1 := by
  rw [remainder, List.length_take, packetCount]
  split_ifs with hshort
  · rw [Option.map_none, Option.getD_none]
    omega
  · rw [Option.map_some, Option.getD_some, packetCount, List.length_drop]
    omega

theorem work_packet {p len : Nat} (husb : s.usb = some (p, len)) :
    s.work = (s.packet p len).work + 1 := by
  obtain ⟨payload, hrest, -, hremainder⟩ := packet_eq husb
  have hwaiting : (s.packet p len).waiting = s.waiting := rfl
  rw [Sender.work, Sender.work, hrest, hremainder, hwaiting, Option.map_some, Option.getD_some,
    packetCount_remainder]
  omega

theorem work_first (husb : s.usb = none) (hne : s.sys.fifo.rptr ≠ s.sys.fifo.wptr) :
    s.work = s.first.work := by
  obtain ⟨payload, hrest, hwaiting⟩ := waiting_first hne
  rw [Sender.work, Sender.work, rest_eq_none.mpr husb, hrest, hwaiting, List.map_cons,
    List.sum_cons]
  exact Nat.zero_add _

/-- A call that finds the endpoint idle sends a packet, where there is one to send. -/
theorem work_toUsb (s : Sender) : (s.toUsb false).work = s.work - 1 := by
  rcases toUsb_cases s with ⟨hnone, hempty, hsame⟩ | ⟨p, len, husb, hpacket⟩ |
    ⟨hnone, hne, p, len, husb, hpacket⟩
  · have hwaiting : s.waiting = [] := pending_eq_nil.mpr hempty
    rw [hsame, Sender.work, rest_eq_none.mpr hnone, hwaiting]
    rfl
  · rw [hpacket, work_packet husb]
    rfl
  · rw [hpacket, work_first hnone hne, work_packet husb]
    rfl

/-- Where nothing is left to be sent, the host has it all. -/
theorem Sends.all (h : Sends s) (hwork : s.work = 0) : split 64 s.packets = (s.records, []) := by
  obtain ⟨hrest, hsum⟩ := Nat.add_eq_zero_iff.mp hwork
  have hnone : s.rest = none := by
    cases hr : s.rest with
    | none => rfl
    | some payload =>
        rw [hr] at hrest
        exact nomatch hrest
  have hwaiting : s.waiting = [] := by
    cases hw : s.waiting with
    | nil => rfl
    | cons payload waiting =>
        rw [hw, List.map_cons, List.sum_cons, packetCount] at hsum
        omega
  have hrecords := h.records
  rw [hnone, hwaiting, List.append_nil] at hrecords
  exact Prod.ext hrecords (h.idle (rest_eq_none.mp hnone))

end steps

theorem records_toUsb (s : Sender) (epBusy : Bool) : (s.toUsb epBusy).records = s.records := by
  cases epBusy with
  | true => rfl
  | false =>
      rcases toUsb_cases s with ⟨-, -, hsame⟩ | ⟨p, len, -, hpacket⟩ | ⟨-, -, p, len, -, hpacket⟩
      · rw [hsame]
      · rw [hpacket]
        rfl
      · rw [hpacket]
        rfl

/-- **Progress.**  Each call that finds the endpoint idle sends one packet. -/
theorem work_run (s : Sender) (busy : List Bool) :
    (runFrom Sender.step s (busy.map .toUsb)).work = s.work - busy.count false ∧
      (runFrom Sender.step s (busy.map .toUsb)).records = s.records := by
  induction busy generalizing s with
  | nil => exact ⟨rfl, rfl⟩
  | cons epBusy busy ih =>
      obtain ⟨hwork, hrecords⟩ := ih (s.toUsb epBusy)
      rw [List.map_cons, runFrom_cons]
      change (runFrom Sender.step (s.toUsb epBusy) _).work = _ ∧
        (runFrom Sender.step (s.toUsb epBusy) _).records = _
      refine ⟨?_, hrecords.trans (records_toUsb s epBusy)⟩
      cases epBusy with
      | true =>
          rw [hwork, List.count_cons_of_ne (by decide)]
          rfl
      | false =>
          rw [hwork, work_toUsb, List.count_cons_self]
          omega

theorem sends_start {size : Nat} {n : U8} (hn : IsSize n.toNat) (p : Nat) (m : Memory) :
    Sends (Sender.start (myFifoInit size n p) m) where
  num := hn
  records := pending_self _
  idle := fun _ => rfl
  short := fun _ h => absurd h List.not_mem_nil

/-- What is sent in a run. -/
theorem sends_run {size : Nat} {n : U8} (hn : IsSize n.toNat) {p : Nat} {m : Memory}
    {ops : List Op}
    (hops : Along Sender.step Whole (Sender.start (myFifoInit size n p) m) ops) :
    Sends (runFrom Sender.step (Sender.start (myFifoInit size n p) m) ops) :=
  hops.invariant (fun _ _ h hop => h.step hop) (sends_start hn p m)

/-! ### Free slots -/

/-- A producer finds a slot free besides the one whose record is under way, and its record stays in
its slot. -/
def Room (s : Sender) : Op → Prop
  | .put payload => payload.length < 65536 ∧ payload.length + 4 ≤ s.sys.fifo.size ∧
      occupied s.sys.fifo.rptr s.sys.fifo.wptr + (if s.usb.isSome then 1 else 0) < s.sys.fifo.num
  | .toUsb _ => True

instance (s : Sender) : (op : Op) → Decidable (Room s op)
  | .put _ => inferInstanceAs (Decidable (_ ∧ _ ∧ _))
  | .toUsb _ => inferInstanceAs (Decidable True)

/-- The records in the FIFO are in their slots, and what is left of the one under way is in the slot
before them. -/
structure InSlots (s : Sender) : Prop where
  num : IsSize s.sys.fifo.num
  pending : ∀ i < occupied s.sys.fifo.rptr s.sys.fifo.wptr,
    4 + lenAt s.sys.mem (s.sys.fifo.addr (s.sys.fifo.rptr + BitVec.ofNat 8 i)) ≤ s.sys.fifo.size
  sending : ∀ p len, s.usb = some (p, len) →
    s.sys.fifo.addr (s.sys.fifo.rptr - 1) ≤ p ∧
      p + len ≤ s.sys.fifo.addr (s.sys.fifo.rptr - 1) + s.sys.fifo.size

section room

variable {s : Sender}

/-- Two of `num` slots in a row are apart. -/
theorem apart_slots {f : MyFifo} (hnum : IsSize f.num) (c : Counter) {i j n k : Nat}
    (hi : i < f.num) (hj : j < f.num) (hne : i ≠ j) (hn : n ≤ f.size) (hk : k ≤ f.size) :
    Apart (f.addr (c + BitVec.ofNat 8 j)) n (f.addr (c + BitVec.ofNat 8 i)) k := by
  have hslot : slot f.num (c + BitVec.ofNat 8 i) ≠ slot f.num (c + BitVec.ofNat 8 j) :=
    fun heq => hne (slot_inj hnum hi hj heq)
  rw [MyFifo.addr, MyFifo.addr]
  rcases Nat.lt_or_gt_of_ne hslot with hlt | hlt
  · have hapart := slot_apart hlt f.size
    exact .inr (.inr (by omega))
  · have hapart := slot_apart hlt f.size
    exact .inr (.inl (by omega))

/-- **Room.**  Where a producer finds it, no record is overwritten. -/
theorem InSlots.untouched (h : InSlots s) {payload : List U8} (hroom : Room s (.put payload)) :
    Untouched s payload := by
  obtain ⟨-, hsize, hspace⟩ := hroom
  have hwptr := add_occupied s.sys.fifo.rptr s.sys.fifo.wptr
  have hn : (framed payload).length ≤ s.sys.fifo.size := by
    rw [length_framed]
    omega
  have hocc := Nat.lt_of_le_of_lt (Nat.le_add_right _ _) hspace
  refine ⟨?_, ?_⟩
  · intro p len husb
    obtain ⟨hfrom, hto⟩ := h.sending p len husb
    rw [husb, Option.isSome_some, if_pos rfl] at hspace
    -- the slot under way is the one before `rptr`
    have hback : s.sys.fifo.rptr - 1 + BitVec.ofNat 8 0 = s.sys.fifo.rptr - 1 := BitVec.add_zero _
    have hnext : s.sys.fifo.rptr - 1 +
        BitVec.ofNat 8 (occupied s.sys.fifo.rptr s.sys.fifo.wptr + 1) = s.sys.fifo.wptr := by
      rw [← add_ofNat_succ, BitVec.sub_add_cancel, hwptr]
    have hapart := apart_slots h.num (s.sys.fifo.rptr - 1) h.num.pos hspace
      (Nat.zero_ne_add_one _) hn (le_refl s.sys.fifo.size)
    rw [hback, hnext] at hapart
    rcases hapart with hzero | hapart | hapart
    · exact .inl (by omega)
    · exact .inr (.inl (by omega))
    · exact .inr (.inr (by omega))
  · intro i hi
    have hapart := apart_slots h.num s.sys.fifo.rptr (hi.trans hocc) hocc (Nat.ne_of_lt hi) hn
      (h.pending i hi)
    rwa [hwptr] at hapart

theorem InSlots.put (h : InSlots s) {payload : List U8} (hroom : Room s (.put payload)) :
    InSlots (s.step (.put payload)) := by
  have huntouched := h.untouched hroom
  have hspace := huntouched.room h.num
  have hlt : occupied s.sys.fifo.rptr s.sys.fifo.wptr < 255 :=
    hspace.trans_le (h.num.le.trans (by decide))
  refine ⟨h.num, ?_, h.sending⟩
  intro i hi
  change i < occupied s.sys.fifo.rptr (s.sys.fifo.wptr + 1) at hi
  rw [occupied_push hlt] at hi
  rcases Nat.lt_succ_iff_lt_or_eq.mp hi with hi | rfl
  · have hlen := lenAt_apart (m := s.sys.mem) (huntouched.pending i hi)
    exact (congrArg (4 + ·) hlen).trans_le (h.pending i hi)
  · have hlen := lenAt_framed s.sys.mem (s.sys.fifo.addr s.sys.fifo.wptr) hroom.1
    have hwptr := add_occupied s.sys.fifo.rptr s.sys.fifo.wptr
    have hsize := hroom.2.1
    change 4 + lenAt (write s.sys.mem (s.sys.fifo.addr s.sys.fifo.wptr) (framed payload))
      (s.sys.fifo.addr (s.sys.fifo.rptr + _)) ≤ s.sys.fifo.size
    rw [hwptr, hlen]
    omega

theorem InSlots.first (h : InSlots s) (hne : s.sys.fifo.rptr ≠ s.sys.fifo.wptr) :
    InSlots s.first := by
  have hpop := occupied_pop hne
  refine ⟨h.num, ?_, ?_⟩
  · intro i hi
    change i < occupied (s.sys.fifo.rptr + 1) s.sys.fifo.wptr at hi
    have hnext := h.pending (i + 1) (by omega)
    rwa [← add_ofNat_succ] at hnext
  · intro p len husb
    have hfirst := h.pending 0 (by omega)
    have hback : s.sys.fifo.rptr + 1 - 1 = s.sys.fifo.rptr := BitVec.add_sub_cancel _ _
    rw [BitVec.add_zero] at hfirst
    obtain ⟨rfl, rfl⟩ := Prod.mk.inj (Option.some.inj husb)
    change s.sys.fifo.addr (s.sys.fifo.rptr + 1 - 1) ≤ _ ∧
      _ ≤ s.sys.fifo.addr (s.sys.fifo.rptr + 1 - 1) + s.sys.fifo.size
    rw [hback]
    omega

theorem InSlots.packet (h : InSlots s) {p len : Nat} (husb : s.usb = some (p, len)) :
    InSlots (s.packet p len) := by
  refine ⟨h.num, h.pending, ?_⟩
  intro p' len' husb'
  obtain ⟨hfrom, hto⟩ := h.sending p len husb
  change s.sys.fifo.addr (s.sys.fifo.rptr - 1) ≤ p' ∧
    p' + len' ≤ s.sys.fifo.addr (s.sys.fifo.rptr - 1) + s.sys.fifo.size
  by_cases hlt : len < 64
  · simp [Sender.packet, hlt] at husb'
  · simp only [Sender.packet, hlt, if_false, Nat.lt_irrefl, Option.some.injEq,
      Prod.mk.injEq] at husb'
    omega

theorem InSlots.step (h : InSlots s) {op : Op} (hop : Room s op) : InSlots (s.step op) := by
  cases op with
  | put payload => exact h.put hop
  | toUsb epBusy =>
      cases epBusy with
      | true => exact h
      | false =>
          change InSlots (s.toUsb false)
          rcases toUsb_cases s with ⟨-, -, hsame⟩ | ⟨p, len, husb, hpacket⟩ |
            ⟨-, hne, p, len, husb, hpacket⟩
          · rw [hsame]
            exact h
          · rw [hpacket]
            exact h.packet husb
          · rw [hpacket]
            exact (h.first hne).packet husb

theorem InSlots.whole (h : InSlots s) {op : Op} (hop : Room s op) : Whole s op := by
  cases op with
  | put payload => exact ⟨hop.1, h.untouched hop⟩
  | toUsb epBusy => trivial

end room

/-- **Free slots.**  Producers that find room overwrite nothing in a run. -/
theorem whole_of_room {size : Nat} {n : U8} (hn : IsSize n.toNat) {p : Nat} {m : Memory}
    {ops : List Op} (hops : Along Sender.step Room (Sender.start (myFifoInit size n p) m) ops) :
    Along Sender.step Whole (Sender.start (myFifoInit size n p) m) ops := by
  have hstart : InSlots (Sender.start (myFifoInit size n p) m) := by
    refine ⟨hn, ?_, fun _ _ h => (nomatch h)⟩
    intro i hi
    exact absurd (hi.trans_eq (occupied_self _)) (Nat.not_lt_zero i)
  exact hops.derive (fun _ _ h hop => h.step hop) (fun _ _ h hop => h.whole hop) hstart

/-- **Records in packets.**  Whatever records are put into the FIFO, if none is overwritten before
it is sent, and whenever the endpoint is busy: no packet has more than 64 bytes, and the host has
put together the first of the payloads, in order.  After as many calls with an idle endpoint as
there are packets left, it has all of them, and nothing else. -/
theorem records_arrive (size : Nat) (n : U8) (hn : IsSize n.toNat) (p : Nat) (m : Memory)
    (ops : List Op)
    (hops : Along Sender.step Whole (Sender.start (myFifoInit size n p) m) ops) :
    let s := runFrom Sender.step (Sender.start (myFifoInit size n p) m) ops
    (∀ c ∈ s.packets, c.length ≤ 64) ∧
    (split 64 s.packets).1 <+: s.records ∧
    ∀ busy : List Bool, s.work ≤ busy.count false →
      split 64 (runFrom Sender.step s (busy.map .toUsb)).packets = (s.records, []) := by
  intro s
  have hsends : Sends s := sends_run hn hops
  refine ⟨hsends.short, ?_, ?_⟩
  · rw [← hsends.records]
    cases s.rest with
    | none => exact List.prefix_append _ _
    | some payload => exact (List.prefix_append _ _).trans (List.prefix_append _ _)
  · intro busy hbusy
    obtain ⟨hwork, hrecords⟩ := work_run s busy
    have hcalls : Along Sender.step Whole s (busy.map .toUsb) := by
      refine .of_forall fun op hop t => ?_
      obtain ⟨epBusy, -, rfl⟩ := List.mem_map.mp hop
      trivial
    have hend := hcalls.invariant (fun _ _ h hop => h.step hop) hsends
    have hall := hend.all (hwork.trans (Nat.sub_eq_zero_of_le hbusy))
    rwa [hrecords] at hall

/-- A record of 64 bytes, which takes a full packet and an empty one, and a short one. -/
def fullRecord : List Op :=
  [.put (List.replicate 64 1#8), .toUsb false, .toUsb true, .put [7#8, 8#8, 9#8], .toUsb false,
    .toUsb false]

theorem records_arrive_full :
    let s₀ := Sender.start (myFifoInit 160 4#8 0x1000) fun _ => 0#8
    let s := runFrom Sender.step s₀ fullRecord
    Along Sender.step Whole s₀ fullRecord ∧
    s.packets.map List.length = [64, 0, 3] ∧
    split 64 s.packets = ([List.replicate 64 1#8, [7#8, 8#8, 9#8]], []) := by
  have hsize : IsSize (4#8).toNat := ⟨2, by decide, rfl⟩
  have hwhole : Along Sender.step Whole (Sender.start (myFifoInit 160 4#8 0x1000) fun _ => 0#8)
      fullRecord := whole_of_room hsize (by decide +kernel)
  have harrive := (records_arrive 160 4#8 hsize 0x1000 (fun _ => 0#8) fullRecord hwhole).2.2 []
    (by decide +kernel)
  have hrecords : (runFrom Sender.step (Sender.start (myFifoInit 160 4#8 0x1000) fun _ => 0#8)
      fullRecord).records = [List.replicate 64 1#8, [7#8, 8#8, 9#8]] := by decide +kernel
  rw [List.map_nil, runFrom_nil, hrecords] at harrive
  exact ⟨hwhole, by decide +kernel, harrive⟩

end TelinkB91.Debug.Packets
