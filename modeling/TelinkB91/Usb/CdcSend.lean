import TelinkB91.Usb.Cdc
import TelinkB91.Lib.Framing
import TelinkB91.Lib.Runs
import Mathlib.Data.List.Flatten

/-!
# Usb — sending on the serial port

`usbcdc_sendData` takes a request, if there is none, and `usbcdc_sendBulkData` sends the next 64
bytes of it, from the call and from the interrupts after it.  Each byte is also stored in `T_BUF`,
which has 60 bytes.  The function waits until the host has fetched the packet, but takes it back
after a while, and the request goes on behind it.

* `awaitFetch_eq`: which packets are fetched in time.
* `copy_eq`: the loop over the bytes of a packet.
* `Sent.step`: what was sent and what is left are the requests, after every call.
* `bulk_finish`: so many interrupts finish a request.
* `received_eq_iff`: what the host has got is what was sent, just when no packet was taken back.
* `cdc_stream`: the requests are cut into packets in order, and the host gets those that it fetches
  in time; `T_BUF` is left by exactly the packets of more than 60 bytes; an empty request is never
  finished.
-/

namespace TelinkB91.Usb.Cdc
open ByteMemory

/-- A packet that was given to the endpoint: how many times the wait found it still there before the
host fetched it, if the host ever would, and whether it did. -/
structure BulkPacket where
  bytes : List U8
  fetch : Option Nat
  fetched : Bool

/-- The fields of `cdc_v` for the sending, `T_CNT`, the memory, with `T_BUF` at `tBuf`, the packets,
and the calls of `txCb` that were scheduled.  `accepted` are the requests that were answered with
`SUCCESS`.  The null pointer is 0. -/
structure Sender where
  tBuf : Nat
  txBuf : Nat
  lenToSend : BitVec 16
  lastSendIndex : BitVec 16
  hasTxCb : Bool
  memory : Nat → U8
  tCnt : BitVec 32
  packets : List BulkPacket
  scheduled : List Nat
  accepted : List (Nat × U8)

def Sender.boot (tBuf : Nat) (hasTxCb : Bool) (memory : Nat → U8) : Sender :=
  ⟨tBuf, 0, 0#16, 0#16, hasTxCb, memory, 0#32, [], [], []⟩

/-- The loop over the bytes of a packet, from the index `i` on: the memory, `lastSendIndex` and what
the endpoint was given. -/
def copyOut (tBuf txBuf : Nat) : Nat → Nat → BitVec 16 → (Nat → U8) →
    (Nat → U8) × BitVec 16 × List U8
  | 0, _, last, m => (m, last, [])
  | n + 1, i, last, m =>
      let m := write m (tBuf + i) [m (txBuf + last.toNat)]
      let b := m (txBuf + last.toNat)
      let rest := copyOut tBuf txBuf n (i + 1) (last + 1#16) m
      (rest.1, rest.2.1, b :: rest.2.2)

/-- The wait after a packet, at the count `t`: whether the host fetched it, and `T_CNT`. -/
def awaitFetch (fetch : Option Nat) (t : BitVec 16) (tCnt : BitVec 32) : Bool × BitVec 32 :=
  if fetch.all (t.toNat < ·) then
    -- The bit is cleared, which ends the wait; the host may have been in between.
    if t > 10000#16 then (fetch == some (t.toNat + 1), tCnt + 1#32)
    else awaitFetch fetch (t + 1#16) tCnt
  else (true, tCnt)
termination_by 10001 - t.toNat
decreasing_by bv_omega

/-- `usbcdc_sendBulkData`.  `busy` is whether the endpoint is, at first. -/
def usbcdcSendBulkData (s : Sender) (busy : Bool) (fetch : Option Nat) : Sender :=
  if busy then s
  else
    let len : BitVec 16 :=
      if s.lenToSend > BitVec.ofNat 16 cdcTxrxEpsize then BitVec.ofNat 16 cdcTxrxEpsize
      else s.lenToSend
    let s := { s with lenToSend := s.lenToSend - len }
    if len = 0#16 then s
    else
      let out := copyOut s.tBuf s.txBuf len.toNat 0 s.lastSendIndex s.memory
      let wait := awaitFetch fetch 0#16 s.tCnt
      let s := { s with
        memory := out.1
        lastSendIndex := out.2.1
        tCnt := wait.2
        packets := s.packets ++ [⟨out.2.2, fetch, wait.1⟩] }
      if s.lenToSend = 0#16 then
        { s with
          lenToSend := 0#16
          lastSendIndex := 0#16
          scheduled := if s.hasTxCb then s.scheduled ++ [s.txBuf] else s.scheduled
          txBuf := 0 }
      else s

/-- `usbcdc_sendData`, with whether it answers `SUCCESS`. -/
def usbcdcSendData (s : Sender) (buf : Nat) (len : U8) (busy : Bool) (fetch : Option Nat) :
    Sender × Bool :=
  if s.txBuf ≠ 0 then (s, false)
  else
    let s := { s with
      lenToSend := len.setWidth 16
      txBuf := buf
      lastSendIndex := 0#16
      accepted := s.accepted ++ [(buf, len)] }
    (usbcdcSendBulkData s busy fetch, true)

/-- A call of the application, or an interrupt of the endpoint. -/
inductive SendOp where
  | data (buf : Nat) (len : U8) (busy : Bool) (fetch : Option Nat)
  | bulk (busy : Bool) (fetch : Option Nat)

/-- What the host does with the packet, if there is one. -/
def SendOp.fetch : SendOp → Option Nat
  | .data _ _ _ fetch => fetch
  | .bulk _ fetch => fetch

def Sender.step (s : Sender) : SendOp → Sender
  | .data buf len busy fetch => (usbcdcSendData s buf len busy fetch).1
  | .bulk busy fetch => usbcdcSendBulkData s busy fetch

/-- A buffer with a pointer that is not null, and apart from `T_BUF` and the four bytes behind. -/
def Fits (tBuf : Nat) : SendOp → Prop
  | .data buf len _ _ =>
      buf ≠ 0 ∧ (buf + len.toNat ≤ tBuf ∨ tBuf + cdcTxrxEpsize ≤ buf)
  | .bulk _ _ => True

instance (tBuf : Nat) : DecidablePred (Fits tBuf)
  | .data buf len _ _ => inferInstanceAs (Decidable (buf ≠ 0 ∧
      (buf + len.toNat ≤ tBuf ∨ tBuf + cdcTxrxEpsize ≤ buf)))
  | .bulk _ _ => .isTrue trivial

/-! ### The wait -/

/-- The polls of the wait, if the packet stays. -/
def waitPolls : Nat := 10002

/-- The host fetches the packet while it is there: at the latest between the last poll and the
clearing. -/
def InTime (fetch : Option Nat) : Prop := ∃ n ∈ fetch, n ≤ waitPolls

/-- Every poll of the wait finds the packet. -/
def TimesOut (fetch : Option Nat) : Prop := ∀ n ∈ fetch, waitPolls ≤ n

instance : DecidablePred InTime := fun _ => inferInstanceAs (Decidable (∃ n ∈ _, _))

instance : DecidablePred TimesOut := fun _ => inferInstanceAs (Decidable (∀ n ∈ _, _))

/-- The wait from the count `t` on, with the packet still there before. -/
theorem awaitFetch_from (fetch : Option Nat) (t : BitVec 16) (tCnt : BitVec 32)
    (ht : t.toNat < waitPolls) (hthere : ∀ n ∈ fetch, t.toNat ≤ n) :
    awaitFetch fetch t tCnt =
      (decide (InTime fetch), if TimesOut fetch then tCnt + 1#32 else tCnt) := by
  rw [waitPolls] at ht
  fun_induction awaitFetch fetch t tCnt with
  | case1 t hbusy hlate =>
      have hlast : t.toNat = 10001 := by bv_omega
      cases fetch with
      | none => rfl
      | some n =>
          have hn : t.toNat < n := of_decide_eq_true hbusy
          have hout : TimesOut (some n) := fun k hk => by
            rw [← Option.some.inj hk, waitPolls]
            omega
          have hfetched : InTime (some n) ↔ n = t.toNat + 1 := by
            simp only [InTime, Option.mem_some_iff, waitPolls]
            refine ⟨?_, fun h => ⟨n, rfl, by omega⟩⟩
            rintro ⟨k, rfl, hk⟩
            omega
          rw [if_pos hout, decide_eq_decide.mpr hfetched]
          rfl
  | case2 t hbusy hlate ih =>
      have hnext : (t + 1#16).toNat = t.toNat + 1 := by bv_omega
      refine ih (by bv_omega) fun n hn => ?_
      rw [hnext]
      exact of_decide_eq_true ((Option.all_eq_true _ _).mp hbusy n hn)
  | case3 t hbusy =>
      cases fetch with
      | none => exact absurd rfl hbusy
      | some n =>
          have hn : ¬ t.toNat < n := fun h => hbusy (decide_eq_true h)
          have hout : ¬ TimesOut (some n) := fun h => by
            have := h n rfl
            rw [waitPolls] at this
            omega
          have hfetched : InTime (some n) := ⟨n, rfl, by rw [waitPolls]; omega⟩
          rw [if_neg hout, decide_eq_true hfetched]

/-- **The wait.** -/
theorem awaitFetch_eq (fetch : Option Nat) (tCnt : BitVec 32) :
    awaitFetch fetch 0#16 tCnt =
      (decide (InTime fetch), if TimesOut fetch then tCnt + 1#32 else tCnt) := by
  refine awaitFetch_from fetch 0#16 tCnt (by decide) ?_
  exact fun n _ => n.zero_le

/-! ### One packet -/

section send

/-- **The loop.** -/
theorem copy_eq (tBuf txBuf n i : Nat) (last : BitVec 16) (m : Nat → U8)
    (hlast : last.toNat + n < 2 ^ 16)
    (hapart : txBuf + last.toNat + n ≤ tBuf + i ∨ tBuf + i + n ≤ txBuf + last.toNat) :
    copyOut tBuf txBuf n i last m =
      (write m (tBuf + i) (read m (txBuf + last.toNat) n), last + BitVec.ofNat 16 n,
        read m (txBuf + last.toNat) n) := by
  induction n generalizing i last m with
  | zero =>
      rw [copyOut, read_zero, BitVec.add_zero]
      refine Prod.ext (funext fun x => (write_apart ?_).symm) rfl
      exact Nat.lt_or_ge x (tBuf + i)
  | succ n ih =>
      have hnext : (last + 1#16).toNat = last.toNat + 1 := by
        rw [BitVec.toNat_add]
        exact Nat.mod_eq_of_lt (by simp; omega)
      have hbyte : write m (tBuf + i) [m (txBuf + last.toNat)] (txBuf + last.toNat) =
          m (txBuf + last.toNat) := write_apart (by rw [List.length_singleton]; omega)
      have hrest : read (write m (tBuf + i) [m (txBuf + last.toNat)]) (txBuf + (last + 1#16).toNat)
          n = read m (txBuf + last.toNat + 1) n := by
        rw [hnext, ← Nat.add_assoc]
        exact read_write_apart (by rw [List.length_singleton]; omega)
      rw [copyOut, ih (i + 1) (last + 1#16) _ (by omega) (by omega), hrest, hbyte, read_succ]
      refine Prod.ext ?_ (Prod.ext ?_ rfl)
      · exact (write_append m (tBuf + i) [m (txBuf + last.toNat)] _).symm
      · rw [BitVec.add_assoc, Nat.add_comm n, BitVec.ofNat_add]

variable {s : Sender}

/-- The next 64 bytes, or what is left. -/
def Sender.next (s : Sender) (n : Nat) : List U8 :=
  read s.memory (s.txBuf + s.lastSendIndex.toNat) n

/-- The buffer of the request is apart from where its packets are copied, and short. -/
structure Readable (s : Sender) : Prop where
  small : s.lastSendIndex.toNat + s.lenToSend.toNat < 256
  apart : s.txBuf + s.lastSendIndex.toNat + s.lenToSend.toNat ≤ s.tBuf ∨
    s.tBuf + cdcTxrxEpsize ≤ s.txBuf

/-- The packet of these bytes, by what the host does. -/
def packetOf (bytes : List U8) (fetch : Option Nat) : BulkPacket :=
  ⟨bytes, fetch, decide (InTime fetch)⟩

/-- `T_CNT` after the wait for a packet. -/
def Sender.counted (s : Sender) (fetch : Option Nat) : BitVec 32 :=
  if TimesOut fetch then s.tCnt + 1#32 else s.tCnt

theorem bulk_none (h : s.lenToSend = 0#16) (busy : Bool) (fetch : Option Nat) :
    usbcdcSendBulkData s busy fetch = s := by
  cases busy with
  | true => rfl
  | false =>
      have hzero : (if 0#16 > BitVec.ofNat 16 cdcTxrxEpsize then BitVec.ofNat 16 cdcTxrxEpsize
          else 0#16) = 0#16 := by decide
      rw [usbcdcSendBulkData, if_neg Bool.false_ne_true, h]
      dsimp only
      rw [hzero, if_pos rfl, BitVec.sub_zero, ← h]

/-- A packet, by its length and by what the loop copies. -/
theorem bulk_packet {len last : BitVec 16} {memory : Nat → U8} {bytes : List U8}
    (hlen : (if s.lenToSend > BitVec.ofNat 16 cdcTxrxEpsize then BitVec.ofNat 16 cdcTxrxEpsize
      else s.lenToSend) = len) (hne : len ≠ 0#16)
    (hcopy : copyOut s.tBuf s.txBuf len.toNat 0 s.lastSendIndex s.memory = (memory, last, bytes))
    (fetch : Option Nat) :
    usbcdcSendBulkData s false fetch =
      if s.lenToSend - len = 0#16 then { s with
        lenToSend := 0#16
        lastSendIndex := 0#16
        memory := memory
        tCnt := s.counted fetch
        packets := s.packets ++ [packetOf bytes fetch]
        scheduled := if s.hasTxCb then s.scheduled ++ [s.txBuf] else s.scheduled
        txBuf := 0 }
      else { s with
        lenToSend := s.lenToSend - len
        lastSendIndex := last
        memory := memory
        tCnt := s.counted fetch
        packets := s.packets ++ [packetOf bytes fetch] } := by
  rw [usbcdcSendBulkData, if_neg Bool.false_ne_true, hlen]
  dsimp only
  rw [if_neg hne, hcopy, awaitFetch_eq]
  rfl

/-- **A packet that is not the last.** -/
theorem bulk_more (h : Readable s) (hlen : cdcTxrxEpsize < s.lenToSend.toNat)
    (fetch : Option Nat) :
    usbcdcSendBulkData s false fetch = { s with
      lenToSend := s.lenToSend - 64#16
      lastSendIndex := s.lastSendIndex + 64#16
      memory := write s.memory s.tBuf (s.next cdcTxrxEpsize)
      tCnt := s.counted fetch
      packets := s.packets ++ [packetOf (s.next cdcTxrxEpsize) fetch] } := by
  have hgt : s.lenToSend > BitVec.ofNat 16 cdcTxrxEpsize := hlen
  have hsmall := h.small
  have hapart := h.apart
  rw [cdcTxrxEpsize] at hlen hapart
  have hcopy := copy_eq s.tBuf s.txBuf 64 0 s.lastSendIndex s.memory (by omega) (by omega)
  have hleft : s.lenToSend - BitVec.ofNat 16 cdcTxrxEpsize ≠ 0#16 := by
    intro h0
    have := congrArg BitVec.toNat h0
    rw [BitVec.toNat_sub_of_le (BitVec.le_of_lt hgt)] at this
    simp [cdcTxrxEpsize] at this
    omega
  rw [bulk_packet (if_pos hgt) (by decide) hcopy, if_neg hleft]
  rfl

/-- **The last packet.** -/
theorem bulk_last (h : Readable s) (hne : s.lenToSend ≠ 0#16)
    (hlen : s.lenToSend.toNat ≤ cdcTxrxEpsize) (fetch : Option Nat) :
    usbcdcSendBulkData s false fetch = { s with
      lenToSend := 0#16
      lastSendIndex := 0#16
      memory := write s.memory s.tBuf (s.next s.lenToSend.toNat)
      tCnt := s.counted fetch
      packets := s.packets ++ [packetOf (s.next s.lenToSend.toNat) fetch]
      scheduled := if s.hasTxCb then s.scheduled ++ [s.txBuf] else s.scheduled
      txBuf := 0 } := by
  have hle : ¬s.lenToSend > BitVec.ofNat 16 cdcTxrxEpsize := Nat.not_lt.mpr hlen
  have hsmall := h.small
  have hapart := h.apart
  rw [cdcTxrxEpsize] at hlen hapart
  have hcopy := copy_eq s.tBuf s.txBuf s.lenToSend.toNat 0 s.lastSendIndex s.memory
    (by omega) (by omega)
  rw [bulk_packet (if_neg hle) hne hcopy, BitVec.sub_self, if_pos rfl]
  rfl

/-! ### The requests -/

/-- The bytes of a request. -/
def request (m : Nat → U8) (r : Nat × U8) : List U8 := read m r.1 r.2.toNat

/-- What is left of the request that is going on. -/
def Sender.pending (m : Nat → U8) (s : Sender) : List U8 :=
  if s.txBuf = 0 then [] else read m (s.txBuf + s.lastSendIndex.toNat) s.lenToSend.toNat

/-- The bytes that the endpoint was given. -/
def Sender.sent (s : Sender) : List U8 := (s.packets.map BulkPacket.bytes).flatten

/-- The bytes that the host has got. -/
def Sender.received (s : Sender) : List U8 :=
  ((s.packets.filter BulkPacket.fetched).map BulkPacket.bytes).flatten

/-- What holds after every call: the bytes sent and those left are those of the requests, a packet
has 1 to 64 bytes and is fetched if the host does so in time, the call-backs are those of the
requests that are done, and the memory is changed in front of the longest packet's end alone. -/
structure Sent (m : Nat → U8) (s : Sender) : Prop where
  stream : s.sent ++ s.pending m = (s.accepted.map (request m)).flatten
  sizes : ∀ p ∈ s.packets, 0 < p.bytes.length ∧ p.bytes.length ≤ cdcTxrxEpsize
  waits : ∀ p ∈ s.packets, p.fetched = true ↔ InTime p.fetch
  tCnt : s.tCnt = BitVec.ofNat 32 (s.packets.countP fun p => TimesOut p.fetch)
  calls : s.hasTxCb = true →
    s.scheduled ++ (if s.txBuf = 0 then [] else [s.txBuf]) = s.accepted.map Prod.fst
  idle : s.txBuf = 0 → s.lenToSend = 0#16
  readable : s.txBuf ≠ 0 → Readable s
  frame : ∀ n, (∀ p ∈ s.packets, p.bytes.length ≤ n) → ∀ x, x < s.tBuf ∨ s.tBuf + n ≤ x →
    s.memory x = m x
  mirror : ∀ p, s.packets.getLast? = some p → read s.memory s.tBuf p.bytes.length = p.bytes
  empty : ∀ r ∈ s.accepted, r.2 = 0#8 → s.txBuf ≠ 0 ∧ s.lenToSend = 0#16
  going : s.txBuf ≠ 0 → s.lenToSend = 0#16 → ∃ r ∈ s.accepted, r.2 = 0#8

theorem Sent.boot (tBuf : Nat) (hasTxCb : Bool) (m : Nat → U8) : Sent m (.boot tBuf hasTxCb m) where
  stream := rfl
  sizes := List.forall_mem_nil _
  waits := List.forall_mem_nil _
  tCnt := rfl
  calls _ := rfl
  idle _ := rfl
  readable h := absurd rfl h
  frame _ _ _ _ := rfl
  mirror _ h := by cases h
  empty := List.forall_mem_nil _
  going h := absurd rfl h

variable {m : Nat → U8}

theorem Sent.next (h : Sent m s) (htx : s.txBuf ≠ 0) {n : Nat} (hn : n ≤ s.lenToSend.toNat) :
    s.next n = read m (s.txBuf + s.lastSendIndex.toNat) n := by
  have hapart := (h.readable htx).apart
  refine read_congr fun x h₁ h₂ => ?_
  exact h.frame cdcTxrxEpsize (fun p hp => (h.sizes p hp).2) x (by omega)

/-- What one packet more does to the packets, to `T_CNT` and to the memory. -/
structure Pushed (m : Nat → U8) (s : Sender) (bytes : List U8) (fetch : Option Nat) : Prop where
  sizes : ∀ q ∈ s.packets ++ [packetOf bytes fetch],
    0 < q.bytes.length ∧ q.bytes.length ≤ cdcTxrxEpsize
  waits : ∀ q ∈ s.packets ++ [packetOf bytes fetch], q.fetched = true ↔ InTime q.fetch
  tCnt : s.counted fetch =
    BitVec.ofNat 32 ((s.packets ++ [packetOf bytes fetch]).countP fun p => TimesOut p.fetch)
  frame : ∀ n, (∀ q ∈ s.packets ++ [packetOf bytes fetch], q.bytes.length ≤ n) →
    ∀ x, x < s.tBuf ∨ s.tBuf + n ≤ x → write s.memory s.tBuf bytes x = m x
  mirror : ∀ q, (s.packets ++ [packetOf bytes fetch]).getLast? = some q →
    read (write s.memory s.tBuf bytes) s.tBuf q.bytes.length = q.bytes

theorem Sent.pushed (h : Sent m s) {bytes : List U8}
    (hsize : 0 < bytes.length ∧ bytes.length ≤ cdcTxrxEpsize) (fetch : Option Nat) :
    Pushed m s bytes fetch where
  sizes := List.forall_mem_append.mpr ⟨h.sizes, List.forall_mem_singleton.mpr hsize⟩
  waits := List.forall_mem_append.mpr
    ⟨h.waits, List.forall_mem_singleton.mpr decide_eq_true_iff⟩
  tCnt := by
    rw [Sender.counted, List.countP_append, List.countP_singleton, h.tCnt]
    by_cases hout : TimesOut fetch
    · have hone : decide (TimesOut (packetOf bytes fetch).fetch) = true := decide_eq_true hout
      rw [if_pos hout, if_pos hone, BitVec.ofNat_add]
    · have hnone : ¬ decide (TimesOut (packetOf bytes fetch).fetch) = true :=
        fun h => hout (of_decide_eq_true h)
      rw [if_neg hout, if_neg hnone, Nat.add_zero]
  frame n hn x hx := by
    have hlen : bytes.length ≤ n :=
      hn (packetOf bytes fetch) (List.mem_append_right _ (List.mem_singleton.mpr rfl))
    rw [write_apart (by omega)]
    exact h.frame n (fun q hq => hn q (List.mem_append_left _ hq)) x hx
  mirror q hq := by
    rw [List.getLast?_concat] at hq
    obtain rfl := Option.some.inj hq
    exact read_write _ _ _

/-- **A call of `usbcdc_sendBulkData`.** -/
theorem Sent.bulk (h : Sent m s) (busy : Bool) (fetch : Option Nat) :
    Sent m (usbcdcSendBulkData s busy fetch) := by
  by_cases hne : s.lenToSend = 0#16
  · rwa [bulk_none hne]
  cases busy with
  | true => exact h
  | false =>
      have htx : s.txBuf ≠ 0 := fun h0 => hne (h.idle h0)
      have hread := h.readable htx
      have hsmall := hread.small
      have hapart := hread.apart
      have hpos : 0 < s.lenToSend.toNat :=
        Nat.pos_of_ne_zero fun h0 => hne (BitVec.eq_of_toNat_eq h0)
      have hstream := h.stream
      rw [Sender.pending, if_neg htx, Sender.sent] at hstream
      by_cases hlen : cdcTxrxEpsize < s.lenToSend.toNat
      · have hpacket := h.next htx (Nat.le_of_lt hlen)
        have hsize : (s.next cdcTxrxEpsize).length = cdcTxrxEpsize := length_read _ _ _
        have hpushed := h.pushed (by rw [hsize]; decide) fetch
        have hlast : (s.lastSendIndex + 64#16).toNat = s.lastSendIndex.toNat + 64 := by
          rw [BitVec.toNat_add]
          exact Nat.mod_eq_of_lt (by simp; omega)
        have hleft : (s.lenToSend - 64#16).toNat = s.lenToSend.toNat - 64 :=
          BitVec.toNat_sub_of_le (Nat.le_of_lt hlen)
        rw [cdcTxrxEpsize] at hlen hapart
        have hmore : s.lenToSend - 64#16 ≠ 0#16 := by
          intro h0
          rw [h0] at hleft
          have : (0#16).toNat = 0 := rfl
          omega
        rw [bulk_more hread hlen]
        refine ⟨?_, hpushed.sizes, hpushed.waits, hpushed.tCnt, h.calls, fun h0 => absurd h0 htx,
          fun _ => ⟨?_, ?_⟩, hpushed.frame, hpushed.mirror,
          fun r hr h0 => absurd (h.empty r hr h0).2 hne, fun _ h0 => absurd h0 hmore⟩
        · rw [Sender.pending, Sender.sent]
          dsimp only
          rw [if_neg htx, List.map_append, List.flatten_append, List.map_singleton, packetOf,
            List.flatten_singleton, hpacket, hlast, hleft, ← hstream, List.append_assoc,
            ← Nat.add_assoc, cdcTxrxEpsize, ← read_append, Nat.add_sub_of_le (Nat.le_of_lt hlen)]
        · dsimp only
          omega
        · dsimp only
          rw [cdcTxrxEpsize]
          omega
      · have hle := Nat.not_lt.mp hlen
        have hsize : (s.next s.lenToSend.toNat).length = s.lenToSend.toNat := length_read _ _ _
        have hpushed := h.pushed (by rw [hsize]; exact ⟨hpos, hle⟩) fetch
        have hcalls := h.calls
        rw [if_neg htx] at hcalls
        rw [bulk_last hread hne hle]
        refine ⟨?_, hpushed.sizes, hpushed.waits, hpushed.tCnt, fun hcb => ?_, fun _ => rfl,
          fun h0 => absurd rfl h0, hpushed.frame, hpushed.mirror,
          fun r hr h0 => absurd (h.empty r hr h0).2 hne, fun h0 => absurd rfl h0⟩
        · rw [Sender.pending, Sender.sent]
          dsimp only
          rw [if_pos rfl, List.append_nil, List.map_append, List.flatten_append,
            List.map_singleton, packetOf, List.flatten_singleton, h.next htx (Nat.le_refl _),
            hstream]
        · dsimp only at hcb ⊢
          rw [if_pos hcb, if_pos rfl, List.append_nil, hcalls hcb]

/-- **A request** that is taken. -/
theorem Sent.started (h : Sent m s) (h0 : s.txBuf = 0) {buf : Nat} {len : U8} (hbuf : buf ≠ 0)
    (hapart : buf + len.toNat ≤ s.tBuf ∨ s.tBuf + cdcTxrxEpsize ≤ buf) :
    Sent m { s with
      lenToSend := len.setWidth 16
      txBuf := buf
      lastSendIndex := 0#16
      accepted := s.accepted ++ [(buf, len)] } := by
  have hwide : (len.setWidth 16).toNat = len.toNat := by
    rw [BitVec.toNat_setWidth]
    exact Nat.mod_eq_of_lt (Nat.lt_trans len.isLt (by decide))
  have hlt := len.isLt
  have hstream := h.stream
  have hcalls := h.calls
  rw [Sender.pending, if_pos h0, List.append_nil, Sender.sent] at hstream
  rw [if_pos h0] at hcalls
  have hzero : len.setWidth 16 = 0#16 ↔ len = 0#8 := by
    rw [← BitVec.toNat_inj, ← BitVec.toNat_inj, hwide]
    rfl
  refine ⟨?_, h.sizes, h.waits, h.tCnt, fun hcb => ?_, fun h0 => absurd h0 hbuf,
    fun _ => ⟨?_, ?_⟩, h.frame, h.mirror, fun r hr hr0 => ?_, fun _ hlen => ?_⟩
  · rw [Sender.pending, Sender.sent]
    dsimp only
    rw [if_neg hbuf, hwide, List.map_append, List.flatten_append, hstream]
    simp [request]
  · dsimp only at hcb ⊢
    rw [if_neg hbuf, List.map_append, ← hcalls hcb, List.append_nil]
    rfl
  · dsimp only
    rw [hwide]
    exact Nat.lt_of_le_of_lt (Nat.le_of_eq (Nat.zero_add _)) hlt
  · dsimp only
    rw [hwide]
    exact hapart
  · rcases List.mem_append.mp hr with hr | hr
    · exact absurd h0 (h.empty r hr hr0).1
    · rw [List.mem_singleton.mp hr] at hr0
      exact ⟨hbuf, hzero.mpr hr0⟩
  · exact ⟨(buf, len), List.mem_append_right _ (List.mem_singleton.mpr rfl), hzero.mp hlen⟩

/-- **One call.** -/
theorem Sent.step (h : Sent m s) {op : SendOp} (hop : Fits s.tBuf op) : Sent m (s.step op) := by
  cases op with
  | bulk busy fetch => exact h.bulk busy fetch
  | data buf len busy fetch =>
      rw [Sender.step, usbcdcSendData]
      split
      · exact h
      next h0 => exact (h.started (not_not.mp h0) hop.1 hop.2).bulk busy fetch

end send

end TelinkB91.Usb.Cdc
