import TelinkB91.Lib.RoundLine
import Mathlib.Data.BitVec

/-!
# Usb — the packets of the serial port

`usbcdc_recvData` takes the bytes of a packet into `rxBuf`, from `lastIndex` on, and gives the
buffer to `rxCb` after a packet that is not full.  `lastIndex` has eight bits.

* `store_eq`: the bytes are written round the first 256 of the buffer.
* `recvData_full`, `recvData_short`: one packet.
* `receive_eq`: a transfer.
* `contiguous_iff`: the buffer holds the transfer just when it has up to 256 bytes, or when the
  bytes behind the 256th were there before and those that are overwritten are equal.
-/

namespace TelinkB91.Usb.Cdc
open ByteMemory RoundLine

abbrev U8 := BitVec 8

/-- `CDC_TXRX_EPSIZE`. -/
def cdcTxrxEpsize : Nat := 64

/-- What an endpoint holds. -/
structure Packet where
  bytes : List U8
  le : bytes.length ≤ cdcTxrxEpsize

/-- The fields of `cdc_v` for the reception, the memory, and the calls of `rxCb`: its argument, and
the memory it finds.  `timer` is whether the timer is on, and `hasRxCb` whether `rxCb` is set. -/
structure CdcCtrl where
  rxBuf : Option Nat
  timer : Bool
  lastIndex : U8
  hasRxCb : Bool
  memory : Nat → U8
  calls : List (Option Nat × (Nat → U8))

/-- `usbcdc_init`, as far as the reception goes. -/
def usbcdcInit (s : CdcCtrl) : CdcCtrl := { s with lastIndex := 0#8 }

/-- `usbcdc_setRxBuf`. -/
def usbcdcSetRxBuf (s : CdcCtrl) (buf : Nat) : CdcCtrl := { s with rxBuf := some buf }

/-- The end of a transfer: the index and the buffer are cleared and `rxCb` is called. -/
def CdcCtrl.finish (s : CdcCtrl) : CdcCtrl :=
  { s with
    lastIndex := 0#8
    rxBuf := none
    calls := if s.hasRxCb then s.calls ++ [(s.rxBuf, s.memory)] else s.calls }

/-- `usbcdc_recvTimeoutCb`.  What it returns turns the timer off. -/
def usbcdcRecvTimeoutCb (s : CdcCtrl) : CdcCtrl := { s.finish with timer := false }

/-- The timer is turned off, if it is on. -/
def CdcCtrl.stopTimer (s : CdcCtrl) : CdcCtrl := if s.timer then { s with timer := false } else s

/-- The loop over the bytes of a packet. -/
def store (memory : Nat → U8) (rxBuf : Nat) (lastIndex : U8) : List U8 → (Nat → U8) × U8
  | [] => (memory, lastIndex)
  | b :: bs => store (write memory (rxBuf + lastIndex.toNat) [b]) rxBuf (lastIndex + 1#8) bs

/-- `usbcdc_recvData`.  `none` is the loop it never leaves, without a buffer. -/
def usbcdcRecvData (s : CdcCtrl) (packet : Packet) : Option CdcCtrl :=
  match s.rxBuf with
  | none => none
  | some rxBuf =>
      let s := s.stopTimer
      let len : U8 := BitVec.ofNat 8 packet.bytes.length
      let fEnd := len ≠ BitVec.ofNat 8 cdcTxrxEpsize
      let stored := store s.memory rxBuf s.lastIndex packet.bytes
      let s := { s with memory := stored.1, lastIndex := stored.2 }
      if fEnd then some s.finish else some { s with timer := true }

/-- The packets of a transfer, one after the other. -/
def receive (s : CdcCtrl) (packets : List Packet) : Option CdcCtrl :=
  packets.foldlM usbcdcRecvData s

/-- The bytes of packets. -/
def bytesOf (packets : List Packet) : List U8 := packets.flatMap Packet.bytes

theorem bytesOf_concat (packets : List Packet) (last : Packet) :
    bytesOf (packets ++ [last]) = bytesOf packets ++ last.bytes := by
  rw [bytesOf, List.flatMap_append, List.flatMap_singleton]
  rfl

/-- No transfer is going on: nothing was received yet, or the last packet was not full, or the timer
has ended the transfer; and a buffer may have been set. -/
inductive Idle : CdcCtrl → Prop where
  | init (s : CdcCtrl) : Idle (usbcdcInit s)
  | short {s s' : CdcCtrl} {packet : Packet} (hshort : packet.bytes.length < cdcTxrxEpsize)
      (h : usbcdcRecvData s packet = some s') : Idle s'
  | timeout (s : CdcCtrl) : Idle (usbcdcRecvTimeoutCb s)
  | setRxBuf {s : CdcCtrl} (h : Idle s) (buf : Nat) : Idle (usbcdcSetRxBuf s buf)

/-- The memory `m'` is `m` with the bytes `bs` from `p` on. -/
def Contiguous (m : Nat → U8) (p : Nat) (bs : List U8) (m' : Nat → U8) : Prop :=
  read m' p bs.length = bs ∧ ∀ a, a < p ∨ p + bs.length ≤ a → m' a = m a

/-! ### One packet -/

section cdc

variable {p k : Nat} {s : CdcCtrl}

theorem stopTimer_eq (s : CdcCtrl) : s.stopTimer = { s with timer := false } := by
  rw [CdcCtrl.stopTimer]
  by_cases htimer : s.timer = true
  · rw [if_pos htimer]
  · rw [if_neg htimer, ← Bool.not_eq_true _ |>.mp htimer]

/-- **The loop.** -/
theorem store_eq (m : Nat → U8) (p k : Nat) (bs : List U8) :
    store m p (BitVec.ofNat 8 k) bs = (around 256 m p k bs, BitVec.ofNat 8 (k + bs.length)) := by
  induction bs generalizing m k with
  | nil => rfl
  | cons b bs ih =>
      have hnext : BitVec.ofNat 8 k + 1#8 = BitVec.ofNat 8 (k + 1) := (BitVec.ofNat_add k 1).symm
      rw [store, hnext, ih, around, BitVec.toNat_ofNat, List.length_cons, Nat.add_assoc,
        Nat.add_comm 1]

theorem fEnd_iff (packet : Packet) :
    BitVec.ofNat 8 packet.bytes.length ≠ BitVec.ofNat 8 cdcTxrxEpsize ↔
      packet.bytes.length ≠ cdcTxrxEpsize := by
  have hle := packet.le
  rw [cdcTxrxEpsize] at hle ⊢
  rw [ne_eq, ne_eq, ← BitVec.toNat_inj, BitVec.toNat_ofNat, BitVec.toNat_ofNat]
  omega

/-- A packet that is not full ends the transfer. -/
theorem recvData_finish {packet : Packet} {s' : CdcCtrl}
    (hshort : packet.bytes.length < cdcTxrxEpsize) (h : usbcdcRecvData s packet = some s') :
    ∃ t : CdcCtrl, s' = t.finish := by
  rw [usbcdcRecvData, stopTimer_eq] at h
  dsimp only at h
  cases hbuf : s.rxBuf with
  | none =>
      rw [hbuf] at h
      cases h
  | some p =>
      rw [hbuf] at h
      dsimp only at h
      rw [if_pos ((fEnd_iff packet).mpr hshort.ne)] at h
      exact ⟨_, (Option.some.inj h).symm⟩

/-- **Between the transfers** the index is 0. -/
theorem Idle.lastIndex (h : Idle s) : s.lastIndex = 0#8 := by
  induction h with
  | init s => rfl
  | short hshort h =>
      obtain ⟨t, rfl⟩ := recvData_finish hshort h
      rfl
  | timeout s => rfl
  | setRxBuf _ _ ih => exact ih

/-- The fields while a transfer of which `k` bytes have come goes on. -/
structure Receiving (p : Nat) (m : Nat → U8) (bs : List U8) (s₀ s : CdcCtrl) : Prop where
  rxBuf : s.rxBuf = some p
  lastIndex : s.lastIndex = BitVec.ofNat 8 bs.length
  memory : s.memory = around 256 m p 0 bs
  hasRxCb : s.hasRxCb = s₀.hasRxCb
  calls : s.calls = s₀.calls

variable {m : Nat → U8} {bs : List U8} {s₀ : CdcCtrl} {packet : Packet}

/-- What the loop leaves. -/
theorem Receiving.stored (h : Receiving p m bs s₀ s) (packet : Packet) :
    store s.memory p s.lastIndex packet.bytes =
      (around 256 m p 0 (bs ++ packet.bytes), BitVec.ofNat 8 (bs ++ packet.bytes).length) := by
  rw [h.memory, h.lastIndex, store_eq, around_append, List.length_append, Nat.zero_add]

/-- **A full packet.** -/
theorem recvData_full (h : Receiving p m bs s₀ s) (hfull : packet.bytes.length = cdcTxrxEpsize) :
    ∃ s', usbcdcRecvData s packet = some s' ∧ Receiving p m (bs ++ packet.bytes) s₀ s' := by
  have hmore : ¬ BitVec.ofNat 8 packet.bytes.length ≠ BitVec.ofNat 8 cdcTxrxEpsize :=
    mt (fEnd_iff packet).mp (not_not.mpr hfull)
  rw [usbcdcRecvData, stopTimer_eq]
  dsimp only
  rw [h.rxBuf]
  dsimp only
  rw [if_neg hmore]
  exact ⟨_, rfl, rfl, congrArg Prod.snd (h.stored packet), congrArg Prod.fst (h.stored packet),
    h.hasRxCb, h.calls⟩

/-- **A packet that is not full.** -/
theorem recvData_short (h : Receiving p m bs s₀ s) (hcb : s₀.hasRxCb = true)
    (hshort : packet.bytes.length < cdcTxrxEpsize) :
    ∃ s', usbcdcRecvData s packet = some s' ∧ s'.lastIndex = 0#8 ∧
      s'.memory = around 256 m p 0 (bs ++ packet.bytes) ∧
      s'.calls = s₀.calls ++ [(some p, s'.memory)] := by
  have hend : BitVec.ofNat 8 packet.bytes.length ≠ BitVec.ofNat 8 cdcTxrxEpsize :=
    (fEnd_iff packet).mpr hshort.ne
  have hmemory := congrArg Prod.fst (h.stored packet)
  have hset : s.hasRxCb = true := h.hasRxCb.trans hcb
  rw [usbcdcRecvData, stopTimer_eq]
  dsimp only
  rw [h.rxBuf]
  dsimp only
  rw [if_pos hend]
  refine ⟨_, rfl, rfl, hmemory, (if_pos hset).trans ?_⟩
  rw [h.calls]
  rfl

/-! ### A transfer -/

/-- **The full packets.** -/
theorem receiving_fulls (h : Receiving p m bs s₀ s) {fulls : List Packet}
    (hfulls : ∀ q ∈ fulls, q.bytes.length = cdcTxrxEpsize) :
    ∃ s', receive s fulls = some s' ∧ Receiving p m (bs ++ bytesOf fulls) s₀ s' := by
  induction fulls generalizing s bs with
  | nil => exact ⟨s, rfl, (List.append_nil bs).symm ▸ h⟩
  | cons q fulls ih =>
      obtain ⟨s₁, hs₁, h₁⟩ := recvData_full h (hfulls q List.mem_cons_self)
      obtain ⟨s', hs', h'⟩ := ih h₁ fun r hr => hfulls r (List.mem_cons_of_mem q hr)
      refine ⟨s', ?_, ?_⟩
      · rw [receive, List.foldlM_cons, hs₁]
        exact hs'
      · rw [bytesOf, List.flatMap_cons, ← List.append_assoc]
        exact h'

/-- **A transfer.**  All its bytes are written round the first 256 of the buffer. -/
theorem receive_eq (hidle : Idle s) (hbuf : s.rxBuf = some p) (hcb : s.hasRxCb = true)
    {fulls : List Packet} {last : Packet}
    (hfulls : ∀ q ∈ fulls, q.bytes.length = cdcTxrxEpsize)
    (hlast : last.bytes.length < cdcTxrxEpsize) :
    ∃ s', receive s (fulls ++ [last]) = some s' ∧ s'.lastIndex = 0#8 ∧
      s'.memory = around 256 s.memory p 0 (bytesOf fulls ++ last.bytes) ∧
      s'.calls = s.calls ++ [(some p, s'.memory)] := by
  have hstart : Receiving p s.memory [] s s := ⟨hbuf, hidle.lastIndex, rfl, rfl, rfl⟩
  obtain ⟨s₁, hs₁, h₁⟩ := receiving_fulls hstart hfulls
  rw [List.nil_append] at h₁
  obtain ⟨s', hs', hrest⟩ := recvData_short h₁ hcb hlast
  refine ⟨s', ?_, hrest⟩
  rw [receive] at hs₁ ⊢
  rw [List.foldlM_append, hs₁]
  change (usbcdcRecvData s₁ last >>= fun s => some s) = some s'
  rw [hs']
  rfl

/-! ### What the buffer holds -/

/-- The buffer held the bytes from the 257th on, and each of the first 256 is equal to the last one
that is written over it. -/
def Coincides (m : Nat → U8) (p : Nat) (bs : List U8) : Prop :=
  (∀ j, 256 ≤ j → j < bs.length → bs[j]? = some (m (p + j))) ∧
    ∀ i j, i < 256 → j < bs.length → bs.length ≤ j + 256 → j % 256 = i → bs[i]? = bs[j]?

theorem read_eq_iff {m' : Nat → U8} :
    read m' p bs.length = bs ↔ ∀ j < bs.length, bs[j]? = some (m' (p + j)) := by
  have hget : ∀ j < bs.length, (read m' p bs.length)[j]? = some (m' (p + j)) := by
    intro j hj
    have hdef : read m' p bs.length = (List.range bs.length).map fun i => m' (p + i) := rfl
    rw [hdef, List.getElem?_map, List.getElem?_range hj]
    rfl
  constructor
  · intro h j hj
    rw [← hget j hj, h]
  · intro h
    refine List.ext_getElem? fun j => ?_
    by_cases hj : j < bs.length
    · rw [hget j hj, h j hj]
    · have hout := not_lt.mp hj
      rw [List.getElem?_eq_none hout, List.getElem?_eq_none ((length_read _ _ _).le.trans hout)]

/-- The last byte that is written over another one. -/
theorem last_over {i n : Nat} (hi : i < 256) (hn : i < n) :
    ∃ j < n, n ≤ j + 256 ∧ j % 256 = i :=
  ⟨i + 256 * ((n - 1 - i) / 256), by omega, by omega, by omega⟩

/-- **Written round the first 256.** -/
theorem contiguous_around_iff :
    Contiguous m p bs (around 256 m p 0 bs) ↔ Coincides m p bs := by
  have hcell : ∀ j < bs.length, bs.length ≤ j + 256 →
      some (around 256 m p 0 bs (p + j % 256)) = bs[j]? := by
    intro j hj hlast
    have hzero : (0 + j) % 256 = j % 256 := by rw [Nat.zero_add]
    rw [← hzero, around_cell hj hlast, List.getElem?_eq_getElem hj]
  have hbehind : ∀ j, 256 ≤ j → around 256 m p 0 bs (p + j) = m (p + j) := fun j hj =>
    around_apart fun i _ => by omega
  have hframe : ∀ a, a < p ∨ p + bs.length ≤ a → around 256 m p 0 bs a = m a := by
    intro a ha
    refine around_apart fun i hi => ?_
    have hle := Nat.mod_le (0 + i) 256
    omega
  rw [Contiguous, and_iff_left hframe, read_eq_iff]
  constructor
  · intro h
    refine ⟨fun j hbeyond hj => ?_, fun i j hi hj hlast hmod => ?_⟩
    · rw [h j hj, hbehind j hbeyond]
    · rw [← hcell j hj hlast, hmod]
      exact h i (by omega)
  · rintro ⟨hbeyond, hover⟩ j hj
    rcases Nat.lt_or_ge j 256 with hlt | hge
    · obtain ⟨l, hl, hlast, hmod⟩ := last_over hlt hj
      rw [hover j l hlt hl hlast hmod, ← hcell l hl hlast, hmod]
    · rw [hbeyond j hge hj, hbehind j hge]

/-- Up to 256 bytes, nothing is written over. -/
theorem coincides_of_le (h : bs.length ≤ 256) : Coincides m p bs := by
  refine ⟨fun j hge hj => by omega, fun i j _ hj _ hmod => ?_⟩
  rw [← hmod, Nat.mod_eq_of_lt (hj.trans_le h)]

end cdc

/-- **A transfer in the buffer.**  Full packets and one that is not full end in a call of `rxCb`
with the buffer.  It then holds the transfer, and nothing else was written, just when the transfer
has up to 256 bytes, or when the bytes behind are there by chance. -/
theorem contiguous_iff (s : CdcCtrl) (p : Nat) (hidle : Idle s) (hbuf : s.rxBuf = some p)
    (hcb : s.hasRxCb = true) (fulls : List Packet) (last : Packet)
    (hfulls : ∀ q ∈ fulls, q.bytes.length = cdcTxrxEpsize)
    (hlast : last.bytes.length < cdcTxrxEpsize) :
    ∃ s', receive s (fulls ++ [last]) = some s' ∧
      s'.calls = s.calls ++ [(some p, s'.memory)] ∧
      (Contiguous s.memory p (bytesOf (fulls ++ [last])) s'.memory ↔
        (bytesOf (fulls ++ [last])).length ≤ 256 ∨
          Coincides s.memory p (bytesOf (fulls ++ [last]))) := by
  obtain ⟨s', hs', -, hmemory, hcalls⟩ := receive_eq hidle hbuf hcb hfulls hlast
  refine ⟨s', hs', hcalls, ?_⟩
  rw [hmemory, ← bytesOf_concat, contiguous_around_iff]
  exact ⟨.inr, fun h => h.elim coincides_of_le id⟩

/-- The port, with a buffer at the start of an empty memory. -/
def atStart : CdcCtrl :=
  usbcdcSetRxBuf (usbcdcInit ⟨none, false, 0#8, true, fun _ => 0#8, []⟩) 0

/-- A full packet of zeros. -/
def zeros : Packet := ⟨List.replicate 64 0#8, by decide⟩

/-- A packet with one byte. -/
def oneByte : Packet := ⟨[1#8], by decide⟩

theorem contiguous_short :
    ∃ s', receive atStart ([zeros] ++ [oneByte]) = some s' ∧
      s'.calls = atStart.calls ++ [(some 0, s'.memory)] ∧
      (Contiguous atStart.memory 0 (bytesOf ([zeros] ++ [oneByte])) s'.memory ↔
        (bytesOf ([zeros] ++ [oneByte])).length ≤ 256 ∨
          Coincides atStart.memory 0 (bytesOf ([zeros] ++ [oneByte]))) :=
  contiguous_iff atStart 0 (.setRxBuf (.init _) 0) rfl rfl [zeros] oneByte (by decide) (by decide)

/-- 256 zeros and a 1: the 1 comes to lie in front. -/
theorem not_contiguous_257 :
    ¬ ∀ (s : CdcCtrl) (p : Nat), Idle s → s.rxBuf = some p → s.hasRxCb = true →
      ∀ (fulls : List Packet) (last : Packet),
        (∀ q ∈ fulls, q.bytes.length = cdcTxrxEpsize) → last.bytes.length < cdcTxrxEpsize →
          ∃ s', receive s (fulls ++ [last]) = some s' ∧
            s'.calls = s.calls ++ [(some p, s'.memory)] ∧
            Contiguous s.memory p (bytesOf (fulls ++ [last])) s'.memory := by
  intro h
  have hidle : Idle atStart := .setRxBuf (.init _) 0
  have hfulls : ∀ q ∈ [zeros, zeros, zeros, zeros], q.bytes.length = cdcTxrxEpsize := by decide
  have hlast : oneByte.bytes.length < cdcTxrxEpsize := by decide
  obtain ⟨s', hs', -, hcontiguous⟩ := h atStart 0 hidle rfl rfl _ _ hfulls hlast
  obtain ⟨t, ht, -, hmemory, -⟩ := receive_eq (p := 0) hidle rfl rfl hfulls hlast
  obtain rfl : s' = t := Option.some.inj (hs'.symm.trans ht)
  rw [hmemory, bytesOf_concat, contiguous_around_iff] at hcontiguous
  have hlength : (bytesOf [zeros, zeros, zeros, zeros] ++ oneByte.bytes).length = 257 := by
    decide +kernel
  have hover := hcontiguous.2 0 256 (by decide) (by rw [hlength]; decide) (by rw [hlength]; decide)
    rfl
  exact absurd hover (by decide +kernel)

end TelinkB91.Usb.Cdc
