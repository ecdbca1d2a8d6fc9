import TelinkB91.Fifo.MyFifo

/-!
# Debug — the log records of `tlkapi_debug.c`

`tlkapi_send_str_data` writes a string and some data into the next slot of the print FIFO, behind
nine bytes of header.  It first clips the two to `fifo_data_len`, which `tlkapi_debug_init` sets to
the size of a slot less `fifo_format_len`.  That is 12 on the USB channel, but 8 on the two others.

* `length_record`: how long a record is.
* `record_in_slot_iff`: a record stays in its slot just when it is for the USB channel, or is not
  clipped to the last byte.
* `record_past_slot`: a string that fills its slot and one byte more.
-/

namespace TelinkB91.Debug
open ByteMemory Fifo

abbrev U16 := BitVec 16

abbrev U32 := BitVec 32

/-- `TLKAPI_DEBUG_CHANNEL`. -/
inductive Channel where
  | udb
  | gsuart
  | uart
  deriving DecidableEq, Repr

/-- `tlk_dbg_t`. -/
structure TlkDbg where
  dbgEn : U8
  dbgChn : Channel
  uartSendIsBusy : U8
  fifoFormatLen : U8
  fifoDataLen : U16
  deriving DecidableEq, Repr

/-- `fifo_format_len` of the channel. -/
def Channel.formatLen : Channel → U8
  | .udb => 12#8
  | .gsuart | .uart => 8#8

/-- `size - fifo_format_len`, in 16 bits. -/
def Channel.dataLen (chn : Channel) (size : Nat) : U16 :=
  BitVec.ofNat 16 size - chn.formatLen.setWidth 16

/-- `tlkapi_debug_init` for the channel `chn`, with the print FIFO `f`. -/
def tlkapiDebugInit (chn : Channel) (g : TlkDbg) (f : MyFifo) : TlkDbg × MyFifo :=
  ({ dbgEn := 1#8
     dbgChn := chn
     uartSendIsBusy := if chn = .uart then 0#8 else g.uartSendIsBusy
     fifoFormatLen := chn.formatLen
     fifoDataLen := chn.dataLen f.size },
    { f with wptr := 0#8, rptr := 0#8 })

/-- The loop of `tlk_strlen` from the length `len` on, for `k` rounds at most. -/
def tlkStrlenFrom (str : Memory) (len : Nat) : Nat → Nat
  | 0 => len
  | k + 1 => if str len = 0#8 then len else tlkStrlenFrom str (len + 1) k

/-- `tlk_strlen`, which breaks off when the length is above `0x1000`. -/
def tlkStrlen (str : Memory) : Nat := tlkStrlenFrom str 0 0x1001

/-- `str ? tlk_strlen (str) : 0`. -/
def stringLen : Option Memory → Nat
  | none => 0
  | some str => tlkStrlen str

/-- The clipping: `ns` and `data_len`. -/
def clip (fifoDataLen ns dataLen : Nat) : Nat × Nat :=
  if ns > fifoDataLen then (fifoDataLen, 0)
  else if dataLen + ns > fifoDataLen then (ns, fifoDataLen - ns)
  else (ns, dataLen)

/-- What is written into the slot: the header, and `ns` bytes of the string and `dataLen` of the
data. -/
def record (chn : Channel) (str pData : Memory) (ns dataLen : Nat) : List U8 :=
  let len := ns + dataLen + 5
  match chn with
  | .udb =>
      [BitVec.ofNat 8 len, BitVec.ofNat 8 (len >>> 8), 0#8, 0#8, 0x82#8, 8#8, 0x22#8,
        BitVec.ofNat 8 dataLen, BitVec.ofNat 8 (dataLen >>> 8)] ++ read pData 0 dataLen ++
          read str 0 ns
  | .gsuart | .uart =>
      [BitVec.ofNat 8 len, BitVec.ofNat 8 (len >>> 8), 0#8, 0#8, 0x95#8, 0xA6#8, BitVec.ofNat 8 ns,
        BitVec.ofNat 8 dataLen, BitVec.ofNat 8 (dataLen >>> 8)] ++ read str 0 ns ++
          read pData 0 dataLen

/-- The record `tlkapi_send_str_data` writes, if it does. -/
def sent (g : TlkDbg) (str : Option Memory) (pData : Memory) (dataLen : U32) : Option (List U8) :=
  if dataLen > 500#32 then none
  else
    let c := clip g.fifoDataLen.toNat (stringLen str) dataLen.toNat
    some (record g.dbgChn (str.getD fun _ => 0#8) pData c.1 c.2)

/-- `tlkapi_send_str_data` on the print FIFO `s`. -/
def tlkapiSendStrData (g : TlkDbg) (s : Sys) (str : Option Memory) (pData : Memory)
    (dataLen : U32) : Sys :=
  match sent g str pData dataLen with
  | none => s
  | some bs => s.store bs

/-- The call returns at once, or is for the USB channel, or string and data leave nine bytes of the
slot for the header, or `fifo_data_len` has lost the high bits of the size. -/
def InSlot (chn : Channel) (size : Nat) (str : Option Memory) (dataLen : U32) : Prop :=
  dataLen > 500#32 ∨ chn = .udb ∨ stringLen str + dataLen.toNat + 9 ≤ size ∨ 65544 ≤ size

instance (chn : Channel) (size : Nat) (str : Option Memory) (dataLen : U32) :
    Decidable (InSlot chn size str dataLen) := by
  unfold InSlot
  infer_instance

theorem clip_sum (fifoDataLen ns dataLen : Nat) :
    (clip fifoDataLen ns dataLen).1 + (clip fifoDataLen ns dataLen).2 =
      min (ns + dataLen) fifoDataLen := by
  rw [clip]
  split
  · rw [Nat.add_zero]
    omega
  · split
    · dsimp only
      omega
    · dsimp only
      omega

theorem length_record (chn : Channel) (str pData : Memory) (ns dataLen : Nat) :
    (record chn str pData ns dataLen).length = ns + dataLen + 9 := by
  cases chn with
  | udb =>
      simp only [record, List.length_append, length_read, List.length_cons, List.length_nil]
      omega
  | gsuart | uart =>
      simp only [record, List.length_append, length_read, List.length_cons, List.length_nil]
      omega

/-- What is written has a length that is not refused. -/
theorem not_long_of_sent {g : TlkDbg} {str : Option Memory} {pData : Memory} {dataLen : U32}
    {bs : List U8} (h : sent g str pData dataLen = some bs) : ¬ dataLen > 500#32 := by
  intro hlong
  rw [sent, if_pos hlong] at h
  exact nomatch h

/-- What `tlkapi_debug_init` leaves in `tlkDbgCtl` for the print FIFO `f`. -/
structure Configured (chn : Channel) (g : TlkDbg) (f : MyFifo) : Prop where
  dbgChn : g.dbgChn = chn
  fifoDataLen : g.fifoDataLen = chn.dataLen f.size

/-- A slot that holds the header loses no more than the high bits of its size. -/
theorem toNat_dataLen {chn : Channel} {size : Nat} (h : chn.formatLen.toNat ≤ size) :
    (chn.dataLen size).toNat = (size - chn.formatLen.toNat) % 65536 := by
  have hlt := chn.formatLen.isLt
  rw [Channel.dataLen, BitVec.toNat_sub, BitVec.toNat_ofNat, BitVec.toNat_setWidth]
  omega

theorem Channel.formatLen_le (chn : Channel) : chn.formatLen.toNat ≤ 12 := by
  cases chn with
  | udb => exact le_rfl
  | gsuart | uart => exact Nat.le_of_lt (by decide)

theorem configured_init (chn : Channel) (g : TlkDbg) (f : MyFifo) :
    Configured chn (tlkapiDebugInit chn g f).1 f := ⟨rfl, rfl⟩

section configured

variable {chn : Channel} {g : TlkDbg} {f : MyFifo}

theorem length_sent (hg : Configured chn g f) (hsize : 16 ≤ f.size) {str : Option Memory}
    {pData : Memory} {dataLen : U32} {bs : List U8} (h : sent g str pData dataLen = some bs) :
    bs.length = min (stringLen str + dataLen.toNat)
      ((f.size - chn.formatLen.toNat) % 65536) + 9 := by
  rw [sent] at h
  split at h
  · exact nomatch h
  · have hle : chn.formatLen.toNat ≤ f.size :=
      Nat.le_trans chn.formatLen_le (Nat.le_trans (by decide) hsize)
    rw [← Option.some.inj h, length_record, clip_sum, hg.fifoDataLen, toNat_dataLen hle]

/-- What is written fits into a slot just when it is in one of the cases of `InSlot`. -/
theorem length_sent_le_iff (hg : Configured chn g f) (hsize : 16 ≤ f.size) {str : Option Memory}
    {pData : Memory} {dataLen : U32} {bs : List U8} (h : sent g str pData dataLen = some bs) :
    bs.length ≤ f.size ↔ InSlot chn f.size str dataLen := by
  have hret := not_long_of_sent h
  have hlen := length_sent hg hsize h
  rw [InSlot, or_iff_right hret]
  by_cases hudb : chn = .udb
  · have hformat : chn.formatLen.toNat = 12 := by rw [hudb]; rfl
    rw [hformat] at hlen
    exact ⟨fun _ => .inl hudb, fun _ => by omega⟩
  · have hformat : chn.formatLen.toNat = 8 := by
      cases chn with
      | udb => exact absurd rfl hudb
      | gsuart => rfl
      | uart => rfl
    rw [hformat] at hlen
    rw [or_iff_right hudb]
    omega

end configured

/-- **In the slot.**  Everything `tlkapi_send_str_data` writes is inside the slot of `wptr` just
when the string and the data are in one of the cases of `InSlot`. -/
theorem record_in_slot_iff (chn : Channel) (g : TlkDbg) {f : MyFifo} (hsize : 16 ≤ f.size)
    (str : Option Memory) (pData : Memory) (dataLen : U32) :
    (∀ bs, sent (tlkapiDebugInit chn g f).1 str pData dataLen = some bs →
      f.addr f.wptr + bs.length ≤ f.addr f.wptr + f.size) ↔ InSlot chn f.size str dataLen := by
  constructor
  · intro h
    cases hsent : sent (tlkapiDebugInit chn g f).1 str pData dataLen with
    | none =>
        refine .inl ?_
        by_contra hret
        rw [sent, if_neg hret] at hsent
        exact nomatch hsent
    | some bs =>
        have hle := Nat.le_of_add_le_add_left (h bs hsent)
        exact (length_sent_le_iff (configured_init chn g f) hsize hsent).mp hle
  · intro h bs hsent
    have hle := (length_sent_le_iff (configured_init chn g f) hsize hsent).mpr h
    exact Nat.add_le_add_left hle _

/-- The print FIFO as it is configured by default: 16 slots of 64 bytes. -/
def printFifo : MyFifo := ⟨64, 16, 0#8, 0#8, 0x1000⟩

/-- A string of `n` bytes. -/
def stringOf (n : Nat) : Memory := fun i => if i < n then 0x78#8 else 0#8

/-- A string of 50 bytes, with four bytes of data. -/
theorem record_in_slot_short :
    InSlot .uart printFifo.size (some (stringOf 50)) 4#32 ∧
    ∀ bs, sent (tlkapiDebugInit .uart ⟨0#8, .uart, 0#8, 0#8, 0#16⟩ printFifo).1
        (some (stringOf 50)) (fun _ => 0#8) 4#32 = some bs →
      printFifo.addr printFifo.wptr + bs.length ≤
        printFifo.addr printFifo.wptr + printFifo.size := by
  have hslot : InSlot .uart printFifo.size (some (stringOf 50)) 4#32 := by decide +kernel
  refine ⟨hslot, ?_⟩
  exact (record_in_slot_iff .uart ⟨0#8, .uart, 0#8, 0#8, 0#16⟩ (by decide) _ _ _).mpr hslot

/-- **One byte too long.**  A string of 60 bytes is clipped to 56, behind a header of nine. -/
theorem record_past_slot :
    (sent (tlkapiDebugInit .uart ⟨0#8, .uart, 0#8, 0#8, 0#16⟩ printFifo).1 (some (stringOf 60))
      (fun _ => 0#8) 0#32).map List.length = some 65 ∧
    ¬ ∀ bs, sent (tlkapiDebugInit .uart ⟨0#8, .uart, 0#8, 0#8, 0#16⟩ printFifo).1
        (some (stringOf 60)) (fun _ => 0#8) 0#32 = some bs →
      printFifo.addr printFifo.wptr + bs.length ≤
        printFifo.addr printFifo.wptr + printFifo.size := by
  have hlen : (sent (tlkapiDebugInit .uart ⟨0#8, .uart, 0#8, 0#8, 0#16⟩ printFifo).1
      (some (stringOf 60)) (fun _ => 0#8) 0#32).map List.length = some 65 := by decide +kernel
  refine ⟨hlen, ?_⟩
  intro h
  obtain ⟨bs, hbs, hsize⟩ := Option.map_eq_some_iff.mp hlen
  have hle := Nat.le_of_add_le_add_left (h bs hbs)
  rw [hsize] at hle
  exact absurd hle (by decide)

end TelinkB91.Debug
