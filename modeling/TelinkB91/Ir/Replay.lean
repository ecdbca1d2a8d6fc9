import TelinkB91.Ir.Waveform

/-!
# Ir — replaying what was learned

`ir_learn_copy_result` copies the entries of a waveform, and `ir_learn_send` turns them into the
sequence that the pwm is fed with: one half word for each entry, with the number of carrier periods
and whether the carrier is on.  `wave_series_cnt` is the index of the last entry: the copy loop goes
on up to it, and the loop that sends one entry further.

* `copy_eq`: what is copied.
* `Sent`, `sent_step`: what the loop has sent after some of its rounds.
* `sent_entries`: the whole sequence.  All that was copied is in it, and one more entry.
* `replay_not_copied`: so it is never just what was learned.
-/

namespace TelinkB91.Ir
open Runs

/-- `ir_learn_send_t`.  `irLearnSendBuf` goes on behind the array, and `copied` are the indices that
the last call of `ir_learn_copy_result` wrote. -/
structure SendBuf where
  irLearnCarrierCycle : U32
  irLearnWaveNum : U16
  irLearnSendBuf : Nat → U32
  copied : List Nat

/-- `ir_learn_send_buf[i] = v`. -/
def SendBuf.put (b : SendBuf) (i : Nat) (v : U32) : SendBuf :=
  { b with
    irLearnSendBuf := fun j => if j = i then v else b.irLearnSendBuf j
    copied := b.copied ++ [i] }

/-- `ir_learn_copy_result`. -/
def irLearnCopyResult (s : Ctrl) (b : SendBuf) : SendBuf :=
  (List.range (s.waveSeriesCnt.toNat + 1)).foldl (fun b i => b.put i (s.waveSeriesBuf i)) { b with
    irLearnCarrierCycle := s.carrCycleInterval
    irLearnWaveNum := s.waveSeriesCnt
    copied := [] }

/-- `pwm_cal_pwm0_ir_fifo_cfg_data`. -/
def pwmCalPwm0IrFifoCfgData (pulseNum : U16) (shadowEn carrierEn : U8) : U16 :=
  carrierEn.setWidth 16 <<< 15 ||| shadowEn.setWidth 16 <<< 14 ||| (pulseNum &&& 0x3fff#16)

def pwm0PulseNormal : U8 := 0#8

/-- `ir_send_dma_data_t`.  `data` goes on behind the array, and `reads` and `writes` are the indices
of the entries that the last call of `ir_learn_send` read, and of those that it wrote. -/
structure SendDma where
  dmaLen : U32
  data : Nat → U16
  dataNum : U32
  reads : List Nat
  writes : List Nat

/-- `data[i] = v`.  Behind the array lies `data_num`. -/
def SendDma.put (d : SendDma) (i : Nat) (v : U16) : SendDma :=
  { d with
    data := fun j => if j = i then v else d.data j
    dataNum :=
      if i = maxSectionNumber then d.dataNum.extractLsb' 16 16 ++ v
      else if i = maxSectionNumber + 1 then v ++ d.dataNum.extractLsb' 0 16
      else d.dataNum
    writes := d.writes ++ [i] }

def irSendingNone : U8 := 0#8

def irSendingData : U8 := 1#8

/-- `ir_send_dma_data`, what is used of `ir_send_ctrl`, and the registers of the pwm. -/
structure Sender where
  dma : SendDma
  isSending : U8
  repeatEnable : U8
  sendingStartTime : U32
  tcmp : U16
  tmax : U16

/-- `ir_is_sending` at the time `now`, whose result is `is_sending`. -/
def irIsSending (t : Sender) (now : U32) : Sender :=
  if t.isSending ≠ irSendingNone ∧ ClockTimeExceed now t.sendingStartTime 300000#32 then
    { t with isSending := irSendingNone }
  else t

/-- A round of the loop in `ir_learn_send`, with `is_carrier`. -/
def sendEntry (b : SendBuf) (st : SendDma × U8) (i : Nat) : SendDma × U8 :=
  let d := { st.1 with reads := st.1.reads ++ [i] }
  let d := d.put d.dataNum.toNat (pwmCalPwm0IrFifoCfgData
    ((b.irLearnSendBuf i / b.irLearnCarrierCycle).setWidth 16) pwm0PulseNormal st.2)
  ({ d with dataNum := d.dataNum + 1 }, if st.2 = 1#8 then 0#8 else 1#8)

/-- The loop. -/
def sendEntries (b : SendBuf) (d : SendDma) (n : Nat) : SendDma × U8 :=
  (List.range n).foldl (sendEntry b) ({ d with dataNum := 0#32, reads := [], writes := [] }, 1#8)

/-- `ir_learn_send` at the time `now`, where the sending starts at `started`. -/
def irLearnSend (b : SendBuf) (t : Sender) (now started : U32) : Sender :=
  let t := irIsSending t now
  if t.isSending ≠ irSendingNone then t
  else
    let d := (sendEntries b t.dma (b.irLearnWaveNum.toNat + 2)).1
    { dma := { d with dmaLen := (d.dataNum + 1#32) * 2#32 }
      isSending := irSendingData
      repeatEnable := 0#8
      sendingStartTime := started
      tcmp := (b.irLearnCarrierCycle / 3#32).setWidth 16
      tmax := b.irLearnCarrierCycle.setWidth 16 }

/-- The number of carrier periods of an entry. -/
def pulses (v : U16) : Nat := (v &&& 0x3fff#16).toNat

/-- The carrier is on. -/
def carrierBit (v : U16) : Bool := v.getLsbD 15

/-- The sequence in `t` is what was learned in `s`, through the copy in `b`. -/
structure Replays (s : Ctrl) (b : SendBuf) (t : Sender) : Prop where
  entries : t.dma.dataNum.toNat = s.waveSeriesCnt.toNat + 1
  pulses : ∀ i ≤ s.waveSeriesCnt.toNat,
    pulses (t.dma.data i) = (s.waveSeriesBuf i).toNat / s.carrCycleInterval.toNat
  carrier : ∀ i ≤ s.waveSeriesCnt.toNat, carrierBit (t.dma.data i) = decide (i % 2 = 0)
  reads : ∀ i ∈ t.dma.reads, i ∈ b.copied
  writes : ∀ i ∈ t.dma.writes, i < maxSectionNumber

/-! ### The copy -/

/-- The copy loop, after `n` rounds. -/
theorem copy_loop (s : Ctrl) (b : SendBuf) (n : Nat) :
    (List.range n).foldl (fun b i => b.put i (s.waveSeriesBuf i)) b = { b with
      irLearnSendBuf := fun i => if i < n then s.waveSeriesBuf i else b.irLearnSendBuf i
      copied := b.copied ++ List.range n } := by
  induction n with
  | zero => simp
  | succ n ih =>
      rw [List.range_succ, List.foldl_append, ih, List.foldl_cons, List.foldl_nil, SendBuf.put,
        ← List.append_assoc]
      congr 1
      funext i
      dsimp only
      rcases Nat.lt_trichotomy i n with hlt | rfl | hgt
      · rw [if_neg hlt.ne, if_pos hlt, if_pos (hlt.trans n.lt_succ_self)]
      · rw [if_pos rfl, if_pos i.lt_succ_self]
      · rw [if_neg hgt.ne', if_neg (Nat.lt_asymm hgt), if_neg (by omega)]

/-- **What is copied**: the entries up to the last, and nothing else. -/
theorem copy_eq (s : Ctrl) (b : SendBuf) : irLearnCopyResult s b = {
    irLearnCarrierCycle := s.carrCycleInterval
    irLearnWaveNum := s.waveSeriesCnt
    irLearnSendBuf := fun i =>
      if i < s.waveSeriesCnt.toNat + 1 then s.waveSeriesBuf i else b.irLearnSendBuf i
    copied := List.range (s.waveSeriesCnt.toNat + 1) } := by
  rw [irLearnCopyResult, copy_loop, List.nil_append]

/-! ### The loop that sends -/

section loop

variable {b : SendBuf} {n : Nat} {st : SendDma × U8}

/-- The half word for entry `i`. -/
def SendBuf.entry (b : SendBuf) (i : Nat) : U16 :=
  pwmCalPwm0IrFifoCfgData ((b.irLearnSendBuf i / b.irLearnCarrierCycle).setWidth 16)
    pwm0PulseNormal (if i % 2 = 0 then 1#8 else 0#8)

/-- What the loop has read, and what it has sent, after `n` rounds within the array. -/
structure Sent (b : SendBuf) (n : Nat) (st : SendDma × U8) : Prop where
  dataNum : st.1.dataNum = BitVec.ofNat 32 n
  isCarrier : st.2 = if n % 2 = 0 then 1#8 else 0#8
  data : ∀ i < n, st.1.data i = b.entry i
  writes : st.1.writes = List.range n

theorem sendEntries_succ (b : SendBuf) (d : SendDma) (n : Nat) :
    sendEntries b d (n + 1) = sendEntry b (sendEntries b d n) n := by
  rw [sendEntries, List.range_succ, List.foldl_append, List.foldl_cons, List.foldl_nil, sendEntries]

/-- The entry that is written next. -/
theorem Sent.index (h : Sent b n st) (hn : n ≤ maxSectionNumber) : st.1.dataNum.toNat = n := by
  have hn : n ≤ 100 := hn
  rw [h.dataNum]
  bv_omega

theorem Sent.next_write (h : Sent b n st) (hn : n ≤ maxSectionNumber) :
    (sendEntry b st n).1.writes = List.range (n + 1) := by
  rw [sendEntry, SendDma.put]
  dsimp only
  rw [h.writes, h.index hn, List.range_succ]

theorem Sent.next (h : Sent b n st) (hn : n < maxSectionNumber) :
    Sent b (n + 1) (sendEntry b st n) := by
  have hindex := h.index hn.le
  refine ⟨?_, ?_, fun i hi => ?_, h.next_write hn.le⟩
  · rw [sendEntry, SendDma.put]
    dsimp only
    rw [hindex, if_neg hn.ne, if_neg (by omega), h.dataNum, BitVec.ofNat_add]
    rfl
  · rw [sendEntry, h.isCarrier]
    dsimp only
    rcases Nat.mod_two_eq_zero_or_one n with heven | hodd
    · have hodd : ¬(n + 1) % 2 = 0 := by omega
      rw [if_pos heven, if_neg hodd]
      rfl
    · have heven : (n + 1) % 2 = 0 := by omega
      rw [if_neg (hodd.trans_ne Nat.one_ne_zero), if_pos heven]
      rfl
  · rw [sendEntry, SendDma.put]
    dsimp only
    rw [hindex]
    rcases Nat.lt_succ_iff_lt_or_eq.mp hi with hlt | rfl
    · rw [if_neg hlt.ne]
      exact h.data i hlt
    · rw [if_pos rfl, h.isCarrier, SendBuf.entry]

theorem sent_loop (b : SendBuf) (d : SendDma) (hn : n ≤ maxSectionNumber) :
    Sent b n (sendEntries b d n) := by
  induction n with
  | zero => exact ⟨rfl, rfl, fun i hi => absurd hi (Nat.not_lt_zero i), rfl⟩
  | succ n ih =>
      rw [sendEntries_succ]
      exact (ih (Nat.le_of_succ_le hn)).next hn

/-- The entries are read in order, wherever they are written. -/
theorem reads_loop (b : SendBuf) (d : SendDma) (n : Nat) :
    (sendEntries b d n).1.reads = List.range n := by
  induction n with
  | zero => rfl
  | succ n ih =>
      rw [sendEntries_succ, List.range_succ, ← ih]
      rfl

end loop

/-! ### The sequence -/

theorem pulses_cfg (q : U16) (i : Nat) :
    pulses (pwmCalPwm0IrFifoCfgData q pwm0PulseNormal (if i % 2 = 0 then 1#8 else 0#8)) =
      q.toNat % 16384 := by
  have hmask : q.toNat &&& 16383 = q.toNat % 16384 := Nat.and_two_pow_sub_one_eq_mod q.toNat 14
  have hbits : ∀ c : U16, c &&& 0x3fff#16 = 0#16 →
      (c ||| (q &&& 0x3fff#16)) &&& 0x3fff#16 = q &&& 0x3fff#16 := by
    intro c hc
    rw [BitVec.and_or_distrib_right, hc, BitVec.and_assoc, BitVec.and_self, BitVec.zero_or]
  rw [pulses, pwmCalPwm0IrFifoCfgData]
  split_ifs
  · rw [hbits _ (by decide), BitVec.toNat_and]
    exact hmask
  · rw [hbits _ (by decide), BitVec.toNat_and]
    exact hmask

theorem carrierBit_cfg (q : U16) (i : Nat) :
    carrierBit (pwmCalPwm0IrFifoCfgData q pwm0PulseNormal (if i % 2 = 0 then 1#8 else 0#8)) =
      decide (i % 2 = 0) := by
  rw [carrierBit, pwmCalPwm0IrFifoCfgData, BitVec.getLsbD_or, BitVec.getLsbD_and]
  split_ifs with heven
  · simp [heven]
  · simp [heven, pwm0PulseNormal]

section send

variable {t : Sender} {now : U32}

/-- Where no other sequence is being sent, the loop is run. -/
theorem send_dma (hfree : (irIsSending t now).isSending = irSendingNone) (b : SendBuf)
    (started : U32) :
    (irLearnSend b t now started).dma =
      (let d := (sendEntries b (irIsSending t now).dma (b.irLearnWaveNum.toNat + 2)).1
      { d with dmaLen := (d.dataNum + 1#32) * 2#32 }) := by
  rw [irLearnSend]
  dsimp only
  rw [if_neg (not_not.mpr hfree)]

/-- An entry that was learned, in the copy. -/
theorem entry_copied {s : Ctrl} (b : SendBuf) {i : Nat} (hi : i ≤ s.waveSeriesCnt.toNat)
    (hsmall : (s.waveSeriesBuf i).toNat / s.carrCycleInterval.toNat < 16384) :
    pulses ((irLearnCopyResult s b).entry i) =
        (s.waveSeriesBuf i).toNat / s.carrCycleInterval.toNat ∧
      carrierBit ((irLearnCopyResult s b).entry i) = decide (i % 2 = 0) := by
  refine ⟨?_, carrierBit_cfg _ i⟩
  rw [SendBuf.entry, pulses_cfg, copy_eq]
  dsimp only
  rw [if_pos (Nat.lt_succ_of_le hi), BitVec.toNat_setWidth, BitVec.toNat_udiv,
    Nat.mod_eq_of_lt (hsmall.trans (by decide)), Nat.mod_eq_of_lt hsmall]

/-- **The whole sequence**, where it fits in the array: the entries that were learned, and one more,
which the copy did not write. -/
theorem sent_entries (s : Ctrl) (b : SendBuf) (started : U32)
    (hfree : (irIsSending t now).isSending = irSendingNone)
    (hfit : s.waveSeriesCnt.toNat + 2 ≤ maxSectionNumber) :
    let d := (irLearnSend (irLearnCopyResult s b) t now started).dma
    d.dataNum.toNat = s.waveSeriesCnt.toNat + 2 ∧
      d.writes = List.range (s.waveSeriesCnt.toNat + 2) ∧
      ∀ i ≤ s.waveSeriesCnt.toNat,
        (s.waveSeriesBuf i).toNat / s.carrCycleInterval.toNat < 16384 →
        pulses (d.data i) = (s.waveSeriesBuf i).toNat / s.carrCycleInterval.toNat ∧
          carrierBit (d.data i) = decide (i % 2 = 0) := by
  have hnum : (irLearnCopyResult s b).irLearnWaveNum = s.waveSeriesCnt := by rw [copy_eq]
  have hsent := sent_loop (irLearnCopyResult s b) (irIsSending t now).dma hfit
  rw [send_dma hfree, hnum]
  refine ⟨hsent.index hfit, hsent.writes, fun i hi hsmall => ?_⟩
  have hentry := hsent.data i (by omega)
  have hcopied := entry_copied b hi hsmall
  rw [← hentry] at hcopied
  exact hcopied

/-- With all the sections there can be, the entry more is written behind the array, onto
`data_num`. -/
theorem full_overwrites (s : Ctrl) (b : SendBuf) (started : U32)
    (hfree : (irIsSending t now).isSending = irSendingNone)
    (hfull : s.waveSeriesCnt.toNat + 1 = maxSectionNumber) :
    maxSectionNumber ∈ (irLearnSend (irLearnCopyResult s b) t now started).dma.writes := by
  have hnum : (irLearnCopyResult s b).irLearnWaveNum = s.waveSeriesCnt := by rw [copy_eq]
  have hsent := sent_loop (irLearnCopyResult s b) (irIsSending t now).dma le_rfl
  have hwrites := hsent.next_write le_rfl
  rw [← sendEntries_succ, ← hfull] at hwrites
  rw [send_dma hfree, hnum]
  dsimp only
  rw [hwrites, hfull]
  exact List.mem_range.mpr (Nat.lt_succ_self _)

/-- **What is sent is never just what was learned**: the entry behind the last is read, which the
copy did not write. -/
theorem replay_not_copied (s : Ctrl) (b : SendBuf) (t : Sender) (now started : U32)
    (hfree : (irIsSending t now).isSending = irSendingNone) :
    ¬Replays s (irLearnCopyResult s b) (irLearnSend (irLearnCopyResult s b) t now started) := by
  intro hreplays
  have hread : s.waveSeriesCnt.toNat + 1 ∈
      (irLearnSend (irLearnCopyResult s b) t now started).dma.reads := by
    rw [send_dma hfree, copy_eq]
    dsimp only
    rw [reads_loop]
    exact List.mem_range.mpr (Nat.lt_succ_self _)
  have hcopied := hreplays.reads _ hread
  rw [copy_eq] at hcopied
  exact absurd (List.mem_range.mp hcopied) (Nat.lt_irrefl _)

end send

/-- Nothing has been copied, and nothing sent. -/
def noResult : SendBuf := ⟨0#32, 0#16, fun _ => 0#32, []⟩

def idleSender : Sender := ⟨⟨0#32, fun _ => 0#16, 0#32, [], []⟩, 0#8, 0#8, 0#32, 0#16, 0#16⟩

/-- What is learned from the nine bursts. -/
def nineLearned : Ctrl := runFrom Ctrl.step (irLearnStart 0#32) learnNine

theorem replay_not_copied_nine :
    nineLearned.irLearnState = .success ∧
    ¬Replays nineLearned (irLearnCopyResult nineLearned noResult)
      (irLearnSend (irLearnCopyResult nineLearned noResult) idleSender 0#32 0#32) :=
  ⟨by decide +kernel, replay_not_copied nineLearned noResult idleSender 0#32 0#32 (by decide)⟩

/-- From the 17 entries of the nine bursts a sequence of 18 is made. -/
theorem one_more_sent :
    nineLearned.irLearnState = .success ∧ nineLearned.waveSeriesCnt = 16#16 ∧
      (irLearnSend (irLearnCopyResult nineLearned noResult) idleSender 0#32 0#32).dma.dataNum =
        18#32 ∧
      ¬Replays nineLearned (irLearnCopyResult nineLearned noResult)
        (irLearnSend (irLearnCopyResult nineLearned noResult) idleSender 0#32 0#32) := by
  have hsections : nineLearned.waveSeriesCnt = 16#16 := by decide +kernel
  have hnum :
      (irLearnSend (irLearnCopyResult nineLearned noResult) idleSender 0#32 0#32).dma.dataNum =
        18#32 := by decide +kernel
  refine ⟨by decide +kernel, hsections, hnum, fun hreplays => ?_⟩
  have hentries := hreplays.entries
  rw [hnum, hsections] at hentries
  exact absurd hentries (by decide)

end TelinkB91.Ir
