import Mathlib.Tactic.IntervalCases
import TelinkB91.Ir.Replay

/-!
# Ir — frames of the NEC protocol

`ir_nec_send` puts two bytes of address, a command and its complement into one word, and turns the
word into a waveform: a pair of entries for the start, one for each bit, the lowest first, and one
for the stop.  It does nothing when the command is the last one sent.  The last command is forgotten
when the waveform has been sent, or by `rc_ir_init`: it is set to 0xFF then, which is also a
command.

`Remote` is what `rc_ir.c` keeps, with the waveforms that were started.  The learning remote shares
`ir_send_ctrl` with it.

* `decode_pairs`, `bytesOf_frame`: the bits come back from the pairs, and the bytes from the bits.
* `Released.step`: after a release the last command is 0xFF until a frame is sent.
* `nec_round_trip_iff`: after any history, a frame is sent and decodes to what was asked for just
  when the command is not 0xFF.
* `command_ff`: a command that is not sent.
-/

namespace TelinkB91.Ir.Nec
open Runs

/-- The entries of the waveforms. -/
structure Waveforms where
  startBit1st : U16
  startBit2nd : U16
  stopBit1st : U16
  stopBit2nd : U16
  logic01st : U16
  logic02nd : U16
  logic11st : U16
  logic12nd : U16
  repeat1st : U16
  repeat2nd : U16
  repeat3rd : U16
  repeat4th : U16
  waitToRepeat : U16

/-- `pwm_dma_data_t`. -/
structure DmaData where
  data : Nat → U16
  dataNum : Nat
  dmaLen : Nat

/-- `PWM_IR_MAX_NUM`. -/
def pwmIrMaxNum : Nat := 80

/-- `PWM_CARRIER_CYCLE_TICK`, of a clock of 1 MHz for a carrier of 38 kHz. -/
def pwmCarrierCycleTick : Nat := 1000000 / 38000

/-- `T_dmaData_buf.data[T_dmaData_buf.data_num ++] = v`. -/
def DmaData.push (d : DmaData) (v : U16) : DmaData :=
  { d with
    data := fun i => if i = d.dataNum then v else d.data i
    dataNum := d.dataNum + 1 }

/-- `T_dmaData_buf.dma_len = T_dmaData_buf.data_num * 2`. -/
def DmaData.close (d : DmaData) : DmaData := { d with dmaLen := d.dataNum * 2 }

/-- The entries so far. -/
def DmaData.words (d : DmaData) : List U16 := (List.range d.dataNum).map d.data

/-- `ir_send_ctrl_t`. -/
structure SendCtrl where
  isSending : U8
  repeatEnable : U8
  lastCmd : U8
  sendingStartTime : U32

def irSendingRepeat : U8 := 2#8

/-- `started` are the waveforms that the pwm was started with.  `released` says whether
`ir_send_release` or `rc_ir_init` was called since the last frame was started. -/
structure Remote where
  wave : Waveforms
  dma : DmaData
  ctrl : SendCtrl
  started : List (List U16)
  released : Bool

/-- All zero. -/
def Remote.boot : Remote where
  wave := ⟨0#16, 0#16, 0#16, 0#16, 0#16, 0#16, 0#16, 0#16, 0#16, 0#16, 0#16, 0#16, 0#16⟩
  dma := ⟨fun _ => 0#16, 0, 0⟩
  ctrl := ⟨0#8, 0#8, 0#8, 0#32⟩
  started := []
  released := false

/-- `ir_is_sending` at the time `now`, whose result is `is_sending`. -/
def Remote.irIsSending (s : Remote) (now : U32) : Remote :=
  if s.ctrl.isSending ≠ irSendingNone ∧ ClockTimeExceed now s.ctrl.sendingStartTime 300000#32 then
    { s with ctrl := { s.ctrl with isSending := irSendingNone } }
  else s

/-- `ir_sending_check` gives 1 at the time `now`. -/
def Remote.InProgress (s : Remote) (now : U32) : Prop :=
  (s.irIsSending now).ctrl.isSending ≠ irSendingNone

instance (s : Remote) (now : U32) : Decidable (s.InProgress now) :=
  inferInstanceAs (Decidable (_ ≠ _))

/-- `pwm_set_dma_buf` and `pwm_ir_dma_mode_start` for `T_dmaData_buf`: the first `dma_len` bytes are
sent. -/
def Remote.start (s : Remote) : Remote :=
  { s with started := s.started ++ [(List.range (s.dma.dmaLen / 2)).map s.dma.data] }

/-- The word of a frame. -/
def frame (addr1 addr2 cmd : U8) : U32 :=
  ~~~(cmd.setWidth 32) <<< 24 ||| cmd.setWidth 32 <<< 16 ||| addr2.setWidth 32 <<< 8 |||
    addr1.setWidth 32

/-- The waveform of a bit. -/
def DmaData.pushBit (w : Waveforms) (d : DmaData) (bit : Bool) : DmaData :=
  if bit then (d.push w.logic11st).push w.logic12nd else (d.push w.logic01st).push w.logic02nd

/-- The waveform of a frame. -/
def DmaData.pushFrame (w : Waveforms) (d : DmaData) (data : U32) : DmaData :=
  let d := { d with dataNum := 0 }
  let d := (d.push w.startBit1st).push w.startBit2nd
  let d := (List.range 32).foldl (fun d i => d.pushBit w (data.getLsbD i)) d
  (d.push w.stopBit1st).push w.stopBit2nd

/-- `ir_nec_send` at the time `now`, where the sending starts at the time `started`. -/
def Remote.irNecSend (s : Remote) (addr1 addr2 cmd : U8) (now started : U32) : Remote :=
  if s.ctrl.lastCmd ≠ cmd then
    let s := s.irIsSending now
    if s.ctrl.isSending ≠ irSendingNone then s
    else
      Remote.start { s with
        dma := (s.dma.pushFrame s.wave (frame addr1 addr2 cmd)).close
        ctrl :=
          { isSending := irSendingData
            repeatEnable := 0#8
            lastCmd := cmd
            sendingStartTime := started }
        released := false }
  else s

/-- `ir_send_release`. -/
def Remote.irSendRelease (s : Remote) : Remote :=
  { s with
    ctrl := { s.ctrl with lastCmd := 0xFF#8, isSending := irSendingNone }
    released := true }

/-- The waveforms of the five repeats. -/
def DmaData.pushRepeats (w : Waveforms) (d : DmaData) : DmaData :=
  (List.range 5).foldl
    (fun d _ => (((d.push w.repeat1st).push w.repeat2nd).push w.repeat3rd).push w.repeat4th) d

/-- `rc_ir_irq_prc` at the time `now`, when a waveform has been sent. -/
def Remote.rcIrIrqPrc (s : Remote) (now : U32) : Remote :=
  if s.ctrl.repeatEnable ≠ 0#8 then
    if s.ctrl.isSending = irSendingData then
      let tick2RepeatSysTimer := (110#32 * 16000#32 - (now - s.ctrl.sendingStartTime)) >>> 4
      let wait := pwmCalPwm0IrFifoCfgData
        ((tick2RepeatSysTimer / BitVec.ofNat 32 pwmCarrierCycleTick).setWidth 16)
        pwm0PulseNormal 0#8
      let w := { s.wave with waitToRepeat := wait }
      Remote.start { s with
        wave := w
        dma := (({ s.dma with dataNum := 0 }.push wait).pushRepeats w).close
        ctrl := { s.ctrl with isSending := irSendingRepeat } }
    else if s.ctrl.isSending = irSendingRepeat then
      Remote.start { s with dma := ({ s.dma with dataNum := 0 }.pushRepeats s.wave).close }
    else s
  else s.irSendRelease

/-- The entry of `us` microseconds. -/
def cfgData (us : Nat) (carrierEn : U8) : U16 :=
  pwmCalPwm0IrFifoCfgData (BitVec.ofNat 16 (us / pwmCarrierCycleTick)) pwm0PulseNormal carrierEn

/-- `rc_ir_init`. -/
def Remote.rcIrInit (s : Remote) : Remote :=
  { s with
    wave :=
      { logic01st := cfgData 560 1#8
        logic02nd := cfgData 560 0#8
        logic11st := cfgData 560 1#8
        logic12nd := cfgData 1690 0#8
        startBit1st := cfgData 9000 1#8
        startBit2nd := cfgData 4500 0#8
        stopBit1st := cfgData 560 1#8
        stopBit2nd := cfgData 500 0#8
        repeat1st := cfgData 9000 1#8
        repeat2nd := cfgData 2250 0#8
        repeat3rd := cfgData 560 1#8
        repeat4th := cfgData 99190 0#8
        waitToRepeat := s.wave.waitToRepeat }
    ctrl := { s.ctrl with lastCmd := 0xFF#8 }
    released := true }

/-- What `ir_learn_send` does to `ir_send_ctrl`.  It has a buffer of its own. -/
def Remote.irLearnSend (s : Remote) (now started : U32) : Remote :=
  let s := s.irIsSending now
  if s.ctrl.isSending ≠ irSendingNone then s
  else { s with ctrl :=
    { s.ctrl with isSending := irSendingData, repeatEnable := 0#8, sendingStartTime := started } }

/-- What `ir_learn_send_init` does to it. -/
def Remote.irLearnSendInit (s : Remote) : Remote :=
  { s with ctrl := { s.ctrl with lastCmd := 0xFF#8 } }

/-- The calls, and the interrupt at the end of a waveform. -/
inductive Op where
  | send (addr1 addr2 cmd : U8) (now started : U32)
  | check (now : U32)
  | release
  | init
  | irq (now : U32)
  | learnSend (now started : U32)
  | learnSendInit
  deriving DecidableEq, Repr

def Remote.step (s : Remote) : Op → Remote
  | .send addr1 addr2 cmd now started => s.irNecSend addr1 addr2 cmd now started
  | .check now => s.irIsSending now
  | .release => s.irSendRelease
  | .init => s.rcIrInit
  | .irq now => s.rcIrIrqPrc now
  | .learnSend now started => s.irLearnSend now started
  | .learnSendInit => s.irLearnSendInit

/-! ### Decoding -/

/-- The bits of data pairs. -/
def decodeBits (w : Waveforms) : List U16 → Option (List Bool)
  | [] => some []
  | [_] => none
  | x :: y :: rest =>
      if (x, y) = (w.logic11st, w.logic12nd) then (decodeBits w rest).map (true :: ·)
      else if (x, y) = (w.logic01st, w.logic02nd) then (decodeBits w rest).map (false :: ·)
      else none

/-- The byte of eight bits, the lowest first. -/
def byteOf (bits : List Bool) : U8 :=
  bits.foldr (fun b x => x <<< 1 ||| (BitVec.ofBool b).setWidth 8) 0#8

/-- `n` bytes of the bits. -/
def bytesOf : Nat → List Bool → List U8
  | 0, _ => []
  | n + 1, bits => byteOf (bits.take 8) :: bytesOf n (bits.drop 8)

/-- The bytes of data pairs. -/
def decode (w : Waveforms) (data : List U16) : Option (List U8) :=
  (decodeBits w data).map fun bits => bytesOf (bits.length / 8) bits

/-- From `s` to `t` one waveform is started: the start pair, 32 data pairs, which decode to the
bytes, and the stop pair. -/
structure SendsFrame (s t : Remote) (bytes : List U8) : Prop where
  waveform : ∃ data, t.started = s.started ++
    [[s.wave.startBit1st, s.wave.startBit2nd] ++ data ++ [s.wave.stopBit1st, s.wave.stopBit2nd]] ∧
      data.length = 2 * 32 ∧ decode s.wave data = some bytes

/-! ### The waveform -/

section waveform

variable {w : Waveforms} {d : DmaData}

@[simp] theorem words_push (d : DmaData) (v : U16) : (d.push v).words = d.words ++ [v] := by
  have hold : ∀ i ∈ List.range d.dataNum, (d.push v).data i = d.data i := by
    intro i hi
    exact if_neg (Nat.ne_of_lt (List.mem_range.mp hi))
  have hlast : (d.push v).data d.dataNum = v := if_pos rfl
  have hnum : (d.push v).dataNum = d.dataNum + 1 := rfl
  rw [DmaData.words, hnum, List.range_succ, List.map_append, List.map_congr_left hold,
    List.map_singleton, hlast, DmaData.words]

/-- All of them are sent. -/
theorem sent_close (d : DmaData) :
    (List.range (d.close.dmaLen / 2)).map d.close.data = d.words := by
  have hlen : d.close.dmaLen / 2 = d.dataNum := Nat.mul_div_cancel _ (by decide)
  rw [hlen]
  rfl

/-- The pair of a bit. -/
def pairOf (w : Waveforms) (bit : Bool) : List U16 :=
  if bit then [w.logic11st, w.logic12nd] else [w.logic01st, w.logic02nd]

theorem words_pushBit (w : Waveforms) (d : DmaData) (bit : Bool) :
    (d.pushBit w bit).words = d.words ++ pairOf w bit := by
  cases bit <;> simp [DmaData.pushBit, pairOf]

theorem words_pushBits (w : Waveforms) (data : U32) (is : List Nat) (d : DmaData) :
    (is.foldl (fun d i => d.pushBit w (data.getLsbD i)) d).words =
      d.words ++ (is.map data.getLsbD).flatMap (pairOf w) := by
  induction is generalizing d with
  | nil => simp
  | cons i is ih => simp [ih, words_pushBit]

/-- The bits of a word, the lowest first. -/
def bitsOf (data : U32) : List Bool := (List.range 32).map data.getLsbD

theorem length_pairs (w : Waveforms) (bits : List Bool) :
    (bits.flatMap (pairOf w)).length = 2 * bits.length := by
  induction bits with
  | nil => rfl
  | cons bit bits ih =>
      have hpair : (pairOf w bit).length = 2 := by cases bit <;> rfl
      rw [List.flatMap_cons, List.length_append, ih, hpair, List.length_cons]
      omega

/-- **The waveform of a frame.** -/
theorem words_pushFrame (w : Waveforms) (d : DmaData) (data : U32) :
    (d.pushFrame w data).words = [w.startBit1st, w.startBit2nd] ++
      (bitsOf data).flatMap (pairOf w) ++ [w.stopBit1st, w.stopBit2nd] := by
  have hempty : DmaData.words { d with dataNum := 0 } = [] := rfl
  rw [DmaData.pushFrame]
  simp [words_pushBits, hempty, bitsOf]

theorem length_words (d : DmaData) : d.words.length = d.dataNum := by
  rw [DmaData.words, List.length_map, List.length_range]

theorem length_bitsOf (data : U32) : (bitsOf data).length = 32 := by
  rw [bitsOf, List.length_map, List.length_range]

theorem dataNum_pushFrame (w : Waveforms) (d : DmaData) (data : U32) :
    (d.pushFrame w data).dataNum = 68 := by
  rw [← length_words, words_pushFrame, List.length_append, List.length_append, length_pairs,
    length_bitsOf]
  rfl

/-- It is inside of the array. -/
theorem frame_in_array (w : Waveforms) (d : DmaData) (data : U32) :
    (d.pushFrame w data).dataNum ≤ pwmIrMaxNum := by
  rw [dataNum_pushFrame]
  exact Nat.le_of_ble_eq_true rfl

/-! ### The way back -/

/-- **Pairs to bits.** -/
theorem decode_pairs (hdistinct : (w.logic11st, w.logic12nd) ≠ (w.logic01st, w.logic02nd))
    (bits : List Bool) : decodeBits w (bits.flatMap (pairOf w)) = some bits := by
  induction bits with
  | nil => rfl
  | cons bit bits ih =>
      cases bit with
      | true => simp [pairOf, decodeBits, ih]
      | false => simp [pairOf, decodeBits, ih, hdistinct.symm]

theorem byteOf_bits (b : U8) : byteOf ((List.range 8).map b.getLsbD) = b := by
  refine BitVec.eq_of_getLsbD_eq fun j hj => ?_
  interval_cases j <;> simp [byteOf, List.range_succ]

/-- The bits of the frame are those of its bytes. -/
theorem bitsOf_frame (addr1 addr2 cmd : U8) : bitsOf (frame addr1 addr2 cmd) =
    (List.range 8).map addr1.getLsbD ++ ((List.range 8).map addr2.getLsbD ++
      ((List.range 8).map cmd.getLsbD ++ (List.range 8).map (~~~cmd).getLsbD)) := by
  simp [bitsOf, frame, List.range_succ]

/-- **Bits to bytes.** -/
theorem bytesOf_frame (addr1 addr2 cmd : U8) :
    bytesOf 4 (bitsOf (frame addr1 addr2 cmd)) = [addr1, addr2, cmd, ~~~cmd] := by
  have hbyte : ∀ (n : Nat) (b : U8) (rest : List Bool),
      bytesOf (n + 1) ((List.range 8).map b.getLsbD ++ rest) = b :: bytesOf n rest := by
    intro n b rest
    have hlen : ((List.range 8).map b.getLsbD).length = 8 := rfl
    rw [bytesOf, List.take_left' hlen, List.drop_left' hlen, byteOf_bits]
  have hlast := hbyte 0 (~~~cmd) []
  rw [List.append_nil] at hlast
  rw [bitsOf_frame, hbyte, hbyte, hbyte, hlast, bytesOf]

end waveform

/-! ### The last command -/

section send

variable {s : Remote} {addr1 addr2 cmd : U8} {now started : U32}

theorem irNecSend_same (h : s.ctrl.lastCmd = cmd) : s.irNecSend addr1 addr2 cmd now started = s :=
  if_neg (not_not.mpr h)

theorem irNecSend_busy (hcmd : s.ctrl.lastCmd ≠ cmd) (hbusy : s.InProgress now) :
    s.irNecSend addr1 addr2 cmd now started = s.irIsSending now :=
  (if_pos hcmd).trans (if_pos hbusy)

theorem irNecSend_free (hcmd : s.ctrl.lastCmd ≠ cmd) (hfree : ¬s.InProgress now) :
    s.irNecSend addr1 addr2 cmd now started = Remote.start { s.irIsSending now with
      dma := ((s.irIsSending now).dma.pushFrame (s.irIsSending now).wave
        (frame addr1 addr2 cmd)).close
      ctrl :=
        { isSending := irSendingData
          repeatEnable := 0#8
          lastCmd := cmd
          sendingStartTime := started }
      released := false } :=
  (if_pos hcmd).trans (if_neg hfree)

/-- The check changes `is_sending` only. -/
theorem irIsSending_keeps (s : Remote) (now : U32) : (s.irIsSending now).wave = s.wave ∧
    (s.irIsSending now).ctrl.lastCmd = s.ctrl.lastCmd ∧ (s.irIsSending now).dma = s.dma ∧
    (s.irIsSending now).started = s.started ∧ (s.irIsSending now).released = s.released := by
  rw [Remote.irIsSending]
  split_ifs
  · exact ⟨rfl, rfl, rfl, rfl, rfl⟩
  · exact ⟨rfl, rfl, rfl, rfl, rfl⟩

/-- After a release the last command is 0xFF. -/
def Remote.Released (s : Remote) : Prop := s.released = true → s.ctrl.lastCmd = 0xFF#8

theorem Remote.Released.congr {t : Remote} (h : s.Released) (hreleased : t.released = s.released)
    (hlast : t.ctrl.lastCmd = s.ctrl.lastCmd) : t.Released := by
  rw [Remote.Released, hreleased, hlast]
  exact h

theorem Remote.Released.isSending (h : s.Released) (now : U32) :
    (s.irIsSending now).Released := by
  obtain ⟨-, hlast, -, -, hreleased⟩ := irIsSending_keeps s now
  exact h.congr hreleased hlast

theorem Remote.Released.send (h : s.Released) :
    (s.irNecSend addr1 addr2 cmd now started).Released := by
  by_cases hcmd : s.ctrl.lastCmd = cmd
  · rw [irNecSend_same hcmd]
    exact h
  · by_cases hbusy : s.InProgress now
    · rw [irNecSend_busy hcmd hbusy]
      exact h.isSending now
    · rw [irNecSend_free hcmd hbusy]
      intro hreleased
      exact absurd hreleased Bool.false_ne_true

theorem Remote.Released.learnSend (h : s.Released) : (s.irLearnSend now started).Released := by
  have hchecked := h.isSending now
  by_cases hbusy : (s.irIsSending now).ctrl.isSending ≠ irSendingNone
  · have hlearn : s.irLearnSend now started = s.irIsSending now := if_pos hbusy
    rw [hlearn]
    exact hchecked
  · have hlearn : s.irLearnSend now started = { s.irIsSending now with ctrl :=
        { (s.irIsSending now).ctrl with
          isSending := irSendingData, repeatEnable := 0#8, sendingStartTime := started } } :=
      if_neg hbusy
    rw [hlearn]
    exact hchecked.congr rfl rfl

theorem Remote.Released.start (h : s.Released) (w : Waveforms) (d : DmaData) {c : SendCtrl}
    (hlast : c.lastCmd = s.ctrl.lastCmd) :
    (Remote.start { s with wave := w, dma := d, ctrl := c }).Released :=
  h.congr rfl hlast

/-- **One step.** -/
theorem Remote.Released.step (h : s.Released) (op : Op) : (s.step op).Released := by
  cases op with
  | send addr1 addr2 cmd now started => exact h.send
  | check now => exact h.isSending now
  | release | init | learnSendInit => exact fun _ => rfl
  | irq now =>
      rw [Remote.step, Remote.rcIrIrqPrc]
      split_ifs
      · exact h.start _ _ rfl
      · exact h.start _ _ rfl
      · exact h
      · exact fun _ => rfl
  | learnSend now started => exact h.learnSend

theorem released_run (ops : List Op) : (runFrom Remote.step .boot ops).Released := by
  refine invariant (I := Remote.Released) (fun _ op h => h.step op) ?_ ops
  intro hreleased
  exact absurd hreleased Bool.false_ne_true

/-! ### One frame -/

/-- What is sent when the command is not the last one. -/
theorem irNecSend_sends (hfree : ¬s.InProgress now) (hcmd : s.ctrl.lastCmd ≠ cmd)
    (hdistinct : (s.wave.logic11st, s.wave.logic12nd) ≠ (s.wave.logic01st, s.wave.logic02nd)) :
    SendsFrame s (s.irNecSend addr1 addr2 cmd now started) [addr1, addr2, cmd, ~~~cmd] := by
  obtain ⟨hwave, -, hdma, hstarted, -⟩ := irIsSending_keeps s now
  refine ⟨(bitsOf (frame addr1 addr2 cmd)).flatMap (pairOf s.wave), ?_, ?_, ?_⟩
  · rw [irNecSend_free hcmd hfree, Remote.start, hwave, hdma, hstarted]
    dsimp only
    rw [sent_close, words_pushFrame]
  · rw [length_pairs, length_bitsOf]
  · rw [decode, decode_pairs hdistinct, Option.map_some, length_bitsOf]
    exact congrArg some (bytesOf_frame addr1 addr2 cmd)

/-- Nothing is started for the last command. -/
theorem not_sends_same (h : s.ctrl.lastCmd = cmd) (bytes : List U8) :
    ¬SendsFrame s (s.irNecSend addr1 addr2 cmd now started) bytes := by
  rintro ⟨data, hstarted, -⟩
  rw [irNecSend_same h] at hstarted
  simp at hstarted

end send

/-- **NEC frames.**  After any history, when nothing is being sent and the last frame was released,
and with two different pairs for the bits: a frame is sent, and decodes to the address, the command
and its complement, just when the command is not 0xFF. -/
theorem nec_round_trip_iff (ops : List Op) (addr1 addr2 cmd : U8) (now started : U32)
    (hreleased : (runFrom Remote.step .boot ops).released = true)
    (hfree : ¬(runFrom Remote.step .boot ops).InProgress now)
    (hdistinct : ((runFrom Remote.step .boot ops).wave.logic11st,
      (runFrom Remote.step .boot ops).wave.logic12nd) ≠
        ((runFrom Remote.step .boot ops).wave.logic01st,
          (runFrom Remote.step .boot ops).wave.logic02nd)) :
    SendsFrame (runFrom Remote.step .boot ops)
        ((runFrom Remote.step .boot ops).irNecSend addr1 addr2 cmd now started)
        [addr1, addr2, cmd, ~~~cmd] ↔ cmd ≠ 0xFF#8 := by
  have hlast := released_run ops hreleased
  constructor
  · rintro hsends rfl
    exact not_sends_same hlast _ hsends
  · intro hcmd
    refine irNecSend_sends hfree ?_ hdistinct
    rw [hlast]
    exact Ne.symm hcmd

/-- The first frame behind `rc_ir_init`. -/
theorem nec_round_trip_first : SendsFrame (runFrom Remote.step .boot [.init])
    ((runFrom Remote.step .boot [.init]).irNecSend 0#8 1#8 2#8 0#32 0#32)
    [0#8, 1#8, 2#8, ~~~2#8] :=
  (nec_round_trip_iff [.init] 0#8 1#8 2#8 0#32 0#32 rfl (by decide) (by decide)).mpr (by decide)

/-- **The command 0xFF.**  It is not sent behind `rc_ir_init`. -/
theorem command_ff : ¬∀ (ops : List Op) (addr1 addr2 cmd : U8) (now started : U32),
    (runFrom Remote.step .boot ops).released = true →
    ¬(runFrom Remote.step .boot ops).InProgress now →
    ((runFrom Remote.step .boot ops).wave.logic11st,
      (runFrom Remote.step .boot ops).wave.logic12nd) ≠
        ((runFrom Remote.step .boot ops).wave.logic01st,
          (runFrom Remote.step .boot ops).wave.logic02nd) →
    SendsFrame (runFrom Remote.step .boot ops)
      ((runFrom Remote.step .boot ops).irNecSend addr1 addr2 cmd now started)
      [addr1, addr2, cmd, ~~~cmd] := by
  intro h
  exact not_sends_same rfl _ (h [.init] 0#8 1#8 0xFF#8 0#32 0#32 rfl (by decide) (by decide))

end TelinkB91.Ir.Nec
