import TelinkB91.Fifo.MyFifo

/-!
# Serial — events to the UART

`spp_send_data` puts an event into `spp_tx_fifo`, and `tx_to_uart_cb` takes it out: when
`uart_send_flag` is clear it copies the event to `T_txdata_buf`, starts the DMA, counts the slot out
and sets the flag.  `uart0_receive_irq` clears the flag at the end of the transfer.

`Tx` is the FIFO with the buffer, the flag and the DMA, and the point `tx_to_uart_cb` has come to:
the interrupt may come between any two of its steps, while `spp_send_data` is called from the same
main loop.

* `Feeds.step`: a step keeps the events handed to the DMA and those in the FIFO the events accepted.

That the module wakes the MCU with a pin, and waits for it, is not modelled.
-/

namespace TelinkB91.Serial
open ByteMemory Fifo Ring Runs

def sppTxfifoSize : Nat := 72

def sppTxfifoNum : Nat := 8

def uartDataLen : Nat := sppTxfifoSize - 2

/-- `HCI_FLAG_EVENT_TLK_MODULE`. -/
def hciFlagEventTlkModule : BitVec 32 := 0x1000000#32

/-- `spp_tx_fifo` with its buffer at `p`. -/
def sppTxFifo (p : Nat) : MyFifo := ⟨sppTxfifoSize, sppTxfifoNum, 0#8, 0#8, p⟩

/-- `uart_data_t`.  The `data` of `T_txdata_buf` has `uartDataLen` bytes. -/
structure UartData where
  len : Nat
  data : Memory

/-- How far `tx_to_uart_cb` has come: it is not called; it has found an event, and the flag clear;
the event is in `T_txdata_buf`; the DMA is started; the slot is counted out. -/
inductive Pc where
  | idle
  | checked
  | copied
  | started
  | popped
  deriving DecidableEq, Repr

/-- `inFlight` is the length of the transfer the DMA is at, which reads `T_txdata_buf`.  `accepted`
are the events for which `spp_send_data` has returned 0, and `handed` what `uart_send_dma` was
called with. -/
structure Tx where
  sys : Sys
  txdata : UartData
  uartSendFlag : Bool
  inFlight : Option Nat
  pc : Pc
  accepted : List (List U8)
  handed : List (List U8)

def Tx.boot (p : Nat) (m : Memory) (txdata : UartData) : Tx where
  sys := ⟨sppTxFifo p, m⟩
  txdata := txdata
  uartSendFlag := false
  inFlight := none
  pc := .idle
  accepted := []
  handed := []

/-- `sppEvt_len`.  The second byte of an event is `paramLen`. -/
def sppEvtLen (pEvt : Memory) : Nat := (pEvt 1).toNat + 2

/-- The first `paramLen + 2` bytes of an event. -/
def eventAt (pEvt : Memory) : List U8 := read pEvt 0 (sppEvtLen pEvt)

/-- An event behind its length. -/
def framedEvent (e : List U8) : List U8 :=
  BitVec.ofNat 8 e.length :: BitVec.ofNat 8 (e.length >>> 8) :: e

/-- `spp_send_data`, with its result. -/
def sppSendData (s : Tx) (header : BitVec 32) (pEvt : Memory) : Tx × Int :=
  match myFifoWptr s.sys.fifo with
  | none => (s, -1)
  | some p =>
      if (pEvt 1).toNat + 4 ≥ s.sys.fifo.size then (s, -1)
      else
        let s := if header &&& hciFlagEventTlkModule ≠ 0#32 then
            { s with
              sys := { s.sys with mem := write s.sys.mem p (framedEvent (eventAt pEvt)) }
              accepted := s.accepted ++ [eventAt pEvt] }
          else s
        ({ s with sys := { s.sys with fifo := myFifoNext s.sys.fifo } }, 0)

/-- `memcpy` to `T_txdata_buf`, and its length set, from the slot of `rptr`. -/
def Tx.copy (s : Tx) : UartData :=
  let p := s.sys.fifo.addr s.sys.fifo.rptr
  let n := lenAt s.sys.mem p
  { len := n, data := write s.txdata.data 0 (read s.sys.mem (p + 2) n) }

/-- `uart_send_dma(UART0, T_txdata_buf.data, T_txdata_buf.len)`.  It returns 0 for no bytes. -/
def Tx.uartSendDma (s : Tx) : Tx × Bool :=
  if s.txdata.len ≠ 0 then
    ({ s with
      inFlight := some s.txdata.len
      handed := s.handed ++ [read s.txdata.data 0 s.txdata.len] }, true)
  else (s, false)

/-- One step of `tx_to_uart_cb`. -/
def txToUartCb (s : Tx) : Tx :=
  match s.pc with
  | .idle => if myFifoGet s.sys.fifo ≠ none ∧ ¬s.uartSendFlag then { s with pc := .checked } else s
  | .checked => { s with txdata := s.copy, pc := .copied }
  | .copied =>
      let (s, ok) := s.uartSendDma
      { s with pc := if ok then .started else .idle }
  | .started => { s with sys := { s.sys with fifo := myFifoPop s.sys.fifo }, pc := .popped }
  | .popped => { s with uartSendFlag := true, pc := .idle }

/-- `uart0_receive_irq` at the end of a transfer. -/
def txDoneIrq (s : Tx) : Tx := { s with uartSendFlag := false, inFlight := none }

/-- A call of `spp_send_data`, a step of `tx_to_uart_cb`, or the end of a transfer. -/
inductive TxOp where
  | send (header : BitVec 32) (pEvt : Memory)
  | cb
  | txDone

/-- `spp_send_data` is not called inside of `tx_to_uart_cb`, and no transfer ends that was not
started. -/
def Tx.step (s : Tx) : TxOp → Tx
  | .send header pEvt => if s.pc = .idle then (sppSendData s header pEvt).1 else s
  | .cb => txToUartCb s
  | .txDone => if s.inFlight.isSome then txDoneIrq s else s

/-- The DMA is started and the flag is not set. -/
def Tx.Window (s : Tx) : Prop := s.pc = .started ∨ s.pc = .popped

instance (s : Tx) : Decidable s.Window := inferInstanceAs (Decidable (_ ∨ _))

/-- Events are sent with the flag of the module, and no transfer ends before the flag is set. -/
def Unraced (s : Tx) : TxOp → Prop
  | .send header _ => header &&& hciFlagEventTlkModule ≠ 0#32
  | .cb => True
  | .txDone => ¬s.Window

instance (s : Tx) : (op : TxOp) → Decidable (Unraced s op)
  | .send _ _ => inferInstanceAs (Decidable (_ ≠ _))
  | .cb => inferInstanceAs (Decidable True)
  | .txDone => inferInstanceAs (Decidable (¬_))

/-! ### One step -/

/-- The slot holds the event, which is short enough for the slot and for `T_txdata_buf`. -/
structure HoldsEvent (e slot : List U8) : Prop where
  pre : framedEvent e <+: slot
  pos : 0 < e.length
  le : e.length + 2 < sppTxfifoSize

/-- The flag, the DMA and `T_txdata_buf`, by how far `tx_to_uart_cb` has come, with the events
`queue` in the FIFO. -/
def Tx.At (s : Tx) (queue : List (List U8)) : Prop :=
  match s.pc with
  | .idle => s.uartSendFlag = s.inFlight.isSome
  | .checked => s.uartSendFlag = false ∧ s.inFlight = none ∧ queue ≠ []
  | .copied => s.uartSendFlag = false ∧ s.inFlight = none ∧
      ∃ e rest, queue = e :: rest ∧ s.txdata.len = e.length ∧ read s.txdata.data 0 e.length = e
  | .started => s.uartSendFlag = false ∧ s.inFlight.isSome ∧ queue ≠ []
  | .popped => s.uartSendFlag = false ∧ s.inFlight.isSome

/-- The events that are still to be handed to the DMA. -/
def Tx.unsent (s : Tx) (queue : List (List U8)) : List (List U8) :=
  if s.pc = .started then queue.tail else queue

/-- The events `queue` are in the FIFO. -/
structure Feeds (s : Tx) (queue : List (List U8)) : Prop where
  num : s.sys.fifo.num = sppTxfifoNum
  size : s.sys.fifo.size = sppTxfifoSize
  pending : List.Forall₂ HoldsEvent queue s.sys.pending
  accepted : s.accepted = s.handed ++ s.unsent queue
  at_pc : s.At queue

theorem length_eventAt (pEvt : Memory) : (eventAt pEvt).length = (pEvt 1).toNat + 2 :=
  length_read _ _ _

theorem length_framedEvent (e : List U8) : (framedEvent e).length = e.length + 2 := rfl

section steps

variable {s : Tx} {queue : List (List U8)}

theorem Feeds.isSize (h : Feeds s queue) : IsSize s.sys.fifo.num := ⟨3, by decide, h.num⟩

/-- There are as many events as slots in use. -/
theorem Feeds.length (h : Feeds s queue) :
    queue.length = occupied s.sys.fifo.rptr s.sys.fifo.wptr := by
  rw [h.pending.length_eq, Sys.pending, length_pending]

theorem Feeds.queue_ne_nil (h : Feeds s queue) :
    queue ≠ [] ↔ s.sys.fifo.rptr ≠ s.sys.fifo.wptr := by
  rw [ne_eq, ← List.length_eq_zero_iff, h.length, occupied_eq_zero]

/-- An event with the flag of the module that is short enough, with a slot free. -/
theorem sppSendData_accepted {s : Tx} {header : BitVec 32} {pEvt : Memory}
    (hheader : header &&& hciFlagEventTlkModule ≠ 0#32)
    (hspace : occupied s.sys.fifo.rptr s.sys.fifo.wptr < s.sys.fifo.num)
    (hsize : (pEvt 1).toNat + 4 < s.sys.fifo.size) : sppSendData s header pEvt =
      ({ s with
        sys := s.sys.store (framedEvent (eventAt pEvt))
        accepted := s.accepted ++ [eventAt pEvt] }, 0) := by
  have hwptr : myFifoWptr s.sys.fifo = some (s.sys.fifo.addr s.sys.fifo.wptr) := if_pos hspace
  rw [sppSendData, hwptr]
  dsimp only
  rw [if_neg (Nat.not_le.mpr hsize), if_pos hheader]
  rfl

/-- **What `spp_send_data` does** for an event with the flag of the module: nothing, or it stores
the event. -/
theorem sppSendData_cases (s : Tx) {header : BitVec 32} (pEvt : Memory)
    (hheader : header &&& hciFlagEventTlkModule ≠ 0#32) :
    sppSendData s header pEvt = (s, -1) ∨
    (occupied s.sys.fifo.rptr s.sys.fifo.wptr < s.sys.fifo.num ∧
      (eventAt pEvt).length + 2 < s.sys.fifo.size ∧
      sppSendData s header pEvt =
        ({ s with
          sys := s.sys.store (framedEvent (eventAt pEvt))
          accepted := s.accepted ++ [eventAt pEvt] }, 0)) := by
  by_cases hspace : occupied s.sys.fifo.rptr s.sys.fifo.wptr < s.sys.fifo.num
  · by_cases hlong : (pEvt 1).toNat + 4 ≥ s.sys.fifo.size
    · have hwptr : myFifoWptr s.sys.fifo = some (s.sys.fifo.addr s.sys.fifo.wptr) := if_pos hspace
      rw [sppSendData, hwptr]
      exact .inl (if_pos hlong)
    · have hsize := Nat.not_le.mp hlong
      refine .inr ⟨hspace, ?_, sppSendData_accepted hheader hspace hsize⟩
      rw [length_eventAt]
      exact hsize
  · have hwptr : myFifoWptr s.sys.fifo = none := if_neg hspace
    rw [sppSendData, hwptr]
    exact .inl rfl

theorem Tx.At.congr {t : Tx} {queue' : List (List U8)} (h : s.At queue) (hpc : s.pc = .idle)
    (hpc' : t.pc = s.pc) (hflag : t.uartSendFlag = s.uartSendFlag)
    (hflight : t.inFlight = s.inFlight) : t.At queue' := by
  rw [Tx.At, hpc] at h
  rw [Tx.At, hpc', hpc, hflag, hflight]
  exact h

/-- An event is accepted. -/
theorem Feeds.send (h : Feeds s queue) (hpc : s.pc = .idle) {header : BitVec 32} (pEvt : Memory)
    (hheader : header &&& hciFlagEventTlkModule ≠ 0#32) :
    ∃ queue', Feeds (sppSendData s header pEvt).1 queue' := by
  rcases sppSendData_cases s pEvt hheader with hfull | ⟨hspace, hsize, hstore⟩
  · rw [hfull]
    exact ⟨queue, h⟩
  · have hle : (framedEvent (eventAt pEvt)).length ≤ s.sys.fifo.size := Nat.le_of_lt hsize
    obtain ⟨slot, hslot, hpending⟩ := pending_store h.isSize hspace hle
    have hholds : HoldsEvent (eventAt pEvt) slot :=
      ⟨hslot, by rw [length_eventAt]; exact Nat.succ_pos _, h.size ▸ hsize⟩
    have haccepted := h.accepted
    rw [Tx.unsent, if_neg (by rw [hpc]; decide)] at haccepted
    rw [hstore]
    refine ⟨queue ++ [eventAt pEvt], h.num, h.size, ?_, ?_, h.at_pc.congr hpc rfl rfl rfl⟩
    · dsimp only
      rw [hpending]
      exact List.rel_append h.pending (.cons hholds .nil)
    · rw [Tx.unsent, if_neg (by dsimp only; rw [hpc]; decide)]
      dsimp only
      rw [haccepted, List.append_assoc]

/-- The event at the head, in its slot. -/
theorem Feeds.head (h : Feeds s queue) (hne : queue ≠ []) : ∃ e rest,
    queue = e :: rest ∧ 0 < e.length ∧ e.length + 2 < sppTxfifoSize ∧
    s.copy = ⟨e.length, write s.txdata.data 0 e⟩ ∧
    List.Forall₂ HoldsEvent rest (s.sys.step .pop).1.pending := by
  have hpending := h.pending
  rw [pending_get (h.queue_ne_nil.mp hne)] at hpending
  obtain ⟨e, rest, ⟨hslot, hpos, hle⟩, hrest, rfl⟩ := List.forall₂_cons_right_iff.mp hpending
  refine ⟨e, rest, rfl, hpos, hle, ?_, hrest⟩
  -- the bytes of the slot are those of the event behind its length
  obtain ⟨k, hk⟩ := Nat.exists_eq_add_of_le (Nat.le_of_lt hle)
  rw [h.size, hk, ← length_framedEvent, read_append] at hslot
  have hread := List.append_inj_left hslot.choose_spec (by rw [length_read])
  rw [length_framedEvent, read_succ, read_succ, framedEvent] at hread
  obtain ⟨hlow, hread⟩ := List.cons.inj hread
  obtain ⟨hhigh, hread⟩ := List.cons.inj hread
  have hlen : lenAt s.sys.mem (s.sys.fifo.addr s.sys.fifo.rptr) = e.length := by
    rw [lenAt, ← hlow, ← hhigh, BitVec.toNat_ofNat, BitVec.toNat_ofNat, Nat.shiftRight_eq_div_pow]
    rw [sppTxfifoSize] at hle
    omega
  rw [Tx.copy, hlen]
  exact congrArg (UartData.mk _ <| write _ _ ·) hread.symm

theorem Feeds.unsent_eq (h : Feeds s queue) (hpc : s.pc ≠ .started) :
    s.accepted = s.handed ++ queue := by
  have haccepted := h.accepted
  rwa [Tx.unsent, if_neg hpc] at haccepted

/-- The call finds an event and the flag clear, or returns. -/
theorem cb_idle (hpc : s.pc = .idle) : txToUartCb s =
    if s.sys.fifo.rptr ≠ s.sys.fifo.wptr ∧ s.uartSendFlag = false then { s with pc := .checked }
    else s := by
  rw [txToUartCb, hpc, myFifoGet]
  by_cases hempty : s.sys.fifo.rptr = s.sys.fifo.wptr
  · simp [hempty]
  · simp [hempty]

theorem Feeds.cb_idle (h : Feeds s queue) (hpc : s.pc = .idle) : Feeds (txToUartCb s) queue := by
  have hat := h.at_pc
  rw [Tx.At, hpc] at hat
  rw [Serial.cb_idle hpc]
  split_ifs with hready
  · refine ⟨h.num, h.size, h.pending, h.unsent_eq (by rw [hpc]; decide), hready.2, ?_, ?_⟩
    · have hnone : s.inFlight.isSome = false := hat.symm.trans hready.2
      exact Option.not_isSome_iff_eq_none.mp (Bool.eq_false_iff.mp hnone)
    · exact h.queue_ne_nil.mpr hready.1
  · exact h

/-- The event at the head is copied. -/
theorem Feeds.cb_checked (h : Feeds s queue) (hpc : s.pc = .checked) :
    txToUartCb s = { s with txdata := s.copy, pc := .copied } ∧ Feeds (txToUartCb s) queue := by
  have hat := h.at_pc
  rw [Tx.At, hpc] at hat
  obtain ⟨hflag, hflight, hne⟩ := hat
  obtain ⟨e, rest, hqueue, -, -, hcopy, -⟩ := h.head hne
  have hcb : txToUartCb s = { s with txdata := s.copy, pc := .copied } := by rw [txToUartCb, hpc]
  have hread : read (write s.txdata.data 0 e) 0 e.length = e := read_write _ _ _
  refine ⟨hcb, ?_⟩
  rw [hcb]
  refine ⟨h.num, h.size, h.pending, h.unsent_eq (by rw [hpc]; decide), hflag, hflight, e, rest,
    hqueue, ?_, ?_⟩
  · dsimp only
    rw [hcopy]
  · dsimp only
    rw [hcopy]
    exact hread

/-- The DMA is started with the event at the head. -/
theorem Feeds.cb_copied (h : Feeds s queue) (hpc : s.pc = .copied) : ∃ e rest,
    queue = e :: rest ∧
    txToUartCb s = { s with
      inFlight := some e.length, handed := s.handed ++ [e], pc := .started } ∧
    Feeds (txToUartCb s) queue := by
  have hat := h.at_pc
  rw [Tx.At, hpc] at hat
  obtain ⟨hflag, -, e, rest, hqueue, hlen, hread⟩ := hat
  obtain ⟨e', rest', hqueue', hpos, -⟩ := h.head (hqueue ▸ List.cons_ne_nil _ _)
  obtain ⟨rfl, rfl⟩ := List.cons.inj (hqueue.symm.trans hqueue')
  have hdma : s.uartSendDma =
      ({ s with inFlight := some e.length, handed := s.handed ++ [e] }, true) := by
    rw [Tx.uartSendDma, if_pos (by rw [hlen]; exact Nat.ne_of_gt hpos), hlen, hread]
  have hcb : txToUartCb s = { s with
      inFlight := some e.length, handed := s.handed ++ [e], pc := .started } := by
    rw [txToUartCb, hpc]
    dsimp only
    rw [hdma]
    rfl
  refine ⟨e, rest, hqueue, hcb, ?_⟩
  rw [hcb]
  refine ⟨h.num, h.size, h.pending, ?_, hflag, rfl, hqueue ▸ List.cons_ne_nil _ _⟩
  have haccepted := h.unsent_eq (by rw [hpc]; decide)
  rw [hqueue] at haccepted
  rw [Tx.unsent, if_pos rfl, hqueue, List.append_assoc]
  exact haccepted

/-- The slot is counted out. -/
theorem Feeds.cb_started (h : Feeds s queue) (hpc : s.pc = .started) :
    txToUartCb s = { s with sys := { s.sys with fifo := myFifoPop s.sys.fifo }, pc := .popped } ∧
      queue ≠ [] ∧ Feeds (txToUartCb s) queue.tail := by
  have hat := h.at_pc
  rw [Tx.At, hpc] at hat
  obtain ⟨hflag, hflight, hne⟩ := hat
  obtain ⟨e, rest, rfl, -, -, -, hrest⟩ := h.head hne
  have hcb : txToUartCb s =
      { s with sys := { s.sys with fifo := myFifoPop s.sys.fifo }, pc := .popped } := by
    rw [txToUartCb, hpc]
  have haccepted := h.accepted
  rw [Tx.unsent, if_pos hpc] at haccepted
  refine ⟨hcb, hne, ?_⟩
  rw [hcb]
  exact ⟨h.num, h.size, hrest, haccepted, hflag, hflight⟩

/-- The flag is set. -/
theorem Feeds.cb_popped (h : Feeds s queue) (hpc : s.pc = .popped) :
    txToUartCb s = { s with uartSendFlag := true, pc := .idle } ∧ s.inFlight.isSome ∧
      Feeds (txToUartCb s) queue := by
  have hat := h.at_pc
  rw [Tx.At, hpc] at hat
  have hcb : txToUartCb s = { s with uartSendFlag := true, pc := .idle } := by rw [txToUartCb, hpc]
  refine ⟨hcb, hat.2, ?_⟩
  rw [hcb]
  exact ⟨h.num, h.size, h.pending, h.unsent_eq (by rw [hpc]; decide), hat.2.symm⟩

theorem Feeds.cb (h : Feeds s queue) : ∃ queue', Feeds (txToUartCb s) queue' := by
  cases hpc : s.pc with
  | idle => exact ⟨queue, h.cb_idle hpc⟩
  | checked => exact ⟨queue, (h.cb_checked hpc).2⟩
  | copied =>
      obtain ⟨-, -, -, -, hnext⟩ := h.cb_copied hpc
      exact ⟨queue, hnext⟩
  | started => exact ⟨queue.tail, (h.cb_started hpc).2.2⟩
  | popped => exact ⟨queue, (h.cb_popped hpc).2.2⟩

/-- While a transfer is in flight and the flag is set, `tx_to_uart_cb` is not in a call. -/
theorem Feeds.idle (h : Feeds s queue) (hflight : s.inFlight.isSome) (hwindow : ¬s.Window) :
    s.pc = .idle := by
  have hat := h.at_pc
  rw [Tx.At] at hat
  cases hpc : s.pc with
  | idle => rfl
  | checked | copied =>
      rw [hpc] at hat
      rw [hat.2.1] at hflight
      exact nomatch hflight
  | started => exact absurd (.inl hpc) hwindow
  | popped => exact absurd (.inr hpc) hwindow

theorem Feeds.txDone (h : Feeds s queue) (hflight : s.inFlight.isSome) (hwindow : ¬s.Window) :
    Feeds (txDoneIrq s) queue := by
  have hpc := h.idle hflight hwindow
  have hat : (txDoneIrq s).At queue := by
    rw [Tx.At, txDoneIrq, hpc]
    rfl
  refine ⟨h.num, h.size, h.pending, ?_, hat⟩
  rw [Tx.unsent, if_neg (by rw [txDoneIrq, hpc]; decide)]
  exact h.unsent_eq (by rw [hpc]; decide)

/-- **One step.** -/
theorem Feeds.step (h : Feeds s queue) {op : TxOp} (hop : Unraced s op) :
    ∃ queue', Feeds (s.step op) queue' := by
  cases op with
  | send header pEvt =>
      rw [Tx.step]
      split
      · rename_i hpc
        exact h.send hpc pEvt hop
      · exact ⟨queue, h⟩
  | cb => exact h.cb
  | txDone =>
      rw [Tx.step]
      split
      · rename_i hflight
        exact ⟨queue, h.txDone hflight hop⟩
      · exact ⟨queue, h⟩

end steps

theorem feeds_boot (p : Nat) (m : Memory) (txdata : UartData) : Feeds (Tx.boot p m txdata) [] where
  num := rfl
  size := rfl
  pending := by
    have hnil : (Tx.boot p m txdata).sys.pending = [] := pending_self _
    rw [hnil]
    exact .nil
  accepted := rfl
  at_pc := rfl

/-- The state of a run. -/
theorem feeds_run {p : Nat} {m : Memory} {txdata : UartData} {ops : List TxOp}
    (hops : Along Tx.step Unraced (Tx.boot p m txdata) ops) :
    ∃ queue, Feeds (runFrom Tx.step (Tx.boot p m txdata) ops) queue :=
  hops.invariant (I := fun s => ∃ queue, Feeds s queue) (fun _ _ ⟨_, h⟩ hop => h.step hop)
    ⟨[], feeds_boot p m txdata⟩

end TelinkB91.Serial
