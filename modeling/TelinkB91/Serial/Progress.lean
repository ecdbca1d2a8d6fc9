import TelinkB91.Serial.Transmit

/-!
# Serial — the flag of the transmitter

`uart_send_flag` stands for a transfer in flight.  It is set behind the start of the transfer, and
cleared by the interrupt at its end.

* `flag_in_flight`: where the interrupt never comes between the two, the flag is right when
  `tx_to_uart_cb` has returned, the next call starts what there is to send, and the module does not
  stay busy.
* `Wedged.run`: where it does, the flag stays set for ever, and nothing is sent any more.
* `wedged_by_interrupt`: a transfer that ends too early.
-/

namespace TelinkB91.Serial
open Fifo Ring Runs

/-- `UART_TX_BUSY`. -/
def Tx.uartTxBusy (s : Tx) : Bool := s.sys.fifo.rptr ≠ s.sys.fifo.wptr || s.uartSendFlag

/-- `app_module_busy`, with the level of `GPIO_WAKEUP_MODULE` and with `UART_RX_BUSY`. -/
def appModuleBusy (mcuUartWorking uartRxBusy : Bool) (s : Tx) : Bool :=
  mcuUartWorking || (s.uartTxBusy || uartRxBusy)

/-- The steps that are left until all events are sent: five steps of `tx_to_uart_cb` and the end of
the transfer for each of them. -/
def Tx.work (s : Tx) : Nat :=
  let n := occupied s.sys.fifo.rptr s.sys.fifo.wptr
  match s.pc with
  | .idle => 6 * n + (if s.inFlight.isSome then 1 else 0)
  | .checked => 6 * n - 1
  | .copied => 6 * n - 2
  | .started => 6 * n - 3
  | .popped => 6 * n + 2

/-- A round of the main loop and the DMA: at least one step of `tx_to_uart_cb`, and a transfer in
flight ends.  No event is sent. -/
structure Round (r : List TxOp) : Prop where
  cb : .cb ∈ r
  txDone : .txDone ∈ r
  quiet : ∀ op ∈ r, op = .cb ∨ op = .txDone

/-- The flag is set, and no transfer will clear it. -/
structure Wedged (s : Tx) : Prop where
  pc : s.pc = .idle
  flag : s.uartSendFlag = true
  inFlight : s.inFlight = none

section steps

variable {s : Tx} {queue : List (List U8)}

theorem Feeds.occupied_pos (h : Feeds s queue) (hne : queue ≠ []) :
    0 < occupied s.sys.fifo.rptr s.sys.fifo.wptr :=
  h.length ▸ List.length_pos_iff.mpr hne

/-- **A step of `tx_to_uart_cb`.**  It never adds to the work, and takes from it when no transfer is
in flight. -/
theorem Feeds.work_cb (h : Feeds s queue) : (txToUartCb s).work ≤ s.work ∧
    (s.inFlight = none → 0 < s.work → (txToUartCb s).work < s.work) := by
  have hat := h.at_pc
  rw [Tx.At] at hat
  cases hpc : s.pc with
  | idle =>
      rw [hpc] at hat
      rw [Serial.cb_idle hpc]
      split_ifs with hready
      · have hpos := h.occupied_pos (h.queue_ne_nil.mpr hready.1)
        simp only [Tx.work, hpc]
        exact ⟨by omega, fun _ _ => by omega⟩
      · refine ⟨le_rfl, fun hflight hwork => absurd ⟨?_, ?_⟩ hready⟩
        · intro hempty
          simp only [Tx.work, hpc, hflight, hempty, occupied_self] at hwork
          exact absurd hwork (by decide)
        · rw [hat, hflight]
          rfl
  | checked =>
      rw [hpc] at hat
      have hpos := h.occupied_pos hat.2.2
      rw [(h.cb_checked hpc).1]
      simp only [Tx.work, hpc]
      exact ⟨by omega, fun _ _ => by omega⟩
  | copied =>
      obtain ⟨e, rest, hqueue, hcb, -⟩ := h.cb_copied hpc
      have hpos := h.occupied_pos (hqueue ▸ List.cons_ne_nil _ _)
      rw [hcb]
      simp only [Tx.work, hpc]
      exact ⟨by omega, fun _ _ => by omega⟩
  | started =>
      obtain ⟨hcb, hne, -⟩ := h.cb_started hpc
      have hpop := occupied_pop (h.queue_ne_nil.mp hne)
      rw [hcb]
      simp only [Tx.work, hpc, myFifoPop]
      exact ⟨by omega, fun _ _ => by omega⟩
  | popped =>
      obtain ⟨hcb, hflight, -⟩ := h.cb_popped hpc
      rw [hcb]
      simp only [Tx.work, hpc, hflight, if_true]
      exact ⟨by omega, fun _ _ => by omega⟩

/-- **The end of a transfer** takes from the work. -/
theorem Feeds.work_txDone (h : Feeds s queue) (hflight : s.inFlight.isSome)
    (hwindow : ¬s.Window) : (txDoneIrq s).work < s.work := by
  have hpc := h.idle hflight hwindow
  simp only [Tx.work, txDoneIrq, hpc, hflight, if_true, Option.isSome_none, Bool.false_eq_true,
    if_false]
  omega

/-- Where no work is left, everything is sent. -/
theorem Feeds.done (h : Feeds s queue) (hwork : s.work = 0) :
    s.pc = .idle ∧ queue = [] ∧ s.inFlight = none ∧ s.uartSendFlag = false := by
  have hat := h.at_pc
  have hlen := h.length
  rw [Tx.At] at hat
  rw [Tx.work] at hwork
  cases hpc : s.pc with
  | idle =>
      rw [hpc] at hat hwork
      cases hflight : s.inFlight with
      | none =>
          rw [hflight] at hat hwork
          simp only [Option.isSome_none, Bool.false_eq_true, if_false] at hwork
          exact ⟨rfl, List.eq_nil_of_length_eq_zero (by omega), rfl, hat⟩
      | some n =>
          rw [hflight] at hwork
          simp only [Option.isSome_some, if_true] at hwork
          omega
  | checked =>
      rw [hpc] at hat hwork
      have hpos := h.occupied_pos hat.2.2
      dsimp only at hwork
      omega
  | copied =>
      rw [hpc] at hat hwork
      obtain ⟨-, -, e, rest, hqueue, -⟩ := hat
      have hpos := h.occupied_pos (hqueue ▸ List.cons_ne_nil _ _)
      dsimp only at hwork
      omega
  | started =>
      rw [hpc] at hat hwork
      have hpos := h.occupied_pos hat.2.2
      dsimp only at hwork
      omega
  | popped =>
      rw [hpc] at hwork
      exact absurd hwork (Nat.succ_ne_zero _)

/-- A step of `tx_to_uart_cb` does not end a transfer. -/
theorem cb_isSome (s : Tx) (hflight : s.inFlight.isSome) : (txToUartCb s).inFlight.isSome := by
  rw [txToUartCb]
  cases s.pc with
  | idle =>
      dsimp only
      split_ifs
      · exact hflight
      · exact hflight
  | checked | started | popped => exact hflight
  | copied =>
      dsimp only
      rw [Tx.uartSendDma]
      split_ifs
      · rfl
      · exact hflight

/-! ### Rounds -/

theorem step_txDone (hflight : s.inFlight.isSome) : s.step .txDone = txDoneIrq s := if_pos hflight

theorem step_txDone_none (hflight : s.inFlight = none) : s.step .txDone = s :=
  if_neg (by rw [hflight]; decide)

/-- The steps of a round. -/
theorem Feeds.work_step (h : Feeds s queue) {op : TxOp} (hop : Unraced s op)
    (hquiet : op = .cb ∨ op = .txDone) : (s.step op).work ≤ s.work := by
  rcases hquiet with rfl | rfl
  · exact h.work_cb.1
  · by_cases hflight : s.inFlight.isSome
    · rw [step_txDone hflight]
      exact Nat.le_of_lt (h.work_txDone hflight hop)
    · rw [step_txDone_none (Option.not_isSome_iff_eq_none.mp hflight)]

theorem Feeds.work_run {ops : List TxOp} (h : Feeds s queue) (hops : Along Tx.step Unraced s ops)
    (hquiet : ∀ op ∈ ops, op = .cb ∨ op = .txDone) : (runFrom Tx.step s ops).work ≤ s.work := by
  induction ops generalizing s queue with
  | nil => exact le_rfl
  | cons op ops ih =>
      obtain ⟨queue', hnext⟩ := h.step hops.1
      have hrest := ih hnext hops.2 fun op hop => hquiet op (List.mem_cons_of_mem _ hop)
      exact hrest.trans (h.work_step hops.1 (hquiet op List.mem_cons_self))

/-- A transfer in flight ends in a round. -/
theorem Feeds.work_run_inFlight {ops : List TxOp} (h : Feeds s queue)
    (hops : Along Tx.step Unraced s ops) (hquiet : ∀ op ∈ ops, op = .cb ∨ op = .txDone)
    (hmem : .txDone ∈ ops) (hflight : s.inFlight.isSome) :
    (runFrom Tx.step s ops).work < s.work := by
  induction ops generalizing s queue with
  | nil => exact absurd hmem List.not_mem_nil
  | cons op ops ih =>
      obtain ⟨queue', hnext⟩ := h.step hops.1
      have hrest : ∀ op ∈ ops, op = .cb ∨ op = .txDone :=
        fun op hop => hquiet op (List.mem_cons_of_mem _ hop)
      rcases hquiet op List.mem_cons_self with rfl | rfl
      · have hlater : .txDone ∈ ops := (List.mem_cons.mp hmem).resolve_left (nomatch ·)
        exact (ih hnext hops.2 hrest hlater (cb_isSome s hflight)).trans_le h.work_cb.1
      · refine (hnext.work_run hops.2 hrest).trans_lt ?_
        rw [step_txDone hflight]
        exact h.work_txDone hflight hops.1

/-- Where none is in flight, `tx_to_uart_cb` goes on in a round. -/
theorem Feeds.work_run_none {ops : List TxOp} (h : Feeds s queue)
    (hops : Along Tx.step Unraced s ops) (hquiet : ∀ op ∈ ops, op = .cb ∨ op = .txDone)
    (hmem : .cb ∈ ops) (hflight : s.inFlight = none) (hwork : 0 < s.work) :
    (runFrom Tx.step s ops).work < s.work := by
  induction ops with
  | nil => exact absurd hmem List.not_mem_nil
  | cons op ops ih =>
      obtain ⟨queue', hnext⟩ := h.step hops.1
      have hrest : ∀ op ∈ ops, op = .cb ∨ op = .txDone :=
        fun op hop => hquiet op (List.mem_cons_of_mem _ hop)
      rcases hquiet op List.mem_cons_self with rfl | rfl
      · exact (hnext.work_run hops.2 hrest).trans_lt (h.work_cb.2 hflight hwork)
      · have hsame := step_txDone_none hflight
        have hlater : .cb ∈ ops := (List.mem_cons.mp hmem).resolve_left (nomatch ·)
        have hops' := hops.2
        rw [hsame] at hops'
        rw [runFrom_cons, hsame]
        exact ih hops' hrest hlater

/-- **One round** takes from the work. -/
theorem Feeds.work_round {r : List TxOp} (h : Feeds s queue) (hops : Along Tx.step Unraced s r)
    (hr : Round r) : (runFrom Tx.step s r).work ≤ s.work - 1 := by
  by_cases hflight : s.inFlight.isSome
  · have hlt := h.work_run_inFlight hops hr.quiet hr.txDone hflight
    omega
  · have hnone := Option.not_isSome_iff_eq_none.mp hflight
    rcases Nat.eq_zero_or_pos s.work with hzero | hpos
    · have hle := h.work_run hops hr.quiet
      omega
    · have hlt := h.work_run_none hops hr.quiet hr.cb hnone hpos
      omega

/-- **Rounds.**  As many as there is work send everything. -/
theorem Feeds.rounds {rounds : List (List TxOp)} (h : Feeds s queue)
    (hops : Along Tx.step Unraced s rounds.flatten) (hrounds : ∀ r ∈ rounds, Round r)
    (hwork : s.work ≤ rounds.length) :
    (runFrom Tx.step s rounds.flatten).work = 0 ∧
      ∃ queue', Feeds (runFrom Tx.step s rounds.flatten) queue' := by
  induction rounds generalizing s queue with
  | nil => exact ⟨Nat.le_zero.mp hwork, queue, h⟩
  | cons r rounds ih =>
      rw [List.flatten_cons] at hops ⊢
      obtain ⟨hround, hrest⟩ := along_append.mp hops
      obtain ⟨queue', hnext⟩ : ∃ queue', Feeds (runFrom Tx.step s r) queue' :=
        hround.invariant (I := fun s => ∃ queue, Feeds s queue)
          (fun _ _ ⟨_, h⟩ hop => h.step hop) ⟨queue, h⟩
      have hlt := h.work_round hround (hrounds r List.mem_cons_self)
      rw [runFrom_append]
      refine ih hnext hrest (fun r hr => hrounds r (List.mem_cons_of_mem _ hr)) ?_
      rw [List.length_cons] at hwork
      omega

/-- A call of `tx_to_uart_cb` with an event, and no transfer in flight, starts one. -/
theorem Feeds.call (h : Feeds s queue) (hpc : s.pc = .idle) (hflight : s.inFlight = none)
    (hne : s.sys.fifo.rptr ≠ s.sys.fifo.wptr) :
    let t := runFrom Tx.step s (List.replicate 5 .cb)
    t.pc = .idle ∧ t.uartSendFlag = true ∧ t.inFlight.isSome ∧
      ∃ e rest, queue = e :: rest ∧ t.handed = s.handed ++ [e] := by
  have hat := h.at_pc
  rw [Tx.At, hpc, hflight] at hat
  have h₁ : txToUartCb s = { s with pc := .checked } := by
    rw [Serial.cb_idle hpc]
    exact if_pos ⟨hne, hat⟩
  have hf₁ := h.cb_idle hpc
  rw [h₁] at hf₁
  obtain ⟨h₂, hf₂⟩ := hf₁.cb_checked rfl
  rw [h₂] at hf₂
  obtain ⟨e, rest, hqueue, h₃, hf₃⟩ := hf₂.cb_copied rfl
  rw [h₃] at hf₃
  obtain ⟨h₄, -, hf₄⟩ := hf₃.cb_started rfl
  rw [h₄] at hf₄
  obtain ⟨h₅, -, -⟩ := hf₄.cb_popped rfl
  have hcall : runFrom Tx.step s (List.replicate 5 .cb) =
      txToUartCb (txToUartCb (txToUartCb (txToUartCb (txToUartCb s)))) := rfl
  rw [hcall, h₁, h₂, h₃, h₄, h₅]
  exact ⟨rfl, rfl, rfl, e, rest, hqueue, rfl⟩

/-! ### A flag that stays set -/

theorem Wedged.step (h : Wedged s) (op : TxOp) :
    Wedged (s.step op) ∧ (s.step op).handed = s.handed := by
  obtain ⟨hpc, hflag, hflight⟩ := h
  cases op with
  | send header pEvt =>
      have hsend : (sppSendData s header pEvt).1.pc = s.pc ∧
          (sppSendData s header pEvt).1.uartSendFlag = s.uartSendFlag ∧
          (sppSendData s header pEvt).1.inFlight = s.inFlight ∧
          (sppSendData s header pEvt).1.handed = s.handed := by
        rw [sppSendData]
        cases myFifoWptr s.sys.fifo with
        | none => exact ⟨rfl, rfl, rfl, rfl⟩
        | some p =>
            dsimp only
            split_ifs
            · exact ⟨rfl, rfl, rfl, rfl⟩
            · exact ⟨rfl, rfl, rfl, rfl⟩
            · exact ⟨rfl, rfl, rfl, rfl⟩
      obtain ⟨hpc', hflag', hflight', hhanded'⟩ := hsend
      rw [Tx.step, if_pos hpc]
      exact ⟨⟨hpc'.trans hpc, hflag'.trans hflag, hflight'.trans hflight⟩, hhanded'⟩
  | cb =>
      have hsame : txToUartCb s = s := by
        rw [Serial.cb_idle hpc, hflag]
        exact if_neg fun hready => absurd hready.2 (by decide)
      rw [Tx.step, hsame]
      exact ⟨⟨hpc, hflag, hflight⟩, rfl⟩
  | txDone =>
      rw [step_txDone_none hflight]
      exact ⟨⟨hpc, hflag, hflight⟩, rfl⟩

/-- **For ever.**  Once the flag is set without a transfer in flight, nothing is handed to the DMA
any more, and the module stays busy. -/
theorem Wedged.run (h : Wedged s) (ops : List TxOp) :
    (runFrom Tx.step s ops).handed = s.handed ∧
      ∀ mcu rx, appModuleBusy mcu rx (runFrom Tx.step s ops) = true := by
  obtain ⟨hwedged, hhanded⟩ : Wedged (runFrom Tx.step s ops) ∧
      (runFrom Tx.step s ops).handed = s.handed :=
    invariant (I := fun t => Wedged t ∧ t.handed = s.handed)
      (fun t op ht => ⟨(ht.1.step op).1, (ht.1.step op).2.trans ht.2⟩) ⟨h, rfl⟩ ops
  refine ⟨hhanded, fun mcu rx => ?_⟩
  rw [appModuleBusy, Tx.uartTxBusy, hwedged.flag, Bool.or_true, Bool.true_or, Bool.or_true]

end steps

/-- **The flag and the transfer.**  In every run in which no transfer ends before the flag is set:
when `tx_to_uart_cb` has returned, the flag is set only while a transfer is in flight; with an event
in the FIFO and none in flight, the next call starts one; and after as many rounds as there is work
the module is no longer busy. -/
theorem flag_in_flight (p : Nat) (m : Memory) (txdata : UartData) (ops : List TxOp)
    (hops : Along Tx.step Unraced (Tx.boot p m txdata) ops) :
    let s := runFrom Tx.step (Tx.boot p m txdata) ops
    (s.pc = .idle → s.uartSendFlag = true → s.inFlight.isSome) ∧
    (s.pc = .idle → s.sys.fifo.rptr ≠ s.sys.fifo.wptr → s.inFlight = none →
      let t := runFrom Tx.step s (List.replicate 5 .cb)
      t.pc = .idle ∧ t.inFlight.isSome ∧ t.handed.length = s.handed.length + 1) ∧
    ∀ rounds : List (List TxOp), (∀ r ∈ rounds, Round r) →
      Along Tx.step Unraced s rounds.flatten → s.work ≤ rounds.length →
        appModuleBusy false false (runFrom Tx.step s rounds.flatten) = false := by
  intro s
  obtain ⟨queue, h⟩ : ∃ queue, Feeds s queue := feeds_run hops
  refine ⟨?_, ?_, ?_⟩
  · intro hpc hflag
    have hat := h.at_pc
    rw [Tx.At, hpc] at hat
    exact hat.symm.trans hflag
  · intro hpc hne hflight
    obtain ⟨hidle, -, hsome, e, rest, -, hhanded⟩ := h.call hpc hflight hne
    refine ⟨hidle, hsome, ?_⟩
    rw [hhanded, List.length_append]
    rfl
  · intro rounds hrounds halong hwork
    obtain ⟨hzero, queue', hend⟩ := h.rounds halong hrounds hwork
    obtain ⟨-, hnil, -, hflag⟩ := hend.done hzero
    have hempty : ¬(runFrom Tx.step s rounds.flatten).sys.fifo.rptr ≠
        (runFrom Tx.step s rounds.flatten).sys.fifo.wptr :=
      fun hne => hend.queue_ne_nil.mpr hne hnil
    rw [appModuleBusy, Tx.uartTxBusy, hflag, decide_eq_false hempty]
    rfl

/-- An event of two bytes: its token, and `paramLen`. -/
def emptyEvent : Memory := fun i => if i = 0 then 0xFF#8 else 0#8

/-- An event is sent, and the DMA started. -/
def started : List TxOp := [.send hciFlagEventTlkModule emptyEvent, .cb, .cb, .cb]

/-- The transfer ends when the flag is set. -/
theorem flag_in_flight_one :
    let s₀ := Tx.boot 0 (fun _ => 0#8) ⟨0, fun _ => 0#8⟩
    let s := runFrom Tx.step s₀ (started ++ [.cb, .cb])
    Along Tx.step Unraced s₀ (started ++ [.cb, .cb]) ∧ s.uartSendFlag = true ∧
      s.inFlight.isSome := by
  have hops : Along Tx.step Unraced (Tx.boot 0 (fun _ => 0#8) ⟨0, fun _ => 0#8⟩)
      (started ++ [.cb, .cb]) := by decide +kernel
  have hflag : (runFrom Tx.step (Tx.boot 0 (fun _ => 0#8) ⟨0, fun _ => 0#8⟩)
      (started ++ [.cb, .cb])).uartSendFlag = true := by decide +kernel
  exact ⟨hops, hflag, (flag_in_flight 0 (fun _ => 0#8) ⟨0, fun _ => 0#8⟩ _ hops).1
    (by decide +kernel) hflag⟩

/-- **The end of a transfer before the flag is set.**  The flag stays set, and whatever is sent
then, nothing is handed to the DMA and the module is busy. -/
theorem wedged_by_interrupt :
    let s := runFrom Tx.step (Tx.boot 0 (fun _ => 0#8) ⟨0, fun _ => 0#8⟩)
      (started ++ [.txDone, .cb, .cb])
    ¬(s.pc = .idle → s.uartSendFlag = true → s.inFlight.isSome) ∧
      ∀ ops, (runFrom Tx.step s ops).handed = s.handed ∧
        ∀ mcu rx, appModuleBusy mcu rx (runFrom Tx.step s ops) = true := by
  intro s
  have hwedged : Wedged s := ⟨by decide +kernel, by decide +kernel, by decide +kernel⟩
  refine ⟨?_, hwedged.run⟩
  intro h
  have hsome := h hwedged.pc hwedged.flag
  rw [hwedged.inFlight] at hsome
  exact nomatch hsome

end TelinkB91.Serial
