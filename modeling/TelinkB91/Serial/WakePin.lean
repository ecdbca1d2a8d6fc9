import TelinkB91.Serial.Progress

/-!
# Serial — the pin that wakes the MCU

`spp_send_data` raises `GPIO_WAKEUP_MCU` when it stores an event and the pin is low, and notes the
time; `tx_to_uart_cb` waits until 100 microseconds have passed before it starts the transfer;
`app_power_management`, called from the main loop, lowers the pin once the UART has nothing to do.
`Module` is `Tx` with the pin, these variables and the clock.

* `Woken.step`: the pin is high while an event is stored or under way, whatever the interrupts.
* `late_of_exceed`: the wait is over only when the time has passed, also where the timer wraps.
* `wake_pin`: every transfer starts more than 100 microseconds after the pin was raised, and the pin
  stays high until all transfers are done.
-/

namespace TelinkB91.Serial
open ByteMemory Fifo Ring Runs

/-- Ticks of the system timer in 100 microseconds. -/
def wakeupTicks : Nat := 100 * 16

/-- `raised` is when the pin was last raised, and `starts` when each transfer was started, with when
the pin was raised before it. -/
structure Module where
  tx : Tx
  clock : Nat
  moduleUartDataFlg : Bool
  moduleWakeupModuleTick : BitVec 32
  gpioWakeupMcu : Bool
  raised : Nat
  starts : List (Nat × Nat)

def Module.boot (p : Nat) (m : Memory) (txdata : UartData) : Module :=
  ⟨.boot p m txdata, 0, false, 0#32, false, 0, []⟩

/-- `clock_time`. -/
def Module.clockTime (s : Module) : BitVec 32 := BitVec.ofNat 32 s.clock

/-- `clock_time_exceed(module_wakeup_module_tick, 100)`, where there is a time to wait for. -/
def Module.waited (s : Module) : Bool :=
  s.moduleWakeupModuleTick = 0#32 ||
    s.clockTime - s.moduleWakeupModuleTick > BitVec.ofNat 32 wakeupTicks

/-- `spp_send_data`, which raises the pin for an event it accepts. -/
def Module.sppSendData (s : Module) (header : BitVec 32) (pEvt : Memory) : Module :=
  let r := Serial.sppSendData s.tx header pEvt
  let s := { s with tx := r.1 }
  if r.2 = 0 ∧ ¬s.moduleUartDataFlg then
    { s with
      gpioWakeupMcu := true
      moduleWakeupModuleTick := s.clockTime ||| 1#32
      moduleUartDataFlg := true
      raised := s.clock }
  else s

/-- One step of `tx_to_uart_cb`, which waits before it starts the DMA. -/
def Module.txToUartCb (s : Module) : Module :=
  if s.tx.pc = .copied then
    if s.waited then
      let tx := Serial.txToUartCb s.tx
      { s with
        tx := tx
        starts := if tx.pc = .started then s.starts ++ [(s.clock, s.raised)] else s.starts }
    else s
  else { s with tx := Serial.txToUartCb s.tx }

/-- `app_power_management`, with `UART_RX_BUSY`. -/
def Module.appPowerManagement (s : Module) (uartRxBusy : Bool) : Module :=
  let moduleUartWorking := s.tx.uartTxBusy || uartRxBusy
  if s.moduleUartDataFlg ∧ ¬moduleUartWorking then
    { s with
      moduleUartDataFlg := false
      moduleWakeupModuleTick := 0#32
      gpioWakeupMcu := false }
  else s

/-- What happens; `tick n` is that `n` ticks of the timer pass. -/
inductive ModuleOp where
  | send (header : BitVec 32) (pEvt : Memory)
  | cb
  | txDone
  | pm (uartRxBusy : Bool)
  | tick (n : Nat)

/-- The functions of the main loop are not called inside of `tx_to_uart_cb`. -/
def Module.step (s : Module) : ModuleOp → Module
  | .send header pEvt => if s.tx.pc = .idle then s.sppSendData header pEvt else s
  | .cb => s.txToUartCb
  | .txDone => if s.tx.inFlight.isSome then { s with tx := txDoneIrq s.tx } else s
  | .pm uartRxBusy => if s.tx.pc = .idle then s.appPowerManagement uartRxBusy else s
  | .tick n => { s with clock := s.clock + n }

/-- The wait is not reached in the tick in which the pin was raised. -/
def Ticked (s : Module) : ModuleOp → Prop
  | .cb => s.tx.pc = .copied → s.raised < s.clock
  | _ => True

instance (s : Module) : DecidablePred (Ticked s)
  | .cb => inferInstanceAs (Decidable (s.tx.pc = .copied → s.raised < s.clock))
  | .send _ _ | .txDone | .pm _ | .tick _ => .isTrue trivial

/-! ### The wait -/

theorem clock_or_one (r : Nat) : ∃ r', r ≤ r' ∧ r' ≤ r + 1 ∧
    BitVec.ofNat 32 r ||| 1#32 = BitVec.ofNat 32 r' := by
  refine ⟨r ||| 1, Nat.left_le_or, ?_, ?_⟩
  · have hhalf : (r ||| 1) / 2 = r / 2 := by rw [Nat.or_div_two, Nat.or_zero]
    omega
  · refine BitVec.eq_of_toNat_eq ?_
    simp [BitVec.toNat_or, BitVec.toNat_ofNat]

theorem toNat_clock_sub {c r : Nat} (h : r ≤ c) :
    (BitVec.ofNat 32 c - BitVec.ofNat 32 r).toNat = (c - r) % 2 ^ 32 := by
  rw [BitVec.toNat_sub, BitVec.toNat_ofNat, BitVec.toNat_ofNat]
  omega

/-- **The wait.**  What the timer has wrapped does not end it early. -/
theorem late_of_exceed {c r : Nat} (h : r < c)
    (hexceed : BitVec.ofNat 32 c - (BitVec.ofNat 32 r ||| 1#32) > BitVec.ofNat 32 wakeupTicks) :
    r + wakeupTicks < c := by
  obtain ⟨r', hle, hle', hr⟩ := clock_or_one r
  have hgt : wakeupTicks < (BitVec.ofNat 32 c - (BitVec.ofNat 32 r ||| 1#32)).toNat := hexceed
  rw [hr, toNat_clock_sub (by omega)] at hgt
  have := Nat.mod_le (c - r') (2 ^ 32)
  omega

/-- The wait is not longer than the time it is for. -/
theorem exists_exceed {c r : Nat} (h : r < c) : ∃ d ≤ wakeupTicks + 1,
    BitVec.ofNat 32 (c + d) - (BitVec.ofNat 32 r ||| 1#32) > BitVec.ofNat 32 wakeupTicks := by
  obtain ⟨r', hle, hle', hr⟩ := clock_or_one r
  have hof : ∀ d, BitVec.ofNat 32 (c + d) - BitVec.ofNat 32 r' > BitVec.ofNat 32 wakeupTicks ↔
      wakeupTicks < (c + d - r') % 2 ^ 32 := by
    intro d
    rw [gt_iff_lt, BitVec.lt_def, toNat_clock_sub (by omega)]
    rfl
  simp only [hr, hof]
  by_cases hnow : wakeupTicks < (c - r') % 2 ^ 32
  · exact ⟨0, Nat.zero_le _, hnow⟩
  · rw [wakeupTicks] at hnow ⊢
    exact ⟨100 * 16 + 1 - (c - r') % 2 ^ 32, Nat.sub_le _ _, by omega⟩

/-! ### The pin -/

/-- The UART has nothing to do, and `tx_to_uart_cb` has returned. -/
structure Tx.Quiet (s : Tx) : Prop where
  pc : s.pc = .idle
  empty : s.sys.fifo.rptr = s.sys.fifo.wptr
  flag : s.uartSendFlag = false
  flight : s.inFlight = none

/-- What holds at all times: the pin is the flag, and low only while there is nothing to do; the
time noted is when it was raised; a transfer in flight has its flag, or is about to get it; and no
transfer was started too early, of all there were. -/
structure Woken (s : Module) : Prop where
  pin : s.gpioWakeupMcu = s.moduleUartDataFlg
  quiet : s.moduleUartDataFlg = false → s.tx.Quiet
  tick : s.moduleUartDataFlg = true →
    s.moduleWakeupModuleTick = BitVec.ofNat 32 s.raised ||| 1#32 ∧ s.raised ≤ s.clock
  flight : s.tx.inFlight.isSome → s.tx.uartSendFlag = true ∨ s.tx.Window
  starts : ∀ e ∈ s.starts, e.2 + wakeupTicks < e.1
  counted : s.starts.length = s.tx.handed.length

section pin

variable {s : Module}

theorem Woken.boot (p : Nat) (m : Memory) (txdata : UartData) : Woken (.boot p m txdata) where
  pin := rfl
  quiet _ := ⟨rfl, rfl, rfl, rfl⟩
  tick h := by cases h
  flight h := by cases h
  starts := List.forall_mem_nil _
  counted := rfl

/-- A call that returns -1 changes nothing; one that returns 0 leaves the DMA and the flag. -/
theorem sppSendData_result (s : Tx) (header : BitVec 32) (pEvt : Memory) :
    ((Serial.sppSendData s header pEvt).2 ≠ 0 → (Serial.sppSendData s header pEvt).1 = s) ∧
      (Serial.sppSendData s header pEvt).1.uartSendFlag = s.uartSendFlag ∧
      (Serial.sppSendData s header pEvt).1.inFlight = s.inFlight ∧
      (Serial.sppSendData s header pEvt).1.handed = s.handed := by
  rw [Serial.sppSendData]
  split
  · exact ⟨fun _ => rfl, rfl, rfl, rfl⟩
  · dsimp only
    split_ifs
    · exact ⟨fun _ => rfl, rfl, rfl, rfl⟩
    · exact ⟨fun h => absurd rfl h, rfl, rfl, rfl⟩
    · exact ⟨fun h => absurd rfl h, rfl, rfl, rfl⟩

theorem Woken.send (h : Woken s) (header : BitVec 32) (pEvt : Memory) (hpc : s.tx.pc = .idle) :
    Woken (s.sppSendData header pEvt) := by
  obtain ⟨hrefused, hflag, hflight, hhanded⟩ := sppSendData_result s.tx header pEvt
  have hfl : (Serial.sppSendData s.tx header pEvt).1.inFlight.isSome →
      (Serial.sppSendData s.tx header pEvt).1.uartSendFlag = true ∨
        (Serial.sppSendData s.tx header pEvt).1.Window := by
    rw [hflag, hflight]
    refine fun hsome => .inl ((h.flight hsome).resolve_right ?_)
    rw [Tx.Window, hpc]
    decide
  have hcounted := h.counted.trans (congrArg List.length hhanded.symm)
  rw [Module.sppSendData]
  dsimp only
  split_ifs with hraise
  · exact ⟨rfl, fun h0 => absurd h0 Bool.noConfusion, fun _ => ⟨rfl, Nat.le_refl _⟩, hfl,
      h.starts, hcounted⟩
  · refine ⟨h.pin, fun h0 => ?_, h.tick, hfl, h.starts, hcounted⟩
    have hne : (Serial.sppSendData s.tx header pEvt).2 ≠ 0 := fun h0' =>
      hraise ⟨h0', by rw [h0]; decide⟩
    dsimp only
    rw [hrefused hne]
    exact h.quiet h0

/-- A call of `tx_to_uart_cb` with nothing to do. -/
theorem Tx.Quiet.cb {s : Tx} (h : s.Quiet) : Serial.txToUartCb s = s := by
  rw [cb_idle h.pc, if_neg (by simp [h.empty])]

/-- A transfer has its flag, or is about to get it, after each step of `tx_to_uart_cb`. -/
theorem flight_cb {s : Tx} (h : s.inFlight.isSome → s.uartSendFlag = true ∨ s.Window)
    (hsome : (Serial.txToUartCb s).inFlight.isSome) :
    (Serial.txToUartCb s).uartSendFlag = true ∨ (Serial.txToUartCb s).Window := by
  cases hpc : s.pc with
  | idle =>
      rw [cb_idle hpc] at hsome ⊢
      have hwindow : ¬s.Window := by rw [Tx.Window, hpc]; decide
      split_ifs at hsome ⊢
      · exact .inl ((h hsome).resolve_right hwindow)
      · exact h hsome
  | checked =>
      rw [Serial.txToUartCb, hpc] at hsome ⊢
      exact .inl ((h hsome).resolve_right (by rw [Tx.Window, hpc]; decide))
  | copied =>
      by_cases hlen : s.txdata.len ≠ 0
      · have hstarted : (Serial.txToUartCb s).pc = .started := by
          rw [Serial.txToUartCb, hpc]
          simp [Tx.uartSendDma, hlen]
        exact .inr (.inl hstarted)
      · have hback : Serial.txToUartCb s = { s with pc := .idle } := by
          rw [Serial.txToUartCb, hpc]
          simp [Tx.uartSendDma, hlen]
        rw [hback] at hsome ⊢
        exact .inl ((h hsome).resolve_right (by rw [Tx.Window, hpc]; decide))
  | started =>
      rw [Serial.txToUartCb, hpc]
      exact .inr (.inr rfl)
  | popped =>
      rw [Serial.txToUartCb, hpc]
      exact .inl rfl

/-- Only the step that starts the DMA hands an event over. -/
theorem handed_cb (s : Tx) : (Serial.txToUartCb s).handed.length = s.handed.length +
    if s.pc = .copied ∧ (Serial.txToUartCb s).pc = .started then 1 else 0 := by
  cases hpc : s.pc with
  | idle =>
      have hno : ¬(Pc.idle = Pc.copied ∧ (Serial.txToUartCb s).pc = .started) :=
        fun h0 => absurd h0.1 (by decide)
      rw [if_neg hno, cb_idle hpc]
      split_ifs <;> rfl
  | copied =>
      rw [Serial.txToUartCb, hpc]
      by_cases hlen : s.txdata.len ≠ 0 <;> simp [Tx.uartSendDma, hlen]
  | checked | started | popped => simp [Serial.txToUartCb, hpc]

theorem Woken.cb (h : Woken s) (hs : Ticked s .cb) : Woken s.txToUartCb := by
  rw [Module.txToUartCb]
  by_cases hpc : s.tx.pc = .copied
  · rw [if_pos hpc]
    split_ifs with hwait
    · have hflag : s.moduleUartDataFlg = true := by
        by_contra hlow
        have := (h.quiet (Bool.not_eq_true _ ▸ hlow)).pc
        rw [hpc] at this
        cases this
      obtain ⟨htick, hle⟩ := h.tick hflag
      have hlate : s.raised + wakeupTicks < s.clock := by
        rw [Module.waited, htick, Bool.or_eq_true, decide_eq_true_eq, decide_eq_true_eq] at hwait
        refine late_of_exceed (hs hpc) (hwait.resolve_left fun h0 => ?_)
        have hodd := congrArg (fun x : BitVec 32 => x.getLsbD 0) h0
        simp at hodd
      refine ⟨h.pin, fun h0 => absurd (hflag.symm.trans h0) Bool.noConfusion, h.tick,
        flight_cb h.flight, ?_, ?_⟩
      · dsimp only
        split_ifs
        · intro e he
          rcases List.mem_append.mp he with he | he
          · exact h.starts e he
          · rw [List.mem_singleton.mp he]
            exact hlate
        · exact h.starts
      · dsimp only
        rw [handed_cb, ← h.counted]
        split_ifs with hstarted hboth hboth
        · exact List.length_append
        · exact absurd ⟨hpc, hstarted⟩ hboth
        · exact absurd hboth.2 hstarted
        · rfl
    · exact h
  · have hcounted : s.starts.length = (Serial.txToUartCb s.tx).handed.length := by
      rw [handed_cb, if_neg fun h0 => hpc h0.1]
      exact h.counted
    rw [if_neg hpc]
    refine ⟨h.pin, fun h0 => ?_, h.tick, flight_cb h.flight, h.starts, hcounted⟩
    have hquiet := h.quiet h0
    dsimp only
    rw [hquiet.cb]
    exact hquiet

theorem Woken.txDone (h : Woken s) (hsome : s.tx.inFlight.isSome) :
    Woken { s with tx := txDoneIrq s.tx } := by
  refine ⟨h.pin, fun h0 => ?_, h.tick, fun h0 => absurd h0 Bool.noConfusion, h.starts,
    h.counted⟩
  rw [(h.quiet h0).flight] at hsome
  exact absurd hsome Bool.noConfusion

/-- **The power management** lowers the pin when there is nothing to do. -/
theorem Woken.pm (h : Woken s) (hpc : s.tx.pc = .idle) (uartRxBusy : Bool) :
    Woken (s.appPowerManagement uartRxBusy) ∧
      ((s.appPowerManagement uartRxBusy).gpioWakeupMcu = true ↔
        s.gpioWakeupMcu = true ∧ (s.tx.uartTxBusy || uartRxBusy) = true) := by
  rw [Module.appPowerManagement]
  split_ifs with hlower
  · obtain ⟨-, hidle⟩ := hlower
    have hidle' : s.tx.uartTxBusy = false := by
      rw [Bool.or_eq_true, not_or, Bool.not_eq_true, Bool.not_eq_true] at hidle
      exact hidle.1
    rw [Tx.uartTxBusy, Bool.or_eq_false_iff, decide_eq_false_iff_not, not_not] at hidle'
    obtain ⟨hempty, hflag⟩ := hidle'
    have hflight : s.tx.inFlight = none := by
      rw [← Option.not_isSome_iff_eq_none]
      intro hsome
      rcases h.flight hsome with hset | hwindow
      · exact absurd (hflag.symm.trans hset) Bool.noConfusion
      · rw [Tx.Window, hpc] at hwindow
        exact absurd hwindow (by decide)
    exact ⟨⟨rfl, fun _ => ⟨hpc, hempty, hflag, hflight⟩, fun h0 => absurd h0 Bool.noConfusion,
      h.flight, h.starts, h.counted⟩, fun h0 => (by cases h0),
      fun h0 => absurd h0.2 hidle⟩
  · refine ⟨h, fun hpin => ⟨hpin, ?_⟩, fun h0 => h0.1⟩
    by_contra hidle
    exact hlower ⟨h.pin ▸ hpin, hidle⟩

/-- **One step.** -/
theorem Woken.step (h : Woken s) {op : ModuleOp} (hop : Ticked s op) : Woken (s.step op) := by
  cases op with
  | send header pEvt =>
      rw [Module.step]
      split_ifs with hpc
      · exact h.send header pEvt hpc
      · exact h
  | cb => exact h.cb hop
  | txDone =>
      rw [Module.step]
      split_ifs with hsome
      · exact h.txDone hsome
      · exact h
  | pm uartRxBusy =>
      rw [Module.step]
      split_ifs with hpc
      · exact (h.pm hpc uartRxBusy).1
      · exact h
  | tick n =>
      exact ⟨h.pin, h.quiet, fun h0 => ⟨(h.tick h0).1, Nat.le_add_right_of_le (h.tick h0).2⟩,
        h.flight, h.starts, h.counted⟩

end pin

/-- **The pin and the transfers.**  Over every run, with interrupts between any two steps: the pin
is high while an event is stored, is being taken out or is under way; every transfer was started
more than 100 microseconds after the pin was raised for it; the wait ends within that time; and the
power management lowers the pin just when the UART has nothing to do. -/
theorem wake_pin (p : Nat) (m : Memory) (txdata : UartData) {ops : List ModuleOp}
    (h : Along Module.step Ticked (.boot p m txdata) ops) :
    let s := runFrom Module.step (.boot p m txdata) ops
    ((s.tx.uartTxBusy = true ∨ s.tx.inFlight.isSome ∨ s.tx.pc ≠ .idle) →
        s.gpioWakeupMcu = true) ∧
      (s.starts.length = s.tx.handed.length ∧ ∀ e ∈ s.starts, e.2 + wakeupTicks < e.1) ∧
      (s.tx.pc = .copied → s.raised < s.clock →
        ∃ d ≤ wakeupTicks + 1, (s.step (.tick d)).waited = true) ∧
      (s.tx.pc = .idle → ∀ uartRxBusy, ((s.step (.pm uartRxBusy)).gpioWakeupMcu = true ↔
        s.gpioWakeupMcu = true ∧ (s.tx.uartTxBusy || uartRxBusy) = true)) := by
  intro s
  have hs : Woken s := h.invariant (fun t op ht hop => ht.step hop) (Woken.boot p m txdata)
  have hlow : s.gpioWakeupMcu ≠ true → s.tx.Quiet := fun hlow =>
    hs.quiet (hs.pin ▸ Bool.not_eq_true _ ▸ hlow)
  refine ⟨fun hwork => ?_, ⟨hs.counted, hs.starts⟩, fun hpc hclock => ?_, fun hpc rx => ?_⟩
  · by_contra hpin
    have hquiet := hlow hpin
    rcases hwork with hbusy | hsome | hpc
    · rw [Tx.uartTxBusy, hquiet.flag, Bool.or_false, decide_eq_true_eq] at hbusy
      exact hbusy hquiet.empty
    · rw [hquiet.flight] at hsome
      exact absurd hsome Bool.noConfusion
    · exact hpc hquiet.pc
  · have hflag : s.moduleUartDataFlg = true := by
      by_contra h0
      have := (hs.quiet (Bool.not_eq_true _ ▸ h0)).pc
      rw [hpc] at this
      cases this
    obtain ⟨d, hd, hexceed⟩ := exists_exceed hclock
    refine ⟨d, hd, ?_⟩
    rw [Module.step, Module.waited, Bool.or_eq_true, decide_eq_true_eq, decide_eq_true_eq]
    refine .inr ?_
    dsimp only
    rw [(hs.tick hflag).1]
    exact hexceed
  · rw [Module.step, if_pos hpc]
    exact (hs.pm hpc rx).2

/-- An event at the time 6, whose transfer waits for the time 1608. -/
def wakeOps : List ModuleOp :=
  [.tick 6, .send hciFlagEventTlkModule emptyEvent, .tick 5, .cb, .cb, .cb, .tick 1597, .cb, .cb, .cb]

theorem wake_pin_one :
    let s := runFrom Module.step (.boot 0 (fun _ => 0#8) ⟨0, fun _ => 0#8⟩) wakeOps
    s.starts = [(1608, 6)] ∧ s.gpioWakeupMcu = true := by
  have hops : Along Module.step Ticked (.boot 0 (fun _ => 0#8) ⟨0, fun _ => 0#8⟩) wakeOps := by
    decide +kernel
  exact ⟨by decide +kernel, (wake_pin 0 (fun _ => 0#8) ⟨0, fun _ => 0#8⟩ hops).1
    (.inr (.inl (by decide +kernel)))⟩

end TelinkB91.Serial
