import TelinkB91.Debug.Output

/-!
# Debug — the UART channel hands each record over once

On the UART channel the main loop and the interrupt both take records out of the print FIFO and
both start the transfer.  The handler looks twice, and only the second look and what follows are
under the lock; the interrupt goes on to the next record by itself.

The slot of a record is free as soon as its transfer is started, so a producer has to leave one
slot more while a transfer is in flight.

* `HandOff.step`: what one step keeps between `uartSendIsBusy`, the transfer and the counters.
* `HandOff.handsOver`, `HandOff.round`: what a step hands over, and that a round does hand over.
* `each_once`: the records are handed over once and in order, no transfer is started during
  another, `uartSendIsBusy` tells whether one is in flight, and its slot is not written.
-/

namespace TelinkB91.Debug
open ByteMemory Fifo Ring Runs

/-- The number of transfers in flight. -/
def inFlightCount (l : Log) : Nat := if l.inFlight.isSome then 1 else 0

/-- What a step writes: an address, and the bytes from there on. -/
def Log.written (l : Log) : Op → Option (Nat × List U8)
  | .send str pData dataLen =>
      if l.printing.isSome then none
      else (sent l.ctl str pData dataLen).map fun bs => (l.sys.fifo.addr l.sys.fifo.wptr, bs)
  | .printf text =>
      if l.printing.isSome then none
      else some (l.sys.fifo.addr l.sys.fifo.wptr, printed l.ctl text)
  | _ => none

/-- The step writes nothing into the slot whose transfer is in flight. -/
def Untouched (l : Log) (op : Op) : Prop :=
  ∀ a bs d, l.written op = some (a, bs) → l.inFlight = some d →
    a + bs.length ≤ d.pData ∨ d.pData + l.sys.fifo.size ≤ a

/-! ### One step -/

/-- `written` is what a step does to memory. -/
theorem step_mem (l : Log) (op : Op) : (l.step op).sys.mem =
    match l.written op with
    | none => l.sys.mem
    | some (a, bs) => write l.sys.mem a bs := by
  cases op with
  | send str pData dataLen =>
      simp only [Log.step, Log.written, tlkapiSendStrData]
      split
      · rfl
      · cases sent l.ctl str pData dataLen <;> rfl
  | printf text =>
      simp only [Log.step, Log.written]
      split <;> rfl
  | printfNext =>
      simp only [Log.step, Log.written]
      split <;> rfl
  | handler epBusy =>
      simp only [Log.step, Log.written]
      split
      · simp only [myudbToUsb]
        split
        · rfl
        · split <;> split <;> rfl
      · split <;> rfl
      · rfl
  | check =>
      simp only [Log.step, Log.written]
      split <;> rfl
  | locked =>
      simp only [Log.step, Log.written]
      split
      · split <;> rfl
      · rfl
  | txDone =>
      simp only [Log.step, Log.written]
      split
      · rfl
      · simp only [uart0IrqHandler]
        split
        · split <;> rfl
        · rfl

/-- The UART channel between two steps. -/
structure HandOff (l : Log) : Prop where
  inOrder : l.InOrder
  uart : l.ctl.dbgChn = .uart
  apart : l.collided = false
  busy : l.ctl.uartSendIsBusy = if l.inFlight.isSome then 1#8 else 0#8
  slot : ∀ d, l.inFlight = some d → d.pData = l.sys.fifo.addr (l.sys.fifo.rptr - 1)
  room : occupied l.sys.fifo.rptr l.sys.fifo.wptr + inFlightCount l ≤ l.sys.fifo.num
  printing : l.printing ≠ none →
    occupied l.sys.fifo.rptr l.sys.fifo.wptr + inFlightCount l < l.sys.fifo.num

theorem Log.InOrder.isSize {l : Log} (h : l.InOrder) : IsSize l.sys.fifo.num := by
  obtain ⟨done, waiting, h⟩ := h
  exact h.num

section steps

variable {l : Log}

/-- **A transfer started.**  None was in flight, and a record was pending. -/
theorem HandOff.start (h : HandOff l) (hidle : l.inFlight = none) (hne : l.Nonempty) :
    HandOff l.start where
  inOrder := h.inOrder.start hne
  uart := h.uart
  apart := by
    change (l.collided || l.inFlight.isSome) = false
    rw [h.apart, hidle]
    rfl
  busy := rfl
  slot := by
    intro d hd
    cases hd
    change _ = l.sys.fifo.addr (l.sys.fifo.rptr + 1 - 1)
    rw [BitVec.add_sub_cancel]
  room := by
    have hpop := occupied_pop (Ne.symm hne)
    have hroom := h.room
    change occupied (l.sys.fifo.rptr + 1) l.sys.fifo.wptr + 1 ≤ l.sys.fifo.num
    omega
  printing := by
    intro hprinting
    have hpop := occupied_pop (Ne.symm hne)
    have hroom := h.printing hprinting
    change occupied (l.sys.fifo.rptr + 1) l.sys.fifo.wptr + 1 < l.sys.fifo.num
    omega

/-- The transfer in flight ends. -/
theorem HandOff.finish (h : HandOff l) : HandOff { l with
    inFlight := none
    ctl := { l.ctl with uartSendIsBusy := 0#8 } } where
  inOrder := h.inOrder.congr rfl rfl rfl rfl rfl rfl
  uart := h.uart
  apart := h.apart
  busy := rfl
  slot := by
    intro d hd
    exact nomatch hd
  room := (Nat.le_add_right _ _).trans h.room
  printing := fun hprinting => (Nat.le_add_right _ _).trans_lt (h.printing hprinting)

theorem HandOff.txDone (h : HandOff l) : HandOff (l.step .txDone) := by
  rw [Log.step]
  split
  · exact h
  · rename_i d hd
    have hbusy : l.ctl.uartSendIsBusy = 1#8 := by
      rw [h.busy, hd]
      rfl
    rw [uart0IrqHandler, if_pos (by rw [hbusy]; decide)]
    dsimp only
    split
    · rename_i hne
      exact h.finish.start rfl hne
    · exact h.finish

theorem HandOff.locked (h : HandOff l) : HandOff (l.step .locked) := by
  have hlocked : HandOff { l with checked := false } :=
    ⟨h.inOrder.congr rfl rfl rfl rfl rfl rfl, h.uart, h.apart, h.busy, h.slot, h.room, h.printing⟩
  rw [Log.step]
  split
  · dsimp only
    split
    · rename_i hready
      -- the first look may be out of date, and the second one is what counts
      refine hlocked.start ?_ hready.2
      have hbusy : l.ctl.uartSendIsBusy = 0#8 := hready.1
      rw [h.busy] at hbusy
      cases hl : l.inFlight with
      | none => rfl
      | some d =>
          rw [hl, Option.isSome_some, if_pos rfl] at hbusy
          exact absurd hbusy (by decide)
    · exact hlocked
  · exact h

/-- The counters after a record is counted in. -/
theorem room_next {f : MyFifo} {n : Nat} (hnum : IsSize f.num)
    (h : occupied f.rptr f.wptr + n < f.num) : occupied f.rptr (f.wptr + 1) + n ≤ f.num := by
  have hle := hnum.le
  rw [occupied_push (by omega)]
  omega

theorem HandOff.send (h : HandOff l) {str : Option Memory} {pData : Memory} {dataLen : U32}
    (hroom : Room inFlightCount l (.send str pData dataLen)) :
    HandOff (l.step (.send str pData dataLen)) := by
  have hinOrder := h.inOrder.send hroom
  rw [Log.step] at hinOrder ⊢
  split
  · exact h
  · rename_i hprinting
    have hprinting := Option.not_isSome_iff_eq_none.mp hprinting
    rw [if_neg (by rw [hprinting]; decide), tlkapiSendStrData] at hinOrder
    rw [tlkapiSendStrData]
    cases hsent : sent l.ctl str pData dataLen with
    | none =>
        rw [hsent] at hinOrder
        exact ⟨hinOrder, h.uart, h.apart, h.busy, h.slot, h.room, h.printing⟩
    | some bs =>
        rw [hsent] at hinOrder
        have hret := not_long_of_sent hsent
        have hspace := (hroom hprinting hret).1
        exact ⟨hinOrder, h.uart, h.apart, h.busy, h.slot, room_next h.inOrder.isSize hspace,
          fun hne => absurd hprinting hne⟩

theorem HandOff.printf (h : HandOff l) {text : List U8}
    (hroom : Room inFlightCount l (.printf text)) : HandOff (l.step (.printf text)) := by
  have hinOrder := h.inOrder.step hroom
  rw [Log.step] at hinOrder ⊢
  split
  · exact h
  · rename_i hprinting
    have hprinting := Option.not_isSome_iff_eq_none.mp hprinting
    rw [if_neg (by rw [hprinting]; decide)] at hinOrder
    exact ⟨hinOrder, h.uart, h.apart, h.busy, h.slot, h.room, fun _ => hroom hprinting⟩

theorem HandOff.printfNext (h : HandOff l) : HandOff (l.step .printfNext) := by
  have hinOrder : (l.step .printfNext).InOrder :=
    h.inOrder.step (show Room inFlightCount l .printfNext from trivial)
  cases hprinting : l.printing with
  | none =>
      have hstep : l.step .printfNext = l := by rw [Log.step, hprinting]
      rw [hstep]
      exact h
  | some bs =>
      have hspace := h.printing (by rw [hprinting]; exact Option.some_ne_none bs)
      rw [Log.step, hprinting] at hinOrder ⊢
      exact ⟨hinOrder, h.uart, h.apart, h.busy, h.slot, room_next h.inOrder.isSize hspace,
        fun hne => absurd rfl hne⟩

/-- **One step.** -/
theorem HandOff.step (h : HandOff l) {op : Op} (hroom : Room inFlightCount l op) :
    HandOff (l.step op) := by
  cases op with
  | send str pData dataLen => exact h.send hroom
  | printf text => exact h.printf hroom
  | printfNext => exact h.printfNext
  | handler epBusy =>
      rw [Log.step, h.uart]
      exact h
  | check =>
      rw [Log.step]
      split
      · exact ⟨h.inOrder.congr rfl rfl rfl rfl rfl rfl, h.uart, h.apart, h.busy, h.slot, h.room,
          h.printing⟩
      · exact h
  | locked => exact h.locked
  | txDone => exact h.txDone

/-- The slot of `wptr` is not the one before `rptr` while another slot is free. -/
theorem slot_ne {num : Nat} (hnum : IsSize num) {r w : U8} (h : occupied r w + 1 < num) :
    Ring.slot num w ≠ Ring.slot num (r - 1) := by
  intro heq
  -- counted from `r - 1` on, the two are `0` and `occupied r w + 1`
  have hr : r - 1 + BitVec.ofNat 8 0 = r - 1 := BitVec.add_zero _
  have hw : r - 1 + BitVec.ofNat 8 (occupied r w + 1) = w := by
    rw [← add_ofNat_succ, BitVec.sub_add_cancel, add_occupied]
  have hinj := slot_inj hnum h hnum.pos (hw.symm ▸ hr.symm ▸ heq)
  exact Nat.succ_ne_zero _ hinj

theorem written_apart {f : MyFifo} (hnum : IsSize f.num)
    (h : occupied f.rptr f.wptr + 1 < f.num) {bs : List U8} (hbs : bs.length ≤ f.size) :
    f.addr f.wptr + bs.length ≤ f.addr (f.rptr - 1) ∨
      f.addr (f.rptr - 1) + f.size ≤ f.addr f.wptr := by
  simp only [MyFifo.addr]
  rcases Nat.lt_or_gt_of_ne (slot_ne hnum h) with hlt | hgt
  · have hapart := slot_apart hlt f.size
    exact .inl (by omega)
  · have hapart := slot_apart hgt f.size
    exact .inr (by omega)

theorem HandOff.untouched (h : HandOff l) {op : Op} (hroom : Room inFlightCount l op) :
    Untouched l op := by
  intro a bs d hwritten hd
  have hone : inFlightCount l = 1 := by
    rw [inFlightCount, hd]
    rfl
  obtain ⟨done, waiting, hinOrder⟩ := h.inOrder
  -- the slot in flight is the one before `rptr`, and a producer writes that of `wptr`
  rw [h.slot d hd]
  cases op with
  | send str pData dataLen =>
      rw [Log.written] at hwritten
      split at hwritten
      · exact nomatch hwritten
      · rename_i hprinting
        obtain ⟨bs', hsent, heq⟩ := Option.map_eq_some_iff.mp hwritten
        cases heq
        have hret := not_long_of_sent hsent
        obtain ⟨hspace, hslot⟩ := hroom (Option.not_isSome_iff_eq_none.mp hprinting) hret
        have hbs := (length_sent_le_iff hinOrder.configured hinOrder.size hsent).mpr hslot
        exact written_apart hinOrder.num (hone ▸ hspace) hbs
  | printf text =>
      rw [Log.written] at hwritten
      split at hwritten
      · exact nomatch hwritten
      · rename_i hprinting
        cases hwritten
        have hspace := hroom (Option.not_isSome_iff_eq_none.mp hprinting)
        have hbs := length_printed hinOrder.configured hinOrder.size text
        exact written_apart hinOrder.num (hone ▸ hspace) hbs
  | printfNext | handler _ | check | locked | txDone => exact nomatch hwritten

end steps

/-! ### The hand-over -/

/-- What a step does with the UART: nothing; the end of the transfer in flight; or one hand-over,
`uart_debug_prepare_dma_data (pData + 4, pData[0])` of the oldest slot in use, which is counted
out. -/
def HandsOver (l : Log) (op : Op) : Prop :=
  ((l.step op).handed = l.handed ∧ (l.step op).sys.fifo.rptr = l.sys.fifo.rptr ∧
    ((l.step op).inFlight = l.inFlight ∨ op = .txDone ∧ (l.step op).inFlight = none)) ∨
  (l.Nonempty ∧ (l.inFlight = none ∨ op = .txDone) ∧
    (l.step op).sys.fifo.rptr = l.sys.fifo.rptr + 1 ∧
    (l.step op).handed = l.handed ++ [l.sys.slots (Ring.slot l.sys.fifo.num l.sys.fifo.rptr)] ∧
    (l.step op).inFlight = some ⟨l.sys.fifo.addr l.sys.fifo.rptr,
      (l.sys.mem (l.sys.fifo.addr l.sys.fifo.rptr)).toNat⟩)

section handover

variable {l : Log}

theorem HandOff.idle_iff (h : HandOff l) : l.ctl.uartSendIsBusy = 0#8 ↔ l.inFlight = none := by
  rw [h.busy]
  cases l.inFlight with
  | none => exact ⟨fun _ => rfl, fun _ => rfl⟩
  | some d =>
      rw [Option.isSome_some, if_pos rfl]
      exact ⟨fun hz => absurd hz (by decide), fun hn => absurd hn (Option.some_ne_none d)⟩

/-- The interrupt, when a record is pending. -/
theorem HandOff.txDone_start (h : HandOff l) (hflight : l.inFlight ≠ none) (hne : l.Nonempty) :
    l.step .txDone = Log.start { l with
      inFlight := none
      ctl := { l.ctl with uartSendIsBusy := 0#8 } } := by
  have hbusy : l.ctl.uartSendIsBusy ≠ 0#8 := fun hz => hflight (h.idle_iff.mp hz)
  rw [Log.step]
  split
  · rename_i hnone
    exact absurd hnone hflight
  · rw [uart0IrqHandler, if_pos hbusy]
    exact if_pos hne

theorem HandOff.handsOver (h : HandOff l) (op : Op) : HandsOver l op := by
  cases op with
  | send str pData dataLen =>
      refine .inl ?_
      rw [Log.step, tlkapiSendStrData]
      split
      · exact ⟨rfl, rfl, .inl rfl⟩
      · cases sent l.ctl str pData dataLen <;> exact ⟨rfl, rfl, .inl rfl⟩
  | printf text =>
      refine .inl ?_
      rw [Log.step]
      split <;> exact ⟨rfl, rfl, .inl rfl⟩
  | printfNext =>
      refine .inl ?_
      rw [Log.step]
      cases l.printing <;> exact ⟨rfl, rfl, .inl rfl⟩
  | handler epBusy =>
      refine .inl ?_
      rw [Log.step, h.uart]
      exact ⟨rfl, rfl, .inl rfl⟩
  | check =>
      refine .inl ?_
      rw [Log.step]
      split <;> exact ⟨rfl, rfl, .inl rfl⟩
  | locked =>
      rw [HandsOver, Log.step]
      split
      · dsimp only
        split
        · rename_i hready
          exact .inr ⟨hready.2, .inl (h.idle_iff.mp hready.1), rfl, rfl, rfl⟩
        · exact .inl ⟨rfl, rfl, .inl rfl⟩
      · exact .inl ⟨rfl, rfl, .inl rfl⟩
  | txDone =>
      by_cases hflight : l.inFlight = none
      · refine .inl ?_
        rw [Log.step, hflight]
        exact ⟨rfl, rfl, .inl hflight⟩
      · by_cases hne : l.Nonempty
        · rw [HandsOver, h.txDone_start hflight hne]
          exact .inr ⟨hne, .inr rfl, rfl, rfl, rfl⟩
        · have hbusy : l.ctl.uartSendIsBusy ≠ 0#8 := fun hz => hflight (h.idle_iff.mp hz)
          refine .inl ?_
          rw [Log.step]
          split
          · rename_i hnone
            exact absurd hnone hflight
          · rw [uart0IrqHandler, if_pos hbusy]
            dsimp only
            rw [if_neg (by exact hne)]
            exact ⟨rfl, rfl, .inr ⟨rfl, rfl⟩⟩

/-! ### Every record is handed over -/

theorem HandsOver.le {op : Op} (h : HandsOver l op) :
    l.handed.length ≤ (l.step op).handed.length := by
  rcases h with ⟨hhanded, -⟩ | ⟨-, -, -, hhanded, -⟩
  · rw [hhanded]
  · rw [hhanded, List.length_append]
    exact Nat.le_add_right _ _

/-- A producer counts in one record at most, for which there is a slot. -/
theorem HandOff.wptr_step (h : HandOff l) {op : Op} (hroom : Room inFlightCount l op) :
    (l.step op).sys.fifo.wptr = l.sys.fifo.wptr ∨
      occupied l.sys.fifo.rptr l.sys.fifo.wptr < l.sys.fifo.num ∧
        (l.step op).sys.fifo.wptr = l.sys.fifo.wptr + 1 := by
  cases op with
  | send str pData dataLen =>
      rw [Log.step, tlkapiSendStrData]
      split
      · exact .inl rfl
      · rename_i hprinting
        cases hsent : sent l.ctl str pData dataLen with
        | none => exact .inl rfl
        | some bs =>
            have hspace := hroom (Option.not_isSome_iff_eq_none.mp hprinting)
              (not_long_of_sent hsent)
            exact .inr ⟨Nat.lt_of_add_right_lt hspace.1, rfl⟩
  | printf text =>
      rw [Log.step]
      split <;> exact .inl rfl
  | printfNext =>
      rw [Log.step]
      cases hprinting : l.printing with
      | none => exact .inl rfl
      | some bs =>
          have hspace := h.printing (by rw [hprinting]; exact Option.some_ne_none bs)
          exact .inr ⟨Nat.lt_of_add_right_lt hspace, rfl⟩
  | handler epBusy =>
      rw [Log.step, h.uart]
      exact .inl rfl
  | check =>
      rw [Log.step]
      split <;> exact .inl rfl
  | locked =>
      rw [Log.step]
      split
      · dsimp only
        split <;> exact .inl rfl
      · exact .inl rfl
  | txDone =>
      rw [Log.step]
      split
      · exact .inl rfl
      · rw [uart0IrqHandler]
        dsimp only
        split
        · split <;> exact .inl rfl
        · exact .inl rfl

/-- A record that is not handed over stays pending. -/
theorem HandOff.stays (h : HandOff l) {op : Op} (hroom : Room inFlightCount l op)
    (hne : l.Nonempty) (hrptr : (l.step op).sys.fifo.rptr = l.sys.fifo.rptr) :
    (l.step op).Nonempty := by
  intro heq
  rw [hrptr] at heq
  rcases h.wptr_step hroom with hsame | ⟨hspace, hnext⟩
  · exact hne (hsame.symm.trans heq)
  · have hle := h.inOrder.isSize.le
    have hpush := occupied_push (r := l.sys.fifo.rptr) (w := l.sys.fifo.wptr) (by omega)
    rw [← hnext, heq, occupied_self] at hpush
    exact absurd hpush.symm (Nat.succ_ne_zero _)

/-- The look of the handler stays good until its locked section. -/
theorem checked_step (l : Log) {op : Op} (hop : op ≠ .locked) (hchecked : l.checked = true) :
    (l.step op).checked = true := by
  cases op with
  | send str pData dataLen | printf text =>
      rw [Log.step]
      split <;> exact hchecked
  | printfNext =>
      rw [Log.step]
      cases l.printing <;> exact hchecked
  | handler epBusy =>
      rw [Log.step]
      split
      · rw [myudbToUsb]
        split
        · exact hchecked
        · dsimp only
          split <;> split <;> exact hchecked
      · split <;> exact hchecked
      · exact hchecked
  | check =>
      rw [Log.step]
      split
      · rfl
      · exact hchecked
  | locked => exact absurd rfl hop
  | txDone =>
      rw [Log.step]
      split
      · exact hchecked
      · rw [uart0IrqHandler]
        dsimp only
        split
        · split <;> exact hchecked
        · exact hchecked

theorem next_ne (c : U8) : c + 1 ≠ c := by
  intro h
  bv_omega

/-- **A step that hands nothing over.**  The record stays pending, and the UART as it is: a transfer
in flight does not end, and with none in flight the handler does not come to its locked section. -/
theorem HandOff.stall (h : HandOff l) {op : Op} (hroom : Room inFlightCount l op)
    (hne : l.Nonempty) (hsame : (l.step op).handed.length = l.handed.length) :
    (l.step op).Nonempty ∧ (l.step op).inFlight = l.inFlight ∧
      (l.inFlight ≠ none → op ≠ .txDone) ∧
      (l.inFlight = none → l.checked = true → op ≠ .locked) := by
  rcases h.handsOver op with ⟨-, hrptr, hflight⟩ | ⟨-, -, -, hhanded, -⟩
  · have hend : l.inFlight ≠ none → op ≠ .txDone := by
      rintro hsome rfl
      rw [h.txDone_start hsome hne] at hrptr
      exact absurd hrptr (next_ne _)
    refine ⟨h.stays hroom hne hrptr, ?_, hend, ?_⟩
    · rcases hflight with heq | ⟨rfl, hnone⟩
      · exact heq
      · by_contra hchange
        exact hend (fun hn => hchange (hnone.trans hn.symm)) rfl
    · rintro hnone hchecked rfl
      have hready : Log.Ready { l with checked := false } := ⟨h.idle_iff.mpr hnone, hne⟩
      rw [Log.step, if_pos hchecked] at hrptr
      dsimp only at hrptr
      rw [if_pos hready] at hrptr
      exact absurd hrptr (next_ne _)
  · rw [hhanded, List.length_append] at hsame
    exact absurd hsame (Nat.succ_ne_self _)

theorem handed_le {ops : List Op} (h : HandOff l)
    (hroom : Along Log.step (Room inFlightCount) l ops) :
    l.handed.length ≤ (runFrom Log.step l ops).handed.length := by
  induction ops generalizing l with
  | nil => exact Nat.le_refl _
  | cons op ops ih =>
      obtain ⟨hop, hroom⟩ := along_cons.mp hroom
      exact (h.handsOver op).le.trans (ih (h.step hop) hroom)

/-- A run that hands nothing over while a record is pending. -/
theorem HandOff.stalled {ops : List Op} (h : HandOff l)
    (hroom : Along Log.step (Room inFlightCount) l ops) (hne : l.Nonempty)
    (hsame : (runFrom Log.step l ops).handed.length ≤ l.handed.length) :
    (runFrom Log.step l ops).Nonempty ∧ (runFrom Log.step l ops).inFlight = l.inFlight ∧
      (l.inFlight ≠ none → .txDone ∉ ops) ∧
      (l.inFlight = none → l.checked = true → .locked ∉ ops) := by
  induction ops generalizing l with
  | nil =>
      exact ⟨hne, rfl, fun _ => List.not_mem_nil, fun _ _ => List.not_mem_nil⟩
  | cons op ops ih =>
      obtain ⟨hop, hroom⟩ := along_cons.mp hroom
      have hfirst := (h.handsOver op).le
      have hrest := handed_le (h.step hop) hroom
      rw [runFrom_cons] at hsame ⊢
      obtain ⟨hne', hflight, hend, hlocked⟩ := h.stall hop hne (by omega)
      obtain ⟨hne'', hflight', hend', hlocked'⟩ := ih (h.step hop) hroom hne' (by omega)
      rw [hflight] at hflight' hend' hlocked'
      refine ⟨hne'', hflight', fun hsome => ?_, fun hnone hchecked => ?_⟩
      · exact List.not_mem_cons_of_ne_of_not_mem (hend hsome).symm (hend' hsome)
      · have hne := hlocked hnone hchecked
        exact List.not_mem_cons_of_ne_of_not_mem hne.symm
          (hlocked' hnone (checked_step l hne hchecked))

/-- A transfer ends, if one is in flight; and the handler is called, and is not kept from its
locked section. -/
def Round (r : List Op) : Prop :=
  .txDone ∈ r ∧ ∃ before after, r = before ++ .check :: after ∧ .locked ∈ after

/-- **A round hands over a record**, whatever comes in between. -/
theorem HandOff.round (h : HandOff l) {r : List Op} (hr : Round r)
    (hroom : Along Log.step (Room inFlightCount) l r) (hne : l.Nonempty) :
    l.handed.length < (runFrom Log.step l r).handed.length := by
  obtain ⟨hdone, before, after, rfl, hlocked⟩ := hr
  by_contra hge
  have hsame := Nat.le_of_not_lt hge
  by_cases hflight : l.inFlight = none
  · obtain ⟨hbefore, hafter⟩ := along_append.mp hroom
    obtain ⟨hop, hafter⟩ := along_cons.mp hafter
    have h₁ : HandOff (runFrom Log.step l before) :=
      hbefore.invariant (fun _ _ h hop => h.step hop) h
    have h₂ := h₁.step hop
    have hle₁ := handed_le h hbefore
    have hle₂ := (h₁.handsOver .check).le
    have hle₃ := handed_le h₂ hafter
    rw [runFrom_append, runFrom_cons] at hsame
    obtain ⟨hne₁, hflight₁, -⟩ := h.stalled hbefore hne (by omega)
    rw [hflight] at hflight₁
    have hready : (runFrom Log.step l before).Ready := ⟨h₁.idle_iff.mpr hflight₁, hne₁⟩
    have hcheck : (runFrom Log.step l before).step .check =
        { runFrom Log.step l before with checked := true } := by
      rw [Log.step, if_pos ⟨h₁.uart, hready⟩]
    obtain ⟨hne₂, hflight₂, -⟩ := h₁.stall hop hne₁ (by omega)
    refine (h₂.stalled hafter hne₂ (by omega)).2.2.2 (hflight₂.trans hflight₁) ?_ hlocked
    rw [hcheck]
  · exact (h.stalled hroom hne hsame).2.2.1 hflight hdone

theorem HandOff.length_eq (h : HandOff l) : l.produced.length =
    l.handed.length + occupied l.sys.fifo.rptr l.sys.fifo.wptr := by
  obtain ⟨done, waiting, hinOrder⟩ := h.inOrder
  rw [hinOrder.produced, List.length_append, hinOrder.handed.length_eq, hinOrder.pending.length_eq,
    Sys.pending, length_pending]

theorem produced_le (l : Log) (op : Op) : l.produced.length ≤ (l.step op).produced.length := by
  cases op with
  | send str pData dataLen =>
      rw [Log.step]
      split
      · exact Nat.le_refl _
      · dsimp only
        rw [List.length_append]
        exact Nat.le_add_right _ _
  | printf text =>
      rw [Log.step]
      split <;> exact Nat.le_refl _
  | printfNext =>
      rw [Log.step]
      cases l.printing with
      | none => exact Nat.le_refl _
      | some bs =>
          dsimp only
          rw [List.length_append]
          exact Nat.le_add_right _ _
  | handler epBusy =>
      rw [Log.step]
      split
      · rw [myudbToUsb]
        split
        · exact Nat.le_refl _
        · dsimp only
          split <;> split <;> exact Nat.le_refl _
      · split <;> exact Nat.le_refl _
      · exact Nat.le_refl _
  | check =>
      rw [Log.step]
      split <;> exact Nat.le_refl _
  | locked =>
      rw [Log.step]
      split
      · dsimp only
        split <;> exact Nat.le_refl _
      · exact Nat.le_refl _
  | txDone =>
      rw [Log.step]
      split
      · exact Nat.le_refl _
      · rw [uart0IrqHandler]
        dsimp only
        split
        · split <;> exact Nat.le_refl _
        · exact Nat.le_refl _

theorem produced_run (l : Log) (ops : List Op) :
    l.produced.length ≤ (runFrom Log.step l ops).produced.length := by
  induction ops generalizing l with
  | nil => exact Nat.le_refl _
  | cons op ops ih => exact (produced_le l op).trans (ih _)

/-- **As many rounds as records.**  The first `n` records produced are handed over. -/
theorem HandOff.rounds {rounds : List (List Op)} (hrounds : ∀ r ∈ rounds, Round r) {n : Nat}
    (h : HandOff l) (hroom : Along Log.step (Room inFlightCount) l rounds.flatten)
    (hn : n ≤ l.produced.length) (hmany : n ≤ l.handed.length + rounds.length) :
    n ≤ (runFrom Log.step l rounds.flatten).handed.length := by
  induction rounds generalizing l with
  | nil => exact hmany
  | cons r rounds ih =>
      rw [List.flatten_cons] at hroom ⊢
      obtain ⟨hr, hrest⟩ := along_append.mp hroom
      have h' : HandOff (runFrom Log.step l r) := hr.invariant (fun _ _ h hop => h.step hop) h
      rw [runFrom_append]
      refine ih (fun r' hr' => hrounds r' (List.mem_cons_of_mem r hr')) h' hrest
        (hn.trans (produced_run l r)) ?_
      rw [List.length_cons] at hmany
      have hle := handed_le h hr
      by_cases hne : l.Nonempty
      · have hlt := h.round (hrounds r List.mem_cons_self) hr hne
        omega
      · have hlen := h.length_eq
        have hnone : l.sys.fifo.rptr = l.sys.fifo.wptr := (not_not.mp hne).symm
        rw [hnone, occupied_self] at hlen
        omega

end handover

/-! ### Runs -/

theorem handOff_init (g : TlkDbg) {f : MyFifo} (hnum : IsSize f.num) (hsize : 16 ≤ f.size)
    (m : Memory) : HandOff (Log.init .uart g f m) where
  inOrder := inOrder_init .uart g hnum hsize m
  uart := rfl
  apart := rfl
  busy := rfl
  slot := by
    intro d hd
    exact nomatch hd
  room := by
    change occupied 0#8 0#8 + 0 ≤ f.num
    rw [occupied_self]
    exact Nat.zero_le _
  printing := by
    intro hne
    exact absurd rfl hne

/-- **Each record once.**  In every run whose producers leave a slot free for the transfer in
flight, and write inside their slot, the records handed to the UART are the first ones produced,
each once and in order; a step hands over one record at most, the oldest pending, by one call of
`uart_debug_prepare_dma_data`; no transfer is started during another; `uartSendIsBusy` is 1 just
while one is in flight; and no step writes into its slot.  After as many rounds as there are records
pending, whatever the producers do meanwhile, all of them are handed over. -/
theorem each_once (g : TlkDbg) {f : MyFifo} (hnum : IsSize f.num) (hsize : 16 ≤ f.size)
    (m : Memory) {ops : List Op}
    (hroom : Along Log.step (Room inFlightCount) (Log.init .uart g f m) ops) :
    let l := runFrom Log.step (Log.init .uart g f m) ops
    (∃ done waiting, l.produced = done ++ waiting ∧ List.Forall₂ (· <+: ·) done l.handed ∧
        List.Forall₂ (· <+: ·) waiting l.sys.pending) ∧
      l.collided = false ∧ (l.ctl.uartSendIsBusy = 1#8 ↔ l.inFlight.isSome) ∧
      Along Log.step (fun l op => HandsOver l op ∧ Untouched l op) (Log.init .uart g f m) ops ∧
      ∀ rounds : List (List Op), (∀ r ∈ rounds, Round r) →
        Along Log.step (Room inFlightCount) l rounds.flatten →
          l.sys.pending.length ≤ rounds.length →
            l.produced.length ≤ (runFrom Log.step l rounds.flatten).handed.length := by
  intro l
  have hinit := handOff_init g hnum hsize m
  have hrun : HandOff l := hroom.invariant (fun l op h hop => h.step hop) hinit
  obtain ⟨done, waiting, hinOrder⟩ := hrun.inOrder
  refine ⟨⟨done, waiting, hinOrder.produced, hinOrder.handed, hinOrder.pending⟩, hrun.apart, ?_,
    hroom.derive (fun l op h hop => h.step hop)
      (fun l op h hop => ⟨h.handsOver op, h.untouched hop⟩) hinit, ?_⟩
  · rw [hrun.busy]
    cases l.inFlight with
    | none => decide
    | some d => exact ⟨fun _ => rfl, fun _ => rfl⟩
  · intro rounds hrounds hmore hmany
    have hlen := hrun.length_eq
    rw [Sys.pending, length_pending] at hmany
    exact hrun.rounds hrounds hmore (Nat.le_refl _) (by omega)

/-- Three records.  The main loop has looked at the FIFO when the second comes, and the transfer of
the first ends by the interrupt; one round later the third is handed over as well. -/
theorem each_once_three :
    let ops : List Op := [.send none (fun _ => 1#8) 1#32, .check, .send none (fun _ => 2#8) 1#32,
      .locked, .send none (fun _ => 3#8) 1#32, .check, .txDone]
    let l := runFrom Log.step (Log.init .uart zeroCtl printFifo fun _ => 0#8) ops
    l.handed.length = 2 ∧ l.collided = false ∧
      l.produced.length ≤ (runFrom Log.step l [.check, .locked, .txDone]).handed.length := by
  intro ops l
  have hnum : IsSize printFifo.num := ⟨4, by decide, rfl⟩
  have hroom : Along Log.step (Room inFlightCount) (Log.init .uart zeroCtl printFifo fun _ => 0#8)
      ops := by decide +kernel
  obtain ⟨-, hapart, -, -, hrounds⟩ := each_once zeroCtl hnum (by decide) (fun _ => 0#8) hroom
  have hround : Round [.check, .locked, .txDone] :=
    ⟨by simp, [], [.locked, .txDone], rfl, List.mem_cons_self⟩
  refine ⟨by decide +kernel, hapart, hrounds [[.check, .locked, .txDone]] ?_ (by decide +kernel)
    (by decide +kernel)⟩
  intro r hr
  exact List.mem_singleton.mp hr ▸ hround

end TelinkB91.Debug
