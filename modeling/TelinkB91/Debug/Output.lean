import TelinkB91.Debug.Print
import TelinkB91.Lib.Runs

/-!
# Debug — the order of the log

The producers, `tlkapi_send_str_data` and `my_printf`, put records into the print FIFO, and the
output takes them out: `tlkapi_debug_handler` on all channels, and on the UART channel also the
interrupt at the end of a transfer.  No producer looks whether there is room.  With as many records
pending as there are slots, the next one is written over the oldest.

`Log` is the FIFO with the output, and it keeps the records produced and handed out.
`my_printf` is not locked: it writes its record and counts it in by two steps, between which the
interrupt may come.

* `InOrder.step`: where a producer finds room, one step keeps the records handed out and pending
  those produced, in order.
* `handed_in_order`: so does a run, and the FIFO is reported busy while records are pending.
* `repeated`: seventeen records in sixteen slots.
-/

namespace TelinkB91.Debug
open ByteMemory Fifo Ring Runs

/-- A transfer started by `uart_debug_prepare_dma_data (pData + 4, len)`. -/
structure Dma where
  pData : Nat
  len : Nat
  deriving DecidableEq, Repr

/-- The print FIFO and the output.  `inFlight` is the transfer the UART is at; `collided` says that
one was started while another was.  `usb` is `p` and `len` of `myudb_to_usb`.  `checked` is set when
the handler has passed its first look, without the lock, and `printing` holds the record of a
`my_printf` that is not counted in. -/
structure Log where
  ctl : TlkDbg
  sys : Sys
  inFlight : Option Dma
  collided : Bool
  usb : Option (Nat × Nat)
  checked : Bool
  printing : Option (List U8)
  handed : List (List U8)
  produced : List (List U8)

/-- `tlkapi_debug_init`, with nothing under way. -/
def Log.init (chn : Channel) (g : TlkDbg) (f : MyFifo) (m : Memory) : Log where
  ctl := (tlkapiDebugInit chn g f).1
  sys := ⟨(tlkapiDebugInit chn g f).2, m⟩
  inFlight := none
  collided := false
  usb := none
  checked := false
  printing := none
  handed := []
  produced := []

/-- What `my_printf` writes for the formatted text.  `vsnprintf` stops at `fifo_data_len` and ends
with a zero byte, and returns the length of the whole text. -/
def printed (g : TlkDbg) (text : List U8) : List U8 :=
  let n := g.fifoDataLen.toNat
  let out := if n = 0 then [] else text.take (n - 1) ++ [0#8]
  match g.dbgChn with
  | .udb =>
      let len := text.length + 5
      [BitVec.ofNat 8 len, BitVec.ofNat 8 (len >>> 8), 0#8, 0#8, 0x82#8, 8#8, 0x22#8, 0#8, 0#8] ++
        out
  | .gsuart | .uart =>
      let len := text.length
      [BitVec.ofNat 8 len, BitVec.ofNat 8 (len >>> 8), 0#8, 0#8] ++ out

/-- `rptr++`: the record in the slot of `rptr` is handed out. -/
def Log.pop (l : Log) : Log :=
  { l with
    sys := { l.sys with fifo := myFifoPop l.sys.fifo }
    handed := l.handed ++ [l.sys.slots (slot l.sys.fifo.num l.sys.fifo.rptr)] }

/-- `tlkapi_print_fifo->wptr != tlkapi_print_fifo->rptr`. -/
def Log.Nonempty (l : Log) : Prop := l.sys.fifo.wptr ≠ l.sys.fifo.rptr

instance (l : Log) : Decidable l.Nonempty := inferInstanceAs (Decidable (_ ≠ _))

/-- `uart_debug_prepare_dma_data (pData + 4, pData[0])` for the slot of `rptr`. -/
def Log.prepareDma (l : Log) : Log :=
  let pData := l.sys.fifo.addr l.sys.fifo.rptr
  { l with
    inFlight := some ⟨pData, (l.sys.mem pData).toNat⟩
    collided := l.collided || l.inFlight.isSome }

/-- A record handed to the UART. -/
def Log.start (l : Log) : Log :=
  { l.prepareDma.pop with ctl := { l.ctl with uartSendIsBusy := 1#8 } }

/-- `uart0_irq_handler` at the end of the transfer. -/
def uart0IrqHandler (l : Log) : Log :=
  if l.ctl.uartSendIsBusy ≠ 0#8 then
    let l := { l with ctl := { l.ctl with uartSendIsBusy := 0#8 } }
    if l.Nonempty then l.start else l
  else l

/-- `!tlkDbgCtl.uartSendIsBusy` and a record pending. -/
def Log.Ready (l : Log) : Prop := l.ctl.uartSendIsBusy = 0#8 ∧ l.Nonempty

instance (l : Log) : Decidable l.Ready := inferInstanceAs (Decidable (_ ∧ _))

/-- `myudb_to_usb`. -/
def myudbToUsb (l : Log) (epBusy : Bool) : Log :=
  if epBusy then l
  else
    let l := if l.usb = none ∧ l.Nonempty then
        let p := l.sys.fifo.addr l.sys.fifo.rptr
        { l.pop with usb := some (p + 4, (l.sys.mem p).toNat + (l.sys.mem (p + 1)).toNat * 256) }
      else l
    match l.usb with
    | none => l
    | some (p, len) => { l with usb := if min len 64 < 64 then none else some (p + 64, len - 64) }

/-- A step: a producer; the two halves of a `my_printf`; the handler of the USB and the GPIO
channel; the first look of the handler of the UART channel, and its locked section; the end of a
transfer. -/
inductive Op where
  | send (str : Option Memory) (pData : Memory) (dataLen : U32)
  | printf (text : List U8)
  | printfNext
  | handler (epBusy : Bool)
  | check
  | locked
  | txDone

/-- A step that is not possible leaves everything as it is: producers do not interrupt each other,
and no transfer ends that was not started. -/
def Log.step (l : Log) : Op → Log
  | .send str pData dataLen =>
      if l.printing.isSome then l
      else
        { l with
          sys := tlkapiSendStrData l.ctl l.sys str pData dataLen
          produced := l.produced ++ (sent l.ctl str pData dataLen).toList }
  | .printf text =>
      if l.printing.isSome then l
      else { l with sys := l.sys.fill (printed l.ctl text), printing := some (printed l.ctl text) }
  | .printfNext =>
      match l.printing with
      | none => l
      | some bs =>
          { l with
            sys := { l.sys with fifo := myFifoNext l.sys.fifo }
            printing := none
            produced := l.produced ++ [bs] }
  | .handler epBusy =>
      match l.ctl.dbgChn with
      | .udb => myudbToUsb l epBusy
      | .gsuart => if l.Nonempty then l.pop else l
      | .uart => l
  | .check => if l.ctl.dbgChn = .uart ∧ l.Ready then { l with checked := true } else l
  | .locked =>
      if l.checked then
        let l := { l with checked := false }
        if l.Ready then l.start else l
      else l
  | .txDone =>
      match l.inFlight with
      -- the interrupt is raised by a transfer only
      | none => l
      | some _ => uart0IrqHandler { l with inFlight := none }

/-- `tlkapi_debug_isBusy`. -/
def tlkapiDebugIsBusy (l : Log) : Prop :=
  (l.ctl.dbgChn = .uart ∧ l.ctl.uartSendIsBusy ≠ 0#8) ∨ l.Nonempty

instance (l : Log) : Decidable (tlkapiDebugIsBusy l) := inferInstanceAs (Decidable ((_ ∧ _) ∨ _))

/-- A producer finds `extra` slots free besides the one it writes, and a record of
`tlkapi_send_str_data` stays in its slot. -/
def Room (extra : Log → Nat) (l : Log) : Op → Prop
  | .send str _ dataLen => l.printing = none → ¬ dataLen > 500#32 →
      occupied l.sys.fifo.rptr l.sys.fifo.wptr + extra l < l.sys.fifo.num ∧
        InSlot l.ctl.dbgChn l.sys.fifo.size str dataLen
  | .printf _ => l.printing = none →
      occupied l.sys.fifo.rptr l.sys.fifo.wptr + extra l < l.sys.fifo.num
  | _ => True

instance (extra : Log → Nat) (l : Log) (op : Op) : Decidable (Room extra l op) := by
  cases op <;> unfold Room <;> infer_instance

/-! ### One step -/

/-- The records `done` are handed out and the records `waiting` are pending. -/
structure InOrder (l : Log) (done waiting : List (List U8)) : Prop where
  num : IsSize l.sys.fifo.num
  size : 16 ≤ l.sys.fifo.size
  configured : Configured l.ctl.dbgChn l.ctl l.sys.fifo
  produced : l.produced = done ++ waiting
  handed : List.Forall₂ (· <+: ·) done l.handed
  pending : List.Forall₂ (· <+: ·) waiting l.sys.pending
  printing : ∀ bs, l.printing = some bs →
    occupied l.sys.fifo.rptr l.sys.fifo.wptr < l.sys.fifo.num ∧
      bs <+: l.sys.slots (slot l.sys.fifo.num l.sys.fifo.wptr)

theorem length_printed {chn : Channel} {g : TlkDbg} {f : MyFifo} (hg : Configured chn g f)
    (hsize : 16 ≤ f.size) (text : List U8) : (printed g text).length ≤ f.size := by
  have hn : g.fifoDataLen.toNat ≤ f.size - chn.formatLen.toNat := by
    have hle : chn.formatLen.toNat ≤ f.size :=
      Nat.le_trans chn.formatLen_le (Nat.le_trans (by decide) hsize)
    rw [hg.fifoDataLen, toNat_dataLen hle]
    exact Nat.mod_le _ _
  have hout : (if g.fifoDataLen.toNat = 0 then [] else
      text.take (g.fifoDataLen.toNat - 1) ++ [0#8]).length ≤ g.fifoDataLen.toNat := by
    split
    · exact Nat.zero_le _
    · rw [List.length_append, List.length_singleton, List.length_take]
      omega
  rw [printed, hg.dbgChn]
  cases chn with
  | udb =>
      have hformat : (Channel.formatLen .udb).toNat = 12 := rfl
      simp only [List.length_append, List.length_cons, List.length_nil]
      omega
  | gsuart =>
      have hformat : (Channel.formatLen .gsuart).toNat = 8 := rfl
      simp only [List.length_append, List.length_cons, List.length_nil]
      omega
  | uart =>
      have hformat : (Channel.formatLen .uart).toNat = 8 := rfl
      simp only [List.length_append, List.length_cons, List.length_nil]
      omega

section steps

variable {l : Log} {done waiting : List (List U8)}

/-- What the handing-out does not look at. -/
theorem InOrder.congr (h : InOrder l done waiting) {l' : Log} (hsys : l'.sys = l.sys)
    (hhanded : l'.handed = l.handed) (hproduced : l'.produced = l.produced)
    (hprinting : l'.printing = l.printing) (hchn : l'.ctl.dbgChn = l.ctl.dbgChn)
    (hlen : l'.ctl.fifoDataLen = l.ctl.fifoDataLen) : InOrder l' done waiting where
  num := hsys ▸ h.num
  size := hsys ▸ h.size
  configured := by
    rw [hsys, hchn]
    exact ⟨hchn, hlen.trans h.configured.fifoDataLen⟩
  produced := hproduced ▸ h.produced
  handed := hhanded ▸ h.handed
  pending := hsys ▸ h.pending
  printing := by
    rw [hsys, hprinting]
    exact h.printing

theorem InOrder.store (h : InOrder l done waiting)
    (hspace : occupied l.sys.fifo.rptr l.sys.fifo.wptr < l.sys.fifo.num) {bs : List U8}
    (hbs : bs.length ≤ l.sys.fifo.size) (hprinting : l.printing = none) :
    InOrder { l with sys := l.sys.store bs, produced := l.produced ++ [bs] } done
      (waiting ++ [bs]) where
  num := h.num
  size := h.size
  configured := ⟨h.configured.dbgChn, h.configured.fifoDataLen⟩
  produced := by
    rw [h.produced, List.append_assoc]
  handed := h.handed
  pending := by
    obtain ⟨frame, hprefix, hpending⟩ := pending_store h.num hspace hbs
    rw [hpending]
    exact List.rel_append h.pending (.cons hprefix .nil)
  printing := by
    intro bs' hbs'
    rw [hprinting] at hbs'
    exact nomatch hbs'

theorem InOrder.fill (h : InOrder l done waiting)
    (hspace : occupied l.sys.fifo.rptr l.sys.fifo.wptr < l.sys.fifo.num) {bs : List U8}
    (hbs : bs.length ≤ l.sys.fifo.size) :
    InOrder { l with sys := l.sys.fill bs, printing := some bs } done waiting where
  num := h.num
  size := h.size
  configured := ⟨h.configured.dbgChn, h.configured.fifoDataLen⟩
  produced := h.produced
  handed := h.handed
  pending := by
    rw [pending_write h.num hspace hbs]
    exact h.pending
  printing := by
    intro bs' hbs'
    cases hbs'
    exact ⟨hspace, prefix_fill l.sys hbs⟩

theorem InOrder.next (h : InOrder l done waiting) {bs : List U8} (hbs : l.printing = some bs) :
    InOrder { l with
      sys := { l.sys with fifo := myFifoNext l.sys.fifo }
      printing := none
      produced := l.produced ++ [bs] } done (waiting ++ [bs]) where
  num := h.num
  size := h.size
  configured := ⟨h.configured.dbgChn, h.configured.fifoDataLen⟩
  produced := by
    rw [h.produced, List.append_assoc]
  handed := h.handed
  pending := by
    obtain ⟨hspace, hprefix⟩ := h.printing bs hbs
    rw [pending_next h.num hspace]
    exact List.rel_append h.pending (.cons hprefix .nil)
  printing := by
    intro bs' hbs'
    exact nomatch hbs'

/-- **A record handed out.**  It is the oldest of those pending. -/
theorem InOrder.pop (h : InOrder l done waiting) (hne : l.Nonempty) :
    ∃ bs rest, waiting = bs :: rest ∧ InOrder l.pop (done ++ [bs]) rest := by
  have hpending := h.pending
  rw [pending_get (Ne.symm hne)] at hpending
  obtain ⟨bs, rest, hprefix, hrest, rfl⟩ := List.forall₂_cons_right_iff.mp hpending
  refine ⟨bs, rest, rfl, ?_⟩
  constructor
  · exact h.num
  · exact h.size
  · exact ⟨h.configured.dbgChn, h.configured.fifoDataLen⟩
  · rw [List.append_assoc]
    exact h.produced
  · exact List.rel_append h.handed (.cons hprefix .nil)
  · exact hrest
  · intro bs' hbs'
    obtain ⟨hspace, hprinting⟩ := h.printing bs' hbs'
    -- a `my_printf` under way keeps its slot, which is not the one handed out
    refine ⟨?_, hprinting⟩
    have hpop := occupied_pop (Ne.symm hne)
    have hlt : occupied (l.sys.fifo.rptr + 1) l.sys.fifo.wptr < l.sys.fifo.num := by omega
    exact hlt

/-- Some records are handed out, and some are pending. -/
def Log.InOrder (l : Log) : Prop := ∃ done waiting, Debug.InOrder l done waiting

theorem Log.InOrder.pop (h : l.InOrder) (hne : l.Nonempty) : l.pop.InOrder := by
  obtain ⟨done, waiting, h⟩ := h
  obtain ⟨bs, rest, -, hpop⟩ := h.pop hne
  exact ⟨_, _, hpop⟩

theorem Log.InOrder.congr (h : l.InOrder) {l' : Log} (hsys : l'.sys = l.sys)
    (hhanded : l'.handed = l.handed) (hproduced : l'.produced = l.produced)
    (hprinting : l'.printing = l.printing) (hchn : l'.ctl.dbgChn = l.ctl.dbgChn)
    (hlen : l'.ctl.fifoDataLen = l.ctl.fifoDataLen) : l'.InOrder := by
  obtain ⟨done, waiting, h⟩ := h
  exact ⟨done, waiting, h.congr hsys hhanded hproduced hprinting hchn hlen⟩

theorem Log.InOrder.start (h : l.InOrder) (hne : l.Nonempty) : l.start.InOrder :=
  (h.pop hne).congr rfl rfl rfl rfl rfl rfl

theorem Log.InOrder.irq (h : l.InOrder) : (uart0IrqHandler l).InOrder := by
  have hidle : ({ l with ctl := { l.ctl with uartSendIsBusy := 0#8 } } : Log).InOrder :=
    h.congr rfl rfl rfl rfl rfl rfl
  rw [uart0IrqHandler]
  split
  · dsimp only
    split
    · rename_i hne
      exact hidle.start hne
    · exact hidle
  · exact h

theorem Log.InOrder.toUsb (h : l.InOrder) (epBusy : Bool) : (myudbToUsb l epBusy).InOrder := by
  have hfirst : (if l.usb = none ∧ l.Nonempty then
      { l.pop with usb := some (l.sys.fifo.addr l.sys.fifo.rptr + 4,
        (l.sys.mem (l.sys.fifo.addr l.sys.fifo.rptr)).toNat +
          (l.sys.mem (l.sys.fifo.addr l.sys.fifo.rptr + 1)).toNat * 256) }
      else l).InOrder := by
    split
    · rename_i hne
      exact (h.pop hne.2).congr rfl rfl rfl rfl rfl rfl
    · exact h
  rw [myudbToUsb]
  split
  · exact h
  · -- what the endpoint takes of a record changes nothing of the FIFO
    dsimp only
    split
    · exact hfirst
    · exact hfirst.congr rfl rfl rfl rfl rfl rfl

theorem Log.InOrder.send (h : l.InOrder) {extra : Log → Nat} {str : Option Memory}
    {pData : Memory} {dataLen : U32} (hroom : Room extra l (.send str pData dataLen)) :
    (l.step (.send str pData dataLen)).InOrder := by
  obtain ⟨done, waiting, h⟩ := h
  rw [Log.step]
  split
  · exact ⟨done, waiting, h⟩
  · rename_i hprinting
    have hprinting := Option.not_isSome_iff_eq_none.mp hprinting
    rw [tlkapiSendStrData]
    cases hsent : sent l.ctl str pData dataLen with
    | none =>
        rw [Option.toList_none, List.append_nil]
        exact ⟨done, waiting, h⟩
    | some bs =>
        have hret := not_long_of_sent hsent
        obtain ⟨hspace, hslot⟩ := hroom hprinting hret
        have hbs := (length_sent_le_iff h.configured h.size hsent).mpr hslot
        exact ⟨done, waiting ++ [bs], h.store (Nat.lt_of_add_right_lt hspace) hbs hprinting⟩

/-- **One step.** -/
theorem Log.InOrder.step (h : l.InOrder) {extra : Log → Nat} {op : Op} (hroom : Room extra l op) :
    (l.step op).InOrder := by
  cases op with
  | send str pData dataLen => exact h.send hroom
  | printf text =>
      obtain ⟨done, waiting, h⟩ := h
      rw [Log.step]
      split
      · exact ⟨done, waiting, h⟩
      · rename_i hprinting
        have hspace := hroom (Option.not_isSome_iff_eq_none.mp hprinting)
        have hbs := length_printed h.configured h.size text
        exact ⟨done, waiting, h.fill (Nat.lt_of_add_right_lt hspace) hbs⟩
  | printfNext =>
      obtain ⟨done, waiting, h⟩ := h
      rw [Log.step]
      split
      · exact ⟨done, waiting, h⟩
      · rename_i bs hbs
        exact ⟨done, waiting ++ [bs], h.next hbs⟩
  | handler epBusy =>
      rw [Log.step]
      split
      · exact h.toUsb epBusy
      · split
        · rename_i hne
          exact h.pop hne
        · exact h
      · exact h
  | check =>
      rw [Log.step]
      split
      · exact h.congr rfl rfl rfl rfl rfl rfl
      · exact h
  | locked =>
      have hlocked : ({ l with checked := false } : Log).InOrder := h.congr rfl rfl rfl rfl rfl rfl
      rw [Log.step]
      split
      · dsimp only
        split
        · rename_i hready
          exact hlocked.start hready.2
        · exact hlocked
      · exact h
  | txDone =>
      have hdone : ({ l with inFlight := none } : Log).InOrder := h.congr rfl rfl rfl rfl rfl rfl
      rw [Log.step]
      split
      · exact h
      · exact hdone.irq

end steps

/-! ### Runs -/

theorem inOrder_init (chn : Channel) (g : TlkDbg) {f : MyFifo} (hnum : IsSize f.num)
    (hsize : 16 ≤ f.size) (m : Memory) : (Log.init chn g f m).InOrder := by
  refine ⟨[], [], hnum, hsize, ⟨rfl, rfl⟩, rfl, .nil, ?_, ?_⟩
  · have hnil : (Log.init chn g f m).sys.pending = [] := pending_self _
    rw [hnil]
    exact .nil
  · intro bs hbs
    exact nomatch hbs

/-- **The order of the log.**  In every run whose producers find a free slot and write inside it,
the records handed out are the first ones produced, each once and in order, and the FIFO is
reported busy while there are others. -/
theorem handed_in_order (chn : Channel) (g : TlkDbg) {f : MyFifo} (hnum : IsSize f.num)
    (hsize : 16 ≤ f.size) (m : Memory) {ops : List Op}
    (hroom : Along Log.step (Room fun _ => 0) (Log.init chn g f m) ops) :
    let l := runFrom Log.step (Log.init chn g f m) ops
    ∃ done waiting, l.produced = done ++ waiting ∧ List.Forall₂ (· <+: ·) done l.handed ∧
      (waiting ≠ [] → tlkapiDebugIsBusy l) := by
  intro l
  obtain ⟨done, waiting, h⟩ :=
    hroom.invariant (fun l op h hop => h.step hop) (inOrder_init chn g hnum hsize m)
  refine ⟨done, waiting, h.produced, h.handed, fun hne => .inr fun heq => hne ?_⟩
  have hpending := h.pending
  have hnil : l.sys.pending = [] := pending_eq_nil.mpr (Eq.symm heq)
  rw [hnil] at hpending
  exact List.forall₂_nil_right_iff.mp hpending

/-- `tlkDbgCtl` before `tlkapi_debug_init`. -/
def zeroCtl : TlkDbg := ⟨0#8, .uart, 0#8, 0#8, 0#16⟩

/-- Two records, and the transfer of the first ends while `my_printf` is writing the second. -/
def printfInterrupted : List Op :=
  [.send none (fun _ => 7#8) 1#32, .check, .locked, .printf [0x61#8], .txDone, .printfNext]

theorem handed_in_order_interrupted :
    let l := runFrom Log.step (Log.init .uart zeroCtl printFifo fun _ => 0#8) printfInterrupted
    ∃ done waiting, l.produced = done ++ waiting ∧ List.Forall₂ (· <+: ·) done l.handed ∧
      (waiting ≠ [] → tlkapiDebugIsBusy l) := by
  have hnum : IsSize printFifo.num := ⟨4, by decide, rfl⟩
  exact handed_in_order .uart zeroCtl hnum (by decide) (fun _ => 0#8) (by decide +kernel)

/-- One byte of data, with its own number. -/
def numbered (i : Nat) : Op := .send none (fun _ => BitVec.ofNat 8 i) 1#32

/-- Seventeen records, before the handler gets to the first. -/
def flooded : List Op :=
  (List.range 17).map numbered ++ (List.range 17).flatMap fun _ => [.check, .locked, .txDone]

/-- The first record handed out is not the first one produced. -/
theorem not_first {produced handed : List (List U8)} {k : Nat} {a b : U8} (hab : a ≠ b)
    (hproduced : (produced.map fun bs => bs[k]?).head? = some (some a))
    (hhanded : (handed.map fun frame => frame[k]?).head? = some (some b)) :
    ¬ ∃ done waiting, produced = done ++ waiting ∧ List.Forall₂ (· <+: ·) done handed := by
  rintro ⟨done, waiting, rfl, hframes⟩
  cases hframes with
  | nil => exact nomatch hhanded
  | @cons bs _ _ _ hprefix _ =>
      obtain ⟨rest, rfl⟩ := hprefix
      have hfirst : bs[k]? = some a := Option.some.inj hproduced
      have hlast : (bs ++ rest)[k]? = some b := Option.some.inj hhanded
      obtain ⟨hlen, -⟩ := List.getElem?_eq_some_iff.mp hfirst
      rw [List.getElem?_append_left hlen, hfirst] at hlast
      exact hab (Option.some.inj hlast)

/-- **Repeated.**  Of seventeen records in sixteen slots the last is handed out first, and once more
at the end. -/
theorem repeated :
    let l := runFrom Log.step (Log.init .uart zeroCtl printFifo fun _ => 0#8) flooded
    l.handed.map (fun frame => frame[9]?) = ([16] ++ (List.range 17).drop 1).map
      (fun i => some (BitVec.ofNat 8 i)) ∧
    ¬ ∃ done waiting, l.produced = done ++ waiting ∧ List.Forall₂ (· <+: ·) done l.handed := by
  have hab : (0#8 : U8) ≠ 16#8 := by decide
  intro l
  refine ⟨by decide +kernel, not_first (k := 9) hab ?_ ?_⟩
  · decide +kernel
  · decide +kernel

end TelinkB91.Debug
