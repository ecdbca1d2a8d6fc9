import TelinkB91.Serial.Progress

/-!
# Serial — each event once

An event for which `spp_send_data` has returned 0 goes through two copies, into its slot and into
`T_txdata_buf`, to the DMA.

* `Feeds.safe`: the copies stay in the slot and in the buffer, which is left alone while a transfer
  is in flight.
* `events_handed`: the DMA gets the events accepted, each once, in order and with its bytes.
-/

namespace TelinkB91.Serial
open ByteMemory Fifo Ring Runs

/-- The event, if the step is a call of `spp_send_data` that returns 0. -/
def acceptedBy (s : Tx) : TxOp → List (List U8)
  | .send header pEvt =>
      if s.pc = .idle ∧ (sppSendData s header pEvt).2 = 0 then [eventAt pEvt] else []
  | .cb | .txDone => []

/-- The events for which `spp_send_data` returns 0 in a run. -/
def acceptedIn : Tx → List TxOp → List (List U8)
  | _, [] => []
  | s, op :: ops => acceptedBy s op ++ acceptedIn (s.step op) ops

/-- An event accepted is written inside its slot. -/
def InSlot (s : Tx) : TxOp → Prop
  | .send header pEvt => (sppSendData s header pEvt).2 = 0 →
      (framedEvent (eventAt pEvt)).length ≤ s.sys.fifo.size
  | .cb | .txDone => True

/-- What is copied to `T_txdata_buf` is read from its slot, and fits. -/
def InBuffer (s : Tx) : TxOp → Prop
  | .cb => s.pc = .checked → 2 + s.copy.len ≤ s.sys.fifo.size ∧ s.copy.len ≤ uartDataLen
  | .send _ _ | .txDone => True

/-- The copies of the step stay in their places, and none is made to `T_txdata_buf` while a transfer
is in flight. -/
structure Safe (s : Tx) (op : TxOp) : Prop where
  slot : InSlot s op
  buffer : InBuffer s op
  inFlight : s.inFlight.isSome → (s.step op).txdata = s.txdata

section steps

variable {s : Tx} {queue : List (List U8)}

/-- The events accepted, by one step. -/
theorem accepted_step {op : TxOp} (hop : Unraced s op) :
    (s.step op).accepted = s.accepted ++ acceptedBy s op := by
  cases op with
  | send header pEvt =>
      rw [Tx.step, acceptedBy]
      by_cases hpc : s.pc = .idle
      · rw [if_pos hpc]
        rcases sppSendData_cases s pEvt hop with hfull | ⟨-, -, hstore⟩
        · have hret : ¬(-1 : Int) = 0 := by decide
          rw [hfull, if_neg fun h => hret h.2, List.append_nil]
        · rw [hstore, if_pos ⟨hpc, rfl⟩]
      · rw [if_neg hpc, if_neg fun h => hpc h.1, List.append_nil]
  | cb =>
      rw [Tx.step, txToUartCb, acceptedBy, List.append_nil]
      cases s.pc with
      | idle =>
          dsimp only
          split_ifs <;> rfl
      | checked | started | popped => rfl
      | copied =>
          dsimp only
          rw [Tx.uartSendDma]
          split_ifs <;> rfl
  | txDone =>
      rw [Tx.step, acceptedBy, List.append_nil]
      split_ifs <;> rfl

/-- The events accepted, by a run. -/
theorem accepted_run {ops : List TxOp} (hops : Along Tx.step Unraced s ops) :
    (runFrom Tx.step s ops).accepted = s.accepted ++ acceptedIn s ops := by
  induction ops generalizing s with
  | nil => exact (List.append_nil _).symm
  | cons op ops ih =>
      rw [runFrom_cons, ih hops.2, accepted_step hops.1, acceptedIn, List.append_assoc]

/-- Without calls of `spp_send_data` none is accepted. -/
theorem acceptedIn_quiet {ops : List TxOp} (hquiet : ∀ op ∈ ops, op = .cb ∨ op = .txDone) :
    acceptedIn s ops = [] := by
  induction ops generalizing s with
  | nil => rfl
  | cons op ops ih =>
      have hrest := ih (s := s.step op) fun op hop => hquiet op (List.mem_cons_of_mem _ hop)
      rcases hquiet op List.mem_cons_self with rfl | rfl
      · exact hrest
      · exact hrest

/-- **The copies of a step.** -/
theorem Feeds.safe (h : Feeds s queue) {op : TxOp} (hop : Unraced s op) : Safe s op := by
  cases op with
  | send header pEvt =>
      refine ⟨?_, trivial, ?_⟩
      · intro hret
        rcases sppSendData_cases s pEvt hop with hfull | ⟨-, hsize, -⟩
        · rw [hfull] at hret
          exact absurd hret (show ¬(-1 : Int) = 0 by decide)
        · exact Nat.le_of_lt hsize
      · intro hflight
        rw [Tx.step]
        split_ifs
        · rcases sppSendData_cases s pEvt hop with hfull | ⟨-, -, hstore⟩
          · rw [hfull]
          · rw [hstore]
        · rfl
  | cb =>
      have hat := h.at_pc
      rw [Tx.At] at hat
      refine ⟨trivial, ?_, ?_⟩
      · intro hpc
        rw [hpc] at hat
        obtain ⟨e, rest, -, -, hle, hcopy, -⟩ := h.head hat.2.2
        rw [hcopy, h.size]
        rw [sppTxfifoSize] at hle ⊢
        rw [uartDataLen, sppTxfifoSize]
        dsimp only
        omega
      · intro hflight
        rw [Tx.step, txToUartCb]
        cases hpc : s.pc with
        | idle =>
            dsimp only
            split_ifs <;> rfl
        | checked =>
            -- no transfer is in flight while an event is copied
            rw [hpc] at hat
            rw [hat.2.1] at hflight
            exact absurd hflight Bool.false_ne_true
        | copied =>
            rw [hpc] at hat
            rw [hat.2.1] at hflight
            exact absurd hflight Bool.false_ne_true
        | started | popped => rfl
  | txDone =>
      refine ⟨trivial, trivial, fun _ => ?_⟩
      rw [Tx.step]
      split_ifs
      rfl

theorem Feeds.handed_prefix (h : Feeds s queue) : s.handed <+: s.accepted := by
  rw [h.accepted]
  exact List.prefix_append _ _

end steps

/-- **Each event once.**  In every run in which no transfer ends before the flag is set: what was
handed to the DMA are the first of the events for which `spp_send_data` has returned 0, in order,
each with its first `paramLen + 2` bytes; after as many rounds as there is work it is all of them;
the copies stay in the slot and in `T_txdata_buf`, which is not written while a transfer is in
flight. -/
theorem events_handed (p : Nat) (m : Memory) (txdata : UartData) (ops : List TxOp)
    (hops : Along Tx.step Unraced (Tx.boot p m txdata) ops) :
    let s := runFrom Tx.step (Tx.boot p m txdata) ops
    s.handed <+: acceptedIn (Tx.boot p m txdata) ops ∧
    Along Tx.step Safe (Tx.boot p m txdata) ops ∧
    ∀ rounds : List (List TxOp), (∀ r ∈ rounds, Round r) →
      Along Tx.step Unraced s rounds.flatten → s.work ≤ rounds.length →
        (runFrom Tx.step s rounds.flatten).handed = acceptedIn (Tx.boot p m txdata) ops := by
  intro s
  obtain ⟨queue, h⟩ : ∃ queue, Feeds s queue := feeds_run hops
  have haccepted : s.accepted = acceptedIn (Tx.boot p m txdata) ops := accepted_run hops
  refine ⟨haccepted ▸ h.handed_prefix, ?_, ?_⟩
  · exact hops.derive (I := fun s => ∃ queue, Feeds s queue) (fun _ _ ⟨_, h⟩ hop => h.step hop)
      (fun _ _ ⟨_, h⟩ hop => h.safe hop) ⟨[], feeds_boot p m txdata⟩
  · intro rounds hrounds halong hwork
    have hquiet : ∀ op ∈ rounds.flatten, op = .cb ∨ op = .txDone := by
      intro op hop
      obtain ⟨r, hr, hop⟩ := List.mem_flatten.mp hop
      exact (hrounds r hr).quiet op hop
    obtain ⟨hzero, queue', hend⟩ := h.rounds halong hrounds hwork
    obtain ⟨hpc, hnil, -, -⟩ := hend.done hzero
    have hall := hend.unsent_eq (by rw [hpc]; decide)
    rw [hnil, List.append_nil, accepted_run halong, acceptedIn_quiet hquiet,
      List.append_nil] at hall
    rw [← hall, haccepted]

/-- Three events, one of them with 68 parameters, which is one too many. -/
theorem events_handed_three :
    let s₀ := Tx.boot 0 (fun _ => 0#8) ⟨0, fun _ => 0#8⟩
    let ops := started ++ [.cb, .cb, .send hciFlagEventTlkModule fun _ => 3#8, .txDone,
      .send hciFlagEventTlkModule fun _ => 68#8]
    let rounds := List.replicate 6 [TxOp.cb, .cb, .cb, .cb, .cb, .txDone]
    (runFrom Tx.step (runFrom Tx.step s₀ ops) rounds.flatten).handed =
        [[0xFF#8, 0#8], List.replicate 5 3#8] ∧
      (runFrom Tx.step (runFrom Tx.step s₀ ops) rounds.flatten).handed = acceptedIn s₀ ops := by
  intro s₀ ops rounds
  have hops : Along Tx.step Unraced s₀ ops := by decide +kernel
  have hround : Round [TxOp.cb, .cb, .cb, .cb, .cb, .txDone] :=
    ⟨List.mem_cons_self, by simp, by simp⟩
  refine ⟨by decide +kernel, ?_⟩
  exact (events_handed 0 (fun _ => 0#8) ⟨0, fun _ => 0#8⟩ ops hops).2.2 rounds
    (fun r hr => List.eq_of_mem_replicate hr ▸ hround) (by decide +kernel) (by decide +kernel)

end TelinkB91.Serial
