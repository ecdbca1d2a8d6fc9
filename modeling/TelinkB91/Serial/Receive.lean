import TelinkB91.Fifo.MyFifo

/-!
# Serial — frames from the UART

The serial module receives by DMA into `spp_rx_fifo`, which has two slots.  At the end of a frame
`uart0_receive_irq` counts the slot in and arms the DMA at the next one, without looking whether it
is free.  `rx_from_uart_cb` hands the slot at the head to `bls_uart_handler`.  Without DMA the first
byte of a slot is the length of the frame, and both functions take a slot with a zero there for an
empty one.  With DMA that byte is the first of the frame.

`Rx` is the FIFO with the DMA.  A frame comes in byte by byte, and its bytes are in the slot before
the interrupt.

* `Receives.step`: a step hands on and keeps the frames received.
* `frames_handled`: so does a run, if no frame starts with a zero byte, and no byte comes in while
  two frames wait.
* `zero_lost`, `head_overwritten`, `head_blocks`: the other cases.
-/

namespace TelinkB91.Serial
open ByteMemory Fifo Ring Runs

abbrev U32 := BitVec 32

def sppRxfifoSize : Nat := 72

def sppRxfifoNum : Nat := 2

/-- `spp_rx_fifo` with its buffer at `p`. -/
def sppRxFifo (p : Nat) : MyFifo := ⟨sppRxfifoSize, sppRxfifoNum, 0#8, 0#8, p⟩

/-- `armed` is the address of the DMA, and `frame` the bytes of the frame that is coming in.
`frames` are the frames received, and `handled` the slots that were handed to `bls_uart_handler`,
each with the length it was called with. -/
structure Rx where
  sys : Sys
  armed : Nat
  frame : List U8
  frames : List (List U8)
  handled : List (List U8 × U32)

/-- Nothing received, and the DMA armed at the slot of `wptr`. -/
def Rx.boot (p : Nat) (m : Memory) : Rx where
  sys := ⟨sppRxFifo p, m⟩
  armed := (sppRxFifo p).addr 0#8
  frame := []
  frames := []
  handled := []

/-- The DMA stores a byte. -/
def Rx.byte (s : Rx) (b : U8) : Rx :=
  { s with
    sys := { s.sys with mem := write s.sys.mem (s.armed + s.frame.length) [b] }
    frame := s.frame ++ [b] }

/-- `uart0_receive_irq` at the end of a frame. -/
def uart0ReceiveIrq (s : Rx) : Rx :=
  let w := s.sys.fifo.addr s.sys.fifo.wptr
  let s := { s with frame := [], frames := s.frames ++ [s.frame] }
  if s.sys.mem w ≠ 0#8 then
    let f := myFifoNext s.sys.fifo
    { s with sys := { s.sys with fifo := f }, armed := f.addr f.wptr }
  else s

/-- `rx_from_uart_cb`. -/
def rxFromUartCb (s : Rx) : Rx :=
  match myFifoGet s.sys.fifo with
  | none => s
  | some p =>
      let rxLen : U32 := (s.sys.mem p).setWidth 32
      if rxLen ≠ 0#32 then
        { s with
          sys := { s.sys with fifo := myFifoPop s.sys.fifo }
          handled := s.handled ++ [(read s.sys.mem p s.sys.fifo.size, rxLen - 4#32)] }
      else s

/-- A byte comes in, a frame ends, or `rx_from_uart_cb` is called. -/
inductive RxOp where
  | byte (b : U8)
  | rxDone
  | rx
  deriving DecidableEq, Repr

/-- A frame has from one to 72 bytes. -/
def Rx.step (s : Rx) : RxOp → Rx
  | .byte b => if s.frame.length < sppRxfifoSize then s.byte b else s
  | .rxDone => if s.frame = [] then s else uart0ReceiveIrq s
  | .rx => rxFromUartCb s

/-- No byte comes in while two frames wait, and none that is zero starts a frame. -/
def Accepted (s : Rx) : RxOp → Prop
  | .byte b => occupied s.sys.fifo.rptr s.sys.fifo.wptr < sppRxfifoNum ∧ (s.frame = [] → b ≠ 0#8)
  | .rxDone | .rx => True

instance (s : Rx) : (op : RxOp) → Decidable (Accepted s op)
  | .byte _ => inferInstanceAs (Decidable (_ ∧ (_ → _)))
  | .rxDone | .rx => inferInstanceAs (Decidable True)

/-- The frames received are those handed on and those that wait, in order, each at the front of its
slot. -/
def Rx.InOrder (s : Rx) : Prop :=
  List.Forall₂ (· <+: ·) s.frames (s.handled.map Prod.fst ++ s.sys.pending)

/-- While frames wait, `rx_from_uart_cb` hands on one. -/
def Rx.Served (s : Rx) : Prop :=
  s.sys.fifo.rptr ≠ s.sys.fifo.wptr → (s.step .rx).handled.length = s.handled.length + 1

/-! ### One step -/

/-- A frame at the front of a slot, with a first byte that is not zero. -/
def Starts (f slot : List U8) : Prop := f <+: slot ∧ ∃ b bs, f = b :: bs ∧ b ≠ 0#8

/-- The frames `done` are handed on, and the frames `waiting` are in the FIFO. -/
structure Receives (s : Rx) (done waiting : List (List U8)) : Prop where
  num : s.sys.fifo.num = sppRxfifoNum
  size : s.sys.fifo.size = sppRxfifoSize
  armed : s.armed = s.sys.fifo.addr s.sys.fifo.wptr
  le : occupied s.sys.fifo.rptr s.sys.fifo.wptr ≤ sppRxfifoNum
  room : s.frame ≠ [] → occupied s.sys.fifo.rptr s.sys.fifo.wptr < sppRxfifoNum
  length : s.frame.length ≤ sppRxfifoSize
  frame : read s.sys.mem s.armed s.frame.length = s.frame
  first : ∀ b bs, s.frame = b :: bs → b ≠ 0#8
  frames : s.frames = done ++ waiting
  handled : List.Forall₂ (· <+: ·) done (s.handled.map Prod.fst)
  pending : List.Forall₂ Starts waiting s.sys.pending

section steps

variable {s : Rx} {done waiting : List (List U8)}

theorem Receives.isSize (h : Receives s done waiting) : IsSize s.sys.fifo.num :=
  ⟨1, by decide, h.num⟩

theorem Receives.inOrder (h : Receives s done waiting) : s.InOrder := by
  rw [Rx.InOrder, h.frames]
  exact List.rel_append h.handled (h.pending.imp fun _ _ hstarts => hstarts.1)

theorem Receives.byte (h : Receives s done waiting) {b : U8}
    (hlength : s.frame.length < sppRxfifoSize) (hb : Accepted s (.byte b)) :
    Receives (s.byte b) done waiting := by
  obtain ⟨hspace, hfirst⟩ := hb
  have hread : read (s.byte b).sys.mem s.armed (s.frame ++ [b]).length = s.frame ++ [b] := by
    rw [List.length_append, read_append]
    refine congrArg₂ (· ++ ·) ?_ (read_write _ _ _)
    exact (read_write_apart (.inl le_rfl)).trans h.frame
  have hpending : (s.byte b).sys.pending = s.sys.pending := by
    have hfit : s.frame.length + [b].length ≤ s.sys.fifo.size := h.size.symm ▸ hlength
    have hinside := pending_write_inside h.isSize (h.num.symm ▸ hspace) hfit
    rwa [← h.armed] at hinside
  refine ⟨h.num, h.size, h.armed, h.le, fun _ => hspace, ?_, hread, ?_, h.frames, h.handled, ?_⟩
  · change (s.frame ++ [b]).length ≤ _
    rw [List.length_append]
    exact hlength
  · intro c cs hc
    change s.frame ++ [b] = c :: cs at hc
    cases hframe : s.frame with
    | nil =>
        rw [hframe] at hc
        exact (List.cons.inj hc).1 ▸ hfirst hframe
    | cons d ds =>
        rw [hframe] at hc
        exact (List.cons.inj hc).1 ▸ h.first d ds hframe
  · rw [hpending]
    exact h.pending

/-- The frame that ends is at the front of the slot of `wptr`. -/
theorem Receives.starts (h : Receives s done waiting) (hframe : s.frame ≠ []) :
    Starts s.frame (s.sys.slots (slot s.sys.fifo.num s.sys.fifo.wptr)) ∧
      s.sys.mem (s.sys.fifo.addr s.sys.fifo.wptr) ≠ 0#8 := by
  obtain ⟨b, bs, hcons⟩ := List.exists_cons_of_ne_nil hframe
  have hb := h.first b bs hcons
  have hread := h.frame
  rw [h.armed] at hread
  refine ⟨⟨?_, b, bs, hcons, hb⟩, ?_⟩
  · obtain ⟨k, hk⟩ := Nat.exists_eq_add_of_le h.length
    change _ <+: read s.sys.mem (s.sys.fifo.addr s.sys.fifo.wptr) s.sys.fifo.size
    rw [h.size, hk, read_append, hread]
    exact List.prefix_append _ _
  · rw [hcons, List.length_cons, read_succ] at hread
    exact (List.cons.inj hread).1 ▸ hb

theorem Receives.irq (h : Receives s done waiting) (hframe : s.frame ≠ []) :
    Receives (uart0ReceiveIrq s) done (waiting ++ [s.frame]) := by
  obtain ⟨hstarts, hne⟩ := h.starts hframe
  have hspace := h.room hframe
  have hirq : uart0ReceiveIrq s =
      { s with
        sys := { s.sys with fifo := myFifoNext s.sys.fifo }
        armed := (myFifoNext s.sys.fifo).addr (myFifoNext s.sys.fifo).wptr
        frame := []
        frames := s.frames ++ [s.frame] } := if_pos hne
  have hle : occupied s.sys.fifo.rptr (s.sys.fifo.wptr + 1) ≤ sppRxfifoNum := by
    rw [occupied_push (hspace.trans (by decide))]
    exact hspace
  rw [hirq]
  refine ⟨h.num, h.size, rfl, hle, fun hnil => absurd rfl hnil, Nat.zero_le _, rfl,
    fun _ _ hnil => (nomatch hnil), ?_, h.handled, ?_⟩
  · dsimp only
    rw [h.frames, List.append_assoc]
  · rw [pending_next h.isSize (h.num.symm ▸ hspace)]
    exact List.rel_append h.pending (.cons hstarts .nil)

/-- **One frame handed on.** -/
theorem Receives.rx (h : Receives s done waiting) (hne : s.sys.fifo.rptr ≠ s.sys.fifo.wptr) :
    ∃ f waiting', waiting = f :: waiting' ∧
      Receives (rxFromUartCb s) (done ++ [f]) waiting' ∧
      (rxFromUartCb s).handled.length = s.handled.length + 1 ∧
      (rxFromUartCb s).frames = s.frames ∧
      occupied (rxFromUartCb s).sys.fifo.rptr (rxFromUartCb s).sys.fifo.wptr + 1 =
        occupied s.sys.fifo.rptr s.sys.fifo.wptr := by
  have hpending := h.pending
  rw [pending_get hne] at hpending
  obtain ⟨f, waiting', ⟨hslot, b, bs, rfl, hb⟩, hrest, rfl⟩ :=
    List.forall₂_cons_right_iff.mp hpending
  have hget : myFifoGet s.sys.fifo = some (s.sys.fifo.addr s.sys.fifo.rptr) := if_pos hne
  have hhead : s.sys.mem (s.sys.fifo.addr s.sys.fifo.rptr) = b := by
    obtain ⟨k, hk⟩ := Nat.exists_eq_succ_of_ne_zero (n := s.sys.fifo.size) (by rw [h.size]; decide)
    rw [hk, read_succ] at hslot
    exact (List.cons_prefix_cons.mp hslot).1.symm
  have hlen : (s.sys.mem (s.sys.fifo.addr s.sys.fifo.rptr)).setWidth 32 ≠ 0#32 := by
    rw [hhead]
    intro hzero
    exact hb (by bv_omega)
  have hrx : rxFromUartCb s =
      { s with
        sys := { s.sys with fifo := myFifoPop s.sys.fifo }
        handled := s.handled ++ [(read s.sys.mem (s.sys.fifo.addr s.sys.fifo.rptr) s.sys.fifo.size,
          (s.sys.mem (s.sys.fifo.addr s.sys.fifo.rptr)).setWidth 32 - 4#32)] } := by
    rw [rxFromUartCb, hget]
    exact if_pos hlen
  have hpop : occupied (s.sys.fifo.rptr + 1) s.sys.fifo.wptr + 1 =
      occupied s.sys.fifo.rptr s.sys.fifo.wptr := occupied_pop hne
  have hle := h.le
  refine ⟨b :: bs, waiting', rfl, ?_, ?_, ?_, ?_⟩
  · rw [hrx]
    refine ⟨h.num, h.size, h.armed, ?_, fun hframe => ?_, h.length, h.frame, h.first, ?_, ?_, hrest⟩
    · change occupied (s.sys.fifo.rptr + 1) s.sys.fifo.wptr ≤ _
      omega
    · have hroom := h.room hframe
      change occupied (s.sys.fifo.rptr + 1) s.sys.fifo.wptr < _
      omega
    · rw [List.append_assoc]
      exact h.frames
    · rw [List.map_append]
      exact List.rel_append h.handled (.cons hslot .nil)
  · rw [hrx, List.length_append]
    rfl
  · rw [hrx]
  · rw [hrx]
    exact hpop

theorem rx_empty (hempty : s.sys.fifo.rptr = s.sys.fifo.wptr) : rxFromUartCb s = s := by
  have hget : myFifoGet s.sys.fifo = none := if_neg (not_not.mpr hempty)
  rw [rxFromUartCb, hget]

/-- **One step.** -/
theorem Receives.step (h : Receives s done waiting) {op : RxOp} (hop : Accepted s op) :
    ∃ done' waiting', Receives (s.step op) done' waiting' := by
  cases op with
  | byte b =>
      rw [Rx.step]
      split
      · rename_i hlength
        exact ⟨done, waiting, h.byte hlength hop⟩
      · exact ⟨done, waiting, h⟩
  | rxDone =>
      rw [Rx.step]
      split
      · exact ⟨done, waiting, h⟩
      · rename_i hframe
        exact ⟨done, waiting ++ [s.frame], h.irq hframe⟩
  | rx =>
      by_cases hempty : s.sys.fifo.rptr = s.sys.fifo.wptr
      · rw [Rx.step, rx_empty hempty]
        exact ⟨done, waiting, h⟩
      · obtain ⟨f, waiting', -, hnext, -⟩ := h.rx hempty
        exact ⟨done ++ [f], waiting', hnext⟩

theorem Receives.served (h : Receives s done waiting) : s.Served := by
  intro hne
  obtain ⟨-, -, -, -, hlength, -⟩ := h.rx hne
  exact hlength

/-- As many calls of `rx_from_uart_cb` as there are frames hand on all of them. -/
theorem Receives.drain {k : Nat} (h : Receives s done waiting)
    (hk : occupied s.sys.fifo.rptr s.sys.fifo.wptr ≤ k) :
    List.Forall₂ (· <+: ·) s.frames
      ((runFrom Rx.step s (List.replicate k .rx)).handled.map Prod.fst) := by
  induction k generalizing s done waiting with
  | zero =>
      have hempty := occupied_eq_zero.mp (Nat.le_zero.mp hk)
      have hpending : s.sys.pending = [] := pending_eq_nil.mpr hempty
      have horder := h.inOrder
      rwa [Rx.InOrder, hpending, List.append_nil] at horder
  | succ k ih =>
      rw [List.replicate_succ, runFrom_cons, Rx.step]
      by_cases hempty : s.sys.fifo.rptr = s.sys.fifo.wptr
      · rw [rx_empty hempty]
        refine ih h ?_
        rw [occupied_eq_zero.mpr hempty]
        exact Nat.zero_le k
      · obtain ⟨f, waiting', -, hnext, -, hframes, hpop⟩ := h.rx hempty
        rw [← hframes]
        exact ih hnext (by omega)

end steps

theorem receives_boot (p : Nat) (m : Memory) : Receives (Rx.boot p m) [] [] where
  num := rfl
  size := rfl
  armed := rfl
  le := (occupied_self 0#8).le.trans (Nat.zero_le _)
  room := fun h => absurd rfl h
  length := Nat.zero_le _
  frame := rfl
  first := fun _ _ h => nomatch h
  frames := rfl
  handled := .nil
  pending := by
    have hnil : (Rx.boot p m).sys.pending = [] := pending_self _
    rw [hnil]
    exact .nil

/-- **Frames handed on.**  In every run in which no frame starts with a zero byte, and no byte comes
in while two frames wait: the frames received are those handed to `bls_uart_handler` and those that
wait, in order and with their bytes; a call of `rx_from_uart_cb` hands on one while there is one;
and as many calls as frames wait hand on all of them. -/
theorem frames_handled (p : Nat) (m : Memory) (ops : List RxOp)
    (hops : Along Rx.step Accepted (Rx.boot p m) ops) :
    let s := runFrom Rx.step (Rx.boot p m) ops
    s.InOrder ∧ s.Served ∧
    ∀ k, occupied s.sys.fifo.rptr s.sys.fifo.wptr ≤ k →
      List.Forall₂ (· <+: ·) s.frames
        ((runFrom Rx.step s (List.replicate k .rx)).handled.map Prod.fst) := by
  intro s
  have hinv : ∃ done waiting, Receives s done waiting :=
    hops.invariant (I := fun s => ∃ done waiting, Receives s done waiting)
      (fun _ _ ⟨_, _, h⟩ hop => h.step hop) ⟨[], [], receives_boot p m⟩
  obtain ⟨done, waiting, h⟩ := hinv
  exact ⟨h.inOrder, h.served, fun k hk => h.drain hk⟩

/-- Frames of the given bytes, one after the other. -/
def arrivals (frames : List (List U8)) : List RxOp :=
  frames.flatMap fun f => f.map .byte ++ [.rxDone]

/-- Two frames, one of which is handed on before the third. -/
theorem frames_handled_three :
    let s := runFrom Rx.step (Rx.boot 0 fun _ => 0#8)
      (arrivals [[1#8, 2#8], [3#8]] ++ [.rx] ++ arrivals [[4#8, 0#8, 5#8]])
    s.frames = [[1#8, 2#8], [3#8], [4#8, 0#8, 5#8]] ∧ s.InOrder := by
  exact ⟨by decide +kernel, (frames_handled 0 (fun _ => 0#8) _ (by decide +kernel)).1⟩

/-- **A zero byte in front.**  The frame is taken for an empty slot, and is not handed on. -/
theorem zero_lost :
    let s := runFrom Rx.step (Rx.boot 0 fun _ => 0#8) (arrivals [[0#8, 7#8]] ++ [.rx])
    s.frames = [[0#8, 7#8]] ∧ s.handled = [] ∧ ¬s.InOrder := by
  refine ⟨by decide +kernel, by decide +kernel, ?_⟩
  intro h
  have hlen := h.length_eq
  exact absurd hlen (by decide +kernel)

/-- **Two frames wait.**  The third is written over the first, and handed on in its place. -/
theorem head_overwritten :
    let s := runFrom Rx.step (Rx.boot 0 fun _ => 0#8) (arrivals [[1#8], [2#8], [3#8]] ++ [.rx])
    s.frames = [[1#8], [2#8], [3#8]] ∧ (s.handled.map fun h => h.1.take 1) = [[3#8]] ∧
      ¬s.InOrder := by
  refine ⟨by decide +kernel, by decide +kernel, ?_⟩
  intro h
  have hfrom : (runFrom Rx.step (Rx.boot 0 fun _ => 0#8)
      (arrivals [[1#8], [2#8], [3#8]] ++ [.rx])).frames = [[1#8], [2#8], [3#8]] := by decide +kernel
  rw [Rx.InOrder, hfrom] at h
  obtain ⟨slot, slots, ⟨bs, rfl⟩, -, heq⟩ := List.forall₂_cons_left_iff.mp h
  have hhead : ((((runFrom Rx.step (Rx.boot 0 fun _ => 0#8)
      (arrivals [[1#8], [2#8], [3#8]] ++ [.rx])).handled.map Prod.fst) ++ _).headD []).headD 0#8 =
        1#8 := congrArg (fun l => (l.headD []).headD 0#8) heq
  exact absurd hhead (by decide +kernel)

/-- **A head that blocks.**  The third frame starts with a zero byte, over that of the first. -/
theorem head_blocks :
    let s := runFrom Rx.step (Rx.boot 0 fun _ => 0#8) (arrivals [[1#8], [2#8], [0#8]])
    occupied s.sys.fifo.rptr s.sys.fifo.wptr = 2 ∧ (s.step .rx).handled = [] ∧ ¬s.Served := by
  have hne : (runFrom Rx.step (Rx.boot 0 fun _ => 0#8)
      (arrivals [[1#8], [2#8], [0#8]])).sys.fifo.rptr ≠
        (runFrom Rx.step (Rx.boot 0 fun _ => 0#8)
          (arrivals [[1#8], [2#8], [0#8]])).sys.fifo.wptr := by decide +kernel
  refine ⟨by decide +kernel, by decide +kernel, ?_⟩
  intro h
  have hserved := h hne
  exact absurd hserved (by decide +kernel)

end TelinkB91.Serial
