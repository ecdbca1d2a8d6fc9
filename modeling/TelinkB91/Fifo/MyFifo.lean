import TelinkB91.Lib.ByteMemory
import TelinkB91.Lib.Ring
import TelinkB91.Lib.Runs

/-!
# Fifo — `my_fifo_t` of `utility.c`

A FIFO of `num` slots of `size` bytes, in a buffer the caller owns.  A producer either pushes a
record, which is stored behind its length, or takes a pointer to the next slot, fills the slot and
counts it in.  A consumer takes a pointer to the oldest slot and counts it out.

`Sys` is a FIFO in its memory, and `Sys.step` one call of a producer or a consumer.

* `pending_write`: bytes that fit into the free slot of `wptr` are not seen in the slots in use.
* `pending_store`, `pending_get`: what the calls do to the slots in use.
-/

namespace TelinkB91.Fifo
open Ring ByteMemory

abbrev U8 := BitVec 8

abbrev Memory := Nat → U8

/-- `p` is the address of the buffer. -/
structure MyFifo where
  size : Nat
  num : Nat
  wptr : U8
  rptr : U8
  p : Nat
  deriving DecidableEq, Repr

def myFifoInit (s : Nat) (n : U8) (p : Nat) : MyFifo where
  size := s
  num := n.toNat
  wptr := 0#8
  rptr := 0#8
  p := p

/-- The address of the slot of the counter `c`. -/
def MyFifo.addr (f : MyFifo) (c : U8) : Nat := f.p + slot f.num c * f.size

def myFifoWptr (f : MyFifo) : Option Nat :=
  if occupied f.rptr f.wptr < f.num then some (f.addr f.wptr) else none

def myFifoNext (f : MyFifo) : MyFifo := { f with wptr := f.wptr + 1 }

/-- The `n` bytes at `p`. -/
def payload (p : Memory) (n : BitVec 32) : List U8 := read p 0 n.toNat

/-- What `my_fifo_push` stores: the low two bytes of `n`, and the `n` bytes at `p`. -/
def record (p : Memory) (n : BitVec 32) : List U8 :=
  n.setWidth 8 :: (n >>> 8).setWidth 8 :: payload p n

/-- `my_fifo_push`, with its result.  `n >= f->size` compares as unsigned. -/
def myFifoPush (f : MyFifo) (m : Memory) (p : Memory) (n : BitVec 32) : MyFifo × Memory × Int :=
  if occupied f.rptr f.wptr ≥ f.num then (f, m, -1)
  else if n.toNat ≥ f.size then (f, m, -1)
  else ({ f with wptr := f.wptr + 1 }, write m (f.addr f.wptr) (record p n), 0)

def myFifoPop (f : MyFifo) : MyFifo := { f with rptr := f.rptr + 1 }

def myFifoGet (f : MyFifo) : Option Nat :=
  if f.rptr ≠ f.wptr then some (f.addr f.rptr) else none

theorem ne_of_get {f : MyFifo} (h : myFifoGet f ≠ none) : f.rptr ≠ f.wptr := by
  intro hempty
  rw [myFifoGet, if_neg (not_not.mpr hempty)] at h
  exact h rfl

/-- `p[0] + p[1] * 256`, the length in front of a record. -/
def lenAt (m : Memory) (p : Nat) : Nat := (m p).toNat + (m (p + 1)).toNat * 256

/-- A FIFO in its memory. -/
structure Sys where
  fifo : MyFifo
  mem : Memory

/-- The calls: `my_fifo_push`; `my_fifo_wptr`, and where it is not null the bytes `bs` stored
there and `my_fifo_next`; `my_fifo_get`; `my_fifo_pop`. -/
inductive Op where
  | push (p : Memory) (n : BitVec 32)
  | put (bs : List U8)
  | get
  | pop

/-- What a call returns; of `my_fifo_get` also the slot it points at. -/
inductive Out where
  | ret (r : Int)
  | wptr (a : Option Nat)
  | got (frame : Option (List U8))
  | unit
  deriving DecidableEq

def Sys.step (s : Sys) : Op → Sys × Out
  | .push p n =>
      let (f, m, r) := myFifoPush s.fifo s.mem p n
      (⟨f, m⟩, .ret r)
  | .put bs =>
      match myFifoWptr s.fifo with
      | none => (s, .wptr none)
      | some a => (⟨myFifoNext s.fifo, write s.mem a bs⟩, .wptr (some a))
  | .get => (s, .got ((myFifoGet s.fifo).map fun a => read s.mem a s.fifo.size))
  | .pop => ({ s with fifo := myFifoPop s.fifo }, .unit)

/-- Of a length written in front of a record, 16 bits are read back. -/
theorem lenAt_write_mod (m : Memory) (p n : Nat) (bs : List U8) :
    lenAt (write m p (BitVec.ofNat 8 n :: BitVec.ofNat 8 (n >>> 8) :: bs)) p = n % 65536 := by
  have hlow : write m p (BitVec.ofNat 8 n :: BitVec.ofNat 8 (n >>> 8) :: bs) p =
      BitVec.ofNat 8 n := write_at (i := 0) rfl
  have hhigh : write m p (BitVec.ofNat 8 n :: BitVec.ofNat 8 (n >>> 8) :: bs) (p + 1) =
      BitVec.ofNat 8 (n >>> 8) := write_at (i := 1) rfl
  rw [lenAt, hlow, hhigh, BitVec.toNat_ofNat, BitVec.toNat_ofNat, Nat.shiftRight_eq_div_pow]
  omega

/-- The length that is written in front of a record is read back. -/
theorem lenAt_write (m : Memory) (p : Nat) {n : Nat} (bs : List U8) (hn : n < 65536) :
    lenAt (write m p (BitVec.ofNat 8 n :: BitVec.ofNat 8 (n >>> 8) :: bs)) p = n :=
  (lenAt_write_mod m p n bs).trans (Nat.mod_eq_of_lt hn)

/-! ### The slots -/

/-- The bytes of the slot `k`. -/
def Sys.slots (s : Sys) (k : Nat) : List U8 := read s.mem (s.fifo.p + k * s.fifo.size) s.fifo.size

/-- What the slots in use hold, oldest first. -/
def Sys.pending (s : Sys) : List (List U8) :=
  Ring.pending s.fifo.num s.slots s.fifo.rptr s.fifo.wptr

/-- `bs` stored into the slot of `wptr`. -/
def Sys.fill (s : Sys) (bs : List U8) : Sys :=
  { s with mem := write s.mem (s.fifo.addr s.fifo.wptr) bs }

/-- `bs` stored into the slot of `wptr`, which is counted in. -/
def Sys.store (s : Sys) (bs : List U8) : Sys :=
  { s.fill bs with fifo := myFifoNext s.fifo }

@[simp] theorem length_record (p : Memory) (n : BitVec 32) :
    (record p n).length = n.toNat + 2 := by
  rw [record, List.length_cons, List.length_cons, payload, length_read]

theorem step_push_full {s : Sys} (h : s.fifo.num ≤ occupied s.fifo.rptr s.fifo.wptr) (p : Memory)
    (n : BitVec 32) : s.step (.push p n) = (s, .ret (-1)) := by
  simp only [Sys.step, myFifoPush, if_pos (ge_iff_le.mpr h)]

theorem step_push_long {s : Sys} {n : BitVec 32} (h : s.fifo.size ≤ n.toNat) (p : Memory) :
    s.step (.push p n) = (s, .ret (-1)) := by
  simp only [Sys.step, myFifoPush, if_pos (ge_iff_le.mpr h), ite_self]

theorem step_push {s : Sys} {n : BitVec 32} (h : occupied s.fifo.rptr s.fifo.wptr < s.fifo.num)
    (hn : n.toNat < s.fifo.size) (p : Memory) :
    s.step (.push p n) = (s.store (record p n), .ret 0) := by
  simp only [Sys.step, myFifoPush, if_neg (Nat.not_le.mpr h), if_neg (Nat.not_le.mpr hn)]
  rfl

theorem step_put_full {s : Sys} (h : s.fifo.num ≤ occupied s.fifo.rptr s.fifo.wptr)
    (bs : List U8) : s.step (.put bs) = (s, .wptr none) := by
  simp only [Sys.step, myFifoWptr, if_neg (Nat.not_lt.mpr h)]

theorem step_put {s : Sys} (h : occupied s.fifo.rptr s.fifo.wptr < s.fifo.num) (bs : List U8) :
    s.step (.put bs) = (s.store bs, .wptr (some (s.fifo.addr s.fifo.wptr))) := by
  simp only [Sys.step, myFifoWptr, if_pos h]
  rfl

/-- Bytes written inside the slot of `wptr`, which is free, are not seen in the slots in use. -/
theorem pending_write_inside {s : Sys} (hnum : IsSize s.fifo.num)
    (hspace : occupied s.fifo.rptr s.fifo.wptr < s.fifo.num) {o : Nat} {bs : List U8}
    (hbs : o + bs.length ≤ s.fifo.size) :
    ({ s with mem := write s.mem (s.fifo.addr s.fifo.wptr + o) bs } : Sys).pending =
      s.pending := by
  refine window_store hnum hspace ?_
  intro k hk
  rw [add_occupied] at hk
  exact read_write_inside le_rfl hbs hk

/-- Bytes written from the start of that slot. -/
theorem pending_write {s : Sys} (hnum : IsSize s.fifo.num)
    (hspace : occupied s.fifo.rptr s.fifo.wptr < s.fifo.num) {bs : List U8}
    (hbs : bs.length ≤ s.fifo.size) : (s.fill bs).pending = s.pending :=
  pending_write_inside (o := 0) hnum hspace (by rw [Nat.zero_add]; exact hbs)

/-- The slot of `wptr`, counted in. -/
theorem pending_next {s : Sys} (hnum : IsSize s.fifo.num)
    (hspace : occupied s.fifo.rptr s.fifo.wptr < s.fifo.num) :
    ({ s with fifo := myFifoNext s.fifo } : Sys).pending =
      s.pending ++ [s.slots (slot s.fifo.num s.fifo.wptr)] :=
  pending_push hnum hspace fun _ _ => rfl

theorem prefix_fill (s : Sys) {bs : List U8} (hbs : bs.length ≤ s.fifo.size) :
    bs <+: (s.fill bs).slots (slot s.fifo.num s.fifo.wptr) :=
  prefix_read_write _ _ hbs

theorem pending_store {s : Sys} (hnum : IsSize s.fifo.num)
    (hspace : occupied s.fifo.rptr s.fifo.wptr < s.fifo.num) {bs : List U8}
    (hbs : bs.length ≤ s.fifo.size) : ∃ frame, bs <+: frame ∧
      (s.store bs).pending = s.pending ++ [frame] := by
  refine ⟨_, prefix_fill s hbs, ?_⟩
  rw [← pending_write hnum hspace hbs]
  exact pending_next (s := s.fill bs) hnum hspace

theorem pending_get {s : Sys} (h : s.fifo.rptr ≠ s.fifo.wptr) :
    s.pending = read s.mem (s.fifo.addr s.fifo.rptr) s.fifo.size ::
      (s.step .pop).1.pending :=
  Ring.pending_pop h

end TelinkB91.Fifo
