import TelinkB91.Fifo.MyFifo

/-!
# Fifo — a bounded queue

What `my_fifo_t` is for: a queue of records with room for `num` of them.  `Queue.step` is that
queue, and `Holds` relates a FIFO in memory to it: the slots in use hold the records of the queue,
each at the front of its slot, the oldest first.

* `Holds.step`: one call of the code is one step of the queue, with the same answer.
* `refines_queue`: so are the calls of a run, however often the counters wrap.
-/

namespace TelinkB91.Fifo
open Ring Runs ByteMemory

/-- The answers of a queue. -/
inductive Answer where
  | accepted (b : Bool)
  | oldest (r : Option (List U8))
  | unit

/-- The queue of capacity `cap`. -/
def Queue.step (cap : Nat) (q : List (List U8)) : Op → List (List U8) × Answer
  | .push p n =>
      if q.length < cap then (q ++ [record p n], .accepted true) else (q, .accepted false)
  | .put bs => if q.length < cap then (q ++ [bs], .accepted true) else (q, .accepted false)
  | .get => (q, .oldest q.head?)
  | .pop => (q.tail, .unit)

/-- What a call returns says what the queue answers.  A record is at the front of its slot. -/
inductive Answers : Out → Answer → Prop where
  | ret (b : Bool) : Answers (.ret (if b then 0 else -1)) (.accepted b)
  | wptr (a : Option Nat) : Answers (.wptr a) (.accepted a.isSome)
  | empty : Answers (.got none) (.oldest none)
  | got {frame r : List U8} (h : r <+: frame) : Answers (.got (some frame)) (.oldest (some r))
  | unit : Answers .unit .unit

/-- The calls the callers make: records fit into a slot with their length in front, and nothing is
counted out of an empty FIFO. -/
def Op.Fits (s : Sys) : Op → Prop
  | .push _ n => n.toNat + 2 ≤ s.fifo.size
  | .put bs => bs.length ≤ s.fifo.size
  | .get => True
  | .pop => myFifoGet s.fifo ≠ none

instance (s : Sys) (op : Op) : Decidable (op.Fits s) := by
  cases op <;> unfold Op.Fits <;> infer_instance

/-- The slots in use hold the records of `q`. -/
structure Holds (cap : Nat) (s : Sys) (q : List (List U8)) : Prop where
  num : s.fifo.num = cap
  frames : List.Forall₂ (· <+: ·) q s.pending

section steps

variable {cap : Nat} {s : Sys} {q : List (List U8)}

theorem Holds.length (h : Holds cap s q) : q.length = occupied s.fifo.rptr s.fifo.wptr := by
  rw [h.frames.length_eq, Sys.pending, length_pending]

theorem Holds.space_iff (h : Holds cap s q) :
    q.length < cap ↔ occupied s.fifo.rptr s.fifo.wptr < s.fifo.num := by
  rw [h.length, h.num]

theorem Holds.store (hcap : IsSize cap) (h : Holds cap s q) (hspace : q.length < cap)
    {bs : List U8} (hbs : bs.length ≤ s.fifo.size) : Holds cap (s.store bs) (q ++ [bs]) := by
  have hspace := h.space_iff.mp hspace
  obtain ⟨hnum, hframes⟩ := h
  obtain ⟨frame, hprefix, hpending⟩ := pending_store (hnum ▸ hcap) hspace hbs
  refine ⟨hnum, ?_⟩
  rw [hpending]
  exact List.rel_append hframes (.cons hprefix .nil)

theorem Holds.push (hcap : IsSize cap) (h : Holds cap s q) {p : Memory} {n : BitVec 32}
    (hn : n.toNat + 2 ≤ s.fifo.size) : Holds cap (s.step (.push p n)).1
      (Queue.step cap q (.push p n)).1 ∧
        Answers (s.step (.push p n)).2 (Queue.step cap q (.push p n)).2 := by
  by_cases hspace : q.length < cap
  · have hocc := h.space_iff.mp hspace
    have hfit : (record p n).length ≤ s.fifo.size := by rwa [length_record]
    rw [step_push hocc (by omega), Queue.step, if_pos hspace]
    exact ⟨h.store hcap hspace hfit, .ret true⟩
  · have hocc := Nat.not_lt.mp fun hocc => hspace (h.space_iff.mpr hocc)
    rw [step_push_full hocc, Queue.step, if_neg hspace]
    exact ⟨h, .ret false⟩

theorem Holds.put (hcap : IsSize cap) (h : Holds cap s q) {bs : List U8}
    (hbs : bs.length ≤ s.fifo.size) : Holds cap (s.step (.put bs)).1
      (Queue.step cap q (.put bs)).1 ∧
        Answers (s.step (.put bs)).2 (Queue.step cap q (.put bs)).2 := by
  by_cases hspace : q.length < cap
  · have hocc := h.space_iff.mp hspace
    rw [step_put hocc, Queue.step, if_pos hspace]
    exact ⟨h.store hcap hspace hbs, .wptr (some _)⟩
  · have hocc := Nat.not_lt.mp fun hocc => hspace (h.space_iff.mpr hocc)
    rw [step_put_full hocc, Queue.step, if_neg hspace]
    exact ⟨h, .wptr none⟩

theorem Holds.get (h : Holds cap s q) : Answers (s.step .get).2 (Queue.step cap q .get).2 := by
  obtain ⟨-, hframes⟩ := h
  -- of an empty FIFO the queue is empty, since the two lists are of one length
  by_cases hempty : s.fifo.rptr = s.fifo.wptr
  · rw [Sys.pending, hempty, pending_self, List.forall₂_nil_right_iff] at hframes
    simp only [Sys.step, myFifoGet, hempty, ne_eq, not_true, if_false, Option.map_none, Queue.step,
      hframes, List.head?_nil]
    exact .empty
  · rw [pending_get hempty] at hframes
    obtain ⟨r, q', hprefix, -, rfl⟩ := List.forall₂_cons_right_iff.mp hframes
    simp only [Sys.step, myFifoGet, ne_eq, hempty, not_false_eq_true, if_true, Option.map_some,
      Queue.step, List.head?_cons]
    exact .got hprefix

theorem Holds.pop (h : Holds cap s q) (hpop : myFifoGet s.fifo ≠ none) :
    Holds cap (s.step .pop).1 (Queue.step cap q .pop).1 := by
  obtain ⟨hnum, hframes⟩ := h
  rw [pending_get (ne_of_get hpop)] at hframes
  obtain ⟨r, q', -, hrest, rfl⟩ := List.forall₂_cons_right_iff.mp hframes
  exact ⟨hnum, hrest⟩

/-- **One call.**  The FIFO answers as the queue does, and goes on holding it. -/
theorem Holds.step (hcap : IsSize cap) (h : Holds cap s q) {op : Op} (hop : op.Fits s) :
    Holds cap (s.step op).1 (Queue.step cap q op).1 ∧
      Answers (s.step op).2 (Queue.step cap q op).2 := by
  cases op with
  | push p n => exact h.push hcap hop
  | put bs => exact h.put hcap hop
  | get => exact ⟨h, h.get⟩
  | pop => exact ⟨h.pop hop, .unit⟩

end steps

theorem holds_init (size : Nat) (n : U8) (p : Nat) (m : Memory) :
    Holds n.toNat ⟨myFifoInit size n p, m⟩ [] where
  num := rfl
  frames := by
    have hnil : Sys.pending ⟨myFifoInit size n p, m⟩ = [] := pending_self _
    rw [hnil]
    exact .nil

/-- **Refinement.**  Every run of calls on an initialised FIFO is answered as the queue of
capacity `num` answers it. -/
theorem refines_queue {n : U8} (hn : IsSize n.toNat) (size p : Nat) (m : Memory) {ops : List Op}
    (hops : Along (fun s op => (Sys.step s op).1) (fun s op => op.Fits s)
      ⟨myFifoInit size n p, m⟩ ops) :
    List.Forall₂ Answers (outputs Sys.step ⟨myFifoInit size n p, m⟩ ops)
      (outputs (Queue.step n.toNat) [] ops) :=
  Along.refines (fun _ _ _ h hop => h.step hn hop) (holds_init size n p m) hops

/-- Two slots of five bytes at the address 16.  The third record finds no room. -/
def threeRecords : List Op :=
  [.push (fun i => BitVec.ofNat 8 i) 3#32, .put [7#8], .push (fun _ => 9#8) 1#32, .get, .pop, .get,
    .pop, .get]

theorem refines_queue_three :
    outputs Sys.step ⟨myFifoInit 5 2#8 16, fun _ => 0xFF#8⟩ threeRecords =
      [.ret 0, .wptr (some 21), .ret (-1), .got (some [3#8, 0#8, 0#8, 1#8, 2#8]), .unit,
        .got (some [7#8, 0xFF#8, 0xFF#8, 0xFF#8, 0xFF#8]), .unit, .got none] ∧
      List.Forall₂ Answers
        (outputs Sys.step ⟨myFifoInit 5 2#8 16, fun _ => 0xFF#8⟩ threeRecords)
        (outputs (Queue.step 2) [] threeRecords) := by
  have hsize : IsSize (2#8).toNat := ⟨1, by decide, rfl⟩
  refine ⟨by decide +kernel, ?_⟩
  exact refines_queue hsize 5 16 (fun _ => 0xFF#8) (by decide +kernel)

end TelinkB91.Fifo
