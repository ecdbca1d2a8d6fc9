import TelinkB91.Fifo.MyFifo

/-!
# Fifo — a pushed record is read back

`my_fifo_push` stores `n` bytes behind a header of two, and accepts any `n` below `size`.  A record
of `size - 1` bytes is one byte longer than its slot, and the header has no room for an `n` from
65536 on.

`Traced` is a FIFO with the records it has accepted and not yet counted out.

* `push_intact_iff`: an accepted record is intact in its slot just when `n + 2 ≤ size` and `n` fits
  into the header.
* `records_intact`: where all accepted records are such, every write is inside the buffer, and the
  oldest record is intact at any time.
* `record_torn`: two records that are one byte too long.
-/

namespace TelinkB91.Fifo
open Ring Runs ByteMemory

/-- What a call writes: an address, and the bytes from there on. -/
def Sys.written (s : Sys) : Op → Option (Nat × List U8)
  | .push p n =>
      if (s.step (.push p n)).2 = .ret 0 then some (s.fifo.addr s.fifo.wptr, record p n) else none
  | .put bs => (myFifoWptr s.fifo).map fun a => (a, bs)
  | .get | .pop => none

/-- The slot holds the length of `data` in two bytes, the low one first, and `data` behind. -/
def Intact (frame data : List U8) : Prop :=
  match frame with
  | lo :: hi :: body => lo.toNat + 256 * hi.toNat = data.length ∧ data <+: body
  | _ => False

instance (frame data : List U8) : Decidable (Intact frame data) := by
  unfold Intact
  split <;> infer_instance

/-- A FIFO, and the records it has accepted and not counted out, oldest first. -/
structure Traced where
  sys : Sys
  accepted : List (List U8)

def Traced.step (t : Traced) (op : Op) : Traced where
  sys := (t.sys.step op).1
  accepted :=
    match op with
    | .push p n => if (t.sys.step op).2 = .ret 0 then t.accepted ++ [payload p n] else t.accepted
    | .pop => t.accepted.tail
    | .put _ | .get => t.accepted

/-- `my_fifo_init` of a buffer at `p`, in the memory `m`. -/
def Traced.init (size : Nat) (n : U8) (p : Nat) (m : Memory) : Traced :=
  ⟨⟨myFifoInit size n p, m⟩, []⟩

/-- The calls: `my_fifo_push`, `my_fifo_get`, and `my_fifo_pop` when `my_fifo_get` is not null. -/
def Used (t : Traced) : Op → Prop
  | .push _ _ | .get => True
  | .put _ => False
  | .pop => myFifoGet t.sys.fifo ≠ none

/-- A record that is not refused fits into a slot with its header, and its length into the
header. -/
def Short (t : Traced) : Op → Prop
  | .push _ n => occupied t.sys.fifo.rptr t.sys.fifo.wptr < t.sys.fifo.num →
      n.toNat < t.sys.fifo.size → n.toNat + 2 ≤ t.sys.fifo.size ∧ n.toNat < 65536
  | _ => True

/-- The call writes inside the buffer only. -/
def Inside (t : Traced) (op : Op) : Prop :=
  match t.sys.written op with
  | none => True
  | some (a, bs) => t.sys.fifo.p ≤ a ∧
      a + bs.length ≤ t.sys.fifo.p + t.sys.fifo.size * t.sys.fifo.num

/-- `my_fifo_get` finds the oldest accepted record, intact, or null where there is none. -/
def Traced.HeadIntact (t : Traced) : Prop :=
  match t.accepted, (t.sys.step .get).2 with
  | [], .got none => True
  | data :: _, .got (some frame) => Intact frame data
  | _, _ => False

instance (t : Traced) : ∀ op, Decidable (Used t op)
  | .push _ _ | .get => .isTrue trivial
  | .put _ => .isFalse id
  | .pop => inferInstanceAs (Decidable (myFifoGet t.sys.fifo ≠ none))

instance (t : Traced) : ∀ op, Decidable (Short t op)
  | .push _ n => inferInstanceAs (Decidable (occupied t.sys.fifo.rptr t.sys.fifo.wptr <
      t.sys.fifo.num → n.toNat < t.sys.fifo.size →
        n.toNat + 2 ≤ t.sys.fifo.size ∧ n.toNat < 65536))
  | .put _ | .get | .pop => .isTrue trivial

instance (t : Traced) (op : Op) : Decidable (Inside t op) := by
  unfold Inside
  split <;> infer_instance

instance (t : Traced) : Decidable t.HeadIntact := by
  unfold Traced.HeadIntact
  split <;> infer_instance

/-! ### One record -/

/-- `written` is what the call does to memory. -/
theorem step_mem (s : Sys) (op : Op) : (s.step op).1.mem =
    match s.written op with
    | none => s.mem
    | some (a, bs) => write s.mem a bs := by
  cases op with
  | push p n =>
      by_cases hspace : occupied s.fifo.rptr s.fifo.wptr < s.fifo.num
      · by_cases hn : n.toNat < s.fifo.size
        · simp [Sys.written, step_push hspace hn, Sys.store, Sys.fill]
        · simp [Sys.written, step_push_long (Nat.not_lt.mp hn)]
      · simp [Sys.written, step_push_full (Nat.not_lt.mp hspace)]
  | put bs =>
      by_cases hspace : occupied s.fifo.rptr s.fifo.wptr < s.fifo.num
      · simp [Sys.written, Sys.step, myFifoWptr, hspace]
      · simp [Sys.written, Sys.step, myFifoWptr, hspace]
  | get => rfl
  | pop => rfl

/-- The two bytes of the header, for an `n` that has no more. -/
theorem header_length {n : BitVec 32} (h : n.toNat < 65536) :
    (n.setWidth 8).toNat + 256 * ((n >>> 8).setWidth 8).toNat = n.toNat := by
  rw [BitVec.toNat_setWidth, BitVec.toNat_setWidth, BitVec.toNat_ushiftRight,
    Nat.shiftRight_eq_div_pow]
  omega

theorem intact_of_record {p : Memory} {n : BitVec 32} (h : n.toNat < 65536) {frame : List U8}
    (hframe : record p n <+: frame) : Intact frame (payload p n) := by
  obtain ⟨rest, rfl⟩ := hframe
  refine ⟨?_, List.prefix_append _ _⟩
  rw [payload, length_read]
  exact header_length h

theorem Intact.length {frame data : List U8} (h : Intact frame data) :
    data.length + 2 ≤ frame.length ∧ data.length < 65536 := by
  match frame, h with
  | lo :: hi :: body, ⟨hlen, hprefix⟩ =>
      have hle := hprefix.length_le
      have hlo := lo.isLt
      have hhi := hi.isLt
      rw [List.length_cons, List.length_cons]
      omega

/-- **The boundary.**  Right after a push that was accepted, its slot holds the record just when
the record fits. -/
theorem push_intact_iff {s : Sys} {p : Memory} {n : BitVec 32}
    (h : (s.step (.push p n)).2 = .ret 0) :
    Intact ((s.step (.push p n)).1.slots (slot s.fifo.num s.fifo.wptr)) (payload p n) ↔
      n.toNat + 2 ≤ s.fifo.size ∧ n.toNat < 65536 := by
  have hspace : occupied s.fifo.rptr s.fifo.wptr < s.fifo.num := by
    refine Nat.lt_of_not_le ?_
    intro hfull
    simp [step_push_full hfull] at h
  have hn : n.toNat < s.fifo.size := by
    refine Nat.lt_of_not_le ?_
    intro hlong
    simp [step_push_long hlong] at h
  rw [step_push hspace hn]
  constructor
  · intro hintact
    have hlen := hintact.length
    rwa [payload, length_read, Sys.slots, length_read] at hlen
  · rintro ⟨hfit, hheader⟩
    refine intact_of_record hheader (prefix_read_write _ _ ?_)
    rwa [length_record]

/-! ### Runs -/

/-- The slots in use hold the accepted records, all intact. -/
structure Traced.Intact (num : Nat) (t : Traced) : Prop where
  num : t.sys.fifo.num = num
  records : List.Forall₂ (fun data frame => Fifo.Intact frame data) t.accepted t.sys.pending

section steps

variable {num : Nat} {t : Traced}

theorem Traced.Intact.push (hnum : IsSize num) (h : t.Intact num) (p : Memory) {n : BitVec 32}
    (hspace : occupied t.sys.fifo.rptr t.sys.fifo.wptr < t.sys.fifo.num)
    (hfit : n.toNat + 2 ≤ t.sys.fifo.size) (hheader : n.toNat < 65536) :
    (t.step (.push p n)).Intact num ∧ Inside t (.push p n) := by
  obtain ⟨heq, hrecords⟩ := h
  -- the header makes a frame longer than the acceptance test allows for
  have hstep := step_push hspace (by omega : n.toNat < t.sys.fifo.size) p
  have hlen : (record p n).length ≤ t.sys.fifo.size := by rwa [length_record]
  constructor
  · obtain ⟨frame, hprefix, hpending⟩ := pending_store (heq ▸ hnum) hspace hlen
    refine ⟨?_, ?_⟩
    · simp only [Traced.step, hstep]
      exact heq
    · simp only [Traced.step, hstep, if_true, hpending]
      exact List.rel_append hrecords (.cons (intact_of_record hheader hprefix) .nil)
  · have hslot := slot_apart (slot_lt (heq ▸ hnum) t.sys.fifo.wptr) t.sys.fifo.size
    simp only [Inside, Sys.written, hstep, if_true, MyFifo.addr]
    rw [Nat.mul_comm t.sys.fifo.size]
    omega

theorem Traced.Intact.pop (h : t.Intact num) (hpop : myFifoGet t.sys.fifo ≠ none) :
    (t.step .pop).Intact num := by
  obtain ⟨heq, hrecords⟩ := h
  rw [pending_get (ne_of_get hpop)] at hrecords
  obtain ⟨data, rest, -, hrest, haccepted⟩ := List.forall₂_cons_right_iff.mp hrecords
  refine ⟨heq, ?_⟩
  simp only [Traced.step, haccepted, List.tail_cons]
  exact hrest

/-- **One call.**  It keeps the accepted records intact, and writes inside the buffer. -/
theorem Traced.Intact.step (hnum : IsSize num) (h : t.Intact num) {op : Op} (hused : Used t op)
    (hshort : Short t op) : (t.step op).Intact num ∧ Inside t op := by
  cases op with
  | push p n =>
      by_cases hspace : occupied t.sys.fifo.rptr t.sys.fifo.wptr < t.sys.fifo.num
      · by_cases hn : n.toNat < t.sys.fifo.size
        · obtain ⟨hfit, hheader⟩ := hshort hspace hn
          exact h.push hnum p hspace hfit hheader
        · have hstep := step_push_long (Nat.not_lt.mp hn) p
          constructor
          · simpa [Traced.step, hstep] using h
          · simp [Inside, Sys.written, hstep]
      · have hstep := step_push_full (Nat.not_lt.mp hspace) p n
        constructor
        · simpa [Traced.step, hstep] using h
        · simp [Inside, Sys.written, hstep]
  | put bs => exact hused.elim
  | get => exact ⟨h, trivial⟩
  | pop => exact ⟨h.pop hused, trivial⟩

theorem Traced.Intact.head (h : t.Intact num) : t.HeadIntact := by
  obtain ⟨-, hrecords⟩ := h
  by_cases hempty : t.sys.fifo.rptr = t.sys.fifo.wptr
  · rw [Sys.pending, hempty, pending_self, List.forall₂_nil_right_iff] at hrecords
    simp [Traced.HeadIntact, Sys.step, myFifoGet, hempty, hrecords]
  · rw [pending_get hempty] at hrecords
    obtain ⟨data, rest, hintact, -, haccepted⟩ := List.forall₂_cons_right_iff.mp hrecords
    simp only [Traced.HeadIntact, haccepted, Sys.step, myFifoGet, ne_eq, hempty, not_false_eq_true,
      if_true, Option.map_some]
    exact hintact

end steps

theorem intact_init (size : Nat) (n : U8) (p : Nat) (m : Memory) :
    (Traced.init size n p m).Intact n.toNat where
  num := rfl
  records := by
    have hnil : (Traced.init size n p m).sys.pending = [] := pending_self _
    rw [hnil]
    exact .nil

/-- **Read back.**  In every run of pushes and pops whose accepted records fit, all writes are
inside the buffer, and the oldest accepted record is intact in the slot at the head. -/
theorem records_intact {n : U8} (hn : IsSize n.toNat) (size p : Nat) (m : Memory) {ops : List Op}
    (hused : Along Traced.step Used (Traced.init size n p m) ops)
    (hshort : Along Traced.step Short (Traced.init size n p m) ops) :
    Along Traced.step Inside (Traced.init size n p m) ops ∧
      (runFrom Traced.step (Traced.init size n p m) ops).HeadIntact := by
  have hrun := hused.and hshort
  have hstep : ∀ t op, t.Intact n.toNat → Used t op ∧ Short t op → (t.step op).Intact n.toNat := by
    intro t op h hop
    exact (h.step hn hop.1 hop.2).1
  constructor
  · refine hrun.derive hstep ?_ (intact_init size n p m)
    intro t op h hop
    exact (h.step hn hop.1 hop.2).2
  · exact (hrun.invariant hstep (intact_init size n p m)).head

/-- Two slots of five bytes. -/
theorem records_intact_full :
    let ops : List Op := [.push (fun i => BitVec.ofNat 8 i) 3#32, .push (fun _ => 9#8) 2#32,
      .push (fun _ => 0#8) 1#32, .get, .pop, .get]
    Along Traced.step Inside (Traced.init 5 2#8 16 fun _ => 0xFF#8) ops ∧
      (runFrom Traced.step (Traced.init 5 2#8 16 fun _ => 0xFF#8) ops).HeadIntact := by
  have hsize : IsSize (2#8).toNat := ⟨1, by decide, rfl⟩
  exact records_intact hsize 5 16 (fun _ => 0xFF#8) (by decide +kernel) (by decide +kernel)

/-- **One byte too long.**  Of two slots of four bytes, each takes a record of three.  The second
writes behind the buffer, and the first is not intact. -/
theorem record_torn :
    let ops : List Op := [.push (fun _ => 0xAA#8) 3#32, .push (fun _ => 0xBB#8) 3#32]
    let t := Traced.init 4 2#8 16 fun _ => 0xFF#8
    Along Traced.step Used t ops ∧ ¬ Along Traced.step Inside t ops ∧
      ¬ (runFrom Traced.step t ops).HeadIntact := by
  decide +kernel

end TelinkB91.Fifo
