import Mathlib.Algebra.Order.Ring.Nat
import Mathlib.Data.BitVec
import Mathlib.Data.List.Basic

/-!
# Library — rings of slots behind 8-bit counters

A ring has `num` slots.  A read and a write counter of eight bits only ever count up, and wrap; a
counter `c` stands for the slot `c & (num - 1)`, and the difference of the counters is the number
of slots in use.  With `num` a power of two up to 128 the slots behind the counters from `r` on,
`num` of them at most, are all different, whatever the phase of the counters.

`pending num mem r w` is what the slots in use hold, oldest first.

* `pending_pop`: counting `r` up takes the head off.
* `pending_push`: storing into the slot of `w` and counting `w` up puts a value at the end, where
  a slot was free.
* `pending_push_full`: where none was, and `r` is counted up too, the oldest value is lost.
-/

namespace Ring

variable {α : Type*}

abbrev Counter := BitVec 8

/-- The numbers of slots: the powers of two up to 128. -/
def IsSize (num : Nat) : Prop := ∃ k ≤ 7, num = 2 ^ k

/-- `c & (num - 1)`. -/
def slot (num : Nat) (c : Counter) : Nat := c.toNat &&& (num - 1)

/-- `(w - r) & 255`. -/
def occupied (r w : Counter) : Nat := (w - r).toNat

/-- What the `n` slots from the one of `c` on hold. -/
def window (num : Nat) (mem : Nat → α) : Counter → Nat → List α
  | _, 0 => []
  | c, n + 1 => mem (slot num c) :: window num mem (c + 1) n

/-- What the slots in use hold, oldest first. -/
def pending (num : Nat) (mem : Nat → α) (r w : Counter) : List α :=
  window num mem r (occupied r w)

/-! ### Slots -/

section slots

variable {num : Nat}

theorem IsSize.pos (h : IsSize num) : 0 < num := by
  obtain ⟨k, -, rfl⟩ := h
  exact Nat.two_pow_pos k

theorem IsSize.dvd (h : IsSize num) : num ∣ 128 := by
  obtain ⟨k, hk, rfl⟩ := h
  exact Nat.pow_dvd_pow 2 hk

theorem IsSize.le (h : IsSize num) : num ≤ 128 := Nat.le_of_dvd (by decide) h.dvd

theorem slot_eq (h : IsSize num) (c : Counter) : slot num c = c.toNat % num := by
  obtain ⟨k, -, rfl⟩ := h
  exact Nat.and_two_pow_sub_one_eq_mod _ _

theorem slot_lt (h : IsSize num) (c : Counter) : slot num c < num := by
  rw [slot_eq h]
  exact Nat.mod_lt _ h.pos

theorem slot_add (h : IsSize num) (c : Counter) (i : Nat) :
    slot num (c + BitVec.ofNat 8 i) = (c.toNat + i) % num := by
  have hdvd : num ∣ 2 ^ 8 := Nat.dvd_trans h.dvd (by decide)
  rw [slot_eq h, BitVec.toNat_add, BitVec.toNat_ofNat, Nat.add_mod_mod, Nat.mod_mod_of_dvd _ hdvd]

/-- **Distinct slots.**  The `num` counters from `c` on stand for different slots. -/
theorem slot_inj (h : IsSize num) {c : Counter} {i j : Nat} (hi : i < num) (hj : j < num)
    (heq : slot num (c + BitVec.ofNat 8 i) = slot num (c + BitVec.ofNat 8 j)) : i = j := by
  rw [slot_add h, slot_add h] at heq
  have hmod : i % num = j % num := Nat.ModEq.add_left_cancel' c.toNat heq
  rwa [Nat.mod_eq_of_lt hi, Nat.mod_eq_of_lt hj] at hmod

end slots

/-! ### Counters -/

@[simp] theorem occupied_self (r : Counter) : occupied r r = 0 := by
  rw [occupied, BitVec.sub_self]
  rfl

theorem occupied_eq_zero {r w : Counter} : occupied r w = 0 ↔ r = w := by
  simp only [occupied]
  constructor
  · intro h
    bv_omega
  · rintro rfl
    bv_omega

theorem ne_of_occupied {r w : Counter} (h : 0 < occupied r w) : r ≠ w := by
  rintro rfl
  rw [occupied_self] at h
  exact Nat.lt_irrefl 0 h

theorem occupied_pop {r w : Counter} (h : r ≠ w) : occupied (r + 1) w + 1 = occupied r w := by
  simp only [occupied]
  bv_omega

theorem occupied_push {r w : Counter} (h : occupied r w < 255) :
    occupied r (w + 1) = occupied r w + 1 := by
  simp only [occupied] at h ⊢
  bv_omega

theorem add_occupied (r w : Counter) : r + BitVec.ofNat 8 (occupied r w) = w := by
  simp only [occupied]
  bv_omega

/-- The difference of the counters, taken modulo `2 * num`, while it is at most `num + 1`. -/
theorem occupied_and {num : Nat} (h : IsSize num) (htwo : 2 ≤ num) {r w : Counter}
    (hle : occupied r w ≤ num + 1) : occupied r w &&& (num * 2 - 1) = occupied r w := by
  obtain ⟨k, hk, rfl⟩ := h
  rw [← Nat.pow_succ, Nat.and_two_pow_sub_one_eq_mod]
  exact Nat.mod_eq_of_lt (by rw [Nat.pow_succ]; omega)

/-! ### Windows -/

section windows

variable {num : Nat} {mem mem' : Nat → α}

@[simp] theorem length_window (c : Counter) (n : Nat) : (window num mem c n).length = n := by
  induction n generalizing c with
  | zero => rfl
  | succ n ih => rw [window, List.length_cons, ih]

theorem add_ofNat_succ (c : Counter) (i : Nat) :
    c + 1 + BitVec.ofNat 8 i = c + BitVec.ofNat 8 (i + 1) := by
  have hone : (1 : Counter).toNat = 1 := rfl
  refine BitVec.eq_of_toNat_eq ?_
  rw [BitVec.toNat_add, BitVec.toNat_add, BitVec.toNat_add, BitVec.toNat_ofNat, BitVec.toNat_ofNat,
    hone]
  omega

theorem window_congr {c : Counter} {n : Nat}
    (h : ∀ i < n, mem (slot num (c + BitVec.ofNat 8 i)) = mem' (slot num (c + BitVec.ofNat 8 i))) :
    window num mem c n = window num mem' c n := by
  induction n generalizing c with
  | zero => rfl
  | succ n ih =>
      have hhead := h 0 (Nat.succ_pos n)
      rw [BitVec.add_zero] at hhead
      rw [window, window, hhead, ih fun i hi => ?_]
      rw [add_ofNat_succ]
      exact h (i + 1) (Nat.succ_lt_succ hi)

theorem window_append (c : Counter) (m n : Nat) :
    window num mem c (m + n) = window num mem c m ++ window num mem (c + BitVec.ofNat 8 m) n := by
  induction m generalizing c with
  | zero => rw [Nat.zero_add, window, List.nil_append, BitVec.add_zero]
  | succ m ih => rw [Nat.succ_add, window, ih, window, List.cons_append, add_ofNat_succ]

/-- A store behind the window leaves it alone. -/
theorem window_store (h : IsSize num) {c : Counter} {n : Nat} (hn : n < num)
    (hmem : ∀ k, k ≠ slot num (c + BitVec.ofNat 8 n) → mem' k = mem k) :
    window num mem' c n = window num mem c n := by
  refine window_congr fun i hi => hmem _ fun heq => ?_
  exact absurd (slot_inj h (hi.trans hn) hn heq) (Nat.ne_of_lt hi)

theorem mem_window {c : Counter} {n : Nat} {x : α} (h : x ∈ window num mem c n) :
    ∃ i < n, mem (slot num (c + BitVec.ofNat 8 i)) = x := by
  induction n generalizing c with
  | zero => exact absurd h List.not_mem_nil
  | succ n ih =>
      rcases List.mem_cons.mp h with rfl | h
      · exact ⟨0, Nat.succ_pos n, by rw [BitVec.add_zero]⟩
      · obtain ⟨i, hi, hmem⟩ := ih h
        rw [add_ofNat_succ] at hmem
        exact ⟨i + 1, Nat.succ_lt_succ hi, hmem⟩

end windows

/-! ### The slots in use -/

section pending

variable {num : Nat} {mem mem' : Nat → α} {r w : Counter}

@[simp] theorem length_pending : (pending num mem r w).length = occupied r w := length_window _ _

@[simp] theorem pending_self (r : Counter) : pending num mem r r = [] := by
  rw [pending, occupied_self]
  rfl

theorem pending_eq_nil : pending num mem r w = [] ↔ r = w := by
  rw [← List.length_eq_zero_iff, length_pending, occupied_eq_zero]

theorem pending_pop (h : r ≠ w) :
    pending num mem r w = mem (slot num r) :: pending num mem (r + 1) w := by
  rw [pending, ← occupied_pop h, window, pending]

/-- **While a slot is free, the one of `w` is.** -/
theorem slot_ne_writer (h : IsSize num) (hspace : occupied r w < num) {i : Nat}
    (hi : i < occupied r w) : slot num (r + BitVec.ofNat 8 i) ≠ slot num w := by
  intro heq
  have hslot : slot num (r + BitVec.ofNat 8 i) =
      slot num (r + BitVec.ofNat 8 (occupied r w)) := by
    rw [add_occupied]
    exact heq
  exact absurd (slot_inj h (hi.trans hspace) hspace hslot) (Nat.ne_of_lt hi)

theorem slot_apart_of_mem (h : IsSize num) (hspace : occupied r w < num) {x : α}
    (hx : x ∈ pending num mem r w) : ∃ k, k ≠ slot num w ∧ mem k = x := by
  obtain ⟨i, hi, hmem⟩ := mem_window hx
  exact ⟨_, slot_ne_writer h hspace hi, hmem⟩

/-- A value is stored into the slot of `w`, and the slots in use are left alone. -/
theorem pending_append (hlt : occupied r w < 255)
    (hmem : ∀ i < occupied r w,
      mem' (slot num (r + BitVec.ofNat 8 i)) = mem (slot num (r + BitVec.ofNat 8 i))) :
    pending num mem' r (w + 1) = pending num mem r w ++ [mem' (slot num w)] := by
  rw [pending, occupied_push hlt, window_append, add_occupied, pending]
  exact congrArg (· ++ _) (window_congr hmem)

theorem pending_push (h : IsSize num) (hspace : occupied r w < num)
    (hmem : ∀ k, k ≠ slot num w → mem' k = mem k) :
    pending num mem' r (w + 1) = pending num mem r w ++ [mem' (slot num w)] := by
  have hroom : occupied r w < 255 := hspace.trans_le (h.le.trans (by decide))
  exact pending_append hroom fun i hi => hmem _ (slot_ne_writer h hspace hi)

theorem pending_push_full (h : IsSize num) (hfull : occupied r w = num)
    (hmem : ∀ k, k ≠ slot num w → mem' k = mem k) :
    pending num mem' (r + 1) (w + 1) =
      (pending num mem r w).tail ++ [mem' (slot num w)] := by
  have hne : r ≠ w := ne_of_occupied (hfull ▸ h.pos)
  have hspace : occupied (r + 1) w < num := by
    have hpop := occupied_pop hne
    omega
  rw [pending_push h hspace hmem, pending_pop hne, List.tail_cons]

end pending

end Ring
