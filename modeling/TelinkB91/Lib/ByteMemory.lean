import Mathlib.Data.List.Basic

/-!
# Library — flat memory

A memory is a function from addresses to bytes; the bytes may be of any type.  `write m a bs`
stores `bs` from the address `a` on, and `read m a n` is the `n` bytes from there.

* `read_write`: what was written is read back.
* `prefix_read_write`: a reader of more bytes finds it in front.
* `read_write_apart`: a write elsewhere is not seen.
* `copy_of_le`: a copy to lower addresses, byte by byte, may overlap what it copies.
* `read_write_inside`, `read_write_slot`: of slots of one size, one after the other, a write into
  one leaves the others alone.
-/

namespace ByteMemory

variable {β : Type*}

/-- The `n` bytes from `a` on. -/
def read (m : Nat → β) (a n : Nat) : List β := (List.range n).map fun i => m (a + i)

/-- The memory after `bs` are stored from `a` on. -/
def write (m : Nat → β) (a : Nat) (bs : List β) : Nat → β := fun x =>
  if a ≤ x then bs[x - a]?.getD (m x) else m x

@[simp] theorem length_read (m : Nat → β) (a n : Nat) : (read m a n).length = n := by
  rw [read, List.length_map, List.length_range]

theorem read_congr {m m' : Nat → β} {a n : Nat} (h : ∀ x, a ≤ x → x < a + n → m x = m' x) :
    read m a n = read m' a n :=
  List.map_congr_left fun i hi =>
    h (a + i) (Nat.le_add_right a i) (Nat.add_lt_add_left (List.mem_range.mp hi) a)

theorem read_append (m : Nat → β) (a n k : Nat) :
    read m a (n + k) = read m a n ++ read m (a + n) k := by
  rw [read, List.range_add, List.map_append, List.map_map, read, read]
  refine congrArg (_ ++ ·) (List.map_congr_left fun i _ => ?_)
  rw [Function.comp_apply, Nat.add_assoc]

@[simp] theorem read_zero (m : Nat → β) (a : Nat) : read m a 0 = [] := rfl

theorem read_succ (m : Nat → β) (a n : Nat) : read m a (n + 1) = m a :: read m (a + 1) n := by
  rw [Nat.add_comm, read_append]
  rfl

theorem take_read (m : Nat → β) (a n k : Nat) : (read m a n).take k = read m a (min k n) := by
  rw [read, ← List.map_take, List.take_range, read]

theorem drop_read (m : Nat → β) (a n k : Nat) : (read m a n).drop k = read m (a + k) (n - k) := by
  rcases Nat.le_total k n with h | h
  · obtain ⟨j, rfl⟩ := Nat.exists_eq_add_of_le h
    rw [read_append, List.drop_left' (length_read m a k), Nat.add_sub_cancel_left]
  · rw [Nat.sub_eq_zero_of_le h]
    exact List.drop_of_length_le (by rw [length_read]; exact h)

theorem write_apart {m : Nat → β} {a x : Nat} {bs : List β} (h : x < a ∨ a + bs.length ≤ x) :
    write m a bs x = m x := by
  rcases h with h | h
  · exact if_neg (Nat.not_le.mpr h)
  · have hnone : bs[x - a]? = none := List.getElem?_eq_none (Nat.le_sub_of_add_le' h)
    simp only [write, hnone, Option.getD_none, ite_self]

theorem write_at {m : Nat → β} {a i : Nat} {bs : List β} {b : β} (h : bs[i]? = some b) :
    write m a bs (a + i) = b := by
  rw [write, if_pos (Nat.le_add_right a i), Nat.add_sub_cancel_left, h, Option.getD_some]

theorem read_write (m : Nat → β) (a : Nat) (bs : List β) :
    read (write m a bs) a bs.length = bs := by
  refine List.ext_getElem (length_read _ _ _) fun i h _ => ?_
  rw [length_read] at h
  simp only [read, List.getElem_map, List.getElem_range]
  exact write_at (List.getElem?_eq_getElem h)

theorem prefix_read_write (m : Nat → β) (a : Nat) {bs : List β} {n : Nat} (h : bs.length ≤ n) :
    bs <+: read (write m a bs) a n := by
  obtain ⟨k, rfl⟩ := Nat.exists_eq_add_of_le h
  rw [read_append, read_write]
  exact List.prefix_append _ _

theorem read_write_apart {m : Nat → β} {a b n : Nat} {bs : List β}
    (h : a + n ≤ b ∨ b + bs.length ≤ a) : read (write m b bs) a n = read m a n := by
  refine read_congr fun x h₁ h₂ => write_apart ?_
  rcases h with h | h
  · exact .inl (Nat.lt_of_lt_of_le h₂ h)
  · exact .inr (Nat.le_trans h h₁)

/-- A slot that starts behind another starts behind its end. -/
theorem slot_apart {k j : Nat} (h : k < j) (size : Nat) : k * size + size ≤ j * size := by
  rw [← Nat.succ_mul]
  exact Nat.mul_le_mul_right size h

/-- **Non-interference.**  Bytes that stay inside the slot `j` leave every other slot alone. -/
theorem read_write_inside {m : Nat → β} {bs : List β} {a size n k j o : Nat} (hn : n ≤ size)
    (hbs : o + bs.length ≤ size) (h : k ≠ j) :
    read (write m (a + j * size + o) bs) (a + k * size) n = read m (a + k * size) n := by
  refine read_write_apart ?_
  rcases Nat.lt_or_gt_of_ne h with h | h
  · have hapart := slot_apart h size
    exact .inl (by omega)
  · have hapart := slot_apart h size
    exact .inr (by omega)

/-- Bytes from the start of the slot `j`. -/
theorem read_write_slot {m : Nat → β} {bs : List β} {a size n k j : Nat} (hn : n ≤ size)
    (hbs : bs.length ≤ size) (h : k ≠ j) :
    read (write m (a + j * size) bs) (a + k * size) n = read m (a + k * size) n :=
  read_write_inside (o := 0) hn (by rw [Nat.zero_add]; exact hbs) h

/-- Two writes, one behind the other, are one. -/
theorem write_append (m : Nat → β) (a : Nat) (bs cs : List β) :
    write m a (bs ++ cs) = write (write m a bs) (a + bs.length) cs := by
  funext x
  by_cases h : a + bs.length ≤ x
  · have hle : a ≤ x := Nat.le_trans (Nat.le_add_right _ _) h
    have hlen : bs.length ≤ x - a := Nat.le_sub_of_add_le' h
    rw [write, if_pos hle, List.getElem?_append_right hlen, write, if_pos h, write_apart (.inr h),
      Nat.sub_sub]
  · rw [write_apart (.inl (Nat.not_le.mp h))]
    by_cases hle : a ≤ x
    · have hlen : x - a < bs.length := Nat.sub_lt_left_of_lt_add hle (Nat.not_le.mp h)
      rw [write, if_pos hle, List.getElem?_append_left hlen, write, if_pos hle]
    · rw [write_apart (.inl (Nat.not_le.mp hle)), write_apart (.inl (Nat.not_le.mp hle))]

/-- `n` bytes copied from `src` to `dst`, one after the other, upwards. -/
def copy (m : Nat → β) (dst src : Nat) : Nat → Nat → β
  | 0 => m
  | n + 1 => write (copy m dst src n) (dst + n) [copy m dst src n (src + n)]

/-- **Downwards.**  The bytes that are overwritten have been copied. -/
theorem copy_of_le (m : Nat → β) {dst src : Nat} (h : dst ≤ src) (n : Nat) :
    copy m dst src n = write m dst (read m src n) := by
  induction n with
  | zero =>
      funext x
      rw [copy, read_zero, write_apart]
      exact Nat.lt_or_ge x dst
  | succ n ih =>
      have hnext : write m dst (read m src n) (src + n) = m (src + n) := by
        refine write_apart (.inr ?_)
        rw [length_read]
        exact Nat.add_le_add_right h n
      have hlast : read m (src + n) 1 = [m (src + n)] := rfl
      rw [copy, ih, hnext, read_append, write_append, length_read, hlast]

end ByteMemory
