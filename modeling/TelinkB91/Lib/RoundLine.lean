import Mathlib.Algebra.Order.Ring.Nat
import Mathlib.Data.Nat.ModEq
import TelinkB91.Lib.ByteMemory

/-!
# Library — a line round a ring

The cells of an unbounded line lie round a ring of `size` cells, the cell `x` at `x % size`.
`line size m a n` is what the ring holds of the `n` cells from `a` on, while none of them is
overwritten.

* `line_append`: a stretch is read in two parts.
* `line_write`: a block written behind a stretch prolongs it, while the two fit into the ring.
* `line_eq_read`: a stretch that does not reach the end of the ring is one piece of it.
* `around_cell`, `around_apart`: cells written one after the other round a ring, more of them than
  it has perhaps: what the last round has left, and that nothing else is written.
-/

namespace RoundLine
open ByteMemory

variable {α : Type*}

/-- The `n` cells from `a` on. -/
def line (size : Nat) (m : Nat → α) (a n : Nat) : List α :=
  (List.range n).map fun i => m ((a + i) % size)

section line

variable {size : Nat} {m : Nat → α}

@[simp] theorem line_zero (a : Nat) : line size m a 0 = [] := rfl

theorem line_append (a n k : Nat) :
    line size m a (n + k) = line size m a n ++ line size m (a + n) k := by
  rw [line, List.range_add, List.map_append, List.map_map, line, line]
  refine congrArg (_ ++ ·) (List.map_congr_left fun i _ => ?_)
  rw [Function.comp_apply, Nat.add_assoc]

theorem line_congr {m' : Nat → α} {a n : Nat}
    (h : ∀ i < n, m ((a + i) % size) = m' ((a + i) % size)) :
    line size m a n = line size m' a n :=
  List.map_congr_left fun i hi => h i (List.mem_range.mp hi)

/-- Two cells less than a turn apart lie in different places. -/
theorem mod_ne {a b : Nat} (h : a < b) (hsize : b < a + size) : a % size ≠ b % size := by
  intro heq
  obtain ⟨d, rfl⟩ := Nat.exists_eq_add_of_lt h
  have hmod : 0 ≡ d + 1 [MOD size] := Nat.ModEq.add_left_cancel' a heq
  have hdvd : size ∣ d + 1 := (Nat.modEq_zero_iff_dvd).mp hmod.symm
  have hle := Nat.le_of_dvd d.succ_pos hdvd
  omega

/-- A stretch that does not reach the end of the ring. -/
theorem line_eq_read {a n : Nat} (h : a % size + n ≤ size) :
    line size m a n = read m (a % size) n := by
  refine List.map_congr_left fun i hi => ?_
  have hi : i < n := List.mem_range.mp hi
  rw [← Nat.mod_add_mod, Nat.mod_eq_of_lt (by omega)]

/-- **A block behind a stretch.** -/
theorem line_write {a n : Nat} {bs : List α} (hfit : n + bs.length ≤ size)
    (hblock : (a + n) % size + bs.length ≤ size) :
    line size (write m ((a + n) % size) bs) a (n + bs.length) = line size m a n ++ bs := by
  rw [line_append, line_eq_read hblock, read_write]
  refine congrArg (· ++ bs) (line_congr fun i hi => ?_)
  -- the cells of the stretch lie apart from the block
  refine write_apart ?_
  by_contra hin
  obtain ⟨j, hj⟩ := Nat.exists_eq_add_of_le (Nat.not_lt.mp (not_or.mp hin).1)
  have hjlt : j < bs.length := by omega
  have hmod : (a + n + j) % size = (a + n) % size + j := by
    rw [← Nat.mod_add_mod, Nat.mod_eq_of_lt (by omega)]
  have hbelow : a + i < a + n + j := by omega
  exact mod_ne hbelow (by omega) (hj.trans hmod.symm)

end line

/-! ### Written round the ring -/

/-- The memory after `bs` are written from the cell `k` on, round a ring that starts at `p`. -/
def around (size : Nat) (m : Nat → α) (p k : Nat) : List α → Nat → α
  | [] => m
  | b :: bs => around size (write m (p + k % size) [b]) p (k + 1) bs

section around

variable {size p k : Nat} {m : Nat → α}

theorem around_append (bs cs : List α) :
    around size m p k (bs ++ cs) = around size (around size m p k bs) p (k + bs.length) cs := by
  induction bs generalizing m k with
  | nil => rfl
  | cons b bs ih =>
      rw [List.cons_append, around, ih, around, List.length_cons, Nat.add_assoc, Nat.add_comm 1]

/-- **The other cells.** -/
theorem around_apart {x : Nat} {bs : List α} (h : ∀ i < bs.length, x ≠ p + (k + i) % size) :
    around size m p k bs x = m x := by
  induction bs generalizing m k with
  | nil => rfl
  | cons b bs ih =>
      have hrest : ∀ i < bs.length, x ≠ p + (k + 1 + i) % size := fun i hi => by
        rw [Nat.add_assoc, Nat.add_comm 1]
        exact h (i + 1) (Nat.succ_lt_succ hi)
      have hfirst : x ≠ p + k % size := h 0 (Nat.succ_pos _)
      rw [around, ih hrest]
      refine write_apart ?_
      rw [List.length_singleton]
      omega

/-- **The last round.**  A cell that no later one lies on. -/
theorem around_cell {i : Nat} {bs : List α} (hi : i < bs.length) (hlast : bs.length ≤ i + size) :
    around size m p k bs (p + (k + i) % size) = bs[i] := by
  induction bs generalizing m k i with
  | nil => exact absurd hi i.not_lt_zero
  | cons b bs ih =>
      rw [List.length_cons] at hlast
      cases i with
      | zero =>
          have hlater : ∀ j < bs.length, p + k % size ≠ p + (k + 1 + j) % size := fun j hj heq =>
            mod_ne (by omega) (by omega) (Nat.add_left_cancel heq)
          rw [around, Nat.add_zero k, around_apart hlater]
          exact write_at (i := 0) rfl
      | succ i =>
          have hnext : k + (i + 1) = k + 1 + i := by omega
          rw [around, hnext]
          exact ih (Nat.lt_of_succ_lt_succ hi) (by omega)

end around

end RoundLine
