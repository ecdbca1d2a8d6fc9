import Mathlib.Algebra.Order.Ring.Nat
import Mathlib.Data.List.Basic
import Mathlib.Data.Int.Basic
import Mathlib.Data.Nat.Cast.Defs
import Mathlib.Logic.Function.Basic
import Mathlib.Tactic.Common

/-!
# Library — rings whose pointers are masked

Two pointers run modulo `M` over a buffer of `N` entries, where `N` divides `M`.  With `M = N` one
entry stays free, and with a larger `M` an empty ring and a full one differ.

* `held`: the entries from the reader to the writer, oldest first.
* `held_push`, `held_push_full`, `held_cons`: a push into a ring with room, a push that costs the
  oldest entry, and the entry at the reader.
-/

namespace MaskedRing

variable {α : Type*} {M N : Nat} [NeZero N]

theorem toNat_emod_lt (N : Nat) [NeZero N] (p : Int) : (p % N).toNat < N := by
  have hpos : 0 < N := Nat.pos_of_ne_zero (NeZero.ne N)
  have hlt : p % N < N := Int.emod_lt_of_pos p (by omega)
  omega

/-- The entry of the pointer `p`. -/
def slot (N : Nat) [NeZero N] (p : Int) : Fin N := ⟨(p % N).toNat, toNat_emod_lt N p⟩

/-- The entries from the reader to the writer. -/
def held (M : Nat) (buff : Fin N → α) (w r : Int) : List α :=
  (List.range ((w - r) % M).toNat).map fun k : Nat => buff (slot N (r + (k : Int)))

theorem slot_eq_iff {p q : Int} : slot N p = slot N q ↔ p % N = q % N := by
  have hpos : (0 : Int) < N := Int.natCast_pos.mpr (Nat.pos_of_ne_zero (NeZero.ne N))
  have hp := Int.emod_nonneg p (Int.ne_of_gt hpos)
  have hq := Int.emod_nonneg q (Int.ne_of_gt hpos)
  rw [slot, slot, Fin.mk.injEq]
  omega

theorem length_held {buff : Fin N → α} {w r : Int} :
    (held M buff w r).length = ((w - r) % M).toNat := by
  rw [held, List.length_map, List.length_range]

/-- An entry does not depend on how often the pointer has wrapped. -/
theorem slot_wrap (hdvd : N ∣ M) (p : Int) : slot N (p % M) = slot N p := by
  rw [slot_eq_iff]
  exact Int.emod_emod_of_dvd p (Int.natCast_dvd_natCast.mpr hdvd)

theorem slot_wrap_add (hdvd : N ∣ M) (p k : Int) : slot N (p % M + k) = slot N (p + k) := by
  rw [← slot_wrap hdvd, Int.emod_add_emod, slot_wrap hdvd]

/-- Two entries less than `N` apart differ. -/
theorem slot_ne {p k : Int} (h₀ : 0 < k) (h : k < N) : slot N (p + k) ≠ slot N p := by
  intro heq
  rw [slot_eq_iff] at heq
  have hdvd : (N : Int) ∣ k := by
    have hsub : (p + k - p) % N = 0 := Int.emod_eq_emod_iff_emod_sub_eq_zero.mp heq
    rw [show p + k - p = k by omega] at hsub
    exact Int.dvd_of_emod_eq_zero hsub
  exact absurd (Int.le_of_dvd h₀ hdvd) (Int.not_le.mpr h)

section ring

variable {buff : Fin N → α} {w r : Int}

/-- The writer lies after the reader by what is held. -/
theorem slot_writer (hM : 0 < M) (hdvd : N ∣ M) :
    slot N (r + (((w - r) % M).toNat : Int)) = slot N w := by
  have hpos : (0 : Int) < M := by omega
  have hnonneg := Int.emod_nonneg (w - r) (Int.ne_of_gt hpos)
  rw [Int.toNat_of_nonneg hnonneg, ← slot_wrap hdvd, Int.add_emod_emod, slot_wrap hdvd]
  congr 1
  omega

/-- **A push** into a ring with room. -/
theorem held_push (hM : 0 < M) (hdvd : N ∣ M) (a : α) (h : (w - r) % M < N)
    (h' : (w - r) % M + 1 < M) :
    held M (Function.update buff (slot N w) a) ((w + 1) % M) r = held M buff w r ++ [a] := by
  have hpos : (0 : Int) < M := by omega
  have hnonneg := Int.emod_nonneg (w - r) (Int.ne_of_gt hpos)
  have hcount : ((w + 1) % M - r) % M = (w - r) % M + 1 := by
    rw [Int.emod_sub_emod, show w + 1 - r = w - r + 1 by omega, ← Int.emod_add_emod,
      Int.emod_eq_of_lt (by omega) h']
  have hlen : (((w + 1) % M - r) % M).toNat = ((w - r) % M).toNat + 1 := by omega
  rw [held, held, hlen, List.range_succ, List.map_append, List.map_singleton]
  congr 1
  · refine List.map_congr_left ?_
    intro k hk
    have hlt : k < ((w - r) % M).toNat := List.mem_range.mp hk
    rw [Function.update_of_ne]
    rw [← slot_writer hM hdvd (w := w) (r := r)]
    intro heq
    refine slot_ne (N := N) (p := r + k) (k := ((w - r) % M).toNat - k) (by omega) (by omega) ?_
    rw [heq]
    congr 1
    omega
  · rw [slot_writer hM hdvd, Function.update_self]

/-- **The entry at the reader.** -/
theorem held_cons (hM : 0 < M) (hdvd : N ∣ M) (h : (w - r) % M ≠ 0) :
    held M buff w r = buff (slot N r) :: held M buff w ((r + 1) % M) := by
  have hpos : (0 : Int) < M := by omega
  have hnonneg := Int.emod_nonneg (w - r) (Int.ne_of_gt hpos)
  have hless := Int.emod_lt_of_pos (w - r) hpos
  have hcount : (w - (r + 1) % M) % M = (w - r) % M - 1 := by
    rw [Int.sub_emod_emod, show w - (r + 1) = w - r - 1 by omega, ← Int.emod_sub_emod,
      Int.emod_eq_of_lt (by omega) (by omega)]
  obtain ⟨m, hm⟩ : ∃ m, ((w - r) % M).toNat = m + 1 := ⟨((w - r) % M).toNat - 1, by omega⟩
  have hlen : ((w - (r + 1) % M) % M).toNat = m := by omega
  rw [held, held, hm, hlen, List.range_succ_eq_map, List.map_cons, List.map_map]
  congr 1
  · rw [Int.natCast_zero, Int.add_zero]
  · refine List.map_congr_left ?_
    intro k _
    rw [Function.comp_apply, slot_wrap_add hdvd]
    congr 2
    omega

/-- **A push into a full ring**, with the reader moved on. -/
theorem held_push_full (hdvd : N ∣ M) (a : α) (hNM : N < M) (h : (w - r) % M = N) :
    held M (Function.update buff (slot N w) a) ((w + 1) % M) ((r + 1) % M)
      = (held M buff w r).tail ++ [a] := by
  have hN : 0 < N := Nat.pos_of_ne_zero (NeZero.ne N)
  have hM : 0 < M := Nat.lt_trans hN hNM
  have hcount : (w - (r + 1) % M) % M = N - 1 := by
    rw [Int.sub_emod_emod, show w - (r + 1) = w - r - 1 by omega, ← Int.emod_sub_emod, h,
      Int.emod_eq_of_lt (by omega) (by omega)]
  have hne : (w - r) % M ≠ 0 := by omega
  rw [held_push hM hdvd a (by omega) (by omega), held_cons hM hdvd hne, List.tail_cons]

end ring

end MaskedRing
