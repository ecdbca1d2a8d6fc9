import Mathlib.Data.List.Forall2
import Mathlib.Tactic.Common

/-!
# Library — queues that drop the oldest

A queue with room for `cap` values takes every value offered; what does not fit leaves at the
front.

* `push`, `offer`: one value into the queue, with `push_of_lt` and `push_of_full` for the two cases.
* `Accounts`: what has gone through such a queue.  The values read are values pushed, in the order
  of their positions and none twice; the queue holds the values from some position on; and a
  value passed over had `cap` newer ones behind it.
-/

namespace DropOldest

variable {α : Type*} {cap : Nat} {q : List α} {a : α}

/-- `a` goes to the end, and what exceeds the room leaves at the front. -/
def push (cap : Nat) (q : List α) (a : α) : List α := (q ++ [a]).drop (q.length + 1 - cap)

theorem push_of_lt (h : q.length < cap) : push cap q a = q ++ [a] := by
  rw [push, Nat.sub_eq_zero_of_le h, List.drop_zero]

theorem push_of_full (h : q.length = cap) (hcap : 0 < cap) : push cap q a = q.tail ++ [a] := by
  rw [push, h, Nat.add_sub_cancel_left, List.drop_append_of_le_length (h ▸ hcap), List.drop_one]

theorem length_push_le (hcap : 0 < cap) : (push cap q a).length ≤ cap := by
  rw [push, List.length_drop, List.length_append, List.length_singleton]
  omega

/-- `push`, when there is something to push. -/
def offer (cap : Nat) (q : List α) : Option α → List α
  | none => q
  | some a => push cap q a

/-- `pushed` went in and `reads` came out, each oldest first, and `q` is what is left. -/
structure Accounts (cap : Nat) (pushed reads q : List α) : Prop where
  /-- The positions read, in order, and the position of the first value still in the queue. -/
  positions : ∃ (order : List Nat) (base : Nat),
    List.Forall₂ (fun i a => pushed[i]? = some a) order reads ∧
    order.Pairwise (· < ·) ∧ (∀ i ∈ order, i < base) ∧
    base ≤ pushed.length ∧ q = pushed.drop base ∧
    ∀ i < base, i ∉ order → i + cap < pushed.length
  length_le : q.length ≤ cap

theorem Accounts.nil : Accounts cap ([] : List α) [] [] := by
  refine ⟨⟨[], 0, List.Forall₂.nil, .nil, ?_, Nat.le_refl _, rfl, ?_⟩, Nat.zero_le _⟩
  · intro i hi
    exact absurd hi List.not_mem_nil
  · intro i hi
    exact absurd hi (Nat.not_lt_zero i)

/-- Positions of values pushed keep their values. -/
private theorem forall₂_append {pushed reads : List α} {order : List Nat}
    (h : List.Forall₂ (fun i a => pushed[i]? = some a) order reads) (b : α) :
    List.Forall₂ (fun i a => (pushed ++ [b])[i]? = some a) order reads := by
  refine h.imp ?_
  intro i c hc
  have hi : i < pushed.length := (List.getElem?_eq_some_iff.mp hc).1
  rw [List.getElem?_append_left hi, hc]

/-- A push keeps the accounts: a value dropped is followed by `cap` others. -/
theorem Accounts.push {pushed reads : List α} (h : Accounts cap pushed reads q) (hcap : 0 < cap)
    (a : α) : Accounts cap (pushed ++ [a]) reads (push cap q a) := by
  obtain ⟨⟨order, base, hreads, hsorted, hlt, hbase, hq, hdropped⟩, hlen⟩ := h
  have hqlen : q.length = pushed.length - base := by rw [hq, List.length_drop]
  refine ⟨⟨order, base + (q.length + 1 - cap), forall₂_append hreads a, hsorted, ?_, ?_, ?_, ?_⟩,
    length_push_le hcap⟩
  · intro i hi
    exact Nat.lt_of_lt_of_le (hlt i hi) (Nat.le_add_right _ _)
  · rw [List.length_append, List.length_singleton]
    omega
  · rw [DropOldest.push, hq, ← List.drop_append_of_le_length hbase, List.drop_drop]
  · intro i hi hread
    rw [List.length_append, List.length_singleton]
    by_cases hold : i < base
    · exact Nat.lt_succ_of_lt (hdropped i hold hread)
    · omega

theorem Accounts.offer {pushed reads : List α} (h : Accounts cap pushed reads q) (hcap : 0 < cap)
    (o : Option α) : Accounts cap (pushed ++ o.toList) reads (offer cap q o) := by
  cases o with
  | none =>
      rw [Option.toList_none, List.append_nil]
      exact h
  | some a => exact h.push hcap a

/-- Reading the front keeps the accounts. -/
theorem Accounts.read {pushed reads : List α} (h : Accounts cap pushed reads (a :: q)) :
    Accounts cap pushed (reads ++ [a]) q := by
  obtain ⟨⟨order, base, hreads, hsorted, hlt, hbase, hq, hdropped⟩, hlen⟩ := h
  have hget : pushed[base]? = some a := by
    rw [← List.head?_drop, ← hq, List.head?_cons]
  have hpos : base < pushed.length := (List.getElem?_eq_some_iff.mp hget).1
  refine ⟨⟨order ++ [base], base + 1, ?_, ?_, ?_, hpos, ?_, ?_⟩, Nat.le_of_succ_le hlen⟩
  · exact List.rel_append hreads (.cons hget .nil)
  · rw [List.pairwise_append]
    refine ⟨hsorted, List.pairwise_singleton _ _, ?_⟩
    intro i hi j hj
    rw [List.mem_singleton.mp hj]
    exact hlt i hi
  · intro i hi
    rcases List.mem_append.mp hi with hi | hi
    · exact Nat.lt_succ_of_lt (hlt i hi)
    · rw [List.mem_singleton.mp hi]
      exact Nat.lt_succ_self base
  · rw [← List.drop_drop, ← hq, List.drop_one, List.tail_cons]
  · intro i hi hread
    have hne : i ≠ base := by
      rintro rfl
      exact hread (List.mem_append_right _ (List.mem_singleton.mpr rfl))
    refine hdropped i (by omega) ?_
    intro hmem
    exact hread (List.mem_append_left _ hmem)

end DropOldest
