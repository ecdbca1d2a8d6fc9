import Mathlib.Data.List.Basic
import Mathlib.Tactic.Common

/-!
# Library — arrays with a live prefix

A fixed array together with a count `n` of its live slots: the first `n` hold the table's
entries, the rest hold stale values (`live v n`).  The operations are the loops and stores C
code runs on such a table, and each has one lemma that says what it does to the live prefix.

* `live_shiftDown`: closing the gap at `i` removes entry `i` and keeps the order.
* `live_store`: storing at the first stale slot appends.
* `live_modifyAt`: changing slot `i` in place changes entry `i`, if `i` is live.
-/

namespace LiveArray

variable {α : Type*} {cap : Nat}

/-- The live entries, in slot order. -/
def live (v : Vector α cap) (n : Nat) : List α := v.toList.take n

/-- `a[j] = a[j + 1]`. -/
def moveDown (v : Vector α cap) (j : Nat) : Vector α cap :=
  if h : j + 1 < cap then v.set j v[j + 1] else v

/-- `for (j = i; j < n - 1; j++) a[j] = a[j + 1]`. -/
def shiftDown (v : Vector α cap) (i n : Nat) : Vector α cap :=
  (List.range' i (n - 1 - i)).foldl moveDown v

/-- `a[i] = x`. -/
def store (v : Vector α cap) (i : Nat) (x : α) : Vector α cap :=
  if h : i < cap then v.set i x else v

/-- `a[i] = f (a[i])`. -/
def modifyAt (v : Vector α cap) (i : Nat) (f : α → α) : Vector α cap :=
  if h : i < cap then v.set i (f v[i]) else v

theorem length_live {v : Vector α cap} {n : Nat} (hn : n ≤ cap) : (live v n).length = n := by
  simp [live, hn]

theorem live_getElem? (v : Vector α cap) (n j : Nat) :
    (live v n)[j]? = if j < n then v[j]? else none := by
  rw [live, List.getElem?_take]
  simp

theorem getElem?_moveDown (v : Vector α cap) {j : Nat} (hj : j + 1 < cap) (x : Nat) :
    (moveDown v j)[x]? = if x = j then v[x + 1]? else v[x]? := by
  rw [moveDown, dif_pos hj, Vector.getElem?_set]
  by_cases h : j = x
  · subst h; simp [hj]
  · simp [h, Ne.symm h]

/-- The loop after `m` rounds. -/
theorem getElem?_shift_rounds (v : Vector α cap) (i m : Nat) (h : i + m < cap) (x : Nat) :
    ((List.range' i m).foldl moveDown v)[x]? =
      if i ≤ x ∧ x < i + m then v[x + 1]? else v[x]? := by
  induction m generalizing x with
  | zero => rw [if_neg (by omega)]; rfl
  | succ m ih =>
      rw [List.range'_concat, List.foldl_append, List.foldl_cons, List.foldl_nil,
        getElem?_moveDown _ (by omega)]
      have hm : i + m < cap := by omega
      rw [ih hm x, ih hm (x + 1)]
      grind

theorem getElem?_shiftDown (v : Vector α cap) {i n : Nat} (hn : n ≤ cap) (x : Nat) :
    (shiftDown v i n)[x]? = if i ≤ x ∧ x + 1 < n then v[x + 1]? else v[x]? := by
  by_cases hi : i + (n - 1 - i) < cap
  · rw [shiftDown, getElem?_shift_rounds v i _ hi]
    grind
  · have h₀ : n - 1 - i = 0 := by omega
    rw [shiftDown, h₀, List.range'_zero, List.foldl_nil]
    grind

/-- **Closing the gap.**  The loop that overwrites entry `i` by its successors leaves, with the
count decremented, the live entries without entry `i`. -/
theorem live_shiftDown (v : Vector α cap) {i n : Nat} (hi : i < n) (hn : n ≤ cap) :
    live (shiftDown v i n) (n - 1) = (live v n).eraseIdx i := by
  refine List.ext_getElem? fun x => ?_
  rw [live_getElem?, getElem?_shiftDown v hn, List.getElem?_eraseIdx, live_getElem?,
    live_getElem?]
  grind

/-- Appending at the first stale slot. -/
theorem live_store (v : Vector α cap) {n : Nat} (hn : n < cap) (x : α) :
    live (store v n x) (n + 1) = live v n ++ [x] := by
  refine List.ext_getElem? fun y => ?_
  have hlen : (live v n).length = n := length_live (by omega)
  rw [live_getElem?, store, dif_pos hn, Vector.getElem?_set, List.getElem?_append, hlen,
    live_getElem?]
  grind

theorem getElem?_modifyAt (v : Vector α cap) (i : Nat) (f : α → α) (x : Nat) :
    (modifyAt v i f)[x]? = if x = i then v[x]?.map f else v[x]? := by
  by_cases hi : i < cap
  · rw [modifyAt, dif_pos hi, Vector.getElem?_set]
    grind
  · rw [modifyAt, dif_neg hi]
    grind

/-- Changing a slot in place changes that entry, and none when the slot is stale. -/
theorem live_modifyAt (v : Vector α cap) (i n : Nat) (f : α → α) :
    live (modifyAt v i f) n = (live v n).modify i f := by
  refine List.ext_getElem? fun x => ?_
  rw [live_getElem?, getElem?_modifyAt, List.getElem?_modify, live_getElem?]
  grind

end LiveArray
