import Mathlib.Data.BitVec
import Mathlib.Data.List.Basic
import Mathlib.Data.List.Count

/-!
# Rtos — the lists of tasks

`list.c`.  A `List_t` is a ring of its items and an end marker, and `pxIndex` stands on one of them.
The owner of the next entry is the one behind `pxIndex`, and what is inserted at the end comes in
front of it.  So nothing comes between `pxIndex` and what is ahead of it.  The lists of the delayed
tasks are sorted by their value.

* `next_of_ahead`, `ahead_insertEnd`, `ahead_remove`: what the operations do to what is ahead.
* `mem_vListInsert`, `pairwise_vListInsert`: the insertion by value.
-/

namespace TelinkB91.Rtos.Tasks

abbrev U32 := BitVec 32

variable {α : Type*}

/-- `List_t` of the ready tasks: its items from the end marker on, and `pxIndex`, which is 0 on the
marker and `i + 1` on the item `i`. -/
structure TaskList (α : Type*) where
  items : List α
  index : Nat

/-- `vListInitialise`. -/
def TaskList.vListInitialise : TaskList α := ⟨[], 0⟩

/-- `vListInsertEnd`: in front of `pxIndex`. -/
def TaskList.vListInsertEnd (l : TaskList α) (x : α) : TaskList α :=
  if l.index = 0 then ⟨l.items ++ [x], 0⟩
  else ⟨l.items.take (l.index - 1) ++ x :: l.items.drop (l.index - 1), l.index + 1⟩

/-- `uxListRemove`.  If `pxIndex` is on the item, it goes to the one before. -/
def TaskList.uxListRemove [DecidableEq α] (l : TaskList α) (x : α) : TaskList α :=
  ⟨l.items.erase x, if l.items.idxOf x < l.index then l.index - 1 else l.index⟩

/-- `pxIndex` goes on, past the marker. -/
def TaskList.next (l : TaskList α) : TaskList α :=
  if l.index < l.items.length then ⟨l.items, l.index + 1⟩ else ⟨l.items, min 1 l.items.length⟩

/-- `listGET_OWNER_OF_NEXT_ENTRY`. -/
def TaskList.listGetOwnerOfNextEntry (l : TaskList α) : TaskList α × Option α :=
  (l.next, l.next.items[l.next.index - 1]?)

/-- The items from behind `pxIndex` to the marker. -/
def TaskList.ahead (l : TaskList α) : List α := l.items.drop l.index

/-- `vListInsert`, for the item of value `v`. -/
def vListInsert (v : U32) (x : α) : List (U32 × α) → List (U32 × α)
  | [] => [(v, x)]
  | y :: l => if v = 0xffffffff#32 ∨ y.1 ≤ v then y :: vListInsert v x l else (v, x) :: y :: l

/-! ### The ring -/

/-- `pxIndex` is on the marker or on an item. -/
def TaskList.Valid (l : TaskList α) : Prop := l.index ≤ l.items.length

theorem valid_insertEnd {l : TaskList α} (h : l.Valid) (x : α) : (l.vListInsertEnd x).Valid := by
  rw [TaskList.Valid] at h ⊢
  rw [TaskList.vListInsertEnd]
  split_ifs with h0
  · exact Nat.zero_le _
  · simp only [List.length_append, List.length_take, List.length_cons, List.length_drop]
    omega

theorem valid_next (l : TaskList α) : l.next.Valid := by
  rw [TaskList.Valid, TaskList.next]
  split_ifs with hlt
  · exact hlt
  · exact Nat.min_le_right 1 _

theorem valid_remove [DecidableEq α] {l : TaskList α} (h : l.Valid) (x : α) :
    (l.uxListRemove x).Valid := by
  rw [TaskList.Valid] at h ⊢
  rw [TaskList.uxListRemove]
  dsimp only
  by_cases hx : x ∈ l.items
  · have hlen := List.length_erase_of_mem hx
    have hidx := List.idxOf_lt_length_of_mem hx
    split_ifs <;> omega
  · rw [List.erase_of_not_mem hx]
    split_ifs <;> omega

@[simp] theorem items_next (l : TaskList α) : l.next.items = l.items := by
  rw [TaskList.next]
  split_ifs <;> rfl

theorem mem_insertEnd {l : TaskList α} {x y : α} :
    y ∈ (l.vListInsertEnd x).items ↔ y = x ∨ y ∈ l.items := by
  rw [TaskList.vListInsertEnd]
  split_ifs with h0
  · rw [List.mem_append, List.mem_singleton, or_comm]
  · dsimp only
    rw [List.mem_append, List.mem_cons, ← or_assoc, or_comm (a := y ∈ _), or_assoc,
      ← List.mem_append, List.take_append_drop]

theorem count_insertEnd [DecidableEq α] (l : TaskList α) (x y : α) :
    (l.vListInsertEnd x).items.count y = l.items.count y + if x = y then 1 else 0 := by
  rw [TaskList.vListInsertEnd]
  split_ifs with h0 hxy hxy
  all_goals simp only [List.count_append, List.count_cons, List.count_nil, beq_iff_eq, hxy,
    if_true, if_false, Nat.add_zero, Nat.zero_add]
  · rw [← Nat.add_assoc, ← List.count_append, List.take_append_drop]
  · rw [← List.count_append, List.take_append_drop]

theorem mem_of_mem_ahead {l : TaskList α} {x : α} (h : x ∈ l.ahead) : x ∈ l.items :=
  List.mem_of_mem_drop h

/-- **The next entry.**  It is the first one ahead, or the first of all behind the marker. -/
theorem next_of_ahead {l : TaskList α} {x : α} {q : List α} (hq : l.ahead = x :: q) :
    l.listGetOwnerOfNextEntry.2 = some x ∧ l.next.ahead = q := by
  have hlt : l.index < l.items.length := by
    by_contra hge
    rw [TaskList.ahead, List.drop_eq_nil_of_le (Nat.le_of_not_lt hge)] at hq
    cases hq
  rw [TaskList.ahead, List.drop_eq_getElem_cons hlt] at hq
  injection hq with hx hq
  rw [TaskList.listGetOwnerOfNextEntry, TaskList.ahead, TaskList.next, if_pos hlt]
  refine ⟨?_, hq⟩
  dsimp only
  rw [Nat.add_sub_cancel, List.getElem?_eq_getElem hlt, hx]

theorem next_of_end {l : TaskList α} (hend : l.ahead = []) {x : α} {q : List α}
    (hq : l.items = x :: q) : l.listGetOwnerOfNextEntry.2 = some x ∧ l.next.ahead = q := by
  have hge : ¬l.index < l.items.length := by
    intro hlt
    rw [TaskList.ahead, List.drop_eq_getElem_cons hlt] at hend
    cases hend
  have hone : min 1 l.items.length = 1 := by
    rw [hq, List.length_cons]
    omega
  rw [TaskList.listGetOwnerOfNextEntry, TaskList.ahead, TaskList.next, if_neg hge, hone, hq]
  exact ⟨rfl, rfl⟩

/-- **An insertion.**  It is ahead only if `pxIndex` is on the marker, and then behind all. -/
theorem ahead_insertEnd {l : TaskList α} (h : l.Valid) (x : α) :
    (l.vListInsertEnd x).ahead = if l.index = 0 then l.ahead ++ [x] else l.ahead := by
  rw [TaskList.Valid] at h
  rw [TaskList.vListInsertEnd]
  split_ifs with h0
  · rw [TaskList.ahead, TaskList.ahead, h0]
    rfl
  · obtain ⟨i, hi⟩ := Nat.exists_eq_succ_of_ne_zero h0
    have htake : (l.items.take i).length = i := List.length_take_of_le (by omega)
    have htwo : i.succ + 1 - i = 2 := by omega
    rw [TaskList.ahead, TaskList.ahead, hi]
    dsimp only
    rw [Nat.succ_sub_one, List.drop_append, htake, List.drop_eq_nil_of_le (by omega), htwo,
      List.nil_append, List.drop_succ_cons, List.drop_drop]

/-- **A removal.**  What is ahead stays in its order. -/
theorem ahead_remove [DecidableEq α] {l : TaskList α} (hnd : l.items.Nodup) (x : α) :
    (l.uxListRemove x).ahead = l.ahead.erase x := by
  by_cases hx : x ∈ l.items
  · obtain ⟨a, b, ha, hitems, -⟩ := List.exists_erase_eq hx
    have hb : x ∉ b := by
      rw [hitems, List.nodup_append, List.nodup_cons] at hnd
      exact hnd.2.1.1
    have hidx : l.items.idxOf x = a.length := by
      rw [hitems, List.idxOf_append_of_notMem ha, List.idxOf_cons_self, Nat.add_zero]
    rw [TaskList.uxListRemove, TaskList.ahead, TaskList.ahead, hidx, hitems,
      List.erase_append_right _ ha, List.erase_cons_head]
    dsimp only
    rcases Nat.lt_or_ge a.length l.index with hlt | hge
    · obtain ⟨k, hk⟩ : ∃ k, l.index = a.length + (k + 1) := ⟨l.index - a.length - 1, by omega⟩
      rw [if_pos hlt, hk, Nat.add_succ_sub_one, List.drop_length_add_append,
        List.drop_length_add_append, List.drop_succ_cons, List.erase_of_not_mem]
      exact fun h => hb (List.mem_of_mem_drop h)
    · rw [if_neg (by omega), List.drop_append_of_le_length hge, List.drop_append_of_le_length hge,
        List.erase_append_right, List.erase_cons_head]
      exact fun h => ha (List.mem_of_mem_drop h)
  · have hahead : x ∉ l.ahead := fun h => hx (mem_of_mem_ahead h)
    have hidx : l.items.idxOf x = l.items.length := List.idxOf_eq_length hx
    rw [List.erase_of_not_mem hahead, TaskList.uxListRemove, List.erase_of_not_mem hx, hidx]
    split_ifs with hlt
    · rw [TaskList.ahead, TaskList.ahead, List.drop_eq_nil_of_le (Nat.le_of_lt hlt),
        List.drop_eq_nil_of_le (Nat.le_sub_one_of_lt hlt)]
    · rfl

/-! ### The insertion by value -/

theorem mem_vListInsert {v : U32} {x : α} {l : List (U32 × α)} {y : U32 × α} :
    y ∈ vListInsert v x l ↔ y = (v, x) ∨ y ∈ l := by
  induction l with
  | nil => simp [vListInsert]
  | cons z l ih =>
      rw [vListInsert]
      split_ifs
      · simp only [List.mem_cons, ih, or_left_comm]
      · simp only [List.mem_cons]

theorem count_vListInsert [DecidableEq α] (v : U32) (x y : α) (l : List (U32 × α)) :
    ((vListInsert v x l).map Prod.snd).count y =
      (l.map Prod.snd).count y + if x = y then 1 else 0 := by
  induction l with
  | nil => simp [vListInsert, List.count_cons]
  | cons z l ih =>
      rw [vListInsert]
      by_cases hle : v = 0xffffffff#32 ∨ z.1 ≤ v
      · rw [if_pos hle, List.map_cons, List.count_cons, ih, List.map_cons, List.count_cons,
          Nat.add_right_comm]
      · rw [if_neg hle, List.map_cons, List.count_cons]
        simp only [beq_iff_eq]

/-- **The order.**  It stays one in which equal values stand as they were inserted, when the new
item comes behind each of a value that is not above its own. -/
theorem pairwise_vListInsert {R : U32 × α → U32 × α → Prop} {v : U32} {x : α}
    {l : List (U32 × α)} (h : l.Pairwise R) (hbefore : ∀ y ∈ l, y.1 ≤ v → R y (v, x))
    (hbehind : ∀ y ∈ l, v < y.1 → R (v, x) y)
    (hsorted : l.Pairwise fun y z => y.1 ≤ z.1) : (vListInsert v x l).Pairwise R := by
  induction l with
  | nil => exact List.pairwise_singleton R (v, x)
  | cons z l ih =>
      rw [List.pairwise_cons] at h hsorted
      rw [vListInsert]
      split_ifs with hle
      · have hz : z.1 ≤ v := by
          rcases hle with rfl | hle
          · exact Nat.le_pred_of_lt z.1.isLt
          · exact hle
        rw [List.pairwise_cons]
        refine ⟨fun y hy => ?_, ih h.2 (fun y hy => hbefore y (List.mem_cons_of_mem z hy))
          (fun y hy => hbehind y (List.mem_cons_of_mem z hy)) hsorted.2⟩
        rcases mem_vListInsert.mp hy with rfl | hy
        · exact hbefore z List.mem_cons_self hz
        · exact h.1 y hy
      · have hz : v < z.1 := BitVec.not_le.mp fun hle' => hle (.inr hle')
        rw [List.pairwise_cons]
        refine ⟨fun y hy => hbehind y hy ?_, List.pairwise_cons.mpr h⟩
        rcases List.mem_cons.mp hy with rfl | hy
        · exact hz
        · exact Nat.lt_of_lt_of_le hz (hsorted.1 y hy)

end TelinkB91.Rtos.Tasks
