import TelinkB91.Rtos.Tasks
import Mathlib.Tactic.SplitIfs
import Mathlib.Tactic.Set
import Mathlib.Data.List.Range
import Mathlib.Data.List.Nodup

/-!
# Rtos — where the tasks are

Every task is in one of the lists, once: in the ready list of its priority, in one of the two lists
of the delayed tasks or in the list of those that wait without an end.  The bits of
`uxTopReadyPriority` are those of the ready lists that hold a task, so a switch finds the highest of
them.

* `Placed`: the invariant; `Placed (some t)` while `t` is in no list.
* `placed_removeState`, `placed_ready`, `placed_block`: a task leaves its list, and comes into one.
* `placed_step`: every event keeps it.
-/

namespace TelinkB91.Rtos.Tasks

/-- The lists of a kernel, and the bits of the ready ones. -/
structure Lists where
  ready : Nat → TaskList Nat
  delayed : List Nat
  overflow : List Nat
  suspended : List Nat
  top : U32

def Kernel.lists (k : Kernel) : Lists where
  ready := k.pxReadyTasksLists
  delayed := k.pxDelayedTaskList.map Prod.snd
  overflow := k.pxOverflowDelayedTaskList.map Prod.snd
  suspended := k.xSuspendedTaskList
  top := k.uxTopReadyPriority

/-- How often a task is in the lists. -/
def Lists.count (l : Lists) (p t : Nat) : Nat :=
  (l.ready p).items.count t + l.delayed.count t + l.overflow.count t + l.suspended.count t

/-- Every task but `out` is in one list. -/
structure Placed (ts : TaskSet) (out : Option Nat) (l : Lists) : Prop where
  count : ∀ t, l.count (ts.uxPriority t) t =
    if t < ts.uxCurrentNumberOfTasks ∧ out ≠ some t then 1 else 0
  own : ∀ p, ∀ t ∈ (l.ready p).items, ts.uxPriority t = p
  valid : ∀ p, (l.ready p).Valid
  bit : ∀ p, (l.ready p).items ≠ [] → l.top.getLsbD p = true
  held : ∀ p, l.top.getLsbD p = true →
    (l.ready p).items ≠ [] ∨ ∃ t, out = some t ∧ ts.uxPriority t = p

variable {ts : TaskSet}

/-! ### What the invariant says -/

theorem Placed.lt {l : Lists} (h : Placed ts none l) {t : Nat}
    (ht : 0 < l.count (ts.uxPriority t) t) : t < ts.uxCurrentNumberOfTasks := by
  by_contra hge
  rw [h.count, if_neg fun hlt => hge hlt.1] at ht
  exact Nat.lt_irrefl 0 ht

theorem Placed.nodup {out : Option Nat} {l : Lists} (h : Placed ts out l) (p : Nat) :
    (l.ready p).items.Nodup := by
  rw [List.nodup_iff_count]
  intro t
  by_cases ht : t ∈ (l.ready p).items
  · have hc := h.count t
    rw [h.own p t ht, Lists.count] at hc
    split_ifs at hc <;> omega
  · rw [List.count_eq_zero_of_not_mem ht]
    exact Nat.zero_le 1

/-- A ready task is in no other list. -/
theorem Placed.ready_only {out : Option Nat} {l : Lists} (h : Placed ts out l) {t : Nat}
    (ht : t ∈ (l.ready (ts.uxPriority t)).items) :
    t ∉ l.delayed ∧ t ∉ l.overflow ∧ t ∉ l.suspended := by
  have hpos := List.count_pos_iff.mpr ht
  have hc := h.count t
  rw [Lists.count] at hc
  have hle : l.delayed.count t + l.overflow.count t + l.suspended.count t = 0 := by
    split_ifs at hc <;> omega
  refine ⟨?_, ?_, ?_⟩ <;> rw [← List.count_eq_zero] <;> omega

/-! ### A task leaves its list -/

theorem map_eraseP_snd (l : List (U32 × Nat)) (t : Nat) :
    (l.eraseP (·.2 = t)).map Prod.snd = (l.map Prod.snd).erase t := by
  induction l with
  | nil => rfl
  | cons y l ih =>
      rw [List.eraseP_cons, List.map_cons, List.erase_cons]
      by_cases hy : y.2 = t
      · simp [hy]
      · simp [hy, ih]

theorem bit_shift {q : Nat} (hq : q < configMaxPriorities) (p : Nat) :
    (1#32 <<< q).getLsbD p = decide (p = q) := by
  rw [configMaxPriorities] at hq
  rw [← BitVec.twoPow_eq, BitVec.getLsbD_twoPow]
  by_cases h : p = q
  · subst h
    simp only [decide_true, Bool.and_true, decide_eq_true_eq]
    omega
  · simp [h, Ne.symm h]

/-- **A task leaves.** -/
theorem placed_removeState {k : Kernel} (h : Placed ts none k.lists) (t : Nat) :
    Placed ts (some t) (ts.removeState k t).lists where
  count u := by
    have hu := h.count u
    rw [Lists.count] at hu ⊢
    rw [Kernel.lists] at hu ⊢
    rw [TaskSet.removeState]
    dsimp only at hu ⊢
    rw [map_eraseP_snd, map_eraseP_snd]
    by_cases hut : u = t
    · subst hut
      rw [Function.update_self, TaskList.uxListRemove, List.count_erase_self,
        List.count_erase_self, List.count_erase_self, List.count_erase_self,
        if_neg fun hc => hc.2 rfl]
      split_ifs at hu <;> omega
    · rw [List.count_erase_of_ne hut, List.count_erase_of_ne hut, List.count_erase_of_ne hut]
      have hready : (Function.update k.pxReadyTasksLists (ts.uxPriority t)
          ((k.pxReadyTasksLists (ts.uxPriority t)).uxListRemove t)
          (ts.uxPriority u)).items.count u =
          (k.pxReadyTasksLists (ts.uxPriority u)).items.count u := by
        by_cases hp : ts.uxPriority u = ts.uxPriority t
        · rw [hp, Function.update_self, TaskList.uxListRemove, List.count_erase_of_ne hut]
        · rw [Function.update_of_ne hp]
      rw [hready, hu]
      simp [Ne.symm hut]
  own p u hu := by
    rw [Kernel.lists, TaskSet.removeState] at hu
    dsimp only at hu
    by_cases hp : p = ts.uxPriority t
    · rw [hp, Function.update_self] at hu
      rw [hp]
      exact h.own _ u (List.mem_of_mem_erase hu)
    · rw [Function.update_of_ne hp] at hu
      exact h.own p u hu
  valid p := by
    rw [Kernel.lists, TaskSet.removeState]
    dsimp only
    by_cases hp : p = ts.uxPriority t
    · rw [hp, Function.update_self]
      exact valid_remove (h.valid _) t
    · rw [Function.update_of_ne hp]
      exact h.valid p
  bit p hp := by
    refine h.bit p fun hnil => hp ?_
    rw [Kernel.lists] at hnil
    rw [Kernel.lists, TaskSet.removeState]
    dsimp only at hnil ⊢
    by_cases heq : p = ts.uxPriority t
    · subst heq
      rw [Function.update_self, TaskList.uxListRemove, hnil]
      rfl
    · rw [Function.update_of_ne heq, hnil]
  held p hp := by
    by_cases heq : p = ts.uxPriority t
    · exact .inr ⟨t, rfl, heq.symm⟩
    · left
      rw [Kernel.lists, TaskSet.removeState]
      dsimp only
      rw [Function.update_of_ne heq]
      rcases h.held p hp with hne | ⟨u, hu, -⟩
      · exact hne
      · cases hu

/-! ### A task comes into a list -/

/-- **A task becomes ready.** -/
theorem placed_ready {k : Kernel} {t : Nat} (h : Placed ts (some t) k.lists)
    (ht : t < ts.uxCurrentNumberOfTasks) : Placed ts none (ts.prvAddTaskToReadyList k t).lists where
  count u := by
    have hu := h.count u
    rw [Lists.count, Kernel.lists] at hu ⊢
    rw [TaskSet.prvAddTaskToReadyList]
    dsimp only at hu ⊢
    have hready : (Function.update k.pxReadyTasksLists (ts.uxPriority t)
        ((k.pxReadyTasksLists (ts.uxPriority t)).vListInsertEnd t)
        (ts.uxPriority u)).items.count u =
        (k.pxReadyTasksLists (ts.uxPriority u)).items.count u + if t = u then 1 else 0 := by
      by_cases hp : ts.uxPriority u = ts.uxPriority t
      · rw [hp, Function.update_self, count_insertEnd]
      · rw [Function.update_of_ne hp, if_neg fun htu => hp (congrArg _ htu.symm), Nat.add_zero]
    rw [hready]
    by_cases hut : t = u
    · subst hut
      rw [if_neg fun hc => hc.2 rfl] at hu
      rw [if_pos rfl, if_pos ⟨ht, by simp⟩]
      omega
    · rw [if_neg hut, Nat.add_zero, hu]
      simp [hut]
  own p u hu := by
    rw [Kernel.lists, TaskSet.prvAddTaskToReadyList] at hu
    dsimp only at hu
    by_cases hp : p = ts.uxPriority t
    · rw [hp, Function.update_self, mem_insertEnd] at hu
      rcases hu with rfl | hu
      · exact hp.symm
      · rw [hp]
        exact h.own _ u hu
    · rw [Function.update_of_ne hp] at hu
      exact h.own p u hu
  valid p := by
    rw [Kernel.lists, TaskSet.prvAddTaskToReadyList]
    dsimp only
    by_cases hp : p = ts.uxPriority t
    · rw [hp, Function.update_self]
      exact valid_insertEnd (h.valid _) t
    · rw [Function.update_of_ne hp]
      exact h.valid p
  bit p hp := by
    rw [Kernel.lists, TaskSet.prvAddTaskToReadyList] at hp ⊢
    dsimp only at hp ⊢
    rw [BitVec.getLsbD_or, bit_shift (ts.priority_lt t)]
    by_cases heq : p = ts.uxPriority t
    · rw [decide_eq_true heq, Bool.or_true]
    · rw [Function.update_of_ne heq] at hp
      have hold : k.uxTopReadyPriority.getLsbD p = true := h.bit p hp
      rw [hold, Bool.true_or]
  held p hp := by
    left
    rw [Kernel.lists, TaskSet.prvAddTaskToReadyList] at hp ⊢
    dsimp only at hp ⊢
    by_cases heq : p = ts.uxPriority t
    · rw [heq, Function.update_self]
      exact List.ne_nil_of_mem (mem_insertEnd.mpr (.inl rfl))
    · rw [BitVec.getLsbD_or, bit_shift (ts.priority_lt t), decide_eq_false heq,
        Bool.or_false] at hp
      rw [Function.update_of_ne heq]
      rcases h.held p hp with hne | ⟨u, hu, hpu⟩
      · exact hne
      · exact absurd (hpu.symm.trans (congrArg _ (Option.some.inj hu).symm)) heq

theorem reset_bit {k : Kernel} {t : Nat} (h : Placed ts (some t) k.lists) (p : Nat) :
    (ts.portResetReadyPriority k t).uxTopReadyPriority.getLsbD p = true ↔
      (k.pxReadyTasksLists p).items ≠ [] := by
  have hbit : (k.pxReadyTasksLists p).items ≠ [] → k.uxTopReadyPriority.getLsbD p = true := h.bit p
  have hheld : k.uxTopReadyPriority.getLsbD p = true →
      (k.pxReadyTasksLists p).items ≠ [] ∨ ts.uxPriority t = p := by
    intro hp
    rcases h.held p hp with hne | ⟨u, hu, hpu⟩
    · exact .inl hne
    · exact .inr (Option.some.inj hu ▸ hpu)
  rw [TaskSet.portResetReadyPriority]
  split_ifs with hnil
  · dsimp only
    rw [BitVec.getLsbD_and, BitVec.getLsbD_not, bit_shift (ts.priority_lt t)]
    by_cases heq : p = ts.uxPriority t
    · subst heq
      simp [hnil]
    · have hne := Ne.symm heq
      constructor
      · intro hp
        rw [Bool.and_eq_true] at hp
        exact (hheld hp.1).resolve_right hne
      · intro hp
        have hlt := BitVec.lt_of_getLsbD (hbit hp)
        rw [hbit hp, decide_eq_true hlt, decide_eq_false heq]
        rfl
  · constructor
    · intro hp
      rcases hheld hp with hne | rfl
      · exact hne
      · exact hnil
    · exact hbit

/-- **A task comes into one of the lists of those that wait.** -/
theorem placed_hold {k k' : Kernel} {t : Nat} (h : Placed ts (some t) k.lists)
    (ht : t < ts.uxCurrentNumberOfTasks)
    (hready : k'.pxReadyTasksLists = k.pxReadyTasksLists)
    (htop : k'.uxTopReadyPriority = (ts.portResetReadyPriority k t).uxTopReadyPriority)
    (hcount : ∀ u, k'.lists.delayed.count u + k'.lists.overflow.count u +
      k'.lists.suspended.count u = k.lists.delayed.count u + k.lists.overflow.count u +
        k.lists.suspended.count u + if t = u then 1 else 0) : Placed ts none k'.lists where
  count u := by
    have hu := h.count u
    have hc := hcount u
    rw [Lists.count] at hu ⊢
    have hr : k'.lists.ready = k.lists.ready := hready
    rw [hr]
    by_cases hut : t = u
    · subst hut
      rw [if_neg fun hc => hc.2 rfl] at hu
      rw [if_pos rfl] at hc
      rw [if_pos ⟨ht, by simp⟩]
      omega
    · rw [if_neg hut] at hc
      simp only [ne_eq, Option.some.injEq, hut, not_false_eq_true, and_true] at hu
      simp only [ne_eq, reduceCtorEq, not_false_eq_true, and_true]
      omega
  own p u hu := h.own p u (by
    have hr : k'.lists.ready = k.lists.ready := hready
    rwa [hr] at hu)
  valid p := by
    have hr : k'.lists.ready = k.lists.ready := hready
    rw [hr]
    exact h.valid p
  bit p hp := by
    have hr : k'.lists.ready = k.lists.ready := hready
    have ht' : k'.lists.top = (ts.portResetReadyPriority k t).uxTopReadyPriority := htop
    rw [ht', reset_bit h]
    rw [hr] at hp
    exact hp
  held p hp := by
    have hr : k'.lists.ready = k.lists.ready := hready
    have ht' : k'.lists.top = (ts.portResetReadyPriority k t).uxTopReadyPriority := htop
    rw [ht', reset_bit h] at hp
    rw [hr]
    exact .inl hp

/-! ### The functions -/

theorem placed_insertDelayed {k k' : Kernel} {t : Nat} {v : U32}
    (h : Placed ts (some t) k.lists) (ht : t < ts.uxCurrentNumberOfTasks)
    (hl : k'.lists = (ts.portResetReadyPriority k t).lists) :
    Placed ts none (k'.insertDelayed t v).lists := by
  have hkept : k'.lists.ready = k.lists.ready ∧ k'.lists.delayed = k.lists.delayed ∧
      k'.lists.overflow = k.lists.overflow ∧ k'.lists.suspended = k.lists.suspended := by
    rw [hl, TaskSet.portResetReadyPriority]
    split_ifs <;> exact ⟨rfl, rfl, rfl, rfl⟩
  obtain ⟨hready, hdelayed, hoverflow, hsuspended⟩ := hkept
  have htop : k'.uxTopReadyPriority = (ts.portResetReadyPriority k t).uxTopReadyPriority :=
    congrArg Lists.top hl
  refine placed_hold h ht ?_ ?_ fun u => ?_
  · rw [Kernel.insertDelayed]
    split_ifs <;> exact hready
  · rw [Kernel.insertDelayed]
    split_ifs <;> exact htop
  · rw [← hdelayed, ← hoverflow, ← hsuspended, Kernel.insertDelayed]
    by_cases hv : v < k'.xTickCount
    · rw [if_pos hv]
      simp only [Kernel.lists, count_vListInsert]
      omega
    · rw [if_neg hv]
      simp only [Kernel.lists, count_vListInsert]
      omega

/-- **The current task waits.** -/
theorem placed_block {k : Kernel} (h : Placed ts none k.lists)
    (hrun : k.pxCurrentTCB ∈ (k.pxReadyTasksLists (ts.uxPriority k.pxCurrentTCB)).items)
    (n : U32) (indefinitely : Bool) :
    Placed ts none (ts.prvAddCurrentTaskToDelayedList k n indefinitely).lists := by
  have ht : k.pxCurrentTCB < ts.uxCurrentNumberOfTasks := by
    refine h.lt ?_
    rw [Lists.count]
    have hpos := List.count_pos_iff.mpr hrun
    exact Nat.add_pos_left (Nat.add_pos_left (Nat.add_pos_left hpos _) _) _
  have hout := placed_removeState h k.pxCurrentTCB
  rw [TaskSet.prvAddCurrentTaskToDelayedList]
  split_ifs
  · have hkept : (ts.portResetReadyPriority (ts.removeState k k.pxCurrentTCB)
        k.pxCurrentTCB).lists.delayed = (ts.removeState k k.pxCurrentTCB).lists.delayed ∧
        (ts.portResetReadyPriority (ts.removeState k k.pxCurrentTCB)
          k.pxCurrentTCB).lists.overflow = (ts.removeState k k.pxCurrentTCB).lists.overflow ∧
        (ts.portResetReadyPriority (ts.removeState k k.pxCurrentTCB)
          k.pxCurrentTCB).lists.suspended = (ts.removeState k k.pxCurrentTCB).lists.suspended ∧
        (ts.portResetReadyPriority (ts.removeState k k.pxCurrentTCB)
          k.pxCurrentTCB).pxReadyTasksLists =
            (ts.removeState k k.pxCurrentTCB).pxReadyTasksLists := by
      rw [TaskSet.portResetReadyPriority]
      split_ifs <;> exact ⟨rfl, rfl, rfl, rfl⟩
    obtain ⟨hdelayed, hoverflow, hsuspended, hready⟩ := hkept
    refine placed_hold hout ht hready rfl fun u => ?_
    rw [← hdelayed, ← hoverflow, ← hsuspended]
    simp only [Kernel.lists, List.count_append, List.count_singleton, beq_iff_eq]
    omega
  · exact placed_insertDelayed hout ht rfl

theorem Placed.swap {k : Kernel} (h : Placed ts none k.lists) :
    Placed ts none k.taskSwitchDelayedLists.lists where
  count t := by
    have ht := h.count t
    rw [Lists.count] at ht ⊢
    rw [← ht]
    exact congrArg (· + _) (Nat.add_right_comm _ _ _)
  own := h.own
  valid := h.valid
  bit := h.bit
  held := h.held

theorem Placed.readied {k : Kernel} (h : Placed ts none k.lists) {t : Nat}
    (ht : t < ts.uxCurrentNumberOfTasks) {k' : Kernel}
    (hl : k'.lists = (ts.removeState k t).lists) :
    Placed ts none (ts.prvAddTaskToReadyList k' t).lists :=
  placed_ready (hl ▸ placed_removeState h t) ht

theorem placed_unblock {now : U32} : ∀ (l : List (U32 × Nat)) {k : Kernel},
    Placed ts none k.lists → (∀ y ∈ l, y.2 < ts.uxCurrentNumberOfTasks) →
      Placed ts none (ts.unblock now l k).1.lists
  | [], _, h, _ => h
  | y :: rest, k, h, hl => by
      rw [TaskSet.unblock]
      split_ifs
      · exact h
      · refine placed_unblock rest (h.readied (hl y List.mem_cons_self) rfl)
          fun z hz => hl z (List.mem_cons_of_mem y hz)

theorem Placed.delayed_lt {k : Kernel} (h : Placed ts none k.lists) :
    ∀ y ∈ k.pxDelayedTaskList, y.2 < ts.uxCurrentNumberOfTasks := by
  intro y hy
  refine h.lt ?_
  have hmem : y.2 ∈ k.lists.delayed := List.mem_map_of_mem hy
  have hpos := List.count_pos_iff.mpr hmem
  rw [Lists.count]
  omega

theorem placed_increment {k : Kernel} (h : Placed ts none k.lists) :
    Placed ts none (ts.xTaskIncrementTick k).1.lists := by
  rw [TaskSet.xTaskIncrementTick]
  split_ifs
  · have hadvance : Placed ts none k.advance.lists := by
      rw [Kernel.advance]
      split_ifs
      · exact Placed.swap h
      · exact h
    rw [TaskSet.unblockDue]
    split_ifs
    · exact placed_unblock _ hadvance hadvance.delayed_lt
    · exact hadvance
  · exact h

theorem placed_switchContext {k : Kernel} (h : Placed ts none k.lists) :
    Placed ts none k.vTaskSwitchContext.lists := by
  rw [Kernel.vTaskSwitchContext]
  split_ifs
  · exact h
  · have hitems : ∀ p, (Function.update k.pxReadyTasksLists (Nat.log2 k.uxTopReadyPriority.toNat)
        (k.pxReadyTasksLists (Nat.log2 k.uxTopReadyPriority.toNat)).next p).items =
          (k.pxReadyTasksLists p).items := by
      intro p
      by_cases hp : p = Nat.log2 k.uxTopReadyPriority.toNat
      · rw [hp, Function.update_self, items_next]
      · rw [Function.update_of_ne hp]
    constructor
    · intro t
      rw [← h.count t]
      simp only [Lists.count, Kernel.lists, TaskList.listGetOwnerOfNextEntry, hitems]
    · intro p t ht
      refine h.own p t ?_
      simpa only [Kernel.lists, TaskList.listGetOwnerOfNextEntry, hitems] using ht
    · intro p
      simp only [Kernel.lists, TaskList.listGetOwnerOfNextEntry]
      by_cases hp : p = Nat.log2 k.uxTopReadyPriority.toNat
      · rw [hp, Function.update_self]
        exact valid_next _
      · rw [Function.update_of_ne hp]
        exact h.valid p
    · intro p hp
      refine h.bit p ?_
      simpa only [Kernel.lists, TaskList.listGetOwnerOfNextEntry, hitems] using hp
    · intro p hp
      simp only [Kernel.lists, TaskList.listGetOwnerOfNextEntry, hitems]
      exact h.held p hp

theorem placed_readyPending : ∀ (l : List Nat) {k : Kernel}, Placed ts none k.lists →
    (∀ t ∈ l, t < ts.uxCurrentNumberOfTasks) → Placed ts none (ts.readyPending l k).lists
  | [], _, h, _ => h
  | t :: rest, k, h, hl => by
      rw [TaskSet.readyPending]
      have hready : Placed ts none (ts.prvAddTaskToReadyList
          { ts.removeState { k with xPendingReadyList := rest } t with
            seen := (ts.removeState { k with xPendingReadyList := rest } t).seen.leave t }
          t).lists :=
        Placed.readied h (hl t List.mem_cons_self) rfl
      exact placed_readyPending rest hready fun u hu => hl u (List.mem_cons_of_mem t hu)

theorem placed_unwind : ∀ (n : Nat) {k : Kernel}, Placed ts none k.lists →
    Placed ts none (ts.unwind n k).lists
  | 0, _, h => h
  | n + 1, _, h => placed_unwind n (placed_increment h)

theorem placed_resumeAll {k : Kernel} (h : Placed ts none k.lists)
    (hpending : ∀ t ∈ k.xPendingReadyList, t < ts.uxCurrentNumberOfTasks) :
    Placed ts none (ts.xTaskResumeAll k).lists := by
  rw [TaskSet.xTaskResumeAll]
  split_ifs
  · have hdrain : Placed ts none (ts.drainPending { k with
        uxSchedulerSuspended := k.uxSchedulerSuspended - 1 }).lists := by
      rw [TaskSet.drainPending]
      split_ifs
      · exact placed_readyPending _ h hpending
      · exact placed_readyPending _ h hpending
    rw [TaskSet.catchUp]
    split_ifs
    · exact placed_unwind _ hdrain
    · exact hdrain
  · exact h

/-- **Every event.** -/
theorem placed_step {k : Kernel} (h : Placed ts none k.lists)
    (hpending : ∀ t ∈ k.xPendingReadyList, t < ts.uxCurrentNumberOfTasks) {e : Event}
    (he : ts.Allowed k e) : Placed ts none (ts.step k e).lists := by
  cases e with
  | tick =>
      have hk := placed_increment
        (k := { k with seen := { k.seen with ticks := k.seen.ticks + 1 } }) h
      rw [TaskSet.step, TaskSet.mtimeHandler]
      split_ifs
      · exact placed_switchContext hk
      · exact hk
  | yield => exact placed_switchContext h
  | suspendAll => exact h
  | resumeAll => exact placed_resumeAll h hpending
  | delay n =>
      rw [TaskSet.step, TaskSet.vTaskDelay]
      split_ifs
      · exact placed_block h he.1.ready n false
      · exact h
  | getTickCount => exact h
  | delayUntil n =>
      rw [TaskSet.step, TaskSet.xTaskDelayUntil]
      dsimp only
      split_ifs
      · exact placed_block (by exact h) (by exact he.1.ready) _ false
      · exact h
  | takeBegin n =>
      rw [TaskSet.step, TaskSet.takeBegin]
      dsimp only
      split_ifs
      · exact placed_block (by exact h) (by exact he.1.ready) n true
      · exact h
      · exact h
  | takeEnd clear =>
      rw [TaskSet.step, Kernel.takeEnd]
      dsimp only
      split_ifs <;> exact h
  | giveFromISR t =>
      rw [TaskSet.step, TaskSet.vTaskNotifyGiveFromISR]
      by_cases hs : (k.give t).uxSchedulerSuspended = 0
      · dsimp only
        simp only [if_pos hs]
        split_ifs
        · exact Placed.readied (k := k.give t) h he rfl
        · exact Placed.readied (k := k.give t) h he rfl
        · exact h
      · dsimp only
        simp only [if_neg hs]
        split_ifs <;> exact h
  | give t =>
      rw [TaskSet.step, TaskSet.xTaskNotifyGive]
      dsimp only
      split_ifs
      · exact Placed.readied (k := k.give t) h he rfl
      · exact h
  | sleep t =>
      rw [TaskSet.step, TaskSet.sleep]
      split_ifs <;> exact h

/-! ### The start -/

/-- **The start.**  The tasks are in their ready lists, in the order in which they were created. -/
theorem boot_fold (ts : TaskSet) (m : Nat) :
    let k := (List.range m).foldl ts.prvAddNewTaskToReadyList .empty
    (∀ p, k.pxReadyTasksLists p =
      ⟨(List.range m).filter fun t => ts.uxPriority t = p, 0⟩) ∧
      (∀ p, k.uxTopReadyPriority.getLsbD p = decide (∃ t < m, ts.uxPriority t = p)) ∧
      k = { Kernel.empty with
        pxCurrentTCB := k.pxCurrentTCB
        pxReadyTasksLists := k.pxReadyTasksLists
        uxTopReadyPriority := k.uxTopReadyPriority } := by
  induction m with
  | zero => exact ⟨fun _ => rfl, fun p => by simp [Kernel.empty], rfl⟩
  | succ m ih =>
      rw [List.range_succ, List.foldl_append]
      intro k
      obtain ⟨hready, hbit, hrest⟩ := ih
      set k₀ := (List.range m).foldl ts.prvAddNewTaskToReadyList .empty
      have hk : k = ts.prvAddNewTaskToReadyList k₀ m := rfl
      rw [hk, TaskSet.prvAddNewTaskToReadyList, TaskSet.prvAddTaskToReadyList]
      refine ⟨fun p => ?_, fun p => ?_, ?_⟩
      · dsimp only
        by_cases hp : p = ts.uxPriority m
        · subst hp
          rw [Function.update_self, hready, TaskList.vListInsertEnd, if_pos rfl,
            List.filter_append]
          simp
        · rw [Function.update_of_ne hp, hready, List.filter_append]
          simp [Ne.symm hp]
      · dsimp only
        rw [BitVec.getLsbD_or, hbit, bit_shift (ts.priority_lt m), Bool.eq_iff_iff]
        simp only [Bool.or_eq_true, decide_eq_true_eq]
        constructor
        · rintro (⟨t, ht, rfl⟩ | rfl)
          · exact ⟨t, Nat.lt_succ_of_lt ht, rfl⟩
          · exact ⟨m, Nat.lt_succ_self m, rfl⟩
        · rintro ⟨t, ht, rfl⟩
          rcases Nat.lt_succ_iff_lt_or_eq.mp ht with ht | rfl
          · exact .inl ⟨t, ht, rfl⟩
          · exact .inr rfl
      · rw [hrest]

theorem placed_boot (ts : TaskSet) : Placed ts none ts.boot.lists := by
  obtain ⟨hready, hbit, hrest⟩ := boot_fold ts ts.uxCurrentNumberOfTasks
  set k := (List.range ts.uxCurrentNumberOfTasks).foldl ts.prvAddNewTaskToReadyList .empty
  have hboot : ts.boot.lists = ⟨k.pxReadyTasksLists, [], [], [], k.uxTopReadyPriority⟩ := by
    change k.lists = _
    rw [hrest]
    rfl
  have hmem : ∀ p t, t ∈ (k.pxReadyTasksLists p).items ↔
      t < ts.uxCurrentNumberOfTasks ∧ ts.uxPriority t = p := by
    intro p t
    rw [hready, List.mem_filter, List.mem_range, decide_eq_true_eq]
  have hsome : ∀ p, k.uxTopReadyPriority.getLsbD p = true ↔ (k.pxReadyTasksLists p).items ≠ [] := by
    intro p
    rw [hbit, decide_eq_true_eq]
    constructor
    · rintro ⟨t, ht⟩
      exact List.ne_nil_of_mem ((hmem p t).mpr ht)
    · intro hne
      obtain ⟨t, ht⟩ := List.exists_mem_of_ne_nil _ hne
      exact ⟨t, (hmem p t).mp ht⟩
  rw [hboot]
  constructor
  · intro t
    simp only [Lists.count, List.count_nil, Nat.add_zero, ne_eq, reduceCtorEq, not_false_eq_true,
      and_true]
    split_ifs with ht
    · refine List.count_eq_one_of_mem ?_ ((hmem _ t).mpr ⟨ht, rfl⟩)
      rw [hready]
      exact List.nodup_range.filter _
    · exact List.count_eq_zero_of_not_mem fun hm => ht ((hmem _ t).mp hm).1
  · exact fun p t ht => ((hmem p t).mp ht).2
  · intro p
    dsimp only
    rw [hready]
    exact Nat.zero_le _
  · exact fun p hp => (hsome p).mpr hp
  · exact fun p hp => .inl ((hsome p).mp hp)

end TelinkB91.Rtos.Tasks
