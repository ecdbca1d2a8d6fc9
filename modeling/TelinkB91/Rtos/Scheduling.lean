import TelinkB91.Rtos.Notify

/-!
# Rtos — which task runs

A switch chooses the highest ready list and the next task in it.  What becomes ready comes in front
of `pxIndex`, so it never comes between `pxIndex` and a task that is ahead of it; and when there is
nothing ahead of `pxIndex` it starts from the front, where every task is ahead of it or chosen.

* `switch_highest`: the task that is chosen is ready, and no ready task is above it.
* `Fair`: what holds between two states of a run, for one task that stays in its ready list; it is
  reflexive and transitive, so each function is a chain of its parts.
* `fair_step`: every event.
* `scheduler_fair`: a task that stays ready gets its turn.
-/

namespace TelinkB91.Rtos.Tasks

variable {ts : TaskSet} {k : Kernel}

/-! ### The choice -/

theorem Placed.testBit {l : Lists} (h : Placed ts none l) (p : Nat) :
    l.top.toNat.testBit p = true ↔ (l.ready p).items ≠ [] := by
  rw [BitVec.testBit_toNat]
  constructor
  · intro hp
    rcases h.held p hp with hne | ⟨u, hu, -⟩
    · exact hne
    · cases hu
  · exact h.bit p

/-- The bit that `portGET_HIGHEST_PRIORITY` finds. -/
theorem Placed.top {l : Lists} (h : Placed ts none l) {u : Nat}
    (hu : u ∈ (l.ready (ts.uxPriority u)).items) :
    (l.ready (Nat.log2 l.top.toNat)).items ≠ [] ∧ ts.uxPriority u ≤ Nat.log2 l.top.toNat := by
  have hbit := (h.testBit (ts.uxPriority u)).mpr (List.ne_nil_of_mem hu)
  have hpow := Nat.ge_two_pow_of_testBit hbit
  have hne : l.top.toNat ≠ 0 := by
    have := Nat.two_pow_pos (ts.uxPriority u)
    omega
  exact ⟨(h.testBit _).mp (Nat.testBit_log2 hne), (Nat.le_log2 hne).mpr hpow⟩

/-- The owner of the next entry is one of the items. -/
theorem owner_mem {α : Type*} {l : TaskList α} (hne : l.items ≠ []) :
    ∃ x ∈ l.items, l.listGetOwnerOfNextEntry.2 = some x := by
  cases ha : l.ahead with
  | cons x q =>
      exact ⟨x, mem_of_mem_ahead (ha ▸ List.mem_cons_self), (next_of_ahead ha).1⟩
  | nil =>
      cases hi : l.items with
      | nil => exact absurd hi hne
      | cons x q => exact ⟨x, List.mem_cons_self, (next_of_end ha hi).1⟩

/-- **The choice.**  The task that is chosen is ready, and no ready task is above it. -/
theorem switch_highest (h : Kept ts k) (hs : k.uxSchedulerSuspended = 0) :
    Ready ts k k.vTaskSwitchContext.pxCurrentTCB ∧
      ∀ u, Ready ts k u → ts.uxPriority u ≤ ts.uxPriority k.vTaskSwitchContext.pxCurrentTCB := by
  have hidle : ts.idle ∈ (k.lists.ready (ts.uxPriority ts.idle)).items := h.notified.idle_ready
  obtain ⟨x, hx, howner⟩ := owner_mem (h.placed.top hidle).1
  have hp : ts.uxPriority x = Nat.log2 k.lists.top.toNat := h.placed.own _ x hx
  have hcurrent : k.vTaskSwitchContext.pxCurrentTCB = x := by
    have howner' : (k.pxReadyTasksLists
      (Nat.log2 k.uxTopReadyPriority.toNat)).listGetOwnerOfNextEntry.2 = some x := howner
    rw [Kernel.vTaskSwitchContext, if_neg (not_not_intro hs)]
    dsimp only
    rw [howner']
    rfl
  rw [hcurrent]
  refine ⟨?_, fun u hu => ?_⟩
  · rw [Ready, hp]
    exact hx
  · rw [hp]
    exact (h.placed.top hu).2

/-! ### The turns of one task -/

/-- What is ahead of `pxIndex` in the ready list of the task. -/
def TaskSet.ahead (ts : TaskSet) (k : Kernel) (t : Nat) : List Nat :=
  (k.pxReadyTasksLists (ts.uxPriority t)).ahead

/-- While the task neither leaves its list nor is chosen, it stays ready; if it is ahead, each
choice of its priority brings it nearer; and if not, each brings `pxIndex` nearer to the end. -/
structure Fair (ts : TaskSet) (t : Nat) (k k' : Kernel) : Prop where
  left : k.seen.left t ≤ k'.seen.left t
  runs : k.seen.runs t ≤ k'.seen.runs t
  stays : k'.seen.left t = k.seen.left t → k'.seen.runs t = k.seen.runs t → Ready ts k t →
    Ready ts k' t ∧
      (t ∈ ts.ahead k t → t ∈ ts.ahead k' t ∧
        (ts.ahead k' t).idxOf t + k'.seen.picks (ts.uxPriority t) ≤
          (ts.ahead k t).idxOf t + k.seen.picks (ts.uxPriority t)) ∧
      (t ∉ ts.ahead k t → t ∈ ts.ahead k' t ∨
        (ts.ahead k' t).length + k'.seen.picks (ts.uxPriority t) ≤
          (ts.ahead k t).length + k.seen.picks (ts.uxPriority t))

theorem Fair.refl (ts : TaskSet) (t : Nat) (k : Kernel) : Fair ts t k k :=
  ⟨Nat.le_refl _, Nat.le_refl _,
    fun _ _ hr => ⟨hr, fun ht => ⟨ht, Nat.le_refl _⟩, fun _ => .inr (Nat.le_refl _)⟩⟩

theorem Fair.trans {t : Nat} {k₁ k₂ k₃ : Kernel} (h : Fair ts t k₁ k₂) (h' : Fair ts t k₂ k₃) :
    Fair ts t k₁ k₃ where
  left := Nat.le_trans h.left h'.left
  runs := Nat.le_trans h.runs h'.runs
  stays hleft hruns hready := by
    have hl := h.left
    have hl' := h'.left
    have hr := h.runs
    have hr' := h'.runs
    obtain ⟨hready₂, hahead, hbehind⟩ := h.stays (by omega) (by omega) hready
    obtain ⟨hready₃, hahead', hbehind'⟩ := h'.stays (by omega) (by omega) hready₂
    refine ⟨hready₃, fun ht => ?_, fun ht => ?_⟩
    · obtain ⟨hmem, hle⟩ := hahead ht
      obtain ⟨hmem', hle'⟩ := hahead' hmem
      exact ⟨hmem', Nat.le_trans hle' hle⟩
    · by_cases hmem : t ∈ ts.ahead k₂ t
      · exact .inl (hahead' hmem).1
      · rcases hbehind' hmem with hmem' | hle'
        · exact .inl hmem'
        · exact .inr (Nat.le_trans hle' ((hbehind ht).resolve_left hmem))

/-- Nothing that counts has changed. -/
theorem Fair.of_eq {t : Nat} {k' : Kernel}
    (hready : k'.pxReadyTasksLists (ts.uxPriority t) = k.pxReadyTasksLists (ts.uxPriority t))
    (hleft : k'.seen.left t = k.seen.left t) (hruns : k'.seen.runs = k.seen.runs)
    (hpicks : k'.seen.picks = k.seen.picks) : Fair ts t k k' where
  left := Nat.le_of_eq hleft.symm
  runs := Nat.le_of_eq (congrFun hruns.symm t)
  stays _ _ hr := by
    rw [Ready, TaskSet.ahead, TaskSet.ahead, hready, hpicks]
    exact ⟨hr, fun ht => ⟨ht, Nat.le_refl _⟩, fun _ => .inr (Nat.le_refl _)⟩

theorem Fair.add {t : Nat} (hvalid : ∀ p, (k.pxReadyTasksLists p).Valid) (u : Nat) :
    Fair ts t k (ts.prvAddTaskToReadyList k u) := by
  by_cases hp : ts.uxPriority t = ts.uxPriority u
  · refine ⟨Nat.le_refl _, Nat.le_refl _, fun _ _ hr => ⟨hr.add u, ?_⟩⟩
    have hring : (ts.prvAddTaskToReadyList k u).pxReadyTasksLists (ts.uxPriority t) =
        (k.pxReadyTasksLists (ts.uxPriority t)).vListInsertEnd u := by
      rw [hp]
      exact Function.update_self ..
    have hpicks : (ts.prvAddTaskToReadyList k u).seen.picks = k.seen.picks := rfl
    rw [TaskSet.ahead, TaskSet.ahead, hring, ahead_insertEnd (hvalid _), hpicks]
    split_ifs with h0
    · refine ⟨fun ht => ⟨List.mem_append_left _ ht, ?_⟩, fun ht => absurd ?_ ht⟩
      · rw [List.idxOf_append_of_mem ht]
      · rw [TaskList.ahead, h0]
        exact hr
    · exact ⟨fun ht => ⟨ht, Nat.le_refl _⟩, fun _ => .inr (Nat.le_refl _)⟩
  · exact Fair.of_eq (Function.update_of_ne hp ..) rfl rfl rfl

theorem idxOf_erase_le {t u : Nat} (hne : t ≠ u) (l : List Nat) :
    (l.erase u).idxOf t ≤ l.idxOf t := by
  induction l with
  | nil => exact Nat.le_refl _
  | cons x l ih =>
      rw [List.erase_cons]
      by_cases hx : x = u
      · subst hx
        rw [if_pos (beq_self_eq_true x), List.idxOf_cons_ne l hne.symm]
        exact Nat.le_succ _
      · rw [if_neg (by simpa using hx)]
        by_cases hxt : x = t
        · subst hxt
          rw [List.idxOf_cons_self]
          exact Nat.zero_le _
        · rw [List.idxOf_cons_ne _ hxt, List.idxOf_cons_ne _ hxt]
          exact Nat.succ_le_succ ih

theorem Fair.removeState {t : Nat} (hnd : ∀ p, (k.pxReadyTasksLists p).items.Nodup) (u : Nat) :
    Fair ts t k (ts.removeState k u) := by
  have hleft : (ts.removeState k u).seen.left = Function.update k.seen.left u
    (k.seen.left u + 1) := rfl
  by_cases htu : t = u
  · subst htu
    refine ⟨?_, Nat.le_refl _, fun hsame => ?_⟩
    · rw [hleft, Function.update_self]
      exact Nat.le_succ _
    · rw [hleft, Function.update_self] at hsame
      exact absurd hsame (Nat.succ_ne_self _)
  · by_cases hp : ts.uxPriority t = ts.uxPriority u
    · refine ⟨?_, Nat.le_refl _, fun _ _ hr => ⟨hr.removeState htu, ?_⟩⟩
      · rw [hleft, Function.update_of_ne htu]
      · have hring : (ts.removeState k u).pxReadyTasksLists (ts.uxPriority t) =
            (k.pxReadyTasksLists (ts.uxPriority t)).uxListRemove u := by
          rw [hp]
          exact Function.update_self ..
        have hpicks : (ts.removeState k u).seen.picks = k.seen.picks := rfl
        rw [TaskSet.ahead, TaskSet.ahead, hring, ahead_remove (hnd _), hpicks]
        refine ⟨fun ht => ⟨(List.mem_erase_of_ne htu).mpr ht, ?_⟩, fun _ => .inr ?_⟩
        · exact Nat.add_le_add_right (idxOf_erase_le htu _) _
        · exact Nat.add_le_add_right List.length_erase_le _
    · refine Fair.of_eq (Function.update_of_ne hp ..) ?_ rfl rfl
      rw [hleft, Function.update_of_ne htu]

/-- **A choice.** -/
theorem Fair.switch {t : Nat} (h : Placed ts none k.lists) (hr : ∃ u, Ready ts k u) :
    Fair ts t k k.vTaskSwitchContext := by
  rw [Kernel.vTaskSwitchContext]
  split_ifs with hs
  · exact Fair.of_eq rfl rfl rfl rfl
  · obtain ⟨u, hu⟩ := hr
    obtain ⟨hne, -⟩ := h.top hu
    obtain ⟨x, hx, howner⟩ := owner_mem hne
    have hpx : ts.uxPriority x = Nat.log2 k.uxTopReadyPriority.toNat := h.own _ x hx
    rw [← show ts.uxPriority x = Nat.log2 k.lists.top.toNat from hpx] at howner
    rw [← hpx]
    change (k.pxReadyTasksLists (ts.uxPriority x)).listGetOwnerOfNextEntry.2 = some x at howner
    dsimp only
    rw [howner, Option.getD_some]
    by_cases hp : ts.uxPriority t = ts.uxPriority x
    · refine ⟨Nat.le_refl _, ?_, fun _ hruns hready => ?_⟩
      · dsimp only
        by_cases htx : t = x
        · rw [htx, Function.update_self]
          exact Nat.le_succ _
        · rw [Function.update_of_ne htx]
      · have htx : t ≠ x := by
          rintro rfl
          dsimp only at hruns
          rw [Function.update_self] at hruns
          exact Nat.succ_ne_self _ hruns
        dsimp only
        rw [Ready, TaskSet.ahead, TaskSet.ahead]
        dsimp only
        rw [hp, Function.update_self, Function.update_self]
        rw [Ready, hp] at hready
        refine ⟨?_, ?_⟩
        · rw [TaskList.listGetOwnerOfNextEntry, items_next]
          exact hready
        · cases ha : (k.pxReadyTasksLists (ts.uxPriority x)).ahead with
          | cons y q =>
              obtain ⟨howner', hnext⟩ := next_of_ahead ha
              obtain rfl : x = y := Option.some.inj (howner.symm.trans howner')
              rw [TaskList.listGetOwnerOfNextEntry, hnext]
              refine ⟨fun ht => ⟨(List.mem_cons.mp ht).resolve_left htx, ?_⟩, fun _ => .inr ?_⟩
              · rw [List.idxOf_cons_ne _ htx.symm]
                omega
              · rw [List.length_cons]
                omega
          | nil =>
              refine ⟨fun ht => absurd ht List.not_mem_nil, fun _ => .inl ?_⟩
              cases hi : (k.pxReadyTasksLists (ts.uxPriority x)).items with
              | nil => exact absurd (hi ▸ hready) List.not_mem_nil
              | cons y q =>
                  obtain ⟨howner', hnext⟩ := next_of_end ha hi
                  obtain rfl : x = y := Option.some.inj (howner.symm.trans howner')
                  rw [TaskList.listGetOwnerOfNextEntry, hnext]
                  rw [hi] at hready
                  exact (List.mem_cons.mp hready).resolve_left htx
    · have htx : t ≠ x := fun heq => hp (congrArg _ heq)
      refine ⟨Nat.le_refl _, Nat.le_of_eq (Function.update_of_ne htx ..).symm,
        fun _ _ hready => ?_⟩
      dsimp only
      rw [Ready, TaskSet.ahead, TaskSet.ahead]
      dsimp only
      rw [Function.update_of_ne hp, Function.update_of_ne hp]
      exact ⟨hready, fun ht => ⟨ht, Nat.le_refl _⟩, fun _ => .inr (Nat.le_refl _)⟩

/-! ### The functions -/

/-- The counts of an observer that the turns are about. -/
def Seen.turn (s : Seen) : (Nat → Nat) × (Nat → Nat) × (Nat → Nat) := (s.left, s.runs, s.picks)

theorem turn_wake (s : Seen) (t : Nat) : (s.wake t).turn = s.turn := by
  rw [Seen.wake]
  split <;> rfl

theorem Fair.same {t : Nat} {k' : Kernel} (hready : k'.pxReadyTasksLists = k.pxReadyTasksLists)
    (hturn : k'.seen.turn = k.seen.turn) : Fair ts t k k' := by
  rw [Seen.turn, Seen.turn, Prod.mk.injEq, Prod.mk.injEq] at hturn
  exact Fair.of_eq (congrFun hready _) (congrFun hturn.1 t) hturn.2.1 hturn.2.2

theorem Fair.after {t : Nat} {k' k'' : Kernel} (h : Fair ts t k' k'')
    (hready : k'.pxReadyTasksLists = k.pxReadyTasksLists) (hturn : k'.seen.turn = k.seen.turn) :
    Fair ts t k k'' := (Fair.same hready hturn).trans h

theorem Fair.readied {t : Nat} (h : Placed ts none k.lists) {u : Nat} {k' : Kernel}
    (hlists : k'.lists = (ts.removeState k u).lists)
    (hturn : k'.seen.turn = (ts.removeState k u).seen.turn) :
    Fair ts t k (ts.prvAddTaskToReadyList k' u) := by
  have hremove : Fair ts t k (ts.removeState k u) := Fair.removeState h.nodup u
  have hready : k'.pxReadyTasksLists = (ts.removeState k u).pxReadyTasksLists :=
    congrArg Lists.ready hlists
  have hvalid : ∀ p, (k'.pxReadyTasksLists p).Valid := by
    rw [hready]
    exact (placed_removeState h u).valid
  exact (hremove.trans (Fair.same hready hturn)).trans (Fair.add hvalid u)

theorem Fair.unblock {t : Nat} {now : U32} : ∀ (l : List (U32 × Nat)) {k : Kernel},
    Placed ts none k.lists → (∀ y ∈ l, y.2 < ts.uxCurrentNumberOfTasks) →
      Fair ts t k (ts.unblock now l k).1
  | [], _, _, _ => Fair.same rfl rfl
  | y :: rest, k, h, hl => by
      rw [TaskSet.unblock]
      split_ifs
      · exact Fair.same rfl rfl
      · refine (Fair.readied h ?_ (turn_wake _ y.2)).trans (Fair.unblock rest ?_ fun z hz =>
          hl z (List.mem_cons_of_mem y hz))
        · rfl
        · exact Placed.readied h (hl y List.mem_cons_self) rfl

theorem Fair.increment {t : Nat} (h : Placed ts none k.lists) :
    Fair ts t k (ts.xTaskIncrementTick k).1 := by
  have hadvance : Fair ts t k k.advance ∧ Placed ts none k.advance.lists := by
    rw [Kernel.advance]
    split_ifs
    · exact ⟨Fair.same rfl rfl, Placed.swap h⟩
    · exact ⟨Fair.same rfl rfl, h⟩
  rw [TaskSet.xTaskIncrementTick]
  split_ifs
  · rw [TaskSet.unblockDue]
    split_ifs
    · exact hadvance.1.trans (Fair.unblock _ hadvance.2 hadvance.2.delayed_lt)
    · exact hadvance.1
  · exact Fair.same rfl rfl

theorem Fair.unwind {t : Nat} : ∀ (n : Nat) {k : Kernel}, Placed ts none k.lists →
    Fair ts t k (ts.unwind n k)
  | 0, k, _ => Fair.refl ts t k
  | n + 1, k, h => by
      rw [TaskSet.unwind]
      refine (Fair.increment h).trans (Fair.after (Fair.unwind n ?_) rfl rfl)
      exact placed_increment h

theorem Fair.readyPending {t : Nat} : ∀ (l : List Nat) {k : Kernel}, Placed ts none k.lists →
    (∀ u ∈ l, u < ts.uxCurrentNumberOfTasks) → Fair ts t k (ts.readyPending l k)
  | [], k, _, _ => Fair.refl ts t k
  | u :: rest, k, h, hl => by
      rw [TaskSet.readyPending]
      have hready : Placed ts none (ts.prvAddTaskToReadyList
          { ts.removeState { k with xPendingReadyList := rest } u with
            seen := (ts.removeState { k with xPendingReadyList := rest } u).seen.leave u }
          u).lists :=
        Placed.readied h (hl u List.mem_cons_self) rfl
      refine Fair.trans ?_ (Fair.readyPending rest (by exact hready) fun v hv =>
        hl v (List.mem_cons_of_mem u hv))
      exact (Fair.readied (k := k) (u := u) h rfl rfl).trans (Fair.same rfl rfl)

theorem Fair.resumeAll {t : Nat} (h : Placed ts none k.lists)
    (hpending : ∀ u ∈ k.xPendingReadyList, u < ts.uxCurrentNumberOfTasks) :
    Fair ts t k (ts.xTaskResumeAll k) := by
  rw [TaskSet.xTaskResumeAll]
  dsimp only
  split_ifs
  · set k₁ : Kernel := { k with uxSchedulerSuspended := k.uxSchedulerSuspended - 1 }
    have hdrain : Fair ts t k (ts.drainPending k₁) ∧ Placed ts none (ts.drainPending k₁).lists := by
      have hfirst : Fair ts t k k₁ := Fair.same rfl rfl
      have hnext : Fair ts t k₁ (ts.readyPending k₁.xPendingReadyList k₁) :=
        Fair.readyPending _ (by exact h) (by exact hpending)
      have hplaced : Placed ts none (ts.readyPending k₁.xPendingReadyList k₁).lists :=
        placed_readyPending _ (by exact h) (by exact hpending)
      rw [TaskSet.drainPending]
      split_ifs
      · exact ⟨hfirst.trans hnext, hplaced⟩
      · exact ⟨(hfirst.trans hnext).trans (Fair.same rfl rfl), hplaced⟩
    rw [TaskSet.catchUp]
    split_ifs
    · exact (hdrain.1.trans (Fair.unwind _ hdrain.2)).trans (Fair.same rfl rfl)
    · exact hdrain.1
  · exact Fair.same rfl rfl

theorem Fair.block {t : Nat} (h : Placed ts none k.lists) (n : U32) (indefinitely : Bool) :
    Fair ts t k (ts.prvAddCurrentTaskToDelayedList k n indefinitely) := by
  have hleave : Fair ts t k (ts.portResetReadyPriority (ts.removeState k k.pxCurrentTCB)
      k.pxCurrentTCB) := by
    refine Fair.trans (Fair.removeState h.nodup k.pxCurrentTCB) ?_
    rw [TaskSet.portResetReadyPriority]
    split_ifs
    · exact Fair.same rfl rfl
    · exact Fair.refl ts t _
  rw [TaskSet.prvAddCurrentTaskToDelayedList]
  split_ifs
  · exact hleave.trans (Fair.same rfl rfl)
  · refine hleave.trans ?_
    rw [Kernel.insertDelayed]
    split_ifs <;> exact Fair.same rfl rfl

/-- **Every event.** -/
theorem fair_step {t : Nat} (h : Kept ts k) {e : Event} (he : ts.Allowed k e) :
    Fair ts t k (ts.step k e) := by
  have hidle : ∃ u, Ready ts k u := ⟨ts.idle, h.notified.idle_ready⟩
  cases e with
  | tick =>
      rw [TaskSet.step, TaskSet.mtimeHandler]
      set k₁ : Kernel := { k with seen := { k.seen with ticks := k.seen.ticks + 1 } }
      have hplaced : Placed ts none k₁.lists := h.placed
      have htick : Fair ts t k (ts.xTaskIncrementTick k₁).1 :=
        Fair.after (Fair.increment hplaced) rfl rfl
      split_ifs
      · exact htick.trans (Fair.switch (placed_increment hplaced)
          ⟨ts.idle, Ready.increment (by exact h.notified.idle_ready)⟩)
      · exact htick
  | yield => exact Fair.switch h.placed hidle
  | suspendAll => exact Fair.same rfl rfl
  | resumeAll => exact Fair.resumeAll h.placed fun u hu => (h.notified.pending u hu).1
  | delay n =>
      rw [TaskSet.step, TaskSet.vTaskDelay]
      split_ifs
      · exact Fair.block h.placed n false
      · exact Fair.refl ts t k
  | getTickCount => exact Fair.same rfl rfl
  | delayUntil n =>
      rw [TaskSet.step, TaskSet.xTaskDelayUntil]
      dsimp only
      split_ifs
      · refine Fair.after (Fair.block ?_ _ false) rfl rfl
        exact h.placed
      · exact Fair.same rfl rfl
  | takeBegin n =>
      rw [TaskSet.step, TaskSet.takeBegin]
      dsimp only
      split_ifs
      · refine Fair.after (Fair.block ?_ n true) rfl rfl
        exact h.placed
      · exact Fair.same rfl rfl
      · exact Fair.same rfl rfl
  | takeEnd clear =>
      rw [TaskSet.step, Kernel.takeEnd]
      dsimp only
      split_ifs <;> exact Fair.same rfl rfl
  | giveFromISR u =>
      have hgive : Fair ts t k (k.give u) := Fair.same rfl rfl
      rw [TaskSet.step, TaskSet.vTaskNotifyGiveFromISR]
      by_cases hs : (k.give u).uxSchedulerSuspended = 0
      · have hready : Fair ts t k (ts.prvAddTaskToReadyList { ts.removeState (k.give u) u with
            seen := (ts.removeState (k.give u) u).seen.leave u } u) :=
          hgive.trans (Fair.readied (by exact h.placed) rfl rfl)
        dsimp only
        simp only [if_pos hs]
        split_ifs
        · exact hready.trans (Fair.same rfl rfl)
        · exact hready
        · exact hgive
      · dsimp only
        simp only [if_neg hs]
        split_ifs <;> exact Fair.same rfl rfl
  | give u =>
      have hgive : Fair ts t k (k.give u) := Fair.same rfl rfl
      have hready : Fair ts t k (ts.prvAddTaskToReadyList { ts.removeState (k.give u) u with
          seen := (ts.removeState (k.give u) u).seen.leave u } u) :=
        hgive.trans (Fair.readied (by exact h.placed) rfl rfl)
      rw [TaskSet.step, TaskSet.xTaskNotifyGive]
      dsimp only
      split_ifs
      · exact hready.trans (Fair.same rfl rfl)
      · exact hgive
  | sleep x =>
      rw [TaskSet.step, TaskSet.sleep]
      split_ifs
      · exact Fair.same rfl rfl
      · exact Fair.refl ts t k

/-! ### The runs -/

theorem fair_run {t : Nat} {es : List Event} (h : Kept ts k)
    (hes : Runs.Along ts.step ts.Allowed k es) : Fair ts t k (Runs.runFrom ts.step k es) := by
  induction es generalizing k with
  | nil => exact Fair.refl ts t k
  | cons e es ih =>
      obtain ⟨he, hes⟩ := Runs.along_cons.mp hes
      exact (fair_step h he).trans (ih (h.step he) hes)

/-- **Every task is somewhere, the highest ready one runs, and each gets its turn.**  After any run
every task is in one list, once, and a switch chooses a ready task that no ready task is above.
From then on, as long as a task stays in its ready list: if it is ahead of `pxIndex` with `j` others
in between, it is among the next `j + 1` tasks of its priority that are chosen, whatever becomes
ready; and if it is not ahead, it is, or has been chosen, when one more task of its priority was
chosen than there were ahead. -/
theorem scheduler_fair (ts : TaskSet) (es more : List Event)
    (hes : Runs.Along ts.step ts.Allowed ts.boot (es ++ more)) (t : Nat) :
    let k := Runs.runFrom ts.step ts.boot es
    let k' := Runs.runFrom ts.step k more
    k.lists.count (ts.uxPriority t) t = (if t < ts.uxCurrentNumberOfTasks then 1 else 0) ∧
      (k.uxSchedulerSuspended = 0 → Ready ts k (ts.step k .yield).pxCurrentTCB ∧
        (Ready ts k t →
          ts.uxPriority t ≤ ts.uxPriority (ts.step k .yield).pxCurrentTCB)) ∧
      (Ready ts k t → k'.seen.left t = k.seen.left t →
        (t ∈ ts.ahead k t → k.seen.picks (ts.uxPriority t) + (ts.ahead k t).idxOf t <
          k'.seen.picks (ts.uxPriority t) → k.seen.runs t < k'.seen.runs t) ∧
        (t ∉ ts.ahead k t → k.seen.picks (ts.uxPriority t) + (ts.ahead k t).length <
          k'.seen.picks (ts.uxPriority t) →
            k.seen.runs t < k'.seen.runs t ∨ t ∈ ts.ahead k' t)) := by
  intro k k'
  obtain ⟨hfirst, hmore⟩ := Runs.along_append.mp hes
  have hk : Kept ts k := (kept_boot ts).run hfirst
  have hfair : Fair ts t k k' := fair_run hk hmore
  refine ⟨?_, fun hs => ?_, fun hready hleft => ?_⟩
  · rw [hk.placed.count t]
    simp
  · obtain ⟨hchosen, hhighest⟩ := switch_highest hk hs
    exact ⟨hchosen, hhighest t⟩
  · have hruns := hfair.runs
    refine ⟨fun hahead hpicks => ?_, fun hbehind hpicks => ?_⟩
    · by_contra hge
      have hsame : k'.seen.runs t = k.seen.runs t := by omega
      obtain ⟨-, hle⟩ := (hfair.stays hleft hsame hready).2.1 hahead
      omega
    · by_cases hsame : k'.seen.runs t = k.seen.runs t
      · refine .inr (((hfair.stays hleft hsame hready).2.2 hbehind).resolve_right fun hle => ?_)
        omega
      · exact .inl (by omega)

/-- Two tasks of one priority, and the idle task. -/
def equalTasks : TaskSet :=
  { sampleTasks with
    uxPriority := fun t => if t = 2 then 0 else 1
    idle_priority := rfl
    priority_lt := fun t => by
      split_ifs <;> decide }

/-- The ticks switch between the two: the one that runs is behind `pxIndex`, and the other ahead. -/
theorem scheduler_fair_sample :
    let k := Runs.runFrom equalTasks.step equalTasks.boot [.yield]
    let k' := Runs.runFrom equalTasks.step k [.tick, .tick]
    k.pxCurrentTCB = 0 ∧ k.seen.runs 1 < k'.seen.runs 1 ∧
      (k.seen.runs 0 < k'.seen.runs 0 ∨ 0 ∈ equalTasks.ahead k' 0) := by
  have hes : Runs.Along equalTasks.step equalTasks.Allowed equalTasks.boot
      [.yield, .tick, .tick] := by decide +kernel
  obtain ⟨-, -, hother⟩ := scheduler_fair equalTasks [.yield] [.tick, .tick] hes 1
  obtain ⟨-, -, hrunning⟩ := scheduler_fair equalTasks [.yield] [.tick, .tick] hes 0
  have hturn := (hother (by decide +kernel) (by decide +kernel)).1 (by decide +kernel)
    (by decide +kernel)
  have hturn' := (hrunning (by decide +kernel) (by decide +kernel)).2 (by decide +kernel)
    (by decide +kernel)
  exact ⟨by decide +kernel, hturn, hturn'⟩

end TelinkB91.Rtos.Tasks
