import TelinkB91.Rtos.DelayRuns

/-!
# Rtos — the periods of the tasks

A task that calls `xTaskDelayUntil` again and again keeps the tick it has planned in a variable of
its own, and the planned ticks are a period apart, whatever the task does in between.  The count may
have wrapped since the last one, and the planned tick may lie behind the wrap.  How far the task is
behind its plan is seen without the full rounds of the count.

* `Plan`, `Plan.Held`: the wait for a planned tick; nobody else ends it.
* `held_step`: every event keeps it.
* `lag`, `shouldDelay_iff`: the comparison that decides, over the clock.
* `delayUntil_periodic`: when the task runs again.
-/

namespace TelinkB91.Rtos.Tasks

/-- What the plans are made of. -/
structure Plan where
  taking : Nat → Bool
  waits : Nat → Option Wait
  wakes : List Wake
  pending : List Nat

def Kernel.plan (k : Kernel) : Plan where
  taking := k.seen.taking
  waits := k.seen.waits
  wakes := k.seen.wakes
  pending := k.xPendingReadyList

/-- The task waits for the tick `due`, and for nothing else, or has waited for it. -/
def Plan.Held (p : Plan) (t due : Nat) : Prop :=
  (∃ e ∈ p.wakes, e.task = t ∧ e.wait.due = due) ∨
    p.taking t = false ∧ ∃ w, p.waits t = some w ∧ w.due = due

/-- A task is pending only while it is in `ulTaskNotifyTake`. -/
def Plan.Taken (p : Plan) : Prop := ∀ t ∈ p.pending, p.taking t = true

variable {ts : TaskSet} {k : Kernel} {t due : Nat} {p : Plan}

/-! ### The waits -/

/-- The plan when the wait of one task runs out. -/
def Plan.wake (p : Plan) (u clock : Nat) : Plan :=
  match p.waits u with
  | some w => { p with
      waits := Function.update p.waits u none, wakes := p.wakes ++ [⟨u, w, clock⟩] }
  | none => p

theorem plan_wake (s : Seen) (u : Nat) (pending : List Nat) :
    (⟨(s.wake u).taking, (s.wake u).waits, (s.wake u).wakes, pending⟩ : Plan) =
      Plan.wake ⟨s.taking, s.waits, s.wakes, pending⟩ u s.clock := by
  rw [Seen.wake, Plan.wake]
  dsimp only
  cases s.waits u <;> rfl

theorem Plan.Held.wake (h : p.Held t due) (u clock : Nat) : (p.wake u clock).Held t due := by
  rw [Plan.wake]
  cases hu : p.waits u with
  | none => exact h
  | some w =>
      rcases h with ⟨e, he, hdue⟩ | ⟨htaking, w', hw', hdue⟩
      · exact .inl ⟨e, List.mem_append_left _ he, hdue⟩
      · by_cases htu : t = u
        · subst htu
          obtain rfl := Option.some.inj (hu.symm.trans hw')
          exact .inl ⟨_, List.mem_append_right _ (List.mem_singleton_self _), rfl, hdue⟩
        · exact .inr ⟨htaking, w', (Function.update_of_ne htu ..).trans hw', hdue⟩

theorem Plan.Taken.wake (h : p.Taken) (u clock : Nat) : (p.wake u clock).Taken := by
  rw [Plan.wake]
  cases p.waits u <;> exact h

/-- Waits that are missed go on. -/
theorem Plan.Held.missed (h : p.Held t due) (l : List Nat) :
    Plan.Held { p with waits := missed l p.waits } t due := by
  rcases h with h | ⟨htaking, w, hw, hdue⟩
  · exact .inl h
  · refine .inr ⟨htaking, _, missed_some.mpr ⟨w, hw, rfl⟩, ?_⟩
    split_ifs <;> exact hdue

/-- The wait of another task changes. -/
theorem Plan.Held.update (h : p.Held t due) {u : Nat} (hne : t ≠ u) (x : Option Wait) :
    Plan.Held { p with waits := Function.update p.waits u x } t due := by
  rcases h with h | ⟨htaking, w, hw, hdue⟩
  · exact .inl h
  · exact .inr ⟨htaking, w, (Function.update_of_ne hne ..).trans hw, hdue⟩

/-- A task in `ulTaskNotifyTake` stops to wait. -/
theorem Plan.Held.leave (h : p.Held t due) {u : Nat} (hu : p.taking u = true) :
    Plan.Held { p with waits := Function.update p.waits u none } t due := by
  rcases h with h | ⟨htaking, hw⟩
  · exact .inl h
  · refine Plan.Held.update (.inr ⟨htaking, hw⟩) (fun htu => ?_) none
    rw [htu, hu] at htaking
    cases htaking

/-- What holds of the plan while the scheduler goes on by itself. -/
def Plan.Kept (p p' : Plan) : Prop :=
  (∀ t due, p.Held t due → p'.Held t due) ∧ p'.taking = p.taking ∧ p'.pending = p.pending

theorem Plan.Kept.refl (p : Plan) : p.Kept p := ⟨fun _ _ h => h, rfl, rfl⟩

theorem Plan.Kept.trans {p p' p'' : Plan} (h : p.Kept p') (h' : p'.Kept p'') : p.Kept p'' :=
  ⟨fun t due ht => h'.1 t due (h.1 t due ht), h'.2.1.trans h.2.1, h'.2.2.trans h.2.2⟩

theorem plan_unblock {now : U32} : ∀ (l : List (U32 × Nat)) (k : Kernel),
    k.plan.Kept (ts.unblock now l k).1.plan
  | [], k => Plan.Kept.refl k.plan
  | y :: rest, k => by
      rw [TaskSet.unblock]
      split_ifs
      · exact Plan.Kept.refl k.plan
      · refine Plan.Kept.trans ?_ (plan_unblock rest _)
        have hplan : (ts.prvAddTaskToReadyList { ts.removeState k y.2 with
            seen := (ts.removeState k y.2).seen.wake y.2 } y.2).plan =
              k.plan.wake y.2 k.seen.clock :=
          plan_wake (ts.removeState k y.2).seen y.2 k.xPendingReadyList
        rw [hplan]
        refine ⟨fun t due h => h.wake y.2 k.seen.clock, ?_, ?_⟩ <;>
          rw [Plan.wake] <;> cases k.plan.waits y.2 <;> rfl

variable (ts) in
theorem plan_increment (k : Kernel) : k.plan.Kept (ts.xTaskIncrementTick k).1.plan := by
  have hadvance : k.plan.Kept k.advance.plan := by
    rw [Kernel.advance]
    split_ifs
    · exact ⟨fun _ _ h => h.missed _, rfl, rfl⟩
    · exact Plan.Kept.refl k.plan
  rw [TaskSet.xTaskIncrementTick]
  split_ifs
  · dsimp only
    rw [TaskSet.unblockDue]
    split_ifs
    · exact hadvance.trans (plan_unblock _ _)
    · exact hadvance
  · exact Plan.Kept.refl k.plan

theorem plan_unwind : ∀ (n : Nat) (k : Kernel), k.plan.Kept (ts.unwind n k).plan
  | 0, k => Plan.Kept.refl k.plan
  | n + 1, k => by
      rw [TaskSet.unwind]
      refine Plan.Kept.trans ?_ (plan_unwind n _)
      exact plan_increment ts k

theorem plan_switchContext (k : Kernel) : k.vTaskSwitchContext.plan = k.plan := by
  rw [Kernel.vTaskSwitchContext]
  split_ifs <;> rfl

theorem held_readyPending : ∀ (l : List Nat) {k : Kernel}, (∀ u ∈ l, k.seen.taking u = true) →
    k.plan.Held t due → (ts.readyPending l k).plan.Held t due
  | [], _, _, h => h
  | u :: rest, k, htaking, h => by
      rw [TaskSet.readyPending]
      refine held_readyPending rest ?_ ?_
      · exact fun v hv => htaking v (List.mem_cons_of_mem u hv)
      · exact h.leave (htaking u List.mem_cons_self)

/-- **The scheduler goes on.** -/
theorem held_resumeAll (h : k.plan.Held t due) (htaken : k.plan.Taken) :
    (ts.xTaskResumeAll k).plan.Held t due := by
  rw [TaskSet.xTaskResumeAll]
  split_ifs
  · have hdrain : (ts.drainPending { k with
        uxSchedulerSuspended := k.uxSchedulerSuspended - 1 }).plan.Held t due := by
      rw [TaskSet.drainPending]
      split_ifs <;> exact held_readyPending _ htaken h
    rw [TaskSet.catchUp]
    split_ifs
    · exact (plan_unwind _ _).1 t due hdrain
    · exact hdrain
  · exact h

/-- What the current task waits for. -/
theorem plan_block (k : Kernel) (n : U32) (indefinitely : Bool) :
    (ts.prvAddCurrentTaskToDelayedList k n indefinitely).plan =
      if n = portMaxDelay ∧ indefinitely = true then k.plan
      else { k.plan with
        waits := Function.update k.seen.waits k.pxCurrentTCB
          (some ⟨k.seen.clock + n.toNat, k.seen.turns, 0⟩) } := by
  obtain ⟨_, _, _, _, _, _, hblock⟩ := block_frame ts k n indefinitely
  rw [hblock]
  split_ifs <;> rfl

/-! ### The events -/

theorem Plan.Held.block (h : k.plan.Held t due)
    (hne : k.plan.waits t ≠ none → t ≠ k.pxCurrentTCB) (n : U32) (indefinitely : Bool) :
    (ts.prvAddCurrentTaskToDelayedList k n indefinitely).plan.Held t due := by
  rw [plan_block]
  split_ifs
  · exact h
  · rcases h with h | ⟨htaking, w, hw, hdue⟩
    · exact .inl h
    · have hsome : k.plan.waits t ≠ none := by
        rw [hw]
        exact Option.some_ne_none w
      exact Plan.Held.update (.inr ⟨htaking, w, hw, hdue⟩) (hne hsome) _

theorem Plan.Taken.block (h : k.plan.Taken) (n : U32) (indefinitely : Bool) :
    (ts.prvAddCurrentTaskToDelayedList k n indefinitely).plan.Taken := by
  rw [plan_block]
  split_ifs <;> exact h

/-- A ready task waits for nothing. -/
theorem OnTimes.ready_waits (h : OnTimes ts k) (ht : Ready ts k t) : k.seen.waits t = none := by
  obtain ⟨hdelayed, hoverflow, -⟩ := h.kept.placed.ready_only ht
  cases hw : k.seen.waits t with
  | none => rfl
  | some w =>
      rcases h.punctual.timed.waiting t w hw with hmem | hmem
      · exact absurd hmem hdelayed
      · exact absurd hmem hoverflow

/-- A tick. -/
theorem plan_tick (ts : TaskSet) (k : Kernel) : k.plan.Kept (ts.step k .tick).plan := by
  have htick := plan_increment ts { k with seen := { k.seen with ticks := k.seen.ticks + 1 } }
  rw [TaskSet.step, TaskSet.mtimeHandler]
  split_ifs
  · rw [plan_switchContext]
    exact htick
  · exact htick

/-- The current task goes into `ulTaskNotifyTake`. -/
theorem Plan.Held.begin (h : k.plan.Held t due)
    (hne : k.plan.waits t ≠ none → t ≠ k.pxCurrentTCB) :
    Plan.Held { k.plan with taking := Function.update k.seen.taking k.pxCurrentTCB true } t due := by
  rcases h with h | ⟨htaking, w, hw, hdue⟩
  · exact .inl h
  · have hsome : k.plan.waits t ≠ none := by
      rw [hw]
      exact Option.some_ne_none w
    exact .inr ⟨(Function.update_of_ne (hne hsome) ..).trans htaking, w, hw, hdue⟩

/-- The current task comes out of `ulTaskNotifyTake`. -/
theorem Plan.Held.come (h : k.plan.Held t due) :
    Plan.Held { k.plan with taking := Function.update k.seen.taking k.pxCurrentTCB false } t
      due := by
  rcases h with h | ⟨htaking, hw⟩
  · exact .inl h
  · refine .inr ⟨?_, hw⟩
    dsimp only
    by_cases hc : t = k.pxCurrentTCB
    · rw [hc, Function.update_self]
    · exact (Function.update_of_ne hc ..).trans htaking

/-- A task that waits for a notification is given one. -/
theorem Plan.Held.given (h : k.plan.Held t due) (hk : Tasks.Kept ts k) {u : Nat}
    (hu : k.ucNotifyState u = .waiting) :
    Plan.Held { k.plan with waits := Function.update k.seen.waits u none } t due := by
  refine h.leave (Bool.of_not_eq_false fun htaking => ?_)
  exact hk.notified.outside u htaking hu

/-- **Every event keeps a task waiting for what it has planned.** -/
theorem held_step (hk : OnTimes ts k) (htaken : k.plan.Taken) (h : k.plan.Held t due) {e : Event}
    (he : ts.Allowed k e) : (ts.step k e).plan.Held t due := by
  have hother : Ready ts k k.pxCurrentTCB → k.plan.waits t ≠ none → t ≠ k.pxCurrentTCB := by
    rintro hready hwaits rfl
    exact hwaits (hk.ready_waits hready)
  cases e with
  | tick => exact (plan_tick ts k).1 t due h
  | yield =>
      rw [TaskSet.step, plan_switchContext]
      exact h
  | suspendAll => exact h
  | resumeAll => exact held_resumeAll h htaken
  | delay n =>
      rw [TaskSet.step, TaskSet.vTaskDelay]
      split_ifs
      · exact h.block (hother he.1.ready) n false
      · exact h
  | getTickCount => exact h
  | delayUntil n =>
      rw [TaskSet.step, TaskSet.xTaskDelayUntil]
      dsimp only
      split_ifs
      · refine Plan.Held.block ?_ ?_ _ false
        · exact h
        · exact hother he.1.ready
      · exact h
  | takeBegin n =>
      have hbegin := h.begin (hother he.1.ready)
      rw [TaskSet.step, TaskSet.takeBegin]
      dsimp only
      split_ifs
      · refine Plan.Held.block ?_ ?_ n true
        · exact hbegin
        · exact hother he.1.ready
      · exact hbegin
      · exact hbegin
  | takeEnd clear =>
      rw [TaskSet.step, Kernel.takeEnd]
      dsimp only
      split_ifs <;> exact h.come
  | giveFromISR u =>
      rw [TaskSet.step, TaskSet.vTaskNotifyGiveFromISR]
      dsimp only
      split_ifs with hw
      all_goals first | exact h | exact h.given hk.kept hw
  | give u =>
      rw [TaskSet.step, TaskSet.xTaskNotifyGive]
      dsimp only
      split_ifs with hw
      · exact h.given hk.kept hw
      · exact h
  | sleep u =>
      rw [TaskSet.step, TaskSet.sleep]
      split_ifs <;> exact h

/-- The pending tasks have all been readied. -/
theorem Plan.Taken.resumeAll (h : k.plan.Taken) : (ts.xTaskResumeAll k).plan.Taken := by
  rw [TaskSet.xTaskResumeAll]
  split_ifs
  · have hnone : (ts.catchUp (ts.drainPending { k with
        uxSchedulerSuspended := k.uxSchedulerSuspended - 1 })).notes.pending = [] := by
      rw [notes_catchUp, notes_drainPending]
    intro u hu
    exact absurd ((congrArg (u ∈ ·) hnone).mp hu) List.not_mem_nil
  · exact h

/-- The current task goes into `ulTaskNotifyTake`. -/
theorem Plan.Taken.begin (h : k.plan.Taken) : Plan.Taken { k.plan with
    taking := Function.update k.seen.taking k.pxCurrentTCB true } := by
  intro u hu
  dsimp only
  by_cases hc : u = k.pxCurrentTCB
  · rw [hc, Function.update_self]
  · rw [Function.update_of_ne hc]
    exact h u hu

/-- A task that waits for a notification is given one while the scheduler is suspended. -/
theorem Plan.Taken.given (h : k.plan.Taken) (hk : Tasks.Kept ts k) {u : Nat}
    (hu : k.ucNotifyState u = .waiting) :
    Plan.Taken { k.plan with pending := k.xPendingReadyList ++ [u] } := by
  intro v hv
  rcases List.mem_append.mp hv with hv | hv
  · exact h v hv
  · obtain rfl := List.mem_singleton.mp hv
    exact Bool.of_not_eq_false fun htaking => hk.notified.outside v htaking hu

/-- **Every event keeps the pending tasks in `ulTaskNotifyTake`.** -/
theorem taken_step (hk : Kept ts k) (h : k.plan.Taken) {e : Event} (he : ts.Allowed k e) :
    (ts.step k e).plan.Taken := by
  cases e with
  | tick =>
      obtain ⟨-, htaking, hpending⟩ := plan_tick ts k
      rw [Plan.Taken, htaking, hpending]
      exact h
  | yield =>
      rw [TaskSet.step, plan_switchContext]
      exact h
  | suspendAll => exact h
  | resumeAll => exact h.resumeAll
  | delay n =>
      rw [TaskSet.step, TaskSet.vTaskDelay]
      split_ifs
      · exact h.block n false
      · exact h
  | getTickCount => exact h
  | delayUntil n =>
      rw [TaskSet.step, TaskSet.xTaskDelayUntil]
      dsimp only
      split_ifs
      · exact Plan.Taken.block (by exact h) _ false
      · exact h
  | takeBegin n =>
      rw [TaskSet.step, TaskSet.takeBegin]
      dsimp only
      split_ifs
      · exact Plan.Taken.block (by exact h.begin) n true
      · exact h.begin
      · exact h.begin
  | takeEnd clear =>
      have hresumed : k.uxSchedulerSuspended = 0 := by
        by_contra hs
        exact absurd (he.2.symm.trans (hk.notified.caller hs)) Bool.noConfusion
      have hnone : k.xPendingReadyList = [] := hk.notified.resumed hresumed
      rw [TaskSet.step, Kernel.takeEnd]
      dsimp only
      split_ifs <;> exact fun u hu => absurd (hnone ▸ hu) List.not_mem_nil
  | giveFromISR u =>
      rw [TaskSet.step, TaskSet.vTaskNotifyGiveFromISR]
      dsimp only
      split_ifs with hw
      all_goals first | exact h | exact h.given hk hw
  | give u =>
      rw [TaskSet.step, TaskSet.xTaskNotifyGive]
      dsimp only
      split_ifs <;> exact h
  | sleep u =>
      rw [TaskSet.step, TaskSet.sleep]
      split_ifs <;> exact h

/-! ### The variables of the tasks -/

/-- The variables, what is planned, and the clock. -/
structure Program where
  previous : Nat → U32
  planned : Nat → Nat
  clock : Nat

def Kernel.program (k : Kernel) : Program where
  previous := k.pxPreviousWakeTime
  planned := k.seen.planned
  clock := k.seen.clock

/-- Time goes by. -/
structure Program.After (p p' : Program) : Prop where
  previous : p'.previous = p.previous
  planned : p'.planned = p.planned
  clock : p.clock ≤ p'.clock

theorem Program.After.refl (p : Program) : p.After p := ⟨rfl, rfl, Nat.le_refl _⟩

theorem Program.After.of_eq {p p' : Program} (h : p' = p) : p.After p' := h ▸ Program.After.refl p

theorem Program.After.trans {p p' p'' : Program} (h : p.After p') (h' : p'.After p'') :
    p.After p'' :=
  ⟨h'.previous.trans h.previous, h'.planned.trans h.planned, h.clock.trans h'.clock⟩

theorem program_unblock {now : U32} : ∀ (l : List (U32 × Nat)) (k : Kernel),
    (ts.unblock now l k).1.program = k.program
  | [], _ => rfl
  | y :: rest, k => by
      have hwake : ∀ s : Seen, ∀ t,
          (s.wake t).planned = s.planned ∧ (s.wake t).clock = s.clock := by
        intro s t
        rw [Seen.wake]
        split <;> exact ⟨rfl, rfl⟩
      rw [TaskSet.unblock]
      split_ifs
      · rfl
      · obtain ⟨hplanned, hclock⟩ := hwake (ts.removeState k y.2).seen y.2
        rw [program_unblock rest]
        simp only [Kernel.program, TaskSet.prvAddTaskToReadyList, hplanned, hclock]
        rfl

variable (ts) in
theorem program_increment (k : Kernel) :
    k.program.After (ts.xTaskIncrementTick k).1.program := by
  have hadvance : k.program.After k.advance.program := by
    rw [Kernel.advance]
    split_ifs <;> exact ⟨rfl, rfl, Nat.le_succ _⟩
  rw [TaskSet.xTaskIncrementTick]
  split_ifs
  · dsimp only
    rw [TaskSet.unblockDue]
    split_ifs
    · rw [program_unblock]
      exact hadvance
    · exact hadvance
  · exact Program.After.refl k.program

theorem program_unwind : ∀ (n : Nat) (k : Kernel), k.program.After (ts.unwind n k).program
  | 0, k => Program.After.refl k.program
  | n + 1, k => by
      rw [TaskSet.unwind]
      refine Program.After.trans ?_ (program_unwind n _)
      exact program_increment ts k

variable (ts) in
theorem program_drainPending (k : Kernel) : (ts.drainPending k).program = k.program := by
  have hready : ∀ (l : List Nat) (k : Kernel), (ts.readyPending l k).program = k.program := by
    intro l
    induction l with
    | nil => exact fun _ => rfl
    | cons t rest ih => exact fun k => (ih _).trans rfl
  rw [TaskSet.drainPending]
  split_ifs <;> exact hready _ k

theorem program_block (k : Kernel) (n : U32) (indefinitely : Bool) :
    (ts.prvAddCurrentTaskToDelayedList k n indefinitely).program = k.program := by
  obtain ⟨_, _, _, _, _, _, hblock⟩ := block_frame ts k n indefinitely
  rw [hblock]
  split_ifs <;> rfl

/-- What the current task writes into its variable, and what else happens. -/
def Kernel.write (k : Kernel) : Event → Program
  | .getTickCount => { k.program with
      previous := Function.update k.pxPreviousWakeTime k.pxCurrentTCB k.xTickCount
      planned := Function.update k.seen.planned k.pxCurrentTCB k.seen.clock }
  | .delayUntil n => { k.program with
      previous := Function.update k.pxPreviousWakeTime k.pxCurrentTCB
        (k.pxPreviousWakeTime k.pxCurrentTCB + n)
      planned := Function.update k.seen.planned k.pxCurrentTCB
        (k.seen.planned k.pxCurrentTCB + n.toNat) }
  | _ => k.program

variable (ts) in
theorem program_step (k : Kernel) (e : Event) : (k.write e).After (ts.step k e).program := by
  cases e with
  | tick =>
      have hswitch : ∀ k : Kernel, k.vTaskSwitchContext.program = k.program := by
        intro k
        rw [Kernel.vTaskSwitchContext]
        split_ifs <;> rfl
      rw [TaskSet.step, TaskSet.mtimeHandler]
      have htick := program_increment ts
        { k with seen := { k.seen with ticks := k.seen.ticks + 1 } }
      split_ifs
      · rw [hswitch]
        exact htick
      · exact htick
  | yield =>
      rw [TaskSet.step, Kernel.vTaskSwitchContext]
      split_ifs <;> exact Program.After.refl k.program
  | suspendAll => exact Program.After.refl k.program
  | resumeAll =>
      rw [TaskSet.step, TaskSet.xTaskResumeAll]
      split_ifs
      · have hdrain := program_drainPending ts { k with
          uxSchedulerSuspended := k.uxSchedulerSuspended - 1 }
        refine (Program.After.of_eq hdrain).trans ?_
        rw [TaskSet.catchUp]
        split_ifs
        · exact program_unwind _ _
        · exact Program.After.refl _
      · exact Program.After.refl k.program
  | delay n =>
      rw [TaskSet.step, TaskSet.vTaskDelay]
      split_ifs
      · exact .of_eq (program_block k n false)
      · exact Program.After.refl k.program
  | getTickCount => exact Program.After.refl _
  | delayUntil n =>
      rw [TaskSet.step, TaskSet.xTaskDelayUntil]
      dsimp only
      split_ifs
      · rw [program_block]
        exact Program.After.refl _
      · exact Program.After.refl _
  | takeBegin n =>
      rw [TaskSet.step, TaskSet.takeBegin]
      dsimp only
      split_ifs
      · rw [program_block]
        exact Program.After.refl k.program
      · exact Program.After.refl k.program
      · exact Program.After.refl k.program
  | takeEnd clear =>
      rw [TaskSet.step, Kernel.takeEnd]
      dsimp only
      split_ifs <;> exact Program.After.refl k.program
  | giveFromISR u =>
      rw [TaskSet.step, TaskSet.vTaskNotifyGiveFromISR]
      dsimp only
      split_ifs <;> exact Program.After.refl k.program
  | give u =>
      rw [TaskSet.step, TaskSet.xTaskNotifyGive]
      dsimp only
      split_ifs <;> exact Program.After.refl k.program
  | sleep u =>
      rw [TaskSet.step, TaskSet.sleep]
      split_ifs
      · exact ⟨rfl, rfl, Nat.le_add_right _ _⟩
      · exact Program.After.refl k.program

/-! ### The comparison -/

/-- How far the clock is behind what is planned, without the full rounds of the count. -/
def lag (clock planned : Nat) : Nat := (clock - planned) % 2 ^ 32

/-- **The comparison.**  The planned ticks and the clock have wrapped or not, each for itself. -/
theorem shouldDelay_iff {planned clock : Nat} {previous tick n : U32}
    (hprevious : previous.toNat = planned % 2 ^ 32) (htick : tick.toNat = clock % 2 ^ 32)
    (hn : n ≠ 0#32) (hle : planned ≤ clock) :
    shouldDelay tick previous (previous + n) = true ↔ lag clock planned < n.toNat := by
  have hpos : 0 < n.toNat := Nat.pos_of_ne_zero fun h0 => hn (BitVec.eq_of_toNat_eq h0)
  have hlt := n.isLt
  have hwake : (previous + n).toNat = (previous.toNat + n.toNat) % 2 ^ 32 := BitVec.toNat_add ..
  rw [shouldDelay, lag]
  simp only [BitVec.lt_def]
  split_ifs with hwrapped
  · rw [decide_eq_true_eq]
    omega
  · rw [decide_eq_true_eq]
    omega

theorem toNat_left {planned clock : Nat} {previous tick n : U32}
    (hprevious : previous.toNat = planned % 2 ^ 32) (htick : tick.toNat = clock % 2 ^ 32)
    (hle : planned ≤ clock) (hahead : lag clock planned < n.toNat) :
    (previous + n - tick).toNat = n.toNat - lag clock planned := by
  have hlt := n.isLt
  have hwake : (previous + n).toNat = (previous.toNat + n.toNat) % 2 ^ 32 := BitVec.toNat_add ..
  rw [lag] at hahead ⊢
  rw [BitVec.toNat_sub]
  omega

/-- A task that is less than a round behind. -/
theorem lag_eq {clock planned : Nat} (hround : clock < planned + 2 ^ 32) :
    lag clock planned = clock - planned := Nat.mod_eq_of_lt (by omega)

/-! ### The runs -/

/-- The times are kept; the variable of each task is what it has planned, up to its width; and no
planned tick is ahead of the clock, but one that the task waits for. -/
structure Periodic (ts : TaskSet) (k : Kernel) : Prop where
  onTimes : OnTimes ts k
  taken : k.plan.Taken
  variable_eq : ∀ t, (k.pxPreviousWakeTime t).toNat = k.seen.planned t % 2 ^ 32
  reached : ∀ t, k.seen.planned t ≤ k.seen.clock ∨ k.plan.Held t (k.seen.planned t)

theorem Periodic.tick_eq (h : Periodic ts k) : k.xTickCount.toNat = k.seen.clock % 2 ^ 32 :=
  h.onTimes.punctual.timed.tick.symm

/-- **A task that is ready has reached what it has planned.** -/
theorem Periodic.ready_le (h : Periodic ts k) (ht : Ready ts k t) :
    k.seen.planned t ≤ k.seen.clock := by
  rcases h.reached t with hle | ⟨e, he, -, hdue⟩ | ⟨-, w, hw, -⟩
  · exact hle
  · have hends : e.wait.ends ≤ k.seen.clock := (h.onTimes.punctual.timed.onTime e he).2.2
    exact hdue ▸ Nat.le_trans (Nat.le_add_right _ _) hends
  · have hnone : k.plan.waits t = none := h.onTimes.ready_waits ht
    rw [hnone] at hw
    cases hw

theorem periodic_boot (ts : TaskSet) : Periodic ts ts.boot := by
  obtain ⟨-, -, hrest⟩ := boot_fold ts ts.uxCurrentNumberOfTasks
  have hplan : ts.boot.plan = Kernel.empty.plan := by
    rw [TaskSet.boot, hrest]
    rfl
  have hprogram : ts.boot.program = Kernel.empty.program := by
    rw [TaskSet.boot, hrest]
    rfl
  refine ⟨onTimes_boot ts, ?_, fun t => ?_, fun t => .inl ?_⟩
  · rw [hplan]
    exact fun u hu => absurd hu List.not_mem_nil
  · change (ts.boot.program.previous t).toNat = ts.boot.program.planned t % 2 ^ 32
    rw [hprogram]
    rfl
  · change ts.boot.program.planned t ≤ ts.boot.program.clock
    rw [hprogram]
    exact Nat.le_refl 0

/-- The tick for which a task waits that calls `xTaskDelayUntil`. -/
def Kernel.wakeTick (k : Kernel) (n : U32) : Nat :=
  k.seen.clock + (n.toNat - lag k.seen.clock (k.seen.planned k.pxCurrentTCB))

/-- **What a call of `xTaskDelayUntil` does.** -/
theorem Periodic.delayUntil (h : Periodic ts k) {n : U32} (he : ts.Allowed k (.delayUntil n)) :
    (lag k.seen.clock (k.seen.planned k.pxCurrentTCB) < n.toNat →
      (ts.step k (.delayUntil n)).seen.taking k.pxCurrentTCB = false ∧
        ∃ w, (ts.step k (.delayUntil n)).seen.waits k.pxCurrentTCB = some w ∧
          w.due = k.wakeTick n) ∧
      (n.toNat ≤ lag k.seen.clock (k.seen.planned k.pxCurrentTCB) →
        Ready ts (ts.step k (.delayUntil n)) k.pxCurrentTCB) := by
  obtain ⟨hcalls, -, -, hn⟩ := he
  have hle := h.ready_le hcalls.ready
  have hprevious := h.variable_eq k.pxCurrentTCB
  have hdelay := shouldDelay_iff hprevious h.tick_eq hn hle
  rw [TaskSet.step, TaskSet.xTaskDelayUntil]
  refine ⟨fun hahead => ?_, fun hreached => ?_⟩
  · rw [if_pos (hdelay.mpr hahead)]
    refine ⟨?_, ⟨k.wakeTick n, k.seen.turns, 0⟩, ?_, rfl⟩
    · refine (congrFun (congrArg Plan.taking (plan_block _ _ false)) k.pxCurrentTCB).trans ?_
      rw [if_neg fun hc => Bool.false_ne_true hc.2]
      exact hcalls.outside
    · have hleft := toNat_left hprevious h.tick_eq hle hahead
      refine (congrFun (congrArg Plan.waits (plan_block _ _ false)) k.pxCurrentTCB).trans ?_
      rw [if_neg fun hc => Bool.false_ne_true hc.2]
      dsimp only
      rw [Function.update_self, hleft, Kernel.wakeTick]
  · rw [if_neg fun hc => absurd (hdelay.mp hc) (Nat.not_lt.mpr hreached)]
    exact hcalls.ready

/-- **The tick that is waited for**: the planned one, for a task that is less than a round behind. -/
theorem Periodic.wakeTick_eq (h : Periodic ts k) (hready : Ready ts k k.pxCurrentTCB) {n : U32}
    (hround : k.seen.clock < k.seen.planned k.pxCurrentTCB + 2 ^ 32) :
    (lag k.seen.clock (k.seen.planned k.pxCurrentTCB) < n.toNat ↔
      k.seen.clock < k.seen.planned k.pxCurrentTCB + n.toNat) ∧
      (lag k.seen.clock (k.seen.planned k.pxCurrentTCB) < n.toNat →
        k.wakeTick n = k.seen.planned k.pxCurrentTCB + n.toNat) := by
  have hle := h.ready_le hready
  rw [Kernel.wakeTick, lag_eq hround]
  omega

/-- The variables after a call. -/
theorem Periodic.write_eq (h : Periodic ts k) (e : Event) (t : Nat) :
    ((k.write e).previous t).toNat = (k.write e).planned t % 2 ^ 32 := by
  cases e with
  | getTickCount =>
      rw [Kernel.write]
      dsimp only
      by_cases hc : t = k.pxCurrentTCB
      · rw [hc, Function.update_self, Function.update_self]
        exact h.tick_eq
      · rw [Function.update_of_ne hc, Function.update_of_ne hc]
        exact h.variable_eq t
  | delayUntil n =>
      rw [Kernel.write]
      dsimp only
      by_cases hc : t = k.pxCurrentTCB
      · rw [hc, Function.update_self, Function.update_self, BitVec.toNat_add,
          h.variable_eq k.pxCurrentTCB, Nat.mod_add_mod]
      · rw [Function.update_of_ne hc, Function.update_of_ne hc]
        exact h.variable_eq t
  | _ => exact h.variable_eq t

/-- What is planned after an event is reached, or waited for. -/
theorem Periodic.write_reached (h : Periodic ts k) {e : Event} (he : ts.Allowed k e) (t : Nat) :
    (k.write e).planned t ≤ (ts.step k e).seen.clock ∨
      (ts.step k e).plan.Held t ((k.write e).planned t) := by
  have hclock : k.seen.clock ≤ (ts.step k e).seen.clock := by
    have hafter := (program_step ts k e).clock
    have hwrite : (k.write e).clock = k.seen.clock := by
      cases e <;> rfl
    rw [hwrite] at hafter
    exact hafter
  have hkeep : k.seen.planned t ≤ (ts.step k e).seen.clock ∨
      (ts.step k e).plan.Held t (k.seen.planned t) :=
    (h.reached t).imp hclock.trans' fun hheld => held_step h.onTimes h.taken hheld he
  cases e with
  | getTickCount =>
      rw [Kernel.write]
      dsimp only
      by_cases hc : t = k.pxCurrentTCB
      · rw [hc, Function.update_self]
        exact .inl hclock
      · rw [Function.update_of_ne hc]
        exact hkeep
  | delayUntil n =>
      rw [Kernel.write]
      dsimp only
      by_cases hc : t = k.pxCurrentTCB
      · rw [hc, Function.update_self]
        rcases Nat.lt_or_ge k.seen.clock (k.seen.planned k.pxCurrentTCB + n.toNat) with hlt | hge
        · have hround : k.seen.clock < k.seen.planned k.pxCurrentTCB + 2 ^ 32 :=
            Nat.lt_trans hlt (Nat.add_lt_add_left n.isLt _)
          obtain ⟨hiff, hwake⟩ := h.wakeTick_eq he.1.ready (n := n) hround
          exact .inr (.inr (hwake (hiff.mpr hlt) ▸ (h.delayUntil he).1 (hiff.mpr hlt)))
        · exact .inl (Nat.le_trans hge hclock)
      · rw [Function.update_of_ne hc]
        exact hkeep
  | _ => exact hkeep

theorem Periodic.step (h : Periodic ts k) {e : Event} (he : ts.Allowed k e)
    (htime : ts.Timely k e) : Periodic ts (ts.step k e) := by
  obtain ⟨hprevious, hplanned, -⟩ := program_step ts k e
  change (ts.step k e).pxPreviousWakeTime = (k.write e).previous at hprevious
  change (ts.step k e).seen.planned = (k.write e).planned at hplanned
  refine ⟨h.onTimes.step he htime, taken_step h.onTimes.kept h.taken he, fun t => ?_, fun t => ?_⟩
  · rw [hprevious, hplanned]
    exact h.write_eq e t
  · rw [hplanned]
    exact h.write_reached he t

theorem Periodic.run {es : List Event} (h : Periodic ts k)
    (hes : Runs.Along ts.step ts.Allowed k es) (htime : Runs.Along ts.step ts.Timely k es) :
    Periodic ts (Runs.runFrom ts.step k es) :=
  (hes.and htime).invariant (fun _ _ hk he => hk.step he.1 he.2) h

theorem held_run {es : List Event} (h : Periodic ts k) (hheld : k.plan.Held t due)
    (hes : Runs.Along ts.step ts.Allowed k es) (htime : Runs.Along ts.step ts.Timely k es) :
    (Runs.runFrom ts.step k es).plan.Held t due := by
  induction es generalizing k with
  | nil => exact hheld
  | cons e es ih =>
      obtain ⟨he, hes⟩ := Runs.along_cons.mp hes
      obtain ⟨hte, htime⟩ := Runs.along_cons.mp htime
      exact ih (h.step he hte) (held_step h.onTimes h.taken hheld he) hes htime

/-- **The periods do not drift.**  After any run a ready task has reached what it has planned.  When
it calls `xTaskDelayUntil`, the next planned tick is one period behind the last, and the variable
holds it, up to its width.  Where it is behind by a period or more, without the full rounds of the
count, the task runs on.  Where it is behind by less, it waits for the rest of the period: whatever
happens then, either the task still waits and the end is not over, or it has been woken on it, or
one later if a sleep ended on that tick, and by nothing else; and the end is the tick that it waits
for unless it was missed on the last tick of a round.  For a task that is less than a round behind
this tick is the planned one. -/
theorem delayUntil_periodic (ts : TaskSet) (es more : List Event) (n : U32)
    (hes : Runs.Along ts.step ts.Allowed ts.boot (es ++ .delayUntil n :: more))
    (htime : Runs.Along ts.step ts.Timely ts.boot (es ++ .delayUntil n :: more)) :
    let k := Runs.runFrom ts.step ts.boot es
    let t := k.pxCurrentTCB
    let next := k.seen.planned t + n.toNat
    let k' := ts.step k (.delayUntil n)
    let k'' := Runs.runFrom ts.step k' more
    (∀ u, Ready ts k u → k.seen.planned u ≤ k.seen.clock) ∧
      k'.seen.planned t = next ∧ (k'.pxPreviousWakeTime t).toNat = next % 2 ^ 32 ∧
      (n.toNat ≤ lag k.seen.clock (k.seen.planned t) → Ready ts k' t) ∧
      (lag k.seen.clock (k.seen.planned t) < n.toNat →
        (∃ w, k''.seen.waits t = some w ∧ w.due = k.wakeTick n ∧ Missed k''.seen.landed w ∧
          Ahead k''.times w.ends) ∨
          ∃ e ∈ k''.seen.wakes, e.task = t ∧ e.wait.due = k.wakeTick n ∧
            Missed k''.seen.landed e.wait ∧ OnTime k''.seen.landed e) ∧
      (k.seen.clock < k.seen.planned t + 2 ^ 32 →
        (lag k.seen.clock (k.seen.planned t) < n.toNat ↔ k.seen.clock < next) ∧
          (lag k.seen.clock (k.seen.planned t) < n.toNat → k.wakeTick n = next)) := by
  intro k t next k' k''
  obtain ⟨hfirst, hrest⟩ := Runs.along_append.mp hes
  obtain ⟨htfirst, htrest⟩ := Runs.along_append.mp htime
  obtain ⟨he, hmore⟩ := Runs.along_cons.mp hrest
  obtain ⟨hte, htmore⟩ := Runs.along_cons.mp htrest
  have hk : Periodic ts k := (periodic_boot ts).run hfirst htfirst
  have hk' : Periodic ts k' := hk.step he hte
  have hk'' : Periodic ts k'' := hk'.run hmore htmore
  have hplanned : k'.seen.planned t = next := by
    have hwrite := congrFun (program_step ts k (.delayUntil n)).planned t
    exact hwrite.trans (Function.update_self ..)
  obtain ⟨hahead, hreached⟩ := hk.delayUntil he
  refine ⟨fun u hu => hk.ready_le hu, hplanned, hplanned ▸ hk'.variable_eq t, hreached,
    fun hlt => ?_, hk.wakeTick_eq he.1.ready⟩
  rcases held_run hk' (.inr (hahead hlt)) hmore htmore with ⟨e, he, htask, hdue⟩ | ⟨-, w, hw, hdue⟩
  · obtain ⟨honTime, hmissed, -⟩ := hk''.onTimes.punctual.timed.onTime e he
    exact .inr ⟨e, he, htask, hdue, hmissed, honTime⟩
  · exact .inl ⟨w, hw, hdue, hk''.onTimes.punctual.timed.put t w hw,
      hk''.onTimes.punctual.waits_ahead hw⟩

/-- The stack's task has planned a tick, and lost two on its way there. -/
theorem delayUntil_periodic_sample :
    let k'' := Runs.runFrom sampleTasks.step sampleTasks.boot
      [.tick, .getTickCount, .tick, .tick, .suspendAll, .delayUntil 5#32, .resumeAll, .yield, .tick,
        .tick, .tick]
    ∃ e ∈ k''.seen.wakes, e.task = 1 ∧ e.wait.due = 6 ∧ OnTime k''.seen.landed e := by
  intro k''
  obtain ⟨-, -, -, -, hwait, -⟩ := delayUntil_periodic sampleTasks
    [.tick, .getTickCount, .tick, .tick, .suspendAll] [.resumeAll, .yield, .tick, .tick, .tick] 5#32
    (by decide +kernel) (by decide +kernel)
  rcases hwait (by decide +kernel) with ⟨w, hw, -⟩ | ⟨e, he, htask, hdue, -, honTime⟩
  · exact absurd (hw.symm.trans (by decide +kernel)) (Option.some_ne_none w)
  · exact ⟨e, he, htask, hdue.trans (by decide +kernel), honTime⟩

end TelinkB91.Rtos.Tasks
