import TelinkB91.Rtos.Placement
import TelinkB91.Lib.Runs
import Mathlib.Tactic.Set

/-!
# Rtos — the notifications of the tasks

A task waits in `ulTaskNotifyTake` for what others give to it.  An interrupt gives at any moment,
also while the scheduler is suspended, when the task is kept in `xPendingReadyList` until the
scheduler goes on.

* `Notified`: the invariant over the notes of a kernel and the tasks that are ready.
* `block_frame`: what a task that begins to wait leaves alone.
* `notes_increment`, `ready_increment`: a tick touches no note, and no task stops to be ready.
* `notified_step`: every event keeps it.
* `notify_lossless`: nothing given is lost, and nobody sleeps on it.
-/

namespace TelinkB91.Rtos.Tasks

/-- What the notifications are made of. -/
structure Notes where
  value : Nat → U32
  state : Nat → NotifyState
  taking : Nat → Bool
  given : Nat → Nat
  taken : Nat → Nat
  pending : List Nat
  suspended : Nat
  current : Nat

def Kernel.notes (k : Kernel) : Notes where
  value := k.ulNotifiedValue
  state := k.ucNotifyState
  taking := k.seen.taking
  given := k.seen.given
  taken := k.seen.taken
  pending := k.xPendingReadyList
  suspended := k.uxSchedulerSuspended
  current := k.pxCurrentTCB

/-- The task is in the ready list of its priority. -/
def Ready (ts : TaskSet) (k : Kernel) (t : Nat) : Prop :=
  t ∈ (k.pxReadyTasksLists (ts.uxPriority t)).items

instance (ts : TaskSet) (k : Kernel) : DecidablePred (Ready ts k) := fun t =>
  inferInstanceAs (Decidable (t ∈ (k.pxReadyTasksLists (ts.uxPriority t)).items))

/-- A task that waits was given nothing; one that was given something is ready, or is about to be
when the scheduler goes on.  What was given is what was taken and what is left, up to the counts
that ran over. -/
structure Notified (ts : TaskSet) (n : Notes) (ready : Nat → Prop) : Prop where
  outside : ∀ t, n.taking t = false → n.state t ≠ .waiting
  empty : ∀ t, n.state t = .waiting → n.value t = 0#32
  awake : ∀ t, n.taking t = true → n.state t ≠ .waiting → ready t ∨ t ∈ n.pending
  pending : ∀ t ∈ n.pending, t < ts.uxCurrentNumberOfTasks ∧ n.state t ≠ .waiting
  resumed : n.suspended = 0 → n.pending = []
  caller : n.suspended ≠ 0 → n.taking n.current = false
  idle : n.taking ts.idle = false
  idle_ready : ready ts.idle
  count : ∀ t, ∃ rounds, n.given t = n.taken t + (n.value t).toNat + 2 ^ 32 * rounds

variable {ts : TaskSet} {k : Kernel}

theorem Notified.mono {n : Notes} {ready ready' : Nat → Prop} (h : Notified ts n ready)
    (hle : ∀ t, ready t → ready' t) : Notified ts n ready' :=
  { h with
    awake := fun t ht hs => (h.awake t ht hs).imp_left (hle t)
    idle_ready := hle _ h.idle_ready }

/-! ### The tasks that are ready -/

theorem ready_add (k : Kernel) (t : Nat) : Ready ts (ts.prvAddTaskToReadyList k t) t := by
  rw [Ready, TaskSet.prvAddTaskToReadyList]
  dsimp only
  rw [Function.update_self]
  exact mem_insertEnd.mpr (.inl rfl)

theorem Ready.add {u : Nat} (h : Ready ts k u) (t : Nat) :
    Ready ts (ts.prvAddTaskToReadyList k t) u := by
  rw [Ready] at h ⊢
  rw [TaskSet.prvAddTaskToReadyList]
  dsimp only
  by_cases hp : ts.uxPriority u = ts.uxPriority t
  · rw [hp, Function.update_self]
    exact mem_insertEnd.mpr (.inr (hp ▸ h))
  · rw [Function.update_of_ne hp]
    exact h

theorem Ready.removeState {u t : Nat} (h : Ready ts k u) (hne : u ≠ t) :
    Ready ts (ts.removeState k t) u := by
  rw [Ready] at h ⊢
  rw [TaskSet.removeState]
  dsimp only
  by_cases hp : ts.uxPriority u = ts.uxPriority t
  · rw [hp, Function.update_self, TaskList.uxListRemove]
    exact (List.mem_erase_of_ne hne).mpr (hp ▸ h)
  · rw [Function.update_of_ne hp]
    exact h

/-- A task that leaves its list for the ready one: nobody else is touched. -/
theorem Ready.readied {u : Nat} (h : Ready ts k u) {t : Nat} {k' : Kernel}
    (hready : k'.pxReadyTasksLists = (ts.removeState k t).pxReadyTasksLists) :
    Ready ts (ts.prvAddTaskToReadyList k' t) u := by
  by_cases hut : u = t
  · rw [hut]
    exact ready_add k' t
  · refine Ready.add ?_ t
    rw [Ready, hready]
    exact h.removeState hut

theorem Ready.reset {u : Nat} (h : Ready ts k u) (t : Nat) :
    Ready ts (ts.portResetReadyPriority k t) u := by
  rw [TaskSet.portResetReadyPriority]
  split_ifs <;> exact h

theorem Ready.insertDelayed {u : Nat} (h : Ready ts k u) (t : Nat) (v : U32) :
    Ready ts (k.insertDelayed t v) u := by
  rw [Kernel.insertDelayed]
  split_ifs <;> exact h

theorem Ready.block {u : Nat} (h : Ready ts k u) (hne : u ≠ k.pxCurrentTCB) (n : U32)
    (indefinitely : Bool) : Ready ts (ts.prvAddCurrentTaskToDelayedList k n indefinitely) u := by
  have hleft := (h.removeState hne).reset k.pxCurrentTCB
  rw [TaskSet.prvAddCurrentTaskToDelayedList]
  split_ifs
  · exact hleft
  · exact Ready.insertDelayed (by exact hleft) _ _

theorem Ready.unblock {u : Nat} {now : U32} : ∀ (l : List (U32 × Nat)) {k : Kernel},
    Ready ts k u → Ready ts (ts.unblock now l k).1 u
  | [], _, h => h
  | y :: rest, k, h => by
      rw [TaskSet.unblock]
      split_ifs
      · exact h
      · exact Ready.unblock rest (h.readied rfl)

theorem Ready.increment {u : Nat} (h : Ready ts k u) : Ready ts (ts.xTaskIncrementTick k).1 u := by
  have hadvance : Ready ts k.advance u := by
    rw [Kernel.advance]
    split_ifs <;> exact h
  rw [TaskSet.xTaskIncrementTick]
  split_ifs
  · rw [TaskSet.unblockDue]
    split_ifs
    · exact hadvance.unblock _
    · exact hadvance
  · exact h

theorem Ready.switchContext {u : Nat} (h : Ready ts k u) : Ready ts k.vTaskSwitchContext u := by
  rw [Kernel.vTaskSwitchContext]
  split_ifs
  · exact h
  · rw [Ready] at h ⊢
    dsimp only
    by_cases hp : ts.uxPriority u = Nat.log2 k.uxTopReadyPriority.toNat
    · rw [hp, Function.update_self, TaskList.listGetOwnerOfNextEntry, items_next]
      exact hp ▸ h
    · rw [Function.update_of_ne hp]
      exact h

theorem Ready.unwind {u : Nat} : ∀ (n : Nat) {k : Kernel}, Ready ts k u → Ready ts (ts.unwind n k) u
  | 0, _, h => h
  | n + 1, _, h => Ready.unwind n (by exact h.increment)

theorem Ready.readyPending {u : Nat} : ∀ (l : List Nat) {k : Kernel}, Ready ts k u ∨ u ∈ l →
    Ready ts (ts.readyPending l k) u
  | [], _, h => h.resolve_right List.not_mem_nil
  | t :: rest, k, h => by
      rw [TaskSet.readyPending]
      refine Ready.readyPending rest ?_
      rcases h with h | h
      · exact .inl (Ready.readied (k := { k with xPendingReadyList := rest }) (t := t) h rfl)
      · rcases List.mem_cons.mp h with rfl | h
        · exact .inl (ready_add _ u)
        · exact .inr h

theorem Ready.drainPending {u : Nat} (h : Ready ts k u ∨ u ∈ k.xPendingReadyList) :
    Ready ts (ts.drainPending k) u := by
  rw [TaskSet.drainPending]
  split_ifs <;> exact Ready.readyPending _ h

theorem Ready.catchUp {u : Nat} (h : Ready ts k u) : Ready ts (ts.catchUp k) u := by
  rw [TaskSet.catchUp]
  split_ifs
  · exact h.unwind _
  · exact h

theorem Ready.resumeAll {u : Nat} (h : Ready ts k u ∨ u ∈ k.xPendingReadyList)
    (hs : k.uxSchedulerSuspended = 1) : Ready ts (ts.xTaskResumeAll k) u := by
  rw [TaskSet.xTaskResumeAll]
  dsimp only
  rw [hs, if_pos (Nat.sub_self 1)]
  exact Ready.catchUp (Ready.drainPending (by exact h))

/-! ### What the functions leave alone -/

theorem reset_frame (ts : TaskSet) (k : Kernel) (t : Nat) :
    ∃ top, ts.portResetReadyPriority k t = { k with uxTopReadyPriority := top } := by
  rw [TaskSet.portResetReadyPriority]
  split_ifs
  · exact ⟨_, rfl⟩
  · exact ⟨k.uxTopReadyPriority, rfl⟩

theorem insert_frame (k : Kernel) (t : Nat) (v : U32) :
    ∃ delayed overflow next, k.insertDelayed t v = { k with
      pxDelayedTaskList := delayed
      pxOverflowDelayedTaskList := overflow
      xNextTaskUnblockTime := next } := by
  rw [Kernel.insertDelayed]
  split
  · exact ⟨k.pxDelayedTaskList, _, k.xNextTaskUnblockTime, rfl⟩
  · exact ⟨_, k.pxOverflowDelayedTaskList, _, rfl⟩

/-- The current task leaves its list, and begins to wait if there is an end to it. -/
theorem block_frame (ts : TaskSet) (k : Kernel) (n : U32) (indefinitely : Bool) :
    ∃ ready top delayed overflow suspended next,
      ts.prvAddCurrentTaskToDelayedList k n indefinitely = { k with
        pxReadyTasksLists := ready
        uxTopReadyPriority := top
        pxDelayedTaskList := delayed
        pxOverflowDelayedTaskList := overflow
        xSuspendedTaskList := suspended
        xNextTaskUnblockTime := next
        seen := if n = portMaxDelay ∧ indefinitely = true then
            (ts.removeState k k.pxCurrentTCB).seen
          else (ts.removeState k k.pxCurrentTCB).seen.wait k.pxCurrentTCB
            (k.seen.clock + n.toNat) } := by
  obtain ⟨top, hreset⟩ := reset_frame ts (ts.removeState k k.pxCurrentTCB) k.pxCurrentTCB
  rw [TaskSet.prvAddCurrentTaskToDelayedList, hreset]
  split_ifs
  · exact ⟨_, _, _, _, _, _, rfl⟩
  · obtain ⟨delayed, overflow, next, hinsert⟩ := insert_frame
      { ts.removeState k k.pxCurrentTCB with
        uxTopReadyPriority := top
        seen := (ts.removeState k k.pxCurrentTCB).seen.wait k.pxCurrentTCB
          (k.seen.clock + n.toNat) } k.pxCurrentTCB (k.xTickCount + n)
    exact ⟨_, _, _, _, _, _, hinsert⟩

/-! ### The notes -/

/-- The observations that a wait which runs out does not touch. -/
theorem wake_kept (s : Seen) (t : Nat) : (s.wake t).taking = s.taking ∧
    (s.wake t).given = s.given ∧ (s.wake t).taken = s.taken := by
  rw [Seen.wake]
  split <;> exact ⟨rfl, rfl, rfl⟩

theorem notes_unblock {now : U32} : ∀ (l : List (U32 × Nat)) (k : Kernel),
    (ts.unblock now l k).1.notes = k.notes
  | [], _ => rfl
  | y :: rest, k => by
      rw [TaskSet.unblock]
      split_ifs
      · rfl
      · obtain ⟨htaking, hgiven, htaken⟩ := wake_kept (ts.removeState k y.2).seen y.2
        rw [notes_unblock rest]
        simp only [Kernel.notes, TaskSet.prvAddTaskToReadyList, htaking, hgiven, htaken]
        rfl

/-- **A tick.** -/
theorem notes_increment (k : Kernel) : (ts.xTaskIncrementTick k).1.notes = k.notes := by
  have hadvance : k.advance.notes = k.notes := by
    rw [Kernel.advance]
    split_ifs <;> rfl
  rw [TaskSet.xTaskIncrementTick]
  split_ifs
  · rw [TaskSet.unblockDue]
    split_ifs
    · exact (notes_unblock _ _).trans hadvance
    · exact hadvance
  · rfl

theorem notes_unwind : ∀ (n : Nat) (k : Kernel), (ts.unwind n k).notes = k.notes
  | 0, _ => rfl
  | n + 1, k => (notes_unwind n _).trans (notes_increment k)

theorem notes_block (k : Kernel) (n : U32) (indefinitely : Bool) :
    (ts.prvAddCurrentTaskToDelayedList k n indefinitely).notes = k.notes := by
  obtain ⟨_, _, _, _, _, _, hblock⟩ := block_frame ts k n indefinitely
  rw [hblock]
  split_ifs <;> rfl

theorem notes_readyPending : ∀ (l : List Nat) (k : Kernel), l = k.xPendingReadyList →
    (ts.readyPending l k).notes = { k.notes with pending := [] }
  | [], k, hl => by
      rw [TaskSet.readyPending, Kernel.notes, ← hl]
  | t :: rest, k, _ => (notes_readyPending rest _ rfl).trans rfl

theorem notes_drainPending (k : Kernel) :
    (ts.drainPending k).notes = { k.notes with pending := [] } := by
  rw [TaskSet.drainPending]
  split_ifs <;> exact notes_readyPending _ _ rfl

theorem notes_catchUp (k : Kernel) : (ts.catchUp k).notes = k.notes := by
  rw [TaskSet.catchUp]
  split_ifs
  · exact notes_unwind _ k
  · rfl

/-! ### The events -/

/-- **A switch.**  While the scheduler is suspended nobody else comes to run. -/
theorem Notified.switchContext (h : Notified ts k.notes (Ready ts k)) :
    Notified ts k.vTaskSwitchContext.notes (Ready ts k.vTaskSwitchContext) := by
  refine Notified.mono ?_ fun t => Ready.switchContext
  rw [Kernel.vTaskSwitchContext]
  split_ifs with hs
  · exact h
  · exact { h with caller := fun hne => absurd hne hs }

/-- **A give.**  The task has been made ready, or is kept for later. -/
theorem Notified.give {n : Notes} {ready : Nat → Prop} (h : Notified ts n ready)
    (ready' : Nat → Prop) (more : List Nat) {t : Nat} (ht : t < ts.uxCurrentNumberOfTasks)
    (hready : ∀ u, ready u → ready' u) (hmore : ∀ u ∈ more, u = t)
    (hnone : n.suspended = 0 → more = [])
    (hawake : n.state t = .waiting → ready' t ∨ t ∈ more) :
    Notified ts { n with
      state := Function.update n.state t .received
      value := Function.update n.value t (n.value t + 1#32)
      given := Function.update n.given t (n.given t + 1)
      pending := n.pending ++ more } ready' where
  outside u hu := by
    by_cases hut : u = t
    · dsimp only
      rw [hut, Function.update_self]
      decide
    · dsimp only
      rw [Function.update_of_ne hut]
      exact h.outside u hu
  empty u hu := by
    dsimp only at hu ⊢
    by_cases hut : u = t
    · rw [hut, Function.update_self] at hu
      cases hu
    · rw [Function.update_of_ne hut] at hu ⊢
      exact h.empty u hu
  awake u hu hs := by
    dsimp only at hs ⊢
    rw [List.mem_append]
    by_cases hw : n.state u = .waiting
    · have hut : u = t := by
        by_contra hne
        rw [Function.update_of_ne hne] at hs
        exact hs hw
      subst hut
      rcases hawake hw with hr | hm
      · exact .inl hr
      · exact .inr (.inr hm)
    · rcases h.awake u hu hw with hr | hm
      · exact .inl (hready u hr)
      · exact .inr (.inl hm)
  pending u hu := by
    dsimp only at hu ⊢
    by_cases hut : u = t
    · rw [hut, Function.update_self]
      exact ⟨ht, by decide⟩
    · rw [Function.update_of_ne hut]
      rcases List.mem_append.mp hu with hu | hu
      · exact h.pending u hu
      · exact absurd (hmore u hu) hut
  resumed hs := by
    dsimp only at hs ⊢
    rw [h.resumed hs, hnone hs]
    rfl
  caller := h.caller
  idle := h.idle
  idle_ready := hready _ h.idle_ready
  count u := by
    obtain ⟨rounds, hrounds⟩ := h.count u
    dsimp only
    by_cases hut : u = t
    · subst hut
      rw [Function.update_self, Function.update_self]
      by_cases hmax : (n.value u).toNat + 1 < 2 ^ 32
      · refine ⟨rounds, ?_⟩
        rw [BitVec.toNat_add, BitVec.toNat_ofNat, Nat.mod_eq_of_lt (by decide : 1 < 2 ^ 32),
          Nat.mod_eq_of_lt hmax, hrounds]
        omega
      · have hfull : (n.value u).toNat + 1 = 2 ^ 32 := by
          have := (n.value u).isLt
          omega
        refine ⟨rounds + 1, ?_⟩
        rw [BitVec.toNat_add, BitVec.toNat_ofNat, Nat.mod_eq_of_lt (by decide : 1 < 2 ^ 32),
          hfull, Nat.mod_self, hrounds]
        omega
    · rw [Function.update_of_ne hut, Function.update_of_ne hut]
      exact ⟨rounds, hrounds⟩

/-- **The current task waits.**  It is the only one that stops to be ready. -/
theorem Notified.block {n : Notes} (h : Notified ts n (Ready ts k))
    (hcall : n.taking k.pxCurrentTCB = true → n.state k.pxCurrentTCB = .waiting)
    (hidle : k.pxCurrentTCB ≠ ts.idle) (ticks : U32) (indefinitely : Bool) :
    Notified ts n (Ready ts (ts.prvAddCurrentTaskToDelayedList k ticks indefinitely)) :=
  { h with
    awake := fun u hu hs => by
      refine (h.awake u hu hs).imp_left fun hr => hr.block (fun hc => ?_) ticks indefinitely
      subst hc
      exact hs (hcall hu)
    idle_ready := h.idle_ready.block (Ne.symm hidle) ticks indefinitely }

/-- The notes of a task that is in `ulTaskNotifyTake`. -/
def Notes.enter (n : Notes) : Notes :=
  { n with taking := Function.update n.taking n.current true }

theorem Notified.enter {n : Notes} {ready : Nat → Prop} (h : Notified ts n ready)
    (hready : ready n.current) (hs : n.suspended = 0) (hidle : n.current ≠ ts.idle) :
    Notified ts n.enter ready :=
  { h with
    outside := fun u hu => by
      rw [Notes.enter] at hu
      dsimp only at hu
      by_cases hc : u = n.current
      · rw [hc, Function.update_self] at hu
        cases hu
      · rw [Function.update_of_ne hc] at hu
        exact h.outside u hu
    awake := fun u hu hw => by
      rw [Notes.enter] at hu
      dsimp only at hu
      by_cases hc : u = n.current
      · exact .inl (hc ▸ hready)
      · rw [Function.update_of_ne hc] at hu
        exact h.awake u hu hw
    caller := fun hne => absurd hs hne
    idle := by
      rw [Notes.enter]
      dsimp only
      rw [Function.update_of_ne (Ne.symm hidle)]
      exact h.idle }

/-- The task finds nothing, and is marked. -/
theorem Notified.mark {n : Notes} {ready : Nat → Prop} (h : Notified ts n ready)
    (htaking : n.taking n.current = true) (hs : n.suspended = 0)
    (hvalue : n.value n.current = 0#32) :
    Notified ts { n with state := Function.update n.state n.current .waiting } ready :=
  { h with
    outside := fun u hu => by
      dsimp only at hu ⊢
      by_cases hc : u = n.current
      · rw [hc, htaking] at hu
        cases hu
      · rw [Function.update_of_ne hc]
        exact h.outside u hu
    empty := fun u hu => by
      dsimp only at hu
      by_cases hc : u = n.current
      · exact hc ▸ hvalue
      · rw [Function.update_of_ne hc] at hu
        exact h.empty u hu
    awake := fun u hu hw => by
      dsimp only at hw
      by_cases hc : u = n.current
      · rw [hc, Function.update_self] at hw
        exact absurd rfl hw
      · rw [Function.update_of_ne hc] at hw
        exact h.awake u hu hw
    pending := fun u hu => by
      dsimp only at hu
      rw [h.resumed hs] at hu
      exact absurd hu List.not_mem_nil }

/-- **A take begins.**  Nothing was given, or the task goes on. -/
theorem Notified.takeBegin (h : Notified ts k.notes (Ready ts k)) (hcall : ts.Calls k)
    (hs : k.uxSchedulerSuspended = 0) (hidle : k.pxCurrentTCB ≠ ts.idle) (ticks : U32) :
    Notified ts (ts.takeBegin k ticks).notes (Ready ts (ts.takeBegin k ticks)) := by
  have henter := h.enter hcall.ready hs hidle
  have htaking : k.notes.enter.taking k.pxCurrentTCB = true := Function.update_self ..
  rw [TaskSet.takeBegin]
  dsimp only
  split_ifs with hvalue hticks
  · rw [notes_block]
    refine Notified.block ?_ (fun _ => ?_) ?_ ticks true
    · exact henter.mark htaking hs hvalue
    · exact Function.update_self ..
    · exact hidle
  · exact henter.mark htaking hs hvalue
  · exact henter

/-- **A take ends.**  It takes all that was given, or one of it. -/
theorem Notified.takeEnd {n : Notes} {ready : Nat → Prop} (h : Notified ts n ready)
    (left : U32) (hleft : left ≤ n.value n.current) :
    Notified ts { n with
      value := Function.update n.value n.current left
      taken := Function.update n.taken n.current
        (n.taken n.current + (n.value n.current - left).toNat)
      state := Function.update n.state n.current .notWaiting
      taking := Function.update n.taking n.current false } ready where
  outside u hu := by
    dsimp only at hu ⊢
    by_cases hc : u = n.current
    · rw [hc, Function.update_self]
      decide
    · rw [Function.update_of_ne hc] at hu ⊢
      exact h.outside u hu
  empty u hu := by
    dsimp only at hu ⊢
    by_cases hc : u = n.current
    · rw [hc, Function.update_self] at hu
      cases hu
    · rw [Function.update_of_ne hc] at hu ⊢
      exact h.empty u hu
  awake u hu hw := by
    dsimp only at hu hw ⊢
    by_cases hc : u = n.current
    · rw [hc, Function.update_self] at hu
      cases hu
    · rw [Function.update_of_ne hc] at hu hw
      exact h.awake u hu hw
  pending u hu := by
    obtain ⟨hlt, hne⟩ := h.pending u hu
    refine ⟨hlt, ?_⟩
    dsimp only
    by_cases hc : u = n.current
    · rw [hc, Function.update_self]
      decide
    · rw [Function.update_of_ne hc]
      exact hne
  resumed := h.resumed
  caller _ := Function.update_self ..
  idle := by
    dsimp only
    by_cases hc : ts.idle = n.current
    · rw [hc, Function.update_self]
    · rw [Function.update_of_ne hc]
      exact h.idle
  idle_ready := h.idle_ready
  count u := by
    obtain ⟨rounds, hrounds⟩ := h.count u
    refine ⟨rounds, ?_⟩
    dsimp only
    by_cases hc : u = n.current
    · subst hc
      have hle : left.toNat ≤ (n.value n.current).toNat := hleft
      rw [Function.update_self, Function.update_self, BitVec.toNat_sub_of_le hleft, hrounds]
      omega
    · rw [Function.update_of_ne hc, Function.update_of_ne hc]
      exact hrounds

/-- **The scheduler goes on.**  Who was kept is ready now. -/
theorem Notified.resumeAll (h : Notified ts k.notes (Ready ts k)) :
    Notified ts (ts.xTaskResumeAll k).notes (Ready ts (ts.xTaskResumeAll k)) := by
  rw [TaskSet.xTaskResumeAll]
  dsimp only
  by_cases hs : k.uxSchedulerSuspended - 1 = 0
  · rw [if_pos hs]
    rw [notes_catchUp, notes_drainPending]
    exact {
      h with
      awake := fun u hu hw => .inl (Ready.catchUp (Ready.drainPending (h.awake u hu hw)))
      pending := fun u hu => absurd hu List.not_mem_nil
      resumed := fun _ => rfl
      caller := fun hne => absurd hs hne
      idle_ready := Ready.catchUp (Ready.drainPending (.inl h.idle_ready)) }
  · rw [if_neg hs]
    have hne : k.notes.suspended ≠ 0 := fun h0 => hs (by
      have h0' : k.uxSchedulerSuspended = 0 := h0
      rw [h0'])
    exact { h with
      resumed := fun h0 => absurd h0 hs
      caller := fun _ => h.caller hne }

/-- **Every event.** -/
theorem notified_step (h : Notified ts k.notes (Ready ts k)) {e : Event} (he : ts.Allowed k e) :
    Notified ts (ts.step k e).notes (Ready ts (ts.step k e)) := by
  cases e with
  | tick =>
      rw [TaskSet.step, TaskSet.mtimeHandler]
      set k₁ : Kernel := { k with seen := { k.seen with ticks := k.seen.ticks + 1 } }
      have htick : Notified ts (ts.xTaskIncrementTick k₁).1.notes
          (Ready ts (ts.xTaskIncrementTick k₁).1) := by
        rw [notes_increment]
        exact Notified.mono (by exact h) fun u => Ready.increment
      split_ifs
      · exact htick.switchContext
      · exact htick
  | yield => exact h.switchContext
  | suspendAll =>
      exact { h with
        resumed := fun h0 => absurd h0 (Nat.succ_ne_zero _)
        caller := fun _ => he.outside }
  | resumeAll => exact h.resumeAll
  | delay n =>
      rw [TaskSet.step, TaskSet.vTaskDelay]
      split_ifs
      · rw [notes_block]
        exact h.block (fun hc => absurd (he.1.outside.symm.trans hc) Bool.false_ne_true) he.2.2 n
          false
      · exact h
  | getTickCount => exact h
  | delayUntil n =>
      rw [TaskSet.step, TaskSet.xTaskDelayUntil]
      dsimp only
      split_ifs
      · rw [notes_block]
        refine Notified.block ?_ (fun hc => ?_) ?_ _ false
        · exact h
        · exact absurd (he.1.outside.symm.trans hc) Bool.false_ne_true
        · exact he.2.2.1
      · exact h
  | takeBegin n => exact h.takeBegin he.1 he.2.1 he.2.2 n
  | takeEnd clear =>
      rw [TaskSet.step, Kernel.takeEnd]
      by_cases hvalue : k.ulNotifiedValue k.pxCurrentTCB = 0#32
      · have hend := h.takeEnd (k.ulNotifiedValue k.pxCurrentTCB) (Nat.le_refl _)
        simp only [Kernel.notes, BitVec.sub_self, BitVec.toNat_zero, Nat.add_zero,
          Function.update_eq_self] at hend
        simp only [hvalue, ne_eq, not_true_eq_false, if_false]
        exact hend
      · simp only [ne_eq, hvalue, not_false_eq_true, if_true]
        refine h.takeEnd _ ?_
        have hpos : 0 < (k.ulNotifiedValue k.pxCurrentTCB).toNat :=
          Nat.pos_of_ne_zero fun h0 => hvalue (BitVec.eq_of_toNat_eq h0)
        split_ifs
        · exact Nat.zero_le _
        · rw [BitVec.le_def, BitVec.toNat_sub_of_le (by exact hpos)]
          exact Nat.sub_le _ _
  | giveFromISR t =>
      rw [TaskSet.step, TaskSet.vTaskNotifyGiveFromISR]
      by_cases hs : (k.give t).uxSchedulerSuspended = 0
      · have hgive := fun (ready : Nat → Prop) hr ha => h.give ready [] he hr
          (fun u hu => absurd hu List.not_mem_nil) (fun _ => rfl) ha
        simp only [List.append_nil] at hgive
        dsimp only
        simp only [if_pos hs]
        split_ifs with hw
        · exact hgive _ (fun u hu => Ready.readied (k := k.give t) hu rfl)
            fun _ => .inl (ready_add _ t)
        · exact hgive _ (fun u hu => Ready.readied (k := k.give t) hu rfl)
            fun _ => .inl (ready_add _ t)
        · exact hgive _ (fun u hu => hu) fun hw' => absurd hw' hw
      · dsimp only
        simp only [if_neg hs]
        have hkeep := h.give (Ready ts k) [t] he (fun u hu => hu)
          (fun u => List.mem_singleton.mp) (fun h0 => absurd h0 hs)
          fun _ => .inr (List.mem_singleton_self t)
        split_ifs with hw
        · exact hkeep
        · exact hkeep
        · have hgive := h.give (Ready ts k) [] he (fun u hu => hu)
            (fun u hu => absurd hu List.not_mem_nil) (fun _ => rfl) fun hw' => absurd hw' hw
          simp only [List.append_nil] at hgive
          exact hgive
  | give t =>
      have hgive := fun (ready : Nat → Prop) hr ha => h.give ready [] he hr
        (fun u hu => absurd hu List.not_mem_nil) (fun _ => rfl) ha
      simp only [List.append_nil] at hgive
      rw [TaskSet.step, TaskSet.xTaskNotifyGive]
      dsimp only
      split_ifs with hw
      · exact hgive _ (fun u hu => Ready.readied (k := k.give t) hu rfl)
          fun _ => .inl (ready_add _ t)
      · exact hgive _ (fun u hu => hu) fun hw' => absurd hw' hw
  | sleep t =>
      rw [TaskSet.step, TaskSet.sleep]
      split_ifs <;> exact h

/-! ### The runs -/

/-- The tasks are placed, and notified. -/
structure Kept (ts : TaskSet) (k : Kernel) : Prop where
  placed : Placed ts none k.lists
  notified : Notified ts k.notes (Ready ts k)

theorem kept_boot (ts : TaskSet) : Kept ts ts.boot := by
  obtain ⟨hready, -, hrest⟩ := boot_fold ts ts.uxCurrentNumberOfTasks
  refine ⟨placed_boot ts, ?_⟩
  have hidle : Ready ts ts.boot ts.idle := by
    rw [Ready, TaskSet.boot, hready, List.mem_filter, List.mem_range, decide_eq_true_eq]
    exact ⟨ts.idle_lt, rfl⟩
  have hnotes : ts.boot.notes = { Kernel.empty.notes with current := ts.boot.pxCurrentTCB } := by
    rw [TaskSet.boot, hrest]
    rfl
  rw [hnotes]
  exact {
    outside := fun _ _ hw => by cases hw
    empty := fun _ _ => rfl
    awake := fun _ ht => absurd ht Bool.false_ne_true
    pending := fun _ ht => absurd ht List.not_mem_nil
    resumed := fun _ => rfl
    caller := fun _ => rfl
    idle := rfl
    idle_ready := hidle
    count := fun _ => ⟨0, rfl⟩ }

theorem Kept.step (h : Kept ts k) {e : Event} (he : ts.Allowed k e) : Kept ts (ts.step k e) :=
  ⟨placed_step h.placed (fun t ht => (h.notified.pending t ht).1) he, notified_step h.notified he⟩

theorem Kept.run {es : List Event} (h : Kept ts k) (hes : Runs.Along ts.step ts.Allowed k es) :
    Kept ts (Runs.runFrom ts.step k es) :=
  hes.invariant (fun _ _ hk he => hk.step he) h

/-- **Nothing given is lost.**  After any run, what was given to a task is what it has taken and
what is left of it, up to full rounds of the count: exactly, as long as less than a round is left.
A task that is in `ulTaskNotifyTake` and was given something is ready to run; only while the
scheduler is suspended it may be pending, and whatever happens until then, once the scheduler goes
on it is ready. -/
theorem notify_lossless (ts : TaskSet) (es : List Event)
    (hes : Runs.Along ts.step ts.Allowed ts.boot es) (t : Nat) :
    let k := Runs.runFrom ts.step ts.boot es
    (∃ rounds, k.seen.given t = k.seen.taken t + (k.ulNotifiedValue t).toNat + 2 ^ 32 * rounds) ∧
      (k.seen.given t < k.seen.taken t + 2 ^ 32 →
        k.seen.given t = k.seen.taken t + (k.ulNotifiedValue t).toNat) ∧
      (k.seen.taking t = true → k.ulNotifiedValue t ≠ 0#32 →
        (k.uxSchedulerSuspended = 0 → Ready ts k t) ∧
          (Ready ts k t ∨ t ∈ k.xPendingReadyList) ∧
          (k.uxSchedulerSuspended = 1 → Ready ts (ts.step k .resumeAll) t)) := by
  intro k
  have hk : Kept ts k := (kept_boot ts).run hes
  obtain ⟨rounds, hrounds⟩ := hk.notified.count t
  refine ⟨⟨rounds, hrounds⟩, fun hlt => ?_, fun htaking hvalue => ?_⟩
  · have hzero : rounds = 0 := by
      have hrounds' : k.seen.given t =
        k.seen.taken t + (k.ulNotifiedValue t).toNat + 2 ^ 32 * rounds := hrounds
      omega
    rw [hzero] at hrounds
    exact hrounds
  · have hawake : Ready ts k t ∨ t ∈ k.xPendingReadyList :=
      hk.notified.awake t htaking fun hw => hvalue (hk.notified.empty t hw)
    refine ⟨fun hs => hawake.resolve_right fun hm => ?_, hawake, fun hs => ?_⟩
    · have hnone : k.xPendingReadyList = [] := hk.notified.resumed hs
      rw [hnone] at hm
      exact List.not_mem_nil hm
    · exact Ready.resumeAll hawake hs

/-- The stack's task waits, the LED's task is about to wait, and the interrupt gives once. -/
theorem notify_lossless_sample :
    let k := Runs.runFrom sampleTasks.step sampleTasks.boot
      [.takeBegin portMaxDelay, .yield, .suspendAll, .giveFromISR 1, .delay 100#32]
    k.pxCurrentTCB = 0 ∧ k.xPendingReadyList = [1] ∧
      Ready sampleTasks (sampleTasks.step k .resumeAll) 1 := by
  intro k
  obtain ⟨-, -, hready⟩ := notify_lossless sampleTasks
    [.takeBegin portMaxDelay, .yield, .suspendAll, .giveFromISR 1, .delay 100#32]
    (by decide +kernel) 1
  exact ⟨by decide +kernel, by decide +kernel,
    (hready (by decide +kernel) (by decide +kernel)).2.2 (by decide +kernel)⟩

end TelinkB91.Rtos.Tasks
