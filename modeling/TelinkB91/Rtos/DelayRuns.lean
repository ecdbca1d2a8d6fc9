import TelinkB91.Rtos.Delays

/-!
# Rtos — the runs of the delays

What the functions of the scheduler do to the times, and what holds after every run.  A tick that
comes while the scheduler is suspended is counted, and made up for when it goes on; the ticks of a
sleep are stepped over at once.

* `Punctual.increment`, `Punctual.resumeAll`, `Punctual.block`, `Punctual.sleep`: the functions.
* `stepTick_timely`: which sleeps are not too long.
* `punctual_step`, `counted_step`: every event keeps the times, and the count of the ticks.
* `missed_tick`: who is due when a sleep ends on the last tick of a round.
* `delays_on_time`: every wait runs out at its tick, and in order, unless it is missed.
-/

namespace TelinkB91.Rtos.Tasks

variable {ts : TaskSet} {k : Kernel} {m : Times}

/-! ### The functions -/

theorem times_advance (k : Kernel) : k.advance.times = k.times.advance := by
  rw [Kernel.advance, Times.advance]
  dsimp only
  by_cases hzero : k.xTickCount + 1#32 = 0#32
  · have hzero' : k.times.tick + 1#32 = 0#32 := hzero
    rw [if_pos hzero, if_pos hzero']
    rfl
  · have hzero' : ¬k.times.tick + 1#32 = 0#32 := hzero
    rw [if_neg hzero, if_neg hzero']
    rfl

/-- **A tick.**  One that comes while the scheduler is suspended changes nothing but its count. -/
theorem Punctual.increment (h : Punctual k.times) :
    Punctual (ts.xTaskIncrementTick k).1.times := by
  rw [TaskSet.xTaskIncrementTick]
  split_ifs
  · have hdue : Timed (Due k.advance.times) k.advance.times := by
      rw [times_advance]
      exact h.advance
    dsimp only
    rw [TaskSet.unblockDue]
    by_cases hnext : k.advance.xNextTaskUnblockTime ≤ k.advance.xTickCount
    · rw [if_pos hnext]
      exact timed_unblock _ rfl hdue
    · rw [if_neg hnext]
      have hlt : k.advance.times.tick.toNat < k.advance.times.next.toNat := Nat.lt_of_not_le hnext
      refine ⟨hdue.of_imp fun y hy w hw hwends _ => .inl ?_, Nat.le_of_lt hlt⟩
      have hle : k.advance.times.next.toNat ≤ y.1.toNat := (hdue.delayed y hy).1
      change k.advance.times.clock < w.ends
      omega
  · exact h

theorem Punctual.unwind : ∀ (n : Nat) {k : Kernel}, Punctual k.times →
    Punctual (ts.unwind n k).times
  | 0, _, h => h
  | n + 1, k, h => by
      rw [TaskSet.unwind]
      refine Punctual.unwind n ?_
      exact h.increment

theorem Punctual.readyPending : ∀ (l : List Nat) {k : Kernel}, Punctual k.times →
    Punctual (ts.readyPending l k).times
  | [], _, h => h
  | t :: rest, k, h => by
      rw [TaskSet.readyPending]
      refine Punctual.readyPending rest ?_
      exact h.drop t

theorem Punctual.resetKernel (h : Punctual k.times) :
    Punctual k.prvResetNextTaskUnblockTime.times := h.reset

theorem Punctual.resumeAll (h : Punctual k.times) : Punctual (ts.xTaskResumeAll k).times := by
  rw [TaskSet.xTaskResumeAll]
  split_ifs
  · have hdrain : Punctual (ts.drainPending { k with
        uxSchedulerSuspended := k.uxSchedulerSuspended - 1 }).times := by
      rw [TaskSet.drainPending]
      split_ifs
      · exact Punctual.readyPending _ (by exact h)
      · exact (Punctual.readyPending _ (by exact h)).resetKernel
    rw [TaskSet.catchUp]
    split_ifs
    · exact hdrain.unwind _
    · exact hdrain
  · exact h

theorem eraseP_none {l : List (U32 × Nat)} {t : Nat} (ht : t ∉ l.map Prod.snd) :
    l.eraseP (·.2 = t) = l := by
  refine List.eraseP_of_forall_not fun y hy => ?_
  rw [decide_eq_true_eq]
  rintro rfl
  exact ht (List.mem_map_of_mem hy)

/-- The times when the current task, which is ready, waits. -/
theorem times_block (hdelayed : k.pxCurrentTCB ∉ k.times.delayed.map Prod.snd)
    (hover : k.pxCurrentTCB ∉ k.times.overflow.map Prod.snd) (n : U32) (indefinitely : Bool) :
    (ts.prvAddCurrentTaskToDelayedList k n indefinitely).times =
      if n = portMaxDelay ∧ indefinitely = true then k.times
      else k.times.hold k.pxCurrentTCB (k.times.tick + n) (k.times.clock + n.toNat) := by
  have hleave : (ts.portResetReadyPriority (ts.removeState k k.pxCurrentTCB)
      k.pxCurrentTCB).times = k.times := by
    have hremove : (ts.removeState k k.pxCurrentTCB).times = k.times := by
      rw [Kernel.times, TaskSet.removeState]
      dsimp only
      rw [eraseP_none (by exact hdelayed), eraseP_none (by exact hover)]
      rfl
    rw [TaskSet.portResetReadyPriority]
    split_ifs <;> exact hremove
  have hinsert : ∀ (k : Kernel) (t : Nat) (v : U32) (due : Nat),
      (Kernel.insertDelayed { k with seen := k.seen.wait t due } t v).times =
        k.times.hold t v due := by
    intro k t v due
    rw [Kernel.insertDelayed, Times.hold]
    by_cases hv : v < k.xTickCount
    · have hv' : v < k.times.tick := hv
      dsimp only
      rw [if_pos hv, if_pos hv']
      rfl
    · have hv' : ¬v < k.times.tick := hv
      dsimp only
      rw [if_neg hv, if_neg hv']
      rfl
  rw [TaskSet.prvAddCurrentTaskToDelayedList]
  split_ifs
  · exact hleave
  · rw [hinsert, ← hleave]
    rfl

theorem Punctual.block (h : Punctual k.times) (hp : Placed ts none k.lists)
    (hrun : Ready ts k k.pxCurrentTCB) {n : U32} (hn : n ≠ 0#32) (indefinitely : Bool) :
    Punctual (ts.prvAddCurrentTaskToDelayedList k n indefinitely).times := by
  obtain ⟨hdelayed, hover, -⟩ := hp.ready_only hrun
  rw [times_block hdelayed hover]
  split_ifs
  · exact h
  · exact h.hold hdelayed hover hn

/-- The times after `j` ticks that are stepped over. -/
def Times.land (m : Times) (j : U32) : Times := { m with
  tick := m.tick + j
  clock := m.clock + j.toNat
  landed := m.landed ++ [m.clock + j.toNat] }

theorem Missed.land {landed : List Nat} {w : Wait} (h : Missed landed w) (more : List Nat) :
    Missed (landed ++ more) w :=
  fun i hi => ⟨List.mem_append_left more (h i hi).1, (h i hi).2⟩

theorem Punctual.land (h : Punctual m) {j : U32} (hj : m.tick.toNat + j.toNat ≤ m.next.toNat) :
    Punctual (m.land j) := by
  have hlt := m.next.isLt
  have htick : (m.tick + j).toNat = m.tick.toNat + j.toNat := by
    rw [BitVec.toNat_add]
    omega
  have hbase := h.timed.tick
  refine ⟨?_, BitVec.le_def.mpr (htick.trans_le hj)⟩
  exact {
    h.timed with
    tick := by
      change (m.clock + j.toNat) % 2 ^ 32 = (m.tick + j).toNat
      omega
    delayed := fun y hy => by
      obtain ⟨hnext, w, hw, hends, -⟩ := h.timed.delayed y hy
      have hle : m.next.toNat ≤ y.1.toNat := hnext
      refine ⟨hnext, w, hw, ?_, ?_⟩
      · change w.ends + (m.tick + j).toNat = m.clock + j.toNat + y.1.toNat
        omega
      · rcases Nat.lt_or_ge (m.clock + j.toNat) w.ends with hahead | hnow
        · exact .inl hahead
        · have heq : w.ends = m.clock + j.toNat := by omega
          exact .inr ⟨heq, List.mem_append.mpr (.inr (List.mem_singleton.mpr heq))⟩
    overflow := fun y hy => by
      obtain ⟨w, hw, hends⟩ := h.timed.overflow y hy
      refine ⟨w, hw, ?_⟩
      change w.ends + (m.tick + j).toNat = m.clock + j.toNat + y.1.toNat + 2 ^ 32
      omega
    put := fun t w hw => (h.timed.put t w hw).land _
    onTime := fun e he => by
      obtain ⟨honTime, hput, hle⟩ := h.timed.onTime e he
      refine ⟨honTime.imp_right fun hlate => ⟨hlate.1, ?_, hlate.2.2⟩, hput.land _,
        Nat.le_add_right_of_le hle⟩
      exact List.mem_append_left _ hlate.2.1 }

/-- The ticks of a sleep, against the ticks up to the next wake-up. -/
theorem stepTick_iff (h : k.xTickCount ≤ k.xNextTaskUnblockTime) {t : U32}
    (hidle : configExpectedIdleTimeBeforeSleep ≤ ts.prvGetExpectedIdleTime k) :
    k.xTickCount.toNat + (systimerTickToOsTick t).toNat ≤ k.xNextTaskUnblockTime.toNat ↔
      (t.toNat + 16000) % 2 ^ 32 < 32000 * (ts.prvGetExpectedIdleTime k).toNat + 32000 := by
  have hexpected : ts.prvGetExpectedIdleTime k = k.xNextTaskUnblockTime - k.xTickCount := by
    rw [TaskSet.prvGetExpectedIdleTime] at hidle ⊢
    split_ifs at hidle ⊢
    all_goals first | rfl | exact absurd hidle (by decide)
  have hsub : (ts.prvGetExpectedIdleTime k).toNat =
      k.xNextTaskUnblockTime.toNat - k.xTickCount.toNat := by
    rw [hexpected]
    exact BitVec.toNat_sub_of_le h
  have hticks : (systimerTickToOsTick t).toNat = (t.toNat + 16000) % 2 ^ 32 / 32000 := by
    rw [systimerTickToOsTick, BitVec.toNat_udiv, BitVec.toNat_add]
    rfl
  have hle : k.xTickCount.toNat ≤ k.xNextTaskUnblockTime.toNat := h
  rw [hticks, hsub]
  omega

/-- A sleep passes the next wake-up just when it ends half a tick after it or later. -/
theorem stepTick_timely (h : k.xTickCount ≤ k.xNextTaskUnblockTime) {t : U32}
    (hidle : configExpectedIdleTimeBeforeSleep ≤ ts.prvGetExpectedIdleTime k)
    (ht : t.toNat + systickToOstick.toNat / 2 < 2 ^ 32) :
    k.xTickCount.toNat + (systimerTickToOsTick t).toNat ≤ k.xNextTaskUnblockTime.toNat ↔
      ts.Timely k (.sleep t) := by
  have hshort : t.toNat + 16000 < 2 ^ 32 := ht
  have hlimit : ts.Timely k (.sleep t) ↔
      t.toNat < 32000 * (ts.prvGetExpectedIdleTime k).toNat + 16000 :=
    ⟨fun htime => htime hidle, fun hlt _ => hlt⟩
  rw [stepTick_iff h hidle, Nat.mod_eq_of_lt hshort, hlimit]
  omega

/-- **The sleep.**  It ends less than half a tick after the time at which the next task wakes, so
`vTaskStepTick` does not pass it. -/
theorem stepTick_le (h : k.xTickCount ≤ k.xNextTaskUnblockTime) {t : U32}
    (htime : ts.Timely k (.sleep t))
    (hidle : configExpectedIdleTimeBeforeSleep ≤ ts.prvGetExpectedIdleTime k) :
    k.xTickCount.toNat + (systimerTickToOsTick t).toNat ≤ k.xNextTaskUnblockTime.toNat := by
  have hlimit : t.toNat < 32000 * (ts.prvGetExpectedIdleTime k).toNat + 16000 :=
    htime hidle
  refine (stepTick_iff h hidle).mpr ?_
  have hmod := Nat.mod_le (t.toNat + 16000) (2 ^ 32)
  omega

theorem Punctual.sleep (h : Punctual k.times) {t : U32} (htime : ts.Timely k (.sleep t)) :
    Punctual (ts.sleep k t).times := by
  rw [TaskSet.sleep]
  split_ifs with hidle
  · exact h.land (stepTick_le h.next htime hidle)
  · exact h

theorem Punctual.switchContext (h : Punctual k.times) : Punctual k.vTaskSwitchContext.times := by
  rw [Kernel.vTaskSwitchContext]
  split_ifs <;> exact h

/-! ### The events -/

/-- A plan that is ahead of the clock. -/
theorem shouldDelay_ne {tick previous n : U32}
    (h : shouldDelay tick previous (previous + n) = true) : previous + n - tick ≠ 0#32 := by
  intro hzero
  have heq : previous + n = tick := by
    have hadd := BitVec.sub_add_cancel (previous + n) tick
    rw [hzero, BitVec.zero_add] at hadd
    exact hadd.symm
  rw [shouldDelay, heq] at h
  split_ifs at h with hlt
  · simp at h
  · simp at h
    exact hlt h

/-- **Every event keeps the times.** -/
theorem punctual_step (hk : Kept ts k) (h : Punctual k.times) {e : Event} (he : ts.Allowed k e)
    (htime : ts.Timely k e) : Punctual (ts.step k e).times := by
  cases e with
  | tick =>
      rw [TaskSet.step, TaskSet.mtimeHandler]
      have htick : Punctual (ts.xTaskIncrementTick { k with
          seen := { k.seen with ticks := k.seen.ticks + 1 } }).1.times :=
        Punctual.increment (by exact h)
      split_ifs
      · exact htick.switchContext
      · exact htick
  | yield => exact h.switchContext
  | suspendAll => exact h
  | resumeAll => exact h.resumeAll
  | delay n =>
      rw [TaskSet.step, TaskSet.vTaskDelay]
      split_ifs with hpos
      · refine h.block hk.placed he.1.ready ?_ false
        rintro rfl
        exact absurd hpos (by decide)
      · exact h
  | getTickCount => exact h
  | delayUntil n =>
      rw [TaskSet.step, TaskSet.xTaskDelayUntil]
      dsimp only
      split_ifs with hdelay
      · refine Punctual.block ?_ ?_ ?_ (shouldDelay_ne hdelay) false
        · exact h
        · exact hk.placed
        · exact he.1.ready
      · exact h
  | takeBegin n =>
      rw [TaskSet.step, TaskSet.takeBegin]
      dsimp only
      split_ifs with hvalue hpos
      · refine Punctual.block ?_ ?_ ?_ ?_ true
        · exact h
        · exact hk.placed
        · exact he.1.ready
        · rintro rfl
          exact absurd hpos (by decide)
      · exact h
      · exact h
  | takeEnd clear =>
      rw [TaskSet.step, Kernel.takeEnd]
      dsimp only
      split_ifs <;> exact h
  | giveFromISR t =>
      have hready : Punctual (ts.prvAddTaskToReadyList { ts.removeState (k.give t) t with
          seen := (ts.removeState (k.give t) t).seen.leave t } t).times := h.drop t
      rw [TaskSet.step, TaskSet.vTaskNotifyGiveFromISR]
      dsimp only
      split_ifs
      all_goals first | exact hready | exact h
  | give t =>
      rw [TaskSet.step, TaskSet.xTaskNotifyGive]
      dsimp only
      split_ifs
      · exact Punctual.resetKernel (by exact h.drop t)
      · exact h
  | sleep t => exact h.sleep htime

/-- A wait that has not run out is not due yet. -/
theorem Punctual.waits_ahead (h : Punctual m) {t : Nat} {w : Wait} (hw : m.waits t = some w) :
    Ahead m w.ends := by
  rcases h.timed.waiting t w hw with ht | ht
  · obtain ⟨y, hy, rfl⟩ := List.mem_map.mp ht
    obtain ⟨-, w', hw', -, hahead⟩ := h.timed.delayed y hy
    obtain rfl := Option.some.inj (hw'.symm.trans hw)
    exact hahead
  · obtain ⟨y, hy, rfl⟩ := List.mem_map.mp ht
    obtain ⟨w', hw', hends⟩ := h.timed.overflow y hy
    obtain rfl := Option.some.inj (hw'.symm.trans hw)
    have hlt := m.tick.isLt
    exact .inl (by omega)

/-! ### The end of a round -/

theorem waits_unblock {now : U32} {t : Nat} : ∀ (l : List (U32 × Nat)) (k : Kernel),
    t ∉ l.map Prod.snd → (ts.unblock now l k).1.seen.waits t = k.seen.waits t
  | [], _, _ => rfl
  | y :: rest, k, ht => by
      rw [List.map_cons, List.mem_cons, not_or] at ht
      have hwake : ∀ s : Seen, (s.wake y.2).waits t = s.waits t := by
        intro s
        rw [Seen.wake]
        split
        · exact Function.update_of_ne ht.1 ..
        · rfl
      rw [TaskSet.unblock]
      split_ifs
      · rfl
      · exact (waits_unblock rest _ ht.2).trans (hwake _)

/-- **The tick that misses a task.**  Where a sleep has ended on the last tick of a round and a task
is due then, the lists are switched before the task is woken: it waits for two rounds more. -/
theorem missed_tick (h : Punctual k.times) (hs : k.uxSchedulerSuspended = 0)
    (hmax : k.xTickCount = portMaxDelay) {t : Nat} {w : Wait} (hw : k.seen.waits t = some w)
    (hends : w.ends = k.seen.clock) : (ts.step k .tick).seen.waits t = some w.miss := by
  have hfull : k.times.tick.toNat + 1 = 2 ^ 32 :=
    congrArg (fun x : U32 => x.toNat + 1) hmax
  have hmem : t ∈ k.times.delayed.map Prod.snd := by
    refine (h.timed.waiting t w hw).resolve_right fun hover => ?_
    obtain ⟨y, hy, rfl⟩ := List.mem_map.mp hover
    obtain ⟨w', hw', hlater⟩ := h.timed.overflow y hy
    obtain rfl := Option.some.inj (hw'.symm.trans hw)
    have hclock : k.times.clock = k.seen.clock := rfl
    omega
  have hnot : t ∉ k.pxOverflowDelayedTaskList.map Prod.snd :=
    fun hover => h.timed.disjoint hover hmem
  set k₁ : Kernel := { k with seen := { k.seen with ticks := k.seen.ticks + 1 } }
  have hadvance : k₁.advance.seen.waits t = some w.miss ∧
      k₁.advance.pxDelayedTaskList = k.pxOverflowDelayedTaskList := by
    have hzero : k₁.xTickCount + 1#32 = 0#32 := by
      change k.xTickCount + 1#32 = 0#32
      rw [hmax]
      rfl
    rw [Kernel.advance]
    dsimp only
    rw [if_pos hzero]
    exact ⟨missed_some.mpr ⟨w, hw, (if_pos hmem).symm⟩, rfl⟩
  have htick : (ts.xTaskIncrementTick k₁).1.seen.waits t = some w.miss := by
    have hs₁ : k₁.uxSchedulerSuspended = 0 := hs
    rw [TaskSet.xTaskIncrementTick, if_pos hs₁, TaskSet.unblockDue]
    split_ifs
    · rw [hadvance.2]
      exact (waits_unblock _ _ hnot).trans hadvance.1
    · exact hadvance.1
  have hswitch : ∀ k : Kernel, k.vTaskSwitchContext.seen.waits = k.seen.waits := by
    intro k
    rw [Kernel.vTaskSwitchContext]
    split_ifs <;> rfl
  rw [TaskSet.step, TaskSet.mtimeHandler]
  split_ifs
  · rw [hswitch]
    exact htick
  · exact htick

/-! ### The ticks that are pending -/

/-- What the ticks are made of. -/
structure Counts where
  ticks : Nat
  clock : Nat
  pended : U32
  suspended : Nat

def Kernel.counts (k : Kernel) : Counts where
  ticks := k.seen.ticks
  clock := k.seen.clock
  pended := k.xPendedTicks
  suspended := k.uxSchedulerSuspended

/-- Every tick has been counted, or is pending while the scheduler is suspended. -/
structure Counted (c : Counts) : Prop where
  ticks : c.ticks = c.clock + c.pended.toNat
  pended : c.suspended = 0 → c.pended = 0#32

theorem counts_unblock {now : U32} : ∀ (l : List (U32 × Nat)) (k : Kernel),
    (ts.unblock now l k).1.counts = k.counts
  | [], _ => rfl
  | y :: rest, k => by
      have hwake : ∀ s : Seen, ∀ t, (s.wake t).ticks = s.ticks ∧ (s.wake t).clock = s.clock := by
        intro s t
        rw [Seen.wake]
        split <;> exact ⟨rfl, rfl⟩
      rw [TaskSet.unblock]
      split_ifs
      · rfl
      · obtain ⟨hticks, hclock⟩ := hwake (ts.removeState k y.2).seen y.2
        rw [counts_unblock rest]
        simp only [Kernel.counts, TaskSet.prvAddTaskToReadyList, hticks, hclock]
        rfl

variable (ts) in
theorem counts_increment (hs : k.uxSchedulerSuspended = 0) :
    (ts.xTaskIncrementTick k).1.counts = { k.counts with clock := k.seen.clock + 1 } := by
  have hadvance : k.advance.counts = { k.counts with clock := k.seen.clock + 1 } := by
    rw [Kernel.advance]
    split_ifs <;> rfl
  rw [TaskSet.xTaskIncrementTick, if_pos hs, TaskSet.unblockDue]
  split_ifs
  · exact (counts_unblock _ _).trans hadvance
  · exact hadvance

variable (ts) in
theorem counts_unwind : ∀ (n : Nat) {k : Kernel}, k.uxSchedulerSuspended = 0 →
    (ts.unwind n k).counts = { k.counts with clock := k.seen.clock + n }
  | 0, _, _ => rfl
  | n + 1, k, hs => by
      have htick := counts_increment ts hs
      have hs' : (ts.xTaskIncrementTick k).1.uxSchedulerSuspended = 0 :=
        (congrArg Counts.suspended htick).trans hs
      have hclock : (ts.xTaskIncrementTick k).1.seen.clock = k.seen.clock + 1 :=
        congrArg Counts.clock htick
      have hrest := counts_unwind n (k := { (ts.xTaskIncrementTick k).1 with
        xYieldPending := (ts.xTaskIncrementTick k).1.xYieldPending ||
          (ts.xTaskIncrementTick k).2 }) hs'
      rw [TaskSet.unwind, hrest]
      change { (ts.xTaskIncrementTick k).1.counts with
        clock := (ts.xTaskIncrementTick k).1.seen.clock + n } = _
      rw [htick, hclock, Nat.add_assoc, Nat.add_comm 1 n]

variable (ts) in
theorem counts_drainPending (k : Kernel) : (ts.drainPending k).counts = k.counts := by
  have hready : ∀ (l : List Nat) (k : Kernel), (ts.readyPending l k).counts = k.counts := by
    intro l
    induction l with
    | nil => exact fun _ => rfl
    | cons t rest ih => exact fun k => (ih _).trans rfl
  rw [TaskSet.drainPending]
  split_ifs <;> exact hready _ k

theorem counts_block (k : Kernel) (n : U32) (indefinitely : Bool) :
    (ts.prvAddCurrentTaskToDelayedList k n indefinitely).counts = k.counts := by
  obtain ⟨_, _, _, _, _, _, hblock⟩ := block_frame ts k n indefinitely
  rw [hblock]
  split_ifs <;> rfl

theorem counts_switchContext (k : Kernel) : k.vTaskSwitchContext.counts = k.counts := by
  rw [Kernel.vTaskSwitchContext]
  split_ifs <;> rfl

theorem toNat_succ_of_ne_max {n : U32} (h : n ≠ portMaxDelay) :
    (n + 1#32).toNat = n.toNat + 1 := by
  have hmax : n.toNat ≠ 2 ^ 32 - 1 := fun heq => h (BitVec.eq_of_toNat_eq heq)
  have hlt := n.isLt
  rw [BitVec.toNat_add, BitVec.toNat_ofNat]
  omega

/-- A tick is counted, or is one more that is pending. -/
theorem counted_tick (h : Counted k.counts) (htime : k.xPendedTicks ≠ portMaxDelay) :
    Counted (ts.step k .tick).counts := by
  obtain ⟨hticks, hpended⟩ := h
  change k.seen.ticks = k.seen.clock + k.xPendedTicks.toNat at hticks
  set k₁ : Kernel := { k with seen := { k.seen with ticks := k.seen.ticks + 1 } } with hk₁
  have htick : Counted (ts.xTaskIncrementTick k₁).1.counts := by
    by_cases hs : k.uxSchedulerSuspended = 0
    · rw [counts_increment ts (by exact hs)]
      refine ⟨?_, hpended⟩
      change k.seen.ticks + 1 = k.seen.clock + 1 + k.xPendedTicks.toNat
      omega
    · have hnext := toNat_succ_of_ne_max htime
      rw [TaskSet.xTaskIncrementTick, if_neg (by exact hs)]
      refine ⟨?_, fun h0 => absurd h0 hs⟩
      change k.seen.ticks + 1 = k.seen.clock + (k.xPendedTicks + 1#32).toNat
      omega
  rw [TaskSet.step, TaskSet.mtimeHandler]
  split_ifs
  · rw [counts_switchContext]
    exact htick
  · exact htick

/-- The pending ticks are counted, all of them. -/
theorem counted_catchUp (hticks : k.counts.ticks = k.counts.clock + k.counts.pended.toNat)
    (hs : k.uxSchedulerSuspended = 0) : Counted (ts.catchUp k).counts := by
  rw [TaskSet.catchUp]
  split_ifs with hpos
  · refine ⟨?_, fun _ => rfl⟩
    change (ts.unwind k.xPendedTicks.toNat k).counts.ticks =
      (ts.unwind k.xPendedTicks.toNat k).counts.clock + 0
    rw [counts_unwind ts k.xPendedTicks.toNat hs]
    exact hticks
  · refine ⟨hticks, fun _ => ?_⟩
    refine BitVec.eq_of_toNat_eq (Nat.eq_zero_of_not_pos fun h0 => hpos ?_)
    exact BitVec.lt_def.mpr h0

theorem counted_resumeAll (h : Counted k.counts) : Counted (ts.step k .resumeAll).counts := by
  rw [TaskSet.step, TaskSet.xTaskResumeAll]
  dsimp only
  by_cases hs : k.uxSchedulerSuspended - 1 = 0
  · have hdrain := counts_drainPending ts
      { k with uxSchedulerSuspended := k.uxSchedulerSuspended - 1 }
    have hsuspended := (congrArg Counts.suspended hdrain).trans hs
    rw [if_pos hs]
    refine counted_catchUp ?_ hsuspended
    rw [hdrain]
    exact h.ticks
  · rw [if_neg hs]
    exact ⟨h.ticks, fun h0 => absurd h0 hs⟩

/-- **Every event** keeps the account of the ticks. -/
theorem counted_step (h : Counted k.counts) {e : Event} (htime : ts.Timely k e) :
    Counted (ts.step k e).counts := by
  cases e with
  | tick => exact counted_tick h htime
  | yield =>
      rw [TaskSet.step, counts_switchContext]
      exact h
  | suspendAll => exact ⟨h.ticks, fun h0 => absurd h0 (Nat.succ_ne_zero _)⟩
  | resumeAll => exact counted_resumeAll h
  | delay n =>
      rw [TaskSet.step, TaskSet.vTaskDelay]
      split_ifs
      · rw [counts_block]
        exact h
      · exact h
  | getTickCount => exact h
  | delayUntil n =>
      rw [TaskSet.step, TaskSet.xTaskDelayUntil]
      dsimp only
      split_ifs
      · rw [counts_block]
        exact h
      · exact h
  | takeBegin n =>
      rw [TaskSet.step, TaskSet.takeBegin]
      dsimp only
      split_ifs
      · rw [counts_block]
        exact h
      · exact h
      · exact h
  | takeEnd clear =>
      rw [TaskSet.step, Kernel.takeEnd]
      dsimp only
      split_ifs <;> exact h
  | giveFromISR t =>
      rw [TaskSet.step, TaskSet.vTaskNotifyGiveFromISR]
      dsimp only
      split_ifs <;> exact h
  | give t =>
      rw [TaskSet.step, TaskSet.xTaskNotifyGive]
      dsimp only
      split_ifs <;> exact h
  | sleep t =>
      rw [TaskSet.step, TaskSet.sleep]
      split_ifs
      · refine ⟨?_, h.pended⟩
        have hticks : k.seen.ticks = k.seen.clock + k.xPendedTicks.toNat := h.ticks
        change k.seen.ticks + _ = k.seen.clock + _ + k.xPendedTicks.toNat
        omega
      · exact h

/-! ### The runs -/

/-- The tasks are placed and notified, their times kept, and the ticks counted. -/
structure OnTimes (ts : TaskSet) (k : Kernel) : Prop where
  kept : Kept ts k
  punctual : Punctual k.times
  counted : Counted k.counts

theorem onTimes_boot (ts : TaskSet) : OnTimes ts ts.boot := by
  obtain ⟨-, -, hrest⟩ := boot_fold ts ts.uxCurrentNumberOfTasks
  have htimes : ts.boot.times = Kernel.empty.times := by
    rw [TaskSet.boot, hrest]
    rfl
  have hcounts : ts.boot.counts = Kernel.empty.counts := by
    rw [TaskSet.boot, hrest]
    rfl
  refine ⟨kept_boot ts, ?_, ?_⟩
  · rw [htimes]
    exact {
      timed := {
        tick := rfl
        delayed := fun y hy => absurd hy List.not_mem_nil
        overflow := fun y hy => absurd hy List.not_mem_nil
        waiting := fun t w hw => by cases hw
        once := List.nodup_nil
        onceOver := List.nodup_nil
        order := fun l hl => by
          rcases hl with rfl | rfl <;> exact List.Pairwise.nil
        fresh := fun t w hw => by cases hw
        put := fun t w hw => by cases hw
        onTime := fun e he => absurd he List.not_mem_nil
        ordered := List.Pairwise.nil
        later := fun e he => absurd he List.not_mem_nil }
      next := by decide }
  · rw [hcounts]
    exact ⟨rfl, fun _ => rfl⟩

theorem OnTimes.step (h : OnTimes ts k) {e : Event} (he : ts.Allowed k e)
    (htime : ts.Timely k e) : OnTimes ts (ts.step k e) :=
  ⟨h.kept.step he, punctual_step h.kept h.punctual he htime, counted_step h.counted htime⟩

theorem OnTimes.run {es : List Event} (h : OnTimes ts k)
    (hes : Runs.Along ts.step ts.Allowed k es) (htime : Runs.Along ts.step ts.Timely k es) :
    OnTimes ts (Runs.runFrom ts.step k es) :=
  (hes.and htime).invariant (fun _ _ hk he => hk.step he.1 he.2) h

/-- **The delays end on time.**  After any run, also past a wrap of the tick count: every tick that
is passed on has been counted or is pending; the count is the clock, up to its width; every timed
wait that has run out did so at its end, or one later if a sleep ended on that very tick; they ran
out in the order of their ends, and in the order in which they began where the ends are the same; a
wait that has not run out is not due yet, and comes after all that have.  The end of a wait is its
tick, unless it was missed: where a sleep ends on the last tick of a round, the next tick does not
wake who is due, and it waits for two rounds more.  A sleep passes the next wake-up, against the
assertion of `vTaskStepTick`, just when it ends half a tick after it or later. -/
theorem delays_on_time (ts : TaskSet) (es : List Event)
    (hes : Runs.Along ts.step ts.Allowed ts.boot es)
    (htime : Runs.Along ts.step ts.Timely ts.boot es) :
    let k := Runs.runFrom ts.step ts.boot es
    k.seen.ticks = k.seen.clock + k.xPendedTicks.toNat ∧
      (k.uxSchedulerSuspended = 0 → k.xPendedTicks = 0#32) ∧
      k.xTickCount.toNat = k.seen.clock % 2 ^ 32 ∧
      (∀ e ∈ k.seen.wakes, OnTime k.seen.landed e ∧ Missed k.seen.landed e.wait) ∧
      (k.seen.wakes.Pairwise fun e e' => Before e.wait e'.wait) ∧
      (∀ t w, k.seen.waits t = some w → Ahead k.times w.ends ∧ Missed k.seen.landed w ∧
        ∀ e ∈ k.seen.wakes, Before e.wait w) ∧
      (∀ t w, k.seen.waits t = some w → w.ends = k.seen.clock → k.xTickCount = portMaxDelay →
        k.uxSchedulerSuspended = 0 → (ts.step k .tick).seen.waits t = some w.miss) ∧
      (∀ t, configExpectedIdleTimeBeforeSleep ≤ ts.prvGetExpectedIdleTime k →
        t.toNat + systickToOstick.toNat / 2 < 2 ^ 32 →
          (k.xTickCount.toNat + (systimerTickToOsTick t).toNat ≤ k.xNextTaskUnblockTime.toNat ↔
            ts.Timely k (.sleep t))) := by
  intro k
  have hk : OnTimes ts k := (onTimes_boot ts).run hes htime
  obtain ⟨-, hpunctual, hticks, hpended⟩ := hk
  have htimed := hpunctual.timed
  exact ⟨hticks, hpended, htimed.tick.symm, fun e he => ⟨(htimed.onTime e he).1,
    (htimed.onTime e he).2.1⟩, htimed.ordered, fun t w hw => ⟨hpunctual.waits_ahead hw,
    htimed.put t w hw, fun e he => htimed.later e he t w hw⟩,
    fun t w hw hends hmax hs => missed_tick hpunctual hs hmax hw hends,
    fun t hidle ht => stepTick_timely hpunctual.next hidle ht⟩

/-- Two tasks wait, the sleep ends on the end of both, and they wake in the order in which they
began to wait. -/
theorem delays_on_time_sample :
    let k := Runs.runFrom sampleTasks.step sampleTasks.boot
      [.suspendAll, .delay 5#32, .resumeAll, .yield, .takeBegin 5#32, .yield, .suspendAll,
        .sleep 150000#32, .resumeAll, .tick]
    k.seen.landed = [5] ∧ k.seen.wakes.map Wake.task = [1, 0] ∧
      (∀ e ∈ k.seen.wakes, OnTime k.seen.landed e ∧ Missed k.seen.landed e.wait) := by
  intro k
  obtain ⟨-, -, -, honTime, -⟩ := delays_on_time sampleTasks
    [.suspendAll, .delay 5#32, .resumeAll, .yield, .takeBegin 5#32, .yield, .suspendAll,
      .sleep 150000#32, .resumeAll, .tick] (by decide +kernel) (by decide +kernel)
  exact ⟨by decide +kernel, by decide +kernel, honTime⟩

end TelinkB91.Rtos.Tasks
