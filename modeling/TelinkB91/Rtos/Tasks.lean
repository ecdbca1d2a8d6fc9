import TelinkB91.Rtos.TaskList
import Mathlib.Logic.Function.Basic
import Mathlib.Tactic.SplitIfs

/-!
# Rtos — the tasks

The scheduler (`tasks.c`) with its tick, the delays of the tasks, the notifications that give and
take, and the sleep of the port in which ticks are stepped over.  A task is a number.  Interrupts
come between any two critical sections, so a section is one event, and the functions of a task that
have two are two events.

`Seen` is what an observer notes: the ticks that are passed on, counted without a limit, the end of
each timed wait, which waits have run out and when, what was given and taken, how often each task
has left a list and was chosen to run, and how often one of each priority was.  No function of the
scheduler reads it.

* `TaskSet.step`: what each event does.
* `TaskSet.Allowed`: the rules of the functions.  They say nothing about the time.
* `TaskSet.Timely`: how long the scheduler may be suspended, and how exactly a sleep ends.
-/

namespace TelinkB91.Rtos.Tasks

/-- `portMAX_DELAY`. -/
def portMaxDelay : U32 := 0xffffffff#32

/-- `configMAX_PRIORITIES`. -/
def configMaxPriorities : Nat := 7

/-- `configEXPECTED_IDLE_TIME_BEFORE_SLEEP`. -/
def configExpectedIdleTimeBeforeSleep : U32 := 2#32

/-- `SYSTICK_TO_OSTICK`: 16 MHz by 500 Hz. -/
def systickToOstick : U32 := 32000#32

/-- `SYSTIMER_TICK_TO_OS_TICK`. -/
def systimerTickToOsTick (x : U32) : U32 := (x + systickToOstick / 2#32) / systickToOstick

/-- `ucNotifyState`. -/
inductive NotifyState where
  | notWaiting
  | waiting
  | received
  deriving DecidableEq

/-- The tasks there are, and their priorities. -/
structure TaskSet where
  uxCurrentNumberOfTasks : Nat
  uxPriority : Nat → Nat
  idle : Nat
  idle_lt : idle < uxCurrentNumberOfTasks
  idle_priority : uxPriority idle = 0
  priority_lt : ∀ t, uxPriority t < configMaxPriorities

/-- A timed wait: the tick at which it ends, how many were before it, and how often the lists were
switched at its end while the task was still in the first of them. -/
structure Wait where
  due : Nat
  turn : Nat
  missed : Nat
  deriving DecidableEq

/-- A timed wait that has run out. -/
structure Wake where
  task : Nat
  wait : Wait
  clock : Nat
  deriving DecidableEq

/-- What is observed. -/
structure Seen where
  ticks : Nat
  clock : Nat
  landed : List Nat
  waits : Nat → Option Wait
  turns : Nat
  wakes : List Wake
  planned : Nat → Nat
  taking : Nat → Bool
  given : Nat → Nat
  taken : Nat → Nat
  left : Nat → Nat
  runs : Nat → Nat
  picks : Nat → Nat

/-- The variables of `tasks.c`, the notification of each task, the variable of each task whose
address it gives to `xTaskDelayUntil`, and what is observed. -/
structure Kernel where
  pxCurrentTCB : Nat
  pxReadyTasksLists : Nat → TaskList Nat
  pxDelayedTaskList : List (U32 × Nat)
  pxOverflowDelayedTaskList : List (U32 × Nat)
  xPendingReadyList : List Nat
  xSuspendedTaskList : List Nat
  xTickCount : U32
  uxTopReadyPriority : U32
  xPendedTicks : U32
  xYieldPending : Bool
  xNextTaskUnblockTime : U32
  uxSchedulerSuspended : Nat
  ulNotifiedValue : Nat → U32
  ucNotifyState : Nat → NotifyState
  pxPreviousWakeTime : Nat → U32
  seen : Seen

/-- The task begins to wait until the clock is at `due`. -/
def Seen.wait (s : Seen) (t due : Nat) : Seen :=
  { s with waits := Function.update s.waits t (some ⟨due, s.turns, 0⟩), turns := s.turns + 1 }

/-- The task waits no longer. -/
def Seen.leave (s : Seen) (t : Nat) : Seen := { s with waits := Function.update s.waits t none }

/-- The wait of the task has run out. -/
def Seen.wake (s : Seen) (t : Nat) : Seen :=
  match s.waits t with
  | some w => { s.leave t with wakes := s.wakes ++ [⟨t, w, s.clock⟩] }
  | none => s

/-- The waits, when those of these tasks are missed. -/
def missed (l : List Nat) (waits : Nat → Option Wait) (t : Nat) : Option Wait :=
  (waits t).map fun w => if t ∈ l then { w with missed := w.missed + 1 } else w

variable (ts : TaskSet)

/-- `prvAddTaskToReadyList`. -/
def TaskSet.prvAddTaskToReadyList (k : Kernel) (t : Nat) : Kernel := { k with
  uxTopReadyPriority := k.uxTopReadyPriority ||| (1#32 <<< ts.uxPriority t)
  pxReadyTasksLists := Function.update k.pxReadyTasksLists (ts.uxPriority t)
    ((k.pxReadyTasksLists (ts.uxPriority t)).vListInsertEnd t) }

/-- `uxListRemove`, of the task's `xStateListItem`: it leaves the list that holds it. -/
def TaskSet.removeState (k : Kernel) (t : Nat) : Kernel := { k with
  pxReadyTasksLists := Function.update k.pxReadyTasksLists (ts.uxPriority t)
    ((k.pxReadyTasksLists (ts.uxPriority t)).uxListRemove t)
  pxDelayedTaskList := k.pxDelayedTaskList.eraseP (·.2 = t)
  pxOverflowDelayedTaskList := k.pxOverflowDelayedTaskList.eraseP (·.2 = t)
  xSuspendedTaskList := k.xSuspendedTaskList.erase t
  seen := { k.seen with left := Function.update k.seen.left t (k.seen.left t + 1) } }

/-- The value of the first item, or `portMAX_DELAY` for an empty list. -/
def firstValue : List (U32 × Nat) → U32
  | [] => portMaxDelay
  | y :: _ => y.1

/-- `prvResetNextTaskUnblockTime`. -/
def Kernel.prvResetNextTaskUnblockTime (k : Kernel) : Kernel :=
  { k with xNextTaskUnblockTime := firstValue k.pxDelayedTaskList }

/-- `taskSWITCH_DELAYED_LISTS`.  The list should be empty then. -/
def Kernel.taskSwitchDelayedLists (k : Kernel) : Kernel :=
  Kernel.prvResetNextTaskUnblockTime { k with
    pxDelayedTaskList := k.pxOverflowDelayedTaskList
    pxOverflowDelayedTaskList := k.pxDelayedTaskList
    seen := { k.seen with waits := missed (k.pxDelayedTaskList.map Prod.snd) k.seen.waits } }

/-- `portRESET_READY_PRIORITY`, when the ready list that the task has left is empty. -/
def TaskSet.portResetReadyPriority (k : Kernel) (t : Nat) : Kernel :=
  if (k.pxReadyTasksLists (ts.uxPriority t)).items = [] then { k with
    uxTopReadyPriority := k.uxTopReadyPriority &&& ~~~(1#32 <<< ts.uxPriority t) } else k

/-- The task goes into the list of the delayed ones for the value `xTimeToWake`. -/
def Kernel.insertDelayed (k : Kernel) (t : Nat) (xTimeToWake : U32) : Kernel :=
  if xTimeToWake < k.xTickCount then { k with
    pxOverflowDelayedTaskList := vListInsert xTimeToWake t k.pxOverflowDelayedTaskList }
  else { k with
    pxDelayedTaskList := vListInsert xTimeToWake t k.pxDelayedTaskList
    xNextTaskUnblockTime :=
      if xTimeToWake < k.xNextTaskUnblockTime then xTimeToWake else k.xNextTaskUnblockTime }

/-- `prvAddCurrentTaskToDelayedList`. -/
def TaskSet.prvAddCurrentTaskToDelayedList (k : Kernel) (xTicksToWait : U32)
    (xCanBlockIndefinitely : Bool) : Kernel :=
  let t := k.pxCurrentTCB
  let k := ts.portResetReadyPriority (ts.removeState k t) t
  if xTicksToWait = portMaxDelay ∧ xCanBlockIndefinitely = true then
    { k with xSuspendedTaskList := k.xSuspendedTaskList ++ [t] }
  else
    Kernel.insertDelayed { k with seen := k.seen.wait t (k.seen.clock + xTicksToWait.toNat) } t
      (k.xTickCount + xTicksToWait)

/-- The loop of `xTaskIncrementTick` over the delayed tasks, and whether a switch is required. -/
def TaskSet.unblock (ts : TaskSet) (xConstTickCount : U32) :
    List (U32 × Nat) → Kernel → Kernel × Bool
  | [], k => ({ k with xNextTaskUnblockTime := portMaxDelay }, false)
  | y :: rest, k =>
      if xConstTickCount < y.1 then ({ k with xNextTaskUnblockTime := y.1 }, false)
      else
        let k := ts.removeState k y.2
        let k := { k with seen := k.seen.wake y.2 }
        let out := ts.unblock xConstTickCount rest (ts.prvAddTaskToReadyList k y.2)
        (out.1, decide (ts.uxPriority k.pxCurrentTCB ≤ ts.uxPriority y.2) || out.2)

/-- The tick of `xTaskIncrementTick`: the count goes on, and the lists are switched if it wraps. -/
def Kernel.advance (k : Kernel) : Kernel :=
  let k := { k with
    xTickCount := k.xTickCount + 1#32
    seen := { k.seen with clock := k.seen.clock + 1 } }
  if k.xTickCount = 0#32 then k.taskSwitchDelayedLists else k

/-- The tasks of `xTaskIncrementTick` whose time has come. -/
def TaskSet.unblockDue (k : Kernel) : Kernel × Bool :=
  if k.xNextTaskUnblockTime ≤ k.xTickCount then ts.unblock k.xTickCount k.pxDelayedTaskList k
  else (k, false)

/-- `xTaskIncrementTick`. -/
def TaskSet.xTaskIncrementTick (k : Kernel) : Kernel × Bool :=
  if k.uxSchedulerSuspended = 0 then
    let out := ts.unblockDue k.advance
    (out.1, out.2 || decide (1 < (out.1.pxReadyTasksLists
      (ts.uxPriority out.1.pxCurrentTCB)).items.length) || out.1.xYieldPending)
  else ({ k with xPendedTicks := k.xPendedTicks + 1#32 }, false)

/-- `vTaskSwitchContext`, with `portGET_HIGHEST_PRIORITY`. -/
def Kernel.vTaskSwitchContext (k : Kernel) : Kernel :=
  if k.uxSchedulerSuspended ≠ 0 then { k with xYieldPending := true }
  else
    let uxTopPriority := Nat.log2 k.uxTopReadyPriority.toNat
    let next := (k.pxReadyTasksLists uxTopPriority).listGetOwnerOfNextEntry
    let t := next.2.getD k.pxCurrentTCB
    { k with
      xYieldPending := false
      pxReadyTasksLists := Function.update k.pxReadyTasksLists uxTopPriority next.1
      pxCurrentTCB := t
      seen := { k.seen with
        runs := Function.update k.seen.runs t (k.seen.runs t + 1)
        picks := Function.update k.seen.picks uxTopPriority (k.seen.picks uxTopPriority + 1) } }

/-- `mtime_handler`, behind its two returns: a tick that comes while the timer interrupt is off, or
while there is an interrupt threshold, does not come this far. -/
def TaskSet.mtimeHandler (k : Kernel) : Kernel :=
  let out := ts.xTaskIncrementTick { k with seen := { k.seen with ticks := k.seen.ticks + 1 } }
  if out.2 = true then out.1.vTaskSwitchContext else out.1

/-- The tasks that were readied while the scheduler was suspended. -/
def TaskSet.readyPending (ts : TaskSet) : List Nat → Kernel → Kernel
  | [], k => k
  | t :: rest, k =>
      let k := ts.removeState { k with xPendingReadyList := rest } t
      let k := { k with seen := k.seen.leave t }
      let k := ts.prvAddTaskToReadyList k t
      ts.readyPending rest { k with
        xYieldPending := k.xYieldPending ||
          decide (ts.uxPriority k.pxCurrentTCB ≤ ts.uxPriority t) }

/-- The ticks that came while the scheduler was suspended. -/
def TaskSet.unwind (ts : TaskSet) : Nat → Kernel → Kernel
  | 0, k => k
  | n + 1, k =>
      let out := ts.xTaskIncrementTick k
      ts.unwind n { out.1 with xYieldPending := out.1.xYieldPending || out.2 }

/-- The first part of `xTaskResumeAll`: the tasks that are pending. -/
def TaskSet.drainPending (k : Kernel) : Kernel :=
  let pending := k.xPendingReadyList
  let k := ts.readyPending pending k
  if pending = [] then k else k.prvResetNextTaskUnblockTime

/-- The second part of `xTaskResumeAll`: the ticks that are pending. -/
def TaskSet.catchUp (k : Kernel) : Kernel :=
  if 0#32 < k.xPendedTicks then { ts.unwind k.xPendedTicks.toNat k with xPendedTicks := 0#32 }
  else k

/-- `xTaskResumeAll`.  The yield it asks for is an interrupt of its own. -/
def TaskSet.xTaskResumeAll (k : Kernel) : Kernel :=
  let k := { k with uxSchedulerSuspended := k.uxSchedulerSuspended - 1 }
  if k.uxSchedulerSuspended = 0 then ts.catchUp (ts.drainPending k) else k

/-- `vTaskDelay`, while the scheduler is suspended. -/
def TaskSet.vTaskDelay (k : Kernel) (xTicksToDelay : U32) : Kernel :=
  if 0#32 < xTicksToDelay then ts.prvAddCurrentTaskToDelayedList k xTicksToDelay false else k

/-- `xShouldDelay` of `xTaskDelayUntil`. -/
def shouldDelay (xConstTickCount pxPreviousWakeTime xTimeToWake : U32) : Bool :=
  if xConstTickCount < pxPreviousWakeTime then
    decide (xTimeToWake < pxPreviousWakeTime ∧ xConstTickCount < xTimeToWake)
  else decide (xTimeToWake < pxPreviousWakeTime ∨ xConstTickCount < xTimeToWake)

/-- `xTaskDelayUntil`, while the scheduler is suspended. -/
def TaskSet.xTaskDelayUntil (k : Kernel) (xTimeIncrement : U32) : Kernel :=
  let t := k.pxCurrentTCB
  let xTimeToWake := k.pxPreviousWakeTime t + xTimeIncrement
  let xShouldDelay := shouldDelay k.xTickCount (k.pxPreviousWakeTime t) xTimeToWake
  let k := { k with
    pxPreviousWakeTime := Function.update k.pxPreviousWakeTime t xTimeToWake
    seen := { k.seen with
      planned := Function.update k.seen.planned t (k.seen.planned t + xTimeIncrement.toNat) } }
  if xShouldDelay = true then
    ts.prvAddCurrentTaskToDelayedList k (xTimeToWake - k.xTickCount) false
  else k

/-- `xTaskGetTickCount`, into the variable for `xTaskDelayUntil`. -/
def Kernel.xTaskGetTickCount (k : Kernel) : Kernel := { k with
  pxPreviousWakeTime := Function.update k.pxPreviousWakeTime k.pxCurrentTCB k.xTickCount
  seen := { k.seen with planned := Function.update k.seen.planned k.pxCurrentTCB k.seen.clock } }

/-- `ulTaskGenericNotifyTake`, its first critical section. -/
def TaskSet.takeBegin (k : Kernel) (xTicksToWait : U32) : Kernel :=
  let k := { k with seen := { k.seen with
    taking := Function.update k.seen.taking k.pxCurrentTCB true } }
  if k.ulNotifiedValue k.pxCurrentTCB = 0#32 then
    let k := { k with ucNotifyState := Function.update k.ucNotifyState k.pxCurrentTCB .waiting }
    if 0#32 < xTicksToWait then ts.prvAddCurrentTaskToDelayedList k xTicksToWait true else k
  else k

/-- `ulTaskGenericNotifyTake`, its second critical section. -/
def Kernel.takeEnd (k : Kernel) (xClearCountOnExit : Bool) : Kernel :=
  let t := k.pxCurrentTCB
  let ulReturn := k.ulNotifiedValue t
  let left := if xClearCountOnExit = true then 0#32 else ulReturn - 1#32
  let k := if ulReturn ≠ 0#32 then { k with
      ulNotifiedValue := Function.update k.ulNotifiedValue t left
      seen := { k.seen with
        taken := Function.update k.seen.taken t (k.seen.taken t + (ulReturn - left).toNat) } }
    else k
  { k with
    ucNotifyState := Function.update k.ucNotifyState t .notWaiting
    seen := { k.seen with taking := Function.update k.seen.taking t false } }

/-- The count and the state of a task to which one is given. -/
def Kernel.give (k : Kernel) (t : Nat) : Kernel := { k with
  ucNotifyState := Function.update k.ucNotifyState t .received
  ulNotifiedValue := Function.update k.ulNotifiedValue t (k.ulNotifiedValue t + 1#32)
  seen := { k.seen with given := Function.update k.seen.given t (k.seen.given t + 1) } }

/-- `vTaskGenericNotifyGiveFromISR`. -/
def TaskSet.vTaskNotifyGiveFromISR (k : Kernel) (t : Nat) : Kernel :=
  let ucOriginalNotifyState := k.ucNotifyState t
  let k := k.give t
  if ucOriginalNotifyState = .waiting then
    let k :=
      if k.uxSchedulerSuspended = 0 then
        let k := ts.removeState k t
        ts.prvAddTaskToReadyList { k with seen := k.seen.leave t } t
      else { k with xPendingReadyList := k.xPendingReadyList ++ [t] }
    if ts.uxPriority k.pxCurrentTCB < ts.uxPriority t then { k with xYieldPending := true } else k
  else k

/-- `xTaskGenericNotify`, with `eIncrement`.  The yield it asks for is an interrupt of its own. -/
def TaskSet.xTaskNotifyGive (k : Kernel) (t : Nat) : Kernel :=
  let ucOriginalNotifyState := k.ucNotifyState t
  let k := k.give t
  if ucOriginalNotifyState = .waiting then
    let k := ts.removeState k t
    let k := ts.prvAddTaskToReadyList { k with seen := k.seen.leave t } t
    k.prvResetNextTaskUnblockTime
  else k

/-- `prvGetExpectedIdleTime`. -/
def TaskSet.prvGetExpectedIdleTime (k : Kernel) : U32 :=
  if 0 < ts.uxPriority k.pxCurrentTCB then 0#32
  else if 1 < (k.pxReadyTasksLists 0).items.length then 0#32
  else if 1#32 < k.uxTopReadyPriority then 0#32
  else k.xNextTaskUnblockTime - k.xTickCount

/-- `vTaskStepTick`. -/
def Kernel.vTaskStepTick (k : Kernel) (xTicksToJump : U32) : Kernel := { k with
  xTickCount := k.xTickCount + xTicksToJump
  seen := { k.seen with
    ticks := k.seen.ticks + xTicksToJump.toNat
    clock := k.seen.clock + xTicksToJump.toNat
    landed := k.seen.landed ++ [k.seen.clock + xTicksToJump.toNat] } }

/-- `prvIdleTask` with `vPortSuppressTicksAndSleep`, while the scheduler is suspended: the port has
slept, and `t` system ticks have gone by. -/
def TaskSet.sleep (k : Kernel) (t : U32) : Kernel :=
  if configExpectedIdleTimeBeforeSleep ≤ ts.prvGetExpectedIdleTime k then
    k.vTaskStepTick (systimerTickToOsTick t)
  else k

/-- What happens: the two interrupts of the scheduler, what the current task calls, and what an
interrupt gives. -/
inductive Event where
  | tick
  | yield
  | suspendAll
  | resumeAll
  | delay (xTicksToDelay : U32)
  | getTickCount
  | delayUntil (xTimeIncrement : U32)
  | takeBegin (xTicksToWait : U32)
  | takeEnd (xClearCountOnExit : Bool)
  | giveFromISR (t : Nat)
  | give (t : Nat)
  | sleep (t : U32)
  deriving DecidableEq

/-- One event. -/
def TaskSet.step (k : Kernel) : Event → Kernel
  | .tick => ts.mtimeHandler k
  | .yield => k.vTaskSwitchContext
  | .suspendAll => { k with uxSchedulerSuspended := k.uxSchedulerSuspended + 1 }
  | .resumeAll => ts.xTaskResumeAll k
  | .delay n => ts.vTaskDelay k n
  | .getTickCount => k.xTaskGetTickCount
  | .delayUntil n => ts.xTaskDelayUntil k n
  | .takeBegin n => ts.takeBegin k n
  | .takeEnd clear => k.takeEnd clear
  | .giveFromISR t => ts.vTaskNotifyGiveFromISR k t
  | .give t => ts.xTaskNotifyGive k t
  | .sleep t => ts.sleep k t

/-- No task, and nothing observed. -/
def Kernel.empty : Kernel where
  pxCurrentTCB := 0
  pxReadyTasksLists _ := .vListInitialise
  pxDelayedTaskList := []
  pxOverflowDelayedTaskList := []
  xPendingReadyList := []
  xSuspendedTaskList := []
  xTickCount := 0#32
  uxTopReadyPriority := 0#32
  xPendedTicks := 0#32
  xYieldPending := false
  xNextTaskUnblockTime := portMaxDelay
  uxSchedulerSuspended := 0
  ulNotifiedValue _ := 0#32
  ucNotifyState _ := .notWaiting
  pxPreviousWakeTime _ := 0#32
  seen := ⟨0, 0, [], fun _ => none, 0, [], fun _ => 0, fun _ => false, fun _ => 0, fun _ => 0,
    fun _ => 0, fun _ => 0, fun _ => 0⟩

/-- `prvAddNewTaskToReadyList`, before the scheduler runs.  The first one finds no current task. -/
def TaskSet.prvAddNewTaskToReadyList (k : Kernel) (t : Nat) : Kernel :=
  ts.prvAddTaskToReadyList { k with
    pxCurrentTCB := if t = 0 ∨ ts.uxPriority k.pxCurrentTCB ≤ ts.uxPriority t then t
      else k.pxCurrentTCB } t

/-- The scheduler starts, with the tasks created in order. -/
def TaskSet.boot : Kernel :=
  (List.range ts.uxCurrentNumberOfTasks).foldl ts.prvAddNewTaskToReadyList .empty

/-- The current task runs, and is not in the middle of `ulTaskNotifyTake`. -/
structure TaskSet.Calls (k : Kernel) : Prop where
  ready : k.pxCurrentTCB ∈ (k.pxReadyTasksLists (ts.uxPriority k.pxCurrentTCB)).items
  outside : k.seen.taking k.pxCurrentTCB = false

/-- The rules of the functions.  A task calls one while it runs; the idle task does not wait; with
the scheduler suspended nobody calls `ulTaskNotifyTake`, and the delays and the sleep are in between
`vTaskSuspendAll` and `xTaskResumeAll`. -/
def TaskSet.Allowed (k : Kernel) : Event → Prop
  | .tick | .yield => True
  | .suspendAll => ts.Calls k
  | .resumeAll => k.uxSchedulerSuspended ≠ 0
  | .delay _ => ts.Calls k ∧ k.uxSchedulerSuspended ≠ 0 ∧ k.pxCurrentTCB ≠ ts.idle
  | .getTickCount => ts.Calls k
  | .delayUntil n => ts.Calls k ∧ k.uxSchedulerSuspended ≠ 0 ∧ k.pxCurrentTCB ≠ ts.idle ∧ n ≠ 0#32
  | .takeBegin _ => ts.Calls k ∧ k.uxSchedulerSuspended = 0 ∧ k.pxCurrentTCB ≠ ts.idle
  | .takeEnd _ => k.pxCurrentTCB ∈ (k.pxReadyTasksLists (ts.uxPriority k.pxCurrentTCB)).items ∧
      k.seen.taking k.pxCurrentTCB = true
  | .giveFromISR t | .give t => t < ts.uxCurrentNumberOfTasks
  | .sleep _ => k.uxSchedulerSuspended ≠ 0

/-- The conditions on the time.  The scheduler is not suspended for so many ticks that they cannot
be counted, and a sleep ends less than half a tick after the time that it was meant for. -/
def TaskSet.Timely (k : Kernel) : Event → Prop
  | .tick => k.xPendedTicks ≠ portMaxDelay
  | .sleep t => configExpectedIdleTimeBeforeSleep ≤ ts.prvGetExpectedIdleTime k →
      t.toNat < systickToOstick.toNat * (ts.prvGetExpectedIdleTime k).toNat +
        systickToOstick.toNat / 2
  | _ => True

instance (k : Kernel) : Decidable (ts.Calls k) :=
  decidable_of_iff (k.pxCurrentTCB ∈ (k.pxReadyTasksLists (ts.uxPriority k.pxCurrentTCB)).items ∧
    k.seen.taking k.pxCurrentTCB = false) ⟨fun h => ⟨h.1, h.2⟩, fun h => ⟨h.1, h.2⟩⟩

instance (k : Kernel) : DecidablePred (ts.Allowed k)
  | .tick | .yield => .isTrue trivial
  | .suspendAll => inferInstanceAs (Decidable (ts.Calls k))
  | .resumeAll => inferInstanceAs (Decidable (k.uxSchedulerSuspended ≠ 0))
  | .delay _ => inferInstanceAs (Decidable
      (ts.Calls k ∧ k.uxSchedulerSuspended ≠ 0 ∧ k.pxCurrentTCB ≠ ts.idle))
  | .getTickCount => inferInstanceAs (Decidable (ts.Calls k))
  | .delayUntil n => inferInstanceAs (Decidable
      (ts.Calls k ∧ k.uxSchedulerSuspended ≠ 0 ∧ k.pxCurrentTCB ≠ ts.idle ∧ n ≠ 0#32))
  | .takeBegin _ => inferInstanceAs (Decidable
      (ts.Calls k ∧ k.uxSchedulerSuspended = 0 ∧ k.pxCurrentTCB ≠ ts.idle))
  | .takeEnd _ => inferInstanceAs (Decidable
      (k.pxCurrentTCB ∈ (k.pxReadyTasksLists (ts.uxPriority k.pxCurrentTCB)).items ∧
        k.seen.taking k.pxCurrentTCB = true))
  | .giveFromISR t => inferInstanceAs (Decidable (t < ts.uxCurrentNumberOfTasks))
  | .give t => inferInstanceAs (Decidable (t < ts.uxCurrentNumberOfTasks))
  | .sleep _ => inferInstanceAs (Decidable (k.uxSchedulerSuspended ≠ 0))

instance (k : Kernel) : DecidablePred (ts.Timely k)
  | .tick => inferInstanceAs (Decidable (k.xPendedTicks ≠ portMaxDelay))
  | .sleep t => inferInstanceAs (Decidable
      (configExpectedIdleTimeBeforeSleep ≤ ts.prvGetExpectedIdleTime k →
        t.toNat < systickToOstick.toNat * (ts.prvGetExpectedIdleTime k).toNat +
          systickToOstick.toNat / 2))
  | .yield | .suspendAll | .resumeAll | .delay _ | .getTickCount | .delayUntil _ | .takeBegin _
  | .takeEnd _ | .giveFromISR _ | .give _ => .isTrue trivial

/-- The tasks of `main`: the one for the LED, the one for the stack and the idle task. -/
def sampleTasks : TaskSet where
  uxCurrentNumberOfTasks := 3
  uxPriority t := if t = 0 then 1 else if t = 1 then 2 else 0
  idle := 2
  idle_lt := by decide
  idle_priority := rfl
  priority_lt t := by
    split_ifs <;> decide

end TelinkB91.Rtos.Tasks
