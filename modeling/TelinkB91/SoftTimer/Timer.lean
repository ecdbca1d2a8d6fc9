import TelinkB91.Lib.BubbleSort
import TelinkB91.Lib.Runs
import Mathlib.Algebra.Order.Ring.Nat

/-!
# Soft timer — the timer table of `blt_soft_timer.c`

A table of at most four software timers, kept sorted by due time, over the 32-bit system clock.
`blt_soft_timer_process` runs the callbacks that are due and applies what each returns: a
negative result deletes the timer, zero starts its interval again, a positive one is its new
interval.  The earliest due time is handed to the power manager as the application wake-up.

The clock is an input: an operation is given the value `clock_time ()` returns in it.  A callback
is its address; what it does when it runs is an input too (`Behaviour`): the calls it makes on
the table itself, and the value it returns.

Every entry carries the number of the addition that made it (`serial`).  No function reads it: it
tells two entries with the same contents apart, so that a theorem can follow one of them.
-/

namespace TelinkB91.SoftTimer
open LiveArray

abbrev U32 := BitVec 32

/-! ### Constants and time comparison -/

/-- The chips, which differ in the frequency of the system timer. -/
inductive McuCore where
  | b91
  | b92
  deriving DecidableEq, Repr

namespace McuCore

/-- `SYSTEM_TIMER_TICK_1US`. -/
def systemTimerTick1us : McuCore → U32
  | b91 => 16#32
  | b92 => 24#32

/-- `SYSTEM_TIMER_TICK_1MS`. -/
def systemTimerTick1ms : McuCore → U32
  | b91 => 16000#32
  | b92 => 24000#32

/-- `SYSTEM_TIMER_TICK_1S`. -/
def systemTimerTick1s : McuCore → U32
  | b91 => 16000000#32
  | b92 => 24000000#32

end McuCore

variable (core : McuCore)

/-- `MAX_TIMER_NUM`. -/
abbrev maxTimerNum : Nat := 4

/-- `TIME_COMPARE_BIG`. -/
def timeCompareBig (t₁ t₂ : U32) : Bool := (t₁ - t₂).toNat < 2 ^ 30

/-- `BLT_TIMER_SAFE_MARGIN_PRE`. -/
def bltTimerSafeMarginPre : U32 := core.systemTimerTick1us <<< 7

/-- `BLT_TIMER_SAFE_MARGIN_POST`. -/
def bltTimerSafeMarginPost : U32 := core.systemTimerTick1s <<< 2

/-- `blt_is_timer_expired`. -/
def bltIsTimerExpired (t now : U32) : Bool :=
  now + bltTimerSafeMarginPre core - t < bltTimerSafeMarginPost core

/-! ### The table -/

/-- `blt_timer_callback_t`: the address of a function. -/
abbrev Callback := BitVec 32

/-- `NULL`. -/
def null : Callback := 0#32

/-- `blt_time_event_t`, with the number of the addition that made the entry. -/
structure BltTimeEvent where
  cb : Callback
  t : U32
  interval : U32
  serial : Nat
  deriving DecidableEq, Repr

/-- An event of zero bytes. -/
def BltTimeEvent.zero : BltTimeEvent := ⟨null, 0#32, 0#32, 0⟩

/-- What `blt_soft_timer_process` writes into an entry whose callback returned `result ≥ 0`. -/
def BltTimeEvent.reschedule (now : U32) (result : Int) (e : BltTimeEvent) : BltTimeEvent :=
  if result = 0 then { e with t := now + e.interval }
  else
    let interval := BitVec.ofInt 32 (result * core.systemTimerTick1us.toNat)
    { e with interval := interval, t := now + interval }

/-- The loop's test of an entry: its time has come and it has a callback. -/
def BltTimeEvent.isDue (now : U32) (e : BltTimeEvent) : Bool :=
  bltIsTimerExpired core e.t now && e.cb != null

/-- `blt_soft_timer_t`. -/
structure BltSoftTimer where
  timer : Vector BltTimeEvent maxTimerNum
  currentNum : Nat
  deriving DecidableEq, Repr

namespace BltSoftTimer

/-- `timer[i]`. -/
def event (b : BltSoftTimer) (i : Nat) : BltTimeEvent := b.timer[i]?.getD .zero

/-- The live entries, in slot order. -/
def events (b : BltSoftTimer) : List BltTimeEvent := live b.timer b.currentNum

/-- Entry `currentNum` written, and `currentNum ++`. -/
def push (b : BltSoftTimer) (e : BltTimeEvent) : BltSoftTimer :=
  ⟨store b.timer b.currentNum e, b.currentNum + 1⟩

/-- The first slot the search loop of `blt_soft_timer_delete` stops at. -/
def firstMatch (b : BltSoftTimer) (func : Callback) : Option Nat :=
  (List.range b.currentNum).find? fun i => (b.event i).cb == func

end BltSoftTimer

/-- `blt_soft_timer_sort`. -/
def bltSoftTimerSort (b : BltSoftTimer) : BltSoftTimer × Int :=
  if b.currentNum < 1 ∨ b.currentNum > maxTimerNum then (b, 0)
  else
    ({ b with timer := BubbleSort.sort (fun x y => timeCompareBig x.t y.t) b.timer b.currentNum },
      1)

/-- `blt_soft_timer_delete_by_index`, which returns 0 either way. -/
def bltSoftTimerDeleteByIndex (b : BltSoftTimer) (index : Nat) : BltSoftTimer × Int :=
  if index ≥ b.currentNum then (b, 0)
  else (⟨shiftDown b.timer index b.currentNum, b.currentNum - 1⟩, 0)

/-- What the program's two guarded calls of `bls_pm_setAppWakeupLowPower` set: the due time in
slot 0 when it is less than 3 s ahead, and no wake-up otherwise.  The slot is read whether or not
it is live. -/
def armHead (b : BltSoftTimer) (now : U32) : Option U32 :=
  if (b.event 0).t - now < 3000#32 * core.systemTimerTick1ms then some (b.event 0).t else none

/-! ### The operations -/

/-- `blt_timer`, the wake-up last set through `bls_pm_setAppWakeupLowPower` (`none` when it is
disabled), and the number of additions so far. -/
structure Sys where
  bltTimer : BltSoftTimer
  wakeup : Option U32
  adds : Nat
  deriving DecidableEq, Repr

/-- A zeroed RAM. -/
def Sys.init : Sys := ⟨⟨Vector.replicate _ .zero, 0⟩, none, 0⟩

/-- The live entries. -/
abbrev Sys.events (s : Sys) : List BltTimeEvent := s.bltTimer.events

/-- The event `blt_soft_timer_add` stores. -/
def newEvent (now : U32) (func : Callback) (intervalUs : U32) (serial : Nat) : BltTimeEvent :=
  let interval := intervalUs * core.systemTimerTick1us
  { cb := func, t := now + interval, interval := interval, serial := serial }

/-- `blt_soft_timer_add`. -/
def bltSoftTimerAdd (s : Sys) (now : U32) (func : Callback) (intervalUs : U32) : Sys × Int :=
  if s.bltTimer.currentNum ≥ maxTimerNum then (s, 0)
  else
    let b := (bltSoftTimerSort (s.bltTimer.push (newEvent core now func intervalUs s.adds))).1
    ({ bltTimer := b, wakeup := some (b.event 0).t, adds := s.adds + 1 }, 1)

/-- `blt_soft_timer_delete`. -/
def bltSoftTimerDelete (s : Sys) (now : U32) (func : Callback) : Sys × Int :=
  match s.bltTimer.firstMatch func with
  | none => (s, 0)
  | some i =>
      let b := (bltSoftTimerDeleteByIndex s.bltTimer i).1
      -- the wake-up is set again only when slot 0 was deleted
      ({ s with bltTimer := b, wakeup := if i = 0 then armHead core b now else s.wakeup }, 1)

/-- A call on the table, with the clock value read in it. -/
inductive TimerCall where
  | add (now : U32) (func : Callback) (intervalUs : U32)
  | delete (now : U32) (func : Callback)
  deriving DecidableEq, Repr

/-- What a call does, and its return value. -/
def runCall (s : Sys) : TimerCall → Sys × Int
  | .add now func intervalUs => bltSoftTimerAdd core s now func intervalUs
  | .delete now func => bltSoftTimerDelete core s now func

/-- The calls a callback makes, one after the other. -/
def runCalls (s : Sys) (calls : List TimerCall) : Sys :=
  calls.foldl (fun s c => (runCall core s c).1) s

/-- One run of a callback: the calls it makes, and its result. -/
structure CallbackRun where
  calls : List TimerCall
  result : Int
  deriving DecidableEq, Repr

/-- What the callback of an entry does when the loop runs it in a given round. -/
abbrev Behaviour := Nat → BltTimeEvent → CallbackRun

/-- A callback the loop ran, and its result. -/
abbrev Invocation := BltTimeEvent × Int

/-- The state of the loop of `blt_soft_timer_process`: the globals, `change_flg`, and the
callbacks run so far. -/
structure Loop where
  sys : Sys
  changeFlg : Bool
  log : List Invocation

/-- What the loop does with the result of the callback of slot `i`. -/
def applyResult (now : U32) (i : Nat) (result : Int) (b : BltSoftTimer) : BltSoftTimer :=
  if result < 0 then (bltSoftTimerDeleteByIndex b i).1
  else { b with timer := modifyAt b.timer i (BltTimeEvent.reschedule core now result) }

/-- The tests of round `i` of the loop: slot `i` is live, and its entry is due. -/
def fires (now : U32) (b : BltSoftTimer) (i : Nat) : Bool :=
  i < b.currentNum && (b.event i).isDue core now

/-- One round of the loop.  The result is applied to slot `i` of the table the callback left. -/
def processRound (now : U32) (beh : Behaviour) (l : Loop) (i : Nat) : Loop :=
  if fires core now l.sys.bltTimer i then
    let e := l.sys.bltTimer.event i
    let s := runCalls core l.sys (beh i e).calls
    { sys := { s with bltTimer := applyResult core now i (beh i e).result s.bltTimer }
      changeFlg := l.changeFlg || decide (0 ≤ (beh i e).result)
      log := l.log ++ [(e, (beh i e).result)] }
  else l

/-- The loop after `k` rounds.  Rounds past `currentNum` change nothing, and the table never holds
more than `maxTimerNum` entries, so the whole loop is `maxTimerNum` rounds. -/
def processRounds (s : Sys) (now : U32) (beh : Behaviour) (k : Nat) : Loop :=
  (List.range k).foldl (processRound core now beh) ⟨s, false, []⟩

/-- `blt_soft_timer_process`, with the callbacks it ran.  Its argument `type` decides nothing. -/
def bltSoftTimerProcess (s : Sys) (now : U32) (beh : Behaviour) : Sys × List Invocation :=
  if s.bltTimer.currentNum = 0 then ({ s with wakeup := none }, [])
  else if bltIsTimerExpired core (s.bltTimer.event 0).t now = false then (s, [])
  else
    let l := processRounds core s now beh maxTimerNum
    if l.sys.bltTimer.currentNum ≠ 0 then
      let b := if l.changeFlg then (bltSoftTimerSort l.sys.bltTimer).1 else l.sys.bltTimer
      ({ l.sys with bltTimer := b, wakeup := armHead core b now }, l.log)
    else ({ l.sys with wakeup := none }, l.log)

/-! ### Runs -/

/-- The operations on the table. -/
inductive Op where
  | call (c : TimerCall)
  | process (now : U32) (beh : Behaviour)

/-- The clock value an operation is given. -/
def Op.now : Op → U32
  | .call (.add now _ _) => now
  | .call (.delete now _) => now
  | .process now _ => now

/-- What an operation lets its caller see: the value a call returns, the callbacks run. -/
inductive Output where
  | ret (r : Int)
  | ran (log : List Invocation)
  deriving DecidableEq, Repr

/-- One operation, with its output. -/
def exec (s : Sys) : Op → Sys × Output
  | .call c => ((runCall core s c).1, .ret (runCall core s c).2)
  | .process now beh =>
      ((bltSoftTimerProcess core s now beh).1, .ran (bltSoftTimerProcess core s now beh).2)

/-- One operation. -/
def step (s : Sys) (op : Op) : Sys := (exec core s op).1

/-- The table is left alone by the callbacks an operation runs. -/
def Op.Quiet : Op → Prop
  | .call _ => True
  | .process _ beh => ∀ i e, (beh i e).calls = []

/-- Callbacks that only return a value, which may depend on the entry. -/
def Behaviour.ofResult (res : BltTimeEvent → Int) : Behaviour := fun _ e => ⟨[], res e⟩

end TelinkB91.SoftTimer
