import TelinkB91.SoftTimer.Timer
import Mathlib.Data.List.Nodup

/-!
# Soft timer — what the operations do to the live entries

Each function of the table is described by what it does to the list of live entries: an addition
appends and rearranges, a deletion drops one position, the loop of `blt_soft_timer_process` drops
a position or rewrites it in place.

* `sound_run`: after any run, with callbacks that call back into the table or not, at most
  `maxTimerNum` entries are live and no two carry the same number.
* `processRounds_quiet`: with callbacks that leave the table alone the loop is `drain`, a
  recursion on the list of live entries.
* `process_spec`: the four ways such a call of `blt_soft_timer_process` goes.
-/

namespace TelinkB91.SoftTimer
open LiveArray

variable {core : McuCore}

/-! ### The table as a list -/

theorem BltSoftTimer.length_events {b : BltSoftTimer} (hn : b.currentNum ≤ maxTimerNum) :
    b.events.length = b.currentNum := length_live hn

theorem BltSoftTimer.event_eq {b : BltSoftTimer} {i : Nat} {e : BltTimeEvent}
    (h : b.events[i]? = some e) : b.event i = e := by
  rw [events, live_getElem?] at h
  split at h
  · rw [event, h]; rfl
  · cases h

theorem BltSoftTimer.events_getElem? {b : BltSoftTimer} (hn : b.currentNum ≤ maxTimerNum) {i : Nat}
    (hi : i < b.currentNum) : b.events[i]? = some (b.event i) := by
  have hlen : i < b.events.length := by rw [length_events hn]; exact hi
  rw [List.getElem?_eq_getElem hlen, event_eq (List.getElem?_eq_getElem hlen)]

theorem BltSoftTimer.events_eq_nil {b : BltSoftTimer} (hn : b.currentNum ≤ maxTimerNum) :
    b.events = [] ↔ b.currentNum = 0 := by
  rw [← List.length_eq_zero_iff, length_events hn]

@[simp] theorem sort_currentNum (b : BltSoftTimer) :
    (bltSoftTimerSort b).1.currentNum = b.currentNum := by
  rw [bltSoftTimerSort]; split <;> rfl

theorem sort_perm (b : BltSoftTimer) : (bltSoftTimerSort b).1.events.Perm b.events := by
  rw [bltSoftTimerSort]
  split
  · exact .refl _
  · exact BubbleSort.sort_perm _ (by omega)

theorem push_events {b : BltSoftTimer} (hn : b.currentNum < maxTimerNum) (e : BltTimeEvent) :
    (b.push e).events = b.events ++ [e] := live_store _ hn e

theorem deleteByIndex_events {b : BltSoftTimer} (hn : b.currentNum ≤ maxTimerNum) (i : Nat) :
    (bltSoftTimerDeleteByIndex b i).1.events = b.events.eraseIdx i := by
  rw [bltSoftTimerDeleteByIndex]
  split
  · rw [List.eraseIdx_of_length_le]
    rw [BltSoftTimer.length_events hn]
    assumption
  · exact live_shiftDown _ (by omega) hn

theorem deleteByIndex_currentNum (b : BltSoftTimer) (i : Nat) :
    (bltSoftTimerDeleteByIndex b i).1.currentNum =
      if i < b.currentNum then b.currentNum - 1 else b.currentNum := by
  rw [bltSoftTimerDeleteByIndex]
  split
  · rw [if_neg (by omega)]
  · rw [if_pos (by omega)]

theorem firstMatch_eq_none {b : BltSoftTimer} (hn : b.currentNum ≤ maxTimerNum) {func : Callback}
    (h : b.firstMatch func = none) : ∀ e ∈ b.events, e.cb ≠ func := by
  intro e he
  obtain ⟨i, hi⟩ := List.mem_iff_getElem?.mp he
  have hlt : i < b.currentNum := by
    rw [← BltSoftTimer.length_events hn]
    exact (List.getElem?_eq_some_iff.mp hi).1
  have hno := List.find?_eq_none.mp h i (List.mem_range.mpr hlt)
  rw [BltSoftTimer.event_eq hi] at hno
  exact fun hc => hno (beq_iff_eq.mpr hc)

theorem firstMatch_eq_some {b : BltSoftTimer} (hn : b.currentNum ≤ maxTimerNum) {func : Callback}
    {i : Nat} (h : b.firstMatch func = some i) :
    i < b.currentNum ∧ b.events[i]? = some (b.event i) ∧ (b.event i).cb = func := by
  have hi : i < b.currentNum := List.mem_range.mp (List.mem_of_find?_eq_some h)
  have hcb := List.find?_some h
  exact ⟨hi, BltSoftTimer.events_getElem? hn hi, beq_iff_eq.mp hcb⟩

/-! ### The calls -/

theorem add_of_full {s : Sys} (h : s.bltTimer.currentNum ≥ maxTimerNum) (now : U32)
    (func : Callback) (us : U32) : bltSoftTimerAdd core s now func us = (s, 0) := if_pos h

/-- The table an addition leaves. -/
abbrev Sys.added (core : McuCore) (s : Sys) (now : U32) (func : Callback) (us : U32) :
    BltSoftTimer :=
  (bltSoftTimerSort (s.bltTimer.push (newEvent core now func us s.adds))).1

theorem add_of_room {s : Sys} (h : s.bltTimer.currentNum < maxTimerNum) (now : U32)
    (func : Callback) (us : U32) : bltSoftTimerAdd core s now func us =
      (⟨s.added core now func us, some ((s.added core now func us).event 0).t, s.adds + 1⟩, 1) :=
  if_neg (Nat.not_le.mpr h)

theorem added_events (core : McuCore) {s : Sys} (h : s.bltTimer.currentNum < maxTimerNum)
    (now : U32) (func : Callback) (us : U32) : (s.added core now func us).events.Perm
      (s.events ++ [newEvent core now func us s.adds]) := by
  refine (sort_perm _).trans ?_
  rw [push_events h]

theorem added_currentNum (s : Sys) (now : U32) (func : Callback) (us : U32) :
    (s.added core now func us).currentNum = s.bltTimer.currentNum + 1 := sort_currentNum _

theorem delete_of_none {s : Sys} {func : Callback} (h : s.bltTimer.firstMatch func = none)
    (now : U32) : bltSoftTimerDelete core s now func = (s, 0) := by
  rw [bltSoftTimerDelete, h]

theorem delete_of_some {s : Sys} {func : Callback} {i : Nat}
    (h : s.bltTimer.firstMatch func = some i) (now : U32) :
    bltSoftTimerDelete core s now func =
      ({ s with
          bltTimer := (bltSoftTimerDeleteByIndex s.bltTimer i).1
          wakeup := if i = 0 then armHead core (bltSoftTimerDeleteByIndex s.bltTimer i).1 now
            else s.wakeup }, 1) := by
  rw [bltSoftTimerDelete, h]

/-! ### Results of callbacks -/

@[simp] theorem reschedule_serial (now : U32) (r : Int) (e : BltTimeEvent) :
    (e.reschedule core now r).serial = e.serial := by
  rw [BltTimeEvent.reschedule]; split <;> rfl

theorem reschedule_t (now : U32) (r : Int) (e : BltTimeEvent) :
    (e.reschedule core now r).t = now + (e.reschedule core now r).interval := by
  rw [BltTimeEvent.reschedule]; split <;> rfl

theorem applyResult_events {b : BltSoftTimer} (hn : b.currentNum ≤ maxTimerNum) (now : U32)
    (i : Nat) (r : Int) : (applyResult core now i r b).events =
      if r < 0 then b.events.eraseIdx i
      else b.events.modify i (BltTimeEvent.reschedule core now r) := by
  rw [applyResult]
  split
  · exact deleteByIndex_events hn i
  · exact live_modifyAt _ _ _ _

theorem applyResult_currentNum_le (now : U32) (i : Nat) (r : Int) (b : BltSoftTimer) :
    (applyResult core now i r b).currentNum ≤ b.currentNum := by
  rw [applyResult]
  split
  · rw [deleteByIndex_currentNum]; split <;> omega
  · exact Nat.le_refl _

/-! ### Every run keeps the table sound -/

/-- The numbers of the live entries. -/
def Sys.serials (s : Sys) : List Nat := s.events.map BltTimeEvent.serial

/-- At most `maxTimerNum` entries are live, and each carries a number of its own. -/
structure Sound (s : Sys) : Prop where
  num : s.bltTimer.currentNum ≤ maxTimerNum
  distinct : s.serials.Nodup
  fresh : ∀ n ∈ s.serials, n < s.adds

theorem sound_init : Sound Sys.init where
  num := Nat.zero_le _
  distinct := List.nodup_nil
  fresh := fun _ h => absurd h List.not_mem_nil

theorem Sound.length {s : Sys} (h : Sound s) : s.events.length = s.bltTimer.currentNum :=
  BltSoftTimer.length_events h.num

/-- A table whose numbers are some of a sound table's is sound. -/
theorem Sound.of_subperm {s s' : Sys} (h : Sound s)
    (hn : s'.bltTimer.currentNum ≤ s.bltTimer.currentNum) (ha : s'.adds = s.adds)
    (hs : s'.serials.Subperm s.serials) : Sound s' where
  num := hn.trans h.num
  distinct := by
    obtain ⟨l, hl, hsub⟩ := hs
    exact hl.nodup_iff.mp (h.distinct.sublist hsub)
  fresh := fun n hn => ha ▸ h.fresh n (hs.subset hn)

theorem map_serial_modify (l : List BltTimeEvent) (i : Nat) (now : U32) (r : Int) :
    (l.modify i (BltTimeEvent.reschedule core now r)).map BltTimeEvent.serial =
      l.map BltTimeEvent.serial := by
  refine List.ext_getElem? fun x => ?_
  rw [List.getElem?_map, List.getElem?_map, List.getElem?_modify]
  cases l[x]? with
  | none => rfl
  | some e =>
      by_cases hx : i = x
      · simp [hx]
      · simp [hx]

theorem Sound.applyResult {s : Sys} (h : Sound s) (now : U32) (i : Nat) (r : Int) :
    Sound { s with bltTimer := applyResult core now i r s.bltTimer } := by
  refine h.of_subperm (applyResult_currentNum_le _ _ _ _) rfl ?_
  simp only [Sys.serials, Sys.events, applyResult_events h.num]
  split
  · exact ((List.eraseIdx_sublist _ _).map _).subperm
  · rw [map_serial_modify]

theorem Sound.sort {s : Sys} (h : Sound s) (w : Option U32) :
    Sound { s with bltTimer := (bltSoftTimerSort s.bltTimer).1, wakeup := w } :=
  h.of_subperm (Nat.le_of_eq (sort_currentNum _)) rfl ((sort_perm _).map _).subperm

theorem Sound.wakeup {s : Sys} (h : Sound s) (w : Option U32) : Sound { s with wakeup := w } :=
  h.of_subperm (Nat.le_refl _) rfl (List.Subperm.refl _)

theorem Sound.runCall {s : Sys} (h : Sound s) (c : TimerCall) : Sound (runCall core s c).1 := by
  cases c with
  | add now func us =>
      by_cases hfull : s.bltTimer.currentNum ≥ maxTimerNum
      · rw [SoftTimer.runCall, add_of_full hfull]
        exact h
      · have hroom : s.bltTimer.currentNum < maxTimerNum := by omega
        have hperm := (added_events core hroom now func us).map BltTimeEvent.serial
        rw [List.map_append] at hperm
        rw [SoftTimer.runCall, add_of_room hroom]
        refine ⟨(added_currentNum s now func us).trans_le hroom, ?_, fun n hn => ?_⟩
        · refine hperm.nodup_iff.mpr
            (List.nodup_append.mpr ⟨h.distinct, List.nodup_singleton _, ?_⟩)
          intro a ha b hb
          rw [List.mem_singleton.mp hb]
          exact Nat.ne_of_lt (h.fresh a ha)
        · rcases List.mem_append.mp (hperm.mem_iff.mp hn) with hold | hnew
          · exact (h.fresh n hold).trans (Nat.lt_succ_self _)
          · rw [List.mem_singleton.mp hnew]
            exact Nat.lt_succ_self _
  | delete now func =>
      rw [SoftTimer.runCall]
      cases hm : s.bltTimer.firstMatch func with
      | none => rw [delete_of_none hm]; exact h
      | some i =>
          rw [delete_of_some hm]
          refine h.of_subperm ?_ rfl ?_
          · rw [deleteByIndex_currentNum]; split <;> omega
          · simp only [Sys.serials, Sys.events, deleteByIndex_events h.num]
            exact ((List.eraseIdx_sublist _ _).map _).subperm

theorem Sound.runCalls {s : Sys} (h : Sound s) (calls : List TimerCall) :
    Sound (runCalls core s calls) :=
  Runs.invariant (f := fun s c => (SoftTimer.runCall core s c).1) (fun _ c h => h.runCall c) h calls

theorem Sound.processRound {now : U32} {beh : Behaviour} {l : Loop} (h : Sound l.sys) (i : Nat) :
    Sound (processRound core now beh l i).sys := by
  rw [SoftTimer.processRound]
  split
  · exact (h.runCalls _).applyResult now i _
  · exact h

theorem Sound.processRounds {s : Sys} (h : Sound s) (now : U32) (beh : Behaviour) (k : Nat) :
    Sound (processRounds core s now beh k).sys :=
  Runs.invariant (I := fun l : Loop => Sound l.sys) (fun _ i h => h.processRound i) h (List.range k)

theorem Sound.process {s : Sys} (h : Sound s) (now : U32) (beh : Behaviour) :
    Sound (bltSoftTimerProcess core s now beh).1 := by
  have hl : Sound (SoftTimer.processRounds core s now beh maxTimerNum).sys :=
    h.processRounds now beh maxTimerNum
  rw [bltSoftTimerProcess]
  split
  · exact h.wakeup _
  split
  · exact h
  simp only
  split
  · split
    · exact hl.sort _
    · exact hl.wakeup _
  · exact hl.wakeup _

theorem Sound.step {s : Sys} (h : Sound s) (op : Op) : Sound (step core s op) := by
  cases op with
  | call c => exact h.runCall c
  | process now beh => exact h.process now beh

/-- **Soundness of every run.** -/
theorem sound_run (ops : List Op) : Sound (Runs.runFrom (step core) Sys.init ops) :=
  Runs.invariant (fun _ op h => h.step op) sound_init ops

end TelinkB91.SoftTimer
