import TelinkB91.SoftTimer.Table
import Mathlib.Data.List.Perm.Basic

/-!
# Soft timer — the loop over callbacks that leave the table alone

With such callbacks the loop of `blt_soft_timer_process` is a recursion on the list of live
entries (`drain`): an entry that is not due stays; one that is due runs, and stays rescheduled or
goes.  When it goes, its successor moves into its slot and the loop passes it over.

* `drain_conserves`: every entry either runs, and is gone or rescheduled, or stays as it is.
* `processRounds_quiet`: the loop of the code does what `drain` does.
* `process_idle`, `process_early`, `process_due`: the ways a call of `blt_soft_timer_process` goes.
-/

namespace TelinkB91.SoftTimer
open LiveArray

variable {core : McuCore}

/-- What the loop leaves: the live entries, the callbacks it ran, `change_flg`. -/
structure Drained where
  events : List BltTimeEvent
  log : List Invocation
  changed : Bool
  deriving DecidableEq, Repr

/-- The loop from round `i` on, over the live entries from slot `i` on.  `res i e` is what the
callback of `e` returns in round `i`. -/
def drain (core : McuCore) (now : U32) (res : Nat → BltTimeEvent → Int) :
    Nat → List BltTimeEvent → Drained
  | _, [] => ⟨[], [], false⟩
  | i, e :: es =>
      if e.isDue core now then
        if res i e < 0 then
          match es with
          | [] => ⟨[], [(e, res i e)], false⟩
          -- `next` moves into slot `i`, and round `i + 1` looks at the entry after it
          | next :: es =>
              let d := drain core now res (i + 1) es
              ⟨next :: d.events, (e, res i e) :: d.log, d.changed⟩
        else
          let d := drain core now res (i + 1) es
          ⟨e.reschedule core now (res i e) :: d.events, (e, res i e) :: d.log, true⟩
      else
        let d := drain core now res (i + 1) es
        ⟨e :: d.events, d.log, d.changed⟩

section equations

variable {now : U32} {res : Nat → BltTimeEvent → Int} {i : Nat} {e : BltTimeEvent}

theorem drain_waiting (h : e.isDue core now = false) (es : List BltTimeEvent) :
    drain core now res i (e :: es) =
      ⟨e :: (drain core now res (i + 1) es).events, (drain core now res (i + 1) es).log,
        (drain core now res (i + 1) es).changed⟩ := by
  rw [drain.eq_def]
  simp only [h]
  rfl

theorem drain_rescheduled (h : e.isDue core now = true) (hr : ¬ res i e < 0)
    (es : List BltTimeEvent) : drain core now res i (e :: es) =
      ⟨e.reschedule core now (res i e) :: (drain core now res (i + 1) es).events,
        (e, res i e) :: (drain core now res (i + 1) es).log, true⟩ := by
  rw [drain.eq_def]
  simp only [if_pos h, if_neg hr]

theorem drain_last (h : e.isDue core now = true) (hr : res i e < 0) :
    drain core now res i [e] = ⟨[], [(e, res i e)], false⟩ := by
  rw [drain, if_pos h, if_pos hr]

theorem drain_deleted (h : e.isDue core now = true) (hr : res i e < 0) (next : BltTimeEvent)
    (es : List BltTimeEvent) : drain core now res i (e :: next :: es) =
      ⟨next :: (drain core now res (i + 1) es).events,
        (e, res i e) :: (drain core now res (i + 1) es).log,
        (drain core now res (i + 1) es).changed⟩ := by
  rw [drain, if_pos h, if_pos hr]

/-- Only callbacks of due entries run, and each returns what it is given to return. -/
theorem drain_log {es : List BltTimeEvent} {c : Invocation}
    (hc : c ∈ (drain core now res i es).log) :
    c.1.isDue core now = true ∧ ∃ j, c.2 = res j c.1 := by
  induction i, es using drain.induct core now res with
  | case1 i => cases hc
  | case2 i e hdue hr =>
      rw [drain_last hdue hr] at hc
      rw [List.mem_singleton.mp hc]
      exact ⟨hdue, i, rfl⟩
  | case3 i e hdue hr next es ih =>
      rw [drain_deleted hdue hr] at hc
      rcases List.mem_cons.mp hc with rfl | hc
      · exact ⟨hdue, i, rfl⟩
      · exact ih hc
  | case4 i e es hdue hr ih =>
      rw [drain_rescheduled hdue hr] at hc
      rcases List.mem_cons.mp hc with rfl | hc
      · exact ⟨hdue, i, rfl⟩
      · exact ih hc
  | case5 i e es hdue ih =>
      rw [drain_waiting (Bool.not_eq_true _ ▸ hdue)] at hc
      exact ih hc

/-- The result deletes the timer. -/
def Invocation.deletes (c : Invocation) : Bool := c.2 < 0

/-- A due entry either runs, or is passed over because the one before it went. -/
theorem drain_enough (i : Nat) (es : List BltTimeEvent) :
    (es.filter (BltTimeEvent.isDue core now)).length ≤ (drain core now res i es).log.length +
      ((drain core now res i es).log.filter Invocation.deletes).length := by
  induction i, es using drain.induct core now res with
  | case1 i => exact Nat.zero_le _
  | case2 i e hdue hr =>
      rw [drain_last hdue hr, List.filter_cons_of_pos hdue]
      exact Nat.le_add_right 1 _
  | case3 i e hdue hr next es ih =>
      have hnext : ((next :: es).filter (BltTimeEvent.isDue core now)).length ≤
          (es.filter (BltTimeEvent.isDue core now)).length + 1 := by
        rw [List.filter_cons]
        split
        · exact Nat.le_refl _
        · exact Nat.le_succ _
      rw [drain_deleted hdue hr, List.filter_cons_of_pos hdue, List.length_cons]
      have hgone : Invocation.deletes (e, res i e) = true := decide_eq_true hr
      rw [List.length_cons, List.filter_cons_of_pos hgone, List.length_cons]
      omega
  | case4 i e es hdue hr ih =>
      rw [drain_rescheduled hdue hr, List.filter_cons_of_pos hdue, List.length_cons]
      have hstays : ¬Invocation.deletes (e, res i e) = true := fun h => hr (of_decide_eq_true h)
      rw [List.length_cons, List.filter_cons_of_neg hstays]
      omega
  | case5 i e es hdue ih =>
      rw [drain_waiting (Bool.not_eq_true _ ▸ hdue), List.filter_cons_of_neg hdue]
      exact ih

/-- What becomes of an entry whose callback ran. -/
def outcome (core : McuCore) (now : U32) (c : Invocation) : Option BltTimeEvent :=
  if c.2 < 0 then none else some (c.1.reschedule core now c.2)

theorem outcome_deleted {r : Int} (h : r < 0) : outcome core now (e, r) = none := if_pos h

theorem outcome_rescheduled {r : Int} (h : ¬ r < 0) :
    outcome core now (e, r) = some (e.reschedule core now r) := if_neg h

theorem outcome_eq_some {c : Invocation} {e' : BltTimeEvent} (h : outcome core now c = some e') :
    ¬ c.2 < 0 ∧ e' = c.1.reschedule core now c.2 := by
  rw [outcome] at h
  split at h
  · cases h
  · next hr => exact ⟨hr, (Option.some.inj h).symm⟩

/-- **Conservation in the loop.**  The entries that did not run stay as they are; those that ran
are gone or rescheduled. -/
theorem drain_conserves (core : McuCore) (now : U32) (res : Nat → BltTimeEvent → Int) (i : Nat)
    (es : List BltTimeEvent) : ∃ kept : List BltTimeEvent,
    es.Perm ((drain core now res i es).log.map (fun c => c.1) ++ kept) ∧
      (drain core now res i es).events.Perm
        ((drain core now res i es).log.filterMap (outcome core now) ++ kept) := by
  induction i, es using drain.induct core now res with
  | case1 i => exact ⟨[], .refl _, .refl _⟩
  | case2 i e hdue hr =>
      rw [drain_last hdue hr, List.filterMap_cons_none (outcome_deleted hr)]
      exact ⟨[], .refl _, .refl _⟩
  | case3 i e hdue hr next es ih =>
      obtain ⟨kept, hes, hev⟩ := ih
      rw [drain_deleted hdue hr, List.filterMap_cons_none (outcome_deleted hr)]
      refine ⟨next :: kept, ?_, ?_⟩
      · exact ((hes.cons next).trans List.perm_middle.symm).cons e
      · exact (hev.cons next).trans List.perm_middle.symm
  | case4 i e es hdue hr ih =>
      obtain ⟨kept, hes, hev⟩ := ih
      rw [drain_rescheduled hdue hr, List.filterMap_cons_some (outcome_rescheduled hr)]
      exact ⟨kept, hes.cons e, hev.cons _⟩
  | case5 i e es hdue ih =>
      obtain ⟨kept, hes, hev⟩ := ih
      rw [drain_waiting (Bool.not_eq_true _ ▸ hdue)]
      refine ⟨e :: kept, ?_, ?_⟩
      · exact (hes.cons e).trans List.perm_middle.symm
      · exact (hev.cons e).trans List.perm_middle.symm

/-- The entries whose callbacks ran are entries. -/
theorem drain_log_mem {es : List BltTimeEvent} {c : Invocation}
    (hc : c ∈ (drain core now res i es).log) : c.1 ∈ es := by
  obtain ⟨kept, hes, -⟩ := drain_conserves core now res i es
  exact hes.mem_iff.mpr (List.mem_append_left _ (List.mem_map_of_mem hc))

end equations

/-! ### The loop of the code -/

/-- The loop state `l'` is `l` with the entries, the log and the flag of `d` added. -/
structure Continues (l : Loop) (done : List BltTimeEvent) (d : Drained) (l' : Loop) : Prop where
  num : l'.sys.bltTimer.currentNum ≤ maxTimerNum
  events : l'.sys.events = done ++ d.events
  log : l'.log = l.log ++ d.log
  changed : l'.changeFlg = (l.changeFlg || d.changed)

section rounds

variable {now : U32} {beh : Behaviour} {l : Loop} {done es : List BltTimeEvent} {e : BltTimeEvent}

/-- Round `i` looks at the entry behind the first `i`. -/
theorem round_entry (hn : l.sys.bltTimer.currentNum ≤ maxTimerNum)
    (hl : l.sys.events = done ++ e :: es) :
    l.sys.bltTimer.event done.length = e ∧ done.length < l.sys.bltTimer.currentNum := by
  refine ⟨BltSoftTimer.event_eq ?_, ?_⟩
  · rw [← Sys.events, hl, List.getElem?_append_right (Nat.le_refl _), Nat.sub_self]
    rfl
  · rw [← BltSoftTimer.length_events hn, ← Sys.events, hl, List.length_append, List.length_cons]
    omega

theorem round_waiting (hn : l.sys.bltTimer.currentNum ≤ maxTimerNum)
    (hl : l.sys.events = done ++ e :: es) (h : e.isDue core now = false) :
    processRound core now beh l done.length = l := by
  obtain ⟨he, -⟩ := round_entry hn hl
  rw [processRound, fires, he, h, Bool.and_false]
  rfl

/-- The loop state after the callback of `e`, run in round `i`, has returned `r`. -/
abbrev Loop.fired (core : McuCore) (now : U32) (l : Loop) (i : Nat) (e : BltTimeEvent) (r : Int) :
    Loop :=
  { sys := { l.sys with bltTimer := applyResult core now i r l.sys.bltTimer }
    changeFlg := l.changeFlg || decide (0 ≤ r)
    log := l.log ++ [(e, r)] }

/-- A round whose callback leaves the table alone. -/
theorem round_fires (hn : l.sys.bltTimer.currentNum ≤ maxTimerNum)
    (hl : l.sys.events = done ++ e :: es) (h : e.isDue core now = true)
    (hq : ∀ i e, (beh i e).calls = []) :
    processRound core now beh l done.length =
      l.fired core now done.length e (beh done.length e).result := by
  obtain ⟨he, hlt⟩ := round_entry hn hl
  rw [processRound, fires, he, h, Bool.and_true, if_pos (decide_eq_true hlt)]
  simp only [hq]
  rfl

theorem round_past (h : l.sys.bltTimer.currentNum ≤ i) : processRound core now beh l i = l := by
  have hno : ¬ i < l.sys.bltTimer.currentNum := by omega
  rw [processRound, fires, decide_eq_false hno, Bool.false_and]
  rfl

/-- The next round, then the rounds behind it. -/
theorem rounds_cons {k i n : Nat} (hk : n + 1 ≤ k) :
    (List.range' i k).foldl (processRound core now beh) l =
      (List.range' (i + 1) (k - 1)).foldl (processRound core now beh)
        (processRound core now beh l i) := by
  have hk' : k = k - 1 + 1 := by omega
  rw [hk', List.range'_succ, List.foldl_cons, Nat.add_sub_cancel]

theorem rounds_past {k i : Nat} (h : l.sys.bltTimer.currentNum ≤ i) :
    (List.range' i k).foldl (processRound core now beh) l = l := by
  induction k generalizing i with
  | zero => rfl
  | succ k ih =>
      rw [List.range'_succ, List.foldl_cons, round_past h]
      exact ih (by omega)

/-- The table after a round that ran the callback of the entry behind `done`. -/
theorem fired_events (core : McuCore) (now : U32) (hn : l.sys.bltTimer.currentNum ≤ maxTimerNum)
    (hl : l.sys.events = done ++ e :: es) (r : Int) :
    (l.fired core now done.length e r).sys.events =
      if r < 0 then done ++ es else done ++ e.reschedule core now r :: es := by
  rw [Sys.events, applyResult_events hn, ← Sys.events, hl]
  split
  · rw [List.eraseIdx_append_of_length_le (Nat.le_refl _), Nat.sub_self, List.eraseIdx_cons_zero]
  · rw [List.modify_eq_take_drop, List.take_left, List.drop_left]
    rfl

/-- A round that ran a callback and left `x` in its slot, then the other rounds. -/
theorem Continues.after_fired {i : Nat} {r : Int} {x : BltTimeEvent} {d : Drained} {l' : Loop}
    (h : Continues (l.fired core now i e r) (done ++ [x]) d l') :
    Continues l done ⟨x :: d.events, (e, r) :: d.log, decide (0 ≤ r) || d.changed⟩ l' where
  num := h.num
  events := h.events.trans (List.append_cons _ _ _).symm
  log := h.log.trans (List.append_cons _ _ _).symm
  changed := h.changed.trans (Bool.or_assoc _ _ _)

end rounds

/-- **The loop is `drain`.**  The rounds from `done.length` on, over the entries behind `done`. -/
theorem rounds_quiet {now : U32} {beh : Behaviour} (hq : ∀ i e, (beh i e).calls = []) {k i : Nat}
    {es : List BltTimeEvent} {l : Loop} {done : List BltTimeEvent}
    (hn : l.sys.bltTimer.currentNum ≤ maxTimerNum) (hl : l.sys.events = done ++ es)
    (hi : done.length = i) (hk : es.length ≤ k) :
    Continues l done (drain core now (fun i e => (beh i e).result) i es)
      ((List.range' i k).foldl (processRound core now beh) l) := by
  have applied : ∀ {l : Loop} (i : Nat) (r : Int), l.sys.bltTimer.currentNum ≤ maxTimerNum →
      (applyResult core now i r l.sys.bltTimer).currentNum ≤ maxTimerNum :=
    fun i r h => (applyResult_currentNum_le now i r _).trans h
  induction i, es using drain.induct core now (fun i e => (beh i e).result)
      generalizing k l done with
  | case1 i =>
      rw [rounds_past]
      · exact ⟨hn, hl, (List.append_nil _).symm, (Bool.or_false _).symm⟩
      · rw [← BltSoftTimer.length_events hn, ← Sys.events, hl, List.append_nil, hi]
  | case2 i e hdue hr =>
      -- the last entry goes: every later round is past the table
      subst hi
      have hev := fired_events core now hn hl (beh done.length e).result
      rw [if_pos hr, List.append_nil] at hev
      rw [drain_last hdue hr, rounds_cons hk, round_fires hn hl hdue hq,
        rounds_past]
      · refine ⟨applied _ _ hn, hev.trans (List.append_nil _).symm, rfl, ?_⟩
        exact congrArg (l.changeFlg || ·) (decide_eq_false (Int.not_le.mpr hr))
      · rw [← BltSoftTimer.length_events (applied _ _ hn)]
        exact (congrArg List.length hev).trans_le (Nat.le_succ _)
  | case3 i e hdue hr next es ih =>
      -- its successor takes its slot and is done with
      subst hi
      have hev := fired_events core now hn hl (beh done.length e).result
      rw [if_pos hr, List.append_cons] at hev
      rw [drain_deleted hdue hr, rounds_cons hk, round_fires hn hl hdue hq]
      have hrest := (ih (k := k - 1)
        (l := l.fired core now done.length e (beh done.length e).result)
        (applied _ _ hn) hev List.length_append
        (by rw [List.length_cons, List.length_cons] at hk; omega)).after_fired
      rwa [decide_eq_false (Int.not_le.mpr hr), Bool.false_or] at hrest
  | case4 i e es hdue hr ih =>
      subst hi
      have hev := fired_events core now hn hl (beh done.length e).result
      rw [if_neg hr, List.append_cons] at hev
      rw [drain_rescheduled hdue hr, rounds_cons hk, round_fires hn hl hdue hq]
      have hrest := (ih (k := k - 1)
        (l := l.fired core now done.length e (beh done.length e).result)
        (applied _ _ hn) hev List.length_append (by rw [List.length_cons] at hk; omega)).after_fired
      rwa [decide_eq_true (Int.not_lt.mp hr), Bool.true_or] at hrest
  | case5 i e es hdue ih =>
      subst hi
      have hwait : e.isDue core now = false := Bool.not_eq_true _ ▸ hdue
      rw [drain_waiting hwait, rounds_cons hk, round_waiting hn hl hwait]
      obtain ⟨hnum, hevents, hlog, hchanged⟩ := ih (k := k - 1) hn
        (hl.trans (List.append_cons _ _ _)) List.length_append
        (by rw [List.length_cons] at hk; omega)
      exact ⟨hnum, hevents.trans (List.append_cons _ _ _).symm, hlog, hchanged⟩

/-- The whole loop, over callbacks that leave the table alone. -/
theorem processRounds_quiet (core : McuCore) {s : Sys} (hn : s.bltTimer.currentNum ≤ maxTimerNum)
    (now : U32) {beh : Behaviour} (hq : ∀ i e, (beh i e).calls = []) :
    Continues ⟨s, false, []⟩ [] (drain core now (fun i e => (beh i e).result) 0 s.events)
      (processRounds core s now beh maxTimerNum) := by
  rw [processRounds, List.range_eq_range']
  refine rounds_quiet hq hn rfl rfl ?_
  rw [Sys.events, BltSoftTimer.length_events hn]
  exact hn

/-! ### A call of `blt_soft_timer_process` -/

section process

variable {s : Sys} {now : U32} {beh : Behaviour}

theorem process_idle (h : s.events = []) (hn : s.bltTimer.currentNum ≤ maxTimerNum) :
    bltSoftTimerProcess core s now beh = ({ s with wakeup := none }, []) := by
  rw [bltSoftTimerProcess, if_pos ((BltSoftTimer.events_eq_nil hn).mp h)]

/-- Slot 0 of a table that is not empty. -/
theorem head_eq {head : BltTimeEvent} (h : s.events.head? = some head)
    (hn : s.bltTimer.currentNum ≤ maxTimerNum) :
    s.bltTimer.event 0 = head ∧ s.bltTimer.currentNum ≠ 0 := by
  refine ⟨BltSoftTimer.event_eq (List.head?_eq_getElem?.symm.trans h), fun h0 => ?_⟩
  rw [Sys.events, (BltSoftTimer.events_eq_nil hn).mpr h0] at h
  cases h

/-- The head's time has not come: nothing happens. -/
theorem process_early {head : BltTimeEvent} (h : s.events.head? = some head)
    (hn : s.bltTimer.currentNum ≤ maxTimerNum)
    (hexp : bltIsTimerExpired core head.t now = false) :
    bltSoftTimerProcess core s now beh = (s, []) := by
  obtain ⟨h₀, hne⟩ := head_eq h hn
  rw [bltSoftTimerProcess, if_neg hne, h₀, if_pos hexp]

theorem sort_empty {b : BltSoftTimer} (h : b.currentNum = 0) : (bltSoftTimerSort b).1 = b := by
  rw [bltSoftTimerSort, if_pos (by omega)]

/-- The head's time has come, and callbacks leave the table alone: the callbacks `d` names ran; the
table holds what `d` leaves, in the same order or sorted; the wake-up is set from its head. -/
structure Processed (core : McuCore) (now : U32) (d : Drained) (out : Sys × List Invocation) :
    Prop where
  log : out.2 = d.log
  num : out.1.bltTimer.currentNum ≤ maxTimerNum
  perm : out.1.events.Perm d.events
  unsorted : d.changed = false → out.1.events = d.events
  sorted : d.changed = true → ∃ b : BltSoftTimer, b.currentNum ≤ maxTimerNum ∧
    out.1.bltTimer = (bltSoftTimerSort b).1
  disabled : out.1.events = [] → out.1.wakeup = none
  armed : out.1.events ≠ [] → out.1.wakeup = armHead core out.1.bltTimer now

theorem process_due (core : McuCore) (beh : Behaviour) {head : BltTimeEvent}
    (h : s.events.head? = some head) (hn : s.bltTimer.currentNum ≤ maxTimerNum)
    (hexp : bltIsTimerExpired core head.t now = true)
    (hq : ∀ i e, (beh i e).calls = []) :
    Processed core now (drain core now (fun i e => (beh i e).result) 0 s.events)
      (bltSoftTimerProcess core s now beh) := by
  obtain ⟨hnum, hev, hlog, hchanged⟩ := processRounds_quiet core hn now hq
  obtain ⟨h₀, hne⟩ := head_eq h hn
  have hexp' : ¬ bltIsTimerExpired core (s.bltTimer.event 0).t now = false := by
    rw [h₀, hexp]; exact Bool.noConfusion
  rw [Bool.false_or] at hchanged
  rw [List.nil_append] at hev hlog
  rw [bltSoftTimerProcess, if_neg hne, if_neg hexp']
  simp only [hchanged, hlog]
  generalize processRounds core s now beh maxTimerNum = l at hnum hev hchanged ⊢
  generalize drain core now (fun i e => (beh i e).result) 0 s.events = d at hev hchanged ⊢
  by_cases h0 : l.sys.bltTimer.currentNum = 0
  · rw [if_neg (not_not_intro h0)]
    refine ⟨rfl, hnum, .of_eq hev, fun _ => hev, fun _ => ?_, fun _ => rfl, fun hno => ?_⟩
    · exact ⟨l.sys.bltTimer, hnum, (sort_empty h0).symm⟩
    · exact absurd ((BltSoftTimer.events_eq_nil hnum).mpr h0) hno
  · rw [if_pos h0]
    have hsorted : ∀ b : BltSoftTimer, b = (if d.changed then (bltSoftTimerSort l.sys.bltTimer).1
        else l.sys.bltTimer) → b.currentNum = l.sys.bltTimer.currentNum ∧
          b.events.Perm l.sys.events := by
      rintro b rfl
      split
      · exact ⟨sort_currentNum _, sort_perm _⟩
      · exact ⟨rfl, .refl _⟩
    obtain ⟨hcount, hperm⟩ := hsorted _ rfl
    refine ⟨rfl, hcount.trans_le hnum, hperm.trans (.of_eq hev), fun hc => ?_, fun hc => ?_,
      fun hnil => ?_, fun _ => rfl⟩
    · rw [Sys.events, hc]
      exact hev
    · exact ⟨l.sys.bltTimer, hnum, by rw [hc]; rfl⟩
    · exact absurd (hcount.symm.trans
        ((BltSoftTimer.events_eq_nil (hcount.trans_le hnum)).mp hnil)) h0

end process

end TelinkB91.SoftTimer
