import TelinkB91.SoftTimer.Drain
import Mathlib.Data.List.Chain

/-!
# Soft timer — which due callbacks a call of `blt_soft_timer_process` runs

The loop deletes from the table it walks over: when a callback's result deletes its entry, the
next entry moves into the slot just visited and the loop passes it over.  And the loop is entered
only when the entry in slot 0 has expired.  These are the only ways a due callback is missed.

* `drain_runs_due`: the loop runs every due callback exactly when no due entry stands directly
  behind one that its result deletes.
* `process_complete_iff`: so does a call on any table a run reaches, if moreover the head has
  expired when some entry is due.
* `process_misses_timer`: two timers due together, the first of which deletes itself.
-/

namespace TelinkB91.SoftTimer
open Runs

variable {core : McuCore} {now : U32} {res : BltTimeEvent → Int}

/-! ### What it means to serve a timer -/

/-- The callback of `e` ran once, its result is the one it is given, and the result was applied to
the entry: the table holds nothing under its number when the result is negative, and otherwise the
entry rescheduled. -/
structure Served (core : McuCore) (now : U32) (res : BltTimeEvent → Int)
    (after : List BltTimeEvent) (log : List Invocation) (e : BltTimeEvent) : Prop where
  once : log.filter (fun c => c.1.serial = e.serial) = [(e, res e)]
  applied : ∀ e', e' ∈ after ∧ e'.serial = e.serial ↔
    0 ≤ res e ∧ e' = e.reschedule core now (res e)

/-- A call of `blt_soft_timer_process` serves every entry that is due. -/
def Complete (core : McuCore) (s : Sys) (now : U32) (res : BltTimeEvent → Int) : Prop :=
  ∀ e ∈ s.events, e.isDue core now = true →
    Served core now res (bltSoftTimerProcess core s now (.ofResult res)).1.events
      (bltSoftTimerProcess core s now (.ofResult res)).2 e

/-- No due entry stands directly behind a due entry whose callback's result deletes it. -/
def NoneBehind (core : McuCore) (now : U32) (res : BltTimeEvent → Int) (es : List BltTimeEvent) :
    Prop :=
  es.IsChain fun e next => e.isDue core now = true → res e < 0 → next.isDue core now = false

/-- Nothing is missed: if some entry is due, the head has expired; and no due entry stands
directly behind one that goes. -/
structure NothingMissed (core : McuCore) (s : Sys) (now : U32) (res : BltTimeEvent → Int) :
    Prop where
  head : ∀ e ∈ s.events, e.isDue core now = true →
    ∀ head, s.events.head? = some head → bltIsTimerExpired core head.t now = true
  behind : NoneBehind core now res s.events

/-! ### The loop -/

/-- The loop over the live entries from slot `i` on, with results that depend on the entry. -/
abbrev drained (core : McuCore) (now : U32) (res : BltTimeEvent → Int) (i : Nat)
    (es : List BltTimeEvent) : Drained := drain core now (fun _ e => res e) i es

theorem nodup_serial_cons {e : BltTimeEvent} {es : List BltTimeEvent}
    (h : ((e :: es).map BltTimeEvent.serial).Nodup) :
    e ∉ es ∧ (es.map BltTimeEvent.serial).Nodup := by
  obtain ⟨hnew, hes⟩ := List.nodup_cons.mp h
  exact ⟨fun he => hnew (List.mem_map_of_mem he), hes⟩

theorem nodup_serial_cons_cons {e next : BltTimeEvent} {es : List BltTimeEvent}
    (h : ((e :: next :: es).map BltTimeEvent.serial).Nodup) :
    (e ≠ next ∧ e ∉ es) ∧ next ∉ es ∧ (es.map BltTimeEvent.serial).Nodup := by
  obtain ⟨he, hrest⟩ := nodup_serial_cons h
  rw [List.mem_cons, not_or] at he
  exact ⟨he, nodup_serial_cons hrest⟩

/-- Another entry's run is not the first of the log. -/
theorem log_of_cons {e x : BltTimeEvent} {es : List BltTimeEvent} {r : Int}
    {log : List Invocation} (he : e ∉ es) (hx : x ∈ es) (h : (x, res x) ∈ (e, r) :: log) :
    (x, res x) ∈ log := by
  rcases List.mem_cons.mp h with heq | hin
  · obtain rfl : x = e := congrArg Prod.fst heq
    exact absurd hx he
  · exact hin

/-- **Which callbacks run.**  Over entries with distinct numbers, the loop runs all the due ones
exactly when none stands directly behind one that goes. -/
theorem drain_runs_due (i : Nat) (es : List BltTimeEvent)
    (hes : (es.map BltTimeEvent.serial).Nodup) :
    (∀ e ∈ es, e.isDue core now = true → (e, res e) ∈ (drained core now res i es).log) ↔
      NoneBehind core now res es := by
  induction i, es using drain.induct core now (fun _ e => res e) with
  | case1 i => exact ⟨fun _ => .nil, fun _ e he => absurd he List.not_mem_nil⟩
  | case2 i e hdue hr =>
      refine ⟨fun _ => .singleton e, fun _ e' he' _ => ?_⟩
      rw [drained, drain_last hdue hr, List.mem_singleton.mp he']
      exact List.mem_singleton_self _
  | case3 i e hdue hr next es ih =>
      obtain ⟨⟨hne, hnotin⟩, hnext, hes'⟩ := nodup_serial_cons_cons hes
      rw [drained, drain_deleted hdue hr]
      refine ⟨fun h => ?_, fun h e' he' hdue' => ?_⟩
      · -- `next` is passed over, so it cannot be due
        have hwait : next.isDue core now = false := by
          by_contra hd
          rcases List.mem_cons.mp (h next (by simp) (Bool.not_eq_false _ ▸ hd)) with heq | hin
          · exact hne (congrArg Prod.fst heq).symm
          · exact hnext (drain_log_mem hin)
        refine List.isChain_cons_cons.mpr ⟨fun _ _ => hwait, List.isChain_cons.mpr ⟨?_, ?_⟩⟩
        · intro y _ hd
          rw [hwait] at hd
          cases hd
        · exact (ih hes').mp fun x hx hd => log_of_cons hnotin hx (h x (by simp [hx]) hd)
      · obtain ⟨hbehind, hrest⟩ := List.isChain_cons_cons.mp h
        rcases List.mem_cons.mp he' with rfl | he'
        · exact List.mem_cons_self
        rcases List.mem_cons.mp he' with rfl | he'
        · rw [hbehind hdue hr] at hdue'
          cases hdue'
        · exact List.mem_cons_of_mem _ ((ih hes').mpr hrest.tail e' he' hdue')
  | case4 i e es hdue hr ih =>
      obtain ⟨hnotin, hes'⟩ := nodup_serial_cons hes
      rw [drained, drain_rescheduled hdue hr]
      refine ⟨fun h => ?_, fun h e' he' hdue' => ?_⟩
      · refine List.isChain_cons.mpr ⟨fun _ _ _ hneg => absurd hneg hr, (ih hes').mp ?_⟩
        intro x hx hd
        exact log_of_cons hnotin hx (h x (List.mem_cons_of_mem _ hx) hd)
      · rcases List.mem_cons.mp he' with rfl | he'
        · exact List.mem_cons_self
        · exact List.mem_cons_of_mem _ ((ih hes').mpr h.tail e' he' hdue')
  | case5 i e es hdue ih =>
      obtain ⟨-, hes'⟩ := nodup_serial_cons hes
      have hwait : e.isDue core now = false := Bool.not_eq_true _ ▸ hdue
      rw [drained, drain_waiting hwait]
      refine ⟨fun h => ?_, fun h e' he' hdue' => ?_⟩
      · refine List.isChain_cons.mpr ⟨fun _ _ hd => absurd hd hdue, (ih hes').mp ?_⟩
        exact fun x hx hd => h x (List.mem_cons_of_mem _ hx) hd
      · rcases List.mem_cons.mp he' with rfl | he'
        · exact absurd hdue' hdue
        · exact (ih hes').mpr h.tail e' he' hdue'

/-- The callbacks that ran, each with an entry of its own, leave one invocation a number. -/
theorem filter_serial_eq {log : List Invocation}
    (h : (log.map fun c => c.1.serial).Nodup) {c : Invocation} (hc : c ∈ log) :
    log.filter (fun c' => c'.1.serial = c.1.serial) = [c] := by
  induction log with
  | nil => cases hc
  | cons c' log ih =>
      obtain ⟨hnew, hlog⟩ := List.nodup_cons.mp h
      rcases List.mem_cons.mp hc with rfl | hc
      · rw [List.filter_cons_of_pos (by simp), List.filter_eq_nil_iff.mpr]
        intro x hx heq
        exact hnew (List.mem_map.mpr ⟨x, hx, of_decide_eq_true heq⟩)
      · rw [List.filter_cons_of_neg, ih hlog hc]
        intro heq
        exact hnew (List.mem_map.mpr ⟨c, hc, (of_decide_eq_true heq).symm⟩)

/-- **What became of it.**  An entry whose callback the loop ran is served, in any rearrangement of
the table the loop leaves. -/
theorem served_of_log {i : Nat} {es after : List BltTimeEvent}
    (hes : (es.map BltTimeEvent.serial).Nodup)
    (hafter : after.Perm (drained core now res i es).events) {e : BltTimeEvent}
    (he : (e, res e) ∈ (drained core now res i es).log) :
    Served core now res after (drained core now res i es).log e := by
  obtain ⟨kept, hbefore, hevents⟩ := drain_conserves core now
    (fun _ e => res e) i es
  have hnodup := (hbefore.map BltTimeEvent.serial).nodup_iff.mp hes
  rw [List.map_append, List.map_map] at hnodup
  obtain ⟨hlog, -, hdisj⟩ := List.nodup_append.mp hnodup
  refine ⟨filter_serial_eq hlog he, fun e' => ⟨fun ⟨hin, hs⟩ => ?_, fun ⟨hr, heq⟩ => ?_⟩⟩
  · rcases List.mem_append.mp (hevents.mem_iff.mp (hafter.mem_iff.mp hin)) with hran | hkept
    · obtain ⟨c, hc, hout⟩ := List.mem_filterMap.mp hran
      obtain ⟨hr, rfl⟩ := outcome_eq_some hout
      have hsame : c ∈ (drained core now res i es).log.filter
          fun c' => c'.1.serial = e.serial :=
        List.mem_filter.mpr ⟨hc, decide_eq_true ((reschedule_serial _ _ _).symm.trans hs)⟩
      rw [filter_serial_eq hlog he] at hsame
      obtain rfl := List.mem_singleton.mp hsame
      exact ⟨Int.not_lt.mp hr, rfl⟩
    · exact absurd hs.symm (hdisj _ (List.mem_map_of_mem he) _ (List.mem_map_of_mem hkept))
  · subst heq
    refine ⟨hafter.mem_iff.mpr (hevents.mem_iff.mpr (List.mem_append_left _ ?_)),
      reschedule_serial _ _ _⟩
    exact List.mem_filterMap.mpr ⟨_, he, outcome_rescheduled (Int.not_lt.mpr hr)⟩

/-! ### A call on any table -/

/-- A call on a sound table serves every due entry exactly when nothing is missed. -/
theorem complete_iff {s : Sys} (h : Sound s) (now : U32) (res : BltTimeEvent → Int) :
    Complete core s now res ↔ NothingMissed core s now res := by
  rcases hhead : s.events.head? with _ | head
  · -- an empty table
    have hnil := List.head?_eq_none_iff.mp hhead
    refine ⟨fun _ => ⟨fun e he => ?_, ?_⟩, fun _ e he => ?_⟩
    · rw [hnil] at he; cases he
    · rw [hnil]; exact .nil
    · rw [hnil] at he; cases he
  cases hexp : bltIsTimerExpired core head.t now with
  | false =>
      -- the call returns at once: it is complete only if nothing is due
      have hproc : bltSoftTimerProcess core s now (.ofResult res) = _ :=
        process_early hhead h.num hexp
      have hnone : Complete core s now res → ∀ e ∈ s.events, e.isDue core now = false := by
        intro hc e he
        by_contra hd
        have hserved := (hc e he (Bool.not_eq_false _ ▸ hd)).once
        rw [hproc] at hserved
        cases hserved
      refine ⟨fun hc => ⟨fun e he hd => ?_, ?_⟩, fun hm e he hd => ?_⟩
      · rw [hnone hc e he] at hd; cases hd
      · exact (List.pairwise_of_forall_mem_list fun e _ next hnext _ _ =>
          hnone hc next hnext).isChain
      · have hfalse := hm.head e he hd head hhead
        rw [hexp] at hfalse; cases hfalse
  | true =>
      have hdone := process_due core (.ofResult res) hhead h.num hexp
        fun _ _ => rfl
      rw [Complete, hdone.log]
      refine ⟨fun hc => ⟨fun _ _ _ x hx => ?_, ?_⟩, fun hm e he hd => ?_⟩
      · obtain rfl : head = x := Option.some.inj (hhead.symm.trans hx)
        exact hexp
      · refine (drain_runs_due 0 s.events h.distinct).mp fun e he hd => ?_
        have honce := (hc e he hd).once
        have hin : (e, res e) ∈ [(e, res e)] := List.mem_singleton_self _
        rw [← honce] at hin
        exact (List.mem_filter.mp hin).1
      · exact served_of_log h.distinct hdone.perm
          ((drain_runs_due 0 s.events h.distinct).mpr hm.behind e he hd)

/-- **Completeness, exactly.**  On every table that a run of additions, deletions and process calls
reaches, whatever its callbacks did, a call of `blt_soft_timer_process` runs each due callback once
and applies its result, exactly when nothing is missed: the head has expired if an entry is due,
and no due entry stands directly behind a due entry whose callback returns a negative result. -/
theorem process_complete_iff (core : McuCore) (ops : List Op) (now : U32)
    (res : BltTimeEvent → Int) :
    Complete core (runFrom (step core) Sys.init ops) now res ↔
      NothingMissed core (runFrom (step core) Sys.init ops) now res :=
  complete_iff (sound_run ops) now res

/-- Two timers due at the same clock value; the callback of the first deletes its timer, and the
callback of the second does not run. -/
theorem process_misses_timer : ¬ ∀ (core : McuCore) (ops : List Op) (now : U32)
    (res : BltTimeEvent → Int), Complete core (runFrom (step core) Sys.init ops) now res := by
  intro h
  have hserved := h .b91 [.call (.add 0#32 0x20000100#32 1000#32),
    .call (.add 0#32 0x20000200#32 2000#32)] 32000#32
    (fun e => if e.cb = 0x20000100#32 then -1 else 0)
    ⟨0x20000200#32, 32000#32, 32000#32, 1⟩ (by decide +kernel) (by decide)
  exact absurd hserved.once (by decide +kernel)

end TelinkB91.SoftTimer
