import TelinkB91.SoftTimer.Drain

/-!
# Soft timer — callbacks that call back into the table

A callback may add and delete timers, its own included.  When it returns, the loop applies the
result to the slot it found the entry in, whatever that slot holds by then.

* `slotHeld_of_quiet`: a callback that leaves the table alone leaves its entry in that slot.
* `result_framed_iff`: the result reaches the entry whose callback ran, and no other, exactly when
  every live entry that is one of "in that slot" and "the entry that ran" is both, or is left as it
  is by the result.
* `self_delete_restarts_next`: a callback that deletes its own timer and returns 0 restarts the
  interval of the timer after it.
-/

namespace TelinkB91.SoftTimer
open LiveArray

variable {core : McuCore} {now : U32}

/-! ### Applying a result to a slot, and to an entry -/

/-- What the entry `e` in slot `j` becomes when `result` is applied to slot `i`. -/
def atSlot (core : McuCore) (now : U32) (i : Nat) (result : Int) (j : Nat) (e : BltTimeEvent) :
    Option BltTimeEvent :=
  if j = i then outcome core now (e, result) else some e

/-- What the entry `e` becomes when `result` is applied to the entry numbered `n`. -/
def ofEntry (core : McuCore) (now : U32) (n : Nat) (result : Int) (e : BltTimeEvent) :
    Option BltTimeEvent :=
  if e.serial = n then outcome core now (e, result) else some e

theorem outcome_serial {c : Invocation} {e' : BltTimeEvent} (h : outcome core now c = some e') :
    e'.serial = c.1.serial := by
  obtain ⟨-, rfl⟩ := outcome_eq_some h
  exact reschedule_serial _ _ _

theorem atSlot_serial {i j : Nat} {r : Int} {e e' : BltTimeEvent}
    (h : atSlot core now i r j e = some e') : e'.serial = e.serial := by
  rw [atSlot] at h
  split at h
  · exact outcome_serial h
  · rw [Option.some.inj h]

theorem ofEntry_serial {n : Nat} {r : Int} {e e' : BltTimeEvent}
    (h : ofEntry core now n r e = some e') : e'.serial = e.serial := by
  rw [ofEntry] at h
  split at h
  · exact outcome_serial h
  · rw [Option.some.inj h]

/-- A result leaves an entry as it is when it reschedules it to the due time it has. -/
theorem outcome_eq_self {r : Int} {e : BltTimeEvent} :
    outcome core now (e, r) = some e ↔ 0 ≤ r ∧ e.reschedule core now r = e := by
  rw [outcome]
  split
  · next hr =>
      constructor
      · intro h
        cases h
      · rintro ⟨hr', -⟩
        exact absurd hr' (Int.not_le.mpr hr)
  · next hr =>
      constructor
      · intro h
        exact ⟨Int.not_lt.mp hr, Option.some.inj h⟩
      · rintro ⟨-, h⟩
        exact congrArg some h

theorem mem_applyResult {b : BltSoftTimer} (hn : b.currentNum ≤ maxTimerNum) {i : Nat} {r : Int}
    {e' : BltTimeEvent} : e' ∈ (applyResult core now i r b).events ↔
      ∃ j e, b.events[j]? = some e ∧ atSlot core now i r j e = some e' := by
  rw [applyResult_events hn]
  split
  · next hr =>
      rw [List.mem_eraseIdx_iff_getElem?]
      refine exists_congr fun j => ⟨fun ⟨hj, he⟩ => ⟨e', he, if_neg hj⟩, fun ⟨e, he, h⟩ => ?_⟩
      by_cases hj : j = i
      · rw [atSlot, if_pos hj, outcome_deleted hr] at h
        cases h
      · rw [atSlot, if_neg hj] at h
        exact ⟨hj, he.trans h⟩
  · next hr =>
      rw [List.mem_iff_getElem?]
      refine exists_congr ?_
      intro j
      rw [List.getElem?_modify, Option.map_eq_map, Option.map_eq_some_iff]
      refine exists_congr fun e => and_congr_right fun _ => ?_
      rw [atSlot]
      by_cases hj : j = i
      · rw [if_pos hj, if_pos hj.symm, outcome_rescheduled hr, Option.some.injEq]
      · rw [if_neg hj, if_neg (Ne.symm hj), Option.some.injEq]

/-! ### Comparing the two -/

/-- Among entries with distinct numbers, a number is found in one slot only. -/
theorem slot_of_serial {l : List BltTimeEvent} (hl : (l.map BltTimeEvent.serial).Nodup) {j j' : Nat}
    {e e' : BltTimeEvent} (he : l[j]? = some e) (he' : l[j']? = some e')
    (hs : e.serial = e'.serial) : j' = j ∧ e' = e := by
  have hmap : (l.map BltTimeEvent.serial)[j']? = (l.map BltTimeEvent.serial)[j]? := by
    rw [List.getElem?_map, List.getElem?_map, he, he', Option.map_some, Option.map_some, hs]
  have hlt : j' < (l.map BltTimeEvent.serial).length := by
    rw [List.length_map]
    exact (List.getElem?_eq_some_iff.mp he').1
  obtain rfl := (List.getElem?_inj hlt hl).mp hmap
  exact ⟨rfl, Option.some.inj (he'.symm.trans he)⟩

/-- Two ways of rewriting a list entry by entry, keeping each entry's number, give the same table
exactly when they agree on every entry. -/
theorem perm_iff_agree {l a b : List BltTimeEvent} {f g : Nat → BltTimeEvent → Option BltTimeEvent}
    (hl : (l.map BltTimeEvent.serial).Nodup) (ha : a.Nodup) (hb : b.Nodup)
    (hfa : ∀ x, x ∈ a ↔ ∃ j e, l[j]? = some e ∧ f j e = some x)
    (hgb : ∀ x, x ∈ b ↔ ∃ j e, l[j]? = some e ∧ g j e = some x)
    (hf : ∀ {j e x}, f j e = some x → x.serial = e.serial)
    (hg : ∀ {j e x}, g j e = some x → x.serial = e.serial) :
    a.Perm b ↔ ∀ j e, l[j]? = some e → f j e = g j e := by
  rw [List.perm_ext_iff_of_nodup ha hb]
  -- what `f` and `g` make of an entry has its number, so both rewrote the same slot
  refine ⟨fun h j e he => Option.ext fun x => ⟨fun hx => ?_, fun hx => ?_⟩, fun h x => ?_⟩
  · obtain ⟨j', e', he', hx'⟩ := (hgb x).mp ((h x).mp ((hfa x).mpr ⟨j, e, he, hx⟩))
    obtain ⟨rfl, rfl⟩ := slot_of_serial hl he he' ((hf hx).symm.trans (hg hx'))
    exact hx'
  · obtain ⟨j', e', he', hx'⟩ := (hfa x).mp ((h x).mpr ((hgb x).mpr ⟨j, e, he, hx⟩))
    obtain ⟨rfl, rfl⟩ := slot_of_serial hl he he' ((hg hx).symm.trans (hf hx'))
    exact hx'
  · rw [hfa, hgb]
    exact exists_congr fun j => exists_congr fun e => and_congr_right fun he => by rw [h j e he]

/-! ### The round of a callback -/

section round

variable (core : McuCore) (now : U32) (beh : Behaviour) (l : Loop) (i : Nat)

/-- The entry whose callback round `i` runs. -/
def runEntry : BltTimeEvent := l.sys.bltTimer.event i

/-- The result of that callback. -/
def runResult : Int := (beh i (runEntry l i)).result

/-- The state when that callback returns, its own calls on the table done. -/
def returned : Sys := runCalls core l.sys (beh i (runEntry l i)).calls

/-- If round `i` runs a callback, what it leaves is the table the callback left with the result
applied to the entry whose callback ran, if that is still there, and to no other. -/
def ResultFramed : Prop :=
  fires core now l.sys.bltTimer i = true →
    (processRound core now beh l i).sys.events.Perm ((returned core beh l i).events.filterMap
      (ofEntry core now (runEntry l i).serial (runResult beh l i)))

/-- When the callback of round `i` returns, each live entry is both in slot `i` and the entry
whose callback ran, or neither; or the result leaves it as it is. -/
def SlotHeld : Prop :=
  fires core now l.sys.bltTimer i = true →
    ∀ j e, (returned core beh l i).events[j]? = some e →
      (j = i ↔ e.serial = (runEntry l i).serial) ∨
        0 ≤ runResult beh l i ∧ e.reschedule core now (runResult beh l i) = e

end round

theorem filterMap_serial_sublist {f : BltTimeEvent → Option BltTimeEvent}
    (hf : ∀ {e e'}, f e = some e' → e'.serial = e.serial) (l : List BltTimeEvent) :
    ((l.filterMap f).map BltTimeEvent.serial).Sublist (l.map BltTimeEvent.serial) := by
  induction l with
  | nil => exact .slnil
  | cons e l ih =>
      cases h : f e with
      | none =>
          rw [List.filterMap_cons_none h]
          exact ih.cons _
      | some e' =>
          rw [List.filterMap_cons_some h, List.map_cons, hf h]
          exact ih.cons_cons _

/-- The two rewrite one entry alike when it is both or neither, or the result does nothing to it. -/
theorem atSlot_eq_ofEntry {i j n : Nat} {r : Int} {e : BltTimeEvent} :
    atSlot core now i r j e = ofEntry core now n r e ↔
      (j = i ↔ e.serial = n) ∨ 0 ≤ r ∧ e.reschedule core now r = e := by
  rw [atSlot, ofEntry, ← outcome_eq_self]
  by_cases hj : j = i
  · by_cases hn : e.serial = n
    · simp [hj, hn]
    · simp [hj, hn]
  · by_cases hn : e.serial = n
    · simp [hj, hn, eq_comm]
    · simp [hj, hn]

/-- A round from a sound state. -/
theorem round_framed_iff {beh : Behaviour} {l : Loop} (h : Sound l.sys) (i : Nat) :
    ResultFramed core now beh l i ↔ SlotHeld core now beh l i := by
  refine imp_congr_right ?_
  intro hfires
  have hs : Sound (returned core beh l i) := h.runCalls _
  have hround : (processRound core now beh l i).sys.events =
      (applyResult core now i (runResult beh l i) (returned core beh l i).bltTimer).events := by
    rw [processRound, if_pos hfires]
    rfl
  have hleft : (processRound core now beh l i).sys.events.Nodup :=
    ((h.processRound i).distinct).of_map _
  have hright := (hs.distinct.sublist (filterMap_serial_sublist
    (f := ofEntry core now (runEntry l i).serial (runResult beh l i)) ofEntry_serial _)).of_map _
  have hmem : ∀ x, x ∈ (returned core beh l i).events.filterMap
      (ofEntry core now (runEntry l i).serial (runResult beh l i)) ↔
        ∃ j e, (returned core beh l i).events[j]? = some e ∧
          ofEntry core now (runEntry l i).serial (runResult beh l i) e = some x := fun x => by
    rw [List.mem_filterMap]
    constructor
    · rintro ⟨e, he, hx⟩
      obtain ⟨j, hj⟩ := List.mem_iff_getElem?.mp he
      exact ⟨j, e, hj, hx⟩
    · rintro ⟨j, e, he, hx⟩
      exact ⟨e, List.mem_of_getElem? he, hx⟩
  rw [perm_iff_agree (f := atSlot core now i (runResult beh l i))
    (g := fun _ => ofEntry core now (runEntry l i).serial (runResult beh l i))
    hs.distinct hleft hright (fun x => by rw [hround]; exact mem_applyResult hs.num) hmem
    atSlot_serial ofEntry_serial]
  exact forall_congr' fun j => forall_congr' fun e => imp_congr_right fun _ => atSlot_eq_ofEntry

/-- A callback that makes no call on the table leaves its entry where the loop found it. -/
theorem slotHeld_of_quiet {beh : Behaviour} {l : Loop} (h : Sound l.sys) {i : Nat}
    (hq : (beh i (runEntry l i)).calls = []) : SlotHeld core now beh l i := by
  intro hfires j e he
  rw [returned, hq] at he
  have hlive : i < l.sys.bltTimer.currentNum :=
    of_decide_eq_true (Bool.and_eq_true_iff.mp hfires).1
  have hslot : l.sys.events[i]? = some (runEntry l i) :=
    BltSoftTimer.events_getElem? h.num hlive
  refine .inl ⟨fun hj => ?_, fun hs => ?_⟩
  · subst hj
    rw [Option.some.inj (he.symm.trans hslot)]
  · exact (slot_of_serial h.distinct hslot he hs.symm).1

/-- **What a result reaches, exactly.**  In any round of a call of `blt_soft_timer_process` on any
sound table, whatever the callbacks of this and the earlier rounds did to the table: the result is
applied to the entry whose callback ran, and to no other, exactly when the slot is held. -/
theorem result_framed_iff (core : McuCore) {s : Sys} (h : Sound s) (now : U32) (beh : Behaviour)
    (i : Nat) : ResultFramed core now beh (processRounds core s now beh i) i ↔
      SlotHeld core now beh (processRounds core s now beh i) i :=
  round_framed_iff (h.processRounds now beh i) i

/-- Two timers, set at 0: one due after 1 ms, the other after 90 ms. -/
def twoTimers : Sys :=
  Runs.runFrom (step .b91) Sys.init
    [.call (.add 0#32 0x20000100#32 1000#32), .call (.add 0#32 0x20000200#32 90000#32)]

/-- The callback of the first deletes its own timer, and returns 0. -/
def selfDelete : Behaviour := fun _ e =>
  ⟨if e.cb = 0x20000100#32 then [.delete 16000#32 0x20000100#32] else [], 0⟩

theorem result_framed_iff_selfDelete :
    ResultFramed .b91 16000#32 selfDelete
        (processRounds .b91 twoTimers 16000#32 selfDelete 0) 0 ↔
      SlotHeld .b91 16000#32 selfDelete
        (processRounds .b91 twoTimers 16000#32 selfDelete 0) 0 :=
  result_framed_iff .b91 (sound_run _) 16000#32 selfDelete 0

/-- The second timer is the one whose interval starts again. -/
theorem self_delete_restarts_next : ¬ ∀ (core : McuCore) (s : Sys), Sound s → ∀ (now : U32)
    (beh : Behaviour) (i : Nat), ResultFramed core now beh (processRounds core s now beh i) i := by
  intro h
  -- the callback's own deletion has moved the second entry into slot 0
  have hround := h .b91 twoTimers (sound_run _) 16000#32 selfDelete 0 (by decide +kernel)
  have hmem := (hround.mem_iff (a := ⟨0x20000200#32, 1440000#32, 1440000#32, 1⟩)).mpr
    (by decide +kernel)
  exact absurd hmem (by decide +kernel)

end TelinkB91.SoftTimer
