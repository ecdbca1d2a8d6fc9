import TelinkB91.SoftTimer.Order

/-!
# Soft timer — the wake-up and the table

The wake-up handed to the power manager should follow the table: none when the table is empty, and
the earliest due time once that is past or near.  The program sets it from slot 0 in four places,
and three of them go wrong: `blt_soft_timer_delete` reads slot 0 of a table it has just emptied; a
due time in the past is not "less than 3 s ahead" in unsigned arithmetic, and is taken for a far
one; and operations that set nothing leave a disabled wake-up disabled when the head comes near.

* `StepOk`: the operation, on the table as it is, goes none of these ways.
* `step_wakeup`: such an operation leaves the wake-up right.
* `wakeup_tracks_table`: so does every run of them.
* `delete_leaves_armed`: one timer, added and deleted, and the wake-up is still set.
-/

namespace TelinkB91.SoftTimer
open LiveArray Runs

variable {core : McuCore}

/-! ### When a wake-up is right -/

/-- `t` lies before `now`. -/
def Past (now t : U32) : Prop := (t - now).toInt < 0

/-- `t` lies less than 3 s after `now`: the program's test. -/
def Near (core : McuCore) (now t : U32) : Prop := t - now < 3000#32 * core.systemTimerTick1ms

instance (now t : U32) : Decidable (Past now t) := inferInstanceAs (Decidable (_ < _))

instance (now t : U32) : Decidable (Near core now t) := inferInstanceAs (Decidable (_ < _))

/-- No entry is due before `e`. -/
def Earliest (es : List BltTimeEvent) (e : BltTimeEvent) : Prop :=
  e ∈ es ∧ ∀ e' ∈ es, timeCompareBig e'.t e.t = true

/-- The wake-up agrees with the table, seen at `now`: it is disabled when the table is empty, set
for the earliest due time when that is past or near, and set for nothing but the due time of a live
entry. -/
structure WakeupOk (core : McuCore) (now : U32) (s : Sys) : Prop where
  empty : s.events = [] → s.wakeup = none
  soon : ∀ e, Earliest s.events e → Past now e.t ∨ Near core now e.t → s.wakeup = some e.t
  live : ∀ t, s.wakeup = some t → ∃ e ∈ s.events, e.t = t

/-! ### When an operation keeps it right -/

/-- An operation that sets no wake-up finds one set, if the head is past or near. -/
def Kept (core : McuCore) (now : U32) (s : Sys) : Prop :=
  ∀ head, s.events.head? = some head → Past now head.t ∨ Near core now head.t → s.wakeup ≠ none

/-- A deletion: of the only timer, when its due time is not near; of the head, when the next timer
is not past; and of no head, when it is kept. -/
structure DeleteOk (core : McuCore) (s : Sys) (now : U32) (func : Callback) : Prop where
  last : ∀ head, s.events = [head] → head.cb = func → ¬ Near core now head.t
  next : ∀ head next rest, s.events = head :: next :: rest → head.cb = func → ¬ Past now next.t
  other : (∀ head, s.events.head? = some head → head.cb ≠ func) → Kept core now s

/-- A walk over the table that leaves no past entry: none that waits is past, no new due time is
(an interval of half the clock's range or more), and no entry is that stands directly behind one
that goes, and is passed over. -/
inductive WalkOk (core : McuCore) (now : U32) (res : BltTimeEvent → Int) :
    List BltTimeEvent → Prop where
  | done : WalkOk core now res []
  | waits {e : BltTimeEvent} {es : List BltTimeEvent} (hdue : e.isDue core now = false)
      (ht : ¬ Past now e.t) (h : WalkOk core now res es) : WalkOk core now res (e :: es)
  | again {e : BltTimeEvent} {es : List BltTimeEvent} (hdue : e.isDue core now = true)
      (hr : 0 ≤ res e) (ht : (e.reschedule core now (res e)).interval.toNat < 2 ^ 31)
      (h : WalkOk core now res es) : WalkOk core now res (e :: es)
  | last {e : BltTimeEvent} (hdue : e.isDue core now = true) (hr : res e < 0) :
      WalkOk core now res [e]
  | goes {e next : BltTimeEvent} {es : List BltTimeEvent} (hdue : e.isDue core now = true)
      (hr : res e < 0) (ht : ¬ Past now next.t) (h : WalkOk core now res es) :
      WalkOk core now res (e :: next :: es)

/-- A call of `blt_soft_timer_process`: on a table whose head has not expired it sets nothing, and
otherwise it walks over the table. -/
def ProcessOk (core : McuCore) (s : Sys) (now : U32) (res : BltTimeEvent → Int) : Prop :=
  ∀ head, s.events.head? = some head →
    (bltIsTimerExpired core head.t now = false → Kept core now s) ∧
      (bltIsTimerExpired core head.t now = true → WalkOk core now res s.events)

/-- The condition on an operation, and on the table before it. -/
def StepOk (core : McuCore) (s : Sys) : Op → Prop
  | .call (.add now _ _) => s.bltTimer.currentNum = maxTimerNum → Kept core now s
  | .call (.delete now func) => DeleteOk core s now func
  | .process now beh => ProcessOk core s now fun e => (beh 0 e).result

/-- The callbacks an operation runs do nothing but return a value, which depends on the entry. -/
def Op.Returns : Op → Prop
  | .call _ => True
  | .process _ beh => ∃ res, beh = .ofResult res

/-! ### Slot 0 -/

/-- The head of a sorted table is the earliest timer. -/
theorem SortedDue.earliest_t {es : List BltTimeEvent} (hs : SortedDue es) {head e : BltTimeEvent}
    (hhead : es.head? = some head) (he : Earliest es e) : e.t = head.t := by
  obtain ⟨hmem, hall⟩ := he
  obtain ⟨rest, rfl⟩ := List.head?_eq_some_iff.mp hhead
  rcases List.mem_cons.mp hmem with rfl | hin
  · rfl
  · exact timeCompareBig_antisymm ((List.pairwise_cons.mp hs).1 e hin) (hall head (by simp))

theorem timeCompareBig_self (t : U32) : timeCompareBig t t = true := by
  simp [timeCompareBig]

theorem SortedDue.earliest_head {es : List BltTimeEvent} (hs : SortedDue es) {head : BltTimeEvent}
    (hhead : es.head? = some head) : Earliest es head := by
  obtain ⟨rest, rfl⟩ := List.head?_eq_some_iff.mp hhead
  refine ⟨List.mem_cons_self, List.forall_mem_cons.mpr ⟨timeCompareBig_self _, ?_⟩⟩
  exact (List.pairwise_cons.mp hs).1

/-- What is set is the due time of the head. -/
def Armed (s : Sys) : Prop :=
  ∀ t, s.wakeup = some t → ∃ head, s.events.head? = some head ∧ head.t = t

/-- On a sorted table the wake-up is right if it is the head's due time or none, and is none only
when there is no head, or one neither past nor near. -/
theorem wakeupOk_of_head {now : U32} {s : Sys} (hs : SortedDue s.events) (ha : Armed s)
    (hk : Kept core now s) : WakeupOk core now s where
  empty h := by
    rcases hw : s.wakeup with _ | t
    · rfl
    · obtain ⟨head, hhead, -⟩ := ha t hw
      rw [h] at hhead
      cases hhead
  soon e he hsoon := by
    rcases hhead : s.events.head? with _ | head
    · rw [List.head?_eq_none_iff.mp hhead] at he
      exact absurd he.1 List.not_mem_nil
    · rw [hs.earliest_t hhead he] at hsoon ⊢
      obtain ⟨t, ht⟩ := Option.ne_none_iff_exists'.mp (hk head hhead hsoon)
      obtain ⟨head', hhead', rfl⟩ := ha t ht
      rw [ht, Option.some.inj (hhead.symm.trans hhead')]
  live t ht := by
    obtain ⟨head, hhead, rfl⟩ := ha t ht
    exact ⟨head, List.mem_of_mem_head? hhead, rfl⟩

theorem WakeupOk.kept {now : U32} {s : Sys} (h : WakeupOk core now s) (hs : SortedDue s.events) :
    Kept core now s := fun head hhead hsoon => by
  rw [h.soon head (hs.earliest_head hhead) hsoon]
  exact Option.some_ne_none _

theorem armHead_near {b : BltSoftTimer} {now : U32} (h : Near core now (b.event 0).t) :
    armHead core b now = some (b.event 0).t := if_pos h

theorem armHead_far {b : BltSoftTimer} {now : U32} (h : ¬ Near core now (b.event 0).t) :
    armHead core b now = none := if_neg h

theorem marginPre_le : (bltTimerSafeMarginPre core).toNat ≤ 3072 := by
  cases core with
  | b91 => decide
  | b92 => decide

theorem marginPost_le : (bltTimerSafeMarginPost core).toNat ≤ 2 ^ 27 := by
  cases core with
  | b91 => decide
  | b92 => decide

theorem near_lt {now t : U32} (h : Near core now t) : (t - now).toNat < 2 ^ 27 := by
  have hle : (3000#32 * core.systemTimerTick1ms).toNat ≤ 2 ^ 27 := by
    cases core with
    | b91 => decide
    | b92 => decide
  exact (BitVec.lt_def.mp h).trans_le hle

theorem not_past_iff {now t : U32} : ¬ Past now t ↔ (t - now).toNat < 2 ^ 31 := by
  rw [Past, BitVec.toInt_neg_iff]
  omega

theorem Near.not_past {now t : U32} (h : Near core now t) : ¬ Past now t :=
  not_past_iff.mpr ((near_lt h).trans (by decide))

/-- A wake-up set from slot 0 of a table that is not empty is right if the head is not past. -/
theorem head_armed {s : Sys} {now : U32} {head : BltTimeEvent} (hhead : s.events.head? = some head)
    (hn : s.bltTimer.currentNum ≤ maxTimerNum) (hw : s.wakeup = armHead core s.bltTimer now)
    (hpast : ¬ Past now head.t) : Armed s ∧ Kept core now s := by
  obtain ⟨h₀, -⟩ := head_eq hhead hn
  subst h₀
  refine ⟨fun t ht => ⟨_, hhead, ?_⟩, fun x hx hsoon => ?_⟩
  · by_cases hnear : Near core now (s.bltTimer.event 0).t
    · rw [hw, armHead_near hnear] at ht
      exact Option.some.inj ht
    · rw [hw, armHead_far hnear] at ht
      cases ht
  · rw [← Option.some.inj (hhead.symm.trans hx)] at hsoon
    rw [hw, armHead_near (hsoon.resolve_left hpast)]
    exact Option.some_ne_none _

/-- A table left empty with no wake-up set. -/
theorem empty_armed {s : Sys} {now : U32} (h : s.events = []) (hw : s.wakeup = none) :
    Armed s ∧ Kept core now s := by
  refine ⟨fun t ht => ?_, fun head hhead _ => ?_⟩
  · rw [hw] at ht; cases ht
  · rw [h] at hhead; cases hhead

/-! ### Additions and deletions -/

theorem add_armed {s : Sys} (h : Sound s) (ha : Armed s) {now : U32} {func : Callback} {us : U32}
    (hok : s.bltTimer.currentNum = maxTimerNum → Kept core now s) :
    Armed (bltSoftTimerAdd core s now func us).1 ∧
      Kept core now (bltSoftTimerAdd core s now func us).1 := by
  by_cases hfull : s.bltTimer.currentNum ≥ maxTimerNum
  · rw [add_of_full hfull]
    exact ⟨ha, hok (Nat.le_antisymm h.num hfull)⟩
  · have hroom : s.bltTimer.currentNum < maxTimerNum := by omega
    have hlive : (s.added core now func us).events[0]? =
        some ((s.added core now func us).event 0) := by
      refine BltSoftTimer.events_getElem? ?_ ?_
      · rw [added_currentNum]; exact hroom
      · rw [added_currentNum]; exact Nat.succ_pos _
    rw [add_of_room hroom]
    refine ⟨fun t ht => ⟨_, List.head?_eq_getElem?.trans hlive, Option.some.inj ht⟩, ?_⟩
    exact fun _ _ _ => Option.some_ne_none _

theorem head_of_firstMatch {s : Sys} (h : Sound s) {func : Callback} {i : Nat}
    (hm : s.bltTimer.firstMatch func = some i) : s.events.head? ≠ none := by
  obtain ⟨-, hget, -⟩ := firstMatch_eq_some h.num hm
  rw [ne_eq, List.head?_eq_none_iff]
  exact List.ne_nil_of_mem (List.mem_of_getElem? hget)

/-- The search stops at slot 0 exactly when the head has the callback. -/
theorem firstMatch_zero {s : Sys} (h : Sound s) {head : BltTimeEvent}
    (hhead : s.events.head? = some head) {func : Callback} {i : Nat}
    (hm : s.bltTimer.firstMatch func = some i) : i = 0 ↔ head.cb = func := by
  obtain ⟨h₀, -⟩ := head_eq hhead h.num
  obtain ⟨-, -, hcb⟩ := firstMatch_eq_some h.num hm
  refine ⟨fun hi => by rw [← h₀, ← hi]; exact hcb, ?_⟩
  intro hc
  by_contra hi
  have hmin := (List.find?_range_eq_some.mp hm).2.2 0 (Nat.pos_of_ne_zero hi)
  rw [h₀, hc] at hmin
  simp at hmin

/-- Deleting the only entry leaves it in slot 0. -/
theorem event_of_emptied {b : BltSoftTimer} (h : b.currentNum = 1) :
    (bltSoftTimerDeleteByIndex b 0).1.event 0 = b.event 0 := by
  rw [bltSoftTimerDeleteByIndex, if_neg (by omega), h, BltSoftTimer.event, BltSoftTimer.event,
    getElem?_shiftDown _ (by decide), if_neg (by omega)]

section head

variable {s s' : Sys} {now : U32} {func : Callback} {head : BltTimeEvent}
  {rest : List BltTimeEvent}

/-- The table without its head: a list one shorter, in a table that still holds the head in slot 0
if it was the only entry. -/
theorem delete_head_events (h : Sound s) (hev : s.events = head :: rest)
    (hs' : s'.bltTimer = (bltSoftTimerDeleteByIndex s.bltTimer 0).1) :
    s'.bltTimer.currentNum ≤ maxTimerNum ∧ s'.events = rest ∧
      (rest = [] → s'.bltTimer.event 0 = head) := by
  refine ⟨?_, ?_, fun hrest => ?_⟩
  · rw [hs', deleteByIndex_currentNum]
    exact (ite_le_sup _ _ _).trans (sup_le ((Nat.sub_le _ _).trans h.num) h.num)
  · rw [Sys.events, hs', deleteByIndex_events h.num, ← Sys.events, hev, List.eraseIdx_cons_zero]
  · have hnum : s.bltTimer.currentNum = 1 := by rw [← h.length, hev, hrest]; rfl
    rw [hs', event_of_emptied hnum]
    exact (head_eq (by rw [hev]; rfl) h.num).1

/-- The deletion of the head. -/
theorem delete_head_armed (h : Sound s) (hok : DeleteOk core s now func)
    (hev : s.events = head :: rest) (hc : head.cb = func)
    (hs' : s'.bltTimer = (bltSoftTimerDeleteByIndex s.bltTimer 0).1)
    (hw : s'.wakeup = armHead core s'.bltTimer now) : Armed s' ∧ Kept core now s' := by
  obtain ⟨hn, hev', hstale⟩ := delete_head_events h hev hs'
  cases rest with
  | nil =>
      -- slot 0 still holds the timer that is gone, and only its distance saves the wake-up
      refine empty_armed hev' (hw.trans (armHead_far ?_))
      rw [hstale rfl]
      exact hok.last head hev hc
  | cons next rest =>
      exact head_armed (by rw [hev']; rfl) hn hw (hok.next head next rest hev hc)

/-- The deletion of the head, when it left the wake-up right. -/
theorem delete_head_ok (h : Sound s) (hev : s.events = head :: rest) (hc : head.cb = func)
    (hs' : s'.bltTimer = (bltSoftTimerDeleteByIndex s.bltTimer 0).1)
    (hw : s'.wakeup = armHead core s'.bltTimer now) (hk : Kept core now s')
    (hempty : s'.events = [] → s'.wakeup = none) : DeleteOk core s now func := by
  obtain ⟨hn, hev', hstale⟩ := delete_head_events h hev hs'
  refine ⟨fun x hx _ hnear => ?_, fun x next rest' hx _ hpast => ?_, fun hother => ?_⟩
  · obtain ⟨rfl, rfl⟩ := List.cons.inj (hev.symm.trans hx)
    rw [← hstale rfl] at hnear
    rw [hempty hev', armHead_near hnear] at hw
    cases hw
  · obtain ⟨rfl, rfl⟩ := List.cons.inj (hev.symm.trans hx)
    have hhead' : s'.events.head? = some next := by rw [hev']; rfl
    refine hk next hhead' (.inl hpast) (hw.trans (armHead_far fun hnear => ?_))
    rw [(head_eq hhead' hn).1] at hnear
    exact hnear.not_past hpast
  · exact absurd hc (hother head (by rw [hev]; rfl))

end head

/-- A deletion behind the head leaves the head. -/
theorem delete_behind_head {s : Sys} (h : Sound s) {i : Nat} (hi : i ≠ 0) :
    (bltSoftTimerDeleteByIndex s.bltTimer i).1.events.head? = s.events.head? := by
  obtain ⟨j, rfl⟩ := Nat.exists_eq_succ_of_ne_zero hi
  rw [deleteByIndex_events h.num, Sys.events]
  cases s.bltTimer.events with
  | nil => rfl
  | cons head rest => rfl

theorem armed_congr {s s' : Sys} (hhead : s'.events.head? = s.events.head?)
    (hw : s'.wakeup = s.wakeup) : Armed s' ↔ Armed s := by
  rw [Armed, Armed, hhead, hw]

theorem kept_congr {s s' : Sys} {now : U32} (hhead : s'.events.head? = s.events.head?)
    (hw : s'.wakeup = s.wakeup) : Kept core now s' ↔ Kept core now s := by
  rw [Kept, Kept, hhead, hw]

theorem delete_armed {s : Sys} (h : Sound s) (ha : Armed s) {now : U32} {func : Callback}
    (hok : DeleteOk core s now func) :
    Armed (bltSoftTimerDelete core s now func).1 ∧
      Kept core now (bltSoftTimerDelete core s now func).1 := by
  cases hm : s.bltTimer.firstMatch func with
  | none =>
      rw [delete_of_none hm]
      refine ⟨ha, hok.other fun head hhead => ?_⟩
      exact firstMatch_eq_none h.num hm head (List.mem_of_mem_head? hhead)
  | some i =>
      rw [delete_of_some hm]
      obtain ⟨head, hhead⟩ := Option.ne_none_iff_exists'.mp (head_of_firstMatch h hm)
      have hzero := firstMatch_zero h hhead hm
      by_cases h0 : i = 0
      · obtain ⟨rest, hev⟩ := List.head?_eq_some_iff.mp hhead
        exact delete_head_armed h hok hev (hzero.mp h0) (by rw [h0]) (if_pos h0)
      · have hk := hok.other fun x hx => by
          obtain rfl := Option.some.inj (hhead.symm.trans hx)
          exact fun hc => h0 (hzero.mpr hc)
        exact ⟨(armed_congr (delete_behind_head h h0) (if_neg h0)).mpr ha,
          (kept_congr (delete_behind_head h h0) (if_neg h0)).mpr hk⟩

/-- A deletion that leaves the wake-up right was one of those. -/
theorem delete_ok {s : Sys} (h : Sound s) {now : U32} {func : Callback}
    (hk : Kept core now (bltSoftTimerDelete core s now func).1)
    (hempty : (bltSoftTimerDelete core s now func).1.events = [] →
      (bltSoftTimerDelete core s now func).1.wakeup = none) : DeleteOk core s now func := by
  have elsewhere : (∀ head, s.events.head? = some head → head.cb ≠ func) → Kept core now s →
      DeleteOk core s now func := fun hno hks =>
    ⟨fun x hx hc => absurd hc (hno x (by rw [hx]; rfl)),
      fun x _ _ hx hc => absurd hc (hno x (by rw [hx]; rfl)), fun _ => hks⟩
  cases hm : s.bltTimer.firstMatch func with
  | none =>
      rw [delete_of_none hm] at hk
      refine elsewhere (fun head hhead => ?_) hk
      exact firstMatch_eq_none h.num hm head (List.mem_of_mem_head? hhead)
  | some i =>
      rw [delete_of_some hm] at hk hempty
      obtain ⟨head, hhead⟩ := Option.ne_none_iff_exists'.mp (head_of_firstMatch h hm)
      have hzero := firstMatch_zero h hhead hm
      by_cases h0 : i = 0
      · obtain ⟨rest, hev⟩ := List.head?_eq_some_iff.mp hhead
        exact delete_head_ok h hev (hzero.mp h0) (by rw [h0]) (if_pos h0) hk hempty
      · refine elsewhere (fun x hx hc => ?_) ?_
        · obtain rfl := Option.some.inj (hhead.symm.trans hx)
          exact h0 (hzero.mpr hc)
        · exact (kept_congr (delete_behind_head h h0) (if_neg h0)).mp hk

/-! ### A walk over the table -/

/-- **What a walk leaves.**  It meets `WalkOk` exactly when the loop leaves no past entry. -/
theorem walkOk_iff {now : U32} {res : BltTimeEvent → Int} (i : Nat) (es : List BltTimeEvent) :
    WalkOk core now res es ↔
      ∀ e ∈ (drain core now (fun _ e => res e) i es).events, ¬ Past now e.t := by
  induction i, es using drain.induct core now (fun _ e => res e) with
  | case1 i => exact ⟨fun _ e he => absurd he List.not_mem_nil, fun _ => .done⟩
  | case2 i e hdue hr =>
      rw [drain_last hdue hr]
      exact ⟨fun _ e he => absurd he List.not_mem_nil, fun _ => .last hdue hr⟩
  | case3 i e hdue hr next es ih =>
      rw [drain_deleted hdue hr, List.forall_mem_cons, ← ih]
      constructor
      · intro h
        cases h with
        | waits hd _ _ => rw [hdue] at hd; cases hd
        | again _ hr' _ _ => exact absurd hr (Int.not_lt.mpr hr')
        | goes _ _ ht h => exact ⟨ht, h⟩
      · rintro ⟨ht, h⟩
        exact .goes hdue hr ht h
  | case4 i e es hdue hr ih =>
      have hagain : ¬ Past now (e.reschedule core now (res e)).t ↔
          (e.reschedule core now (res e)).interval.toNat < 2 ^ 31 := by
        rw [not_past_iff, reschedule_t, add_sub_cancel_left]
      rw [drain_rescheduled hdue hr, List.forall_mem_cons, ← ih, hagain]
      constructor
      · intro h
        cases h with
        | waits hd _ _ => rw [hdue] at hd; cases hd
        | again _ _ ht h => exact ⟨ht, h⟩
        | last _ hr' => exact absurd hr' hr
        | goes _ hr' _ _ => exact absurd hr' hr
      · rintro ⟨ht, h⟩
        exact .again hdue (Int.not_lt.mp hr) ht h
  | case5 i e es hdue ih =>
      rw [drain_waiting (Bool.not_eq_true _ ▸ hdue), List.forall_mem_cons, ← ih]
      constructor
      · intro h
        cases h with
        | waits _ ht h => exact ⟨ht, h⟩
        | again hd _ _ _ => exact absurd hd hdue
        | last hd _ => exact absurd hd hdue
        | goes hd _ _ _ => exact absurd hd hdue
      · rintro ⟨ht, h⟩
        exact .waits (Bool.not_eq_true _ ▸ hdue) ht h

/-- In a window that holds a head whose time has come, nothing before a past due time is ahead. -/
theorem past_of_before {now b t₀ t t' : U32} (h₀ : bltIsTimerExpired core t₀ now = true)
    (hb₀ : Circular.Within b (2 ^ 30) t₀) (hb : Circular.Within b (2 ^ 30) t)
    (hb' : Circular.Within b (2 ^ 30) t') (hle : timeCompareBig t t' = true) (h : Past now t) :
    Past now t' := by
  by_contra hno
  rw [not_past_iff] at hno
  have hpast : ¬ (t - now).toNat < 2 ^ 31 := mt not_past_iff.mpr (not_not_intro h)
  have hpre : (bltTimerSafeMarginPre core).toNat ≤ 3072 := marginPre_le
  have hpost : (bltTimerSafeMarginPost core).toNat ≤ 2 ^ 27 := marginPost_le
  have h₀' : now + bltTimerSafeMarginPre core - t₀ < bltTimerSafeMarginPost core :=
    of_decide_eq_true h₀
  have hle' : (t - t').toNat < 2 ^ 30 := of_decide_eq_true hle
  simp only [Circular.Within, Circular.offset] at hb₀ hb hb'
  bv_omega

theorem process_armed {s : Sys} (h : Sound s) (ha : Armed s) {now : U32}
    {res : BltTimeEvent → Int} (hok : ProcessOk core s now res) :
    Armed (bltSoftTimerProcess core s now (.ofResult res)).1 ∧
      Kept core now (bltSoftTimerProcess core s now (.ofResult res)).1 := by
  rcases hhead : s.events.head? with _ | head
  · have hnil := List.head?_eq_none_iff.mp hhead
    rw [process_idle hnil h.num]
    exact empty_armed hnil rfl
  cases hexp : bltIsTimerExpired core head.t now with
  | false =>
      rw [process_early hhead h.num hexp]
      exact ⟨ha, (hok head hhead).1 hexp⟩
  | true =>
      have hdone := process_due core (.ofResult res) hhead h.num hexp
        fun _ _ => rfl
      rcases hhead' : (bltSoftTimerProcess core s now (.ofResult res)).1.events.head? with _ | head'
      · have hnil := List.head?_eq_none_iff.mp hhead'
        exact empty_armed hnil (hdone.disabled hnil)
      · have hmem := List.mem_of_mem_head? hhead'
        refine head_armed hhead' hdone.num (hdone.armed (List.ne_nil_of_mem hmem)) ?_
        exact (walkOk_iff 0 _).mp ((hok head hhead).2 hexp) head' (hdone.perm.mem_iff.mp hmem)

/-- A call that leaves the wake-up right was one of those, if all due times before and after it lie
in one window. -/
theorem process_ok {s : Sys} (h : Sound s) {now : U32} {res : BltTimeEvent → Int}
    (hk : Kept core now (bltSoftTimerProcess core s now (.ofResult res)).1)
    (hs : SortedDue (bltSoftTimerProcess core s now (.ofResult res)).1.events)
    (hw : Windowed (s.events ++ (bltSoftTimerProcess core s now (.ofResult res)).1.events)) :
    ProcessOk core s now res := by
  refine fun head hhead => ⟨fun hexp => ?_, fun hexp => ?_⟩
  · rwa [process_early hhead h.num hexp] at hk
  · have hdone := process_due core (.ofResult res) hhead h.num hexp
      fun _ _ => rfl
    refine (walkOk_iff 0 _).mpr fun e he hpast => ?_
    have hmem := hdone.perm.mem_iff.mpr he
    obtain ⟨head', hhead'⟩ := Option.ne_none_iff_exists'.mp
      (mt List.head?_eq_none_iff.mp (List.ne_nil_of_mem hmem))
    -- the earliest timer is then past as well, and the wake-up is disabled
    obtain ⟨b, hb⟩ := hw
    have hpast' : Past now head'.t :=
      past_of_before hexp (hb head (List.mem_append_left _ (List.mem_of_mem_head? hhead)))
        (hb e (List.mem_append_right _ hmem))
        (hb head' (List.mem_append_right _ (List.mem_of_mem_head? hhead')))
        ((hs.earliest_head hhead').2 e hmem) hpast
    refine hk head' hhead' (.inl hpast') ?_
    rw [hdone.armed (List.ne_nil_of_mem hmem)]
    refine armHead_far ?_
    intro hnear
    rw [(head_eq hhead' hdone.num).1] at hnear
    exact hnear.not_past hpast'

/-! ### Every run -/

/-- What holds between operations. -/
structure Inv (s : Sys) : Prop where
  sound : Sound s
  sorted : SortedDue s.events
  armed : Armed s

theorem inv_init : Inv Sys.init := ⟨sound_init, .nil, fun _ ht => nomatch ht⟩

/-- The runs considered: callbacks only return values, and the due times after the operation lie in
one window. -/
def Plain (core : McuCore) (s : Sys) (op : Op) : Prop :=
  op.Returns ∧ Windowed (step core s op).events

/-- The due times before the operation and those after it lie in one window. -/
def OneWindow (core : McuCore) (s : Sys) (op : Op) : Prop :=
  Windowed (s.events ++ (step core s op).events)

theorem Op.Returns.quiet {op : Op} (h : op.Returns) : op.Quiet := by
  cases op with
  | call c => trivial
  | process now beh =>
      obtain ⟨res, rfl⟩ := h
      exact fun _ _ => rfl

section step

variable {s : Sys} {op : Op}

/-- **One operation.**  It keeps what is set the head's due time, and sets it if the head is past or
near. -/
theorem step_armed (h : Inv s) (hret : op.Returns) (hok : StepOk core s op) :
    Armed (step core s op) ∧ Kept core op.now (step core s op) := by
  cases op with
  | call c =>
      cases c with
      | add now func us => exact add_armed h.sound h.armed hok
      | delete now func => exact delete_armed h.sound h.armed hok
  | process now beh =>
      obtain ⟨res, rfl⟩ := hret
      exact process_armed h.sound h.armed hok

theorem step_inv (h : Inv s) (hp : Plain core s op) (hok : StepOk core s op) :
    Inv (step core s op) where
  sound := h.sound.step op
  sorted := step_sorted h.sound h.sorted ⟨hp.1.quiet, hp.2⟩
  armed := (step_armed h hp.1 hok).1

/-- An operation that meets `StepOk` leaves the wake-up right. -/
theorem step_wakeup (h : Inv s) (hp : Plain core s op) (hok : StepOk core s op) :
    WakeupOk core op.now (step core s op) :=
  wakeupOk_of_head (step_inv h hp hok).sorted (step_inv h hp hok).armed
    (step_armed h hp.1 hok).2

/-- An operation that leaves the wake-up right meets `StepOk`. -/
theorem stepOk_of_wakeup (h : Inv s) (hp : Plain core s op) (ho : OneWindow core s op)
    (hw : WakeupOk core op.now (step core s op)) : StepOk core s op := by
  have hs := step_sorted h.sound h.sorted ⟨hp.1.quiet, hp.2⟩
  have hk := hw.kept hs
  cases op with
  | call c =>
      cases c with
      | add now func us =>
          intro hfull
          rwa [step, exec, runCall, add_of_full (Nat.le_of_eq hfull.symm)] at hk
      | delete now func => exact delete_ok h.sound hk hw.empty
  | process now beh =>
      obtain ⟨res, rfl⟩ := hp.1
      exact process_ok h.sound hk hs ho

end step

/-- **The wake-up follows the table, exactly.**  In every run whose callbacks only return values and
whose due times lie in one window after each operation: if the operations all meet `StepOk`, the
wake-up agrees with the table after each of them; and if it does, they all met `StepOk`, provided
each operation's window also holds the due times before it. -/
theorem wakeup_tracks_table (core : McuCore) (ops : List Op)
    (h : Along (step core) (Plain core) Sys.init ops) :
    (Along (step core) (StepOk core) Sys.init ops →
      Along (step core) (fun s op => WakeupOk core op.now (step core s op)) Sys.init ops) ∧
    (Along (step core) (OneWindow core) Sys.init ops →
      Along (step core) (fun s op => WakeupOk core op.now (step core s op)) Sys.init ops →
      Along (step core) (StepOk core) Sys.init ops) := by
  refine ⟨fun hok => ?_, fun ho hw => ?_⟩
  · exact (h.and hok).derive (I := Inv) (fun _ _ hs hop => step_inv hs hop.1 hop.2)
      (fun _ _ hs hop => step_wakeup hs hop.1 hop.2) inv_init
  · exact ((h.and ho).and hw).derive (I := Inv)
      (fun _ _ hs hop =>
        step_inv hs hop.1.1 (stepOk_of_wakeup hs hop.1.1 hop.1.2 hop.2))
      (fun _ _ hs hop => stepOk_of_wakeup hs hop.1.1 hop.1.2 hop.2) inv_init

/-- One timer that runs once and deletes itself by its result. -/
def oneShot : List Op :=
  [.call (.add 0#32 0x20000100#32 1000#32), .process 16000#32 (.ofResult fun _ => -1)]

theorem wakeup_tracks_table_oneShot : Along (step .b91)
    (fun s op => WakeupOk .b91 op.now (step .b91 s op)) Sys.init oneShot := by
  have hplain : Along (step .b91) (Plain .b91) Sys.init oneShot :=
    ⟨⟨trivial, 0#32, by decide⟩, ⟨⟨_, rfl⟩, 0#32, by decide +kernel⟩, trivial⟩
  refine (wakeup_tracks_table .b91 oneShot hplain).1
    ⟨fun hfull => ?_, fun head hhead => ?_, trivial⟩
  · exact absurd hfull (by decide)
  · have hev : (step .b91 Sys.init (.call (.add 0#32 0x20000100#32 1000#32))).events =
        [⟨0x20000100#32, 16000#32, 16000#32, 0⟩] := by decide +kernel
    rw [hev] at hhead ⊢
    obtain rfl := Option.some.inj hhead
    exact ⟨fun hexp => absurd hexp (by decide), fun _ => .last (by decide) (by decide)⟩

/-- One timer, added and deleted before it is due: the table is empty and the wake-up is set. -/
theorem delete_leaves_armed : ¬ ∀ (core : McuCore) (ops : List Op),
    Along (step core) (Plain core) Sys.init ops →
      Along (step core) (fun s op => WakeupOk core op.now (step core s op)) Sys.init ops := by
  intro h
  have hrun := h .b91 [.call (.add 0#32 0x20000100#32 1000#32), .call (.delete 0#32 0x20000100#32)]
    ⟨⟨trivial, 0#32, by decide⟩, ⟨trivial, 0#32, by decide⟩, trivial⟩
  exact absurd (hrun.2.1.empty (by decide +kernel)) (by decide +kernel)

end TelinkB91.SoftTimer
