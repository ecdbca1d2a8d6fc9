import TelinkB91.SoftTimer.Drain
import TelinkB91.Lib.Circular
import Mathlib.Data.Multiset.AddSub

/-!
# Soft timer — the table stays sorted and loses no timer

The purpose of the table, without slots or numbers: a bag of timers, each with its callback, its
interval and its due time (`Pending`).  `RefStep` says what the operations do to the bag, given
what they let their caller see, and `Invoked` what a call of `blt_soft_timer_process` lets be seen.

The order of due times is the comparison `TIME_COMPARE_BIG` on a clock that wraps.  It is an order
only on times less than `2 ^ 30` ticks apart, so the runs considered are those whose live due times
lie, after each operation, in some window of that length (`InWindow`).

* `step_sorted`: such an operation keeps the table sorted.
* `step_ref`: on a sorted table every operation is a step of the reference model.
* `table_invariant`: the two along a run, from the empty table.
-/

namespace TelinkB91.SoftTimer
open LiveArray Runs

variable {core : McuCore}

/-! ### The reference model -/

/-- A timer: its callback, its interval and its due time. -/
structure Pending where
  cb : Callback
  interval : U32
  due : U32
  deriving DecidableEq, Repr

/-- The timer after its callback returned `result ≥ 0` at `now`: the same interval or the new one,
from `now` on. -/
def Pending.again (core : McuCore) (now : U32) (result : Int) (p : Pending) : Pending :=
  let interval := if result = 0 then p.interval
    else BitVec.ofInt 32 (result * core.systemTimerTick1us.toNat)
  ⟨p.cb, interval, now + interval⟩

/-- The timer an entry stands for. -/
def BltTimeEvent.pending (e : BltTimeEvent) : Pending := ⟨e.cb, e.interval, e.t⟩

/-- The timers of a table. -/
def Sys.pending (s : Sys) : Multiset Pending := (s.events.map BltTimeEvent.pending : List Pending)

/-- The timers whose callbacks ran. -/
def ran (log : List Invocation) : Multiset Pending :=
  (log.map fun c => c.1.pending : List Pending)

/-- Of those, the ones that run again, as they are afterwards. -/
def runAgain (core : McuCore) (now : U32) (log : List Invocation) : Multiset Pending :=
  (log.filterMap fun c =>
    if c.2 < 0 then none else some (c.1.pending.again core now c.2) : List Pending)

/-- The loop's test of a timer. -/
def Pending.isDue (core : McuCore) (now : U32) (p : Pending) : Bool :=
  bltIsTimerExpired core p.due now && p.cb != null

/-- No timer of the bag comes before this one. -/
def Pending.First (m : Multiset Pending) (p : Pending) : Prop :=
  p ∈ m ∧ ∀ q ∈ m, timeCompareBig q.due p.due = true

/-- What `blt_soft_timer_process` may run of a bag of timers: callbacks that are due, each with the
result it gave; none while the first timer's time has not come; and otherwise every one that is due,
but for at most one for each timer that is deleted by its result. -/
structure Invoked (core : McuCore) (now : U32) (beh : Behaviour) (m : Multiset Pending)
    (log : List Invocation) : Prop where
  due : ∀ c ∈ log, c.1.isDue core now = true
  result : ∀ c ∈ log, ∃ i, c.2 = (beh i c.1).result
  early : ∀ p : Pending, p.First m → bltIsTimerExpired core p.due now = false → log = []
  enough : ∀ p : Pending, p.First m → bltIsTimerExpired core p.due now = true →
    (m.filter fun p => p.isDue core now).card ≤
      log.length + (log.filter Invocation.deletes).length

/-- The reference model: what an operation with a given output does to the bag of timers. -/
inductive RefStep (core : McuCore) : Op → Output → Multiset Pending → Multiset Pending → Prop where
  | added {m : Multiset Pending} (now : U32) (func : Callback) (us : U32)
      (h : m.card < maxTimerNum) :
      RefStep core (.call (.add now func us)) (.ret 1) m
        (⟨func, us * core.systemTimerTick1us, now + us * core.systemTimerTick1us⟩ ::ₘ m)
  | full {m : Multiset Pending} (now : U32) (func : Callback) (us : U32)
      (h : m.card = maxTimerNum) : RefStep core (.call (.add now func us)) (.ret 0) m m
  | deleted {m : Multiset Pending} (now : U32) (func : Callback) (p : Pending)
      (h : p.cb = func) : RefStep core (.call (.delete now func)) (.ret 1) (p ::ₘ m) m
  | absent {m : Multiset Pending} (now : U32) (func : Callback) (h : ∀ p ∈ m, p.cb ≠ func) :
      RefStep core (.call (.delete now func)) (.ret 0) m m
  | processed {kept : Multiset Pending} (now : U32) (beh : Behaviour) (log : List Invocation)
      (h : Invoked core now beh (ran log + kept) log) :
      RefStep core (.process now beh) (.ran log) (ran log + kept) (runAgain core now log + kept)

/-! ### Order inside a window -/

/-- The due times of the entries lie in one window of `2 ^ 30` ticks. -/
def Windowed (es : List BltTimeEvent) : Prop := ∃ b, ∀ e ∈ es, Circular.Within b (2 ^ 30) e.t

/-- The entries are sorted by due time, as `TIME_COMPARE_BIG` compares them. -/
def SortedDue (es : List BltTimeEvent) : Prop :=
  es.Pairwise fun a b => timeCompareBig b.t a.t = true

theorem timeCompareBig_iff {b t₁ t₂ : U32} (h₁ : Circular.Within b (2 ^ 30) t₁)
    (h₂ : Circular.Within b (2 ^ 30) t₂) :
    timeCompareBig t₁ t₂ = true ↔ Circular.offset b t₂ ≤ Circular.offset b t₁ := by
  rw [timeCompareBig, decide_eq_true_iff]
  exact Circular.sub_lt_iff (by decide) h₁ h₂

theorem Windowed.perm {es es' : List BltTimeEvent} (h : Windowed es) (hp : es.Perm es') :
    Windowed es' := by
  obtain ⟨b, hb⟩ := h
  exact ⟨b, fun e he => hb e (hp.mem_iff.mpr he)⟩

/-- **Sorting.**  `blt_soft_timer_sort` sorts a table whose due times lie in a window. -/
theorem sort_sorted {b : BltSoftTimer} (hn : b.currentNum ≤ maxTimerNum) (h : Windowed b.events) :
    SortedDue (bltSoftTimerSort b).1.events := by
  obtain ⟨w, hw⟩ := h
  have hin : ∀ e ∈ (bltSoftTimerSort b).1.events, Circular.Within w (2 ^ 30) e.t :=
    fun e he => hw e ((sort_perm b).mem_iff.mp he)
  have hbig : BubbleSort.Compares (fun x y : BltTimeEvent => timeCompareBig x.t y.t)
      (fun e => Circular.Within w (2 ^ 30) e.t) (fun e => Circular.offset w e.t) :=
    fun x y hx hy => timeCompareBig_iff hx hy
  have hkeys : (bltSoftTimerSort b).1.events.Pairwise fun x y =>
      Circular.offset w x.t ≤ Circular.offset w y.t := by
    rw [bltSoftTimerSort]
    split
    · have hzero : b.currentNum = 0 := by omega
      rw [(BltSoftTimer.events_eq_nil hn).mpr hzero]
      exact .nil
    · exact BubbleSort.sort_sorted hbig hn hw
  exact hkeys.imp_of_mem fun hx hy hle => (timeCompareBig_iff (hin _ hy) (hin _ hx)).mpr hle

/-! ### What the loop keeps -/

section drain

variable {now : U32} {res : Nat → BltTimeEvent → Int}

/-- When nothing was rescheduled the loop has only deleted. -/
theorem drain_sublist {i : Nat} {es : List BltTimeEvent}
    (h : (drain core now res i es).changed = false) :
    (drain core now res i es).events.Sublist es := by
  induction i, es using drain.induct core now res with
  | case1 i => exact .slnil
  | case2 i e hdue hr =>
      rw [drain_last hdue hr]
      exact List.nil_sublist _
  | case3 i e hdue hr next es ih =>
      rw [drain_deleted hdue hr] at h ⊢
      exact ((ih h).cons_cons next).cons e
  | case4 i e es hdue hr ih =>
      rw [drain_rescheduled hdue hr] at h
      cases h
  | case5 i e es hdue ih =>
      rw [drain_waiting (Bool.not_eq_true _ ▸ hdue)] at h ⊢
      exact (ih h).cons_cons e

/-- The timers of a list of entries. -/
abbrev pendings (es : List BltTimeEvent) : Multiset Pending :=
  (es.map BltTimeEvent.pending : List Pending)

theorem pendings_perm {es es' : List BltTimeEvent} (h : es.Perm es') :
    pendings es = pendings es' :=
  Multiset.coe_eq_coe.mpr (h.map _)

theorem pendings_append (es es' : List BltTimeEvent) :
    pendings (es ++ es') = pendings es + pendings es' := by
  rw [pendings, List.map_append, ← Multiset.coe_add]

theorem ran_eq (log : List Invocation) : ran log = pendings (log.map fun c => c.1) := by
  rw [pendings, List.map_map]
  rfl

theorem pending_reschedule (r : Int) (e : BltTimeEvent) :
    (e.reschedule core now r).pending = e.pending.again core now r := by
  rw [BltTimeEvent.reschedule, Pending.again]
  split
  · rfl
  · rfl

theorem runAgain_eq (log : List Invocation) :
    runAgain core now log = pendings (log.filterMap (outcome core now)) := by
  rw [pendings, List.map_filterMap, runAgain]
  refine congrArg (fun f => ((log.filterMap f : List Pending) : Multiset Pending)) ?_
  funext c
  rw [outcome]
  split
  · rfl
  · exact congrArg some (pending_reschedule c.2 c.1).symm

end drain

/-! ### One operation -/

/-- The runs considered: callbacks leave the table alone, and the due times after the operation
lie in one window. -/
def InWindow (core : McuCore) (s : Sys) (op : Op) : Prop :=
  op.Quiet ∧ Windowed (step core s op).events

/-- A run of `blt_soft_timer_process` keeps the table sorted. -/
theorem process_sorted {s : Sys} (h : Sound s) (hs : SortedDue s.events) {now : U32}
    {beh : Behaviour} (hq : ∀ i e, (beh i e).calls = [])
    (hw : Windowed (bltSoftTimerProcess core s now beh).1.events) :
    SortedDue (bltSoftTimerProcess core s now beh).1.events := by
  rcases hhead : s.events.head? with _ | head
  · rw [process_idle (List.head?_eq_none_iff.mp hhead) h.num]
    exact hs
  · cases hexp : bltIsTimerExpired core head.t now with
    | false =>
        rw [process_early hhead h.num hexp]
        exact hs
    | true =>
        have hdone := process_due core beh hhead h.num hexp hq
        cases hc : (drain core now (fun i e => (beh i e).result) 0 s.events).changed with
        | false =>
            rw [hdone.unsorted hc]
            exact hs.sublist (drain_sublist hc)
        | true =>
            obtain ⟨b, hn, hb⟩ := hdone.sorted hc
            rw [Sys.events, hb] at hw ⊢
            exact sort_sorted hn (hw.perm (sort_perm b))

/-- **Order is kept.** -/
theorem step_sorted {s : Sys} (h : Sound s) (hs : SortedDue s.events) {op : Op}
    (hop : InWindow core s op) : SortedDue (step core s op).events := by
  obtain ⟨hq, hw⟩ := hop
  cases op with
  | process now beh => exact process_sorted h hs hq hw
  | call c =>
      cases c with
      | add now func us =>
          simp only [step, exec, runCall] at hw ⊢
          by_cases hfull : s.bltTimer.currentNum ≥ maxTimerNum
          · rw [add_of_full hfull]
            exact hs
          · have hroom : s.bltTimer.currentNum < maxTimerNum := by omega
            rw [add_of_room hroom] at hw ⊢
            exact sort_sorted hroom (hw.perm (sort_perm _))
      | delete now func =>
          simp only [step, exec, runCall]
          cases hm : s.bltTimer.firstMatch func with
          | none =>
              rw [delete_of_none hm]
              exact hs
          | some i =>
              rw [delete_of_some hm]
              rw [Sys.events, deleteByIndex_events h.num]
              exact hs.sublist (List.eraseIdx_sublist _ _)

theorem Sys.pending_eq {s : Sys} : s.pending = pendings s.events := rfl

theorem pending_card {s : Sys} (h : Sound s) : s.pending.card = s.bltTimer.currentNum := by
  rw [Sys.pending, Multiset.coe_card, List.length_map, h.length]

theorem timeCompareBig_antisymm {t₁ t₂ : U32} (h : timeCompareBig t₁ t₂ = true)
    (h' : timeCompareBig t₂ t₁ = true) : t₁ = t₂ := by
  rw [timeCompareBig, decide_eq_true_iff] at h h'
  bv_omega

/-- In a sorted table the first timer is due when slot 0 is. -/
theorem Pending.First.due_eq {s : Sys} (hs : SortedDue s.events) {head : BltTimeEvent}
    (hhead : s.events.head? = some head) {p : Pending} (hp : p.First s.pending) :
    p.due = head.t := by
  obtain ⟨es, hes⟩ := List.head?_eq_some_iff.mp hhead
  obtain ⟨hmem, hfirst⟩ := hp
  obtain ⟨e, he, rfl⟩ := List.mem_map.mp (Multiset.mem_coe.mp hmem)
  have hbefore : timeCompareBig head.t e.t = true := by
    refine hfirst head.pending (Multiset.mem_coe.mpr (List.mem_map_of_mem ?_))
    rw [hes]
    exact List.mem_cons_self
  rw [SortedDue, hes, List.pairwise_cons] at hs
  rw [hes] at he
  rcases List.mem_cons.mp he with rfl | he
  · rfl
  · exact timeCompareBig_antisymm (hs.1 e he) hbefore

/-- How many timers of a table are due. -/
theorem card_due (s : Sys) (now : U32) : (s.pending.filter fun p => p.isDue core now).card =
    (s.events.filter (BltTimeEvent.isDue core now)).length := by
  have htest : (fun p : Pending => decide (p.isDue core now = true)) ∘ BltTimeEvent.pending =
      BltTimeEvent.isDue core now := by
    funext e
    exact Bool.decide_eq_true
  rw [Sys.pending, Multiset.filter_coe, Multiset.coe_card, List.filter_map, List.length_map, htest]

/-- A run of `blt_soft_timer_process` on a sorted table is a step of the reference model. -/
theorem process_ref {s : Sys} (h : Sound s) (hs : SortedDue s.events) (now : U32)
    {beh : Behaviour} (hq : ∀ i e, (beh i e).calls = []) :
    RefStep core (.process now beh) (.ran (bltSoftTimerProcess core s now beh).2) s.pending
      (bltSoftTimerProcess core s now beh).1.pending := by
  have hidle : (∀ p : Pending, p.First s.pending → bltIsTimerExpired core p.due now = false) →
      RefStep core (.process now beh) (.ran []) s.pending s.pending := by
    intro hearly
    have hzero : ran [] + s.pending = s.pending := Multiset.zero_add _
    have hnone := @RefStep.processed core s.pending now beh [] {
      due := fun c hc => absurd hc List.not_mem_nil
      result := fun c hc => absurd hc List.not_mem_nil
      early := fun _ _ _ => rfl
      enough := fun p hp hexp => by
        rw [hzero] at hp
        exact absurd ((hearly p hp).symm.trans hexp) Bool.false_ne_true }
    rwa [hzero, show runAgain core now [] + s.pending = s.pending from Multiset.zero_add _] at hnone
  rcases hhead : s.events.head? with _ | head
  · have hnil := List.head?_eq_none_iff.mp hhead
    rw [process_idle hnil h.num]
    refine hidle fun p hp => ?_
    have hmem := hp.1
    rw [Sys.pending, hnil] at hmem
    exact absurd hmem (Multiset.notMem_zero p)
  · cases hexp : bltIsTimerExpired core head.t now with
    | false =>
        rw [process_early hhead h.num hexp]
        exact hidle fun p hp => hp.due_eq hs hhead ▸ hexp
    | true =>
        have henough := @drain_enough core now (fun i e => (beh i e).result) 0 s.events
        have hdone := process_due core beh hhead h.num hexp hq
        obtain ⟨kept, hbefore, hafter⟩ := drain_conserves core now
          (fun i e => (beh i e).result) 0 s.events
        have hbag : s.pending = ran (drain core now (fun i e => (beh i e).result) 0
            s.events).log + pendings kept := by
          rw [Sys.pending_eq, pendings_perm hbefore, pendings_append, ← ran_eq]
        have hruns : Invoked core now beh s.pending
            (drain core now (fun i e => (beh i e).result) 0 s.events).log := {
          due := fun c hc => (drain_log hc).1
          result := fun c hc => (drain_log hc).2
          early := fun p hp hearly =>
            absurd (hearly.symm.trans (hp.due_eq hs hhead ▸ hexp)) Bool.false_ne_true
          enough := fun _ _ _ => (card_due s now).trans_le henough }
        rw [hbag] at hruns
        rw [hdone.log, hbag, Sys.pending_eq, pendings_perm (hdone.perm.trans hafter),
          pendings_append, ← runAgain_eq]
        exact .processed now beh _ hruns

/-- **No timer is lost, duplicated or mixed up.**  On a sorted table every operation whose callbacks
leave it alone is a step of the reference model. -/
theorem step_ref {s : Sys} (h : Sound s) (hs : SortedDue s.events) {op : Op} (hq : op.Quiet) :
    RefStep core op (exec core s op).2 s.pending (step core s op).pending := by
  cases op with
  | process now beh => exact process_ref h hs now hq
  | call c =>
      cases c with
      | add now func us =>
          simp only [step, exec, runCall]
          by_cases hfull : s.bltTimer.currentNum ≥ maxTimerNum
          · rw [add_of_full hfull]
            exact .full now func us ((pending_card h).trans (Nat.le_antisymm h.num hfull))
          · have hroom : s.bltTimer.currentNum < maxTimerNum := by omega
            rw [add_of_room hroom]
            have hnew : pendings (s.added core now func us).events =
                ⟨func, us * core.systemTimerTick1us, now + us * core.systemTimerTick1us⟩ ::ₘ
                  s.pending := by
              rw [pendings_perm ((added_events core hroom now func us).trans
                (List.perm_append_singleton _ _))]
              rfl
            have hout : (Sys.mk (s.added core now func us)
                (some ((s.added core now func us).event 0).t) (s.adds + 1)).pending = _ := hnew
            rw [hout]
            exact .added now func us ((pending_card h).trans_lt hroom)
      | delete now func =>
          simp only [step, exec, runCall]
          cases hm : s.bltTimer.firstMatch func with
          | none =>
              rw [delete_of_none hm]
              refine .absent now func ?_
              intro p hp
              obtain ⟨e, he, rfl⟩ := List.mem_map.mp (Multiset.mem_coe.mp hp)
              exact firstMatch_eq_none h.num hm e he
          | some i =>
              obtain ⟨hi, hget, rfl⟩ := firstMatch_eq_some h.num hm
              rw [delete_of_some hm]
              have herase : s.pending = (s.bltTimer.event i).pending ::ₘ
                  pendings (bltSoftTimerDeleteByIndex s.bltTimer i).1.events := by
                rw [deleteByIndex_events h.num, Sys.pending_eq]
                obtain ⟨hlt, hval⟩ := List.getElem?_eq_some_iff.mp hget
                rw [← hval]
                exact pendings_perm (List.getElem_cons_eraseIdx_perm hlt).symm
              rw [herase]
              exact .deleted now _ _ rfl

/-! ### Every run -/

/-- **The table invariant.**  In every run in which callbacks leave the table alone and the due
times after each operation lie in one window: at most `maxTimerNum` timers are live, the table is
sorted by due time, and its timers are those of the reference model, driven by the same
operations and their outputs. -/
theorem table_invariant (core : McuCore) (ops : List Op)
    (h : Along (step core) (InWindow core) Sys.init ops) :
    let s := runFrom (step core) Sys.init ops
    s.bltTimer.currentNum ≤ maxTimerNum ∧ SortedDue s.events ∧
      Path (RefStep core) 0 (trace (exec core) Sys.init ops) s.pending := by
  have hstep : ∀ s op, Sound s ∧ SortedDue s.events → InWindow core s op →
      Sound (step core s op) ∧ SortedDue (step core s op).events :=
    fun s op hs hop => ⟨hs.1.step op, step_sorted hs.1 hs.2 hop⟩
  have hinv := h.invariant (I := fun s => Sound s ∧ SortedDue s.events) hstep ⟨sound_init, .nil⟩
  refine ⟨hinv.1.num, hinv.2, ?_⟩
  exact h.path (f := exec core) (I := fun s => Sound s ∧ SortedDue s.events) (g := Sys.pending)
    hstep (fun s op hs hop => step_ref hs.1 hs.2 hop.1) ⟨sound_init, .nil⟩

/-- Two timers set shortly before the clock wraps; one runs again, and the other is deleted by its
result. -/
theorem table_invariant_wrap :
    let ops : List Op := [.call (.add 0xFFFFFF00#32 1#32 100#32),
      .call (.add 0xFFFFFF10#32 2#32 10#32),
      .process 0xFFFFFFB0#32 (.ofResult fun e => if e.cb = 1#32 then -1 else 50)]
    let s := runFrom (step .b91) Sys.init ops
    s.bltTimer.currentNum ≤ maxTimerNum ∧ SortedDue s.events ∧
      Path (RefStep .b91) 0 (trace (exec .b91) Sys.init ops) s.pending :=
  table_invariant .b91 _
    ⟨⟨trivial, 0xFFFFFF00#32, by decide⟩, ⟨trivial, 0xFFFFFF00#32, by decide⟩,
      ⟨fun _ _ => rfl, 0xFFFFFF00#32, by decide +kernel⟩, trivial⟩

end TelinkB91.SoftTimer
