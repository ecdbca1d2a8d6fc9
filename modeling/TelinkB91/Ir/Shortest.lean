import TelinkB91.Ir.Carrier

/-!
# Ir — the interval that is chosen

The comment in `ir_record` says that the shortest of the first ten intervals is chosen as the
carrier cycle.  `carr_cycle_interval` starts with 0, and an interval replaces it that is longer.

`checkedIn` are the intervals of a session that come to the check: those of the third edge and of
the edges behind it, up to a second gap in a row, which ends the recording before the check.

* `Longest.append`, `Checked.edge`: what an edge does to the interval that is chosen.
* `chooses_shortest_iff`: in every session the longest is chosen, so that it is the shortest just
  when all of them are equal.
* `gap_chosen`: a burst, a gap and a burst.
-/

namespace TelinkB91.Ir
open Runs

/-- The interval that an edge at the time `tm` is checked with, behind `k` edges. -/
def Ctrl.checkedBy (s : Ctrl) (k : Nat) (tm : U32) : List U32 :=
  if 2 ≤ k ∧ ¬(s.count tm).SecondGap then [tm - s.lastTriggerTmPoint] else []

/-- The intervals that are checked from `s` on, behind `k` edges of the session. -/
def checkedIn : Ctrl → Nat → List Op → List U32
  | _, _, [] => []
  | s, k, .detect now :: ops => checkedIn (irLearnDetect s now) k ops
  | s, k, .edge tm :: ops =>
      if s.Recording then s.checkedBy k tm ++ checkedIn (irLearnIrqHandler s tm) (k + 1) ops
      else checkedIn s k ops

/-- How many edges are recorded from `s` on. -/
def edgesIn : Ctrl → List Op → Nat
  | _, [] => 0
  | s, .detect now :: ops => edgesIn (irLearnDetect s now) ops
  | s, .edge tm :: ops =>
      if s.Recording then edgesIn (irLearnIrqHandler s tm) ops + 1 else edgesIn s ops

/-- The first ten of the intervals of a session. -/
def firstTen (now : U32) (ops : List Op) : List U32 := (checkedIn (irLearnStart now) 0 ops).take 10

/-- `carr_cycle_interval` is the shortest of the intervals, and no gap when there is one of the
carrier among them. -/
structure ChoosesShortest (s : Ctrl) (xs : List U32) : Prop where
  mem : s.carrCycleInterval ∈ xs
  le : ∀ x ∈ xs, s.carrCycleInterval ≤ x
  carrier : (∃ x ∈ xs, x < irLearnIntervalThreshold) →
    ¬irLearnIntervalThreshold < s.carrCycleInterval

/-! ### One step -/

/-- `m` is the longest of `xs`, or 0 when there is none. -/
structure Longest (m : U32) (xs : List U32) : Prop where
  le : ∀ x ∈ xs, x ≤ m
  mem : (xs = [] ∧ m = 0#32) ∨ m ∈ xs

/-- Behind `k` edges, with the intervals `xs` checked. -/
structure Checked (s : Ctrl) (k : Nat) (xs : List U32) : Prop where
  irq : s.irEnterIrqCnt = BitVec.ofNat 16 k
  cnt : s.carrCheckCnt.toNat = min 10 xs.length
  longest : Longest s.carrCycleInterval (xs.take 10)
  length : s.Recording → min 10 xs.length = min 10 (k - 2)
  carrier : s.Recording → k = 2 → s.carrOrNot = true
  some : 3 ≤ k → xs ≠ []

section checked

variable {s : Ctrl} {k : Nat} {xs : List U32}

/-- **One interval more.** -/
theorem Longest.append {m : U32} (h : Longest m xs) (x : U32) :
    Longest (if m < x then x else m) (xs ++ [x]) := by
  split_ifs with hlonger
  · refine ⟨fun y hy => ?_, .inr (List.mem_append_right xs (List.mem_singleton.mpr rfl))⟩
    rcases List.mem_append.mp hy with hy | hy
    · exact BitVec.le_trans (h.le y hy) (BitVec.le_of_lt hlonger)
    · exact BitVec.le_of_eq (List.mem_singleton.mp hy)
  · have hx : x ≤ m := BitVec.not_lt.mp hlonger
    refine ⟨fun y hy => ?_, .inr ?_⟩
    · rcases List.mem_append.mp hy with hy | hy
      · exact h.le y hy
      · rw [List.mem_singleton.mp hy]
        exact hx
    · -- Nothing is longer than 0 when there was no interval.
      rcases h.mem with ⟨rfl, rfl⟩ | hmem
      · refine List.mem_append_right _ (List.mem_singleton.mpr ?_)
        bv_omega
      · exact List.mem_append_left _ hmem

theorem checked_start (now : U32) : Checked (irLearnStart now) 0 [] where
  irq := rfl
  cnt := rfl
  longest := ⟨fun x hx => absurd hx List.not_mem_nil, .inl ⟨rfl, rfl⟩⟩
  length := fun _ => rfl
  carrier := fun _ h => absurd h (by decide)
  some := fun h => absurd h (by decide)

/-- What the intervals depend on. -/
theorem Checked.congr (h : Checked s k xs) {t : Ctrl} (hirq : t.irEnterIrqCnt = s.irEnterIrqCnt)
    (hcnt : t.carrCheckCnt = s.carrCheckCnt) (hcycle : t.carrCycleInterval = s.carrCycleInterval)
    (hcarr : t.carrOrNot = s.carrOrNot) (hrec : t.Recording → s.Recording) : Checked t k xs where
  irq := hirq.trans h.irq
  cnt := hcnt ▸ h.cnt
  longest := hcycle ▸ h.longest
  length := fun ht => h.length (hrec ht)
  carrier := fun ht hk => hcarr.trans (h.carrier (hrec ht) hk)
  some := h.some

theorem Checked.detect (h : Checked s k xs) (now : U32) : Checked (irLearnDetect s now) k xs := by
  rcases detect_cases s now with ⟨-, hdetect⟩ | ⟨-, -, hdetect⟩ | ⟨-, hdetect⟩ | hdetect
  · rw [hdetect]
    exact h.congr rfl rfl rfl rfl fun hrec => by rcases hrec with hrec | hrec <;> cases hrec
  · rw [hdetect]
    exact h.congr rfl rfl rfl rfl fun hrec => by rcases hrec with hrec | hrec <;> cases hrec
  · rw [hdetect]
    exact h.congr rfl rfl rfl rfl fun hrec => by rcases hrec with hrec | hrec <;> cases hrec
  · rw [hdetect]
    exact h

/-- The first ten are kept. -/
theorem Checked.keep (h : Checked s k xs) {t : Ctrl} {ys : List U32}
    (hys : ys = [] ∨ 10 ≤ xs.length) (hirq : t.irEnterIrqCnt = s.irEnterIrqCnt + 1)
    (hcnt : t.carrCheckCnt = s.carrCheckCnt) (hcycle : t.carrCycleInterval = s.carrCycleInterval)
    (hlength : t.Recording → min 10 (xs ++ ys).length = min 10 (k + 1 - 2))
    (hcarr : t.Recording → k + 1 = 2 → t.carrOrNot = true) (hsome : 3 ≤ k + 1 → xs ≠ []) :
    Checked t (k + 1) (xs ++ ys) := by
  have htake : (xs ++ ys).take 10 = xs.take 10 := by
    rcases hys with rfl | hten
    · rw [List.append_nil]
    · rw [List.take_append_of_le_length hten]
  have hmin : min 10 (xs ++ ys).length = min 10 xs.length := by
    have hlen := congrArg List.length htake
    rw [List.length_take, List.length_take] at hlen
    exact hlen
  refine ⟨?_, ?_, ?_, hlength, hcarr, fun hk => List.append_ne_nil_of_left_ne_nil (hsome hk) ys⟩
  · rw [hirq, h.irq, BitVec.ofNat_add]
    rfl
  · rw [hcnt, h.cnt, hmin]
  · rw [htake, hcycle]
    exact h.longest

/-- The number of an edge wraps, long behind the tenth check. -/
theorem Checked.number_wraps (h : Checked s k xs) (hrec : s.Recording) {n : Nat} (hn : n < 2)
    (hnumber : s.irEnterIrqCnt + 1 = BitVec.ofNat 16 (n + 1)) :
    k = n ∨ 10 ≤ xs.length ∧ 12 ≤ k := by
  have hlength := h.length hrec
  have hmod := congrArg BitVec.toNat hnumber
  have hone : (1 : U16).toNat = 1 := rfl
  rw [h.irq, BitVec.toNat_add, BitVec.toNat_ofNat, BitVec.toNat_ofNat, hone] at hmod
  omega

/-- Behind the tenth check, an edge that keeps the cycle. -/
theorem Checked.full (h : Checked s k xs) {t : Ctrl} (ys : List U32)
    (hfull : 10 ≤ xs.length ∧ 12 ≤ k) (hirq : t.irEnterIrqCnt = s.irEnterIrqCnt + 1)
    (hcnt : t.carrCheckCnt = s.carrCheckCnt) (hcycle : t.carrCycleInterval = s.carrCycleInterval) :
    Checked t (k + 1) (xs ++ ys) := by
  refine h.keep (.inr hfull.1) hirq hcnt hcycle (fun _ => ?_) (fun _ hk => by omega)
    (fun _ => List.ne_nil_of_length_pos (by omega))
  rw [List.length_append]
  omega

/-- An interval is checked. -/
theorem Checked.check (h : Checked s k xs) (hrec : s.Recording) (hk : 2 ≤ k) {t : Ctrl}
    (hirq : t.irEnterIrqCnt = s.irEnterIrqCnt + 1) {d : Ctrl}
    (hcycle : d.carrCycleInterval = s.carrCycleInterval) (hcheck : d.carrCheckCnt = s.carrCheckCnt)
    (ht : t = d.close) : Checked t (k + 1) (xs ++ [d.timeInterval]) := by
  have hlength := h.length hrec
  have hcycle' : t.carrCycleInterval = d.cycleAfter := by
    rw [ht, close_eq]
  have hcheck' : t.carrCheckCnt = d.checkAfter := by
    rw [ht, close_eq]
  by_cases hten : 10 ≤ xs.length
  · have hcnt := h.cnt
    have hfull : ¬d.carrCheckCnt < irCarrCheckCnt := by
      rw [hcheck, irCarrCheckCnt, BitVec.lt_def, hcnt, Nat.min_eq_left hten]
      decide
    exact h.full _ ⟨hten, by omega⟩ hirq (hcheck'.trans ((if_neg hfull).trans hcheck))
      (hcycle'.trans ((if_neg fun hless => hfull hless.1).trans hcycle))
  · have hless : d.carrCheckCnt < irCarrCheckCnt := by
      rw [hcheck, irCarrCheckCnt, BitVec.lt_def, h.cnt]
      exact (Nat.min_le_right 10 xs.length).trans_lt (Nat.not_le.mp hten)
    have hxs : xs.take 10 = xs := List.take_of_length_le (by omega)
    have htake : (xs ++ [d.timeInterval]).take 10 = xs ++ [d.timeInterval] := by
      refine List.take_of_length_le ?_
      rw [List.length_append, List.length_singleton]
      omega
    have hlongest := h.longest
    rw [hxs, ← hcycle] at hlongest
    rw [Ctrl.checkAfter, if_pos hless, hcheck] at hcheck'
    rw [Ctrl.cycleAfter] at hcycle'
    simp only [and_iff_right hless] at hcycle'
    refine ⟨?_, ?_, ?_, fun _ => ?_, fun _ hk' => by omega,
      fun _ => List.append_ne_nil_of_right_ne_nil xs (List.cons_ne_nil _ _)⟩
    · rw [hirq, h.irq, BitVec.ofNat_add]
      rfl
    · have hcnt := h.cnt
      rw [hcheck', List.length_append, List.length_singleton]
      bv_omega
    · rw [htake, hcycle']
      exact hlongest.append d.timeInterval
    · rw [List.length_append, List.length_singleton]
      omega

/-- **One edge.** -/
theorem Checked.edge (h : Checked s k xs) (hrec : s.Recording) (tm : U32) :
    Checked (irLearnIrqHandler s tm) (k + 1) (xs ++ s.checkedBy k tm) := by
  have hlength := h.length hrec
  have hnone : k < 2 → s.checkedBy k tm = [] := fun hk => if_neg fun hle => by omega
  rcases edge_cases hrec tm with ⟨hfirst, hedge⟩ | ⟨hsecond, hedge⟩ | ⟨hfirst, hsecond, hedge⟩
  · rw [hedge]
    rcases h.number_wraps hrec (by decide : 0 < 2) hfirst with rfl | hfull
    · rw [hnone (by decide)]
      refine h.keep (.inl rfl) rfl rfl rfl (fun _ => ?_) (fun _ hk => by omega) (fun hk => by omega)
      rw [List.append_nil]
      exact hlength
    · exact h.full _ hfull rfl rfl rfl
  · rw [hedge, Ctrl.secondEdge]
    rcases h.number_wraps hrec (by decide : 1 < 2) hsecond with rfl | hfull
    · rw [hnone (by decide)]
      split_ifs
      · refine h.keep (.inl rfl) rfl rfl rfl (fun _ => ?_) (fun hrec' => ?_) (fun hk => by omega)
        · rw [List.append_nil]
          exact hlength
        · rcases hrec' with hrec' | hrec' <;> cases hrec'
      · refine h.keep (.inl rfl) rfl rfl rfl (fun _ => ?_) (fun _ _ => rfl) (fun hk => by omega)
        rw [List.append_nil]
        exact hlength
    · split_ifs
      · exact h.full _ hfull rfl rfl rfl
      · exact h.full _ hfull rfl rfl rfl
  · have hk : 2 ≤ k := by
      rcases Nat.lt_or_ge k 2 with hlt | hge
      · have hnumber := h.irq
        obtain rfl | rfl : k = 0 ∨ k = 1 := by omega
        · exact absurd (congrArg (· + 1) hnumber) hfirst
        · exact absurd (congrArg (· + 1) hnumber) hsecond
      · exact hge
    have hirq := (otherEdge_keeps (s.count tm) tm).irEnterIrqCnt
    rw [hedge, Ctrl.checkedBy]
    rcases otherEdge_closes (s.count tm) tm with ⟨hgap, hother⟩ |
        ⟨hgap, d, hother, hcycle, hcheck, htime⟩
    · rw [if_neg fun hchecked => hchecked.2 hgap]
      refine h.keep (.inl rfl) hirq ?_ ?_ (fun hrec' => ?_) (fun _ hk' => by omega) (fun _ => ?_)
      · rw [hother]
        rfl
      · rw [hother]
        rfl
      · rw [hother] at hrec'
        rcases hrec' with hrec' | hrec' <;> cases hrec'
      · -- The third edge is not a second gap.
        rcases Nat.lt_or_ge k 3 with hlt | hge
        · have hcarr := h.carrier hrec (by omega)
          exact absurd (hgap.2.2.symm.trans hcarr) Bool.false_ne_true
        · exact h.some hge
    · rw [if_pos ⟨hk, hgap⟩]
      change d.timeInterval = tm - s.lastTriggerTmPoint at htime
      rw [← htime]
      exact h.check hrec hk hirq hcycle hcheck hother

/-- **A run.** -/
theorem Checked.run (h : Checked s k xs) (ops : List Op) :
    Checked (runFrom Ctrl.step s ops) (k + edgesIn s ops) (xs ++ checkedIn s k ops) := by
  induction ops generalizing s k xs with
  | nil =>
      rw [checkedIn, List.append_nil]
      exact h
  | cons op ops ih =>
      rw [runFrom_cons]
      cases op with
      | detect now => exact ih (h.detect now)
      | edge tm =>
          rw [Ctrl.step, checkedIn, edgesIn]
          by_cases hrec : s.Recording
          · have hnext := ih (h.edge hrec tm)
            rw [List.append_assoc, Nat.add_right_comm, Nat.add_assoc] at hnext
            rw [if_pos hrec, if_pos hrec]
            exact hnext
          · rw [if_neg hrec, if_neg hrec, edge_stopped hrec]
            exact ih h

/-- **The longest is chosen** among the first ten. -/
theorem longest_chosen (now : U32) (ops : List Op) (h : 3 ≤ edgesIn (irLearnStart now) ops) :
    (runFrom Ctrl.step (irLearnStart now) ops).carrCycleInterval ∈ firstTen now ops ∧
      ∀ x ∈ firstTen now ops, x ≤ (runFrom Ctrl.step (irLearnStart now) ops).carrCycleInterval := by
  have hrun := (checked_start now).run ops
  rw [Nat.zero_add, List.nil_append] at hrun
  refine ⟨hrun.longest.mem.resolve_left fun hnone => ?_, hrun.longest.le⟩
  exact hrun.some h ((List.take_eq_nil_iff.mp hnone.1).resolve_left (by decide))

end checked

/-- **The choice.**  In a session of at least three edges, the shortest of the first ten intervals
is chosen just when all of them are equal. -/
theorem chooses_shortest_iff (now : U32) (ops : List Op) (h : 3 ≤ edgesIn (irLearnStart now) ops) :
    ChoosesShortest (runFrom Ctrl.step (irLearnStart now) ops) (firstTen now ops) ↔
      ∀ x ∈ firstTen now ops, ∀ y ∈ firstTen now ops, x = y := by
  obtain ⟨hmem, hle⟩ := longest_chosen now ops h
  constructor
  · intro hshortest x hx y hy
    have hall : ∀ z ∈ firstTen now ops,
        z = (runFrom Ctrl.step (irLearnStart now) ops).carrCycleInterval :=
      fun z hz => BitVec.le_antisymm (hle z hz) (hshortest.le z hz)
    rw [hall x hx, hall y hy]
  · intro hequal
    refine ⟨hmem, fun x hx => ?_, ?_⟩
    · rw [hequal x hx _ hmem]
      exact BitVec.le_refl _
    · rintro ⟨x, hx, hless⟩
      rw [← hequal x hx _ hmem]
      exact BitVec.lt_asymm hless

/-- Four edges, 400 ticks apart. -/
theorem chooses_shortest_carrier :
    ChoosesShortest (runFrom Ctrl.step (irLearnStart 0#32)
      [.edge 0#32, .edge 400#32, .edge 800#32, .edge 1200#32])
      (firstTen 0#32 [.edge 0#32, .edge 400#32, .edge 800#32, .edge 1200#32]) := by
  have hten : firstTen 0#32 [.edge 0#32, .edge 400#32, .edge 800#32, .edge 1200#32] =
      [400#32, 400#32] := by decide +kernel
  refine (chooses_shortest_iff 0#32 [.edge 0#32, .edge 400#32, .edge 800#32, .edge 1200#32]
    (by decide +kernel)).mpr ?_
  rw [hten]
  simp

/-- **A gap is chosen.**  Behind a burst, a gap of 2000 ticks and a burst, the carrier cycle is that
of the gap. -/
theorem gap_chosen : ¬∀ (now : U32) (ops : List Op), 3 ≤ edgesIn (irLearnStart now) ops →
    ChoosesShortest (runFrom Ctrl.step (irLearnStart now) ops) (firstTen now ops) := by
  intro h
  have hshortest := h 0#32 (bursts 0 2) (by decide +kernel)
  have hcarrier : ∃ x ∈ firstTen 0#32 (bursts 0 2), x < irLearnIntervalThreshold :=
    ⟨400#32, by decide +kernel, by decide⟩
  exact hshortest.carrier hcarrier (by decide +kernel)

end TelinkB91.Ir
