import TelinkB91.Ir.Learn

/-!
# Ir — the buffer of the recording

`wave_series_buf` has a hundred entries.  An edge that opens the next entry writes to it, and only
then looks whether there is one.

* `edge_index`: the entries that one edge uses.
* `in_bounds_iff`: all are inside the buffer just when no edge opens an entry behind the last.
* `fifty_first_burst`: fifty bursts and fifty gaps, and one edge more.
-/

namespace TelinkB91.Ir
open Runs

/-- The edge opens the next entry: the carrier starts again behind a gap, or a gap has ended behind
a burst. -/
def Opens (s : Ctrl) (tm : U32) : Prop :=
  s.irEnterIrqCnt + 1 ≠ 1#16 ∧ s.irEnterIrqCnt + 1 ≠ 2#16 ∧
    ((tm - s.lastTriggerTmPoint < irLearnIntervalThreshold ∧ s.carrOrNot = false) ∨
      (irLearnIntervalThreshold < tm - s.lastTriggerTmPoint ∧
        tm - s.lastTriggerTmPoint < irLearnEndThreshold ∧ s.carrOrNot = true))

instance (s : Ctrl) (tm : U32) : Decidable (Opens s tm) :=
  inferInstanceAs (Decidable (_ ∧ _ ∧ ((_ ∧ _) ∨ (_ ∧ _ ∧ _))))

/-- No entry is opened behind the last. -/
def Unfilled (s : Ctrl) : Op → Prop
  | .edge tm => s.Recording → Opens s tm → s.waveSeriesCnt.toNat + 1 < maxSectionNumber
  | .detect _ => True

instance (s : Ctrl) : (op : Op) → Decidable (Unfilled s op)
  | .edge _ => inferInstanceAs (Decidable (_ → _ → _))
  | .detect _ => inferInstanceAs (Decidable True)

/-- Every index that was used is inside the buffer. -/
def Ctrl.InBounds (s : Ctrl) : Prop := ∀ i ∈ s.used, i < maxSectionNumber

/-- What one edge does to the indices: the entry in use stays and is used, or the next one is opened
and used. -/
structure Indexed (s t : Ctrl) (opens : Prop) : Prop where
  stays : ¬opens → t.waveSeriesCnt = s.waveSeriesCnt
  opened : opens → t.waveSeriesCnt = s.waveSeriesCnt + 1 ∧ t.waveSeriesCnt.toNat ∈ t.used
  kept : s.used <+: t.used
  used : ∀ i ∈ t.used, i ∈ s.used ∨ i = s.waveSeriesCnt.toNat ∨ i = t.waveSeriesCnt.toNat

section steps

variable {s : Ctrl}

theorem Indexed.same {t : Ctrl} {opens : Prop} (hopens : ¬opens)
    (hcnt : t.waveSeriesCnt = s.waveSeriesCnt) (hused : t.used = s.used) : Indexed s t opens :=
  ⟨fun _ => hcnt, fun h => absurd h hopens, hused ▸ List.prefix_rfl, fun _ hi => .inl (hused ▸ hi)⟩

/-- **The entries one edge uses.** -/
theorem edge_index (hrec : s.Recording) (tm : U32) :
    Indexed s (irLearnIrqHandler s tm) (Opens s tm) := by
  rcases edge_cases hrec tm with ⟨h₁, hedge⟩ | ⟨h₂, hedge⟩ | ⟨h₁, h₂, hedge⟩
  · rw [hedge]
    exact .same (fun h => h.1 h₁) rfl rfl
  · rw [hedge, Ctrl.secondEdge]
    split_ifs
    · exact .same (fun h => h.2.1 h₂) rfl rfl
    · exact .same (fun h => h.2.1 h₂) rfl rfl
  · have horder : irLearnIntervalThreshold < irLearnEndThreshold := by decide
    rw [hedge]
    rcases otherEdge_cases (s.count tm) tm with ⟨hlt, hother⟩ | ⟨hgt, hlt, hcarr, hother⟩ |
      ⟨hgt, hlt, hcarr, hother⟩ | ⟨hgt, hother⟩ | ⟨heq, hother⟩
    · change tm - s.lastTriggerTmPoint < _ at hlt
      rw [hother, close_eq, carrier_eq]
      cases hcarr : s.carrOrNot with
      | false =>
          have hindex : (s.count tm).carrierIndex = s.waveSeriesCnt + 1 := if_pos hcarr
          refine ⟨fun h => absurd ⟨h₁, h₂, .inl ⟨hlt, hcarr⟩⟩ h, fun _ => ⟨hindex, ?_⟩,
            List.prefix_append _ _, ?_⟩
          · exact List.mem_append_right _ List.mem_cons_self
          · intro i hi
            rcases List.mem_append.mp hi with hi | hi
            · exact .inl hi
            · exact .inr (.inr (List.mem_singleton.mp hi))
      | true =>
          have hindex : (s.count tm).carrierIndex = s.waveSeriesCnt :=
            if_neg (by change ¬s.carrOrNot = false; rw [hcarr]; decide)
          have hopens : ¬Opens s tm := by
            rintro ⟨-, -, ⟨-, hno⟩ | ⟨hgt, -, -⟩⟩
            · rw [hcarr] at hno
              exact nomatch hno
            · bv_omega
          refine ⟨fun _ => hindex, fun h => absurd h hopens, List.prefix_append _ _, ?_⟩
          intro i hi
          rcases List.mem_append.mp hi with hi | hi
          · exact .inl hi
          · exact .inr (.inr (List.mem_singleton.mp hi))
    · rw [hother, close_eq, gap_eq]
      refine ⟨fun h => absurd ⟨h₁, h₂, .inr ⟨hgt, hlt, hcarr⟩⟩ h, fun _ => ⟨rfl, ?_⟩, ?_, ?_⟩
      · exact List.mem_append_right _ List.mem_cons_self
      · exact (List.prefix_append _ _).trans (List.prefix_append _ _)
      · intro i hi
        rcases List.mem_append.mp hi with hi | hi
        · rcases List.mem_append.mp hi with hi | hi
          · exact .inl hi
          · exact .inr (.inl (List.mem_singleton.mp hi))
        · exact .inr (.inr (List.mem_singleton.mp hi))
    · rw [hother]
      refine .same ?_ rfl rfl
      rintro ⟨-, -, ⟨hlt', -⟩ | ⟨-, -, hyes⟩⟩
      · change irLearnIntervalThreshold < tm - s.lastTriggerTmPoint at hgt
        bv_omega
      · exact nomatch hyes.symm.trans hcarr
    · rw [hother, close_eq]
      refine .same ?_ rfl rfl
      change irLearnEndThreshold < tm - s.lastTriggerTmPoint at hgt
      rintro ⟨-, -, ⟨hlt, -⟩ | ⟨-, hlt, -⟩⟩
      · bv_omega
      · bv_omega
    · rw [hother, close_eq]
      refine .same ?_ rfl rfl
      change tm - s.lastTriggerTmPoint = _ ∨ tm - s.lastTriggerTmPoint = _ at heq
      rintro ⟨-, -, ⟨hlt, -⟩ | ⟨hgt, hlt, -⟩⟩
      · bv_omega
      · bv_omega

/-- `ir_learn_detect` uses the entry before the last. -/
theorem detect_index (s : Ctrl) (now : U32) :
    (irLearnDetect s now).waveSeriesCnt = s.waveSeriesCnt ∧ s.used <+: (irLearnDetect s now).used ∧
      ∀ i ∈ (irLearnDetect s now).used, i ∈ s.used ∨ i = s.waveSeriesCnt.toNat - 1 := by
  rcases detect_cases s now with ⟨-, hdetect⟩ | ⟨-, -, hdetect⟩ | ⟨-, hdetect⟩ | hdetect
  · rw [hdetect]
    exact ⟨rfl, List.prefix_rfl, fun _ hi => .inl hi⟩
  · rw [hdetect]
    refine ⟨rfl, List.prefix_append _ _, fun i hi => ?_⟩
    exact (List.mem_append.mp hi).imp_right List.mem_singleton.mp
  · rw [hdetect]
    exact ⟨rfl, List.prefix_rfl, fun _ hi => .inl hi⟩
  · rw [hdetect]
    exact ⟨rfl, List.prefix_rfl, fun _ hi => .inl hi⟩

/-- The entry in use is inside the buffer, as all before it were. -/
structure Within (s : Ctrl) : Prop where
  cnt : s.waveSeriesCnt.toNat < maxSectionNumber
  used : s.InBounds

theorem toNat_succ (h : s.waveSeriesCnt.toNat < maxSectionNumber) :
    (s.waveSeriesCnt + 1).toNat = s.waveSeriesCnt.toNat + 1 := by
  rw [maxSectionNumber] at h
  bv_omega

/-- **One step** that opens no entry behind the last. -/
theorem Within.step (h : Within s) {op : Op} (hop : Unfilled s op) : Within (s.step op) := by
  cases op with
  | edge tm =>
      rw [Ctrl.step]
      by_cases hrec : s.Recording
      · obtain ⟨hstays, hopened, -, hused⟩ := edge_index hrec tm
        have hcnt : (irLearnIrqHandler s tm).waveSeriesCnt.toNat < maxSectionNumber := by
          by_cases hopens : Opens s tm
          · rw [(hopened hopens).1, toNat_succ h.cnt]
            exact hop hrec hopens
          · rw [hstays hopens]
            exact h.cnt
        refine ⟨hcnt, fun i hi => ?_⟩
        rcases hused i hi with hi | rfl | rfl
        · exact h.used i hi
        · exact h.cnt
        · exact hcnt
      · rw [edge_stopped hrec]
        exact h
  | detect now =>
      obtain ⟨hcnt, -, hused⟩ := detect_index s now
      refine ⟨hcnt ▸ h.cnt, fun i hi => ?_⟩
      rcases hused i hi with hi | rfl
      · exact h.used i hi
      · exact (Nat.sub_le _ _).trans_lt h.cnt

/-- An edge that opens an entry behind the last uses it. -/
theorem Within.past (h : Within s) {op : Op} (hop : ¬Unfilled s op) :
    ∃ i ∈ (s.step op).used, maxSectionNumber ≤ i := by
  cases op with
  | edge tm =>
      rw [Unfilled] at hop
      push Not at hop
      obtain ⟨hrec, hopens, hle⟩ := hop
      obtain ⟨hcnt, hmem⟩ := (edge_index hrec tm).opened hopens
      refine ⟨_, hmem, ?_⟩
      rw [hcnt, toNat_succ h.cnt]
      exact hle
  | detect now => exact absurd trivial hop

theorem used_grows (s : Ctrl) (op : Op) : s.used <+: (s.step op).used := by
  cases op with
  | edge tm =>
      rw [Ctrl.step]
      by_cases hrec : s.Recording
      · exact (edge_index hrec tm).kept
      · rw [edge_stopped hrec]
  | detect now => exact (detect_index s now).2.1

end steps

theorem used_run (s : Ctrl) (ops : List Op) : s.used <+: (runFrom Ctrl.step s ops).used :=
  invariant (I := fun t => s.used <+: t.used) (fun t op h => h.trans (used_grows t op))
    List.prefix_rfl ops

theorem within_start (now : U32) : Within (irLearnStart now) where
  cnt := Nat.zero_lt_succ 99
  used := fun _ hi => absurd hi List.not_mem_nil

/-- **Inside the buffer.**  Whatever edges come, and whenever `ir_learn_detect` is called: every
index of `wave_series_buf` that is used is below its size, just when no edge opens an entry behind
the last. -/
theorem in_bounds_iff (now : U32) (ops : List Op) :
    (runFrom Ctrl.step (irLearnStart now) ops).InBounds ↔
      Along Ctrl.step Unfilled (irLearnStart now) ops := by
  constructor
  · intro hin
    have hwithin := within_start now
    generalize irLearnStart now = s at hin hwithin ⊢
    induction ops generalizing s with
    | nil => trivial
    | cons op ops ih =>
        by_cases hop : Unfilled s op
        · exact ⟨hop, ih _ hin (hwithin.step hop)⟩
        · obtain ⟨i, hi, hpast⟩ := hwithin.past hop
          have hmem := (used_run (s.step op) ops).subset hi
          exact absurd (hin i hmem) (Nat.not_lt.mpr hpast)
  · intro hops
    exact (hops.invariant (fun _ _ h hop => h.step hop) (within_start now)).used

/-- **Past the buffer.**  The fifty-first burst is written behind the last entry. -/
theorem fifty_first_burst :
    (∃ i ∈ (runFrom Ctrl.step (irLearnStart 0#32) (bursts 0 51)).used, maxSectionNumber ≤ i) ∧
      ¬(runFrom Ctrl.step (irLearnStart 0#32) (bursts 0 51)).InBounds := by
  have hpast : ∃ i ∈ (runFrom Ctrl.step (irLearnStart 0#32) (bursts 0 51)).used,
      maxSectionNumber ≤ i := ⟨100, by decide +kernel, by decide⟩
  refine ⟨hpast, ?_⟩
  intro h
  obtain ⟨i, hi, hle⟩ := hpast
  exact absurd (h i hi) (Nat.not_lt.mpr hle)

end TelinkB91.Ir
