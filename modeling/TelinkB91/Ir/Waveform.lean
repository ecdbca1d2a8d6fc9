import TelinkB91.Ir.Learn

/-!
# Ir — the waveform that is recorded

A train is a number of bursts with gaps between them.  An entry of `wave_series_buf` for a burst is
to be its length with one carrier period more, since the last period begins at the last edge.  For
the last burst `ir_learn_detect` adds it, but to the entry before.

* `At.carrier`, `At.gap`, `At.detect`: where one step leaves the recording in a train.
* `Opening`: before the second edge.
* `At.run`, `Train.written`: the entry for the last burst is no longer than the burst, from its
  first edge to its last.
* `last_burst_short`: so a train that is learned is not recorded as it is to be, whatever it is.
-/

namespace TelinkB91.Ir
open Runs

/-- The times between the edges of a burst. -/
def IsBurst (ds : List Nat) : Prop :=
  2 ≤ ds.length ∧ ∀ d ∈ ds, 0 < d ∧ d < irLearnIntervalThreshold.toNat

/-- The time between the last edge of a burst and the first of the next. -/
def IsGap (g : Nat) : Prop :=
  irLearnIntervalThreshold.toNat < g ∧ g < irLearnEndThreshold.toNat

instance (ds : List Nat) : Decidable (IsBurst ds) := inferInstanceAs (Decidable (_ ∧ _))

instance (g : Nat) : Decidable (IsGap g) := inferInstanceAs (Decidable (_ ∧ _))

/-- A burst, and the others with the gaps in front of them. -/
structure Train where
  first : List Nat
  rest : List (Nat × List Nat)
  isBurst : IsBurst first
  isRest : ∀ r ∈ rest, IsGap r.1 ∧ IsBurst r.2
  sections : 2 * rest.length + 1 ≤ maxSectionNumber

/-- The times between the edges. -/
def intervals (ds : List Nat) (rest : List (Nat × List Nat)) : List Nat :=
  ds ++ rest.flatMap fun r => r.1 :: r.2

/-- The times of the edges behind one at `tm`. -/
def edgesFrom (tm : U32) : List Nat → List U32
  | [] => []
  | d :: ds => (tm + BitVec.ofNat 32 d) :: edgesFrom (tm + BitVec.ofNat 32 d) ds

/-- The times of the edges of a train whose first edge is at `tm`. -/
def Train.edges (t : Train) (tm : U32) : List U32 :=
  tm :: edgesFrom tm (intervals t.first t.rest)

/-- From the first edge of the burst `k` to the last. -/
def Train.duration (t : Train) (k : Nat) : Nat :=
  ((t.first :: t.rest.map Prod.snd).getD k []).sum

/-- The gap behind the burst `k`. -/
def Train.gap (t : Train) (k : Nat) : Nat := (t.rest.map Prod.fst).getD k 0

def Train.firstInterval (t : Train) : Nat := t.first.headD 0

/-- Every burst is recorded with one carrier period more, and every gap with a third of one less. -/
structure Records (s : Ctrl) (t : Train) : Prop where
  bursts : ∀ k ≤ t.rest.length, (s.waveSeriesBuf (2 * k)).toNat = t.duration k +
    (if k < t.rest.length then t.firstInterval else s.carrCycleInterval.toNat)
  gaps : ∀ k < t.rest.length,
    (s.waveSeriesBuf (2 * k + 1)).toNat = t.gap k - t.firstInterval / 3

/-- The time of an edge. -/
def Op.edge? : Op → Option U32
  | .edge tm => some tm
  | .detect _ => none

/-- The edges of a run. -/
def edgesOf (ops : List Op) : List U32 := ops.filterMap Op.edge?

/-! ### In a train -/

/-- The entries, at the burst `k`, a time `e` behind its first edge. -/
structure Written (s : Ctrl) (k e : Nat) : Prop where
  cnt : s.waveSeriesCnt.toNat ≤ 2 * k
  zero : ∀ i, s.waveSeriesCnt.toNat < i → s.waveSeriesBuf i = 0#32
  entry : s.waveSeriesCnt.toNat = 2 * k → (s.waveSeriesBuf (2 * k)).toNat ≤ e
  check : s.waveSeriesCnt ≠ 0#16 → s.carrCheckCnt ≠ 0#8
  cycle : s.carrCheckCnt ≠ 0#8 → s.carrCycleInterval ≠ 0#32
  success : s.irLearnState = .success → s.carrCycleInterval ≠ 0#32

/-- What the next entries are measured from, where the last edge was at `tm`. -/
structure Measured (s : Ctrl) (k e : Nat) (tm : U32) : Prop where
  last : s.lastTriggerTmPoint = tm
  index : s.carrierIndex.toNat ≤ 2 * k
  start : s.carrierIndex.toNat = 2 * k →
    ∃ f ≤ e, s.carrSwitchStartTmPoint = tm - BitVec.ofNat 32 f

/-- The recording at the burst `k`. -/
structure At (s : Ctrl) (k e : Nat) (tm : U32) : Prop where
  written : Written s k e
  measured : s.Recording → Measured s k e tm

section steps

variable {s : Ctrl} {k e : Nat} {tm : U32}

theorem Written.mono (h : Written s k e) {e' : Nat} (he : e ≤ e') : Written s k e' :=
  ⟨h.cnt, h.zero, fun hcnt => (h.entry hcnt).trans he, h.check, h.cycle, h.success⟩

/-- At the next burst its entry is not open yet. -/
theorem Written.next (h : Written s k e) : Written s (k + 1) 0 := by
  have hcnt := h.cnt
  exact ⟨by omega, h.zero, fun heq => by omega, h.check, h.cycle, h.success⟩

/-- A step that leaves the entries alone. -/
theorem Written.congr (h : Written s k e) {t : Ctrl} (hcnt : t.waveSeriesCnt = s.waveSeriesCnt)
    (hbuf : t.waveSeriesBuf = s.waveSeriesBuf) (hcheck : t.carrCheckCnt = s.carrCheckCnt)
    (hcycle : t.carrCycleInterval = s.carrCycleInterval) (hstate : t.irLearnState ≠ .success) :
    Written t k e := by
  obtain ⟨h₁, h₂, h₃, h₄, h₅, -⟩ := h
  rw [← hcnt] at h₁ h₂ h₃ h₄
  rw [← hbuf] at h₂ h₃
  rw [← hcheck] at h₄ h₅
  rw [← hcycle] at h₅
  exact ⟨h₁, h₂, h₃, h₄, h₅, fun hsuccess => absurd hsuccess hstate⟩

/-- A step that ends the recording without success. -/
theorem Written.fail (h : Written s k e) {t : Ctrl} (hcnt : t.waveSeriesCnt = s.waveSeriesCnt)
    (hbuf : t.waveSeriesBuf = s.waveSeriesBuf) (hcheck : t.carrCheckCnt = s.carrCheckCnt)
    (hcycle : t.carrCycleInterval = s.carrCycleInterval) (st : LearnState)
    (hstate : t.irLearnState = st) (hfail : st ≠ .success ∧ st ≠ .waitKey ∧ st ≠ .begin) :
    Written t k e ∧ ¬t.Recording := by
  subst hstate
  obtain ⟨hsuccess, hwait, hbegin⟩ := hfail
  exact ⟨h.congr hcnt hbuf hcheck hcycle hsuccess, fun h => h.elim hwait hbegin⟩

theorem At.stopped (h : Written s k e ∧ ¬s.Recording) : At s k e tm :=
  ⟨h.1, fun hrec => absurd hrec h.2⟩

theorem not_success (hrec : s.Recording) : s.irLearnState ≠ .success := by
  rcases hrec with hstate | hstate
  · rw [hstate]
    decide
  · rw [hstate]
    decide

/-- Every edge behind the first two is counted for the carrier. -/
theorem checked (h : s.carrCheckCnt ≠ 0#8 → s.carrCycleInterval ≠ 0#32)
    (hinterval : s.timeInterval ≠ 0#32) : s.cycleAfter ≠ 0#32 ∧ s.checkAfter ≠ 0#8 := by
  have hten : irCarrCheckCnt = 10#8 := rfl
  rw [Ctrl.cycleAfter, Ctrl.checkAfter, hten]
  by_cases hcheck : s.carrCheckCnt < 10#8
  · rw [if_pos hcheck]
    refine ⟨?_, by bv_omega⟩
    split_ifs with hlonger
    · exact hinterval
    · have hle : ¬s.carrCycleInterval < s.timeInterval := fun hlt => hlonger ⟨hcheck, hlt⟩
      bv_omega
  · have hne : s.carrCheckCnt ≠ 0#8 := by bv_omega
    rw [if_neg hcheck, if_neg fun hlonger => hcheck hlonger.1]
    exact ⟨h hne, hne⟩

/-- The time since the last edge, when the next one comes. -/
theorem interval_eq (hlast : s.lastTriggerTmPoint = tm) {d : Nat} :
    (s.count (tm + BitVec.ofNat 32 d)).timeInterval = BitVec.ofNat 32 d := by
  rw [Ctrl.count, hlast]
  bv_omega

/-- The index for the carrier is the one that is open, or the next. -/
theorem le_carrierIndex (hcnt : s.waveSeriesCnt.toNat < 100) :
    s.waveSeriesCnt.toNat ≤ s.carrierIndex.toNat := by
  rw [Ctrl.carrierIndex]
  split_ifs
  · bv_omega
  · exact le_rfl

/-- Seen from an edge that comes `d` later. -/
theorem start_later {start : U32} {f d : Nat} (h : start = tm - BitVec.ofNat 32 f) :
    start = tm + BitVec.ofNat 32 d - BitVec.ofNat 32 (f + d) := by
  rw [h, BitVec.ofNat_add]
  bv_omega

/-- The carrier goes on, in `ir_record`. -/
theorem At.carrier_close (h : At s k e tm) (hrec : s.Recording) {d : Nat} (hk : k < 50)
    (hinterval : (s.count (tm + BitVec.ofNat 32 d)).timeInterval ≠ 0#32) :
    At (s.count (tm + BitVec.ofNat 32 d)).carrier.close k (e + d) (tm + BitVec.ofNat 32 d) := by
  obtain ⟨-, hindex, hstart⟩ := h.measured hrec
  have hcnt := h.written.cnt
  have hle : s.waveSeriesCnt.toNat ≤ s.carrierIndex.toNat := le_carrierIndex (by omega)
  obtain ⟨hcycle, hcheck⟩ := checked (s := s.count (tm + BitVec.ofNat 32 d)) h.written.cycle
    hinterval
  rw [close_eq, carrier_eq]
  refine ⟨⟨hindex, fun i hi => ?_, fun heq => ?_, fun _ => hcheck, fun _ => hcycle,
    fun _ => hcycle⟩, fun _ => ⟨rfl, hindex, fun heq => ?_⟩⟩
  · have hzero := h.written.zero i (lt_of_le_of_lt hle hi)
    exact (if_neg (Nat.ne_of_gt hi)).trans hzero
  · obtain ⟨f, hf, hstart⟩ := hstart heq
    have hentry : tm + BitVec.ofNat 32 d - s.carrSwitchStartTmPoint = BitVec.ofNat 32 (f + d) := by
      rw [hstart, BitVec.ofNat_add]
      bv_omega
    have hfit : (BitVec.ofNat 32 (f + d)).toNat ≤ f + d := by
      rw [BitVec.toNat_ofNat]
      exact Nat.mod_le _ _
    exact (congrArg BitVec.toNat ((if_pos heq.symm).trans hentry)).trans_le
      (hfit.trans (Nat.add_le_add_right hf d))
  · obtain ⟨f, hf, hstart⟩ := hstart heq
    exact ⟨f + d, Nat.add_le_add_right hf d, start_later hstart⟩

/-- The second edge, in `ir_record`: the burst is measured from the edge before. -/
theorem Written.secondEdge (h : Written s k e) (hrec : s.Recording)
    (hlast : s.lastTriggerTmPoint = tm) {d : Nat} (hd : d ≤ e)
    (hlt : d < irLearnIntervalThreshold.toNat) :
    At (s.count (tm + BitVec.ofNat 32 d)).secondEdge k e (tm + BitVec.ofNat 32 d) := by
  have hlt : d < 799 := hlt
  have hinterval := interval_eq (d := d) hlast
  rw [Ctrl.secondEdge, if_neg (by rw [hinterval, irLearnIntervalThreshold]; bv_omega)]
  refine ⟨h.congr rfl rfl rfl rfl (not_success hrec),
    fun _ => ⟨rfl, h.cnt, fun _ => ⟨d, hd, ?_⟩⟩⟩
  rw [show (Ctrl.remember _).carrSwitchStartTmPoint = s.lastTriggerTmPoint from rfl, hlast]
  bv_omega

/-- A period of the carrier. -/
theorem At.carrier (h : At s k e tm) {d : Nat} (hpos : 0 < d)
    (hlt : d < irLearnIntervalThreshold.toNat) (hk : k < 50) :
    At (irLearnIrqHandler s (tm + BitVec.ofNat 32 d)) k (e + d) (tm + BitVec.ofNat 32 d) := by
  have hshort : d < 799 := hlt
  by_cases hrec : s.Recording
  · obtain ⟨hlast, hindex, hstart⟩ := h.measured hrec
    have hinterval := interval_eq (d := d) hlast
    have hcnt := h.written.cnt
    rcases edge_cases hrec (tm + BitVec.ofNat 32 d) with ⟨-, hedge⟩ | ⟨-, hedge⟩ | ⟨-, -, hedge⟩
    · -- The number has wrapped: the burst is measured from its first edge still.
      rw [hedge]
      refine ⟨(h.written.mono (Nat.le_add_right e d)).congr rfl rfl rfl rfl
        (show LearnState.begin ≠ .success by decide), fun _ => ⟨rfl, hindex, fun heq => ?_⟩⟩
      obtain ⟨f, hf, hstart⟩ := hstart heq
      exact ⟨f + d, Nat.add_le_add_right hf d, start_later hstart⟩
    · -- Here too, but the burst is measured from the edge before.
      rw [hedge]
      exact (h.written.mono (Nat.le_add_right e d)).secondEdge hrec hlast (Nat.le_add_left d e) hlt
    · have hne : (s.count (tm + BitVec.ofNat 32 d)).timeInterval ≠ 0#32 := by
        rw [hinterval]
        bv_omega
      rw [hedge, Ctrl.otherEdge, if_pos (by rw [hinterval, irLearnIntervalThreshold]; bv_omega)]
      exact h.carrier_close hrec hk hne
  · rw [edge_stopped hrec]
    exact .stopped ⟨h.written.mono (Nat.le_add_right e d), hrec⟩

/-- The gap is recorded, in `ir_record`. -/
theorem Written.gap_close (h : Written s k e) (hk : k < 50) {tm' : U32}
    (hinterval : (s.count tm').timeInterval ≠ 0#32) :
    At ((s.count tm').gap tm').close (k + 1) 0 tm' := by
  have hcnt := h.cnt
  have hnext : (s.waveSeriesCnt + 1).toNat = s.waveSeriesCnt.toNat + 1 := by bv_omega
  obtain ⟨hcycle, hcheck⟩ := checked (s := s.count tm') h.cycle hinterval
  rw [close_eq, gap_eq]
  refine ⟨⟨?_, fun i hi => ?_, fun heq => ?_, fun _ => hcheck, fun _ => hcycle,
    fun _ => hcycle⟩, fun _ => ⟨rfl, ?_, fun heq => ⟨0, le_rfl, ?_⟩⟩⟩
  · exact hnext.trans_le (by omega)
  · have hi : s.waveSeriesCnt.toNat + 1 < i := hnext.symm.trans_lt hi
    have hzero := h.zero i (by omega)
    have hne : i ≠ (s.waveSeriesCnt + 1).toNat := by omega
    have hne' : i ≠ s.waveSeriesCnt.toNat := by omega
    exact (if_neg hne).trans ((if_neg hne').trans hzero)
  · -- The gap is at an odd index at most.
    have heq : s.waveSeriesCnt.toNat + 1 = 2 * (k + 1) := hnext.symm.trans heq
    omega
  · have hindex : (s.waveSeriesCnt + 1 + 1).toNat ≤ 2 * (k + 1) := by bv_omega
    exact hindex
  · bv_omega

/-- A gap, and the first edge of the next burst. -/
theorem At.gap (h : At s k e tm) {g : Nat} (hgap : IsGap g) (hk : k < 50) :
    At (irLearnIrqHandler s (tm + BitVec.ofNat 32 g)) (k + 1) 0 (tm + BitVec.ofNat 32 g) := by
  have hlong : 799 < g := hgap.1
  have hshort : g < 480000 := hgap.2
  by_cases hrec : s.Recording
  · obtain ⟨hlast, hindex, -⟩ := h.measured hrec
    have hinterval := interval_eq (d := g) hlast
    have hcnt := h.written.cnt
    rcases edge_cases hrec (tm + BitVec.ofNat 32 g) with ⟨-, hedge⟩ | ⟨-, hedge⟩ | ⟨-, -, hedge⟩
    · -- The number has wrapped: the entry of the burst before stays open.
      rw [hedge]
      refine ⟨h.written.next.congr rfl rfl rfl rfl (show LearnState.begin ≠ .success by decide),
        fun _ => ⟨rfl, hindex.trans (by omega), fun heq => ?_⟩⟩
      have heq : s.carrierIndex.toNat = 2 * (k + 1) := heq
      omega
    · rw [hedge, Ctrl.secondEdge, if_pos (by rw [hinterval, irLearnIntervalThreshold]; bv_omega)]
      exact .stopped (h.written.next.fail rfl rfl rfl rfl .failFirstIntervalTooLong rfl (by decide))
    · rw [hedge, Ctrl.otherEdge, if_neg (by rw [hinterval, irLearnIntervalThreshold]; bv_omega),
        if_pos (by
          rw [hinterval, irLearnIntervalThreshold, irLearnEndThreshold]
          constructor <;> bv_omega)]
      by_cases hcarr : (s.count (tm + BitVec.ofNat 32 g)).carrOrNot = true
      · rw [if_pos hcarr]
        refine h.written.gap_close hk ?_
        rw [hinterval]
        bv_omega
      · rw [if_neg hcarr]
        exact .stopped (h.written.next.fail rfl rfl rfl rfl .failTwoLongNoCarrier rfl (by decide))
  · rw [edge_stopped hrec]
    exact .stopped ⟨h.written.next, hrec⟩

/-- Where the correction is made, the last entry is not. -/
theorem At.detect (h : At s k e tm) (now : U32) : At (irLearnDetect s now) k e tm := by
  obtain ⟨hcnt, hzero, hentry, hcheck, hcycle, -⟩ := h.written
  rcases detect_cases s now with ⟨-, hdetect⟩ | ⟨-, hmany, hdetect⟩ | ⟨-, hdetect⟩ | hdetect
  · rw [hdetect]
    exact .stopped (h.written.fail rfl rfl rfl rfl .failWaitOverTime rfl (by decide))
  · have hmany : 15 < s.waveSeriesCnt.toNat := hmany
    rw [hdetect]
    refine ⟨⟨hcnt, fun i hi => ?_, fun heq => ?_, hcheck, hcycle, fun _ => ?_⟩, fun hrec => ?_⟩
    · have hi : s.waveSeriesCnt.toNat < i := hi
      have hne : i ≠ s.waveSeriesCnt.toNat - 1 := by omega
      exact (if_neg hne).trans (hzero i hi)
    · have heq : s.waveSeriesCnt.toNat = 2 * k := heq
      have hne : 2 * k ≠ s.waveSeriesCnt.toNat - 1 := by omega
      exact (congrArg BitVec.toNat (if_neg hne)).trans_le (hentry heq)
    · have hne : s.waveSeriesCnt ≠ 0#16 := by bv_omega
      exact hcycle (hcheck hne)
    · rcases hrec with hrec | hrec <;> cases hrec
  · rw [hdetect]
    exact .stopped (h.written.fail rfl rfl rfl rfl .failWaveNumTooFew rfl (by decide))
  · rw [hdetect]
    exact h

end steps

/-! ### The first two edges -/

/-- `n` edges have come, no or one, and the last at `tm`. -/
structure Opening (s : Ctrl) (n : Nat) (tm : U32) : Prop where
  written : Written s 0 0
  counted : s.Recording → s.irEnterIrqCnt = BitVec.ofNat 16 n ∧ (0 < n → s.lastTriggerTmPoint = tm)

section opening

variable {s : Ctrl} {n : Nat} {tm : U32}

theorem Opening.stopped (h : Written s 0 0 ∧ ¬s.Recording) : Opening s n tm :=
  ⟨h.1, fun hrec => absurd hrec h.2⟩

theorem opening_start (now tm : U32) : Opening (irLearnStart now) 0 tm where
  written := ⟨le_rfl, fun _ _ => rfl, fun _ => le_rfl, fun h => absurd rfl h,
    fun h => absurd rfl h, fun h => nomatch h⟩
  counted _ := ⟨rfl, fun h => absurd h (Nat.lt_irrefl 0)⟩

theorem Opening.detect (h : Opening s n tm) (now : U32) : Opening (irLearnDetect s now) n tm := by
  have hcnt := h.written.cnt
  rcases detect_cases s now with ⟨-, hdetect⟩ | ⟨-, hmany, -⟩ | ⟨-, hdetect⟩ | hdetect
  · rw [hdetect]
    exact .stopped (h.written.fail rfl rfl rfl rfl .failWaitOverTime rfl (by decide))
  · have hmany : 15#16 < s.waveSeriesCnt := hmany
    bv_omega
  · rw [hdetect]
    exact .stopped (h.written.fail rfl rfl rfl rfl .failWaveNumTooFew rfl (by decide))
  · rw [hdetect]
    exact h

theorem Opening.first {tm₀ : U32} (h : Opening s 0 tm₀) (tm : U32) :
    Opening (irLearnIrqHandler s tm) 1 tm := by
  by_cases hrec : s.Recording
  · obtain ⟨hcount, -⟩ := h.counted hrec
    rcases edge_cases hrec tm with ⟨-, hedge⟩ | ⟨hsecond, -⟩ | ⟨hother, -⟩
    · rw [hedge]
      exact ⟨h.written.congr rfl rfl rfl rfl (show LearnState.begin ≠ .success by decide),
        fun _ => ⟨congrArg (· + 1) hcount, fun _ => rfl⟩⟩
    · rw [hcount] at hsecond
      exact absurd hsecond (by decide)
    · rw [hcount] at hother
      exact absurd rfl hother
  · rw [edge_stopped hrec]
    exact .stopped ⟨h.written, hrec⟩

/-- The second edge, from which on the recording is at the first burst. -/
theorem Opening.second (h : Opening s 1 tm) {d : Nat} (hlt : d < irLearnIntervalThreshold.toNat) :
    At (irLearnIrqHandler s (tm + BitVec.ofNat 32 d)) 0 d (tm + BitVec.ofNat 32 d) := by
  by_cases hrec : s.Recording
  · obtain ⟨hcount, hlast⟩ := h.counted hrec
    have hlast : s.lastTriggerTmPoint = tm := hlast Nat.one_pos
    rcases edge_cases hrec (tm + BitVec.ofNat 32 d) with ⟨hfirst, -⟩ | ⟨-, hedge⟩ | ⟨-, hother, -⟩
    · rw [hcount] at hfirst
      exact absurd hfirst (by decide)
    · rw [hedge]
      exact (h.written.mono (Nat.zero_le d)).secondEdge hrec hlast le_rfl hlt
    · rw [hcount] at hother
      exact absurd rfl hother
  · rw [edge_stopped hrec]
    exact .stopped ⟨h.written.mono (Nat.zero_le d), hrec⟩

end opening

/-! ### The run -/

/-- What every call of `ir_learn_detect` keeps holds up to the next edge. -/
theorem exists_edge {P : Ctrl → Prop} (hdetect : ∀ s now, P s → P (irLearnDetect s now)) {s : Ctrl}
    (h : P s) {ops : List Op} {tm : U32} {tms : List U32} (hedges : edgesOf ops = tm :: tms) :
    ∃ t rest, P t ∧ edgesOf rest = tms ∧
      runFrom Ctrl.step s ops = runFrom Ctrl.step (irLearnIrqHandler t tm) rest := by
  induction ops generalizing s with
  | nil => cases hedges
  | cons op ops ih =>
      cases op with
      | edge tm' =>
          obtain ⟨rfl, hrest⟩ := List.cons.inj hedges
          exact ⟨s, ops, h, hrest, rfl⟩
      | detect now => exact ih (hdetect s now h) hedges

/-- Behind the last edge it holds to the end. -/
theorem after_edges {P : Ctrl → Prop} (hdetect : ∀ s now, P s → P (irLearnDetect s now)) {s : Ctrl}
    (h : P s) {ops : List Op} (hedges : edgesOf ops = []) : P (runFrom Ctrl.step s ops) := by
  induction ops generalizing s with
  | nil => exact h
  | cons op ops ih =>
      cases op with
      | edge tm => cases hedges
      | detect now => exact ih (hdetect s now h) hedges

/-- A burst. -/
theorem At.burst {s : Ctrl} {k e : Nat} {tm : U32} (h : At s k e tm) {ds : List Nat}
    (hds : ∀ d ∈ ds, 0 < d ∧ d < irLearnIntervalThreshold.toNat) (hk : k < 50) {next : List Nat}
    {ops : List Op} (hedges : edgesOf ops = edgesFrom tm (ds ++ next)) :
    ∃ t rest tm', At t k (e + ds.sum) tm' ∧ edgesOf rest = edgesFrom tm' next ∧
      runFrom Ctrl.step s ops = runFrom Ctrl.step t rest := by
  induction ds generalizing s e tm ops with
  | nil => exact ⟨s, ops, tm, h, hedges, rfl⟩
  | cons d ds ih =>
      obtain ⟨hpos, hlt⟩ := hds d List.mem_cons_self
      obtain ⟨t, rest, ht, hrest, hrun⟩ :=
        exists_edge (P := fun s => At s k e tm) (fun _ now h => h.detect now) h hedges
      obtain ⟨t', rest', tm', ht', hrest', hrun'⟩ :=
        ih (ht.carrier hpos hlt hk) (fun d hd => hds d (List.mem_cons_of_mem _ hd)) hrest
      refine ⟨t', rest', tm', ?_, hrest', hrun.trans hrun'⟩
      rw [List.sum_cons, ← Nat.add_assoc]
      exact ht'

/-- The time behind the first edge of the last burst, where `e` is that in the burst before. -/
def lastSum (e : Nat) : List (Nat × List Nat) → Nat
  | [] => e
  | r :: rest => lastSum r.2.sum rest

theorem lastSum_eq (ds : List Nat) (rest : List (Nat × List Nat)) :
    lastSum ds.sum rest = ((ds :: rest.map Prod.snd).getD rest.length []).sum := by
  induction rest generalizing ds with
  | nil => rfl
  | cons r rest ih => exact ih r.2

/-- **The entry of the last burst**, from anywhere in a train. -/
theorem At.run {s : Ctrl} {k e : Nat} {tm : U32} (h : At s k e tm) {ds : List Nat}
    (hds : ∀ d ∈ ds, 0 < d ∧ d < irLearnIntervalThreshold.toNat) {rest : List (Nat × List Nat)}
    (hrest : ∀ r ∈ rest, IsGap r.1 ∧ IsBurst r.2) (hk : k + rest.length < 50) {ops : List Op}
    (hedges : edgesOf ops = edgesFrom tm (intervals ds rest)) :
    Written (runFrom Ctrl.step s ops) (k + rest.length) (lastSum (e + ds.sum) rest) := by
  induction rest generalizing s k e tm ds ops with
  | nil =>
      obtain ⟨t, rest, tm', ht, hrest, hrun⟩ := h.burst hds hk hedges
      rw [hrun]
      exact (after_edges (P := fun s => At s k (e + ds.sum) tm') (fun _ now h => h.detect now) ht
        hrest).written
  | cons r rest ih =>
      obtain ⟨hgap, -, hburst⟩ := hrest r List.mem_cons_self
      rw [List.length_cons] at hk ⊢
      obtain ⟨t, ops', tm', ht, hops', hrun⟩ := h.burst hds (by omega) hedges
      obtain ⟨t', ops'', ht', hops'', hrun'⟩ :=
        exists_edge (P := fun s => At s k (e + ds.sum) tm') (fun _ now h => h.detect now) ht hops'
      have hlast := ih (ht'.gap hgap (by omega)) hburst
        (fun r hr => hrest r (List.mem_cons_of_mem _ hr)) (by omega) hops''
      rw [hrun, hrun', lastSum, show k + (rest.length + 1) = k + 1 + rest.length by omega]
      rw [Nat.zero_add] at hlast
      exact hlast

/-- The entries when a train is over. -/
theorem Train.written (t : Train) {now tm : U32} {ops : List Op}
    (hedges : edgesOf ops = t.edges tm) :
    Written (runFrom Ctrl.step (irLearnStart now) ops) t.rest.length
      (t.duration t.rest.length) := by
  obtain ⟨first, rest, ⟨hlength, hfirst⟩, hrest, hsections⟩ := t
  obtain _ | ⟨d, ds⟩ := first
  · cases hlength
  obtain ⟨s₁, ops₁, h₁, hops₁, hrun₁⟩ :=
    exists_edge (P := fun s => Opening s 0 tm) (fun _ now h => h.detect now) (opening_start now tm)
      hedges
  obtain ⟨s₂, ops₂, h₂, hops₂, hrun₂⟩ :=
    exists_edge (P := fun s => Opening s 1 tm) (fun _ now h => h.detect now) (h₁.first tm) hops₁
  have hlast := (h₂.second (hfirst d List.mem_cons_self).2).run
    (fun d hd => hfirst d (List.mem_cons_of_mem _ hd)) hrest
    (by rw [maxSectionNumber] at hsections; omega) hops₂
  rw [Nat.zero_add, ← List.sum_cons, lastSum_eq, ← hrun₂, ← hrun₁] at hlast
  exact hlast

/-- **The last burst is not recorded as it is to be**, in any train that is learned: its entry is
the burst without the last period, and the correction for that goes to the gap before. -/
theorem last_burst_short (t : Train) {now tm : U32} {ops : List Op}
    (hedges : edgesOf ops = t.edges tm)
    (hsuccess : (runFrom Ctrl.step (irLearnStart now) ops).irLearnState = .success) :
    ¬Records (runFrom Ctrl.step (irLearnStart now) ops) t := by
  intro hrecords
  have hwritten : Written (runFrom Ctrl.step (irLearnStart now) ops) t.rest.length
      (t.duration t.rest.length) := t.written hedges
  have hbursts := hrecords.bursts t.rest.length le_rfl
  rw [if_neg (Nat.lt_irrefl _)] at hbursts
  have hcycle : 0 < (runFrom Ctrl.step (irLearnStart now) ops).carrCycleInterval.toNat := by
    have hne := hwritten.success hsuccess
    bv_omega
  rcases hwritten.cnt.lt_or_eq with hlt | heq
  · -- The recording was over before the last burst.
    rw [hwritten.zero _ hlt] at hbursts
    exact absurd hbursts.symm (Nat.ne_of_gt (Nat.add_pos_right _ hcycle))
  · have hentry := hwritten.entry heq
    omega

/-- Nine bursts with a carrier of 400 ticks, the first of 13 edges and the others of three, and gaps
of 2000 ticks. -/
def nineBursts : Train where
  first := List.replicate 12 400
  rest := List.replicate 8 (2000, [400, 400])
  isBurst := by decide
  isRest := by decide
  sections := by decide

/-- The nine bursts, and the call of `ir_learn_detect` that ends the recording. -/
def learnNine : List Op := (nineBursts.edges 0#32).map .edge ++ [.detect 1000000#32]

theorem last_burst_short_nine :
    edgesOf learnNine = nineBursts.edges 0#32 ∧
    (runFrom Ctrl.step (irLearnStart 0#32) learnNine).irLearnState = .success ∧
    ¬Records (runFrom Ctrl.step (irLearnStart 0#32) learnNine) nineBursts :=
  have hedges : edgesOf learnNine = nineBursts.edges 0#32 := by decide +kernel
  have hsuccess : (runFrom Ctrl.step (irLearnStart 0#32) learnNine).irLearnState = .success := by
    decide +kernel
  ⟨hedges, hsuccess, last_burst_short nineBursts hedges hsuccess⟩

/-- The last of the nine bursts is recorded with 800 ticks, and the gap before with 400 more. -/
theorem correction_misplaced :
    ∃ s, s = runFrom Ctrl.step (irLearnStart 0#32) learnNine ∧ s.irLearnState = .success ∧
      edgesOf learnNine = nineBursts.edges 0#32 ∧ s.carrCycleInterval = 400#32 ∧
      s.waveSeriesBuf 13 = 1867#32 ∧ s.waveSeriesBuf 14 = 1200#32 ∧
      s.waveSeriesBuf 15 = 2267#32 ∧ s.waveSeriesBuf 16 = 800#32 ∧ ¬Records s nineBursts := by
  refine ⟨_, rfl, by decide +kernel, by decide +kernel, by decide +kernel, by decide +kernel,
    by decide +kernel, by decide +kernel, by decide +kernel, fun hrecords => ?_⟩
  have hlast : (800#32).toNat = 800 + 400 := by
    have hbursts := hrecords.bursts 8 (by decide)
    have hentry : (runFrom Ctrl.step (irLearnStart 0#32) learnNine).waveSeriesBuf (2 * 8) =
        800#32 := by decide +kernel
    have hcycle : (runFrom Ctrl.step (irLearnStart 0#32) learnNine).carrCycleInterval =
        400#32 := by decide +kernel
    rw [hentry, if_neg (by decide), hcycle] at hbursts
    exact hbursts
  exact absurd hlast (by decide)

end TelinkB91.Ir
