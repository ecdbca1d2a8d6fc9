import TelinkB91.Keyboard.Matrix

/-!
# Keyboard — the release is scanned

The matrix is scanned only while a scan pin is active, so the release of the last key would not be
seen.  `kb_key_pressed` therefore goes on reporting the pins of the last press, `ret_last`, for the
five calls after it.  Two of them suffice: the first clears `mtrx_pre`, and with that the second
clears `mtrx_last`, with the filter or without it.

* `Kb.Fades.active`, `Kb.Fades.idle`: one call with a pin active, and one without.
* `release_is_pushed`: once enough calls see no pin active, the filtered matrix has no key, and
  the newest entry of `matrix_buff` says so.
-/

namespace TelinkB91.Keyboard
open Runs MaskedRing

/-- `kb_scan_key`, for its effect. -/
def Kb.step (b : Board) (s : Kb b.drivePins) (c : Call) : Kb b.drivePins := (kbScanKey b s c).2

/-- `kb_key_pressed` sees no scan pin active. -/
def Call.Idle (b : Board) (c : Call) : Prop := ∀ j < b.scanPins, b.active c.gpio j = false

instance (b : Board) (c : Call) : Decidable (c.Idle b) := Nat.decidableBallLT _ _

/-- A call that sees no scan pin active reads no key either. -/
def ReadsNoKey (b : Board) (s : Kb b.drivePins) (c : Call) : Prop :=
  c.Idle b → NoKey (pressedMatrix b (kbKeyPressed b s c.gpio).1 c.rows)

instance (b : Board) (s : Kb b.drivePins) (c : Call) : Decidable (ReadsNoKey b s c) :=
  inferInstanceAs (Decidable (_ → _))

/-! ### `kb_key_pressed` -/

section sense

variable {b : Board} {gpio : U32}

/-- A pin active has been seen. -/
private def Hot (t : U32 × U8 × U32) : Prop := t.1 ≠ 0#32 ∧ t.2.1 = 6#8 ∧ t.2.2 = t.1

private theorem or_ne_zero {x y : U32} (h : x ≠ 0#32) : x ||| y ≠ 0#32 := by
  intro hz
  refine h (BitVec.eq_of_getLsbD_eq ?_)
  intro i hi
  have hbit := congrArg (fun w => w.getLsbD i) hz
  simp only [BitVec.getLsbD_or, BitVec.getLsbD_zero, Bool.or_eq_false_iff] at hbit
  rw [hbit.1, BitVec.getLsbD_zero]

/-- The bit of an active pin. -/
private theorem or_bit_ne_zero {x : U32} {i : Nat} (hi : i < 32) : x ||| 1#32 <<< i ≠ 0#32 := by
  intro hz
  have hbit := congrArg (fun w => w.getLsbD i) hz
  simp [hi] at hbit

private theorem sense_hot {t : U32 × U8 × U32} (h : Hot t) (i : Nat) :
    Hot (sense b gpio t i) := by
  rw [sense]
  split
  · exact ⟨or_ne_zero h.1, rfl, rfl⟩
  · exact h

private theorem foldl_hot (is : List Nat) {t : U32 × U8 × U32} (h : Hot t) :
    Hot (is.foldl (sense b gpio) t) := by
  induction is generalizing t with
  | nil => exact h
  | cons i is ih => exact ih (sense_hot h i)

private theorem foldl_active {is : List Nat} (hbits : ∀ i ∈ is, i < 32)
    (h : ∃ i ∈ is, b.active gpio i = true) (t : U32 × U8 × U32) :
    Hot (is.foldl (sense b gpio) t) := by
  induction is generalizing t with
  | nil =>
      obtain ⟨i, hi, -⟩ := h
      exact absurd hi List.not_mem_nil
  | cons j is ih =>
      rw [List.foldl_cons]
      by_cases hj : b.active gpio j = true
      · refine foldl_hot is ?_
        rw [sense, if_pos hj]
        exact ⟨or_bit_ne_zero (hbits j List.mem_cons_self), rfl, rfl⟩
      · refine ih (fun i hi => hbits i (List.mem_cons_of_mem j hi)) ?_ _
        obtain ⟨i, hi, hactive⟩ := h
        rcases List.mem_cons.mp hi with rfl | hi
        · exact absurd hactive hj
        · exact ⟨i, hi, hactive⟩

private theorem foldl_idle {is : List Nat} (h : ∀ i ∈ is, b.active gpio i = false)
    (t : U32 × U8 × U32) : is.foldl (sense b gpio) t = t := by
  induction is generalizing t with
  | nil => rfl
  | cons j is ih =>
      have hj : sense b gpio t j = t := by
        rw [sense, h j List.mem_cons_self, if_neg Bool.false_ne_true]
      rw [List.foldl_cons, hj]
      exact ih (fun i hi => h i (List.mem_cons_of_mem j hi)) t

end sense

variable {b : Board} {s : Kb b.drivePins} {c : Call}

/-- With a pin active, the pins are reported and kept for five more calls. -/
theorem kbKeyPressed_active (h : ¬c.Idle b) :
    ∃ ret ≠ 0#32,
      kbKeyPressed b s c.gpio = (ret, { s with releaseCnt := 5#8, retLast := ret }) := by
  have hactive : ∃ i ∈ List.range b.scanPins, b.active c.gpio i = true := by
    rw [Call.Idle] at h
    push Not at h
    obtain ⟨j, hj, hpin⟩ := h
    exact ⟨j, List.mem_range.mpr hj, Bool.not_eq_false _ ▸ hpin⟩
  have hbits (i : Nat) (hi : i ∈ List.range b.scanPins) : i < 32 :=
    Nat.lt_of_lt_of_le (List.mem_range.mp hi) b.scanPins_le
  obtain ⟨hne, hcnt, hlast⟩ := foldl_active hbits hactive (0#32, s.releaseCnt, s.retLast)
  rw [kbKeyPressed]
  generalize (List.range b.scanPins).foldl (sense b c.gpio) (0#32, s.releaseCnt, s.retLast) = t
    at hne hcnt hlast
  refine ⟨t.1, hne, ?_⟩
  dsimp only
  rw [hcnt, hlast, if_pos (by decide)]
  rfl

/-- With no pin active, the last ones are reported while the count lasts. -/
theorem kbKeyPressed_idle (h : c.Idle b) :
    kbKeyPressed b s c.gpio =
      if s.releaseCnt ≠ 0#8 then (s.retLast, { s with releaseCnt := s.releaseCnt - 1#8 })
      else (0#32, s) := by
  have hpins (i : Nat) (hi : i ∈ List.range b.scanPins) : b.active c.gpio i = false :=
    h i (List.mem_range.mp hi)
  rw [kbKeyPressed, foldl_idle hpins]

/-! ### The filter -/

/-- No key goes in, no key comes out of the ghost removal. -/
theorem kbRmvGhostKey_noKey {n : Nat} {m : Matrix n} (h : NoKey m) : NoKey (kbRmvGhostKey m) := by
  have hpair (m : Matrix n) (hm : NoKey m) (i j : Fin n) (mix : U32) : mixPair m i mix j = mix := by
    simp [mixPair, hm i]
  have hcolumns (is : List (Fin n)) (m : Matrix n) (mix : U32) (hm : NoKey m) :
      NoKey (is.foldl rmvColumn (m, mix)).1 := by
    induction is generalizing m mix with
    | nil => exact hm
    | cons i is ih =>
        refine ih _ _ ?_
        intro k
        by_cases hk : k = i
        · subst hk
          simp only [Function.update_self, hm k, BitVec.zero_and]
        · simp only [Function.update_of_ne hk, hm k]
  exact hcolumns _ m 0#32 h

theorem Call.matrix_noKey {need : U32} (h : NoKey (pressedMatrix b need c.rows)) :
    NoKey (c.matrix b need) := by
  rw [Call.matrix]
  split
  · exact kbRmvGhostKey_noKey h
  · exact h

/-- After two samples without a key the filter has none. -/
theorem debounce_noKey (filtEn : Bool) (last : U32) : debounce filtEn 0#32 last 0#32 = 0#32 := by
  cases filtEn <;> simp [debounce]

theorem kbScanKeyValue_mtrxPre :
    (kbScanKeyValue b s c).2.mtrxPre = c.matrix b s.scanPinNeed := by
  have hpush : (s.pushed b c).mtrxPre = c.matrix b s.scanPinNeed := by
    rw [Kb.pushed]
    split
    · rw [Kb.pushMatrix]
      split <;> rfl
    · rfl
  rcases kbScanKeyValue_cases (b := b) (s := s) (c := c) with ⟨-, h⟩ | ⟨-, -, h⟩ | ⟨-, -, h⟩ <;>
    rw [h] <;> exact hpush

theorem Kb.pushed_mtrxLast : (s.pushed b c).mtrxLast =
    s.filtered (decide (¬PowerOn c.numlockStatus)) (c.matrix b s.scanPinNeed) := by
  rw [pushed]
  split
  · rw [pushMatrix]
    split <;> rfl
  · rfl

theorem kbScanKeyValue_mtrxLast : (kbScanKeyValue b s c).2.mtrxLast =
    s.filtered (decide (¬PowerOn c.numlockStatus)) (c.matrix b s.scanPinNeed) := by
  rcases kbScanKeyValue_cases (b := b) (s := s) (c := c) with ⟨-, h⟩ | ⟨-, -, h⟩ | ⟨-, -, h⟩ <;>
    rw [h] <;> exact Kb.pushed_mtrxLast

theorem kbScanKeyValue_afterglow : (kbScanKeyValue b s c).2.releaseCnt = s.releaseCnt ∧
    (kbScanKeyValue b s c).2.retLast = s.retLast := by
  have hpush : (s.pushed b c).releaseCnt = s.releaseCnt ∧ (s.pushed b c).retLast = s.retLast := by
    rw [Kb.pushed]
    split
    · rw [Kb.pushMatrix]
      split <;> exact ⟨rfl, rfl⟩
    · exact ⟨rfl, rfl⟩
  rcases kbScanKeyValue_cases (b := b) (s := s) (c := c) with ⟨-, h⟩ | ⟨-, -, h⟩ | ⟨-, -, h⟩ <;>
    rw [h] <;> exact hpush

/-! ### The afterglow -/

/-- At most `k` more calls without a pin active, and the filter has no key. -/
def Kb.Fades (s : Kb b.drivePins) (k : Nat) : Prop :=
  (NoKey s.mtrxPre ∧ NoKey s.mtrxLast) ∨
  (1 ≤ k ∧ s.releaseCnt = 4#8 ∧ s.retLast ≠ 0#32 ∧ NoKey s.mtrxPre) ∨
  (2 ≤ k ∧ s.releaseCnt = 5#8 ∧ s.retLast ≠ 0#32)

/-- A call with a pin active leaves two calls. -/
theorem Kb.Fades.active (h : ¬c.Idle b) : (s.step b c).Fades 2 := by
  obtain ⟨ret, hret, hpressed⟩ := kbKeyPressed_active (s := s) h
  rw [step, kbScanKey, hpressed]
  dsimp only
  rw [if_pos hret]
  obtain ⟨hcnt, hlast⟩ := kbScanKeyValue_afterglow (b := b) (c := c)
    (s := { s with scanPinNeed := ret, releaseCnt := 5#8, retLast := ret })
  exact .inr (.inr ⟨le_rfl, hcnt, by rw [hlast]; exact hret⟩)

/-- **A call without a pin active brings the release one call nearer.** -/
theorem Kb.Fades.idle {k : Nat} (hs : s.Fades k) (h : c.Idle b) (hreads : ReadsNoKey b s c) :
    (s.step b c).Fades (k - 1) := by
  have hnone := hreads h
  rw [step, kbScanKey]
  rw [kbKeyPressed_idle h] at hnone ⊢
  by_cases hcnt : s.releaseCnt = 0#8
  · -- The count has run out: nothing is scanned, and nothing changes.
    rw [if_neg (not_not.mpr hcnt)]
    dsimp only
    rw [if_neg (not_not.mpr rfl)]
    rcases hs with hquiet | ⟨-, hfour, -⟩ | ⟨-, hfive, -⟩
    · exact .inl hquiet
    · rw [hcnt] at hfour
      exact absurd hfour (by decide)
    · rw [hcnt] at hfive
      exact absurd hfive (by decide)
  · rw [if_pos hcnt] at hnone ⊢
    dsimp only at hnone ⊢
    by_cases hlast : s.retLast = 0#32
    · rw [if_neg (not_not.mpr hlast)]
      rcases hs with hquiet | ⟨-, -, hne, -⟩ | ⟨-, -, hne⟩
      · exact .inl hquiet
      · exact absurd hlast hne
      · exact absurd hlast hne
    · rw [if_pos hlast]
      generalize hs₁ : ({ s with
        scanPinNeed := s.retLast, releaseCnt := s.releaseCnt - 1#8 } : Kb b.drivePins) = s₁
      have htmp : NoKey (c.matrix b s₁.scanPinNeed) := by
        rw [← hs₁]
        exact Call.matrix_noKey hnone
      have hpre : NoKey (kbScanKeyValue b s₁ c).2.mtrxPre := by
        rw [kbScanKeyValue_mtrxPre]
        exact htmp
      have hclear (hold : NoKey s.mtrxPre) : NoKey (kbScanKeyValue b s₁ c).2.mtrxLast := by
        intro i
        have hzero : s₁.mtrxPre i = 0#32 := by
          rw [← hs₁]
          exact hold i
        rw [kbScanKeyValue_mtrxLast, filtered, hzero, htmp i, debounce_noKey]
      obtain ⟨hcnt₁, hlast₁⟩ := kbScanKeyValue_afterglow (b := b) (c := c) (s := s₁)
      rcases hs with ⟨hold, -⟩ | ⟨-, -, -, hold⟩ | ⟨hk, hfive, -⟩
      · exact .inl ⟨hpre, hclear hold⟩
      · exact .inl ⟨hpre, hclear hold⟩
      · refine .inr (.inl ⟨by omega, ?_, ?_, hpre⟩)
        · rw [hcnt₁, ← hs₁]
          dsimp only
          rw [hfive]
          rfl
        · rw [hlast₁, ← hs₁]
          exact hlast

theorem Kb.Fades.mono {k l : Nat} (hs : s.Fades k) (h : k ≤ l) : s.Fades l := by
  rcases hs with hquiet | ⟨hk, hfour⟩ | ⟨hk, hfive⟩
  · exact .inl hquiet
  · exact .inr (.inl ⟨hk.trans h, hfour⟩)
  · exact .inr (.inr ⟨hk.trans h, hfive⟩)

theorem Kb.Fades.step (hs : s.Fades 2) (hreads : ReadsNoKey b s c) : (s.step b c).Fades 2 := by
  by_cases h : c.Idle b
  · exact (hs.idle h hreads).mono (by decide)
  · exact .active h

/-- A run of calls without a pin active. -/
theorem Kb.Fades.idles {k : Nat} {calls : List Call} (hs : s.Fades k)
    (hidle : ∀ c ∈ calls, c.Idle b) (hreads : Along (Kb.step b) (ReadsNoKey b) s calls) :
    (runFrom (Kb.step b) s calls).Fades (k - calls.length) := by
  induction calls generalizing s k with
  | nil => exact hs
  | cons c calls ih =>
      have hnext := ih (hs.idle (hidle c List.mem_cons_self) hreads.1)
        (fun c hc => hidle c (List.mem_cons_of_mem _ hc)) hreads.2
      rw [List.length_cons, Nat.add_comm, Nat.sub_add_eq]
      exact hnext

/-! ### The newest entry -/

/-- The last filtered matrix is the newest entry of the ring, once there is one. -/
def Kb.Newest (s : Kb b.drivePins) : Prop :=
  (s.changes = [] ∧ NoKey s.mtrxLast) ∨
  ∃ earlier, s.changes = earlier ++ [s.mtrxLast] ∧ s.newest = s.mtrxLast

theorem Kb.Newest.pushed (hs : s.Newest) : (s.pushed b c).Newest := by
  rw [Kb.pushed]
  split
  · -- The new matrix goes where the writer was.
    refine .inr ⟨s.changes, ?_, ?_⟩
    · rw [pushMatrix]
      split <;> rfl
    · rename_i hchanged
      have hslot (w : Int) : slot 4 ((w + 1) % 8 - 1) = slot 4 w := by
        rw [slot_eq_iff]
        omega
      rw [newest, pushMatrix]
      split <;> (dsimp only; rw [hslot, Function.update_self])
  · rename_i hsame
    have hlast : (s.filter b c).2.mtrxLast = s.mtrxLast :=
      not_not.mp fun h => hsame (filter_changed.mpr h)
    rw [Newest, hlast]
    exact hs

theorem Kb.Newest.value (hs : s.Newest) : (kbScanKeyValue b s c).2.Newest := by
  rcases kbScanKeyValue_cases (b := b) (s := s) (c := c) with ⟨-, h⟩ | ⟨-, -, h⟩ | ⟨-, -, h⟩ <;>
    rw [h] <;> exact hs.pushed

theorem kbKeyPressed_newest (hs : s.Newest) (gpio : U32) : (kbKeyPressed b s gpio).2.Newest := by
  rw [kbKeyPressed]
  dsimp only
  split <;> exact hs

theorem Kb.Newest.step (hs : s.Newest) : (s.step b c).Newest := by
  have hpressed := kbKeyPressed_newest hs c.gpio
  rw [Kb.step, kbScanKey]
  dsimp only
  split
  · exact Newest.value hpressed
  · exact hpressed

/-- A matrix pushed stays in the record. -/
theorem Kb.mem_changes_step {m : Matrix b.drivePins} (h : m ∈ s.changes) :
    m ∈ (s.step b c).changes := by
  have hvalue (s : Kb b.drivePins) (h : m ∈ s.changes) : m ∈ (kbScanKeyValue b s c).2.changes := by
    have hpush : m ∈ (s.pushed b c).changes := by
      rw [pushed]
      split
      · rw [pushMatrix]
        split <;> exact List.mem_append_left _ h
      · exact h
    rcases kbScanKeyValue_cases (b := b) (s := s) (c := c) with ⟨-, h⟩ | ⟨-, -, h⟩ | ⟨-, -, h⟩ <;>
      rw [h] <;> exact hpush
  have hpressed : (kbKeyPressed b s c.gpio).2.changes = s.changes := by
    rw [kbKeyPressed]
    dsimp only
    split <;> rfl
  rw [← hpressed] at h
  rw [step, kbScanKey]
  dsimp only
  split
  · exact hvalue _ h
  · exact h

/-- A filtered matrix with a key was pushed, and is in the record from then on. -/
theorem Kb.Newest.mem_changes {t : Kb b.drivePins} {calls : List Call} (hs : s.Newest)
    (ht : t ∈ visited (Kb.step b) s calls) (hkey : ¬NoKey t.mtrxLast) :
    t.mtrxLast ∈ (runFrom (Kb.step b) s calls).changes := by
  obtain ⟨before, after, rfl, rfl⟩ := exists_of_mem_visited ht
  have hthen : (runFrom (Kb.step b) s before).Newest := invariant (fun _ _ h => h.step) hs before
  have hpushed : (runFrom (Kb.step b) s before).mtrxLast ∈
      (runFrom (Kb.step b) s before).changes := by
    rcases hthen with ⟨-, hnone⟩ | ⟨earlier, hchanges, -⟩
    · exact absurd hnone hkey
    · rw [hchanges]
      exact List.mem_append_right _ (List.mem_singleton.mpr rfl)
  rw [runFrom_append]
  exact invariant (I := fun u : Kb b.drivePins => _ ∈ u.changes)
    (fun _ _ h => Kb.mem_changes_step h) hpushed after

/-- **The release is not lost.**  In a run of `kb_scan_key` in which a call that sees no scan pin
active also reads no key, six calls that see none leave the filtered matrix without a key; and if
it ever had one, the newest entry of `matrix_buff` has none and was pushed after one that had. -/
theorem release_is_pushed (b : Board) (calls released : List Call)
    (hreads : Along (Kb.step b) (ReadsNoKey b) (Kb.boot b.drivePins) (calls ++ released))
    (hidle : ∀ c ∈ released, c.Idle b) (hsix : 6 ≤ released.length) :
    let s := runFrom (Kb.step b) (Kb.boot b.drivePins) (calls ++ released)
    NoKey s.mtrxLast ∧
    ((∃ t ∈ visited (Kb.step b) (Kb.boot b.drivePins) (calls ++ released), ¬NoKey t.mtrxLast) →
      ∃ earlier, s.changes = earlier ++ [s.newest] ∧ NoKey s.newest ∧
        ∃ m ∈ earlier, ¬NoKey m) := by
  intro s
  have hboot : (Kb.boot b.drivePins).Fades 2 := .inl ⟨fun _ => rfl, fun _ => rfl⟩
  have hnew : (Kb.boot b.drivePins).Newest := .inl ⟨rfl, fun _ => rfl⟩
  have hnewest : s.Newest := invariant (fun _ _ h => h.step) hnew _
  obtain ⟨hcalls, hreleased⟩ := along_append.mp hreads
  -- Two calls without a pin active are enough.
  have hquiet : NoKey s.mtrxLast := by
    have hfades : s.Fades (2 - released.length) := by
      have hmid : (runFrom (Kb.step b) (Kb.boot b.drivePins) calls).Fades 2 :=
        Along.invariant (I := fun s => s.Fades 2) (fun _ _ h hr => h.step hr) hboot hcalls
      have hend := hmid.idles hidle hreleased
      rw [← runFrom_append] at hend
      exact hend
    rcases hfades with ⟨-, hlast⟩ | ⟨hk, -⟩ | ⟨hk, -⟩
    · exact hlast
    · omega
    · omega
  refine ⟨hquiet, ?_⟩
  rintro ⟨t, ht, hkey⟩
  have hmem : t.mtrxLast ∈ s.changes := hnew.mem_changes ht hkey
  rcases hnewest with ⟨hnone, -⟩ | ⟨earlier, hchanges, hbuff⟩
  · rw [hnone] at hmem
    exact absurd hmem List.not_mem_nil
  · rw [hbuff]
    refine ⟨earlier, hchanges, hquiet, _, ?_, hkey⟩
    rw [hchanges] at hmem
    rcases List.mem_append.mp hmem with hold | hlast
    · exact hold
    · rw [List.mem_singleton.mp hlast] at hkey
      exact absurd hquiet hkey

/-- A call that sees the key at scan pin 0 and drive pin 0. -/
def pressCall : Call :=
  ⟨0#32, true, 0xFFFFFFFE#32, fun i => if i = 1 then 0xFFFFFFFE#32 else 0xFFFFFFFF#32⟩

/-- A call that sees no key. -/
def idleCall : Call := ⟨0#32, true, 0xFFFFFFFF#32, fun _ => 0xFFFFFFFF#32⟩

/-- Three calls with a key down and six without. -/
theorem release_is_pushed_volume :
    let s := runFrom (Kb.step sampleBoard) (Kb.boot 2)
      (List.replicate 3 pressCall ++ List.replicate 6 idleCall)
    NoKey s.mtrxLast ∧ ∃ earlier, s.changes = earlier ++ [s.newest] ∧ NoKey s.newest ∧
      ∃ m ∈ earlier, ¬NoKey m := by
  have hrun := release_is_pushed sampleBoard (List.replicate 3 pressCall)
    (List.replicate 6 idleCall) (by decide +kernel) (by decide +kernel) (by decide)
  exact ⟨hrun.1, hrun.2 (by decide +kernel)⟩

end TelinkB91.Keyboard
