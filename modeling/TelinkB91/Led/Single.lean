import TelinkB91.Led.Blink

/-!
# Led — one long phase

Where one of the two times is zero, `device_led_setup` makes one phase of all the repetitions: the
other time is multiplied by the count, in the 16 bits of its field.

* `Single.process_iff`: the phase ends with the product, as it is stored.
* `single_run`: until then nothing happens.
* `lasts_iff`: the phase lasts the count times the time just when the product fits in 16 bits.
-/

namespace TelinkB91.Led
open Ir (ClockTimeExceed U8 U16 U32)
open Runs

/-- The time that is not zero. -/
def LedCfg.time (cfg : LedCfg) : U16 := if cfg.onTimeMs = 0#16 then cfg.offTimeMs else cfg.onTimeMs

/-- One of the two times is zero, and the other is not. -/
def LedCfg.OneTime (cfg : LedCfg) : Prop :=
  (cfg.onTimeMs = 0#16 ∧ cfg.offTimeMs ≠ 0#16) ∨ (cfg.onTimeMs ≠ 0#16 ∧ cfg.offTimeMs = 0#16)

instance (cfg : LedCfg) : Decidable cfg.OneTime := inferInstanceAs (Decidable (_ ∨ _))

/-- What the clock says at a time, in ticks. -/
def clockTime (t : Nat) : U32 := BitVec.ofNat 32 t

/-- Calls at times. -/
def inputs (calls : List (Nat × Call)) : List Input := calls.map fun c => ⟨clockTime c.1, c.2⟩

/-- However the setup is followed by calls, `device_led_process` ends the event no sooner than the
count times the time has gone by.  A millisecond has 16000 ticks. -/
def Lasts (cfg : LedCfg) : Prop :=
  ∀ (s s₁ : DeviceLed) (t₀ : Nat), deviceLedSetup s cfg (clockTime t₀) = (s₁, true) →
    ∀ calls : List (Nat × Call), (∀ c ∈ calls, t₀ ≤ c.1) →
      Along step (Guard cfg.priority) s₁ (inputs calls) →
        ∀ t, t₀ ≤ t → (runFrom step s₁ (inputs calls)).repeatCount ≠ 0#8 →
          (deviceLedProcess (runFrom step s₁ (inputs calls)) (clockTime t)).repeatCount = 0#8 →
            t₀ + cfg.repeatCount.toNat * cfg.time.toNat * 16000 ≤ t

/-- One phase is going on, of `ms` milliseconds from `start` on. -/
structure Single (priority : U8) (ms : U16) (start : U32) (d : DeviceLed) : Prop where
  priority : d.priority = priority
  startTick : d.startTick = start
  repeatCount : d.repeatCount = 1#8
  phase : (d.isOn ≠ 0#8 ∧ d.onTimeMs = ms ∧ d.offTimeMs = 0#16) ∨ (d.isOn = 0#8 ∧ d.offTimeMs = ms)

section single

variable {cfg : LedCfg} {priority : U8} {ms : U16} {start : U32} {d : DeviceLed}

/-- `led_proc` compares with the milliseconds, in ticks. -/
theorem exceed_iff (now : U32) : ClockTimeExceed now start (ms.setWidth 32 * 1000#32) ↔
    ms.toNat * 16000 < (now - start).toNat := by
  have hticks : (ms.setWidth 32 * 1000#32 * 16#32).toNat = ms.toNat * 16000 := by
    have hms := ms.isLt
    bv_omega
  rw [ClockTimeExceed, gt_iff_lt, BitVec.lt_def, hticks]

/-- **One poll**: the phase ends when it is due, and nothing happens before. -/
theorem Single.process (h : Single priority ms start d) (now : U32) :
    (ms.toNat * 16000 < (now - start).toNat ∧ (deviceLedProcess d now).repeatCount = 0#8) ∨
      (¬ ms.toNat * 16000 < (now - start).toNat ∧ deviceLedProcess d now = d) := by
  have hbusy : d.repeatCount ≠ 0#8 := by
    rw [h.repeatCount]
    decide
  rw [← exceed_iff, deviceLedProcess, if_pos hbusy, ledProc, h.startTick]
  rcases h.phase with ⟨hlit, hon, hoff⟩ | ⟨hdark, hoff⟩
  · rw [if_pos hlit, hon]
    by_cases hdue : ClockTimeExceed now start (ms.setWidth 32 * 1000#32)
    · refine .inl ⟨hdue, ?_⟩
      rw [if_pos hdue]
      have hnone : ¬ (d.onOff 0#8).offTimeMs ≠ 0#16 := not_not.mpr hoff
      dsimp only
      rw [if_neg hnone]
    · exact .inr ⟨hdue, if_neg hdue⟩
  · rw [if_neg (not_not.mpr hdark), hoff]
    by_cases hdue : ClockTimeExceed now start (ms.setWidth 32 * 1000#32)
    · refine .inl ⟨hdue, ?_⟩
      rw [if_pos hdue, h.repeatCount]
      rfl
    · exact .inr ⟨hdue, if_neg hdue⟩

/-- **The end of the phase.** -/
theorem Single.process_iff (h : Single priority ms start d) (now : U32) :
    (deviceLedProcess d now).repeatCount = 0#8 ↔ ms.toNat * 16000 < (now - start).toNat := by
  rcases h.process now with ⟨hdue, hend⟩ | ⟨hdue, hsame⟩
  · exact ⟨fun _ => hdue, fun _ => hend⟩
  · rw [hsame, h.repeatCount]
    exact ⟨fun hzero => absurd hzero (by decide), fun hdue' => absurd hdue' hdue⟩

/-- **One call**: the phase goes on as it was, or it has ended. -/
theorem Single.step (h : Single priority ms start d) {i : Input} (hi : Guard priority d i) :
    step d i = d ∨ (step d i).repeatCount = 0#8 := by
  rw [Led.step]
  cases hc : i.call with
  | process =>
      rcases h.process i.now with ⟨-, hend⟩ | ⟨-, hsame⟩
      · exact .inr hend
      · exact .inl hsame
  | setup c =>
      rw [Guard, hc] at hi
      dsimp only
      rw [setup_refused hi.1 (h.priority.symm ▸ hi.2)]
      exact .inl rfl

/-- After the end nothing happens. -/
theorem step_idle (hidle : d.repeatCount = 0#8) {i : Input} (hi : Guard priority d i) :
    step d i = d := by
  rw [Led.step]
  cases hc : i.call with
  | process => exact if_neg (not_not.mpr hidle)
  | setup c =>
      rw [Guard, hc] at hi
      exact absurd hidle hi.1

/-- **A run.** -/
theorem single_run {s₁ : DeviceLed} (h : Single priority ms start s₁) {is : List Input}
    (hrun : Along step (Guard priority) s₁ is) :
    runFrom step s₁ is = s₁ ∨ (runFrom step s₁ is).repeatCount = 0#8 := by
  refine hrun.invariant (I := fun d => d = s₁ ∨ d.repeatCount = 0#8) (fun d i hd hi => ?_)
    (.inl rfl)
  rcases hd with rfl | hidle
  · exact h.step hi
  · rw [step_idle hidle hi]
    exact .inr hidle

/-- **The setup.**  The product has the 16 bits of its field. -/
theorem single_of_setup (hone : cfg.OneTime) (hn' : cfg.repeatCount.toNat ≤ 254) {s s₁ : DeviceLed}
    {now : U32} (hacc : deviceLedSetup s cfg now = (s₁, true)) :
    Single cfg.priority (cfg.time * cfg.repeatCount.setWidth 16) now s₁ := by
  rw [eq_of_accepted hacc, DeviceLed.program]
  dsimp only
  rw [if_neg (LedCfg.ne_long hn'), LedCfg.time]
  by_cases hon : cfg.onTimeMs = 0#16
  · rw [if_pos hon, if_pos hon]
    refine ⟨rfl, rfl, rfl, .inr ⟨?_, rfl⟩⟩
    change (if cfg.onTimeMs ≠ 0#16 then 1#8 else 0#8) = 0#8
    exact if_neg (not_not.mpr hon)
  · have hoff : cfg.offTimeMs = 0#16 := (hone.resolve_left fun h => hon h.1).2
    rw [if_neg hon, if_pos hoff, if_neg hon]
    refine ⟨rfl, rfl, rfl, ?_⟩
    by_cases hwrap : cfg.onTimeMs * cfg.repeatCount.setWidth 16 = 0#16
    · -- Nothing is left of the product, and the LED stays dark.
      refine .inr ⟨if_neg (not_not.mpr hwrap), ?_⟩
      rw [hwrap]
      exact hoff
    · refine .inl ⟨?_, rfl, hoff⟩
      change (if cfg.onTimeMs * cfg.repeatCount.setWidth 16 ≠ 0#16 then 1#8 else 0#8) ≠ 0#8
      rw [if_pos hwrap]
      decide

theorem toNat_product (cfg : LedCfg) : (cfg.time * cfg.repeatCount.setWidth 16).toNat =
    cfg.repeatCount.toNat * cfg.time.toNat % 2 ^ 16 := by
  have hcount : (cfg.repeatCount.setWidth 16).toNat = cfg.repeatCount.toNat := by
    rw [BitVec.toNat_setWidth]
    exact Nat.mod_eq_of_lt (by omega)
  rw [BitVec.toNat_mul, hcount, Nat.mul_comm]

end single

/-- **The clock of 32 bits** shows no more ticks than have gone by. -/
theorem clockTime_sub_le {t₀ t : Nat} (h : t₀ ≤ t) :
    (clockTime t - clockTime t₀).toNat ≤ t - t₀ := by
  have hsub : clockTime t - clockTime t₀ = BitVec.ofNat 32 (t - t₀) := by
    have hsplit : clockTime t = clockTime (t - t₀) + clockTime t₀ := by
      rw [clockTime, clockTime, clockTime, ← BitVec.ofNat_add, Nat.sub_add_cancel h]
    rw [hsplit, BitVec.add_sub_cancel]
    rfl
  rw [hsub, BitVec.toNat_ofNat]
  exact Nat.mod_le _ _

/-- **What is lost.**  A product that does not fit ends too soon, from the first setup on. -/
theorem not_lasts (cfg : LedCfg) (hone : cfg.OneTime) (hn' : cfg.repeatCount.toNat ≤ 254)
    (hwrap : 2 ^ 16 ≤ cfg.repeatCount.toNat * cfg.time.toNat) : ¬ Lasts cfg := by
  intro h
  have hacc : deviceLedSetup idleLed cfg (clockTime 0) =
      ((deviceLedSetup idleLed cfg (clockTime 0)).1, true) := by
    have hidle : ¬ (idleLed.repeatCount ≠ 0#8 ∧ cfg.priority ≤ idleLed.priority) := fun hb =>
      hb.1 rfl
    rw [deviceLedSetup, if_neg hidle]
  have hsingle := single_of_setup hone hn' hacc
  have hproduct := toNat_product cfg
  have hbusy : (deviceLedSetup idleLed cfg (clockTime 0)).1.repeatCount ≠ 0#8 := by
    rw [hsingle.repeatCount]
    decide
  -- The poll that comes just after the product, as it is stored.
  have hend := (hsingle.process_iff (clockTime
    ((cfg.repeatCount.toNat * cfg.time.toNat % 2 ^ 16) * 16000 + 1))).mpr (by
      rw [hproduct, clockTime, clockTime]
      bv_omega)
  have hlasts := h idleLed _ 0 hacc [] (List.forall_mem_nil _) trivial _ (Nat.zero_le _) hbusy hend
  omega

/-- **When the phase lasts.** -/
theorem lasts_iff (cfg : LedCfg) (hone : cfg.OneTime) (hn' : cfg.repeatCount.toNat ≤ 254) :
    Lasts cfg ↔ cfg.repeatCount.toNat * cfg.time.toNat < 2 ^ 16 := by
  constructor
  · intro h
    by_contra hwrap
    exact not_lasts cfg hone hn' (not_lt.mp hwrap) h
  · intro hfits s s₁ t₀ hacc calls _ hrun t ht hbusy hend
    have hsingle := single_of_setup hone hn' hacc
    rcases single_run hsingle hrun with hsame | hidle
    · rw [hsame] at hend
      have hdue := (hsingle.process_iff _).mp hend
      rw [toNat_product, Nat.mod_eq_of_lt hfits] at hdue
      have hclock := clockTime_sub_le ht
      omega
    · exact absurd hidle hbusy

theorem lasts_ten_flashes :
    Lasts ⟨100#16, 0#16, 10#8, 0#8⟩ ↔ (10#8).toNat * (100#16).toNat < 2 ^ 16 :=
  lasts_iff ⟨100#16, 0#16, 10#8, 0#8⟩ (by decide) (by decide)

/-- A hundred seconds end after 34.464. -/
theorem not_lasts_hundred_seconds :
    ¬ ∀ cfg : LedCfg, cfg.OneTime → 1 ≤ cfg.repeatCount.toNat → cfg.repeatCount.toNat ≤ 254 →
      Lasts cfg := fun h =>
  not_lasts ⟨1000#16, 0#16, 100#8, 0#8⟩ (by decide) (by decide) (by decide)
    (h _ (by decide) (by decide) (by decide))

end TelinkB91.Led
