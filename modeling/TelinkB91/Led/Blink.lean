import TelinkB91.Lib.Runs
import TelinkB91.Ir.Learn

/-!
# Led — blinking

`device_led_setup` starts an event of the LED, unless one that is as important is going on, and
`led_proc`, called while `repeatCount` is not zero, ends the phase that is due.  The `history` holds
what `device_led_on_off` did to the pin.

* `Blinking.ledProc_lit`, `Blinking.ledProc_dark`: a poll after the time of a phase ends it.
* `Blinking.process`, `Blinking.setup`: what one call does.
* `blinking_run`, `Blinking.finishes`: what a run does, and how it comes to an end.
* `blink_count`: an event with two times lights the LED as often as it says, in turn with dark
  phases, one phase for each poll that is due, and ends dark; until then nothing but a more
  important event is accepted.
-/

namespace TelinkB91.Led
open Ir (ClockTimeExceed U8 U16 U32)
open Runs

/-- What `device_led_on_off` does to the pin. -/
structure Switch where
  gpio : U32
  value : U8
  outputEn : U8

/-- `device_led`, and what was done to the pin. -/
structure DeviceLed where
  isOn : U8
  polar : U8
  repeatCount : U8
  priority : U8
  onTimeMs : U16
  offTimeMs : U16
  gpioLed : U32
  startTick : U32
  history : List Switch

/-- `led_cfg_t`. -/
structure LedCfg where
  onTimeMs : U16
  offTimeMs : U16
  repeatCount : U8
  priority : U8

/-- `device_led_on_off`. -/
def DeviceLed.onOff (d : DeviceLed) (on : U8) : DeviceLed :=
  { d with isOn := on, history := d.history ++ [⟨d.gpioLed, on ^^^ d.polar, on⟩] }

/-- The times and the count that `device_led_setup` takes over. -/
def DeviceLed.program (d : DeviceLed) (cfg : LedCfg) : DeviceLed :=
  let d := { d with
    onTimeMs := cfg.onTimeMs
    offTimeMs := cfg.offTimeMs
    repeatCount := cfg.repeatCount
    priority := cfg.priority }
  if cfg.repeatCount = 0xff#8 then { d with repeatCount := 0#8 }
  else if d.onTimeMs = 0#16 then
    { d with offTimeMs := d.offTimeMs * d.repeatCount.setWidth 16, repeatCount := 1#8 }
  else if d.offTimeMs = 0#16 then
    { d with onTimeMs := d.onTimeMs * d.repeatCount.setWidth 16, repeatCount := 1#8 }
  else d

/-- `device_led_setup`, and whether it returns 1. -/
def deviceLedSetup (d : DeviceLed) (cfg : LedCfg) (now : U32) : DeviceLed × Bool :=
  if d.repeatCount ≠ 0#8 ∧ cfg.priority ≤ d.priority then (d, false)
  else
    let d := { d.program cfg with startTick := now }
    (d.onOff (if d.onTimeMs ≠ 0#16 then 1#8 else 0#8), true)

/-- `led_proc`. -/
def ledProc (d : DeviceLed) (now : U32) : DeviceLed :=
  if d.isOn ≠ 0#8 then
    if ClockTimeExceed now d.startTick (d.onTimeMs.setWidth 32 * 1000#32) then
      let d := d.onOff 0#8
      if d.offTimeMs ≠ 0#16 then
        { d with startTick := d.startTick + d.onTimeMs.setWidth 32 * 16000#32 }
      else { d with repeatCount := 0#8 }
    else d
  else
    if ClockTimeExceed now d.startTick (d.offTimeMs.setWidth 32 * 1000#32) then
      let d := { d with repeatCount := d.repeatCount - 1#8 }
      if d.repeatCount ≠ 0#8 then
        { d.onOff 1#8 with startTick := d.startTick + d.offTimeMs.setWidth 32 * 16000#32 }
      else d
    else d

/-- `device_led_process`. -/
def deviceLedProcess (d : DeviceLed) (now : U32) : DeviceLed :=
  if d.repeatCount ≠ 0#8 then ledProc d now else d

/-- A call of the application. -/
inductive Call where
  | process
  | setup (cfg : LedCfg)

/-- A call, and what the clock says. -/
structure Input where
  now : U32
  call : Call

/-- One call. -/
def step (d : DeviceLed) (i : Input) : DeviceLed :=
  match i.call with
  | .process => deviceLedProcess d i.now
  | .setup cfg => (deviceLedSetup d cfg i.now).1

/-- The calls in question: `device_led_process`, and while an event of this priority is going on,
also a setup that is not more important. -/
def Guard (priority : U8) (d : DeviceLed) (i : Input) : Prop :=
  match i.call with
  | .process => True
  | .setup cfg => d.repeatCount ≠ 0#8 ∧ cfg.priority ≤ priority

/-- The time of the phase that is going on is over. -/
def DeviceLed.PhaseOver (d : DeviceLed) (now : U32) : Prop :=
  ClockTimeExceed now d.startTick
    ((if d.isOn ≠ 0#8 then d.onTimeMs else d.offTimeMs).setWidth 32 * 1000#32)

instance (d : DeviceLed) (now : U32) : Decidable (d.PhaseOver now) :=
  inferInstanceAs (Decidable (ClockTimeExceed _ _ _))

/-- A poll that is due. -/
def Due (d : DeviceLed) (i : Input) : Prop :=
  match i.call with
  | .process => d.repeatCount ≠ 0#8 ∧ d.PhaseOver i.now
  | .setup _ => False

instance (d : DeviceLed) (i : Input) : Decidable (Due d i) :=
  match i with
  | ⟨now, .process⟩ => inferInstanceAs (Decidable (d.repeatCount ≠ 0#8 ∧ d.PhaseOver now))
  | ⟨_, .setup _⟩ => inferInstanceAs (Decidable False)

/-- `device_led_process` at these times. -/
def polls (nows : List U32) : List Input := nows.map fun now => ⟨now, .process⟩

/-- The first `k` of on, off, on, off and so on. -/
def blinks (k : Nat) : List U8 := (List.range k).map fun i => if i % 2 = 0 then 1#8 else 0#8

theorem blinks_succ (k : Nat) : blinks (k + 1) = blinks k ++ [if k % 2 = 0 then 1#8 else 0#8] := by
  rw [blinks, List.range_succ, List.map_append]
  rfl

/-- Half of them are on. -/
theorem count_blinks (k : Nat) : (blinks k).count 1#8 = (k + 1) / 2 := by
  induction k with
  | zero => rfl
  | succ k ih =>
      rw [blinks_succ, List.count_append, ih]
      by_cases heven : k % 2 = 0
      · rw [if_pos heven, List.count_singleton_self]
        omega
      · rw [if_neg heven, List.count_singleton, if_neg (by decide)]
        omega

/-- They are in turn. -/
theorem isChain_blinks (k : Nat) : (blinks k).IsChain (· ≠ ·) := by
  rw [List.isChain_iff_getElem]
  intro i hi
  simp only [blinks, List.getElem_map, List.getElem_range]
  by_cases heven : i % 2 = 0
  · rw [if_pos heven, if_neg (by omega)]
    decide
  · rw [if_neg heven, if_pos (by omega)]
    decide

@[simp] theorem length_blinks (k : Nat) : (blinks k).length = k := by simp [blinks]

theorem head?_blinks {k : Nat} (hk : 0 < k) : (blinks k).head? = some 1#8 := by
  obtain ⟨k, rfl⟩ := Nat.exists_eq_succ_of_ne_zero hk.ne'
  rw [blinks, List.range_succ_eq_map]
  rfl

/-- An even number of them ends with off. -/
theorem getLast?_blinks {n : Nat} (hn : 1 ≤ n) : (blinks (2 * n)).getLast? = some 0#8 := by
  obtain ⟨n, rfl⟩ := Nat.exists_eq_add_of_le' hn
  rw [Nat.mul_succ, blinks_succ, List.getLast?_concat, if_neg (by omega)]

/-! ### One call -/

/-- **A setup that is refused.** -/
theorem setup_refused {d : DeviceLed} {cfg : LedCfg} (hbusy : d.repeatCount ≠ 0#8)
    (hle : cfg.priority ≤ d.priority) (now : U32) : deviceLedSetup d cfg now = (d, false) :=
  if_pos ⟨hbusy, hle⟩

/-- **While an event is going on**, a setup is accepted just when it is more important. -/
theorem setup_accepted_iff {d : DeviceLed} (cfg : LedCfg) (hbusy : d.repeatCount ≠ 0#8)
    (now : U32) : (deviceLedSetup d cfg now).2 = true ↔ d.priority < cfg.priority := by
  rw [deviceLedSetup]
  by_cases hle : cfg.priority ≤ d.priority
  · rw [if_pos ⟨hbusy, hle⟩]
    exact ⟨fun h => (Bool.false_ne_true h).elim, fun h => absurd hle (BitVec.not_le.mpr h)⟩
  · rw [if_neg fun h => hle h.2]
    exact ⟨fun _ => BitVec.not_le.mp hle, fun _ => rfl⟩

/-- **A setup that is accepted.** -/
theorem eq_of_accepted {s s₁ : DeviceLed} {cfg : LedCfg} {now : U32}
    (hacc : deviceLedSetup s cfg now = (s₁, true)) :
    s₁ = DeviceLed.onOff { s.program cfg with startTick := now }
      (if (s.program cfg).onTimeMs ≠ 0#16 then 1#8 else 0#8) := by
  rw [deviceLedSetup] at hacc
  split at hacc
  · cases congrArg Prod.snd hacc
  · exact (congrArg Prod.fst hacc).symm

/-- The counts up to 254 are those of an event that ends. -/
theorem LedCfg.ne_long {cfg : LedCfg} (h : cfg.repeatCount.toNat ≤ 254) :
    cfg.repeatCount ≠ 0xff#8 := by
  intro heq
  rw [heq] at h
  exact absurd h (by decide)

section blink

variable {cfg : LedCfg} {before : List Switch} {j : Nat} {d : DeviceLed}

/-- The event `cfg` after `j` phases have ended, with `before` as what was done to the pin before.
The last phase, a dark one, is not followed by another. -/
structure Blinking (cfg : LedCfg) (before : List Switch) (j : Nat) (d : DeviceLed) : Prop where
  onTimeMs : d.onTimeMs = cfg.onTimeMs
  offTimeMs : d.offTimeMs = cfg.offTimeMs
  priority : d.priority = cfg.priority
  history : ∃ since, d.history = before ++ since ∧
    since.map Switch.outputEn = blinks (min (j + 1) (2 * cfg.repeatCount.toNat))
  isOn : d.isOn = if j % 2 = 0 ∧ j < 2 * cfg.repeatCount.toNat then 1#8 else 0#8
  ended : j ≤ 2 * cfg.repeatCount.toNat
  left : d.repeatCount.toNat + j / 2 = cfg.repeatCount.toNat

/-- The event is going on until its last phase has ended. -/
theorem Blinking.busy_iff (h : Blinking cfg before j d) :
    d.repeatCount ≠ 0#8 ↔ j < 2 * cfg.repeatCount.toNat := by
  have hleft := h.left
  have hended := h.ended
  rw [Ne, ← BitVec.toNat_inj]
  change d.repeatCount.toNat ≠ 0 ↔ _
  omega

/-- One more phase begins. -/
theorem history_onOff {k : Nat} {on : U8} (hon : on = if k % 2 = 0 then 1#8 else 0#8)
    (h : ∃ since, d.history = before ++ since ∧ since.map Switch.outputEn = blinks k) :
    ∃ since, (d.onOff on).history = before ++ since ∧
      since.map Switch.outputEn = blinks (k + 1) := by
  obtain ⟨since, hsince, hblinks⟩ := h
  refine ⟨since ++ [⟨d.gpioLed, on ^^^ d.polar, on⟩], ?_, ?_⟩
  · rw [DeviceLed.onOff, hsince, List.append_assoc]
  · rw [List.map_append, hblinks, blinks_succ, ← hon]
    rfl

/-- **A poll before the time is over** does nothing. -/
theorem ledProc_waits {now : U32} (hwait : ¬ d.PhaseOver now) : ledProc d now = d := by
  rw [DeviceLed.PhaseOver] at hwait
  rw [ledProc]
  by_cases hlit : d.isOn ≠ 0#8
  · rw [if_pos hlit] at hwait ⊢
    exact if_neg hwait
  · rw [if_neg hlit] at hwait ⊢
    exact if_neg hwait

/-- **The end of a lit phase.**  A dark one follows. -/
theorem Blinking.ledProc_lit (h : Blinking cfg before j d) (hmore : j < 2 * cfg.repeatCount.toNat)
    (heven : j % 2 = 0) (hoff : cfg.offTimeMs ≠ 0#16) {now : U32} (hover : d.PhaseOver now) :
    Blinking cfg before (j + 1) (ledProc d now) := by
  have hlit : d.isOn ≠ 0#8 := by
    rw [h.isOn, if_pos ⟨heven, hmore⟩]
    decide
  have hoff' : (d.onOff 0#8).offTimeMs ≠ 0#16 := by
    change d.offTimeMs ≠ 0#16
    rw [h.offTimeMs]
    exact hoff
  have hbegun : min (j + 1) (2 * cfg.repeatCount.toNat) = j + 1 := min_eq_left hmore
  have hnext : min (j + 1 + 1) (2 * cfg.repeatCount.toNat) = j + 1 + 1 := by omega
  have hhistory := h.history
  have hleft := h.left
  rw [DeviceLed.PhaseOver, if_pos hlit] at hover
  rw [ledProc, if_pos hlit, if_pos hover]
  dsimp only
  rw [if_pos hoff']
  rw [hbegun] at hhistory
  refine ⟨h.onTimeMs, h.offTimeMs, h.priority, ?_, ?_, hmore, ?_⟩
  · rw [hnext]
    exact history_onOff (if_neg (by omega)).symm hhistory
  · exact (if_neg fun hodd => by omega).symm
  · change d.repeatCount.toNat + (j + 1) / 2 = _
    omega

/-- **The end of a dark phase**, which is that of a repetition.  A lit one follows, unless it was
the last. -/
theorem Blinking.ledProc_dark (h : Blinking cfg before j d) (hmore : j < 2 * cfg.repeatCount.toNat)
    (hodd : j % 2 ≠ 0) {now : U32} (hover : d.PhaseOver now) :
    Blinking cfg before (j + 1) (ledProc d now) := by
  have hdark : ¬ d.isOn ≠ 0#8 := by
    rw [h.isOn, if_neg fun heven => hodd heven.1]
    decide
  have hleft := h.left
  have hpos : 0 < d.repeatCount.toNat := by omega
  have hpred : (d.repeatCount - 1#8).toNat = d.repeatCount.toNat - 1 := by bv_omega
  have hhistory := h.history
  rw [min_eq_left hmore] at hhistory
  rw [DeviceLed.PhaseOver, if_neg hdark] at hover
  rw [ledProc, if_neg hdark, if_pos hover]
  dsimp only
  by_cases hagain : d.repeatCount - 1#8 ≠ 0#8
  · have hpos' : 0 < (d.repeatCount - 1#8).toNat :=
      Nat.pos_of_ne_zero fun hz => hagain (BitVec.eq_of_toNat_eq hz)
    have hnext : min (j + 1 + 1) (2 * cfg.repeatCount.toNat) = j + 1 + 1 := by omega
    rw [if_pos hagain]
    refine ⟨h.onTimeMs, h.offTimeMs, h.priority, ?_, ?_, hmore, ?_⟩
    · rw [hnext]
      exact history_onOff (d := { d with repeatCount := d.repeatCount - 1#8 })
        (if_pos (by omega)).symm hhistory
    · exact (if_pos (by omega)).symm
    · change (d.repeatCount - 1#8).toNat + (j + 1) / 2 = _
      omega
  · have hlast : (d.repeatCount - 1#8).toNat = 0 := by
      rw [not_not.mp hagain]
      rfl
    have hnext : min (j + 1 + 1) (2 * cfg.repeatCount.toNat) = j + 1 := by omega
    rw [if_neg hagain]
    refine ⟨h.onTimeMs, h.offTimeMs, h.priority, ?_, ?_, hmore, ?_⟩
    · rw [hnext]
      exact hhistory
    · rw [if_neg (by omega)]
      exact not_not.mp hdark
    · change (d.repeatCount - 1#8).toNat + (j + 1) / 2 = _
      omega

/-- **`device_led_process`**: a phase ends when the poll is due, and else nothing happens. -/
theorem Blinking.process (h : Blinking cfg before j d) (hoff : cfg.offTimeMs ≠ 0#16) (now : U32) :
    Blinking cfg before (j + if Due d ⟨now, .process⟩ then 1 else 0) (deviceLedProcess d now) := by
  rw [deviceLedProcess]
  by_cases hbusy : d.repeatCount ≠ 0#8
  · rw [if_pos hbusy]
    by_cases hover : d.PhaseOver now
    · rw [if_pos ⟨hbusy, hover⟩]
      by_cases heven : j % 2 = 0
      · exact h.ledProc_lit (h.busy_iff.mp hbusy) heven hoff hover
      · exact h.ledProc_dark (h.busy_iff.mp hbusy) heven hover
    · rw [if_neg fun hdue => hover hdue.2, ledProc_waits hover]
      exact h
  · rw [if_neg hbusy, if_neg fun hdue => hbusy hdue.1]
    exact h

/-- **A setup, while the event is going on.** -/
theorem Blinking.setup (h : Blinking cfg before j d) {i : Input} (hi : Guard cfg.priority d i)
    {c : LedCfg} (hc : i.call = .setup c) : deviceLedSetup d c i.now = (d, false) := by
  rw [Guard, hc] at hi
  exact setup_refused hi.1 (h.priority.symm ▸ hi.2) i.now

/-- **One call.** -/
theorem Blinking.step (h : Blinking cfg before j d) (hoff : cfg.offTimeMs ≠ 0#16) {i : Input}
    (hi : Guard cfg.priority d i) :
    Blinking cfg before (j + if Due d i then 1 else 0) (step d i) := by
  obtain ⟨now, call⟩ := i
  cases call with
  | process => exact h.process hoff now
  | setup c =>
      have hnone : ¬ Due d ⟨now, .setup c⟩ := fun hdue => hdue
      rw [Led.step, if_neg hnone]
      dsimp only
      rw [h.setup hi rfl]
      exact h

/-- **The setup that starts the event.** -/
theorem blinking_of_setup {s s₁ : DeviceLed} {now : U32} (hn : 1 ≤ cfg.repeatCount.toNat)
    (hn' : cfg.repeatCount.toNat ≤ 254) (hon : cfg.onTimeMs ≠ 0#16) (hoff : cfg.offTimeMs ≠ 0#16)
    (hacc : deviceLedSetup s cfg now = (s₁, true)) : Blinking cfg s.history 0 s₁ := by
  have hprog : s.program cfg = { s with
      onTimeMs := cfg.onTimeMs
      offTimeMs := cfg.offTimeMs
      repeatCount := cfg.repeatCount
      priority := cfg.priority } := by
    rw [DeviceLed.program]
    exact (if_neg (LedCfg.ne_long hn')).trans ((if_neg hon).trans (if_neg hoff))
  have hbegun : min (0 + 1) (2 * cfg.repeatCount.toNat) = 1 := by omega
  rw [eq_of_accepted hacc, hprog]
  dsimp only
  rw [if_pos hon]
  refine ⟨rfl, rfl, rfl, ?_, ?_, Nat.zero_le _, Nat.add_zero _⟩
  · rw [hbegun]
    exact ⟨[⟨s.gpioLed, 1#8 ^^^ s.polar, 1#8⟩], rfl, rfl⟩
  · exact (if_pos ⟨rfl, by omega⟩).symm

/-- **A run.**  As many phases have ended as polls were due. -/
theorem blinking_run {s₁ : DeviceLed} (h : Blinking cfg before j s₁)
    (hoff : cfg.offTimeMs ≠ 0#16) {is : List Input}
    (hrun : Along step (Guard cfg.priority) s₁ is) :
    Blinking cfg before (j + tally step Due s₁ is) (runFrom step s₁ is) :=
  hrun.counted (I := Blinking cfg before) (fun _ _ _ hj hi => hj.step hoff hi) h

/-- Every phase is over at some time. -/
theorem exists_phaseOver (d : DeviceLed) : ∃ now, d.PhaseOver now := by
  refine ⟨d.startTick +
    ((if d.isOn ≠ 0#8 then d.onTimeMs else d.offTimeMs).setWidth 32 * 1000#32 * 16#32 + 1#32), ?_⟩
  rw [DeviceLed.PhaseOver, ClockTimeExceed, add_sub_cancel_left]
  have hms := (if d.isOn ≠ 0#8 then d.onTimeMs else d.offTimeMs).isLt
  bv_omega

/-- **The end.**  From wherever it is, the event ends after a poll for each phase that is left. -/
theorem Blinking.finishes (h : Blinking cfg before j d) (hoff : cfg.offTimeMs ≠ 0#16) :
    ∃ nows : List U32, nows.length = 2 * cfg.repeatCount.toNat - j ∧
      (runFrom Led.step d (polls nows)).repeatCount = 0#8 := by
  obtain ⟨m, hm⟩ : ∃ m, m = 2 * cfg.repeatCount.toNat - j := ⟨_, rfl⟩
  have hended := h.ended
  induction m generalizing j d with
  | zero =>
      refine ⟨[], hm, not_not.mp fun hbusy => ?_⟩
      have hmore := h.busy_iff.mp hbusy
      omega
  | succ m ih =>
      have hbusy : d.repeatCount ≠ 0#8 := h.busy_iff.mpr (by omega)
      obtain ⟨now, hover⟩ := exists_phaseOver d
      have hnext := h.process hoff now
      rw [if_pos ⟨hbusy, hover⟩] at hnext
      obtain ⟨nows, hlength, hdone⟩ := ih hnext (by omega) (by omega)
      refine ⟨now :: nows, ?_, hdone⟩
      rw [List.length_cons, hlength]
      omega

end blink

/-- **The count and the priority.**  In every run after a setup that was accepted, with two times
and a count from 1 to 254: each setup on the way is refused and changes nothing; the LED goes on
and off in turn, on at first, one phase for each poll that is due until there are two for each
repetition; `DEVICE_LED_BUSY` is 0 just when so many polls were due, and then the LED has gone on as
often as the count, and is off; as many polls as phases are left end the event; and until then
nothing but a more important event is accepted. -/
theorem blink_count (s s₁ : DeviceLed) (cfg : LedCfg) (now : U32)
    (hn : 1 ≤ cfg.repeatCount.toNat) (hn' : cfg.repeatCount.toNat ≤ 254)
    (hon : cfg.onTimeMs ≠ 0#16) (hoff : cfg.offTimeMs ≠ 0#16)
    (hacc : deviceLedSetup s cfg now = (s₁, true)) (is : List Input)
    (hrun : Along step (Guard cfg.priority) s₁ is) :
    Along step (fun d i => ∀ c, i.call = .setup c → deviceLedSetup d c i.now = (d, false)) s₁ is ∧
      (∃ since, (runFrom step s₁ is).history = s.history ++ since ∧
        (since.map Switch.outputEn).head? = some 1#8 ∧
        (since.map Switch.outputEn).IsChain (· ≠ ·) ∧
        since.length = min (tally step Due s₁ is + 1) (2 * cfg.repeatCount.toNat) ∧
        (since.map Switch.outputEn).count 1#8 ≤ cfg.repeatCount.toNat ∧
        ((runFrom step s₁ is).repeatCount = 0#8 →
          (since.map Switch.outputEn).count 1#8 = cfg.repeatCount.toNat ∧
            (runFrom step s₁ is).isOn = 0#8 ∧
            (since.map Switch.outputEn).getLast? = some 0#8)) ∧
      ((runFrom step s₁ is).repeatCount = 0#8 ↔
        tally step Due s₁ is = 2 * cfg.repeatCount.toNat) ∧
      (∃ nows : List U32, nows.length = 2 * cfg.repeatCount.toNat - tally step Due s₁ is ∧
        (runFrom step s₁ (is ++ polls nows)).repeatCount = 0#8) ∧
      ((runFrom step s₁ is).repeatCount ≠ 0#8 → ∀ c now',
        (deviceLedSetup (runFrom step s₁ is) c now').2 = true ↔ cfg.priority < c.priority) := by
  have hstart := blinking_of_setup hn hn' hon hoff hacc
  have hend := blinking_run hstart hoff hrun
  rw [Nat.zero_add] at hend
  have hended := hend.ended
  refine ⟨?_, ?_, ?_, ?_, fun hbusy c now' => ?_⟩
  · exact hrun.derive (I := fun d => ∃ j, Blinking cfg s.history j d)
      (fun _ _ ⟨_, hj⟩ hi => ⟨_, hj.step hoff hi⟩) (fun _ _ ⟨_, hj⟩ hi _ hc => hj.setup hi hc)
      ⟨0, hstart⟩
  · obtain ⟨since, hsince, hblinks⟩ := hend.history
    have hlength : since.length = min (tally step Due s₁ is + 1) (2 * cfg.repeatCount.toNat) := by
      rw [← List.length_map Switch.outputEn, hblinks, length_blinks]
    refine ⟨since, hsince, ?_, hblinks ▸ isChain_blinks _, hlength, ?_, fun hdone => ?_⟩
    · rw [hblinks]
      exact head?_blinks (by omega)
    · rw [hblinks, count_blinks]
      omega
    · have hall : min (tally step Due s₁ is + 1) (2 * cfg.repeatCount.toNat) =
          2 * cfg.repeatCount.toNat := by
        have hmore := mt hend.busy_iff.mpr (not_not.mpr hdone)
        omega
      have hidle : ¬ tally step Due s₁ is < 2 * cfg.repeatCount.toNat :=
        mt hend.busy_iff.mpr (not_not.mpr hdone)
      refine ⟨?_, ?_, ?_⟩
      · rw [hblinks, hall, count_blinks]
        omega
      · rw [hend.isOn, if_neg fun hlit => hidle hlit.2]
      · rw [hblinks, hall]
        exact getLast?_blinks hn
  · rw [← not_iff_not, ← Ne, hend.busy_iff]
    omega
  · obtain ⟨nows, hlength, hdone⟩ := hend.finishes hoff
    refine ⟨nows, hlength, ?_⟩
    rw [runFrom_append]
    exact hdone
  · exact hend.priority ▸ setup_accepted_iff c hbusy now'

/-- An LED with nothing to do. -/
def idleLed : DeviceLed := ⟨0#8, 0#8, 0#8, 0#8, 0#16, 0#16, 1#32, 0#32, []⟩

/-- Two flashes of 100 ms. -/
def twoFlashes : LedCfg := ⟨100#16, 100#16, 2#8, 1#8⟩

/-- Polls too soon, late and in time, and a setup that is refused. -/
def someCalls : List Input :=
  [⟨1600000#32, .process⟩, ⟨1600001#32, .process⟩, ⟨1600002#32, .setup twoFlashes⟩,
    ⟨5000000#32, .process⟩, ⟨5000001#32, .process⟩]

theorem blink_count_twice :
    Along step (fun d i => ∀ c, i.call = .setup c → deviceLedSetup d c i.now = (d, false))
        (deviceLedSetup idleLed twoFlashes 0#32).1 someCalls ∧
      ∃ nows : List U32, nows.length = 1 ∧
        (runFrom step (deviceLedSetup idleLed twoFlashes 0#32).1
          (someCalls ++ polls nows)).repeatCount = 0#8 := by
  have hcount := blink_count idleLed _ twoFlashes 0#32 (by decide) (by decide) (by decide)
    (by decide) rfl someCalls ⟨trivial, trivial, ⟨by decide, by decide⟩, trivial, trivial, trivial⟩
  exact ⟨hcount.1, hcount.2.2.2.1⟩

end TelinkB91.Led
