import TelinkB91.Audio.Abuf

/-!
# Audio — samples that are lost

The two variants for a GATT service decode only while a frame of `abuf_dec` is free.  In the others
that test is missing: the variant for the HID service sets the reader to the writer when more than
four frames lie between them, but decodes the fifth over the first; and the variants that decode
SBC do not look at the reader at all.

A frame decoded costs those samples of its slot that were neither sent nor given up with all others
when the reader was set to the writer; `lost` holds their places.

* `Window.step`: what one step keeps of the samples that are still to be sent.
* `unread_kept`: in every run in which a frame is decoded only into a slot that is free, and, where
  frames are not whole packets, packets are of decoded samples, none is lost.
* `free_hid`: what that is in the variant for the HID service.
* `lost_of_decodes`, `unread_lost`: a frame decoded into a slot that is not free; the fifth frame in
  that variant, and the ninth in those that decode SBC.
-/

namespace TelinkB91.Audio.Abuf
open ByteMemory Ring RoundLine Runs

variable {σ : Type}

section guards

variable (C : Conf σ) (s : Dongle σ)

/-- A frame is decoded while a slot is free; and where frames are not whole packets, a packet is of
decoded samples. -/
def Free : Op → Prop
  | .add _ => True
  | .dec => C.kind = .hid ∨ s.abufReset = 0 → s.Decodes C →
      ((s.before C).numDec C).toNat < C.decFrames
  | .usb exceeded => ¬ usbIsoInSize ∣ C.micShortDecSize → (s.tick C exceeded).Sending C →
      (s.tick C exceeded).Covered C

instance : (op : Op) → Decidable (Free C s op)
  | .add _ => .isTrue trivial
  | .dec => inferInstanceAs (Decidable (_ ∨ _ → _ → _))
  | .usb _ => inferInstanceAs (Decidable (¬ _ → _ → _))

end guards

/-- Between two steps: the samples still to be sent lie between the sample `r` of the reader and
the frame `w` of the writer. -/
structure Window (C : Conf σ) (s : Dongle σ) (r w : Nat) : Prop extends Sync C s r w where
  room : w ≤ r / C.micShortDecSize + C.decFrames + 1
  whole : usbIsoInSize ∣ C.micShortDecSize → usbIsoInSize ∣ r
  unread : ∀ x, s.unread x = true → ∃ y, r ≤ y ∧ y < w * C.micShortDecSize ∧
    x = y % C.decBufferSize

section steps

variable {C : Conf σ} {s : Dongle σ} {r w : Nat}

/-- A step that leaves the ring alone. -/
theorem Window.congr {s' : Dongle σ} (h : Window C s r w) (hrptr : s'.abufDecRptr = s.abufDecRptr)
    (hwptr : s'.abufDecWptr = s.abufDecWptr) (hunread : s'.unread = s.unread) :
    Window C s' r w := by
  refine ⟨h.toSync.congr hrptr hwptr, h.room, h.whole, ?_⟩
  rw [hunread]
  exact h.unread

theorem Met.window (h : Met C s) :
    Window C s (s.abufDecWptr.toNat * C.micShortDecSize) s.abufDecWptr.toNat := by
  refine ⟨h.sync, ?_, fun hdvd => Nat.dvd_mul_left_of_dvd hdvd _, ?_⟩
  · rw [Nat.mul_div_cancel _ C.size_pos, Nat.add_assoc]
    exact Nat.le_add_right _ _
  · intro x hx
    rw [h.unread x] at hx
    exact nomatch hx

/-! ### Decoding -/

/-- **A free slot.**  It holds no sample that is still to be sent. -/
theorem Window.slot_read (h : Window C s r w) (hfree : (s.numDec C).toNat < C.decFrames) {x : Nat}
    (hle : C.decAddr s.abufDecWptr ≤ x)
    (hlt : x < C.decAddr s.abufDecWptr + C.micShortDecSize) : s.unread x = false := by
  rw [Bool.eq_false_iff]
  intro hx
  obtain ⟨y, hry, hyw, rfl⟩ := h.unread x hx
  rw [numDec_eq h.toSync] at hfree
  have hrframe := Nat.div_le_div_right (c := C.micShortDecSize) hry
  have hframe : y / C.micShortDecSize < w := (Nat.div_lt_iff_lt_mul C.size_pos).mpr hyw
  -- its frame and the writer's have one slot, and are less than a ring apart
  have hslot : y % C.decBufferSize / C.micShortDecSize = w % C.decFrames := by
    rw [decAddr_eq h.toSync, Conf.decBufferSize, Nat.mul_mod_mul_right] at hle hlt
    refine Nat.div_eq_of_lt_le hle ?_
    rw [Nat.succ_mul]
    exact hlt
  rw [Conf.decBufferSize, Nat.mod_mul_left_div_self] at hslot
  exact mod_ne hframe (by omega) hslot

/-- **A frame decoded into a free slot.** -/
theorem Window.decodeFrame (h : Window C s r w) (hfree : (s.numDec C).toNat < C.decFrames) :
    Window C (s.decodeFrame C) r (w + 1) ∧ (s.decodeFrame C).lost = s.lost := by
  have hsize := C.decFrames_isSize.le
  have hnum := numDec_eq h.toSync
  have haddr := decAddr_eq h.toSync
  have hlen : ((s.pcm C).1.map fun _ => true).length = C.micShortDecSize := by
    rw [List.length_map]
    exact C.length_decode _ _
  constructor
  · refine ⟨h.toSync.next rfl rfl (by omega), by omega, h.whole, ?_⟩
    intro x hx
    change write s.unread (C.decAddr s.abufDecWptr) ((s.pcm C).1.map fun _ => true) x = true at hx
    have hnext : (w + 1) * C.micShortDecSize = w * C.micShortDecSize + C.micShortDecSize :=
      Nat.succ_mul _ _
    by_cases hin : C.decAddr s.abufDecWptr ≤ x ∧ x < C.decAddr s.abufDecWptr + C.micShortDecSize
    · obtain ⟨j, rfl⟩ := Nat.exists_eq_add_of_le hin.1
      have hj : j < C.micShortDecSize := by omega
      have hfit := C.frame_fits w
      have hmod : (w * C.micShortDecSize + j) % C.decBufferSize =
          w * C.micShortDecSize % C.decBufferSize + j := by
        rw [← Nat.mod_add_mod, Nat.mod_eq_of_lt (by omega)]
      refine ⟨w * C.micShortDecSize + j, h.le.trans (Nat.le_add_right _ _), by omega, ?_⟩
      rw [haddr, hmod]
    · rw [write_apart (by omega)] at hx
      obtain ⟨y, hry, hyw, rfl⟩ := h.unread x hx
      exact ⟨y, hry, by omega, rfl⟩
  · change s.lost ++ _ = s.lost
    have hnone :
        (List.range' (C.decAddr s.abufDecWptr) C.micShortDecSize).filter s.unread = [] := by
      refine List.filter_eq_nil_iff.mpr fun x hx => ?_
      obtain ⟨hle, hlt⟩ := List.mem_range'_1.mp hx
      rw [h.slot_read hfree hle hlt]
      exact Bool.false_ne_true
    rw [hnone, List.append_nil]

/-- A frame given up in case of overflow. -/
theorem Window.skip (h : Window C s r w) (hroom : w ≤ r / C.micShortDecSize + C.decFrames) :
    Window C s.skip r (w + 1) := by
  have hsize := C.decFrames_isSize.le
  refine ⟨h.toSync.next rfl rfl (by omega), Nat.succ_le_succ hroom, h.whole, ?_⟩
  intro x hx
  obtain ⟨y, hry, hyw, hy⟩ := h.unread x hx
  exact ⟨y, hry, hyw.trans_le (Nat.mul_le_mul_right _ w.le_succ), hy⟩

/-- An overflow that was seen to. -/
theorem Window.before (h : Window C s r w)
    (hroom : C.kind ≠ .hid → C.micFrames < s.numMic.toNat →
      w ≤ r / C.micShortDecSize + C.decFrames) : ∃ r w, Window C (s.before C) r w := by
  rw [Dongle.before]
  split
  · split
    · exact ⟨_, _, (met_resync C s).window⟩
    · exact ⟨r, w, h⟩
  · rename_i hkind
    split
    · rename_i hover
      exact ⟨r, w + 1, h.skip (hroom hkind hover)⟩
    · exact ⟨r, w, h⟩

theorem before_lost (C : Conf σ) (s : Dongle σ) : (s.before C).lost = s.lost := by
  rw [Dongle.before]
  split
  · split
    · rfl
    · rfl
  · split
    · rfl
    · rfl

theorem before_skip (hkind : C.kind ≠ .hid) (hover : C.micFrames < s.numMic.toNat) :
    s.before C = s.skip := by
  rw [Dongle.before]
  split
  · rename_i hhid
    exact absurd hhid hkind
  · exact if_pos hover

/-! ### Sending -/

/-- The reader after a packet: 16 samples on, or less. -/
theorem exists_nextRptr (h : Sync C s r w) : ∃ r', r ≤ r' ∧ r' ≤ r + usbIsoInSize ∧ 8 ∣ r' ∧
    (usbIsoInSize ∣ C.micShortDecSize → usbIsoInSize ∣ r → usbIsoInSize ∣ r') ∧
      (s.nextRptr C).toNat = r' % (256 * C.micShortDecSize) := by
  have hpos : 0 < 256 * C.micShortDecSize := Nat.mul_pos (by decide) C.size_pos
  have hlt := Nat.mod_lt r hpos
  by_cases hwrap : s.abufDecRptr.toNat + usbIsoInSize ≤ 256 * C.micShortDecSize
  · refine ⟨r + usbIsoInSize, Nat.le_add_right _ _, le_rfl, Nat.dvd_add h.phase (by decide),
      fun _ hdvd => Nat.dvd_add hdvd (Nat.dvd_refl _), ?_⟩
    rw [nextRptr_eq hwrap, h.rptr, Nat.mod_add_mod]
  · have hle := C.size_le
    have hturn : 8 ∣ 256 * C.micShortDecSize := Nat.dvd_mul_left_of_dvd C.eight_dvd _
    have hphase : 8 ∣ r % (256 * C.micShortDecSize) := (Nat.dvd_mod_iff hturn).mpr h.phase
    rw [nextRptr_toNat, h.rptr]
    rw [h.rptr] at hwrap
    rcases Nat.lt_or_eq_of_le hle with hless | hfull
    · -- over the end of the 256 frames: the reader is set to 0
      have hnext : r + (256 * C.micShortDecSize - r % (256 * C.micShortDecSize)) =
          256 * C.micShortDecSize * (r / (256 * C.micShortDecSize) + 1) := by
        have hdiv := Nat.div_add_mod r (256 * C.micShortDecSize)
        rw [Nat.mul_succ]
        omega
      rw [usbIsoInSize] at hwrap ⊢
      refine ⟨_, Nat.le_add_right r (256 * C.micShortDecSize - r % (256 * C.micShortDecSize)),
        by omega, ?_, ?_, ?_⟩
      · rw [hnext]
        exact Nat.dvd_mul_right_of_dvd hturn _
      · intro _ _
        rw [hnext]
        exact Nat.dvd_mul_right_of_dvd (Nat.dvd_mul_right_of_dvd (by decide) _) _
      · rw [hnext, Nat.mul_mod_right, if_pos (by omega)]
    · -- a turn is all of the 16 bits
      refine ⟨r + usbIsoInSize, Nat.le_add_right _ _, le_rfl, Nat.dvd_add h.phase (by decide),
        fun _ hdvd => Nat.dvd_add hdvd (Nat.dvd_refl _), ?_⟩
      rw [if_neg (by omega), hfull, Nat.mod_add_mod]

/-- **A packet sent.** -/
theorem Window.send (h : Window C s r w) (hle : r + usbIsoInSize ≤ w * C.micShortDecSize) :
    ∃ r, Window C (s.send C) r w := by
  obtain ⟨r', hr, hr', hphase, hwhole, hrptr⟩ := exists_nextRptr h.toSync
  have hdiv : r / C.micShortDecSize ≤ r' / C.micShortDecSize := Nat.div_le_div_right hr
  refine ⟨r', ⟨hrptr, h.wptr, hr'.trans hle, ?_, hphase⟩, ?_,
    fun hdvd => hwhole hdvd (h.whole hdvd), ?_⟩
  · exact h.lap.trans_le (Nat.add_le_add_right hdiv _)
  · exact h.room.trans (Nat.add_le_add_right (Nat.add_le_add_right hdiv _) _)
  · intro x hx
    change (if x ∈ s.isoPositions C then false else s.unread x) = true at hx
    split at hx
    · exact nomatch hx
    · rename_i hsent
      obtain ⟨y, hry, hyw, rfl⟩ := h.unread x hx
      refine ⟨y, ?_, hyw, rfl⟩
      -- a sample in front of the new reader was in the packet
      by_contra hlt
      obtain ⟨i, rfl⟩ := Nat.exists_eq_add_of_le hry
      refine hsent ?_
      rw [isoPositions_eq h.toSync]
      exact List.mem_map.mpr ⟨i, List.mem_range.mpr (by omega), rfl⟩

/-- Where frames are whole packets, so is what lies between the pointers. -/
theorem Window.sending_le (h : Window C s r w) (hsending : s.Sending C)
    (hfree : ¬ usbIsoInSize ∣ C.micShortDecSize → s.Covered C) :
    r + usbIsoInSize ≤ w * C.micShortDecSize := by
  by_cases hdvd : usbIsoInSize ∣ C.micShortDecSize
  · have hlt := numDec_ne h.toSync hsending.1
    have hr := h.whole hdvd
    have hw : usbIsoInSize ∣ w * C.micShortDecSize := Nat.dvd_mul_left_of_dvd hdvd _
    rw [usbIsoInSize] at hr hw ⊢
    omega
  · exact covered_le h.toSync (hfree hdvd)

/-! ### Steps -/

/-- Between two steps: no sample is lost, and the pointers are in a window or about to meet. -/
def Kept (C : Conf σ) (s : Dongle σ) : Prop :=
  s.lost = [] ∧ (C.kind ≠ .hid ∧ s.abufReset ≠ 0 ∨ ∃ r w, Window C s r w)

/-- More frames than `abuf_mic` holds are enough to decode one. -/
theorem due_of_overflow (C : Conf σ) (h : C.micFrames < s.numMic.toNat) : s.Due := by
  have hpos := C.micFrames_isSize.pos
  have htwo : s.numMic ≥ 2#8 := Nat.lt_of_le_of_lt hpos h
  cases hstart : s.start with
  | false => exact .inl ⟨by rw [hstart]; exact Bool.false_ne_true, Nat.le_of_succ_le htwo⟩
  | true => exact .inr ⟨hstart, htwo⟩

/-- **One call of `abuf_mic_dec`.** -/
theorem Kept.abufMicDec (h : Kept C s) (hfree : Free C s .dec) : Kept C (s.abufMicDec C) := by
  obtain ⟨hlost, hwindow⟩ := h
  have hbefore : (s.before C).lost = [] := (before_lost C s).trans hlost
  have hcases := micDec C s
  generalize s.abufMicDec C = s' at hcases
  cases hcases with
  | dropped hkind hreset => exact ⟨hlost, .inl ⟨hkind, hreset⟩⟩
  | decoded hrun hdecodes =>
      have hslot := hfree hrun hdecodes
      rcases hwindow with ⟨hkind, hreset⟩ | ⟨r, w, hwindow⟩
      · exact absurd (hrun.resolve_left hkind) hreset
      · have hroom : C.kind ≠ .hid → C.micFrames < s.numMic.toNat →
            w ≤ r / C.micShortDecSize + C.decFrames := by
          intro hkind hover
          -- the frame given up counts
          have hlap := hwindow.room
          have hsize := C.decFrames_isSize.le
          have hskip : Sync C s.skip r (w + 1) := hwindow.toSync.next rfl rfl (by omega)
          rw [before_skip hkind hover, numDec_eq hskip] at hslot
          omega
        obtain ⟨r', w', hwindow'⟩ := hwindow.before hroom
        obtain ⟨hnext, hsame⟩ := hwindow'.decodeFrame hslot
        exact ⟨hsame.trans hbefore, .inr ⟨_, _, hnext⟩⟩
  | waited hrun hdecodes hroom =>
      refine ⟨hbefore, ?_⟩
      rcases hwindow with ⟨hkind, hreset⟩ | ⟨r, w, hwindow⟩
      · exact absurd (hrun.resolve_left hkind) hreset
      · refine .inr (hwindow.before fun hkind hover => ?_)
        by_cases hgatt : C.kind = .gatt
        · have hle := hroom hgatt
          rw [numDec_eq hwindow.toSync] at hle
          omega
        · exact absurd ⟨due_of_overflow C hover, fun h => absurd h hgatt⟩ hdecodes
  | reset hkind hrun hover =>
      refine ⟨hbefore, .inl ⟨?_, nofun⟩⟩
      rw [hkind]
      exact Kind.noConfusion

/-- **One call of `abuf_dec_usb`.** -/
theorem Kept.usb (h : Kept C s) {exceeded : Bool} (hfree : Free C s (.usb exceeded)) :
    Kept C (s.abufDecUsb C exceeded) := by
  obtain ⟨hlost, hwindow⟩ := h
  have htick : (s.tick C exceeded).lost = [] ∧ ∃ r w, Window C (s.tick C exceeded) r w := by
    rcases tick_cases C s exceeded with ⟨n, -, heq⟩ | ⟨-, hreset, heq⟩
    · have hmet := (met_resync C s).window
      rw [heq]
      exact ⟨hlost, _, _, hmet.congr rfl rfl rfl⟩
    · rcases hwindow with ⟨-, hne⟩ | ⟨r, w, hwindow⟩
      · exact absurd hreset hne
      · rw [heq]
        exact ⟨hlost, r, w, hwindow.congr rfl rfl rfl⟩
  obtain ⟨hlost', r, w, hwindow'⟩ := htick
  rcases abufDecUsb_cases C s exceeded with ⟨hsending, heq⟩ | ⟨-, ep7, bufferEmpty, heq⟩
  · have hle := hwindow'.sending_le hsending fun hdvd => hfree hdvd hsending
    obtain ⟨r', hsent⟩ := hwindow'.send hle
    rw [heq]
    exact ⟨hlost', .inr ⟨r', w, hsent⟩⟩
  · rw [heq]
    exact ⟨hlost', .inr ⟨r, w, hwindow'.congr rfl rfl rfl⟩⟩

/-- **One step.** -/
theorem Kept.step (h : Kept C s) {op : Op} (hfree : Free C s op) : Kept C (s.step C op) := by
  cases op with
  | add p =>
      obtain ⟨hlost, hkept | ⟨r, w, hwindow⟩⟩ := h
      · exact ⟨hlost, .inl hkept⟩
      · exact ⟨hlost, .inr ⟨r, w, hwindow.congr rfl rfl rfl⟩⟩
  | dec => exact h.abufMicDec hfree
  | usb exceeded => exact h.usb hfree

end steps

/-! ### Runs -/

/-- **No sample is lost.**  In every run, from pointers that meet, in which a frame is decoded only
while a slot is free, and in which packets are of decoded samples where frames are not whole
packets, no frame is decoded over a sample that is still to be sent. -/
theorem unread_kept (C : Conf σ) {s : Dongle σ} (hmet : Met C s) (hlost : s.lost = [])
    {ops : List Op} (hfree : Along (Dongle.step C) (Free C) s ops) :
    (runFrom (Dongle.step C) s ops).lost = [] := by
  have hstep : ∀ s op, Kept C s → Free C s op → Kept C (s.step C op) := by
    intro s op h hop
    exact h.step hop
  exact (hfree.invariant hstep ⟨hlost, .inr ⟨_, _, hmet.window⟩⟩).1

theorem numDec_resync (C : Conf σ) (s : Dongle σ) : ((s.resync C).numDec C).toNat = 0 := by
  rw [numDec_eq (met_resync C s).sync, Nat.mul_div_cancel _ C.size_pos]
  exact Nat.sub_self _

/-- **The HID variant** is to decode at any number of frames but four. -/
theorem free_hid (s : Dongle State) : Free hid s .dec ↔ (s.Due → (s.numDec hid).toNat ≠ 4) := by
  have hdecodes : s.Decodes hid ↔ s.Due := ⟨fun h => h.1, fun h => ⟨h, nofun⟩⟩
  have hbefore : s.before hid = if (s.numDec hid).toNat > 4 then s.resync hid else s := rfl
  have hnum : ((s.before hid).numDec hid).toNat < 4 ↔ (s.numDec hid).toNat ≠ 4 := by
    rw [hbefore]
    split
    · rename_i hover
      rw [numDec_resync]
      exact ⟨fun _ => Nat.ne_of_gt hover, fun _ => by decide⟩
    · rename_i hroom
      omega
  constructor
  · intro h hdue
    exact hnum.mp (h (.inl rfl) (hdecodes.mpr hdue))
  · intro h _ hdec
    exact hnum.mpr (h (hdecodes.mp hdec))

/-- Three frames, a packet, and a fourth frame. -/
def hidOps : List Op := frames 3 1 ++ [Op.add fun _ => 0#8, Op.dec]

/-- Eight frames, and a packet. -/
def msbcOps : List Op := frames 8 1

theorem unread_kept_runs :
    (runFrom (Dongle.step hid) (.ready hid ⟨0, 0⟩ 0#8) hidOps).lost = [] ∧
      (runFrom (Dongle.step (msbc (deaf 120))) (.ready (msbc (deaf 120)) () 0#8) msbcOps).lost =
        [] :=
  ⟨unread_kept hid (met_ready hid ⟨0, 0⟩ 0#8) rfl (by decide +kernel),
    unread_kept (msbc (deaf 120)) (met_ready _ () 0#8) rfl (by decide +kernel)⟩

/-- **A frame over samples.**  A sample that is still to be sent is lost where a frame is decoded
into its slot. -/
theorem lost_of_decodes {C : Conf σ} {s : Dongle σ} {x : Nat}
    (hrun : C.kind = .hid ∨ s.abufReset = 0) (hdecodes : s.Decodes C)
    (hle : C.decAddr (s.before C).abufDecWptr ≤ x)
    (hlt : x < C.decAddr (s.before C).abufDecWptr + C.micShortDecSize)
    (hx : (s.before C).unread x = true) : x ∈ (s.abufMicDec C).lost := by
  have hcases := micDec C s
  generalize s.abufMicDec C = s' at hcases
  cases hcases with
  | dropped hkind hreset => exact absurd (hrun.resolve_left hkind) hreset
  | decoded =>
      refine List.mem_append_right _ (List.mem_filter.mpr ⟨?_, hx⟩)
      exact List.mem_range'_1.mpr ⟨hle, hlt⟩
  | waited _ hwaits => exact absurd hdecodes hwaits
  | reset hkind _ hover =>
      have hroom := hdecodes.2 hkind
      omega

/-- Four frames decoded with no packet between, and a fifth received. -/
def hidFour : Dongle State :=
  runFrom (Dongle.step hid) (.ready hid ⟨0, 0⟩ 0#8) (frames 4 0 ++ [Op.add fun _ => 0#8])

/-- Eight frames decoded with no packet between, and a ninth received. -/
def sbcEight : Dongle Unit :=
  runFrom (Dongle.step (sbc (deaf 80))) (.ready (sbc (deaf 80)) () 0#8)
    (frames 8 0 ++ [Op.add fun _ => 0#8])

/-- The next frame is decoded over the first, of which no sample was sent. -/
theorem unread_lost : 0 ∈ (hidFour.abufMicDec hid).lost ∧
    0 ∈ (sbcEight.abufMicDec (sbc (deaf 80))).lost := by
  constructor
  · exact lost_of_decodes (.inl rfl) (by decide +kernel) (by decide +kernel) (by decide +kernel)
      (by decide +kernel)
  · exact lost_of_decodes (.inr (by decide +kernel)) (by decide +kernel) (by decide +kernel)
      (by decide +kernel) (by decide +kernel)

end TelinkB91.Audio.Abuf
