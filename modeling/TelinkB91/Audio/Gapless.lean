import TelinkB91.Audio.Abuf

/-!
# Audio — the drain of the dongle

`abuf_dec_usb` sends a packet whenever a frame is between the pointers, and counts the frame the
reader is in.  Neither 248 nor 120 samples are whole packets, and two things go wrong where the
reader is not at a whole packet of the line.

* With one frame left, of which eight samples are left, the packet goes on into the frame behind,
  which is not decoded yet; the reader is in front of the writer then.
* `abuf_dec_rptr` is set to 0 where a packet reaches over the end of its 256 frames, and not to 8.

`Whole` leaves out these two.

* `Drained.step`: what one step keeps between what was decoded and what was sent.
* `drain_gapless`: in every run without a reset and an overflow whose packets are `Whole`, what was
  sent is the beginning of what was decoded, and the reader goes on by 16.
* `drain_gaps`: a packet with eight samples that were not decoded, and one after which the reader
  goes on by 8.
-/

namespace TelinkB91.Audio.Abuf
open ByteMemory Ring RoundLine Runs

variable {σ : Type}

section guards

variable (C : Conf σ) (s : Dongle σ)

/-- Neither ring is in overflow. -/
def NoOverflow : Op → Prop
  | .add _ => True
  | .dec => s.numMic.toNat ≤ C.micFrames ∧ (s.Decodes C → (s.numDec C).toNat < C.decFrames)
  | .usb _ => True

/-- A step without a reset and an overflow. -/
def Quiet (op : Op) : Prop :=
  s.abufReset = 0 ∧ (s.step C op).abufReset = 0 ∧ NoOverflow C s op

/-- A packet is of decoded samples, and does not reach over the end of the 256 frames. -/
def Whole : Op → Prop
  | .add _ => True
  | .dec => True
  | .usb exceeded => (s.tick C exceeded).Sending C → (s.tick C exceeded).Covered C ∧
      (s.tick C exceeded).abufDecRptr.toNat + usbIsoInSize ≤ 256 * C.micShortDecSize

/-- The reader goes on by a packet. -/
def Advances : Op → Prop
  | .add _ => True
  | .dec => True
  | .usb exceeded => (s.tick C exceeded).Sending C →
      (s.step C (.usb exceeded)).abufDecRptr.toNat =
        (s.abufDecRptr.toNat + usbIsoInSize) % (256 * C.micShortDecSize)

instance : (op : Op) → Decidable (NoOverflow C s op)
  | .add _ => .isTrue trivial
  | .dec => inferInstanceAs (Decidable (_ ∧ (_ → _)))
  | .usb _ => .isTrue trivial

instance (op : Op) : Decidable (Quiet C s op) := inferInstanceAs (Decidable (_ ∧ _ ∧ _))

instance : (op : Op) → Decidable (Advances C s op)
  | .add _ => .isTrue trivial
  | .dec => .isTrue trivial
  | .usb _ => inferInstanceAs (Decidable (_ → _))

instance : (op : Op) → Decidable (Whole C s op)
  | .add _ => .isTrue trivial
  | .dec => .isTrue trivial
  | .usb _ => inferInstanceAs (Decidable (_ → _ ∧ _))

end guards

/-- Between two steps: the reader is at the sample `r` and the writer at the frame `w`, and what was
decoded and not sent lies between them. -/
structure Drained (C : Conf σ) (s : Dongle σ) (r w : Nat) : Prop extends Sync C s r w where
  room : w ≤ r / C.micShortDecSize + C.decFrames
  stream : s.decoded =
    s.sent ++ line C.decBufferSize s.abufDec r (w * C.micShortDecSize - r)

section steps

variable {C : Conf σ} {s : Dongle σ} {r w : Nat}

/-- **A frame decoded.** -/
theorem Drained.decodeFrame (h : Drained C s r w) (hroom : (s.numDec C).toNat < C.decFrames) :
    Drained C (s.decodeFrame C) r (w + 1) := by
  have hlen : (s.pcm C).1.length = C.micShortDecSize := C.length_decode _ _
  rw [numDec_eq h.toSync] at hroom
  have hdiv := h.div_le
  have hsize := C.decFrames_isSize.le
  have hle := h.le
  have hsucc : (w + 1) * C.micShortDecSize = w * C.micShortDecSize + C.micShortDecSize :=
    Nat.succ_mul _ _
  constructor
  case toSync => exact h.toSync.next rfl rfl (by omega)
  case room => omega
  case stream =>
    have hstretch : r + (w * C.micShortDecSize - r) = w * C.micShortDecSize :=
      Nat.add_sub_of_le h.le
    have hnext : (w + 1) * C.micShortDecSize - r =
        w * C.micShortDecSize - r + (s.pcm C).1.length := by omega
    -- the frame fits behind what is still to be sent
    have hfit : w * C.micShortDecSize - r + (s.pcm C).1.length ≤ C.decBufferSize := by
      have hcells := Nat.mul_le_mul_right C.micShortDecSize (Nat.succ_le_of_lt hroom)
      rw [Nat.succ_mul, Nat.sub_mul] at hcells
      have hmod := Nat.div_add_mod' r C.micShortDecSize
      rw [hlen, Conf.decBufferSize]
      omega
    have hblock : (r + (w * C.micShortDecSize - r)) % C.decBufferSize + (s.pcm C).1.length ≤
        C.decBufferSize := by
      rw [hstretch, hlen]
      exact C.frame_fits w
    have hwrite := line_write (m := s.abufDec) hfit hblock
    rw [hstretch, ← decAddr_eq h.toSync] at hwrite
    change s.decoded ++ (s.pcm C).1 = s.sent ++ line C.decBufferSize
      (write s.abufDec (C.decAddr s.abufDecWptr) (s.pcm C).1) r _
    rw [hnext, hwrite, h.stream, List.append_assoc]

/-- **A packet sent.** -/
theorem Drained.send (h : Drained C s r w) (hcovered : s.Covered C)
    (hwrap : s.abufDecRptr.toNat + usbIsoInSize ≤ 256 * C.micShortDecSize) :
    Drained C (s.send C) (r + usbIsoInSize) w := by
  have hle := covered_le h.toSync hcovered
  constructor
  case toSync => exact h.toSync.send hle hwrap
  case room =>
    exact h.room.trans (Nat.add_le_add_right (Nat.div_le_div_right (Nat.le_add_right _ _)) _)
  case stream =>
    have hsplit : w * C.micShortDecSize - r =
        usbIsoInSize + (w * C.micShortDecSize - (r + usbIsoInSize)) := by omega
    change s.decoded = s.sent ++ (s.isoPositions C).map s.abufDec ++ _
    rw [h.stream, iso_eq_line h.toSync, List.append_assoc, hsplit, line_append]
    rfl

/-- While neither ring is in overflow nothing is seen to. -/
theorem before_eq (hmic : s.numMic.toNat ≤ C.micFrames)
    (hdec : (s.numDec C).toNat ≤ C.decFrames) : s.before C = s := by
  rw [Dongle.before]
  split
  · exact if_neg (Nat.not_lt.mpr hdec)
  · exact if_neg (Nat.not_lt.mpr hmic)

/-- **One call of `abuf_mic_dec`.** -/
theorem Drained.abufMicDec (h : Drained C s r w) (hquiet : Quiet C s .dec) :
    ∃ r w, Drained C (s.step C .dec) r w := by
  obtain ⟨hbefore, hafter, hmic, hfree⟩ := hquiet
  have hroom : (s.numDec C).toNat ≤ C.decFrames := by
    rw [numDec_eq h.toSync]
    exact Nat.sub_le_of_le_add (Nat.add_comm _ _ ▸ h.room)
  have hcases := micDec C s
  change ∃ r w, Drained C (s.abufMicDec C) r w
  generalize s.abufMicDec C = s' at hcases
  cases hcases with
  | dropped hkind hreset => exact absurd hbefore hreset
  | decoded hrun hdecodes =>
      rw [before_eq hmic hroom]
      exact ⟨r, w + 1, h.decodeFrame (hfree hdecodes)⟩
  | waited hrun hdecodes =>
      rw [before_eq hmic hroom]
      exact ⟨r, w, h⟩
  | reset hkind hrun hover => exact absurd hover (Nat.not_lt.mpr hroom)

/-- No call comes too late. -/
theorem Quiet.tick {exceeded : Bool} (h : Quiet C s (.usb exceeded)) :
    s.tick C exceeded = { s with nUsbIso := s.nUsbIso + 1 } := by
  obtain ⟨hbefore, hafter, -⟩ := h
  rcases tick_cases C s exceeded with ⟨n, hn, heq⟩ | ⟨-, -, heq⟩
  · change (s.abufDecUsb C exceeded).abufReset = 0 at hafter
    rw [abufDecUsb_abufReset, heq] at hafter
    rw [show n = 0 from hafter, hbefore] at hn
    split at hn
    · exact nomatch hn
    · exact nomatch hn
  · exact heq

/-- **One call of `abuf_dec_usb`.** -/
theorem Drained.usb (h : Drained C s r w) {exceeded : Bool} (hquiet : Quiet C s (.usb exceeded))
    (hwhole : Whole C s (.usb exceeded)) :
    (∃ r, Drained C (s.step C (.usb exceeded)) r w) ∧ Advances C s (.usb exceeded) := by
  have htick := hquiet.tick
  have h' : Drained C (s.tick C exceeded) r w := by
    rw [htick]
    exact ⟨h.toSync.congr rfl rfl, h.room, h.stream⟩
  have hrptr : (s.tick C exceeded).abufDecRptr = s.abufDecRptr := by rw [htick]
  rcases abufDecUsb_cases C s exceeded with ⟨hsending, heq⟩ | ⟨hsending, ep7, bufferEmpty, heq⟩
  · obtain ⟨hcovered, hwrap⟩ := hwhole hsending
    constructor
    · rw [Dongle.step, heq]
      exact ⟨_, h'.send hcovered hwrap⟩
    · intro _
      rw [Dongle.step, heq, ← hrptr]
      exact nextRptr_eq hwrap
  · constructor
    · rw [Dongle.step, heq]
      exact ⟨r, h'.toSync.congr rfl rfl, h'.room, h'.stream⟩
    · intro hsends
      exact absurd hsends hsending

/-- **One step.** -/
theorem Drained.step (h : Drained C s r w) {op : Op} (hquiet : Quiet C s op)
    (hwhole : Whole C s op) : (∃ r w, Drained C (s.step C op) r w) ∧ Advances C s op := by
  cases op with
  | add p => exact ⟨⟨r, w, h.toSync.congr rfl rfl, h.room, h.stream⟩, trivial⟩
  | dec => exact ⟨h.abufMicDec hquiet, trivial⟩
  | usb exceeded =>
      obtain ⟨⟨r, h'⟩, hadvances⟩ := h.usb hquiet hwhole
      exact ⟨⟨r, w, h'⟩, hadvances⟩

/-- Without a reset all frames passed to the decoder are in the stream. -/
theorem Quiet.length_decoded {op : Op} (h : Quiet C s op) (hkind : C.kind ≠ .hid)
    (hlen : s.decoded.length = s.passed.length * C.micShortDecSize) :
    (s.step C op).decoded.length = (s.step C op).passed.length * C.micShortDecSize := by
  cases op with
  | add p => exact hlen
  | dec =>
      have hbefore : (s.before C).decoded.length =
          (s.before C).passed.length * C.micShortDecSize := by
        rw [Dongle.before]
        split
        · rename_i hhid
          exact absurd hhid hkind
        · split
          · exact hlen
          · exact hlen
      have hcases := micDec C s
      change (s.abufMicDec C).decoded.length = (s.abufMicDec C).passed.length * C.micShortDecSize
      generalize s.abufMicDec C = s' at hcases
      cases hcases with
      | dropped => exact hlen
      | decoded =>
          change ((s.before C).decoded ++ ((s.before C).pcm C).1).length =
            ((s.before C).passed ++ [_]).length * C.micShortDecSize
          rw [List.length_append, hbefore, Dongle.pcm, C.length_decode, List.length_append,
            List.length_singleton, Nat.succ_mul]
      | waited => exact hbefore
      | reset => exact hbefore
  | usb exceeded =>
      have htick := h.tick
      rw [Dongle.step]
      rcases abufDecUsb_cases C s exceeded with ⟨-, heq⟩ | ⟨-, ep7, bufferEmpty, heq⟩
      · rw [heq, htick]
        exact hlen
      · rw [heq, htick]
        exact hlen

theorem Met.drained (h : Met C s) :
    Drained C s (s.abufDecWptr.toNat * C.micShortDecSize) s.abufDecWptr.toNat := by
  refine ⟨h.sync, ?_, ?_⟩
  · rw [Nat.mul_div_cancel _ C.size_pos]
    exact Nat.le_add_right _ _
  · rw [h.decoded, h.sent, Nat.sub_self, line_zero, List.append_nil]

end steps

/-! ### Runs -/

/-- **The drain.**  In every run without a reset and without an overflow, from pointers that meet,
whose packets are of decoded samples and do not reach over the end of the 256 frames: what was sent
is the beginning of what was decoded, and after each packet the reader is 16 samples on. -/
theorem drain_gapless (C : Conf σ) {s : Dongle σ} (hmet : Met C s) {ops : List Op}
    (hquiet : Along (Dongle.step C) (Quiet C) s ops)
    (hwhole : Along (Dongle.step C) (Whole C) s ops) :
    (runFrom (Dongle.step C) s ops).sent <+: (runFrom (Dongle.step C) s ops).decoded ∧
      Along (Dongle.step C) (Advances C) s ops := by
  have hstep : ∀ s op, (∃ r w, Drained C s r w) → Quiet C s op ∧ Whole C s op →
      ∃ r w, Drained C (s.step C op) r w := by
    rintro s op ⟨r, w, h⟩ ⟨hquiet, hwhole⟩
    exact (h.step hquiet hwhole).1
  have h₀ : ∃ r w, Drained C s r w := ⟨_, _, hmet.drained⟩
  have hboth := hquiet.and hwhole
  constructor
  · obtain ⟨r, w, h⟩ := hboth.invariant hstep h₀
    rw [h.stream]
    exact List.prefix_append _ _
  · refine hboth.derive hstep ?_ h₀
    rintro s op ⟨r, w, h⟩ ⟨hquiet, hwhole⟩
    exact (h.step hquiet hwhole).2

def telinkDrain : Dongle Unit :=
  runFrom (Dongle.step telink) (.ready telink () 0#8) (frames 3 31)

def msbcDrain : Dongle Unit :=
  runFrom (Dongle.step (msbc (deaf 120))) (.ready (msbc (deaf 120)) () 0#8) (frames 7 37)

theorem drain_gapless_frames : telinkDrain.sent <+: telinkDrain.decoded ∧
    telinkDrain.sent.length = 496 ∧ msbcDrain.sent <+: msbcDrain.decoded ∧
      msbcDrain.sent.length = 592 := by
  refine ⟨?_, by decide +kernel, ?_, by decide +kernel⟩
  · have hquiet : Along (Dongle.step telink) (Quiet telink) (.ready telink () 0#8)
        (frames 3 31) := by decide +kernel
    exact (drain_gapless telink (met_ready telink () 0#8) hquiet (by decide +kernel)).1
  · have hquiet : Along (Dongle.step (msbc (deaf 120))) (Quiet (msbc (deaf 120)))
        (.ready (msbc (deaf 120)) () 0#8) (frames 7 37) := by decide +kernel
    exact (drain_gapless (msbc (deaf 120)) (met_ready _ () 0#8) hquiet (by decide +kernel)).1

/-- The 47th packet of three frames. -/
def straddled : Dongle Unit :=
  runFrom (Dongle.step telink) (.ready telink () 0#8) (frames 3 47)

/-- **Gaps.**  A packet with eight samples that were not decoded; and, from the frame 255 on, one
after which the reader is at 0 and not at 8. -/
theorem drain_gaps :
    Along (Dongle.step telink) (Quiet telink) (.ready telink () 0#8) (frames 3 47) ∧
      straddled.sent.length = straddled.decoded.length + 8 ∧
        ¬ straddled.sent <+: straddled.decoded ∧
          Along (Dongle.step telink) (Quiet telink) (.ready telink () 255#8) (frames 3 16) ∧
            ¬ Along (Dongle.step telink) (Advances telink) (.ready telink () 255#8)
              (frames 3 16) := by
  have hquiet : Along (Dongle.step telink) (Quiet telink) (.ready telink () 0#8)
      (frames 3 47) := by decide +kernel
  have hkind : telink.kind ≠ .hid := Kind.noConfusion
  have hdecoded : straddled.decoded.length = straddled.passed.length * telink.micShortDecSize := by
    rw [straddled]
    exact hquiet.invariant (I := fun s => s.decoded.length = s.passed.length * _)
      (fun _ _ hlen h => h.length_decoded hkind hlen) rfl
  have hpassed : straddled.passed.length = 3 := by decide +kernel
  have hsent : straddled.sent.length = 752 := by decide +kernel
  have hlen : straddled.sent.length = straddled.decoded.length + 8 := by
    rw [hsent, hdecoded, hpassed]
    rfl
  refine ⟨hquiet, hlen, ?_, by decide +kernel, by decide +kernel⟩
  intro hprefix
  have hle := hprefix.length_le
  rw [hlen] at hle
  exact absurd hle (Nat.not_le.mpr (Nat.lt_add_of_pos_right (by decide)))

end TelinkB91.Audio.Abuf
