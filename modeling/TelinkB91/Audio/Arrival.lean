import TelinkB91.Audio.Abuf

/-!
# Audio — the order of arrival

`abuf_mic_add` never waits: a fifth frame goes over the oldest of the four in `abuf_mic`.
`abuf_mic_dec` finds more than four frames to be taken then, and counts `abuf_dec_wptr` up by one;
where six or more wait that is not enough, and the slot it decodes from holds a frame that arrived
later than the one it counts.

* `Level.step`: what one step keeps between the frames received, the counters and the slots.
* `arrival_order`: in every run in which a frame is decoded only while at most five wait, the frames
  passed to the decoder are received frames, each at the place it is counted as, in order; a frame
  is not decoded only in case of overflow, one in a call.
* `arrival_lapped`: six frames between two calls.
-/

namespace TelinkB91.Audio.Abuf
open ByteMemory Ring RoundLine Runs

variable {σ : Type}

/-- The frames decoded are received ones, in the order of arrival, each at most once. -/
def Dongle.InOrder (s : Dongle σ) : Prop :=
  (s.passed.map Prod.fst).Pairwise (· < ·) ∧
    ∀ k frame, (k, frame) ∈ s.passed → s.received[k]? = some frame

section guards

variable (C : Conf σ) (s : Dongle σ)

/-- A frame is decoded while no more wait than the overflow takes care of. -/
def Timely : Op → Prop
  | .add _ => True
  | .dec => s.abufReset = 0 → s.Decodes C → s.received.length ≤ s.taken + C.micFrames + 1
  | .usb _ => True

/-- A step decodes every frame it takes, but for the oldest one where more wait than `abuf_mic`
holds, or all that wait where the dongle is reset. -/
def SkipsOldest (op : Op) : Prop :=
  (s.step C op).taken + s.passed.length = s.taken + (s.step C op).passed.length ∨
    s.taken + C.micFrames < s.received.length ∧
      (s.step C op).taken + s.passed.length = s.taken + 1 + (s.step C op).passed.length ∨
        s.abufReset ≠ 0

instance : (op : Op) → Decidable (Timely C s op)
  | .add _ => .isTrue trivial
  | .dec => inferInstanceAs (Decidable (_ → _ → _))
  | .usb _ => .isTrue trivial

end guards

/-- Between two steps, `a` frames after the counters were at 0: the last frames received are in
their slots. -/
structure Level (C : Conf σ) (s : Dongle σ) (a : Nat) : Prop where
  mic : s.abufMicWptr.toNat = (a + s.received.length) % 256
  dec : s.abufDecWptr.toNat = (a + s.taken) % 256
  le : s.taken ≤ s.received.length
  slots : ∀ k frame, s.received[k]? = some frame → s.received.length ≤ k + C.micFrames →
    read s.abufMic ((a + k) % C.micFrames * C.micAdpcmFrameSize) C.micAdpcmFrameSize = frame
  order : s.InOrder
  behind : ∀ x ∈ s.passed, x.1 < s.taken

section steps

variable {C : Conf σ} {s : Dongle σ} {a : Nat}

theorem Conf.micFrames_dvd (C : Conf σ) : C.micFrames ∣ 256 :=
  C.micFrames_isSize.dvd.trans (by decide)

/-- The frames that wait, in eight bits. -/
theorem Level.numMic (h : Level C s a) : s.numMic.toNat = (s.received.length - s.taken) % 256 := by
  have hle := h.le
  rw [Dongle.numMic, BitVec.toNat_sub, h.mic, h.dec]
  omega

theorem Level.due (h : Level C s a) (hdue : s.Due) : s.taken < s.received.length := by
  have hpos : 0 < s.numMic.toNat := by
    rcases hdue with ⟨-, hone⟩ | ⟨-, htwo⟩
    · exact hone
    · exact Nat.lt_of_lt_of_le (by decide : 0 < 2) htwo
  rw [h.numMic] at hpos
  have hmod := Nat.mod_le (s.received.length - s.taken) 256
  omega

theorem length_received (s : Dongle σ) (p : Memory) :
    (s.abufMicAdd C p).received.length = s.received.length + 1 := List.length_append

/-- A frame received goes over the slot of the one `micFrames` before it, and no other. -/
theorem Level.slots_add (h : Level C s a) (p : Memory) {k : Nat} {frame : List U8}
    (hk : (s.abufMicAdd C p).received[k]? = some frame)
    (hlast : (s.abufMicAdd C p).received.length ≤ k + C.micFrames) :
    read (s.abufMicAdd C p).abufMic ((a + k) % C.micFrames * C.micAdpcmFrameSize)
      C.micAdpcmFrameSize = frame := by
  have haddr : C.micAddr s.abufMicWptr =
      (a + s.received.length) % C.micFrames * C.micAdpcmFrameSize := by
    rw [Conf.micAddr, slot_eq C.micFrames_isSize, h.mic, Nat.mod_mod_of_dvd _ C.micFrames_dvd]
  have hmem : (s.abufMicAdd C p).abufMic = write s.abufMic
      ((a + s.received.length) % C.micFrames * C.micAdpcmFrameSize)
        (read p 0 C.micAdpcmFrameSize) := by
    rw [Dongle.abufMicAdd, haddr]
  rw [length_received] at hlast
  change (s.received ++ _)[k]? = some frame at hk
  rw [hmem]
  rcases Nat.lt_trichotomy k s.received.length with hlt | rfl | hgt
  · -- the frames before it are in other slots
    rw [List.getElem?_append_left hlt] at hk
    have hne : (a + k) % C.micFrames ≠ (a + s.received.length) % C.micFrames :=
      mod_ne (by omega) (by omega)
    have hread := read_write_slot (m := s.abufMic) (a := 0) (n := C.micAdpcmFrameSize) le_rfl
      (length_read p 0 C.micAdpcmFrameSize).le hne
    rw [Nat.zero_add, Nat.zero_add] at hread
    rw [hread]
    exact h.slots k frame hk (by omega)
  · rw [List.getElem?_concat_length, Option.some_inj] at hk
    have hread := read_write s.abufMic
      ((a + s.received.length) % C.micFrames * C.micAdpcmFrameSize)
      (read p 0 C.micAdpcmFrameSize)
    rw [length_read] at hread
    rw [hread, hk]
  · rw [List.getElem?_eq_none (by rw [List.length_append]; exact hgt)] at hk
    exact nomatch hk

/-- **A frame received.** -/
theorem Level.add (h : Level C s a) (p : Memory) : Level C (s.abufMicAdd C p) a := by
  have hlen := length_received (C := C) s p
  constructor
  case mic =>
    have hmic := h.mic
    rw [hlen]
    change (s.abufMicWptr + 1).toNat = _
    bv_omega
  case dec => exact h.dec
  case le => exact h.le.trans (hlen ▸ Nat.le_succ _)
  case slots =>
    intro k frame hk hlast
    exact h.slots_add p hk hlast
  case order =>
    refine ⟨h.order.1, ?_⟩
    intro k frame hmem
    have hk := h.order.2 k frame hmem
    exact (List.getElem?_append_left (List.getElem?_eq_some_iff.mp hk).1).trans hk
  case behind => exact h.behind

/-- **The oldest frame given up.** -/
theorem Level.skip (h : Level C s a) (hlt : s.taken < s.received.length) : Level C s.skip a := by
  have hdec := h.dec
  refine ⟨h.mic, ?_, hlt, h.slots, h.order, ?_⟩
  · change (s.abufDecWptr + 1).toNat = (a + (s.taken + 1)) % 256
    bv_omega
  · intro x hx
    exact (h.behind x hx).trans (Nat.lt_succ_self _)

theorem Level.skipAll (h : Level C s a) : Level C s.skipAll a := by
  refine ⟨h.mic, h.mic, le_rfl, h.slots, h.order, ?_⟩
  intro x hx
  exact (h.behind x hx).trans_le h.le

/-- **A frame decoded**, from a slot that holds it. -/
theorem Level.decodeFrame (h : Level C s a) (hlt : s.taken < s.received.length)
    (hslot : s.received.length ≤ s.taken + C.micFrames) : Level C (s.decodeFrame C) a := by
  have hdec := h.dec
  have hget := List.getElem?_eq_getElem hlt
  have haddr : C.micAddr s.abufDecWptr =
      (a + s.taken) % C.micFrames * C.micAdpcmFrameSize := by
    rw [Conf.micAddr, slot_eq C.micFrames_isSize, h.dec, Nat.mod_mod_of_dvd _ C.micFrames_dvd]
  have hframe := h.slots s.taken _ hget hslot
  rw [← haddr] at hframe
  constructor
  case mic => exact h.mic
  case dec =>
    change (s.abufDecWptr + 1).toNat = (a + (s.taken + 1)) % 256
    bv_omega
  case le => exact hlt
  case slots => exact h.slots
  case order =>
    constructor
    · change ((s.passed ++ _).map Prod.fst).Pairwise (· < ·)
      rw [List.map_append, List.pairwise_append]
      refine ⟨h.order.1, List.pairwise_singleton _ _, ?_⟩
      intro i hi j hj
      obtain ⟨x, hx, rfl⟩ := List.mem_map.mp hi
      rw [List.mem_singleton.mp hj]
      exact h.behind x hx
    · intro k frame hmem
      rcases List.mem_append.mp hmem with hmem | hmem
      · exact h.order.2 k frame hmem
      · obtain ⟨rfl, rfl⟩ := Prod.mk.injEq _ _ _ _ ▸ List.mem_singleton.mp hmem
        rw [hframe]
        exact hget
  case behind =>
    intro x hx
    rcases List.mem_append.mp hx with hx | hx
    · exact (h.behind x hx).trans (Nat.lt_succ_self _)
    · rw [List.mem_singleton.mp hx]
      exact Nat.lt_succ_self _

/-- A frame given up in case of overflow, or none. -/
theorem Level.before (h : Level C s a) (hkind : C.kind = .gatt) : Level C (s.before C) a ∧
    (s.before C = s ∧ s.numMic.toNat ≤ C.micFrames ∨
      s.before C = s.skip ∧ s.taken + C.micFrames < s.received.length) := by
  rw [Dongle.before, hkind]
  dsimp only
  split
  · rename_i hover
    have hmod := Nat.mod_le (s.received.length - s.taken) 256
    rw [h.numMic] at hover
    exact ⟨h.skip (by omega), .inr ⟨rfl, by omega⟩⟩
  · rename_i hover
    exact ⟨h, .inl ⟨rfl, Nat.not_lt.mp hover⟩⟩

/-- **A frame decoded in time.** -/
theorem Level.decoded (h : Level C s a) (hkind : C.kind = .gatt) (hdue : s.Due)
    (hwait : s.received.length ≤ s.taken + C.micFrames + 1) :
    Level C ((s.before C).decodeFrame C) a := by
  have hlt := h.due hdue
  have hpos := C.micFrames_isSize.pos
  have hsize := C.micFrames_isSize.le
  obtain ⟨hbefore, ⟨heq, hroom⟩ | ⟨heq, hmore⟩⟩ := h.before hkind
  · -- at most a ring of frames waits: the count of eight bits is right
    rw [h.numMic, Nat.mod_eq_of_lt (by omega)] at hroom
    rw [heq]
    exact h.decodeFrame hlt (by omega)
  · refine hbefore.decodeFrame ?_ ?_
    · rw [heq]
      change s.taken + 1 < s.received.length
      omega
    · rw [heq]
      change s.received.length ≤ s.taken + 1 + C.micFrames
      omega

/-- **One call of `abuf_mic_dec`.** -/
theorem Level.abufMicDec (h : Level C s a) (hkind : C.kind = .gatt) (htimely : Timely C s .dec) :
    Level C (s.step C .dec) a ∧ SkipsOldest C s .dec := by
  obtain ⟨hbefore, hskip⟩ := h.before hkind
  have hhid : C.kind ≠ .hid := by
    rw [hkind]
    exact Kind.noConfusion
  have hcases := micDec C s
  rw [SkipsOldest, Dongle.step]
  generalize s.abufMicDec C = s' at hcases
  cases hcases with
  | dropped _ hreset => exact ⟨h.skipAll, .inr (.inr hreset)⟩
  | decoded hrun hdecodes =>
      have hreset := hrun.resolve_left hhid
      refine ⟨h.decoded hkind hdecodes.1 (htimely hreset hdecodes), ?_⟩
      change (s.before C).taken + 1 + s.passed.length =
          s.taken + ((s.before C).passed ++ [_]).length ∨ _ ∧
            (s.before C).taken + 1 + s.passed.length =
              s.taken + 1 + ((s.before C).passed ++ [_]).length ∨ _
      rw [List.length_append, List.length_singleton]
      rcases hskip with ⟨heq, -⟩ | ⟨heq, hmore⟩
      · rw [heq]
        exact .inl (Nat.add_right_comm _ _ _)
      · rw [heq]
        exact .inr (.inl ⟨hmore, Nat.add_right_comm _ _ _⟩)
  | waited =>
      refine ⟨hbefore, ?_⟩
      rcases hskip with ⟨heq, -⟩ | ⟨heq, hmore⟩
      · rw [heq]
        exact .inl rfl
      · rw [heq]
        exact .inr (.inl ⟨hmore, rfl⟩)
  | reset =>
      refine ⟨⟨hbefore.mic, hbefore.dec, hbefore.le, hbefore.slots, hbefore.order,
        hbefore.behind⟩, ?_⟩
      rcases hskip with ⟨heq, -⟩ | ⟨heq, hmore⟩
      · rw [heq]
        exact .inl rfl
      · rw [heq]
        exact .inr (.inl ⟨hmore, rfl⟩)

/-- `abuf_dec_usb` leaves the frames alone. -/
theorem Level.usb (h : Level C s a) (exceeded : Bool) :
    Level C (s.step C (.usb exceeded)) a ∧ SkipsOldest C s (.usb exceeded) := by
  have htick : Level C (s.tick C exceeded) a ∧ (s.tick C exceeded).taken = s.taken ∧
      (s.tick C exceeded).passed = s.passed := by
    rcases tick_cases C s exceeded with ⟨n, -, heq⟩ | ⟨-, -, heq⟩
    · rw [heq]
      exact ⟨⟨h.mic, h.dec, h.le, h.slots, h.order, h.behind⟩, rfl, rfl⟩
    · rw [heq]
      exact ⟨⟨h.mic, h.dec, h.le, h.slots, h.order, h.behind⟩, rfl, rfl⟩
  obtain ⟨h', htaken, hpassed⟩ := htick
  rw [SkipsOldest, Dongle.step, ← htaken, ← hpassed]
  rcases abufDecUsb_cases C s exceeded with ⟨-, heq⟩ | ⟨-, ep7, bufferEmpty, heq⟩
  · rw [heq]
    exact ⟨⟨h'.mic, h'.dec, h'.le, h'.slots, h'.order, h'.behind⟩, .inl rfl⟩
  · rw [heq]
    exact ⟨⟨h'.mic, h'.dec, h'.le, h'.slots, h'.order, h'.behind⟩, .inl rfl⟩

/-- **One step.** -/
theorem Level.step (h : Level C s a) (hkind : C.kind = .gatt) {op : Op} (htimely : Timely C s op) :
    Level C (s.step C op) a ∧ SkipsOldest C s op := by
  cases op with
  | add p => exact ⟨h.add p, .inl rfl⟩
  | dec => exact h.abufMicDec hkind htimely
  | usb exceeded => exact h.usb exceeded

end steps

/-! ### Runs -/

/-- No frame waits, and none was received. -/
structure Started (s : Dongle σ) : Prop where
  wptr : s.abufDecWptr = s.abufMicWptr
  received : s.received = []
  taken : s.taken = 0
  passed : s.passed = []

theorem Started.level {s : Dongle σ} (h : Started s) (C : Conf σ) :
    Level C s s.abufMicWptr.toNat := by
  have hmod := Nat.mod_eq_of_lt s.abufMicWptr.isLt
  constructor
  case mic => rw [h.received, List.length_nil, Nat.add_zero, hmod]
  case dec => rw [h.wptr, h.taken, Nat.add_zero, hmod]
  case le => exact h.taken ▸ Nat.zero_le _
  case slots =>
    intro k frame hk
    rw [h.received] at hk
    exact nomatch hk
  case order =>
    rw [Dongle.InOrder, h.passed]
    exact ⟨.nil, fun k frame hmem => absurd hmem List.not_mem_nil⟩
  case behind =>
    intro x hx
    rw [h.passed] at hx
    exact absurd hx List.not_mem_nil

/-- **The order of arrival.**  In the two variants for a GATT service, in every run in which a frame
is decoded only while at most five wait, the frames passed to the decoder are received ones in the
order of arrival, each at its place and at most once; and outside of a reset a step skips only the
oldest frame, where more than four wait. -/
theorem arrival_order {C : Conf σ} (hkind : C.kind = .gatt) {s : Dongle σ} (hstart : Started s)
    {ops : List Op} (htimely : Along (Dongle.step C) (Timely C) s ops) :
    (runFrom (Dongle.step C) s ops).InOrder ∧
      Along (Dongle.step C) (SkipsOldest C) s ops := by
  have hstep : ∀ t op, Level C t s.abufMicWptr.toNat → Timely C t op →
      Level C (t.step C op) s.abufMicWptr.toNat := by
    intro t op h hop
    exact (h.step hkind hop).1
  have h₀ := hstart.level C
  constructor
  · exact (htimely.invariant hstep h₀).order
  · exact htimely.derive hstep (fun t op h hop => (h.step hkind hop).2) h₀

theorem started_ready (C : Conf σ) (codec : σ) (c : U8) : Started (.ready C codec c) :=
  ⟨rfl, rfl, rfl, rfl⟩

/-- `n` frames, each of its number. -/
def burst (n : Nat) : List Op := (List.range n).map fun i => .add fun _ => BitVec.ofNat 8 i

/-- Five frames, two of which are decoded. -/
def fiveFrames : Dongle Unit :=
  runFrom (Dongle.step google) (.ready google () 7#8) (burst 5 ++ [.dec, .dec])

theorem arrival_order_five :
    fiveFrames.InOrder ∧ fiveFrames.passed.map Prod.fst = [1, 2] := by
  refine ⟨?_, by decide +kernel⟩
  have htimely : Along (Dongle.step google) (Timely google) (.ready google () 7#8)
      (burst 5 ++ [.dec, .dec]) := by decide +kernel
  exact (arrival_order rfl (started_ready google () 7#8) htimely).1

/-- Six frames, five of which are decoded. -/
def sixFrames : Dongle Unit :=
  runFrom (Dongle.step telink) (.ready telink () 0#8)
    (burst 6 ++ [.dec, .dec, .dec] ++ List.replicate 32 (.usb false) ++ [.dec, .dec])

/-- **A lapped reader.**  The sixth frame is decoded first, as the second, and again as the
sixth. -/
theorem arrival_lapped : ¬ sixFrames.InOrder ∧ sixFrames.passed.map Prod.fst = [1, 2, 3, 4, 5] ∧
    sixFrames.passed.map (fun x => x.2.head?) =
      [some 5#8, some 2#8, some 3#8, some 4#8, some 5#8] := by
  refine ⟨?_, by decide +kernel, by decide +kernel⟩
  intro h
  have hpassed : (1, List.replicate 128 5#8) ∈ sixFrames.passed := by decide +kernel
  have hreceived : sixFrames.received[1]? = some (List.replicate 128 1#8) := by decide +kernel
  have heq := (h.2 1 _ hpassed).symm.trans hreceived
  exact absurd heq (by decide)

end TelinkB91.Audio.Abuf
