import TelinkB91.Lib.NorFlash
import Mathlib.Tactic.IntervalCases

/-!
# Identity — the device addresses of `blt_common.c`

`blc_initMacAddress` reads the device's addresses from eight bytes of flash at every boot: six of
the public address, and two more for the random static address, whose other bytes are three of the
public one and `0xC0`.  What it does not find it draws at random, and writes, so that the next boot
finds it.  Bytes `0xFF` count as not there.

* `first_boot`: after a boot the public address is in the flash, and the two bytes are what was
  there, anded with what was drawn.
* `identity_kept_iff`: exactly when all later boots give the first one's addresses and leave the
  flash alone.
* `identity_lost`: a fresh device that draws `0xFF`.
-/

namespace TelinkB91.Identity
open NorFlash

abbrev U8 := BitVec 8

/-- A buffer of six address bytes. -/
abbrev Mac := Vector U8 6

/-- The flash, and the two buffers the caller passes. -/
@[ext] structure Device where
  flash : Mem
  macPublic : Mac
  macRandomStatic : Mac

/-- `ff_six_byte`. -/
def ffSixByte : Mac := #v[0xFF#8, 0xFF#8, 0xFF#8, 0xFF#8, 0xFF#8, 0xFF#8]

/-- The first six of eight bytes. -/
def firstSix (v : Vector U8 8) : Mac := #v[v[0], v[1], v[2], v[3], v[4], v[5]]

/-- The eight bytes at `a`. -/
def macRead (m : Mem) (a : Nat) : Vector U8 8 := Vector.ofFn fun i => m (a + i)

/-- The first part of `blc_initMacAddress`: the public address, from the flash, the eFuse or a
draw, and whether bytes 3 and 4 of the random static address were read with it.  `efuse` is what
`efuse_get_mac_address` finds. -/
def publicPart (efuse : Option (Vector U8 8)) (flashAddr : Nat) (valueRand : Vector U8 5)
    (d : Device) : Device × Bool :=
  let read := macRead d.flash flashAddr
  if firstSix read ≠ ffSixByte then
    let d := { d with macPublic := firstSix read }
    if read[6] ≠ 0xFF#8 ∧ read[7] ≠ 0xFF#8 then
      ({ d with macRandomStatic := (d.macRandomStatic.set 3 read[6]).set 4 read[7] }, true)
    else (d, false)
  else
    match efuse with
    | some e =>
        ({ d with
            macPublic := firstSix e
            macRandomStatic := (d.macRandomStatic.set 3 e[6]).set 4 e[7] }, true)
    | none =>
        let macPublic : Mac := #v[valueRand[0], valueRand[1], valueRand[2], 0xD1#8, 0x19#8, 0xC4#8]
        ({ d with
            flash := program d.flash flashAddr macPublic.toList
            macPublic := macPublic }, false)

/-- `blc_initMacAddress`. -/
def blcInitMacAddress (flashSectorMacAddress : BitVec 32) (efuse : Option (Vector U8 8))
    (flashAddr : Nat) (valueRand : Vector U8 5) (d : Device) : Device :=
  if flashSectorMacAddress = 0 then d
  else
    let (d, randMacByte34ReadOk) := publicPart efuse flashAddr valueRand d
    let macRandomStatic := (((d.macRandomStatic.set 0 d.macPublic[0]).set 1 d.macPublic[1]).set 2
      d.macPublic[2]).set 5 0xC0#8
    if randMacByte34ReadOk then { d with macRandomStatic := macRandomStatic }
    else
      let macRandomStatic := (macRandomStatic.set 3 valueRand[3]).set 4 valueRand[4]
      { d with
        flash := program d.flash (flashAddr + 6) [macRandomStatic[3], macRandomStatic[4]]
        macRandomStatic := macRandomStatic }

/-! ### Boots -/

/-- What a boot finds beside the flash: the caller's buffers, and the random bytes drawn. -/
structure Boot where
  macPublic : Mac
  macRandomStatic : Mac
  valueRand : Vector U8 5

/-- A boot without an eFuse address. -/
def boot (sector : BitVec 32) (a : Nat) (m : Mem) (b : Boot) : Device :=
  blcInitMacAddress sector none a b.valueRand ⟨m, b.macPublic, b.macRandomStatic⟩

/-- The boots `bs`, each on the flash the one before it left. -/
def reboots (sector : BitVec 32) (a : Nat) : Mem → List Boot → List Device
  | _, [] => []
  | m, b :: bs => boot sector a m b :: reboots sector a (boot sector a m b).flash bs

/-- The random static address made of a public one and two more bytes. -/
def randomStatic (p : Mac) (x y : U8) : Mac := #v[p[0], p[1], p[2], x, y, 0xC0#8]

/-- The public address a boot draws. -/
def drawnPublic (r : Vector U8 5) : Mac := #v[r[0], r[1], r[2], 0xD1#8, 0x19#8, 0xC4#8]

section boot

variable {sector : BitVec 32} {a : Nat} {m : Mem} {b : Boot}

/-- Whatever the buffer held, its six bytes are all set. -/
theorem set_read (v p : Mac) (x y : U8) :
    (((((v.set 3 x).set 4 y).set 0 p[0]).set 1 p[1]).set 2 p[2]).set 5 0xC0#8 =
      randomStatic p x y := by
  ext i hi
  simp only [Vector.getElem_set, randomStatic]
  interval_cases i <;> rfl

theorem set_drawn (v p : Mac) (x y : U8) :
    (((((v.set 0 p[0]).set 1 p[1]).set 2 p[2]).set 5 0xC0#8).set 3 x).set 4 y =
      randomStatic p x y := by
  ext i hi
  simp only [Vector.getElem_set, randomStatic]
  interval_cases i <;> rfl

theorem firstSix_macRead (m : Mem) (a : Nat) : firstSix (macRead m a) =
    #v[m a, m (a + 1), m (a + 2), m (a + 3), m (a + 4), m (a + 5)] := by
  simp [firstSix, macRead]

theorem macRead_six (m : Mem) (a : Nat) : (macRead m a)[6] = m (a + 6) := by simp [macRead]

theorem macRead_seven (m : Mem) (a : Nat) : (macRead m a)[7] = m (a + 7) := by simp [macRead]

/-- A public address is in the flash. -/
def PublicThere (m : Mem) (a : Nat) : Prop := firstSix (macRead m a) ≠ ffSixByte

/-- The two bytes of the random static address are, too. -/
def PairThere (m : Mem) (a : Nat) : Prop := m (a + 6) ≠ 0xFF#8 ∧ m (a + 7) ≠ 0xFF#8

/-- A boot that finds both. -/
theorem boot_found (hs : sector ≠ 0) (hp : PublicThere m a) (h : PairThere m a) :
    boot sector a m b = ⟨m, firstSix (macRead m a),
      randomStatic (firstSix (macRead m a)) (m (a + 6)) (m (a + 7))⟩ := by
  have hp' : firstSix (macRead m a) ≠ ffSixByte := hp
  have h' : m (a + 6) ≠ 0xFF#8 ∧ m (a + 7) ≠ 0xFF#8 := h
  rw [boot, blcInitMacAddress, if_neg hs, publicPart]
  simp only [macRead_six, macRead_seven, if_pos hp', if_pos h', if_true, set_read]

/-- A boot that finds the public address only. -/
theorem boot_half (hs : sector ≠ 0) (hp : PublicThere m a) (h : ¬ PairThere m a) :
    boot sector a m b =
      ⟨program m (a + 6) [b.valueRand[3], b.valueRand[4]], firstSix (macRead m a),
        randomStatic (firstSix (macRead m a)) b.valueRand[3] b.valueRand[4]⟩ := by
  have hp' : firstSix (macRead m a) ≠ ffSixByte := hp
  have h' : ¬ (m (a + 6) ≠ 0xFF#8 ∧ m (a + 7) ≠ 0xFF#8) := h
  rw [boot, blcInitMacAddress, if_neg hs, publicPart]
  simp only [macRead_six, macRead_seven, if_pos hp', if_neg h', Bool.false_eq_true, if_false,
    set_drawn]
  rfl

/-- A boot that finds no public address. -/
theorem boot_blank (hs : sector ≠ 0) (hp : ¬ PublicThere m a) :
    boot sector a m b =
      ⟨program (program m a (drawnPublic b.valueRand).toList) (a + 6)
          [b.valueRand[3], b.valueRand[4]], drawnPublic b.valueRand,
        randomStatic (drawnPublic b.valueRand) b.valueRand[3] b.valueRand[4]⟩ := by
  have hp' : ¬ firstSix (macRead m a) ≠ ffSixByte := hp
  rw [boot, blcInitMacAddress, if_neg hs, publicPart]
  simp only [if_neg hp', Bool.false_eq_true, if_false, set_drawn]
  rfl

/-! ### The first boot -/

/-- The pair programmed at `a + 6`, and everything else as it was. -/
theorem program_pair (m : Mem) (a : Nat) (x y : U8) (z : Nat) :
    program m (a + 6) [x, y] z =
      if z = a + 6 then m z &&& x else if z = a + 7 then m z &&& y else m z := by
  split
  · next h => rw [h]; exact program_at (i := 0) rfl
  · split
    · next h => rw [h]; exact program_at (i := 1) rfl
    · exact program_apart (by simp; omega)

theorem macRead_program_pair (m : Mem) (a : Nat) (x y : U8) :
    firstSix (macRead (program m (a + 6) [x, y]) a) = firstSix (macRead m a) := by
  simp [firstSix_macRead, program_pair]

theorem firstSix_toList (m : Mem) (a : Nat) : (firstSix (macRead m a)).toList = read m a 6 := by
  rw [firstSix_macRead]
  rfl

/-- Writing the drawn public address over erased bytes. -/
theorem firstSix_program_drawn (h : ¬ PublicThere m a) (r : Vector U8 5) :
    firstSix (macRead (program m a (drawnPublic r).toList) a) = drawnPublic r := by
  have hff : read m a 6 = ffSixByte.toList := by
    rw [← firstSix_toList, not_not.mp h]
  have hblank : ∀ x, a ≤ x → x < a + (drawnPublic r).toList.length → m x = blank := by
    intro x hx hlt
    rw [Vector.length_toList] at hlt
    obtain ⟨i, rfl⟩ := Nat.exists_eq_add_of_le hx
    have hi : i < 6 := by omega
    have hget := congrArg (fun l => l[i]?) hff
    simp only [read_getElem?, if_pos hi] at hget
    have hall : ∀ y ∈ ffSixByte.toList, y = blank := by decide
    exact hall _ (List.mem_of_getElem? hget.symm)
  exact Vector.toList_inj.mp ((firstSix_toList _ _).trans (read_program_blank hblank))

/-- **After a boot.**  The public address is in the flash, and it is the device's.  Either the boot
found everything and wrote nothing, or the flash holds the drawn pair, anded into what was there. -/
theorem first_boot (hs : sector ≠ 0) :
    PublicThere (boot sector a m b).flash a ∧
      (boot sector a m b).macPublic = firstSix (macRead (boot sector a m b).flash a) ∧
      ((PublicThere m a ∧ PairThere m a ∧ (boot sector a m b).flash = m ∧
          (boot sector a m b).macRandomStatic =
            randomStatic (boot sector a m b).macPublic (m (a + 6)) (m (a + 7))) ∨
        (¬ (PublicThere m a ∧ PairThere m a) ∧
          (boot sector a m b).flash (a + 6) = m (a + 6) &&& b.valueRand[3] ∧
          (boot sector a m b).flash (a + 7) = m (a + 7) &&& b.valueRand[4] ∧
          (boot sector a m b).macRandomStatic =
            randomStatic (boot sector a m b).macPublic b.valueRand[3] b.valueRand[4])) := by
  by_cases hp : PublicThere m a
  · by_cases h : PairThere m a
    · rw [boot_found hs hp h]
      exact ⟨hp, rfl, .inl ⟨hp, h, rfl, rfl⟩⟩
    · rw [boot_half hs hp h]
      refine ⟨?_, ?_, .inr ⟨fun hno => h hno.2, ?_, ?_, rfl⟩⟩
      · rw [PublicThere, macRead_program_pair]
        exact hp
      · rw [macRead_program_pair]
      · simp [program_pair]
      · simp [program_pair]
  · have hnew := firstSix_program_drawn hp b.valueRand
    have hfar : ∀ k, 6 ≤ k → program m a (drawnPublic b.valueRand).toList (a + k) = m (a + k) :=
      fun k hk => program_apart (.inr (by rw [Vector.length_toList]; omega))
    rw [boot_blank hs hp]
    refine ⟨?_, ?_, .inr ⟨fun hno => hp hno.1, ?_, ?_, rfl⟩⟩
    · rw [PublicThere, macRead_program_pair, hnew]
      intro hff
      -- the company id is not erased flash
      have hid := congrArg (fun v : Mac => v[3]) hff
      simp [drawnPublic, ffSixByte] at hid
    · rw [macRead_program_pair, hnew]
    · simp [program_pair, hfar]
    · simp [program_pair, hfar]

/-! ### Later boots -/

theorem randomStatic_inj {p : Mac} {x y x' y' : U8} :
    randomStatic p x y = randomStatic p x' y' ↔ x = x' ∧ y = y' := by
  simp [randomStatic]

/-- Once everything is in the flash, every boot reads it. -/
theorem reboots_found (hs : sector ≠ 0) (hp : PublicThere m a) (h : PairThere m a)
    (bs : List Boot) : ∀ d ∈ reboots sector a m bs,
      d = ⟨m, firstSix (macRead m a),
        randomStatic (firstSix (macRead m a)) (m (a + 6)) (m (a + 7))⟩ := by
  induction bs with
  | nil => exact fun d hd => absurd hd List.not_mem_nil
  | cons b bs ih =>
      rw [reboots, boot_found hs hp h]
      exact List.forall_mem_cons.mpr ⟨rfl, ih⟩

/-- They give the identity with the pair `x`, `y` exactly when that is the pair in the flash. -/
theorem reboots_found_iff (hs : sector ≠ 0) (hp : PublicThere m a) (h : PairThere m a) {x y : U8}
    {bs : List Boot} (hbs : bs ≠ []) : (∀ d ∈ reboots sector a m bs,
      d = ⟨m, firstSix (macRead m a), randomStatic (firstSix (macRead m a)) x y⟩) ↔
        m (a + 6) = x ∧ m (a + 7) = y := by
  obtain ⟨b, bs, rfl⟩ := List.exists_cons_of_ne_nil hbs
  refine ⟨fun hall => ?_, fun ⟨hx, hy⟩ => ?_⟩
  · have hd := hall _ List.mem_cons_self
    rw [boot_found hs hp h, Device.mk.injEq] at hd
    exact randomStatic_inj.mp hd.2.2
  · rw [← hx, ← hy]
    exact reboots_found hs hp h (b :: bs)

/-- Programming a pair again that has been programmed already. -/
theorem program_pair_again {x y : U8} (hx : m (a + 6) &&& x = m (a + 6))
    (hy : m (a + 7) &&& y = m (a + 7)) : program m (a + 6) [x, y] = m := by
  funext z
  rw [program_pair]
  split
  · next h => rw [h, hx]
  · split
    · next h => rw [h, hy]
    · rfl

/-- While the pair reads as erased, a boot gives the identity of an earlier one exactly when it
draws the same pair. -/
theorem reboots_redraw (hs : sector ≠ 0) (hp : PublicThere m a) (h : ¬ PairThere m a) {x y : U8}
    (hx : m (a + 6) &&& x = m (a + 6)) (hy : m (a + 7) &&& y = m (a + 7)) (bs : List Boot) :
    (∀ d ∈ reboots sector a m bs,
      d = ⟨m, firstSix (macRead m a), randomStatic (firstSix (macRead m a)) x y⟩) ↔
        ∀ b ∈ bs, b.valueRand[3] = x ∧ b.valueRand[4] = y := by
  induction bs with
  | nil =>
      exact ⟨fun _ b hb => absurd hb List.not_mem_nil, fun _ d hd => absurd hd List.not_mem_nil⟩
  | cons b bs ih =>
      have hboot : boot sector a m b =
          ⟨m, firstSix (macRead m a), randomStatic (firstSix (macRead m a)) x y⟩ ↔
            b.valueRand[3] = x ∧ b.valueRand[4] = y := by
        rw [boot_half hs hp h, Device.mk.injEq]
        refine ⟨fun heq => randomStatic_inj.mp heq.2.2, fun ⟨h₃, h₄⟩ => ?_⟩
        rw [h₃, h₄]
        exact ⟨program_pair_again hx hy, rfl, rfl⟩
      rw [reboots, List.forall_mem_cons, List.forall_mem_cons, hboot]
      refine and_congr_right ?_
      intro hb
      rw [hboot.mpr hb]
      exact ih

end boot

/-- The draw `r` of a boot on the flash `m` can be read back: it is not erased flash, and what is
there can hold it. -/
def DrawHeld (m : Mem) (a : Nat) (r : Vector U8 5) : Prop :=
  r[3] ≠ 0xFF#8 ∧ r[4] ≠ 0xFF#8 ∧ m (a + 6) &&& r[3] = r[3] ∧ m (a + 7) &&& r[4] = r[4]

/-- After the draw `r` on the flash `m` the pair still reads as erased, and the draw `r'` of a later
boot gives the same two bytes. -/
def DrawRepeated (m : Mem) (a : Nat) (r r' : Vector U8 5) : Prop :=
  (m (a + 6) &&& r[3] = 0xFF#8 ∨ m (a + 7) &&& r[4] = 0xFF#8) ∧ r'[3] = r[3] ∧ r'[4] = r[4]

/-- The condition on the flash before the first boot, its draw, and the draws of the later ones. -/
def IdentityKept (m : Mem) (a : Nat) (b : Boot) (bs : List Boot) : Prop :=
  (PublicThere m a ∧ PairThere m a) ∨ DrawHeld m a b.valueRand ∨
    ∀ b' ∈ bs, DrawRepeated m a b.valueRand b'.valueRand

/-- **Identity, exactly.**  Whatever the flash, the buffers and the draws: every later boot gives
the addresses of the first one and leaves the flash as that left it, exactly when the first boot
found both parts; or the pair it drew can be read back; or it reads as erased, and every later boot
draws it again. -/
theorem identity_kept_iff {sector : BitVec 32} (hs : sector ≠ 0) (a : Nat) (m : Mem) (b : Boot)
    (bs : List Boot) :
    (∀ d ∈ reboots sector a (boot sector a m b).flash bs, d = boot sector a m b) ↔
      IdentityKept m a b bs := by
  obtain ⟨hp, hpub, ⟨hp₀, hpair, hflash, hrandom⟩ | ⟨hno, h₆, h₇, hrandom⟩⟩ :=
    first_boot (a := a) (m := m) (b := b) hs
  · refine ⟨fun _ => .inl ⟨hp₀, hpair⟩, fun _ d hd => ?_⟩
    rw [hflash] at hd hpub
    rw [reboots_found hs hp₀ hpair bs d hd]
    exact Device.ext hflash.symm hpub.symm (by rw [hrandom, hpub])
  · generalize hd₀ : boot sector a m b = d₀ at hp hpub h₆ h₇ hrandom ⊢
    have hfirst : d₀ = ⟨d₀.flash, firstSix (macRead d₀.flash a),
        randomStatic (firstSix (macRead d₀.flash a)) b.valueRand[3] b.valueRand[4]⟩ :=
      Device.ext rfl hpub (by rw [hrandom, hpub])
    rw [hfirst]
    by_cases hbs : bs = []
    · subst hbs
      exact ⟨fun _ => .inr (.inr fun _ hb => absurd hb List.not_mem_nil),
        fun _ d hd => absurd hd List.not_mem_nil⟩
    by_cases hpair : PairThere d₀.flash a
    · -- later boots read the flash: it must hold the draw
      rw [reboots_found_iff hs hp hpair hbs, h₆, h₇]
      rw [PairThere, h₆, h₇] at hpair
      refine ⟨fun ⟨hx, hy⟩ => .inr (.inl ⟨hx ▸ hpair.1, hy ▸ hpair.2, hx, hy⟩), ?_⟩
      rintro (hfound | ⟨-, -, hx, hy⟩ | hagain)
      · exact absurd hfound hno
      · exact ⟨hx, hy⟩
      · obtain ⟨b', bs, rfl⟩ := List.exists_cons_of_ne_nil hbs
        rcases (hagain b' List.mem_cons_self).1 with hff | hff
        · exact absurd hff hpair.1
        · exact absurd hff hpair.2
    · -- later boots draw: they must draw the same
      rw [reboots_redraw hs hp hpair (by rw [h₆, BitVec.and_assoc, BitVec.and_self])
        (by rw [h₇, BitVec.and_assoc, BitVec.and_self])]
      rw [PairThere, h₆, h₇] at hpair
      have hff : m (a + 6) &&& b.valueRand[3] = 0xFF#8 ∨ m (a + 7) &&& b.valueRand[4] = 0xFF#8 := by
        tauto
      refine ⟨fun hsame => .inr (.inr fun b' hb' => ⟨hff, hsame b' hb'⟩), ?_⟩
      rintro (hfound | ⟨h₃, h₄, hx, hy⟩ | hagain)
      · exact absurd hfound hno
      · rw [hx, hy] at hff
        exact absurd hff (not_or.mpr ⟨h₃, h₄⟩)
      · exact fun b' hb' => (hagain b' hb').2

/-- A boot of a fresh device, whose flash is erased, with the draw `r`. -/
def freshBoot (r : Vector U8 5) : Boot := ⟨ffSixByte, ffSixByte, r⟩

theorem identity_kept_iff_fresh :
    (∀ d ∈ reboots 0xFF000#32 0xFF000 (boot 0xFF000#32 0xFF000 (fun _ => blank)
        (freshBoot #v[1#8, 2#8, 3#8, 4#8, 5#8])).flash [freshBoot #v[6#8, 7#8, 8#8, 9#8, 10#8]],
      d = boot 0xFF000#32 0xFF000 (fun _ => blank) (freshBoot #v[1#8, 2#8, 3#8, 4#8, 5#8])) ↔
        IdentityKept (fun _ => blank) 0xFF000 (freshBoot #v[1#8, 2#8, 3#8, 4#8, 5#8])
          [freshBoot #v[6#8, 7#8, 8#8, 9#8, 10#8]] :=
  identity_kept_iff (by decide) 0xFF000 _ _ _

/-- A fresh device that draws `0xFF` for byte 3 of its random static address has another one after
the next boot. -/
theorem identity_lost : ¬ ∀ (sector : BitVec 32), sector ≠ 0 → ∀ (a : Nat) (m : Mem) (b : Boot)
    (bs : List Boot), ∀ d ∈ reboots sector a (boot sector a m b).flash bs,
      d = boot sector a m b := by
  intro h
  have hd := h 0xFF000#32 (by decide) 0xFF000 (fun _ => blank)
    (freshBoot #v[1#8, 2#8, 3#8, 0xFF#8, 5#8]) [freshBoot #v[6#8, 7#8, 8#8, 9#8, 10#8]] _
    List.mem_cons_self
  exact absurd (congrArg Device.macRandomStatic hd) (by decide)

end TelinkB91.Identity
