import TelinkB91.Pairing.Persistence

/-!
# Pairing — resets between two flash operations

* `bond_flash_invariant`: whatever calls, boots and resets between two flash operations have
  happened, at most four slots carry the bond mark, every slot up to the last written one carries
  the bond mark or the erase mark, a running device's table lists exactly the marked slots, and
  the boot scan has never reached its trap.
* `compaction_cut_restores`: a reset inside the compaction keeps a prefix of the table: all of it
  before the erase, and then one bond for each slot written again.
-/

namespace TelinkB91.Pairing
open NorFlash LiveArray SlotLog Runs

/-- The offsets of the slots that carry the bond mark, in flash order. -/
def markedOffsets (m : Mem) : List Nat :=
  ((List.range 512).filter fun i => m (8 * i) = adrBondMark).map (8 * ·)

/-- Slot `i` has been written since the last erase. -/
def Written (m : Mem) (i : Nat) : Prop := ∃ x, 8 * i ≤ x ∧ x < 8 * i + 8 ∧ m x ≠ blank

variable {log : List (Option Bond)}

theorem markedOffsets_eq {m : Mem} (h : Holds bondFormat m log) :
    markedOffsets m = (SlotLog.live log).map fun e => 8 * e.1 := by
  have := congrArg (List.map (8 * ·)) (h.marked_eq width_pos)
  rw [List.map_map] at this
  exact this

theorem pairwise_markedOffsets (m : Mem) : (markedOffsets m).Pairwise (· < ·) := by
  refine List.pairwise_map.mpr ((List.pairwise_lt_range.filter _).imp fun h => ?_)
  omega

theorem mem_markedOffsets {m : Mem} {x : Nat} (h : x ∈ markedOffsets m) : 8 ∣ x ∧ x < 4096 := by
  obtain ⟨i, hi, rfl⟩ := List.mem_map.mp h
  have := List.mem_range.mp (List.mem_filter.mp hi).1
  exact ⟨Nat.dvd_mul_right 8 i, by omega⟩

/-- **The sector under resets.**  After every history of calls, boots and resets between two
flash operations: the boot scan is not in its trap; at most four slots carry the bond mark; every
slot up to the last written one carries the bond mark or the erase mark; and while the device runs
the marked slots are exactly `bond_flash_idx[0 .. curNum)`, strictly increasing multiples of 8
below 4096. -/
theorem bond_flash_invariant (es : List Event) :
    let s := runFrom Power.step firstBoot es
    (∀ m, s ≠ .trapped m) ∧
    (markedOffsets s.flash).length ≤ userPairSlaveMaxNum ∧
    (∀ i j, i ≤ j → j < 512 → Written s.flash j →
      s.flash (8 * i) = adrBondMark ∨ s.flash (8 * i) = adrEraseMark) ∧
    ∀ d, s = .on d →
      LiveArray.live d.ram.slaveMac.bondFlashIdx d.ram.slaveMac.curNum = markedOffsets s.flash ∧
      d.ram.slaveMac.curNum ≤ userPairSlaveMaxNum ∧
      (LiveArray.live d.ram.slaveMac.bondFlashIdx d.ram.slaveMac.curNum).Pairwise (· < ·) ∧
      ∀ x ∈ LiveArray.live d.ram.slaveMac.bondFlashIdx d.ram.slaveMac.curNum, 8 ∣ x ∧ x < 4096 := by
  obtain ⟨log, hm, hle, hs⟩ := sound_run es
  have hmarked := markedOffsets_eq hm
  refine ⟨fun m hm' => ?_, ?_, fun i j hij hj ⟨x, hx, hx', hb⟩ => ?_, fun d hd => ?_⟩
  · rw [hm'] at hs; exact hs
  · rw [hmarked, List.length_map]; exact hle
  · have hlt : j < log.length := hm.lt_of_ne_blank hx (show x < 8 * 512 by omega) hb
    exact hm.mark_written (Nat.lt_of_le_of_lt hij hlt)
  · rw [hd] at hs
    have hidx : LiveArray.live d.ram.slaveMac.bondFlashIdx d.ram.slaveMac.curNum =
        markedOffsets (runFrom Power.step firstBoot es).flash := hs.shows.idx.trans hmarked.symm
    refine ⟨hidx, hs.shows.le, ?_, ?_⟩
    · rw [hidx]; exact pairwise_markedOffsets _
    · rw [hidx]; exact fun x hx => mem_markedOffsets hx

/-! ### Resets inside the compaction -/

/-- A boot of a sector whose table is `t`, reset after `k` flash operations of its compaction, and
the boot after it. -/
theorem bootCut_entries {flash : Mem} (hm : Holds bondFormat flash log) {t : UserSalveMac}
    (ht : Shows t (SlotLog.live log)) (hlen : ¬ log.length ≤ bondFormat.cap / 2) (k : Nat) :
    ∃ m d, bootCut flash k = .off m ∧ boot m = .on d ∧
      d.ram.slaveMac.entries = if k = 0 then t.entries else t.entries.take (k - 1) := by
  have hle : (SlotLog.live log).length ≤ userPairSlaveMaxNum := ht.curNum_eq ▸ ht.le
  obtain ⟨cs, r, hi, rfl, hfit, -⟩ := init_spec hm hle
  obtain ⟨d, log', hb, -, hrep, hbonds⟩ :=
    boot_spec (hm.edits_take width_pos hfit k) (staysSmall_compact hle k)
  refine ⟨_, d, by rw [bootCut, hi], hb, ?_⟩
  rw [hrep.shows.entries, hbonds, bonds_compact_take hlen k, ht.entries]
  split
  · rfl
  · rw [List.map_take]

/-- **A reset inside the compaction.**  Let the boot scan, after any history, rebuild the table `t`
with a newest slot index of at least 2048, so that the compaction runs, and let a reset follow
`k` of its flash operations.  The next boot restores the whole table if nothing was erased yet,
and otherwise the first `k - 1` entries: those already written again. -/
theorem compaction_cut_restores (es : List Event) {cfgIdx : Nat} {t : UserSalveMac}
    (hscan : scanSlots (runFrom Power.step firstBoot es).flash 512 .zero = some (cfgIdx, t))
    (hbig : 2048 ≤ (cfgIdx : Int) - 8) (k : Nat) :
    ∃ m d, bootCut (runFrom Power.step firstBoot es).flash k = .off m ∧ boot m = .on d ∧
      d.ram.slaveMac.entries =
        if k = 0 then t.entries else t.entries.take (k - 1) := by
  obtain ⟨log, hm, hle, -⟩ := sound_run es
  obtain ⟨t', hs, ht⟩ := scan_spec hm log 0 .zero [] rfl (Nat.zero_le _) shows_zero hle
  have heq : some (8 * log.length, t') = some (cfgIdx, t) := hs.symm.trans hscan
  obtain ⟨rfl, rfl⟩ := Prod.mk.inj (Option.some.inj heq)
  have hlen : ¬ log.length ≤ bondFormat.cap / 2 := by
    have hcap : bondFormat.cap = 512 := rfl
    push_cast at hbig
    omega
  exact bootCut_entries hm ht hlen k

/-- 257 slaves bonded one after another: the table holds four, and the next boot compacts. -/
theorem exists_compacting :
    ∃ d log t, runFrom Power.step firstBoot (addAll ((List.range 257).map slave)) = .on d ∧
      Holds bondFormat d.flash log ∧ log.length = 257 ∧ Shows t (SlotLog.live log) ∧
      scanSlots d.flash 512 .zero = some (2056, t) ∧
      d.ram.slaveMac.entries = t.entries ∧ t.entries.length = 4 := by
  obtain ⟨d, log, hrun, hm, hr, hlen, hlive⟩ :=
    run_addAll_firstBoot ((List.range 257).map slave) (by simp [bondFormat])
  rw [List.length_map, List.length_range] at hlen hlive
  have hle : (SlotLog.live log).length ≤ userPairSlaveMaxNum := hr.shows.curNum_eq ▸ hr.shows.le
  obtain ⟨t, hs, ht⟩ := scan_spec hm log 0 .zero [] rfl (Nat.zero_le _) shows_zero hle
  rw [hlen] at hs
  have hshow : Shows t (SlotLog.live log) := ht
  refine ⟨d, log, t, hrun, hm, hlen, hshow, hs, ?_, ?_⟩
  · rw [hshow.entries, hr.shows.entries]
  · rw [hshow.entries, List.length_map, List.length_map, hlive]; rfl

/-- The reset point right after the erase, for 257 slaves. -/
theorem compaction_cut_restores_257 :
    ∃ d t m d', runFrom Power.step firstBoot (addAll ((List.range 257).map slave)) = .on d ∧
      scanSlots d.flash 512 .zero = some (2056, t) ∧ bootCut d.flash 1 = .off m ∧
      boot m = .on d' ∧ d'.ram.slaveMac.entries = t.entries.take 0 := by
  obtain ⟨d, _, t, hrun, -, -, -, hs, -⟩ := exists_compacting
  have hscan : scanSlots (runFrom Power.step firstBoot (addAll ((List.range 257).map slave))).flash
      512 .zero = some (2056, t) := by rw [hrun]; exact hs
  obtain ⟨m, d', hcut, hb, he⟩ :=
    compaction_cut_restores (addAll ((List.range 257).map slave)) hscan (by decide) 1
  rw [hrun] at hcut
  exact ⟨d, t, m, d', hrun, hs, hcut, hb, he⟩

/-- **A reset that loses every bond.**  257 slaves are bonded one after another, so that the next
boot compacts the sector; four of them are in the table.  If that boot is reset right after the
erase, the boot after it finds no bond. -/
theorem compaction_cut_loses_bonds :
    ∃ d m d', runFrom Power.step firstBoot (addAll ((List.range 257).map slave)) = .on d ∧
      d.ram.slaveMac.entries.length = 4 ∧ bootCut d.flash 1 = .off m ∧ boot m = .on d' ∧
      d'.ram.slaveMac.entries = [] := by
  obtain ⟨d, log, t, hrun, hm, hlen, ht, -, he, hfour⟩ := exists_compacting
  obtain ⟨m, d', hcut, hb, hent⟩ := bootCut_entries hm ht (by rw [hlen]; decide) 1
  refine ⟨d, m, d', hrun, he ▸ hfour, hcut, hb, ?_⟩
  rw [hent, if_neg (by decide), Nat.sub_self, List.take_zero]

end TelinkB91.Pairing
