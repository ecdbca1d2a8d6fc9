import Mathlib.Data.List.Induction
import TelinkB91.Pairing.Boot

/-!
# Pairing — what a reboot restores, and what a failed addition changes

* `reboot_rebuilds_table`: after any calls and reboots, a reboot rebuilds the table as it stood.
* `failed_add_changes_iff`: an addition that reports failure has left the state as it was
  exactly when it does not fail, and at least table and sector when the table was not full.
* `cfgIdx_le_of_run`: the slot index of a run of `n` events is at most `4088 + 8 n`, so no run of
  fewer than 2²⁸ − 511 events overflows the C `int`.
-/

namespace TelinkB91.Pairing
open NorFlash LiveArray SlotLog Runs

/-- The (type, address) entries of the table, in table order. -/
def UserSalveMac.entries (t : UserSalveMac) : List (U8 × Vector U8 6) :=
  (LiveArray.live t.bondDevice t.curNum).map fun d => (d.adrType, d.address)

/-- A bond as the pair its callers pass. -/
def Bond.pair (b : Bond) : U8 × Vector U8 6 := (b.adrType, b.address)

theorem Shows.entries {t : UserSalveMac} {es : List (Nat × Bond)} (h : Shows t es) :
    t.entries = (es.map Prod.snd).map Bond.pair := by
  rw [UserSalveMac.entries, h.device, List.map_map, List.map_map]
  rfl

theorem UserSalveMac.length_entries {t : UserSalveMac} (h : t.curNum ≤ userPairSlaveMaxNum) :
    t.entries.length = t.curNum := by
  rw [UserSalveMac.entries, List.length_map, length_live h]

variable {log : List (Option Bond)}

/-- The compaction keeps the live bonds and their order. -/
theorem bonds_compact (log : List (Option Bond)) :
    (SlotLog.live (applyEdits log (compactEdits log))).map Prod.snd =
      (SlotLog.live log).map Prod.snd := by
  by_cases hlen : log.length ≤ bondFormat.cap / 2
  · rw [compactEdits, if_pos hlen]; rfl
  · have := bonds_compact_take hlen (compactEdits log).length
    rw [List.take_length] at this
    rw [this, compactEdits, if_neg hlen, if_neg (by simp), List.take_of_length_le (by simp)]

/-- A boot on a sector that holds a log: the device runs and shows the log's bonds. -/
theorem boot_spec {m : Mem} (h : Holds bondFormat m log)
    (hle : (SlotLog.live log).length ≤ userPairSlaveMaxNum) :
    ∃ d log', boot m = .on d ∧ Holds bondFormat d.flash log' ∧ Rep log' d.ram ∧
      (SlotLog.live log').map Prod.snd = (SlotLog.live log).map Prod.snd := by
  obtain ⟨cs, r, hi, rfl, hfit, hrep⟩ := init_spec h hle
  refine ⟨⟨_, r⟩, _, ?_, h.edits width_pos hfit, hrep, bonds_compact log⟩
  rw [boot, hi]
  rfl

/-- A boot shows the entries of every table in step with the log on its sector. -/
theorem boot_entries {m : Mem} (h : Holds bondFormat m log) {t : UserSalveMac}
    (ht : Shows t (SlotLog.live log)) :
    ∃ d, boot m = .on d ∧ d.ram.slaveMac.curNum = t.curNum ∧
      d.ram.slaveMac.entries = t.entries := by
  obtain ⟨d, log', hb, -, hrep, hbonds⟩ := boot_spec h (ht.curNum_eq ▸ ht.le)
  have he : d.ram.slaveMac.entries = t.entries := by
    rw [hrep.shows.entries, ht.entries, hbonds]
  refine ⟨d, hb, ?_, he⟩
  rw [← UserSalveMac.length_entries hrep.shows.le, he, UserSalveMac.length_entries ht.le]

/-- A running device stays running under completed actions. -/
theorem on_of_done (as : List Action) :
    ∃ d, runFrom Power.step firstBoot (as.map .done) = .on d := by
  have hboot : ∀ m, (∃ log, Holds bondFormat m log ∧
      (SlotLog.live log).length ≤ userPairSlaveMaxNum) → ∃ d, boot m = .on d :=
    fun m ⟨_, h, hle⟩ => (boot_spec h hle).imp fun _ ⟨_, hb, _⟩ => hb
  induction as using List.reverseRecOn with
  | nil => exact hboot _ ⟨[], holds_nil fun _ _ => rfl, Nat.zero_le _⟩
  | append_singleton as a ih =>
      obtain ⟨d, hd⟩ := ih
      rw [List.map_append, runFrom_append, hd]
      cases a with
      | call c => exact ⟨_, rfl⟩
      | reboot =>
          have hs := sound_run (as.map .done)
          rw [hd] at hs
          obtain ⟨log, hm, hle, -⟩ := hs
          exact hboot _ ⟨log, hm, hle⟩

/-- **Persistence.**  After any calls and reboots from a blank sector the device runs, and a
reboot brings back a table with the same number of entries, the same entries and the same
order. -/
theorem reboot_rebuilds_table (as : List Action) :
    ∃ d d', runFrom Power.step firstBoot (as.map .done) = .on d ∧ boot d.flash = .on d' ∧
      d'.ram.slaveMac.curNum = d.ram.slaveMac.curNum ∧
      d'.ram.slaveMac.entries = d.ram.slaveMac.entries := by
  obtain ⟨d, hd⟩ := on_of_done as
  have hs := sound_run (as.map .done)
  rw [hd] at hs
  obtain ⟨log, hm, -, hrep⟩ := hs
  obtain ⟨d', hb, hnum, hent⟩ := boot_entries hm hrep.shows
  exact ⟨d, d', hd, hb, hnum, hent⟩

/-! ### Failed additions -/

/-- What an addition returns depends on the slot index alone. -/
theorem add_ret (r : Ram) (adrType : U8) (adr : Vector U8 6) :
    (userTblSlaveMacAdd r adrType adr).ret =
      if r.flashCfgIdx + 8 ≥ flashCustomPairingMaxSize then 0 else 1 := by
  split
  · rw [add_of_full ‹_›]
  · rw [add_of_room ‹_›]

/-- An addition moves the slot index, whether it fails or not. -/
theorem add_cfgIdx (r : Ram) (adrType : U8) (adr : Vector U8 6) :
    (userTblSlaveMacAdd r adrType adr).ram.flashCfgIdx = r.flashCfgIdx + 8 := by
  by_cases hf : r.flashCfgIdx + 8 ≥ flashCustomPairingMaxSize
  · rw [add_of_full hf]
  · rw [add_of_room hf]

/-- An addition fails only at a full sector. -/
theorem full_of_add_ret {r : Ram} {adrType : U8} {adr : Vector U8 6}
    (h : (userTblSlaveMacAdd r adrType adr).ret = 0) :
    r.flashCfgIdx + 8 ≥ flashCustomPairingMaxSize := by
  by_contra hlt
  rw [add_ret, if_neg hlt] at h
  exact absurd h (by decide)

/-- A failed addition leaves the table and the sector as they were exactly when the table was not
full; otherwise the oldest bond is gone. -/
theorem failed_add_table_iff (es : List Event) {d : Device}
    (hd : runFrom Power.step firstBoot es = .on d) (adrType : U8) (adr : Vector U8 6)
    (hfail : (userTblSlaveMacAdd d.ram adrType adr).ret = 0) :
    ((d.perform (.add adrType adr)).ram.slaveMac = d.ram.slaveMac ∧
      (d.perform (.add adrType adr)).flash = d.flash) ↔
      d.ram.slaveMac.curNum < userPairSlaveMaxNum := by
  have hs := sound_run es
  rw [hd] at hs
  obtain ⟨log, -, -, hrep⟩ := hs
  have hnum := (makeRoom_spec (r := d.ram) hrep).2
  rw [Device.perform, Call.run, add_of_full (full_of_add_ret hfail)]
  refine ⟨fun ⟨ht, _⟩ => by rwa [← ht], ?_⟩
  intro hlt
  rw [makeRoom, if_neg (not_le.mpr hlt)]
  exact ⟨rfl, rfl⟩

/-- **When a failed addition changes nothing.**  In every reachable state the addition meets
"a return value of 0 means that nothing changed" exactly when there is room for another slot,
that is when it does not return 0.  At least the table and the sector are as before just when the
table was not full. -/
theorem failed_add_changes_iff (es : List Event) {d : Device}
    (hd : runFrom Power.step firstBoot es = .on d) (adrType : U8) (adr : Vector U8 6) :
    (((userTblSlaveMacAdd d.ram adrType adr).ret = 0 → d.perform (.add adrType adr) = d) ↔
        d.ram.flashCfgIdx + 8 < flashCustomPairingMaxSize) ∧
      ((userTblSlaveMacAdd d.ram adrType adr).ret = 0 →
        ((d.perform (.add adrType adr)).ram.slaveMac = d.ram.slaveMac ∧
          (d.perform (.add adrType adr)).flash = d.flash ↔
            d.ram.slaveMac.curNum < userPairSlaveMaxNum)) := by
  refine ⟨?_, failed_add_table_iff es hd adrType adr⟩
  rw [add_ret]
  constructor
  · intro h
    by_contra hge
    have hsame := h (if_pos (not_lt.mp hge))
    have hidx := congrArg (fun d : Device => d.ram.flashCfgIdx) hsame
    have hadd : (d.perform (.add adrType adr)).ram.flashCfgIdx = d.ram.flashCfgIdx + 8 :=
      add_cfgIdx d.ram adrType adr
    simp only [hadd] at hidx
    omega
  · intro hlt h
    rw [if_neg (not_le.mpr hlt)] at h
    exact absurd h (by decide)

/-- The first boot: a blank sector, nothing to compact, an empty table. -/
theorem firstBoot_eq :
    firstBoot = .on ⟨fun _ => blank, { slaveMac := .zero, flashCfgIdx := -8 }⟩ := by
  have h : userMasterHostPairingFlashInit (fun _ => blank) .zero =
      some ([], { slaveMac := .zero, flashCfgIdx := -8 }) := rfl
  rw [firstBoot, boot, h]
  rfl

/-! ### Runs of additions -/

/-- Additions of `bs` in order. -/
def addAll (bs : List Bond) : List Event := bs.map fun b => .done (.call (.add b.adrType b.address))

/-- While the sector has room every addition takes one slot, and the table keeps the newest
four. -/
theorem run_addAll {m : Mem} {r : Ram} (bs : List Bond) (hm : Holds bondFormat m log)
    (hr : Rep log r) (hroom : log.length + bs.length ≤ bondFormat.cap) :
    ∃ m' r' log', runFrom Power.step (.on ⟨m, r⟩) (addAll bs) = .on ⟨m', r'⟩ ∧
      Holds bondFormat m' log' ∧ Rep log' r' ∧ log'.length = log.length + bs.length ∧
      (SlotLog.live log').length =
        min ((SlotLog.live log).length + bs.length) userPairSlaveMaxNum := by
  have hN : userPairSlaveMaxNum = 4 := rfl
  induction bs generalizing m r log with
  | nil =>
      have hle : (SlotLog.live log).length ≤ userPairSlaveMaxNum := hr.shows.curNum_eq ▸ hr.shows.le
      exact ⟨m, r, log, rfl, hm, hr, rfl, by simp; omega⟩
  | cons b bs ih =>
      rw [List.length_cons] at hroom
      obtain ⟨hcs, hfit, hrep⟩ := add_spec hr b
      have hm' := hm.edits width_pos hfit
      have hle : (SlotLog.live log).length ≤ userPairSlaveMaxNum := hr.shows.curNum_eq ▸ hr.shows.le
      have hev := length_applyEdits_evict log
      have hedits : applyEdits log (addEdits log b) =
          applyEdits log (evictEdits log) ++ [some b] := by
        rw [addEdits, if_pos (by omega), applyEdits_append]; rfl
      have hlen : (applyEdits log (addEdits log b)).length = log.length + 1 := by
        rw [hedits, List.length_append, hev]; rfl
      have hlive : (SlotLog.live (applyEdits log (addEdits log b))).length =
          min ((SlotLog.live log).length + 1) userPairSlaveMaxNum := by
        rw [hedits, live_append_some, List.length_append, List.length_singleton, evictEdits]
        split
        · rw [live_strikes, List.length_drop]; omega
        · rw [applyEdits_nil]; omega
      obtain ⟨m', r', log', hrun, hh, hrr, hl, hc⟩ := ih hm' hrep (by omega)
      refine ⟨m', r', log', ?_, hh, hrr, by rw [hl, hlen, List.length_cons]; omega, ?_⟩
      · rw [← hcs] at hrun; exact hrun
      · rw [hc, hlive, List.length_cons]; omega

/-- A blank sector and `bs` additions. -/
theorem run_addAll_firstBoot (bs : List Bond) (hroom : bs.length ≤ bondFormat.cap) :
    ∃ d log', runFrom Power.step firstBoot (addAll bs) = .on d ∧
      Holds bondFormat d.flash log' ∧ Rep log' d.ram ∧ log'.length = bs.length ∧
      (SlotLog.live log').length = min bs.length userPairSlaveMaxNum := by
  have hr : Rep [] { slaveMac := .zero, flashCfgIdx := -8 } :=
    ⟨Nat.zero_le _, shows_zero, .inl rfl⟩
  obtain ⟨m', r', log', hrun, hm, hr', hl, hc⟩ :=
    run_addAll (m := fun _ => blank) bs (holds_nil fun _ _ => rfl) hr (by simpa using hroom)
  rw [firstBoot_eq]
  exact ⟨⟨m', r'⟩, log', hrun, hm, hr', by simpa using hl, by simpa using hc⟩

/-- The slaves of the counterexamples: public addresses that differ in their first byte. -/
def slave (n : Nat) : Bond := ⟨0#8, #v[BitVec.ofNat 8 n, 0#8, 0#8, 0#8, 0#8, 0#8]⟩

/-- 512 slaves fill the sector, and the table holds the last four. -/
theorem run_full : ∃ d, runFrom Power.step firstBoot (addAll ((List.range 512).map slave)) = .on d ∧
    d.ram.flashCfgIdx + 8 ≥ flashCustomPairingMaxSize ∧ d.ram.slaveMac.curNum = 4 := by
  obtain ⟨d, log, hrun, hm, hr, hlen, hlive⟩ :=
    run_addAll_firstBoot ((List.range 512).map slave) (by simp [bondFormat])
  rw [List.length_map, List.length_range] at hlen hlive
  refine ⟨d, hrun, hr.cfgIdx_full.mpr (by rw [hlen]; decide), le_antisymm hr.shows.le ?_⟩
  rw [hr.shows.curNum_eq, hlive]
  decide

/-- One more addition fails there, and has changed the state, the table or the sector included. -/
theorem failed_add_changes_iff_full :
    ∃ d, runFrom Power.step firstBoot (addAll ((List.range 512).map slave)) = .on d ∧
      (userTblSlaveMacAdd d.ram 1#8 (Vector.replicate 6 7#8)).ret = 0 ∧
      d.perform (.add 1#8 (Vector.replicate 6 7#8)) ≠ d ∧
      ¬ ((d.perform (.add 1#8 (Vector.replicate 6 7#8))).ram.slaveMac = d.ram.slaveMac ∧
        (d.perform (.add 1#8 (Vector.replicate 6 7#8))).flash = d.flash) := by
  obtain ⟨d, hrun, hge, hnum⟩ := run_full
  obtain ⟨hall, hparts⟩ := failed_add_changes_iff _ hrun 1#8 (Vector.replicate 6 7#8)
  have hret : (userTblSlaveMacAdd d.ram 1#8 (Vector.replicate 6 7#8)).ret = 0 := by
    rw [add_ret, if_pos hge]
  refine ⟨d, hrun, hret, fun hsame => ?_, fun hsame => ?_⟩
  · exact absurd (hall.mp fun _ => hsame) (not_lt.mpr hge)
  · exact absurd ((hparts hret).mp hsame) (not_lt.mpr hnum.ge)

/-- **A failed addition that changes the state.**  512 slaves fill the sector, and the table holds
the last four.  One more addition returns 0, but the oldest of the four bonds is gone and the slot
index has moved. -/
theorem failed_add_evicts :
    ∃ d, runFrom Power.step firstBoot (addAll ((List.range 512).map slave)) = .on d ∧
      (userTblSlaveMacAdd d.ram 1#8 (Vector.replicate 6 7#8)).ret = 0 ∧
      d.ram.slaveMac.curNum = 4 ∧
      (d.perform (.add 1#8 (Vector.replicate 6 7#8))).ram.slaveMac.curNum = 3 ∧
      d.perform (.add 1#8 (Vector.replicate 6 7#8)) ≠ d := by
  obtain ⟨d, hrun, hge, hnum⟩ := run_full
  have hfull : d.ram.slaveMac.curNum ≥ userPairSlaveMaxNum := hnum.ge
  have hafter : (d.perform (.add 1#8 (Vector.replicate 6 7#8))).ram.slaveMac.curNum = 3 := by
    rw [Device.perform, Call.run, add_of_full hge, makeRoom, if_pos hfull]
    simp only [userTblSlaveMacDeleteByIndex, UserSalveMac.closeGap, hnum]
  refine ⟨d, hrun, by rw [add_ret, if_pos hge], hnum, hafter, ?_⟩
  intro h
  rw [h, hnum] at hafter
  exact absurd hafter (by decide)

/-! ### The slot index as a C `int` -/

/-- The slot index of a device, `-8` where none runs. -/
def Power.cfgIdx : Power → Int
  | .on d => d.ram.flashCfgIdx
  | _ => -8

theorem boot_cfgIdx_le (m : Mem) (h : Sound (.off m)) : (boot m).cfgIdx ≤ 4088 := by
  obtain ⟨log, hm, hle, -⟩ := h
  obtain ⟨t, hs, ht⟩ := scan_spec hm log 0 .zero [] rfl (Nat.zero_le _) shows_zero hle
  have hinit : userMasterHostPairingFlashInit m .zero = some (userBondSlaveFlashClean
      { slaveMac := t, flashCfgIdx := ((8 * log.length : Nat) : Int) - 8 }) := by
    rw [userMasterHostPairingFlashInit]
    exact congrArg (Option.map _) hs
  have hcap : bondFormat.cap = 512 := rfl
  have hmax : flashCustomPairingMaxSize = 4096 := rfl
  have hN : userPairSlaveMaxNum = 4 := rfl
  have hfits := hm.fits
  rw [boot, hinit]
  simp only [Power.cfgIdx, userBondSlaveFlashClean]
  split
  · simp only; omega
  · have hrep : Rep log { slaveMac := t, flashCfgIdx := ((8 * log.length : Nat) : Int) - 8 } :=
      ⟨hm.fits, ht, .inl (by push_cast; rfl)⟩
    obtain ⟨idx, hr, -⟩ := rewrite_rounds hrep le_rfl
    have hnum := ht.le
    rw [hr]
    simp only
    omega

/-- **No overflow of the slot index.**  After `n` events the slot index is at most `4088 + 8 n`. -/
theorem cfgIdx_le_of_run (es : List Event) :
    (runFrom Power.step firstBoot es).cfgIdx ≤ 4088 + 8 * es.length := by
  induction es using List.reverseRecOn with
  | nil => exact (boot_cfgIdx_le _ ⟨[], holds_nil fun _ _ => rfl, Nat.zero_le _,
      trivial⟩).trans (by simp)
  | append_singleton es e ih =>
      have hs := sound_run es
      rw [runFrom_append, runFrom_cons, runFrom_nil, List.length_append, List.length_singleton]
      generalize runFrom Power.step firstBoot es = s at hs ih
      have hoff : Sound (.off s.flash) := by
        obtain ⟨log, hm, hle, -⟩ := hs
        exact ⟨log, hm, hle, trivial⟩
      have hb := boot_cfgIdx_le s.flash hoff
      cases s with
      | trapped m => obtain ⟨_, _, _, hf⟩ := hs; exact hf.elim
      | off m =>
          cases e with
          | done a => cases a <;> simp only [Power.step, Power.cfgIdx, Power.flash] at * <;> omega
          | cut a k =>
              cases a with
              | call c => simp only [Power.step, Power.cfgIdx] at *; omega
              | reboot =>
                  have hc : (bootCut m k).cfgIdx = -8 := by rw [bootCut]; split <;> rfl
                  simp only [Power.step, Power.flash, hc]; omega
      | on d =>
          cases e with
          | done a =>
              cases a with
              | call c =>
                  have hc : (c.run d.ram).ram.flashCfgIdx ≤ d.ram.flashCfgIdx + 8 := by
                    cases c with
                    | add adrType adr => exact (add_cfgIdx d.ram adrType adr).le
                    | deleteByAdr adrType adr =>
                        simp only [Call.run, userTblSlaveMacDeleteByAdr]; split <;> simp
                    | deleteAll => simp [Call.run, userTblSlaveMacDeleteAll]
                  simp only [Power.step, Power.cfgIdx, Device.perform] at *
                  push_cast
                  omega
              | reboot => simp only [Power.step] at *; push_cast; omega
          | cut a k =>
              cases a with
              | call c => simp only [Power.step, Power.cfgIdx] at *; push_cast; omega
              | reboot =>
                  have hc : (bootCut d.flash k).cfgIdx = -8 := by rw [bootCut]; split <;> rfl
                  simp only [Power.step, Power.flash, hc]; push_cast; omega

end TelinkB91.Pairing
