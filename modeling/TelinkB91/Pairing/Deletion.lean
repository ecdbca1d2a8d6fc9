import Mathlib.Data.List.Count
import TelinkB91.Pairing.Persistence

/-!
# Pairing — what a deletion leaves

`user_tbl_slave_mac_delete_by_adr` returns behind the first entry that is the bond, and
`user_tbl_slave_mac_add` does not look whether there is one already.  A bond that was added twice
loses one of its entries.

* `search_eq_zero`: the search finds the live bonds of the log.
* `bonds_delete`: a deletion removes the first.
* `edits_absent`: the edits of an action that is not an addition of the bond do not bring it back,
  wherever they are cut.
* `deletes_iff`: a deleted bond is gone, until it is added again, and all others are found as
  before, just when the table had at most one entry of it.
* `deleted_found`: a bond that was added twice.
-/

namespace TelinkB91.Pairing
open NorFlash LiveArray SlotLog Runs

/-- The live bonds of a log, in slot order. -/
def bonds (log : List (Option Bond)) : List Bond := (SlotLog.live log).map Prod.snd

/-- `user_tbl_slave_mac_search`. -/
def Device.search (d : Device) (b : Bond) : Int :=
  userTblSlaveMacSearch d.ram b.adrType b.address

/-- `user_tbl_slave_mac_delete_by_adr`. -/
def Device.delete (d : Device) (b : Bond) : Device := d.perform (.deleteByAdr b.adrType b.address)

/-- The action adds `b`. -/
def Action.Adds (b : Bond) : Action → Prop
  | .call (.add adrType adr) => Bond.mk adrType adr = b
  | .call (.deleteByAdr _ _) => False
  | .call .deleteAll => False
  | .reboot => False

/-- **The deletion deletes**: `b` is not found again, whatever is done but adding it; and all other
bonds are found as before, also behind a reboot. -/
structure Deletes (d : Device) (b : Bond) : Prop where
  gone : ∀ es : List Event, (∀ e ∈ es, ¬e.action.Adds b) → ∀ d',
    runFrom Power.step (.on (d.delete b)) es = .on d' → d'.search b = 0
  others : ∀ c ≠ b, (d.delete b).search c = 0 ↔ d.search c = 0
  reboot : ∀ c ≠ b, ∀ d', boot (d.delete b).flash = .on d' → (d'.search c = 0 ↔ d.search c = 0)

section logs

variable {log : List (Option Bond)} {b : Bond}

theorem mem_bonds : b ∈ bonds log ↔ some b ∈ log := by
  rw [bonds, List.mem_map]
  constructor
  · rintro ⟨⟨i, c⟩, hc, rfl⟩
    exact List.mem_of_getElem? (mem_live.mp hc)
  · intro hb
    obtain ⟨i, hi⟩ := List.getElem?_of_mem hb
    exact ⟨(i, b), mem_live.mpr hi, rfl⟩

/-- **The search** finds the live bonds. -/
theorem search_eq_zero {r : Ram} (h : Rep log r) :
    userTblSlaveMacSearch r b.adrType b.address = 0 ↔ b ∉ bonds log := by
  rw [userTblSlaveMacSearch, h.shows.firstMatch]
  cases hfind : (SlotLog.live log).findIdx? fun e => e.2 = b with
  | none =>
      refine iff_of_true rfl fun hb => ?_
      obtain ⟨e, he, rfl⟩ := List.mem_map.mp hb
      have hne := List.findIdx?_eq_none_iff.mp hfind e he
      exact absurd hne (by simp)
  | some j =>
      obtain ⟨hj, heq, -⟩ := List.findIdx?_eq_some_iff_getElem.mp hfind
      refine iff_of_false (by dsimp only; omega) fun hb => hb ?_
      exact List.mem_map.mpr ⟨_, List.getElem_mem hj, of_decide_eq_true heq⟩

/-- **A deletion** removes the first entry of the bond. -/
theorem bonds_delete (log : List (Option Bond)) (b : Bond) :
    bonds (applyEdits log (deleteEdits log b)) = (bonds log).erase b := by
  have hidx : (bonds log).idxOf? b = (SlotLog.live log).findIdx? fun e => e.2 = b := by
    rw [bonds, List.idxOf?, List.findIdx?_map]
    rfl
  rw [List.erase_eq_eraseIdx, hidx]
  cases hfind : (SlotLog.live log).findIdx? fun e => e.2 = b with
  | none =>
      rw [deleteEdits, hfind]
      rfl
  | some j =>
      obtain ⟨hj, -⟩ := List.findIdx?_eq_some_iff_getElem.mp hfind
      have hlive : SlotLog.live (log.set (SlotLog.live log)[j].1 none) =
          (SlotLog.live log).eraseIdx j := live_strike (List.getElem?_eq_getElem hj)
      dsimp only
      rw [deleteEdits_found hj hfind, bonds, applyEdits_cons, applyEdits_nil, Edit.apply, hlive,
        map_eraseIdx, bonds]

/-! ### What brings a bond back -/

theorem applyEdits_absent {es : List (Edit Bond)} (hlog : some b ∉ log)
    (hes : ∀ e ∈ es, e ≠ .append b) : some b ∉ applyEdits log es := by
  induction es generalizing log with
  | nil => exact hlog
  | cons e es ih =>
      rw [applyEdits_cons]
      refine ih ?_ fun e' he => hes e' (List.mem_cons_of_mem e he)
      cases e with
      | append c =>
          intro hmem
          rcases List.mem_append.mp hmem with hmem | hmem
          · exact hlog hmem
          · have hc : b = c := Option.some.inj (List.mem_singleton.mp hmem)
            exact hes (.append c) List.mem_cons_self (by rw [hc])
      | strike i =>
          intro hmem
          rcases List.mem_or_eq_of_mem_set hmem with hmem | hmem
          · exact hlog hmem
          · exact Option.some_ne_none b hmem
      | wipe => exact List.not_mem_nil

/-- A strike does not bring anything back. -/
theorem strikes_absent (es : List (Nat × Bond)) :
    ∀ e ∈ es.map fun e => Edit.strike e.1, e ≠ .append b := by
  intro e he heq
  obtain ⟨i, -, rfl⟩ := List.mem_map.mp he
  cases heq

/-- **No action but an addition of the bond** brings it back. -/
theorem edits_absent {a : Action} (ha : ¬a.Adds b) : a.Keeps fun log => some b ∉ log := by
  intro log hlog k
  refine applyEdits_absent hlog fun e he => ?_
  have hmem : e ∈ a.edits log := List.mem_of_mem_take he
  cases a with
  | call c =>
      cases c with
      | add adrType adr =>
          rcases List.mem_append.mp hmem with hmem | hmem
          · rw [evictEdits] at hmem
            split_ifs at hmem
            · exact strikes_absent _ e hmem
            · exact absurd hmem List.not_mem_nil
          · split_ifs at hmem
            · rw [List.mem_singleton.mp hmem]
              exact fun heq => ha (Edit.append.inj heq)
            · exact absurd hmem List.not_mem_nil
      | deleteByAdr adrType adr =>
          change e ∈ deleteEdits log _ at hmem
          rw [deleteEdits] at hmem
          split at hmem
          · exact strikes_absent _ e hmem
          · exact absurd hmem List.not_mem_nil
      | deleteAll => exact strikes_absent _ e hmem
  | reboot =>
      change e ∈ compactEdits log at hmem
      rw [compactEdits] at hmem
      split_ifs at hmem
      · exact absurd hmem List.not_mem_nil
      · rcases List.mem_cons.mp hmem with rfl | hmem
        · intro heq
          cases heq
        · obtain ⟨⟨i, c⟩, hc, rfl⟩ := List.mem_map.mp hmem
          intro heq
          rw [← Edit.append.inj heq] at hlog
          exact hlog (List.mem_of_getElem? (mem_live.mp hc))

end logs

/-! ### Histories -/

theorem pair_injective : Function.Injective Bond.pair := by
  rintro ⟨t, a⟩ ⟨t', a'⟩ h
  cases h
  rfl

/-- The table, the sector and the log behind a deletion. -/
theorem delete_spec {d : Device} {log : List (Option Bond)} (hm : Holds bondFormat d.flash log)
    (hle : (SlotLog.live log).length ≤ userPairSlaveMaxNum) (hrep : Rep log d.ram) (b : Bond) :
    let log' := applyEdits log (deleteEdits log b)
    Holds bondFormat (d.delete b).flash log' ∧
      (SlotLog.live log').length ≤ userPairSlaveMaxNum ∧ Rep log' (d.delete b).ram := by
  obtain ⟨hcs, hfit, hrep'⟩ := deleteByAdr_spec hrep b
  have hflash := hm.edits width_pos hfit
  rw [← hcs] at hflash
  have hsmall := (staysSmall_delete hle b) (deleteEdits log b).length
  rw [List.take_length] at hsmall
  exact ⟨hflash, hsmall, hrep'⟩

/-- **A deletion deletes.**  After every history, and for every bond: it is gone, until it is added
again, and all others are found as before, just when the table had at most one entry of it. -/
theorem deletes_iff (es : List Event) {d : Device}
    (hd : runFrom Power.step firstBoot es = .on d) (b : Bond) :
    Deletes d b ↔ d.ram.slaveMac.entries.count b.pair ≤ 1 := by
  have hsound := sound_run es
  rw [hd] at hsound
  obtain ⟨log, hm, hle, hrep⟩ := hsound
  obtain ⟨hflash, hsmall, hrep'⟩ := delete_spec hm hle hrep b
  have hbonds := bonds_delete log b
  have hcount : d.ram.slaveMac.entries.count b.pair = (bonds log).count b := by
    rw [hrep.shows.entries]
    exact List.count_map_of_injective _ _ pair_injective b
  have hothers : ∀ c ≠ b, ((d.delete b).search c = 0 ↔ d.search c = 0) := by
    intro c hc
    rw [Device.search, Device.search, search_eq_zero hrep', search_eq_zero hrep, hbonds,
      List.mem_erase_of_ne hc]
  rw [hcount]
  constructor
  · intro hdel
    have hzero := hdel.gone [] (fun e he => absurd he List.not_mem_nil) (d.delete b) rfl
    rw [Device.search, search_eq_zero hrep', hbonds] at hzero
    have herase := List.count_eq_zero.mpr hzero
    rw [List.count_erase_self] at herase
    omega
  · intro hone
    have habsent : some b ∉ applyEdits log (deleteEdits log b) := by
      rw [← mem_bonds, hbonds, ← List.count_eq_zero, List.count_erase_self]
      omega
    refine ⟨fun fs hfs d' hd' => ?_, hothers, fun c hc d' hd' => ?_⟩
    · have hrun : SoundWith (fun log => some b ∉ log)
          (runFrom Power.step (.on (d.delete b)) fs) :=
        Along.invariant (P := fun _ e => ¬e.action.Adds b)
          (fun s e hs he => soundWith_step s e hs (edits_absent he))
          ⟨_, hflash, hsmall, habsent, hrep'⟩ (.of_forall fun e he _ => hfs e he)
      rw [hd'] at hrun
      obtain ⟨log', -, -, hnot, hrep''⟩ := hrun
      rw [Device.search, search_eq_zero hrep'', mem_bonds]
      exact hnot
    · obtain ⟨d₁, log₁, hboot, -, hrep₁, hlive⟩ := boot_spec hflash hsmall
      obtain rfl : d₁ = d' := Power.on.inj (hboot.symm.trans hd')
      rw [← hothers c hc, Device.search, Device.search, search_eq_zero hrep₁,
        search_eq_zero hrep']
      exact not_congr (by rw [bonds, hlive, bonds])

/-- A slave that was added once. -/
theorem deletes_iff_slave :
    ∃ d, runFrom Power.step firstBoot (addAll [slave 1]) = .on d ∧
      (Deletes d (slave 1) ↔ d.ram.slaveMac.entries.count (slave 1).pair ≤ 1) := by
  obtain ⟨d, -, hrun, -⟩ := run_addAll_firstBoot [slave 1] (by decide)
  exact ⟨d, hrun, deletes_iff (addAll [slave 1]) hrun (slave 1)⟩

/-- **A bond that was added twice** is found behind its deletion. -/
theorem deleted_found :
    ∃ d, runFrom Power.step firstBoot (addAll [slave 1, slave 1]) = .on d ∧
      (d.delete (slave 1)).search (slave 1) = 1 ∧ ¬Deletes d (slave 1) := by
  have hrun : runFrom Power.step firstBoot (addAll [slave 1, slave 1]) =
      .on (Device.perform (Device.perform
        ⟨fun _ => blank, { slaveMac := .zero, flashCfgIdx := -8 }⟩
        (.add (slave 1).adrType (slave 1).address)) (.add (slave 1).adrType (slave 1).address)) := by
    rw [firstBoot_eq]
    rfl
  have hfound : ((Device.perform (Device.perform
      ⟨fun _ => blank, { slaveMac := .zero, flashCfgIdx := -8 }⟩
        (.add (slave 1).adrType (slave 1).address)) (.add (slave 1).adrType
          (slave 1).address)).delete (slave 1)).search (slave 1) = 1 := by decide
  refine ⟨_, hrun, hfound, fun hdel => ?_⟩
  have hzero := hdel.gone [] (fun e he => absurd he List.not_mem_nil) _ rfl
  rw [hfound] at hzero
  exact absurd hzero (by decide)

end TelinkB91.Pairing
