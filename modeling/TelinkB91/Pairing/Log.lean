import TelinkB91.Lib.SlotLog
import TelinkB91.Pairing.Bonds

/-!
# Pairing — the sector as a log of bonds

The flash sector is a log of bonds (`SlotLog`): a slot for every bond ever added since the last
erase, live or struck out.  The RAM table shows the live ones, in slot order (`Rep`).  Each
operation of the interface is a list of log edits: an addition strikes the oldest bond out of a
full table and appends, a deletion strikes out, the compaction wipes and appends the live bonds
again.

* `call_spec`: a call issues the flash commands of its edits, and the table it leaves shows the
  edited log.
* `init_spec`: on a sector that holds a log of at most four live bonds the boot scan ends, does
  not reach its trap, and rebuilds the table that shows the log; what it writes are the edits of
  the compaction.
-/

namespace TelinkB91.Pairing
open NorFlash LiveArray SlotLog

/-- A bonded slave. -/
structure Bond where
  adrType : U8
  address : Vector U8 6
  deriving DecidableEq, Repr

/-- The record of a bond, in RAM and in its slot. -/
def Bond.device (b : Bond) : MacAddr := ⟨adrBondMark, b.adrType, b.address⟩

/-- 512 slots of eight bytes. -/
def bondFormat : Format Bond where
  width := 8
  cap := 512
  mark := adrBondMark
  encode b := b.adrType :: b.address.toList
  encode_length b := by simp
  mark_ne_blank := by decide
  mark_ne_zero := by decide
  cap_pos := by decide

theorem width_pos : 0 < bondFormat.width := by decide

theorem Bond.bytes_device (b : Bond) :
    b.device.bytes = bondFormat.mark :: bondFormat.encode b := rfl

/-- Eight bytes read as a record. -/
theorem load_of_read {m : Mem} {a : Nat} {b : Bond}
    (h : read m a 8 = bondFormat.mark :: bondFormat.encode b) : MacAddr.load m a = b.device := by
  have hb : ∀ i, i < 8 → some (m (a + i)) = b.device.bytes[i]? := fun i hi => by
    rw [Bond.bytes_device, ← h, read_getElem?, if_pos hi]
  have h₀ : m a = adrBondMark := by simpa [MacAddr.bytes, Bond.device] using hb 0 (by decide)
  have h₁ : m (a + 1) = b.adrType := by simpa [MacAddr.bytes, Bond.device] using hb 1 (by decide)
  rw [MacAddr.load, Bond.device, h₀, h₁]
  congr 1
  refine Vector.ext ?_
  intro i hi
  have h₂ := hb (i + 2) (by omega)
  simp only [MacAddr.bytes, Bond.device, List.getElem?_cons_succ] at h₂
  rw [Vector.getElem_ofFn, Nat.add_assoc, Nat.add_comm 2 i]
  simpa [hi] using h₂

/-! ### Tables that show a list of live slots -/

/-- The table's entries are the slots `es`, in order: flash offset and record. -/
structure Shows (t : UserSalveMac) (es : List (Nat × Bond)) : Prop where
  idx : LiveArray.live t.bondFlashIdx t.curNum = es.map fun e => 8 * e.1
  device : LiveArray.live t.bondDevice t.curNum = es.map fun e => e.2.device
  le : t.curNum ≤ userPairSlaveMaxNum

theorem Shows.curNum_eq {t : UserSalveMac} {es : List (Nat × Bond)} (h : Shows t es) :
    t.curNum = es.length := by
  have := congrArg List.length h.idx
  rwa [length_live h.le, List.length_map] at this

theorem Shows.flashIdx {t : UserSalveMac} {es : List (Nat × Bond)} (h : Shows t es) {j : Nat}
    {e : Nat × Bond} (hj : es[j]? = some e) : t.flashIdx j = 8 * e.1 := by
  have := congrArg (·[j]?) h.idx
  rw [live_getElem?, List.getElem?_map, hj, if_pos] at this
  · rw [UserSalveMac.flashIdx, this]; rfl
  · rw [h.curNum_eq]; exact (List.getElem?_eq_some_iff.mp hj).1

theorem Shows.deviceAt {t : UserSalveMac} {es : List (Nat × Bond)} (h : Shows t es) {j : Nat}
    {e : Nat × Bond} (hj : es[j]? = some e) : t.device j = e.2.device := by
  have := congrArg (·[j]?) h.device
  rw [live_getElem?, List.getElem?_map, hj, if_pos] at this
  · rw [UserSalveMac.device, this]; rfl
  · rw [h.curNum_eq]; exact (List.getElem?_eq_some_iff.mp hj).1

theorem map_eraseIdx {α β : Type*} (f : α → β) (l : List α) (j : Nat) :
    (l.eraseIdx j).map f = (l.map f).eraseIdx j := by
  refine List.ext_getElem? fun i => ?_
  simp only [List.getElem?_map, List.getElem?_eraseIdx]
  split <;> rfl

/-- Closing the gap at an entry removes it. -/
theorem Shows.closeGap {t : UserSalveMac} {es : List (Nat × Bond)} (h : Shows t es) {j : Nat}
    (hj : j < es.length) : Shows (t.closeGap j) (es.eraseIdx j) := by
  have hj' : j < t.curNum := h.curNum_eq ▸ hj
  refine ⟨?_, ?_, ?_⟩
  · rw [map_eraseIdx, ← h.idx]; exact live_shiftDown _ hj' h.le
  · rw [map_eraseIdx, ← h.device]; exact live_shiftDown _ hj' h.le
  · have := h.le
    simp only [UserSalveMac.closeGap]; omega

/-- Writing the first free entry appends it. -/
theorem Shows.push {t : UserSalveMac} {es : List (Nat × Bond)} (h : Shows t es) (i : Nat) (b : Bond)
    (hlt : t.curNum < userPairSlaveMaxNum) : Shows (t.push (8 * i) b.device) (es ++ [(i, b)]) := by
  refine ⟨?_, ?_, hlt⟩
  · rw [List.map_append, ← h.idx]; exact live_store _ hlt _
  · rw [List.map_append, ← h.device]; exact live_store _ hlt _

theorem shows_zero : Shows .zero [] := ⟨rfl, rfl, Nat.zero_le _⟩

/-- The search loops stop at the first entry that is the bond. -/
theorem Shows.firstMatch {t : UserSalveMac} {es : List (Nat × Bond)} (h : Shows t es) (b : Bond) :
    t.firstMatch b.adrType b.address = es.findIdx? fun e => e.2 = b := by
  have hm : ∀ (i : Nat) (hi : i < es.length),
      t.isMatch b.adrType b.address i = decide (es[i].2 = b) := fun i hi => by
    rw [UserSalveMac.isMatch, h.deviceAt (List.getElem?_eq_getElem hi), Bool.eq_iff_iff]
    simp only [Bond.device, Bool.and_eq_true, beq_iff_eq, decide_eq_true_eq]
    exact ⟨fun ⟨h₁, h₂⟩ => by cases hb : es[i].2; cases b; simp_all, fun e => e ▸ ⟨rfl, rfl⟩⟩
  rw [UserSalveMac.firstMatch, h.curNum_eq]
  cases hf : es.findIdx? fun e => e.2 = b with
  | none =>
      rw [List.find?_range_eq_none]
      intro i hi
      rw [hm i hi, List.findIdx?_eq_none_iff.mp hf _ (List.getElem_mem hi)]
      rfl
  | some j =>
      obtain ⟨hj, hp, hlt⟩ := List.findIdx?_eq_some_iff_getElem.mp hf
      rw [List.find?_range_eq_some]
      refine ⟨by rw [hm j hj]; exact hp, List.mem_range.mpr hj, ?_⟩
      intro i hi
      rw [hm i (by omega)]
      simpa using hlt i hi

/-! ### The edits of the operations -/

/-- A full table strikes out its oldest bond. -/
def evictEdits (log : List (Option Bond)) : List (Edit Bond) :=
  if userPairSlaveMaxNum ≤ (SlotLog.live log).length then
    ((SlotLog.live log).take 1).map fun e => .strike e.1
  else []

/-- An addition evicts, then appends unless the sector is full. -/
def addEdits (log : List (Option Bond)) (b : Bond) : List (Edit Bond) :=
  evictEdits log ++ if log.length < bondFormat.cap then [.append b] else []

/-- A deletion strikes out the first slot that is the bond. -/
def deleteEdits (log : List (Option Bond)) (b : Bond) : List (Edit Bond) :=
  match (SlotLog.live log).findIdx? fun e => e.2 = b with
  | some j => (((SlotLog.live log).drop j).take 1).map fun e => .strike e.1
  | none => []

/-- Deleting all bonds strikes every live slot out. -/
def deleteAllEdits (log : List (Option Bond)) : List (Edit Bond) :=
  (SlotLog.live log).map fun e => .strike e.1

/-- The compaction of a sector more than half used: wiped, then the live bonds appended. -/
def compactEdits (log : List (Option Bond)) : List (Edit Bond) :=
  if log.length ≤ bondFormat.cap / 2 then []
  else .wipe :: (SlotLog.live log).map fun e => .append e.2

/-- The edits of a call. -/
def Call.edits (log : List (Option Bond)) : Call → List (Edit Bond)
  | .add adrType adr => addEdits log ⟨adrType, adr⟩
  | .deleteByAdr adrType adr => deleteEdits log ⟨adrType, adr⟩
  | .deleteAll => deleteAllEdits log

/-- The globals are in step with the log: the table shows its live slots, and the slot index is
at its last slot, or past the end of a full sector after additions that failed. -/
structure Rep (log : List (Option Bond)) (r : Ram) : Prop where
  fits : log.length ≤ bondFormat.cap
  shows : Shows r.slaveMac (SlotLog.live log)
  cfgIdx : r.flashCfgIdx = 8 * (log.length : Int) - 8 ∨
    log.length = bondFormat.cap ∧ 4088 ≤ r.flashCfgIdx

/-! ### Calls -/

/-- Striking out entry `j` of the table: the command, and the table with the gap closed. -/
theorem strike_spec {log : List (Option Bond)} {r : Ram} (h : Rep log r) {i j : Nat} {b : Bond}
    (hj : (SlotLog.live log)[j]? = some (i, b)) :
    [Cmd.program (r.slaveMac.flashIdx j) [adrEraseMark]] = cmds bondFormat log [.strike i] ∧
      FitsAll bondFormat log [.strike i] ∧
      Rep (log.set i none) { r with slaveMac := r.slaveMac.closeGap j } := by
  have hi : i < log.length := lt_length_of_mem_live (List.mem_of_getElem? hj)
  refine ⟨?_, ⟨hi, trivial⟩, ?_, ?_, ?_⟩
  · rw [h.shows.flashIdx hj]; rfl
  · rw [List.length_set]; exact h.fits
  · rw [live_strike hj]; exact h.shows.closeGap (List.getElem?_eq_some_iff.mp hj).1
  · rw [List.length_set]; exact h.cfgIdx

theorem cmds_strikes (log : List (Option Bond)) (es : List (Nat × Bond)) :
    cmds bondFormat log (es.map fun e => .strike e.1) =
      es.map fun e => .program (8 * e.1) [adrEraseMark] := by
  induction es generalizing log with
  | nil => rfl
  | cons e es ih => simp only [List.map_cons, cmds, ih]; rfl

/-- What a list of edits does for the globals: these commands, and a table in step. -/
def Implements (log : List (Option Bond)) (es : List (Edit Bond)) (cs : List Cmd) (r : Ram) :
    Prop :=
  cs = cmds bondFormat log es ∧ FitsAll bondFormat log es ∧ Rep (applyEdits log es) r

theorem deleteAll_spec {log : List (Option Bond)} {r : Ram} (h : Rep log r) :
    Implements log (deleteAllEdits log) (userTblSlaveMacDeleteAll r).1
      (userTblSlaveMacDeleteAll r).2 := by
  have hlive : SlotLog.live (applyEdits log (deleteAllEdits log)) = [] := by
    have := live_strikes log (SlotLog.live log).length
    rwa [List.take_length, List.drop_length] at this
  refine ⟨?_, fitsAll_strikes _ fun e he => lt_length_of_mem_live he, ?_, ?_, ?_⟩
  · rw [deleteAllEdits, cmds_strikes, userTblSlaveMacDeleteAll, h.shows.curNum_eq]
    refine List.ext_getElem? fun j => ?_
    by_cases hj : j < (SlotLog.live log).length
    · simp [hj, h.shows.flashIdx (List.getElem?_eq_getElem hj)]
    · simp [hj]
  · rw [deleteAllEdits, length_applyEdits_strikes]; exact h.fits
  · rw [hlive]; exact ⟨rfl, rfl, Nat.zero_le _⟩
  · rw [deleteAllEdits, length_applyEdits_strikes]; exact h.cfgIdx

/-- The deletion of a bond that is there strikes one slot out. -/
theorem deleteEdits_found {log : List (Option Bond)} {b : Bond} {j : Nat}
    (hj : j < (SlotLog.live log).length)
    (hf : ((SlotLog.live log).findIdx? fun e => e.2 = b) = some j) :
    deleteEdits log b = [.strike (SlotLog.live log)[j].1] := by
  have hone : ((SlotLog.live log).drop j).take 1 = [(SlotLog.live log)[j]] := by
    rw [List.drop_eq_getElem_cons hj]
    rfl
  rw [deleteEdits, hf]
  dsimp only
  rw [hone]
  rfl

theorem deleteByAdr_spec {log : List (Option Bond)} {r : Ram} (h : Rep log r) (b : Bond) :
    Implements log (deleteEdits log b) (userTblSlaveMacDeleteByAdr r b.adrType b.address).cmds
      (userTblSlaveMacDeleteByAdr r b.adrType b.address).ram := by
  rw [userTblSlaveMacDeleteByAdr, h.shows.firstMatch b]
  cases hf : (SlotLog.live log).findIdx? fun e => e.2 = b with
  | none =>
      rw [deleteEdits, hf]
      exact ⟨rfl, trivial, h⟩
  | some j =>
      obtain ⟨hj, -⟩ := List.findIdx?_eq_some_iff_getElem.mp hf
      rw [deleteEdits_found hj hf]
      exact strike_spec h (List.getElem?_eq_getElem hj)

/-- Making room evicts the oldest bond of a full table. -/
theorem makeRoom_spec {log : List (Option Bond)} {r : Ram} (h : Rep log r) :
    Implements log (evictEdits log) (makeRoom r).1 (makeRoom r).2 ∧
      (makeRoom r).2.slaveMac.curNum < userPairSlaveMaxNum := by
  have hN : userPairSlaveMaxNum = 4 := rfl
  have hle := h.shows.le
  rw [makeRoom, evictEdits, ← h.shows.curNum_eq]
  by_cases hfull : r.slaveMac.curNum ≥ userPairSlaveMaxNum
  · rw [if_pos hfull, if_pos hfull]
    have hlen := h.shows.curNum_eq
    obtain ⟨e, es, hl⟩ : ∃ e es, SlotLog.live log = e :: es :=
      List.exists_cons_of_length_pos (by omega)
    rw [hl]
    refine ⟨strike_spec h (j := 0) (b := e.2) (by rw [hl]; rfl), ?_⟩
    simp only [userTblSlaveMacDeleteByIndex, UserSalveMac.closeGap]
    omega
  · rw [if_neg hfull, if_neg hfull]
    exact ⟨⟨rfl, trivial, h⟩, not_le.mp hfull⟩

/-- The slot index reaches the end of the sector exactly when the log is full. -/
theorem Rep.cfgIdx_full {log : List (Option Bond)} {r : Ram} (h : Rep log r) :
    r.flashCfgIdx + 8 ≥ flashCustomPairingMaxSize ↔ ¬ log.length < bondFormat.cap := by
  have hcap : bondFormat.cap = 512 := rfl
  have hmax : flashCustomPairingMaxSize = 4096 := rfl
  have hfits := h.fits
  rcases h.cfgIdx with hc | ⟨hl, hc⟩ <;> omega

/-- The part of an addition after the eviction. -/
theorem append_spec {log : List (Option Bond)} {r : Ram} (h : Rep log r) (b : Bond)
    (hroom : r.slaveMac.curNum < userPairSlaveMaxNum) :
    (r.flashCfgIdx + 8 ≥ flashCustomPairingMaxSize → Implements log
      (if log.length < bondFormat.cap then [.append b] else []) []
      { r with flashCfgIdx := r.flashCfgIdx + 8 }) ∧
    (¬ r.flashCfgIdx + 8 ≥ flashCustomPairingMaxSize → Implements log
      (if log.length < bondFormat.cap then [.append b] else [])
      [.program (r.flashCfgIdx + 8).toNat b.device.bytes]
      { slaveMac := r.slaveMac.push (r.flashCfgIdx + 8).toNat b.device
        flashCfgIdx := r.flashCfgIdx + 8 }) := by
  have hmax : flashCustomPairingMaxSize = 4096 := rfl
  refine ⟨fun hf => ?_, fun hf => ?_⟩
  · rw [if_neg (h.cfgIdx_full.mp hf)]
    have hlen : log.length = bondFormat.cap := le_antisymm h.fits (not_lt.mp (h.cfgIdx_full.mp hf))
    exact ⟨rfl, trivial, h.fits, h.shows, .inr ⟨hlen, by simp only; omega⟩⟩
  · have hlt : log.length < bondFormat.cap := by
      by_contra hge; exact hf (h.cfgIdx_full.mpr hge)
    have hidx : r.flashCfgIdx + 8 = 8 * (log.length : Int) := by
      rcases h.cfgIdx with hc | ⟨-, hc⟩ <;> omega
    have hnat : (r.flashCfgIdx + 8).toNat = 8 * log.length := by omega
    rw [if_pos hlt, hnat, b.bytes_device]
    refine ⟨rfl, ⟨hlt, trivial⟩, ?_, ?_, .inl ?_⟩
    · simp only [applyEdits_cons, applyEdits_nil, Edit.apply, List.length_append,
        List.length_singleton]
      omega
    · simp only [applyEdits_cons, applyEdits_nil, Edit.apply, live_append_some]
      exact h.shows.push _ b hroom
    · simp only [applyEdits_cons, applyEdits_nil, Edit.apply, List.length_append,
        List.length_singleton]
      omega

/-- Edits made one list after another. -/
theorem Implements.append {log : List (Option Bond)} {es fs : List (Edit Bond)} {cs ds : List Cmd}
    {r r' : Ram} (h₁ : Implements log es cs r) (h₂ : Implements (applyEdits log es) fs ds r') :
    Implements log (es ++ fs) (cs ++ ds) r' := by
  obtain ⟨rfl, hf₁, -⟩ := h₁
  obtain ⟨rfl, hf₂, hr⟩ := h₂
  exact ⟨(cmds_append log es fs).symm, fitsAll_append.mpr ⟨hf₁, hf₂⟩, by rwa [applyEdits_append]⟩

theorem length_applyEdits_evict (log : List (Option Bond)) :
    (applyEdits log (evictEdits log)).length = log.length := by
  rw [evictEdits]
  split
  · exact length_applyEdits_strikes _ _
  · rfl

theorem add_spec {log : List (Option Bond)} {r : Ram} (h : Rep log r) (b : Bond) :
    Implements log (addEdits log b) (userTblSlaveMacAdd r b.adrType b.address).cmds
      (userTblSlaveMacAdd r b.adrType b.address).ram := by
  obtain ⟨hroom, hnum⟩ := makeRoom_spec h
  obtain ⟨hfull, happ⟩ := append_spec hroom.2.2 b hnum
  rw [length_applyEdits_evict, makeRoom_flashCfgIdx] at hfull happ
  by_cases hf : r.flashCfgIdx + 8 ≥ flashCustomPairingMaxSize
  · have := hroom.append (hfull hf)
    rw [List.append_nil] at this
    rw [add_of_full hf]
    exact this
  · rw [add_of_room hf]
    exact hroom.append (happ hf)

/-- **A call is its edits.**  It issues their flash commands, and the globals it leaves are in
step with the edited log. -/
theorem call_spec {log : List (Option Bond)} {r : Ram} (h : Rep log r) (c : Call) :
    Implements log (c.edits log) (c.run r).cmds (c.run r).ram := by
  cases c with
  | add adrType adr => exact add_spec h ⟨adrType, adr⟩
  | deleteByAdr adrType adr => exact deleteByAdr_spec h ⟨adrType, adr⟩
  | deleteAll => exact deleteAll_spec h

end TelinkB91.Pairing
