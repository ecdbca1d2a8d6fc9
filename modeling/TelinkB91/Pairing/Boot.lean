import TelinkB91.Lib.Runs
import TelinkB91.Pairing.Log

/-!
# Pairing — the boot scan, the compaction, and the machine's invariant

`scan_spec` follows the loop of `user_master_host_pairing_flash_init` over the slots of a log,
`clean_spec` the rewrite loop of `user_bond_slave_flash_clean`; together (`init_spec`) a boot
rebuilds the table of the log the sector holds.  `Sound` is the invariant of the device under
calls, reboots and resets: whatever happens, the sector holds a log of at most four live bonds,
and a running device's globals are in step with it (`soundWith_step`).
-/

namespace TelinkB91.Pairing
open NorFlash LiveArray SlotLog Runs

/-! ### The boot scan -/

/-- **The boot scan.**  From slot `p` of a log the scan appends the live slots of the rest to the
table and ends at the first free slot; with at most four live bonds it meets no trap. -/
theorem scan_spec {m : Mem} {log : List (Option Bond)} (h : Holds bondFormat m log) :
    ∀ (l : List (Option Bond)) (p : Nat) (t : UserSalveMac) (es : List (Nat × Bond)),
      log.drop p = l → p ≤ log.length → Shows t es →
      (es ++ liveFrom p l).length ≤ userPairSlaveMaxNum →
      ∃ t', scanSlots m (bondFormat.cap - p) t = some (8 * log.length, t') ∧
        Shows t' (es ++ liveFrom p l) := by
  have hcap : bondFormat.cap = 512 := rfl
  have hfits := h.fits
  intro l
  induction l with
  | nil =>
      intro p t es hl hp ht _
      obtain rfl : p = log.length := le_antisymm hp (List.drop_eq_nil_iff.mp hl)
      refine ⟨t, ?_, by simpa [liveFrom] using ht⟩
      rcases Nat.lt_or_ge log.length bondFormat.cap with hlt | hge
      · obtain ⟨n, hn⟩ : ∃ n, bondFormat.cap - log.length = n + 1 :=
          ⟨bondFormat.cap - log.length - 1, by omega⟩
        have hx : 4096 - 8 * (n + 1) = 8 * log.length := by omega
        have hb : m (8 * log.length) = 0xFF#8 := h.mark_blank hlt width_pos
        rw [hn, scanSlots]
        simp only [hx, hb]
        rfl
      · have hlen : log.length = 512 := by omega
        rw [hcap, hlen]
        rfl
  | cons o l ih =>
      intro p t es hl hp ht hle
      have hpo : log[p]? = some o := by
        rw [← Nat.add_zero p, ← List.getElem?_drop, hl]; rfl
      have hlt : p < log.length := (List.getElem?_eq_some_iff.mp hpo).1
      have hl' : log.drop (p + 1) = l := by
        rw [← List.drop_drop, hl]; rfl
      have hn : bondFormat.cap - p = (bondFormat.cap - (p + 1)) + 1 := by omega
      have hx : 4096 - 8 * (bondFormat.cap - (p + 1) + 1) = 8 * p := by omega
      rw [hn, scanSlots]
      simp only [hx]
      cases o with
      | none =>
          have hf : m (8 * p) = 0#8 := h.slot_struck p hpo
          rw [hf, if_neg (by decide), if_neg (by decide)]
          exact ih (p + 1) t es hl' hlt ht hle
      | some b =>
          have hf : m (8 * p) = adrBondMark := h.mark_live hpo
          have hroom : t.curNum < userPairSlaveMaxNum := by
            rw [ht.curNum_eq]
            simp only [liveFrom, List.length_append, List.length_cons] at hle
            omega
          have hload : MacAddr.load m (8 * p) = b.device := load_of_read (h.slot_live p b hpo)
          rw [if_pos hf, if_pos hroom, hload]
          have happ : es ++ liveFrom p (some b :: l) = (es ++ [(p, b)]) ++ liveFrom (p + 1) l := by
            simp [liveFrom]
          rw [happ] at hle ⊢
          exact ih (p + 1) _ _ hl' hlt (ht.push p b hroom) hle

/-! ### The compaction -/

/-- The log the compaction leaves. -/
theorem applyEdits_compact (log : List (Option Bond)) (as : List (Nat × Bond)) :
    applyEdits log (.wipe :: as.map fun e => .append e.2) = as.map fun e => some e.2 := by
  have := applyEdits_appends ([] : List (Option Bond)) (as.map Prod.snd)
  simpa [Edit.apply, Function.comp_def] using this

/-- The rewrite loop after `k` rounds: the first `k` bonds are on flash again, in slots
`0 … k - 1`, and the table's first `k` offsets point there. -/
theorem rewrite_rounds {log : List (Option Bond)} {r : Ram} (h : Rep log r) {k : Nat}
    (hk : k ≤ r.slaveMac.curNum) :
    ∃ idx : Vector Nat userPairSlaveMaxNum,
      (List.range k).foldl rewriteRound
          ([.erase 0 flashCustomPairingMaxSize], { r with flashCfgIdx := -8 }) =
        (cmds bondFormat log (.wipe :: ((SlotLog.live log).take k).map fun e => .append e.2),
          { slaveMac := { r.slaveMac with bondFlashIdx := idx }
            flashCfgIdx := 8 * (k : Int) - 8 }) ∧
      LiveArray.live idx k = (List.range k).map (8 * ·) := by
  induction k with
  | zero => exact ⟨r.slaveMac.bondFlashIdx, rfl, rfl⟩
  | succ k ih =>
      obtain ⟨idx, hs, hi⟩ := ih (by omega)
      have hklt : k < (SlotLog.live log).length := h.shows.curNum_eq ▸ hk
      have hcfg : (8 * (k : Int) - 8 + 8).toNat = 8 * k := by omega
      have hdev := h.shows.deviceAt (List.getElem?_eq_getElem hklt)
      refine ⟨store idx k (8 * k), ?_, ?_⟩
      · rw [List.range_succ, List.foldl_append, hs, List.foldl_cons, List.foldl_nil, rewriteRound,
          List.take_add_one, List.getElem?_eq_getElem hklt]
        simp only [hcfg, Option.toList_some, List.map_append, List.map_cons, List.map_nil]
        rw [← List.cons_append, cmds_append, applyEdits_compact]
        congr 1
        · have hlen : (((SlotLog.live log).take k).map fun e => some e.2).length = k := by
            simp; omega
          simp only [cmds, Edit.cmd, hlen]
          exact congrArg (fun d : MacAddr => _ ++ [Cmd.program (8 * k) d.bytes]) hdev
        · congr 1
          push_cast
          omega
      · have := h.shows.le
        rw [live_store _ (by omega), hi, List.range_succ, List.map_append]
        rfl

/-- **The compaction is its edits.** -/
theorem clean_spec {log : List (Option Bond)} {r : Ram} (h : Rep log r)
    (hidx : r.flashCfgIdx = 8 * (log.length : Int) - 8) :
    Implements log (compactEdits log) (userBondSlaveFlashClean r).1
      (userBondSlaveFlashClean r).2 := by
  have hcap : bondFormat.cap = 512 := rfl
  have hmax : flashCustomPairingMaxSize = 4096 := rfl
  rw [compactEdits, userBondSlaveFlashClean]
  by_cases hlen : log.length ≤ bondFormat.cap / 2
  · rw [if_pos hlen, if_pos (by omega)]
    exact ⟨rfl, trivial, h⟩
  · obtain ⟨idx, hs, hi⟩ := rewrite_rounds h le_rfl
    rw [h.shows.curNum_eq, List.take_length, ← h.shows.curNum_eq] at hs
    rw [if_neg hlen, if_neg (by omega), hs]
    have hN : userPairSlaveMaxNum = 4 := rfl
    have hle := h.shows.le
    have hnum := h.shows.curNum_eq
    have hlog : applyEdits log (.wipe :: (SlotLog.live log).map fun e => .append e.2) =
        ((SlotLog.live log).map Prod.snd).map some := by
      rw [applyEdits_compact, List.map_map]; rfl
    obtain ⟨hfst, hsnd⟩ := live_map_some ((SlotLog.live log).map Prod.snd)
    rw [← hlog] at hfst hsnd
    have hfit : FitsAll bondFormat [] ((SlotLog.live log).map fun e => .append e.2) := by
      have : FitsAll bondFormat [] (((SlotLog.live log).map Prod.snd).map .append) :=
        fitsAll_appends bondFormat (by simp; omega)
      rwa [List.map_map] at this
    refine ⟨rfl, ⟨trivial, hfit⟩, ?_, ⟨?_, ?_, hle⟩, .inl ?_⟩
    · rw [hlog]; simp; omega
    · have := congrArg (List.map (8 * ·)) hfst
      rw [List.map_map, List.length_map, ← hnum, ← hi] at this
      exact this.symm
    · have := congrArg (List.map Bond.device) hsnd
      rw [List.map_map, List.map_map] at this
      exact h.shows.device.trans this.symm
    · rw [hlog]; simp [hnum]

/-! ### The boot -/

/-- **The boot.**  On a sector that holds a log of at most four live bonds the initialisation
rebuilds the table and runs the compaction's edits. -/
theorem init_spec {m : Mem} {log : List (Option Bond)} (h : Holds bondFormat m log)
    (hle : (SlotLog.live log).length ≤ userPairSlaveMaxNum) :
    ∃ cs r, userMasterHostPairingFlashInit m .zero = some (cs, r) ∧
      Implements log (compactEdits log) cs r := by
  obtain ⟨t, hs, ht⟩ := scan_spec h log 0 .zero [] rfl (Nat.zero_le _) shows_zero hle
  have hrep : Rep log { slaveMac := t, flashCfgIdx := ((8 * log.length : Nat) : Int) - 8 } :=
    ⟨h.fits, ht, .inl (by push_cast; rfl)⟩
  have hclean := clean_spec hrep (by push_cast; rfl)
  refine ⟨_, _, ?_, hclean⟩
  have hcap : bondFormat.cap - 0 = 512 := rfl
  rw [hcap] at hs
  rw [userMasterHostPairingFlashInit, Ram.zero, hs]
  rfl

/-! ### Live bonds during an operation -/

/-- After any number of an operation's edits at most four bonds are live. -/
def StaysSmall (log : List (Option Bond)) (es : List (Edit Bond)) : Prop :=
  ∀ k, (SlotLog.live (applyEdits log (es.take k))).length ≤ userPairSlaveMaxNum

variable {log : List (Option Bond)}

theorem staysSmall_strikes (hle : (SlotLog.live log).length ≤ userPairSlaveMaxNum) :
    StaysSmall log (deleteAllEdits log) := fun k => by
  rw [deleteAllEdits, ← List.map_take, live_strikes, List.length_drop]
  omega

theorem staysSmall_delete (hle : (SlotLog.live log).length ≤ userPairSlaveMaxNum) (b : Bond) :
    StaysSmall log (deleteEdits log b) := fun k => by
  cases hf : (SlotLog.live log).findIdx? fun e => e.2 = b with
  | none =>
      rw [deleteEdits, hf]
      simpa using hle
  | some j =>
      obtain ⟨hj, -⟩ := List.findIdx?_eq_some_iff_getElem.mp hf
      rw [deleteEdits_found hj hf]
      cases k with
      | zero => simpa using hle
      | succ k =>
          have hs : SlotLog.live (log.set (SlotLog.live log)[j].1 none) =
              (SlotLog.live log).eraseIdx j := live_strike (List.getElem?_eq_getElem hj)
          simp only [List.take_succ_cons, List.take_nil, applyEdits_cons, applyEdits_nil,
            Edit.apply]
          rw [hs, List.length_eraseIdx]
          split <;> omega

theorem length_live_evict (hle : (SlotLog.live log).length ≤ userPairSlaveMaxNum) :
    (SlotLog.live (applyEdits log (evictEdits log))).length < userPairSlaveMaxNum := by
  have hN : userPairSlaveMaxNum = 4 := rfl
  rw [evictEdits]
  split
  · rw [live_strikes, List.length_drop]; omega
  · simp only [applyEdits_nil]; omega

theorem staysSmall_add (hle : (SlotLog.live log).length ≤ userPairSlaveMaxNum) (b : Bond) :
    StaysSmall log (addEdits log b) := fun k => by
  have hev := length_live_evict hle
  rw [addEdits, List.take_append, applyEdits_append]
  rcases Nat.lt_or_ge k (evictEdits log).length with hk | hk
  · rw [Nat.sub_eq_zero_of_le hk.le, List.take_zero, applyEdits_nil]
    have h₀ : k = 0 := by
      have : (evictEdits log).length ≤ 1 := by rw [evictEdits]; split <;> simp
      omega
    subst h₀
    simpa using hle
  · rw [List.take_of_length_le hk]
    split
    · cases k - (evictEdits log).length with
      | zero => simpa using hev.le
      | succ n =>
          simp only [List.take_succ_cons, List.take_nil, applyEdits_cons, applyEdits_nil,
            Edit.apply, live_append_some, List.length_append, List.length_singleton]
          omega
    · simpa using hev.le

theorem staysSmall_call (hle : (SlotLog.live log).length ≤ userPairSlaveMaxNum) (c : Call) :
    StaysSmall log (c.edits log) := by
  cases c with
  | add adrType adr => exact staysSmall_add hle _
  | deleteByAdr adrType adr => exact staysSmall_delete hle _
  | deleteAll => exact staysSmall_strikes hle

/-- The live bonds after a prefix of the compaction: all of them before the erase, then the first
ones in order, one for each slot written again. -/
theorem bonds_compact_take (hlen : ¬ log.length ≤ bondFormat.cap / 2) (k : Nat) :
    (SlotLog.live (applyEdits log ((compactEdits log).take k))).map Prod.snd =
      if k = 0 then (SlotLog.live log).map Prod.snd
      else ((SlotLog.live log).map Prod.snd).take (k - 1) := by
  rw [compactEdits, if_neg hlen]
  cases k with
  | zero => rfl
  | succ k =>
      rw [List.take_succ_cons, ← List.map_take, applyEdits_compact, if_neg (by omega),
        Nat.add_sub_cancel, ← List.map_take]
      have := (live_map_some (((SlotLog.live log).take k).map Prod.snd)).2
      rwa [List.map_map] at this

theorem staysSmall_compact (hle : (SlotLog.live log).length ≤ userPairSlaveMaxNum) :
    StaysSmall log (compactEdits log) := fun k => by
  by_cases hlen : log.length ≤ bondFormat.cap / 2
  · rw [compactEdits, if_pos hlen]; simpa using hle
  · have := congrArg List.length (bonds_compact_take hlen k)
    rw [List.length_map] at this
    rw [this]
    split
    · rwa [List.length_map]
    · rw [List.length_take, List.length_map]; omega

/-! ### The machine's invariant -/

/-- The device is not trapped; its sector holds a log of at most four live bonds, and a running
device's globals are in step with the log. -/
def Sound (s : Power) : Prop :=
  ∃ log, Holds bondFormat s.flash log ∧ (SlotLog.live log).length ≤ userPairSlaveMaxNum ∧
    match s with
    | .on d => Rep log d.ram
    | .off _ => True
    | .trapped _ => False

/-- The same, for a log that satisfies `P` as well. -/
def SoundWith (P : List (Option Bond) → Prop) (s : Power) : Prop :=
  ∃ log, Holds bondFormat s.flash log ∧ (SlotLog.live log).length ≤ userPairSlaveMaxNum ∧ P log ∧
    match s with
    | .on d => Rep log d.ram
    | .off _ => True
    | .trapped _ => False

/-- The edits of an action: of the call, or of the compaction at boot. -/
def Action.edits (log : List (Option Bond)) : Action → List (Edit Bond)
  | .call c => c.edits log
  | .reboot => compactEdits log

def Event.action : Event → Action
  | .done a => a
  | .cut a _ => a

/-- The edits of the action keep `P`, wherever they are cut. -/
def Action.Keeps (a : Action) (P : List (Option Bond) → Prop) : Prop :=
  ∀ log, P log → ∀ k, P (applyEdits log ((a.edits log).take k))

section soundWith

variable {P : List (Option Bond) → Prop}

theorem sound_iff (s : Power) : Sound s ↔ SoundWith (fun _ => True) s :=
  exists_congr fun _ => and_congr_right fun _ => and_congr_right fun _ => (true_and _).symm.to_iff

/-- Edits that an operation implements, cut after `k` commands. -/
theorem sound_cut {m : Mem} {es : List (Edit Bond)} {cs : List Cmd} {r : Ram}
    (h : Holds bondFormat m log) (hes : Implements log es cs r) (hsmall : StaysSmall log es)
    (hP : ∀ k, P (applyEdits log (es.take k))) (k : Nat) :
    SoundWith P (.off (applyAll m (cs.take k))) := by
  obtain ⟨rfl, hfit, -⟩ := hes
  exact ⟨_, h.edits_take width_pos hfit k, hsmall k, hP k, trivial⟩

/-- Edits that an operation implements, run to the end. -/
theorem sound_done {m : Mem} {es : List (Edit Bond)} {cs : List Cmd} {r : Ram}
    (h : Holds bondFormat m log) (hes : Implements log es cs r) (hsmall : StaysSmall log es)
    (hP : ∀ k, P (applyEdits log (es.take k))) : SoundWith P (.on ⟨applyAll m cs, r⟩) := by
  obtain ⟨rfl, hfit, hrep⟩ := hes
  have hlen := hsmall es.length
  have hall := hP es.length
  rw [List.take_length] at hlen hall
  exact ⟨_, h.edits width_pos hfit, hlen, hall, hrep⟩

theorem sound_boot {m : Mem} (h : Holds bondFormat m log)
    (hle : (SlotLog.live log).length ≤ userPairSlaveMaxNum)
    (hP : ∀ k, P (applyEdits log ((compactEdits log).take k))) : SoundWith P (boot m) := by
  obtain ⟨cs, r, hi, himp⟩ := init_spec h hle
  rw [boot, hi]
  exact sound_done h himp (staysSmall_compact hle) hP

theorem sound_bootCut {m : Mem} (h : Holds bondFormat m log)
    (hle : (SlotLog.live log).length ≤ userPairSlaveMaxNum)
    (hP : ∀ k, P (applyEdits log ((compactEdits log).take k))) (k : Nat) :
    SoundWith P (bootCut m k) := by
  obtain ⟨cs, r, hi, himp⟩ := init_spec h hle
  rw [bootCut, hi]
  exact sound_cut h himp (staysSmall_compact hle) hP k

/-- **One event keeps the invariant**: a call or a boot, completed or cut anywhere.  What its edits
keep of the log is kept as well. -/
theorem soundWith_step (s : Power) (e : Event) (h : SoundWith P s) (hkeeps : e.action.Keeps P) :
    SoundWith P (s.step e) := by
  obtain ⟨log, hm, hle, hP, hs⟩ := h
  have hedits := hkeeps log hP
  cases s with
  | trapped m => exact hs.elim
  | off m =>
      cases e with
      | done a =>
          cases a with
          | call c => exact ⟨log, hm, hle, hP, trivial⟩
          | reboot => exact sound_boot hm hle hedits
      | cut a k =>
          cases a with
          | call c => exact ⟨log, hm, hle, hP, trivial⟩
          | reboot => exact sound_bootCut hm hle hedits k
  | on d =>
      cases e with
      | done a =>
          cases a with
          | call c => exact sound_done hm (call_spec hs c) (staysSmall_call hle c) hedits
          | reboot => exact sound_boot hm hle hedits
      | cut a k =>
          cases a with
          | call c => exact sound_cut hm (call_spec hs c) (staysSmall_call hle c) hedits k
          | reboot => exact sound_bootCut hm hle hedits k

end soundWith

theorem sound_firstBoot : Sound firstBoot :=
  (sound_iff _).mpr (sound_boot (holds_nil fun _ _ => rfl) (Nat.zero_le _) fun _ => trivial)

theorem sound_step (s : Power) (e : Event) (h : Sound s) : Sound (s.step e) :=
  (sound_iff _).mpr (soundWith_step s e ((sound_iff s).mp h) fun _ _ _ => trivial)

/-- The invariant holds after every history. -/
theorem sound_run (es : List Event) : Sound (runFrom Power.step firstBoot es) :=
  invariant sound_step sound_firstBoot es

end TelinkB91.Pairing
