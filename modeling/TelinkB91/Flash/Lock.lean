import TelinkB91.Lib.WordBits

/-!
# Flash — the protection of the blocks

`flash_lock` and `flash_unlock` write the block protect bits of the status register through
`flash_write_status_mid156085`, which reads the register and replaces these bits alone, and try up
to three times, as the device may drop a write.  A `Chip` says which writes it takes.

* `Attempt.unlock`, `Attempt.lock`: one attempt writes the bits asked for and keeps the others.
* `tried_tries`: three attempts, of which one that is taken is the last.
* `tries_wanted`: the attempts go on until one is taken.
* `flash_lock_unlock`: locking and unlocking end with the bits asked for if one of their three
  writes is taken, and touch no other bit.
-/

namespace TelinkB91.Flash.Lock

abbrev U8 := BitVec 8

abbrev U16 := BitVec 16

abbrev U32 := BitVec 32

/-- `FLASH_WRITE_STATUS_BP_MID156085`. -/
def flashWriteStatusBp : U16 := 0x407c#16

/-- `FLASH_LOCK_NONE_MID156085`. -/
def flashLockNone : U16 := 0x0000#16

/-- `FLASH_WRITE_CONFIGURE_WPS_MID156085`. -/
def flashWriteConfigureWps : U8 := 0x04#8

/-- The status and the configuration register, and the writes so far: the value, and whether it was
taken. -/
structure Device where
  status : U16
  config : U8
  statusWrites : List (U16 × Bool)
  configWrites : List (U8 × Bool)

/-- Which writes the device takes, by how many came before. -/
structure Chip where
  takesStatus : Nat → Bool
  takesConfig : Nat → Bool

/-- A word from its two bytes. -/
def ofBytes (low high : U8) : U16 := low.setWidth 16 ||| high.setWidth 16 <<< 8

/-- `flash_read_status_mid156085`, which reads the two bytes apart. -/
def flashReadStatusMid156085 (d : Device) : U16 :=
  let statusLow : U8 := d.status.setWidth 8
  let statusHigh : U8 := (d.status >>> 8).setWidth 8
  ofBytes statusLow statusHigh

/-- `flash_write_status`, with `FLASH_TYPE_16BIT_STATUS_ONE_CMD`: two bytes in one command. -/
def flashWriteStatus (c : Chip) (d : Device) (data : U16) : Device :=
  let buf : U16 := ofBytes (data.setWidth 8) ((data >>> 8).setWidth 8)
  let taken := c.takesStatus d.statusWrites.length
  { d with
    status := if taken then buf else d.status
    statusWrites := d.statusWrites ++ [(buf, taken)] }

/-- `flash_write_config`. -/
def flashWriteConfig (c : Chip) (d : Device) (data : U8) : Device :=
  let taken := c.takesConfig d.configWrites.length
  { d with
    config := if taken then data else d.config
    configWrites := d.configWrites ++ [(data, taken)] }

/-- `flash_write_status_mid156085`. -/
def flashWriteStatusMid156085 (c : Chip) (d : Device) (data bit : U16) : Device :=
  flashWriteStatus c d (data ||| flashReadStatusMid156085 d &&& ~~~bit)

/-- `flash_write_config_mid156085`. -/
def flashWriteConfigMid156085 (c : Chip) (d : Device) (data bit : U8) : Device :=
  flashWriteConfig c d (data ||| d.config &&& ~~~bit)

/-- `flash_lock_mid156085`. -/
def flashLockMid156085 (c : Chip) (data : U16) (d : Device) : Device :=
  let d := flashWriteConfigMid156085 c d 0x00#8 flashWriteConfigureWps
  flashWriteStatusMid156085 c d data flashWriteStatusBp

/-- `flash_unlock_mid156085`. -/
def flashUnlockMid156085 (c : Chip) (d : Device) : Device :=
  let d := flashWriteConfigMid156085 c d 0x00#8 flashWriteConfigureWps
  flashWriteStatusMid156085 c d flashLockNone flashWriteStatusBp

/-- The functions that `flash_protection_init` chooses for the device, and `flash_unlock_status`. -/
structure FlashProt where
  flashLockMid : U32 → Device → Device
  flashUnlockMid : Device → Device
  flashReadStatusMid : Device → U16
  flashGetLockStatusMid : U16 → U16
  flashUnlockStatus : U16

/-- What it chooses for the device 0x156085.  `flash_get_lock_status_mid156085` is in a library. -/
def mid156085 (c : Chip) (flashGetLockStatusMid156085 : U16 → U16) : FlashProt where
  flashLockMid cmd := flashLockMid156085 c (cmd.setWidth 16)
  flashUnlockMid := flashUnlockMid156085 c
  flashReadStatusMid := flashReadStatusMid156085
  flashGetLockStatusMid := flashGetLockStatusMid156085
  flashUnlockStatus := flashLockNone

/-- `cur_lock_status`, read anew. -/
def FlashProt.curLockStatus (p : FlashProt) (d : Device) : U16 :=
  p.flashGetLockStatusMid (p.flashReadStatusMid d)

/-- The loop that repeats an operation until the lock status is the one wanted, `n` times at
most. -/
def FlashProt.tries (p : FlashProt) (op : Device → Device) (wanted : U16 → Bool) :
    Nat → Device → Device
  | 0, d => d
  | n + 1, d => if wanted (p.curLockStatus (op d)) then op d else p.tries op wanted n (op d)

/-- The loop that unlocks. -/
def FlashProt.unlockTries (p : FlashProt) (d : Device) : Device :=
  p.tries p.flashUnlockMid (fun s => s == p.flashUnlockStatus) 3 d

/-- The loop that locks. -/
def FlashProt.lockTries (p : FlashProt) (flashLockCmd : U32) (d : Device) : Device :=
  p.tries (p.flashLockMid flashLockCmd) (fun s => s.setWidth 32 == flashLockCmd) 3 d

/-- `flash_unlock`, which is also what `flash_lock` does before it locks. -/
def FlashProt.flashUnlock (p : FlashProt) (d : Device) : Device :=
  if p.curLockStatus d ≠ p.flashUnlockStatus then p.unlockTries d else d

/-- `flash_lock`. -/
def FlashProt.flashLock (p : FlashProt) (flashLockCmd : U32) (d : Device) : Device :=
  if (p.curLockStatus d).setWidth 32 = flashLockCmd then d
  else p.lockTries flashLockCmd (p.flashUnlock d)

/-! ### One attempt -/

section lock

variable {c : Chip} {getLockStatus : U16 → U16}

theorem ofBytes_bytes (x : U16) : ofBytes (x.setWidth 8) ((x >>> 8).setWidth 8) = x := by
  refine BitVec.eq_of_getLsbD_eq fun j hj => ?_
  rw [ofBytes]
  simp only [BitVec.getLsbD_or, BitVec.getLsbD_setWidth, BitVec.getLsbD_shiftLeft,
    BitVec.getLsbD_ushiftRight]
  by_cases hlow : j < 8
  · simp [hlow, hj]
  · have hback : 8 + (j - 8) = j := by omega
    have hhigh : j - 8 < 8 := by omega
    have hin : j - 8 < 16 := by omega
    simp [hlow, hj, hback, hhigh, hin]

/-- A write of the block protect bits `x`: the bits it puts in the register, and what it leaves. -/
structure Attempt (c : Chip) (x : U16) (d d' : Device) : Prop where
  statusWrites : d'.statusWrites = d.statusWrites ++
    [(x ||| d.status &&& ~~~flashWriteStatusBp, c.takesStatus d.statusWrites.length)]
  status : d'.status = if c.takesStatus d.statusWrites.length
    then x ||| d.status &&& ~~~flashWriteStatusBp else d.status

/-- **One attempt.** -/
theorem Attempt.lock (x : U16) (d : Device) : Attempt c x d (flashLockMid156085 c x d) := by
  have hread : ∀ e : Device, flashReadStatusMid156085 e = e.status := fun e =>
    ofBytes_bytes e.status
  rw [flashLockMid156085, flashWriteStatusMid156085, hread, flashWriteStatus, ofBytes_bytes]
  exact ⟨rfl, rfl⟩

theorem Attempt.unlock (d : Device) : Attempt c flashLockNone d (flashUnlockMid156085 c d) :=
  Attempt.lock flashLockNone d

/-! ### The loop -/

/-- The writes `new` are attempts for `x`, as far as the device `d'` after them shows. -/
structure Tried (x : U16) (n : Nat) (new : List (U16 × Bool)) (d d' : Device) : Prop where
  statusWrites : d'.statusWrites = d.statusWrites ++ new
  length_le : new.length ≤ n
  field : ∀ w ∈ new, w.1 &&& flashWriteStatusBp = x
  others : ∀ w ∈ new, w.1 &&& ~~~flashWriteStatusBp = d.status &&& ~~~flashWriteStatusBp
  kept : d'.status &&& ~~~flashWriteStatusBp = d.status &&& ~~~flashWriteStatusBp
  taken : (∃ w ∈ new, w.2 = true) → d'.status &&& flashWriteStatusBp = x

theorem Tried.refl (x : U16) (n : Nat) (d : Device) : Tried x n [] d d where
  statusWrites := (List.append_nil _).symm
  length_le := Nat.zero_le n
  field := List.forall_mem_nil _
  others := List.forall_mem_nil _
  kept := rfl
  taken h := absurd h (by simp)

variable {x : U16}

/-- **One attempt, as a run of one.** -/
theorem Attempt.tried (hx : x &&& ~~~flashWriteStatusBp = 0#16) {d d' : Device}
    (h : Attempt c x d d') :
    Tried x 1 [(x ||| d.status &&& ~~~flashWriteStatusBp, c.takesStatus d.statusWrites.length)]
      d d' where
  statusWrites := h.statusWrites
  length_le := le_rfl
  field w hw := List.mem_singleton.mp hw ▸ WordBits.insert_and hx d.status
  others w hw := List.mem_singleton.mp hw ▸ WordBits.insert_andNot hx d.status
  kept := by
    rw [h.status]
    split
    · exact WordBits.insert_andNot hx d.status
    · rfl
  taken := by
    rintro ⟨w, hw, htaken⟩
    rw [List.mem_singleton.mp hw] at htaken
    rw [h.status, if_pos htaken]
    exact WordBits.insert_and hx d.status

/-- A write that was dropped, and the attempts behind it. -/
theorem Attempt.tried_cons (hx : x &&& ~~~flashWriteStatusBp = 0#16) {d d' e : Device}
    (h : Attempt c x d d') (hdropped : c.takesStatus d.statusWrites.length = false) {n : Nat}
    {new : List (U16 × Bool)} (hnew : Tried x n new d' e) :
    Tried x (n + 1)
      ((x ||| d.status &&& ~~~flashWriteStatusBp, c.takesStatus d.statusWrites.length) :: new)
      d e := by
  have hfirst := h.tried hx
  refine ⟨?_, Nat.succ_le_succ hnew.length_le, ?_, ?_, hnew.kept.trans hfirst.kept, ?_⟩
  · rw [hnew.statusWrites, hfirst.statusWrites, List.append_assoc, List.singleton_append]
  · exact List.forall_mem_cons.mpr
      ⟨hfirst.field _ (List.mem_singleton.mpr rfl), hnew.field⟩
  · exact List.forall_mem_cons.mpr
      ⟨hfirst.others _ (List.mem_singleton.mpr rfl),
        fun w hw => (hnew.others w hw).trans hfirst.kept⟩
  · rintro ⟨w, hw, htaken⟩
    rcases List.mem_cons.mp hw with rfl | hw
    · exact absurd (hdropped.symm.trans htaken) Bool.false_ne_true
    · exact hnew.taken ⟨w, hw, htaken⟩

/-- **The attempts.**  One that is taken is the last. -/
theorem tried_tries {p : FlashProt} {op : Device → Device} {wanted : U16 → Bool}
    (hx : x &&& ~~~flashWriteStatusBp = 0#16) (hop : ∀ d, Attempt c x d (op d))
    (hwanted : ∀ d, wanted (p.curLockStatus d) = true ↔ d.status &&& flashWriteStatusBp = x)
    (n : Nat) (d : Device) : ∃ new, Tried x n new d (p.tries op wanted n d) := by
  induction n generalizing d with
  | zero => exact ⟨[], Tried.refl x 0 d⟩
  | succ n ih =>
      have hfirst := (hop d).tried hx
      rw [FlashProt.tries]
      by_cases hdone : wanted (p.curLockStatus (op d)) = true
      · rw [if_pos hdone]
        exact ⟨_, { hfirst with length_le := Nat.succ_le_succ n.zero_le }⟩
      · rw [if_neg hdone]
        have hdropped : c.takesStatus d.statusWrites.length = false := by
          by_contra htaken
          refine hdone ((hwanted _).mpr (hfirst.taken ⟨_, List.mem_singleton.mpr rfl, ?_⟩))
          exact Bool.not_eq_false _ |>.mp htaken
        obtain ⟨new, hnew⟩ := ih (op d)
        exact ⟨_, (hop d).tried_cons hx hdropped hnew⟩

/-- **The attempts go on.**  If one of those there are does what is wanted, then the loop does. -/
theorem FlashProt.tries_wanted {p : FlashProt} {op : Device → Device} {wanted : U16 → Bool}
    (succeeds : Device → Prop) (hop : ∀ d, succeeds d → wanted (p.curLockStatus (op d)) = true)
    (n : Nat) (d : Device) (hone : ∃ i < n, succeeds (op^[i] d)) :
    wanted (p.curLockStatus (p.tries op wanted n d)) = true := by
  induction n generalizing d with
  | zero =>
      obtain ⟨i, hi, -⟩ := hone
      exact absurd hi i.not_lt_zero
  | succ n ih =>
      rw [FlashProt.tries]
      by_cases hdone : wanted (p.curLockStatus (op d)) = true
      · rwa [if_pos hdone]
      · rw [if_neg hdone]
        obtain ⟨i, hi, hsucceeds⟩ := hone
        cases i with
        | zero => exact absurd (hop d hsucceeds) hdone
        | succ i => exact ih (op d) ⟨i, Nat.lt_of_succ_lt_succ hi, hsucceeds⟩

/-- Attempts of `k` commands each. -/
theorem length_iterate {op : Device → Device} {k : Nat}
    (hop : ∀ d, (op d).statusWrites.length = d.statusWrites.length + k) (i : Nat) (d : Device) :
    (op^[i] d).statusWrites.length = d.statusWrites.length + k * i := by
  induction i generalizing d with
  | zero => rfl
  | succ i ih =>
      rw [Function.iterate_succ_apply, ih, hop, Nat.mul_succ]
      omega

/-- **The three attempts**: the bits asked for, if one of three writes is taken. -/
theorem field_tries {p : FlashProt} {op : Device → Device} {wanted : U16 → Bool}
    (hx : x &&& ~~~flashWriteStatusBp = 0#16) (hop : ∀ d, Attempt c x d (op d))
    (hwanted : ∀ d, wanted (p.curLockStatus d) = true ↔ d.status &&& flashWriteStatusBp = x)
    {n : Nat} {d : Device} (hone : ∃ i < n, c.takesStatus (d.statusWrites.length + i) = true) :
    (p.tries op wanted n d).status &&& flashWriteStatusBp = x := by
  have hcount : ∀ e, (op e).statusWrites.length = e.statusWrites.length + 1 := fun e => by
    rw [(hop e).statusWrites, List.length_append, List.length_singleton]
  obtain ⟨i, hi, htaken⟩ := hone
  refine (hwanted _).mp (FlashProt.tries_wanted
    (fun e => c.takesStatus e.statusWrites.length = true) (fun e he => ?_) n d ⟨i, hi, ?_⟩)
  · exact (hwanted _).mpr (((hop e).tried hx).taken ⟨_, List.mem_singleton.mpr rfl, he⟩)
  · rw [length_iterate hcount, Nat.one_mul]
    exact htaken

/-! ### The two loops -/

theorem curLockStatus_eq (hget : ∀ s, getLockStatus s = s &&& flashWriteStatusBp) (d : Device) :
    (mid156085 c getLockStatus).curLockStatus d = d.status &&& flashWriteStatusBp := by
  have hread : flashReadStatusMid156085 d = d.status := ofBytes_bytes d.status
  rw [FlashProt.curLockStatus, mid156085]
  dsimp only
  rw [hread, hget]

theorem tried_unlockTries (hget : ∀ s, getLockStatus s = s &&& flashWriteStatusBp) (d : Device) :
    ∃ new, Tried flashLockNone 3 new d ((mid156085 c getLockStatus).unlockTries d) := by
  refine tried_tries (BitVec.zero_and) Attempt.unlock (fun e => ?_) 3 d
  rw [curLockStatus_eq hget, beq_iff_eq]
  rfl

/-- **Unlocking a device that is locked**, if one of three writes is taken. -/
theorem field_flashUnlock (hget : ∀ s, getLockStatus s = s &&& flashWriteStatusBp) {d : Device}
    (hlocked : (mid156085 c getLockStatus).curLockStatus d ≠ flashLockNone)
    (hone : ∃ i < 3, c.takesStatus (d.statusWrites.length + i) = true) :
    ((mid156085 c getLockStatus).flashUnlock d).status &&& flashWriteStatusBp = flashLockNone := by
  rw [FlashProt.flashUnlock]
  refine (if_pos hlocked).symm ▸ field_tries BitVec.zero_and Attempt.unlock (fun e => ?_) hone
  rw [curLockStatus_eq hget, beq_iff_eq]
  rfl

/-- **Unlocking**, where it is needed. -/
theorem tried_flashUnlock (hget : ∀ s, getLockStatus s = s &&& flashWriteStatusBp) (d : Device) :
    ∃ new, Tried flashLockNone 3 new d ((mid156085 c getLockStatus).flashUnlock d) := by
  rw [FlashProt.flashUnlock]
  split
  · exact tried_unlockTries hget d
  · exact ⟨[], Tried.refl flashLockNone 3 d⟩

/-- A value inside the mask is the same with 16 bits. -/
theorem setWidth_eq_iff {cmd : U32} (hcmd : cmd &&& ~~~flashWriteStatusBp.setWidth 32 = 0#32)
    (s : U16) : s.setWidth 32 = cmd ↔ s = cmd.setWidth 16 := by
  have hle : cmd.toNat < 2 ^ 16 := by
    have hmask : cmd &&& flashWriteStatusBp.setWidth 32 = cmd := by
      have hsplit := WordBits.insert_and hcmd 0#32
      rwa [BitVec.zero_and, BitVec.or_zero] at hsplit
    rw [← hmask, BitVec.toNat_and]
    exact Nat.and_le_right.trans_lt (by decide)
  rw [← BitVec.toNat_inj, ← BitVec.toNat_inj, BitVec.toNat_setWidth, BitVec.toNat_setWidth,
    Nat.mod_eq_of_lt hle, Nat.mod_eq_of_lt (s.isLt.trans (by decide))]

theorem field_setWidth {cmd : U32} (hcmd : cmd &&& ~~~flashWriteStatusBp.setWidth 32 = 0#32) :
    cmd.setWidth 16 &&& ~~~flashWriteStatusBp = 0#16 := by
  have hlow := congrArg (BitVec.setWidth 16) hcmd
  rw [BitVec.setWidth_and] at hlow
  exact hlow

theorem tried_lockTries (hget : ∀ s, getLockStatus s = s &&& flashWriteStatusBp) {cmd : U32}
    (hcmd : cmd &&& ~~~flashWriteStatusBp.setWidth 32 = 0#32) (d : Device) :
    ∃ new, Tried (cmd.setWidth 16) 3 new d ((mid156085 c getLockStatus).lockTries cmd d) := by
  refine tried_tries (field_setWidth hcmd) (fun e => Attempt.lock _ e) (fun e => ?_) 3 d
  rw [curLockStatus_eq hget, beq_iff_eq]
  exact setWidth_eq_iff hcmd _

/-- **The loop that locks**, if one of three writes is taken. -/
theorem field_lockTries (hget : ∀ s, getLockStatus s = s &&& flashWriteStatusBp) {cmd : U32}
    (hcmd : cmd &&& ~~~flashWriteStatusBp.setWidth 32 = 0#32) {d : Device}
    (hone : ∃ i < 3, c.takesStatus (d.statusWrites.length + i) = true) :
    ((mid156085 c getLockStatus).lockTries cmd d).status &&& flashWriteStatusBp =
      cmd.setWidth 16 := by
  refine field_tries (field_setWidth hcmd) (fun e => Attempt.lock _ e) (fun e => ?_) hone
  rw [curLockStatus_eq hget, beq_iff_eq]
  exact setWidth_eq_iff hcmd _

end lock

/-- The bits outside the mask stay: in every value written, taken or not, and in the register. -/
def Framed (d d' : Device) : Prop :=
  ∃ new, d'.statusWrites = d.statusWrites ++ new ∧
    (∀ w ∈ new, w.1 &&& ~~~flashWriteStatusBp = d.status &&& ~~~flashWriteStatusBp) ∧
    d'.status &&& ~~~flashWriteStatusBp = d.status &&& ~~~flashWriteStatusBp

theorem Tried.framed {x : U16} {n : Nat} {new : List (U16 × Bool)} {d d' : Device}
    (h : Tried x n new d d') : Framed d d' := ⟨new, h.statusWrites, h.others, h.kept⟩

theorem Framed.trans {d d' d'' : Device} (h : Framed d d') (h' : Framed d' d'') : Framed d d'' := by
  obtain ⟨new, hwrites, hothers, hkept⟩ := h
  obtain ⟨new', hwrites', hothers', hkept'⟩ := h'
  refine ⟨new ++ new', ?_, fun w hw => ?_, hkept'.trans hkept⟩
  · rw [hwrites', hwrites, List.append_assoc]
  · rcases List.mem_append.mp hw with hw | hw
    · exact hothers w hw
    · exact (hothers' w hw).trans hkept

theorem Framed.refl (d : Device) : Framed d d := (Tried.refl flashLockNone 0 d).framed

/-- **Locking and unlocking.**  The bits outside the mask stay.  Where the lock status is the one
asked for nothing is written; otherwise up to three writes, all with the bits asked for, follow the
unlocking, and one that is taken leaves them in the register: if the device takes one of the next
three writes, the lock status is the one asked for.  Unlocking does nothing to a device that is
unlocked; else it takes up to three writes, one that is taken leaves the device unlocked, and if the
device takes one of the next three, it is unlocked. -/
theorem flash_lock_unlock (c : Chip) (getLockStatus : U16 → U16)
    (hget : ∀ s, getLockStatus s = s &&& flashWriteStatusBp) (cmd : U32)
    (hcmd : cmd &&& ~~~flashWriteStatusBp.setWidth 32 = 0#32) (d : Device) (p : FlashProt)
    (hp : p = mid156085 c getLockStatus) :
    (Framed d (p.flashLock cmd d) ∧
      ((p.curLockStatus d).setWidth 32 = cmd →
        (p.flashLock cmd d).statusWrites = d.statusWrites) ∧
      ((p.curLockStatus d).setWidth 32 ≠ cmd →
        (∃ locks, (p.flashLock cmd d).statusWrites = (p.flashUnlock d).statusWrites ++ locks ∧
          locks.length ≤ 3 ∧ (∀ w ∈ locks, (w.1 &&& flashWriteStatusBp).setWidth 32 = cmd) ∧
          ((∃ w ∈ locks, w.2 = true) →
            (p.curLockStatus (p.flashLock cmd d)).setWidth 32 = cmd)) ∧
        ((∃ i < 3, c.takesStatus ((p.flashUnlock d).statusWrites.length + i) = true) →
          (p.curLockStatus (p.flashLock cmd d)).setWidth 32 = cmd))) ∧
    Framed d (p.flashUnlock d) ∧
      (p.curLockStatus d = p.flashUnlockStatus → p.flashUnlock d = d) ∧
      (p.curLockStatus d ≠ p.flashUnlockStatus →
        (∃ i < 3, c.takesStatus (d.statusWrites.length + i) = true) →
          p.curLockStatus (p.flashUnlock d) = p.flashUnlockStatus) ∧
      ∃ unlocks, (p.flashUnlock d).statusWrites = d.statusWrites ++ unlocks ∧
        unlocks.length ≤ 3 ∧
        ((∃ w ∈ unlocks, w.2 = true) →
          p.curLockStatus (p.flashUnlock d) = p.flashUnlockStatus) := by
  subst hp
  obtain ⟨unlocks, hunlocks⟩ := tried_flashUnlock (c := c) hget d
  obtain ⟨locks, hlocks⟩ := tried_lockTries (c := c) hget hcmd
    ((mid156085 c getLockStatus).flashUnlock d)
  refine ⟨⟨?_, fun heq => ?_, fun hne => ⟨?_, fun hone => ?_⟩⟩, hunlocks.framed, fun hopen => ?_,
    fun hlocked hone => ?_, unlocks, hunlocks.statusWrites, hunlocks.length_le, fun htaken => ?_⟩
  · rw [FlashProt.flashLock]
    split
    · exact Framed.refl d
    · exact hunlocks.framed.trans hlocks.framed
  · rw [FlashProt.flashLock, if_pos heq]
  · rw [FlashProt.flashLock, if_neg hne]
    refine ⟨locks, hlocks.statusWrites, hlocks.length_le, fun w hw => ?_, fun htaken => ?_⟩
    · exact (setWidth_eq_iff hcmd _).mpr (hlocks.field w hw)
    · rw [curLockStatus_eq hget]
      exact (setWidth_eq_iff hcmd _).mpr (hlocks.taken htaken)
  · rw [FlashProt.flashLock, if_neg hne, curLockStatus_eq hget]
    exact (setWidth_eq_iff hcmd _).mpr (field_lockTries hget hcmd hone)
  · rw [FlashProt.flashUnlock, if_neg (not_not.mpr hopen)]
  · rw [curLockStatus_eq hget]
    exact field_flashUnlock hget hlocked hone
  · rw [curLockStatus_eq hget]
    exact hunlocks.taken htaken

/-- A chip that drops every other write, from the first one on. -/
def dropsFirst : Chip := ⟨fun n => n % 2 = 1, fun _ => true⟩

/-- A device that is locked up to 64 KiB, with bits of its own. -/
def lockedLow64k : Device := ⟨0x0224#16, 0x00#8, [], []⟩

/-- `FLASH_LOCK_LOW_1M_MID156085`: the second write unlocks, and the fourth locks. -/
theorem flash_lock_low_1m :
    Framed lockedLow64k
        ((mid156085 dropsFirst (· &&& flashWriteStatusBp)).flashLock 0x0034#32 lockedLow64k) ∧
      (mid156085 dropsFirst (· &&& flashWriteStatusBp)).curLockStatus
        ((mid156085 dropsFirst (· &&& flashWriteStatusBp)).flashUnlock lockedLow64k) = 0x0000#16 ∧
      ((mid156085 dropsFirst (· &&& flashWriteStatusBp)).curLockStatus
        ((mid156085 dropsFirst (· &&& flashWriteStatusBp)).flashLock 0x0034#32
          lockedLow64k)).setWidth 32 = 0x0034#32 ∧
      ((mid156085 dropsFirst (· &&& flashWriteStatusBp)).flashLock 0x0034#32 lockedLow64k).status =
        0x0234#16 := by
  have hlock := flash_lock_unlock dropsFirst (· &&& flashWriteStatusBp) (fun _ => rfl) 0x0034#32
    (by decide) lockedLow64k _ rfl
  exact ⟨hlock.1.1, hlock.2.2.2.1 (by decide) ⟨1, by decide⟩,
    (hlock.1.2.2 (by decide)).2 ⟨1, by decide⟩, by decide⟩

end TelinkB91.Flash.Lock
