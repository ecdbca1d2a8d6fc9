import TelinkB91.Keyboard.Matrix
import TelinkB91.Lib.DropOldest

/-!
# Keyboard — `matrix_buff` is a queue of four

The ring has four entries and its two pointers run modulo eight, so that an empty ring and a full
one differ.  A push that would leave the reader more than four entries behind moves the reader.

* `Kb.pushMatrix_unread`, `Kb.readOut_unread`: the two operations, on the list of matrices not yet
  read.
* `kbScanKeyValue_spec`: a call scans and filters the rows, puts a matrix that differs from the last
  into the queue, and takes out the front.
* `matrix_buff_refines`: over every run the ring is a queue of four that drops its oldest matrix,
  fed with every change of the filtered matrix; what is read was pushed, in that order.
-/

namespace TelinkB91.Keyboard
open Runs MaskedRing

/-- The pointers run modulo eight, and at most four entries lie between them. -/
structure Kb.RingOk {n : Nat} (s : Kb n) : Prop where
  wptr : 0 ≤ s.matrixWptr ∧ s.matrixWptr < 8
  rptr : 0 ≤ s.matrixRptr ∧ s.matrixRptr < 8
  room : (s.matrixWptr - s.matrixRptr) % 8 ≤ 4

/-! ### The ring and the queue -/

variable {b : Board} {n : Nat} {s : Kb n}

/-- The ring is in order, and so are the records of what has gone through it. -/
structure Kb.Queued {n : Nat} (s : Kb n) : Prop where
  ring : s.RingOk
  accounts : DropOldest.Accounts 4 s.changes s.reads s.unread

theorem Kb.boot_queued : (Kb.boot n).Queued := by
  refine ⟨⟨?_, ?_, ?_⟩, .nil⟩ <;> simp [boot]

theorem Kb.unread_eq_nil (h : s.RingOk) : s.unread = [] ↔ s.matrixWptr = s.matrixRptr := by
  obtain ⟨hw, hr, -⟩ := h
  rw [← List.length_eq_zero_iff, Kb.unread, length_held]
  omega

theorem Kb.pushMatrix_ok (h : s.RingOk) (m : Matrix n) : (s.pushMatrix m).RingOk := by
  obtain ⟨hw, hr, hroom⟩ := h
  rw [pushMatrix]
  split
  · exact ⟨by dsimp only; omega, by dsimp only; omega, by dsimp only; omega⟩
  · rename_i hover
    exact ⟨by dsimp only; omega, hr, Int.not_lt.mp hover⟩

/-- **A push.**  The matrix goes to the end of the queue, and a fifth one costs the oldest. -/
theorem Kb.pushMatrix_unread (h : s.RingOk) (m : Matrix n) :
    (s.pushMatrix m).unread = DropOldest.push 4 s.unread m := by
  obtain ⟨hw, hr, hroom⟩ := h
  have hlen : s.unread.length = ((s.matrixWptr - s.matrixRptr) % 8).toNat := length_held
  rw [pushMatrix]
  split
  · rename_i hover
    dsimp only at hover
    have hfull : (s.matrixWptr - s.matrixRptr) % 8 = 4 := by omega
    have hreader : ((s.matrixWptr + 1) % 8 - 4) % 8 = (s.matrixRptr + 1) % 8 := by omega
    have hpush : held 8 (Function.update s.matrixBuff (slot 4 s.matrixWptr) m)
        ((s.matrixWptr + 1) % 8) ((s.matrixRptr + 1) % 8) = s.unread.tail ++ [m] :=
      held_push_full (M := 8) (by decide) m (by decide) hfull
    rw [← hreader] at hpush
    rw [DropOldest.push_of_full (by omega) (by decide)]
    exact hpush
  · rename_i hover
    dsimp only at hover
    have hlt : (s.matrixWptr - s.matrixRptr) % 8 < 4 := by omega
    have hroom' : (s.matrixWptr - s.matrixRptr) % 8 + 1 < 8 := by omega
    rw [DropOldest.push_of_lt (by omega)]
    exact held_push (M := 8) (by decide) (by decide) m hlt hroom'

@[simp] theorem Kb.pushMatrix_changes (m : Matrix n) :
    (s.pushMatrix m).changes = s.changes ++ [m] := by
  rw [pushMatrix]
  split <;> rfl

@[simp] theorem Kb.pushMatrix_reads (m : Matrix n) : (s.pushMatrix m).reads = s.reads := by
  rw [pushMatrix]
  split <;> rfl

@[simp] theorem Kb.pushMatrix_mtrxLast (m : Matrix n) :
    (s.pushMatrix m).mtrxLast = s.mtrxLast := by
  rw [pushMatrix]
  split <;> rfl

@[simp] theorem Kb.pushMatrix_mtrxPre (m : Matrix n) : (s.pushMatrix m).mtrxPre = s.mtrxPre := by
  rw [pushMatrix]
  split <;> rfl

@[simp] theorem Kb.pushMatrix_kbIsFnPressed (m : Matrix n) :
    (s.pushMatrix m).kbIsFnPressed = s.kbIsFnPressed := by
  rw [pushMatrix]
  split <;> rfl

@[simp] theorem Kb.pushMatrix_kbEvent (m : Matrix n) : (s.pushMatrix m).kbEvent = s.kbEvent := by
  rw [pushMatrix]
  split <;> rfl

/-- **A read.**  The reader holds the front of the queue, and takes it. -/
theorem Kb.readOut_unread (h : s.RingOk) (hne : s.matrixWptr ≠ s.matrixRptr) (w : U32) :
    s.unread = s.oldest :: (s.readOut b w).unread := by
  obtain ⟨hw, hr, hroom⟩ := h
  exact held_cons (M := 8) (by decide) (by decide) (by omega)

theorem Kb.readOut_ok (h : s.RingOk) (hne : s.matrixWptr ≠ s.matrixRptr) (w : U32) :
    (s.readOut b w).RingOk := by
  obtain ⟨hw, hr, hroom⟩ := h
  exact ⟨hw, by rw [readOut]; dsimp only; omega, by rw [readOut]; dsimp only; omega⟩

/-! ### A run -/

/-- What a call returns, the matrix it pushes and the matrix it reads, if any. -/
structure Answer (n : Nat) where
  ret : U32
  kbEvent : KbData
  change : Option (Matrix n)
  read : Option (Matrix n)

/-- What a call from `s` that ends in `r` has done, by the records. -/
def answer {n : Nat} (s : Kb n) (r : U32 × Kb n) : Answer n :=
  ⟨r.1, r.2.kbEvent, r.2.changes[s.changes.length]?, r.2.reads[s.reads.length]?⟩

/-- `kb_scan_key_value` with `scan_pin_need` as its caller has left it. -/
def scanCall (b : Board) (s : Kb b.drivePins) (c : U32 × Call) :
    Kb b.drivePins × Answer b.drivePins :=
  let r := kbScanKeyValue b { s with scanPinNeed := c.1 } c.2
  (r.2, answer s r)

/-- A queue of unread matrices, with the last scanned matrix and the last filtered one. -/
structure Unread (n : Nat) where
  pre : Matrix n
  last : Matrix n
  queue : List (Matrix n)

/-- The matrix that `key_debounce_filter` makes of the rows a call scans, for `scan_pin_need`. -/
def Unread.filtered {b : Board} (q : Unread b.drivePins) (need : U32) (c : Call) :
    Matrix b.drivePins := fun i =>
  debounce (decide (¬PowerOn c.numlockStatus)) (q.pre i) (q.last i) (c.matrix b need i)

/-- One call on the queue: the rows are scanned and filtered, the filtered matrix goes in when it
differs from the last one, and the front comes out and is mapped to key codes when the call may
read. -/
def QueueCall (b : Board) (need : U32) (c : Call) (a : Answer b.drivePins)
    (q q' : Unread b.drivePins) : Prop :=
  q'.pre = c.matrix b need ∧ q'.last = q.filtered need c ∧
  (q'.last = q.last ∧ a.change = none ∨ q'.last ≠ q.last ∧ a.change = some q'.last) ∧
  let queue := DropOldest.offer 4 q.queue a.change
  if Invalid c.numlockStatus then a.ret = 1#32 ∧ a.read = none ∧ q'.queue = queue
  else if queue = [] ∨ c.readKey = false then a.ret = 0#32 ∧ a.read = none ∧ q'.queue = queue
  else a.ret = 1#32 ∧ ∃ (m : Matrix b.drivePins) (d : KbData),
    queue = m :: q'.queue ∧ a.read = some m ∧ d.cnt = 0#8 ∧ d.ctrlKey = 0#8 ∧
    a.kbEvent = kbRemapKeyCode b m kbReturnKeyMax d c.numlockStatus
      (fnPressed b need c.gpio c.rows)

/-- The ring as a queue. -/
def Kb.toUnread {n : Nat} (s : Kb n) : Unread n := ⟨s.mtrxPre, s.mtrxLast, s.unread⟩

/-- The change of a call, if the filter reports one. -/
def Kb.change (b : Board) (s : Kb b.drivePins) (c : Call) : Option (Matrix b.drivePins) :=
  if (s.filter b c).1 then some (s.filter b c).2.mtrxLast else none

section call

variable {s : Kb b.drivePins} {c : Call}

/-- The push of a call, on the ring, the queue and the records. -/
theorem Kb.pushed_spec (h : s.RingOk) :
    (s.pushed b c).RingOk ∧
    (s.pushed b c).unread = DropOldest.offer 4 s.unread (s.change b c) ∧
    (s.pushed b c).changes = s.changes ++ (s.change b c).toList ∧
    (s.pushed b c).reads = s.reads ∧
    (s.pushed b c).mtrxPre = c.matrix b s.scanPinNeed ∧
    (s.pushed b c).mtrxLast = (s.filter b c).2.mtrxLast ∧
    (s.pushed b c).kbIsFnPressed = fnPressed b s.scanPinNeed c.gpio c.rows ∧
    (s.pushed b c).kbEvent.cnt = 0#8 ∧ (s.pushed b c).kbEvent.ctrlKey = 0#8 := by
  have hok : (s.filter b c).2.RingOk := ⟨h.wptr, h.rptr, h.room⟩
  rw [pushed, change]
  split
  · refine ⟨pushMatrix_ok hok _, pushMatrix_unread hok _, ?_, ?_, ?_, ?_, ?_, ?_, ?_⟩
    · rw [pushMatrix_changes]
      rfl
    · rw [pushMatrix_reads]
      rfl
    · rw [pushMatrix_mtrxPre]
      rfl
    · rw [pushMatrix_mtrxLast]
    · rw [pushMatrix_kbIsFnPressed]
      rfl
    · rw [pushMatrix_kbEvent]
      rfl
    · rw [pushMatrix_kbEvent]
      rfl
  · refine ⟨hok, rfl, ?_, rfl, rfl, rfl, rfl, rfl, rfl⟩
    exact (List.append_nil _).symm

/-- What is appended is what the list has at its old end. -/
private theorem appended {α : Type*} (l : List α) (o : Option α) :
    (l ++ o.toList)[l.length]? = o := by
  rw [List.getElem?_append_right (Nat.le_refl _), Nat.sub_self]
  cases o <;> rfl

/-- The filtered matrix is pushed just when it is a new one. -/
theorem Kb.change_spec :
    (s.filter b c).2.mtrxLast = s.mtrxLast ∧ s.change b c = none ∨
    (s.filter b c).2.mtrxLast ≠ s.mtrxLast ∧ s.change b c = some (s.filter b c).2.mtrxLast := by
  rw [change]
  split
  · rename_i hchanged
    exact .inr ⟨filter_changed.mp hchanged, rfl⟩
  · rename_i hsame
    exact .inl ⟨not_not.mp fun h => hsame (filter_changed.mpr h), rfl⟩

/-- **One call is one call on the queue**, and keeps the ring and the records in order. -/
theorem kbScanKeyValue_spec (hs : s.Queued) :
    (kbScanKeyValue b s c).2.Queued ∧
    QueueCall b s.scanPinNeed c (answer s (kbScanKeyValue b s c)) s.toUnread
      (kbScanKeyValue b s c).2.toUnread := by
  obtain ⟨h, hacc⟩ := hs
  obtain ⟨hok, hqueue, hchanges, hreads, hpre, hlast, hfn, hcnt, hctrl⟩ :=
    Kb.pushed_spec (b := b) (c := c) h
  have hfiltered : (s.filter b c).2.mtrxLast = s.toUnread.filtered s.scanPinNeed c := rfl
  have hchange := Kb.change_spec (b := b) (s := s) (c := c)
  rw [← hlast] at hchange
  have hcases := kbScanKeyValue_cases (b := b) (s := s) (c := c)
  generalize s.pushed b c = p at *
  -- The accounts after the push, whether there is one or not.
  have hpush : DropOldest.Accounts 4 p.changes p.reads p.unread := by
    rw [hchanges, hreads, hqueue]
    exact hacc.offer (by decide) _
  have hempty : p.unread = [] ↔ p.matrixWptr = p.matrixRptr := Kb.unread_eq_nil hok
  have hanswer : p.changes[s.changes.length]? = s.change b c := by rw [hchanges, appended]
  have hnone : p.reads[s.reads.length]? = none := by rw [hreads, List.getElem?_eq_none le_rfl]
  rcases hcases with ⟨hinvalid, hstep⟩ | ⟨hvalid, hstop, hstep⟩ | ⟨hvalid, hgo, hstep⟩
  · rw [hstep]
    refine ⟨⟨hok, hpush⟩, ?_⟩
    rw [QueueCall, if_pos hinvalid, answer]
    dsimp only
    rw [hanswer]
    exact ⟨hpre, hlast.trans hfiltered, hchange, rfl, hnone, hqueue⟩
  · rw [hstep]
    refine ⟨⟨hok, hpush⟩, ?_⟩
    rw [QueueCall, if_neg hvalid, answer]
    dsimp only
    rw [hanswer, if_pos]
    · exact ⟨hpre, hlast.trans hfiltered, hchange, rfl, hnone, hqueue⟩
    · rw [← hempty, hqueue] at hstop
      exact hstop
  · rw [hstep]
    have hne : p.matrixWptr ≠ p.matrixRptr := fun h => hgo (.inl h)
    have hfront := Kb.readOut_unread (b := b) hok hne c.numlockStatus
    refine ⟨⟨Kb.readOut_ok hok hne _, ?_⟩, ?_⟩
    · rw [hfront] at hpush
      exact hpush.read
    · rw [QueueCall, if_neg hvalid, answer]
      dsimp only
      have hqueue' : DropOldest.offer 4 s.toUnread.queue (s.change b c)
          = p.oldest :: (p.readOut b c.numlockStatus).unread := hqueue.symm.trans hfront
      have hread : (p.readOut b c.numlockStatus).reads[s.reads.length]? = some p.oldest := by
        rw [← hreads]
        exact appended p.reads (some p.oldest)
      have hchanged : (p.readOut b c.numlockStatus).changes[s.changes.length]? = s.change b c :=
        hanswer
      rw [hchanged, if_neg]
      · rw [← hfn]
        exact ⟨hpre, hlast.trans hfiltered, hchange, rfl, p.oldest, p.kbEvent, hqueue', hread, hcnt,
          hctrl, rfl⟩
      · rw [← hempty, hqueue] at hgo
        exact hgo

theorem scanCall_spec {c : U32 × Call} (h : s.Queued) :
    (scanCall b s c).1.Queued ∧
    QueueCall b c.1 c.2 (scanCall b s c).2 s.toUnread (scanCall b s c).1.toUnread := by
  have hcaller : ({ s with scanPinNeed := c.1 } : Kb b.drivePins).Queued :=
    ⟨⟨h.ring.wptr, h.ring.rptr, h.ring.room⟩, h.accounts⟩
  exact kbScanKeyValue_spec hcaller

end call

/-- **The ring is a queue.**  Over every run of `kb_scan_key_value`, with any readings of the pins,
any `read_key` and any `numlock_status`, `matrix_buff` is a queue of four that takes every matrix
that the filter makes of the rows scanned and that differs from the one before, drops its oldest one
for a fifth, and gives out its front.  The matrices read were pushed in that order, none twice, and
those passed over had four newer ones behind them. -/
theorem matrix_buff_refines (b : Board) (calls : List (U32 × Call)) :
    let s := runFrom (fun s c => (scanCall b s c).1) (Kb.boot b.drivePins) calls
    Path (fun c => QueueCall b c.1 c.2) ⟨fun _ => 0#32, fun _ => 0#32, []⟩
      (trace (scanCall b) (Kb.boot b.drivePins) calls) ⟨s.mtrxPre, s.mtrxLast, s.unread⟩ ∧
    DropOldest.Accounts 4 s.changes s.reads s.unread := by
  intro s
  refine ⟨?_, ?_⟩
  · refine Along.path (f := scanCall b) (g := Kb.toUnread) (I := Kb.Queued) ?_ ?_ Kb.boot_queued
      (Along.intro calls)
    · intro s c h _
      exact (scanCall_spec h).1
    · intro s c h _
      exact (scanCall_spec h).2
  · refine (invariant (I := Kb.Queued) ?_ Kb.boot_queued calls).accounts
    intro s c h
    exact (scanCall_spec h).1

end TelinkB91.Keyboard
