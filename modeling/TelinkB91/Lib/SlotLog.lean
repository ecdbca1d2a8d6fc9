import Mathlib.Algebra.Order.Ring.Nat
import TelinkB91.Lib.NorFlash

/-!
# Library — a log of fixed-size slots on NOR flash

A sector divided into `cap` slots of `width` bytes.  A slot is written once, as a live mark
followed by its payload, and later struck out by clearing the mark; the sector is wiped as a
whole.  A log is the list of the slots written so far, `some a` for a live one and `none` for
one struck out, and `live` lists its live entries with their slot numbers.

`Holds F m log` says that the image `m` is the log.  Each edit of a log is one flash command
(`Edit.cmd`), and the command keeps `Holds` (`Holds.edit`); hence a reset after any number of
the commands of an edit sequence leaves an image that holds a prefix of it
(`Holds.edits_take`).
-/

namespace SlotLog
open NorFlash

variable {α : Type*}

/-! ### Logs and their live entries -/

/-- The live entries, with their slot numbers counted from `n`. -/
def liveFrom : Nat → List (Option α) → List (Nat × α)
  | _, [] => []
  | n, none :: l => liveFrom (n + 1) l
  | n, some a :: l => (n, a) :: liveFrom (n + 1) l

/-- The live entries of a log, with their slot numbers. -/
def live (log : List (Option α)) : List (Nat × α) := liveFrom 0 log

theorem liveFrom_append_some (n : Nat) (l : List (Option α)) (a : α) :
    liveFrom n (l ++ [some a]) = liveFrom n l ++ [(n + l.length, a)] := by
  induction l generalizing n with
  | nil => rfl
  | cons o l ih =>
      cases o with
      | none => simp [liveFrom, ih, Nat.add_assoc, Nat.add_comm 1]
      | some b => simp [liveFrom, ih, Nat.add_assoc, Nat.add_comm 1]

/-- A live entry's number and value. -/
theorem mem_liveFrom {n i : Nat} {a : α} {l : List (Option α)} :
    (i, a) ∈ liveFrom n l ↔ n ≤ i ∧ l[i - n]? = some (some a) := by
  induction l generalizing n with
  | nil => simp [liveFrom]
  | cons o l ih =>
      have hs : n < i → i - n = (i - (n + 1)) + 1 := by omega
      rcases Nat.lt_trichotomy n i with h | rfl | h
      · cases o <;> simp [liveFrom, ih, hs h, show n ≤ i by omega, show n + 1 ≤ i from h]
        omega
      · have hn : ¬ n + 1 ≤ n := by omega
        cases o <;> simp [liveFrom, ih, hn, eq_comm]
      · cases o <;> simp [liveFrom, ih, show ¬ n ≤ i by omega, show ¬ n + 1 ≤ i by omega]
        omega

/-- Striking out the slot of live entry `j` removes that entry and no other. -/
theorem liveFrom_strike {n i j : Nat} {a : α} {l : List (Option α)}
    (h : (liveFrom n l)[j]? = some (n + i, a)) :
    liveFrom n (l.set i none) = (liveFrom n l).eraseIdx j := by
  induction l generalizing n i j with
  | nil => simp [liveFrom] at h
  | cons o l ih =>
      have hmem := mem_liveFrom.mp (List.mem_of_getElem? h)
      cases o with
      | none =>
          cases i with
          | zero => simp at hmem
          | succ i =>
              simp only [liveFrom, List.set_cons_succ] at h ⊢
              exact ih (by rw [h]; congr 2; omega)
      | some b =>
          cases j with
          | zero =>
              have hi : i = 0 := by simp [liveFrom] at h; omega
              subst hi
              simp [liveFrom]
          | succ j =>
              simp only [liveFrom, List.getElem?_cons_succ] at h
              have hle := (mem_liveFrom.mp (List.mem_of_getElem? h)).1
              obtain ⟨i, rfl⟩ : ∃ k, i = k + 1 := ⟨i - 1, by omega⟩
              simp only [liveFrom, List.set_cons_succ, List.eraseIdx_cons_succ]
              rw [ih (by rw [h]; congr 2; omega)]

@[simp] theorem live_nil : live ([] : List (Option α)) = [] := rfl

theorem live_append_some (log : List (Option α)) (a : α) :
    live (log ++ [some a]) = live log ++ [(log.length, a)] := by
  rw [live, liveFrom_append_some, Nat.zero_add, live]

theorem mem_live {i : Nat} {a : α} {log : List (Option α)} :
    (i, a) ∈ live log ↔ log[i]? = some (some a) := by
  rw [live, mem_liveFrom]; simp

theorem live_strike {i j : Nat} {a : α} {log : List (Option α)}
    (h : (live log)[j]? = some (i, a)) : live (log.set i none) = (live log).eraseIdx j :=
  liveFrom_strike (by rwa [Nat.zero_add])

/-- A live slot lies in the log. -/
theorem lt_length_of_mem_live {i : Nat} {a : α} {log : List (Option α)} (h : (i, a) ∈ live log) :
    i < log.length :=
  (List.getElem?_eq_some_iff.mp (mem_live.mp h)).1

/-! ### Edits -/

/-- One change of a log. -/
inductive Edit (α : Type*) where
  | append (a : α)
  | strike (i : Nat)
  | wipe

/-- The log after an edit. -/
def Edit.apply (log : List (Option α)) : Edit α → List (Option α)
  | .append a => log ++ [some a]
  | .strike i => log.set i none
  | .wipe => []

/-- The log after a list of edits. -/
def applyEdits (log : List (Option α)) (es : List (Edit α)) : List (Option α) :=
  es.foldl Edit.apply log

@[simp] theorem applyEdits_nil (log : List (Option α)) : applyEdits log [] = log := rfl

@[simp] theorem applyEdits_cons (log : List (Option α)) (e : Edit α) (es : List (Edit α)) :
    applyEdits log (e :: es) = applyEdits (e.apply log) es := rfl

theorem applyEdits_append (log : List (Option α)) (es fs : List (Edit α)) :
    applyEdits log (es ++ fs) = applyEdits (applyEdits log es) fs := List.foldl_append

/-! ### Runs of strikes and of appends -/

theorem length_strike (log : List (Option α)) (i : Nat) :
    ((Edit.strike i : Edit α).apply log).length = log.length := List.length_set

/-- Striking out the first `k` live slots leaves the others. -/
theorem live_strikes (log : List (Option α)) (k : Nat) :
    live (applyEdits log (((live log).take k).map fun e => .strike e.1)) = (live log).drop k := by
  induction k generalizing log with
  | zero => simp
  | succ k ih =>
      cases hl : live log with
      | nil => simpa using hl
      | cons e es =>
          have hs : live (log.set e.1 none) = es := by
            rw [live_strike (j := 0) (a := e.2) (by simp [hl]), hl]; rfl
          have := ih (log.set e.1 none)
          rwa [hs] at this

theorem length_applyEdits_strikes (log : List (Option α)) (es : List (Nat × α)) :
    (applyEdits log (es.map fun e => .strike e.1)).length = log.length := by
  induction es generalizing log with
  | nil => rfl
  | cons e es ih => simp only [List.map_cons, applyEdits_cons]; rw [ih, length_strike]

theorem applyEdits_appends (log : List (Option α)) (as : List α) :
    applyEdits log (as.map .append) = log ++ as.map some := by
  induction as generalizing log with
  | nil => simp
  | cons a as ih => simp [Edit.apply, ih]

/-- A log without struck slots: slot numbers are positions. -/
theorem liveFrom_map_some (n : Nat) (as : List α) :
    (liveFrom n (as.map some)).map Prod.fst = List.range' n as.length ∧
      (liveFrom n (as.map some)).map Prod.snd = as := by
  induction as generalizing n with
  | nil => exact ⟨rfl, rfl⟩
  | cons a as ih =>
      obtain ⟨h₁, h₂⟩ := ih (n + 1)
      simp only [List.map_cons, liveFrom, h₁, h₂, List.length_cons, List.range'_succ, and_self]

/-- The same for a whole log. -/
theorem live_map_some (as : List α) :
    (live (as.map some)).map Prod.fst = List.range as.length ∧
      (live (as.map some)).map Prod.snd = as := by
  rw [List.range_eq_range']
  exact liveFrom_map_some 0 as

/-! ### Logs on flash -/

/-- How slots are laid out: their width and number, the live mark, and the payload bytes. -/
structure Format (α : Type*) where
  width : Nat
  cap : Nat
  mark : Byte
  encode : α → List Byte
  encode_length : ∀ a, (encode a).length + 1 = width
  mark_ne_blank : mark ≠ blank
  mark_ne_zero : mark ≠ 0#8
  cap_pos : 0 < cap

variable (F : Format α)

/-- The image `m` is the log `log`: live slots carry the mark and the payload, struck slots a
cleared mark, and the rest of the sector is blank. -/
structure Holds (m : Mem) (log : List (Option α)) : Prop where
  fits : log.length ≤ F.cap
  slot_live : ∀ i a, log[i]? = some (some a) →
    read m (F.width * i) F.width = F.mark :: F.encode a
  slot_struck : ∀ i, log[i]? = some none → m (F.width * i) = 0#8
  rest_blank : ∀ x, F.width * log.length ≤ x → x < F.width * F.cap → m x = blank

/-- The command of an edit at a log. -/
def Edit.cmd (log : List (Option α)) : Edit α → Cmd
  | .append a => .program (F.width * log.length) (F.mark :: F.encode a)
  | .strike i => .program (F.width * i) [0#8]
  | .wipe => .erase 0 (F.width * F.cap)

/-- The edit applies at this log: an append finds a free slot, a strike a written one. -/
def Edit.Fits (log : List (Option α)) : Edit α → Prop
  | .append _ => log.length < F.cap
  | .strike i => i < log.length
  | .wipe => True

variable {F}

theorem Format.width_pos (F : Format α) (a : α) : 0 < F.width := by
  have := F.encode_length a; omega

/-- A blank sector holds the empty log. -/
theorem holds_nil {m : Mem} (h : ∀ x, x < F.width * F.cap → m x = blank) : Holds F m [] where
  fits := Nat.zero_le _
  slot_live i a hi := by simp at hi
  slot_struck i hi := by simp at hi
  rest_blank x _ hx := h x hx

/-- The first byte of a live slot is the mark. -/
theorem Holds.mark_live {m : Mem} {log : List (Option α)} (h : Holds F m log) {i : Nat} {a : α}
    (hi : log[i]? = some (some a)) : m (F.width * i) = F.mark := by
  have hr := h.slot_live i a hi
  obtain ⟨w, hw⟩ : ∃ w, F.width = w + 1 := ⟨F.width - 1, by have := F.width_pos a; omega⟩
  rw [hw, read_succ] at hr
  rw [hw]
  exact (List.cons.inj hr).1

/-- The first byte after the last written slot is blank. -/
theorem Holds.mark_blank {m : Mem} {log : List (Option α)} (h : Holds F m log)
    (hlt : log.length < F.cap) (hw : 0 < F.width) : m (F.width * log.length) = blank :=
  h.rest_blank _ le_rfl (Nat.mul_lt_mul_of_pos_left hlt hw)

/-- Bytes of slot `i` lie apart from slot `k`. -/
theorem slot_apart {w i k x : Nat} (hik : i ≠ k) (h₁ : w * i ≤ x) (h₂ : x < w * i + w) :
    x < w * k ∨ w * k + w ≤ x := by
  rcases Nat.lt_or_gt_of_ne hik with h | h
  · have := Nat.mul_le_mul_left w h
    rw [Nat.mul_succ] at this; omega
  · have := Nat.mul_le_mul_left w h
    rw [Nat.mul_succ] at this; omega

theorem Holds.append {m : Mem} {log : List (Option α)} (h : Holds F m log) (a : α)
    (hlt : log.length < F.cap) :
    Holds F (program m (F.width * log.length) (F.mark :: F.encode a)) (log ++ [some a]) := by
  have hlen : (F.mark :: F.encode a).length = F.width := F.encode_length a
  have hcap : F.width * log.length + F.width ≤ F.width * F.cap := by
    rw [← Nat.mul_succ]; exact Nat.mul_le_mul_left _ hlt
  have hw := F.width_pos a
  refine ⟨by simp; omega, fun i b hi => ?_, fun i hi => ?_, fun x hx hx' => ?_⟩
  · rcases Nat.lt_trichotomy i log.length with hi' | rfl | hi'
    · rw [List.getElem?_append_left hi'] at hi
      rw [← h.slot_live i b hi]
      refine read_congr fun x h₁ h₂ => program_apart ?_
      rw [hlen]
      exact slot_apart (by omega) h₁ h₂
    · obtain rfl : a = b := by simpa using hi
      have hb : ∀ x, F.width * log.length ≤ x →
          x < F.width * log.length + (F.mark :: F.encode a).length → m x = blank :=
        fun x h₁ h₂ => h.rest_blank x h₁ (by omega)
      have hr := read_program_blank hb
      rwa [hlen] at hr
    · rw [List.getElem?_eq_none (by simp; omega)] at hi; simp at hi
  · have hi' : i < log.length := by
      by_contra hge
      rw [List.getElem?_append_right (by omega)] at hi
      cases hk : i - log.length <;> simp [hk] at hi
    rw [List.getElem?_append_left hi'] at hi
    rw [program_apart, h.slot_struck i hi]
    rw [hlen]
    exact slot_apart (by omega) le_rfl (by omega)
  · have hl : F.width * (log ++ [some a]).length = F.width * log.length + F.width := by
      rw [List.length_append, List.length_singleton, Nat.mul_succ]
    rw [program_apart (by omega)]
    exact h.rest_blank x (by omega) hx'

theorem Holds.strike {m : Mem} {log : List (Option α)} (h : Holds F m log) {i : Nat}
    (hw : 0 < F.width) (hi : i < log.length) :
    Holds F (program m (F.width * i) [0#8]) (log.set i none) := by
  have apart : ∀ k, k ≠ i → ∀ x, F.width * k ≤ x → x < F.width * k + F.width →
      program m (F.width * i) [0#8] x = m x := fun k hk x h₁ h₂ =>
    program_apart (by have := slot_apart hk h₁ h₂; simp; omega)
  refine ⟨by simpa using h.fits, fun k b hk => ?_, fun k hk => ?_, fun x hx hx' => ?_⟩
  · rw [List.getElem?_set] at hk
    have hki : k ≠ i := by rintro rfl; simp [hi] at hk
    rw [if_neg (Ne.symm hki)] at hk
    rw [← h.slot_live k b hk]
    exact read_congr fun x h₁ h₂ => apart k hki x h₁ h₂
  · by_cases hki : k = i
    · subst hki
      have h₀ : program m (F.width * k) [0#8] (F.width * k + 0) = m (F.width * k + 0) &&& 0#8 :=
        program_at rfl
      simpa using h₀
    · rw [List.getElem?_set, if_neg (Ne.symm hki)] at hk
      rw [apart k hki _ le_rfl (by omega), h.slot_struck k hk]
  · have hil : F.width * i + F.width ≤ F.width * log.length := by
      rw [← Nat.mul_succ]; exact Nat.mul_le_mul_left _ hi
    rw [List.length_set] at hx
    rw [program_apart (by simp; omega), h.rest_blank x hx hx']

/-- **An edit on flash.**  The command of an edit keeps the image in step with the log. -/
theorem Holds.edit {m : Mem} {log : List (Option α)} (h : Holds F m log) {e : Edit α}
    (hw : 0 < F.width) (he : e.Fits F log) : Holds F ((e.cmd F log).apply m) (e.apply log) := by
  cases e with
  | append a => exact h.append a he
  | strike i => exact h.strike hw he
  | wipe => exact holds_nil fun x hx => erase_inside (Nat.zero_le _) (by omega)

/-! ### Edit sequences -/

/-- The commands of a list of edits, each at the log the earlier ones leave. -/
def cmds (F : Format α) : List (Option α) → List (Edit α) → List Cmd
  | _, [] => []
  | log, e :: es => e.cmd F log :: cmds F (e.apply log) es

/-- Every edit of the list applies where it is made. -/
def FitsAll (F : Format α) : List (Option α) → List (Edit α) → Prop
  | _, [] => True
  | log, e :: es => e.Fits F log ∧ FitsAll F (e.apply log) es

theorem cmds_append (log : List (Option α)) (es fs : List (Edit α)) :
    cmds F log (es ++ fs) = cmds F log es ++ cmds F (applyEdits log es) fs := by
  induction es generalizing log with
  | nil => rfl
  | cons e es ih => simp [cmds, ih]

theorem fitsAll_append {log : List (Option α)} {es fs : List (Edit α)} :
    FitsAll F log (es ++ fs) ↔ FitsAll F log es ∧ FitsAll F (applyEdits log es) fs := by
  induction es generalizing log with
  | nil => simp [FitsAll]
  | cons e es ih => simp [FitsAll, ih, and_assoc]

theorem fitsAll_strikes (F : Format α) {log : List (Option α)} {es : List (Nat × α)}
    (h : ∀ e ∈ es, e.1 < log.length) : FitsAll F log (es.map fun e => .strike e.1) := by
  induction es generalizing log with
  | nil => trivial
  | cons e es ih =>
      refine ⟨h e List.mem_cons_self, ih fun e' he' => ?_⟩
      rw [length_strike]
      exact h e' (List.mem_cons_of_mem _ he')

theorem fitsAll_appends (F : Format α) {log : List (Option α)} {as : List α}
    (h : log.length + as.length ≤ F.cap) : FitsAll F log (as.map .append) := by
  induction as generalizing log with
  | nil => trivial
  | cons a as ih =>
      rw [List.length_cons] at h
      refine ⟨show log.length < F.cap by omega, ih ?_⟩
      simp only [Edit.apply, List.length_append, List.length_singleton]
      omega

/-- **A reset inside an edit sequence.**  After the first `k` commands of a list of edits the
image holds the log after its first `k` edits. -/
theorem Holds.edits_take {m : Mem} {log : List (Option α)} (h : Holds F m log)
    (hw : 0 < F.width) {es : List (Edit α)} (hes : FitsAll F log es) (k : Nat) :
    Holds F (applyAll m ((cmds F log es).take k)) (applyEdits log (es.take k)) := by
  induction es generalizing m log k with
  | nil => simpa [cmds] using h
  | cons e es ih =>
      cases k with
      | zero => exact h
      | succ k => exact ih (h.edit hw hes.1) hes.2 k

theorem length_cmds (log : List (Option α)) (es : List (Edit α)) :
    (cmds F log es).length = es.length := by
  induction es generalizing log with
  | nil => rfl
  | cons e es ih => simp [cmds, ih]

theorem Holds.edits {m : Mem} {log : List (Option α)} (h : Holds F m log) (hw : 0 < F.width)
    {es : List (Edit α)} (hes : FitsAll F log es) :
    Holds F (applyAll m (cmds F log es)) (applyEdits log es) := by
  have := h.edits_take hw hes es.length
  rwa [List.take_of_length_le (length_cmds log es).le, List.take_length] at this

/-! ### The marked slots -/

/-- The slots whose first byte is the mark. -/
def marked (F : Format α) (m : Mem) : List Nat :=
  (List.range F.cap).filter fun i => m (F.width * i) = F.mark

theorem filter_marks {m : Mem} {log : List (Option α)} (h : Holds F m log) :
    ∀ (n : Nat) (l : List (Option α)), (∀ i, i < l.length → log[n + i]? = l[i]?) →
      (List.range' n l.length).filter (fun i => m (F.width * i) = F.mark) =
        (liveFrom n l).map Prod.fst
  | _, [], _ => rfl
  | n, o :: l, hl => by
      have h₀ : log[n]? = some o := by simpa using hl 0 (by simp)
      have ih := filter_marks h (n + 1) l fun i hi => by
        have := hl (i + 1) (by simpa using hi)
        rwa [List.getElem?_cons_succ, Nat.add_comm i 1, ← Nat.add_assoc] at this
      rw [List.length_cons, List.range'_succ, List.filter_cons]
      cases o with
      | none =>
          have hm : m (F.width * n) ≠ F.mark := by
            rw [h.slot_struck n h₀]; exact F.mark_ne_zero.symm
          simp [hm, liveFrom, ih]
      | some a => simp [h.mark_live h₀, liveFrom, ih]

/-- **The marked slots are the live ones**, in the same order. -/
theorem Holds.marked_eq {m : Mem} {log : List (Option α)} (h : Holds F m log) (hw : 0 < F.width) :
    marked F m = (live log).map Prod.fst := by
  have hsplit : List.range F.cap =
      List.range' 0 log.length ++ List.range' log.length (F.cap - log.length) := by
    have happ := List.range'_append_1 (s := 0) (m := log.length) (n := F.cap - log.length)
    rw [Nat.zero_add, Nat.add_sub_cancel' h.fits] at happ
    rw [happ, List.range_eq_range']
  have hrest : (List.range' log.length (F.cap - log.length)).filter
      (fun i => m (F.width * i) = F.mark) = [] := by
    refine List.filter_eq_nil_iff.mpr ?_
    intro i hi
    have hi' := List.mem_range'_1.mp hi
    have hb : m (F.width * i) = blank :=
      h.rest_blank _ (Nat.mul_le_mul_left _ hi'.1) (Nat.mul_lt_mul_of_pos_left (by omega) hw)
    simp [hb, F.mark_ne_blank.symm]
  rw [marked, hsplit, List.filter_append, hrest, List.append_nil,
    filter_marks h 0 log (fun i _ => by rw [Nat.zero_add]), live]

/-- A slot with a byte that is not blank has been written. -/
theorem Holds.lt_of_ne_blank {m : Mem} {log : List (Option α)} (h : Holds F m log) {i x : Nat}
    (hx : F.width * i ≤ x) (hx' : x < F.width * F.cap) (hb : m x ≠ blank) : i < log.length := by
  by_contra hge
  exact hb (h.rest_blank x ((Nat.mul_le_mul_left _ (by omega)).trans hx) hx')

/-- A written slot's first byte is the mark or cleared. -/
theorem Holds.mark_written {m : Mem} {log : List (Option α)} (h : Holds F m log) {i : Nat}
    (hi : i < log.length) : m (F.width * i) = F.mark ∨ m (F.width * i) = 0#8 := by
  cases ho : log[i] with
  | none => exact .inr (h.slot_struck i (by rw [List.getElem?_eq_getElem hi, ho]))
  | some a => exact .inl (h.mark_live (by rw [List.getElem?_eq_getElem hi, ho]))

end SlotLog
