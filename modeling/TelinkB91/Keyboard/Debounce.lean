import TelinkB91.Keyboard.Matrix

/-!
# Keyboard — the debounce filter over a run

`key_debounce_filter` works on one column at a time, in place: `mtrx_cur[i]` is the raw column
before its round and the filtered one after it, and the two histories of the column are overwritten
at the end.  The three words of a column are combined bit by bit.

* `loop_eq`: what the loop leaves is what `Kb.keyDebounceFilter` has.
* `filtered_bit`: a bit follows two raw scans that agree, and stays as it is otherwise.
* `debounce_law`: a change of a raw bit that lasts for a single scan changes nothing; one that lasts
  for two is reported with the second of them, unless the filtered bit has that value already.
-/

namespace TelinkB91.Keyboard
open Runs

/-! ### The loop -/

/-- The statics of `key_debounce_filter`, and `stuckKeyPress`, which it writes where
`STUCK_KEY_PROCESS_ENABLE` is set. -/
@[ext] structure Filt (n : Nat) where
  mtrxPre : Matrix n
  mtrxLast : Matrix n
  stuckKeyPress : Fin n → U8

/-- All zero. -/
def Filt.zero (n : Nat) : Filt n := ⟨fun _ => 0#32, fun _ => 0#32, fun _ => 0#8⟩

/-- The variables of the loop. -/
structure FiltLoop (n : Nat) where
  mtrxCur : Matrix n
  stat : Filt n
  kc : U32

/-- `mtrx_tmp ? 1 : 0`. -/
def pressFlag (mtrxTmp : U32) : U8 := if mtrxTmp ≠ 0#32 then 1#8 else 0#8

/-- The round of column `i`. -/
def filtRound {n : Nat} (filtEn : Bool) (l : FiltLoop n) (i : Fin n) : FiltLoop n :=
  let mtrxTmp := l.mtrxCur i
  let mtrxCur := if filtEn then
      Function.update l.mtrxCur i
        ((~~~l.stat.mtrxLast i &&& (l.stat.mtrxPre i &&& mtrxTmp)) |||
          (l.stat.mtrxLast i &&& (l.stat.mtrxPre i ||| mtrxTmp)))
    else l.mtrxCur
  { mtrxCur := mtrxCur
    stat :=
      { mtrxPre := Function.update l.stat.mtrxPre i mtrxTmp
        mtrxLast := Function.update l.stat.mtrxLast i (mtrxCur i)
        stuckKeyPress := Function.update l.stat.stuckKeyPress i (pressFlag mtrxTmp) }
    kc := if mtrxCur i ≠ l.stat.mtrxLast i then 1#32 else l.kc }

/-- `key_debounce_filter`, on the matrix `mtrx_cur`. -/
def keyDebounceFilter {n : Nat} (filtEn : Bool) (stat : Filt n) (mtrxCur : Matrix n) :
    FiltLoop n :=
  (List.finRange n).foldl (filtRound filtEn) ⟨mtrxCur, stat, 0#32⟩

/-- The filtered matrix. -/
def Filt.filtered {n : Nat} (s : Filt n) (filtEn : Bool) (tmp : Matrix n) : Matrix n := fun i =>
  debounce filtEn (s.mtrxPre i) (s.mtrxLast i) (tmp i)

section loop

variable {n : Nat} {filtEn : Bool} {l₀ l : FiltLoop n} {is : List (Fin n)} {i : Fin n}

/-- Column `i` after its round, for the column `tmp` and the variables `s` before it. -/
structure Column (filtEn : Bool) (s : Filt n) (tmp : Matrix n) (l : FiltLoop n) (i : Fin n) :
    Prop where
  mtrxCur : l.mtrxCur i = s.filtered filtEn tmp i
  mtrxPre : l.stat.mtrxPre i = tmp i
  mtrxLast : l.stat.mtrxLast i = s.filtered filtEn tmp i
  stuckKeyPress : l.stat.stuckKeyPress i = pressFlag (tmp i)

/-- Two loops agree on the variables of column `k`. -/
structure Agree (l l' : FiltLoop n) (k : Fin n) : Prop where
  mtrxCur : l'.mtrxCur k = l.mtrxCur k
  mtrxPre : l'.stat.mtrxPre k = l.stat.mtrxPre k
  mtrxLast : l'.stat.mtrxLast k = l.stat.mtrxLast k
  stuckKeyPress : l'.stat.stuckKeyPress k = l.stat.stuckKeyPress k

/-- A round on its column: `mtrx_cur` is read before it is written. -/
theorem filtRound_self (filtEn : Bool) (l : FiltLoop n) (i : Fin n) :
    Column filtEn l.stat l.mtrxCur (filtRound filtEn l i) i := by
  cases filtEn with
  | true =>
      refine ⟨Function.update_self .., Function.update_self .., ?_, Function.update_self ..⟩
      exact (Function.update_self ..).trans (Function.update_self ..)
  | false =>
      exact ⟨rfl, Function.update_self .., Function.update_self .., Function.update_self ..⟩

/-- A round leaves the other columns alone. -/
theorem filtRound_ne (filtEn : Bool) (l : FiltLoop n) {i k : Fin n} (h : k ≠ i) :
    Agree l (filtRound filtEn l i) k := by
  refine ⟨?_, Function.update_of_ne h .., Function.update_of_ne h .., Function.update_of_ne h ..⟩
  cases filtEn with
  | true => exact Function.update_of_ne h ..
  | false => rfl

theorem Column.agree {s : Filt n} {tmp : Matrix n} {k : Fin n} (h : Column filtEn s tmp l₀ k)
    (hsame : Agree l₀ l k) : Column filtEn s tmp l k :=
  ⟨hsame.mtrxCur.trans h.mtrxCur, hsame.mtrxPre.trans h.mtrxPre, hsame.mtrxLast.trans h.mtrxLast,
    hsame.stuckKeyPress.trans h.stuckKeyPress⟩

theorem Agree.trans {l' : FiltLoop n} {k : Fin n} (h : Agree l₀ l k) (h' : Agree l l' k) :
    Agree l₀ l' k :=
  ⟨h'.mtrxCur.trans h.mtrxCur, h'.mtrxPre.trans h.mtrxPre, h'.mtrxLast.trans h.mtrxLast,
    h'.stuckKeyPress.trans h.stuckKeyPress⟩

/-- The rounds of the columns `is` are done, from `l₀` on. -/
structure Done (filtEn : Bool) (l₀ : FiltLoop n) (is : List (Fin n)) (l : FiltLoop n) : Prop where
  new : ∀ k ∈ is, Column filtEn l₀.stat l₀.mtrxCur l k
  old : ∀ k ∉ is, Agree l₀ l k
  kc : l.kc = if ∃ k ∈ is, l₀.stat.filtered filtEn l₀.mtrxCur k ≠ l₀.stat.mtrxLast k then 1#32
    else l₀.kc

/-- **One round** of a column that is still to come. -/
theorem Done.round (h : Done filtEn l₀ is l) (hi : i ∉ is) :
    Done filtEn l₀ (is ++ [i]) (filtRound filtEn l i) := by
  obtain ⟨hcur, hpre, hlast, -⟩ := h.old i hi
  have hfiltered : l.stat.filtered filtEn l.mtrxCur i = l₀.stat.filtered filtEn l₀.mtrxCur i := by
    rw [Filt.filtered, Filt.filtered, hcur, hpre, hlast]
  have hself := filtRound_self filtEn l i
  refine ⟨fun k hk => ?_, fun k hk => ?_, ?_⟩
  · by_cases hki : k = i
    · subst hki
      exact ⟨hself.mtrxCur.trans hfiltered, hself.mtrxPre.trans hcur,
        hself.mtrxLast.trans hfiltered, hself.stuckKeyPress.trans (congrArg pressFlag hcur)⟩
    · have hmem : k ∈ is := (List.mem_append.mp hk).resolve_right fun h =>
        hki (List.mem_singleton.mp h)
      exact (h.new k hmem).agree (filtRound_ne filtEn l hki)
  · rw [List.mem_append, List.mem_singleton, not_or] at hk
    exact (h.old k hk.1).trans (filtRound_ne filtEn l hk.2)
  · have hkc : (filtRound filtEn l i).kc =
        if (filtRound filtEn l i).mtrxCur i ≠ l.stat.mtrxLast i then 1#32 else l.kc := rfl
    rw [hkc, hself.mtrxCur, hfiltered, hlast, h.kc]
    simp only [List.mem_append, List.mem_singleton, or_and_right, exists_or, exists_eq_left]
    split_ifs <;> grind

theorem rounds_done (filtEn : Bool) (l₀ : FiltLoop n) (hnodup : is.Nodup) :
    Done filtEn l₀ is (is.foldl (filtRound filtEn) l₀) := by
  induction is using List.reverseRecOn with
  | nil =>
      exact ⟨fun k hk => absurd hk List.not_mem_nil, fun k _ => ⟨rfl, rfl, rfl, rfl⟩, by simp⟩
  | append_singleton is i ih =>
      rw [List.nodup_append] at hnodup
      have hi : i ∉ is := fun hmem => hnodup.2.2 i hmem i List.mem_cons_self rfl
      rw [List.foldl_append, List.foldl_cons, List.foldl_nil]
      exact (ih hnodup.1).round hi

end loop

/-- **The loop**: every column is filtered, the histories are the raw matrix and the filtered one,
and the result is 1 just when some column of the filtered matrix is a new one. -/
theorem loop_eq {n : Nat} (filtEn : Bool) (s : Filt n) (m : Matrix n) :
    (keyDebounceFilter filtEn s m).mtrxCur = s.filtered filtEn m ∧
      (keyDebounceFilter filtEn s m).stat =
        ⟨m, s.filtered filtEn m, fun i => pressFlag (m i)⟩ ∧
      ((keyDebounceFilter filtEn s m).kc = 1#32 ↔
        ∃ i, s.filtered filtEn m i ≠ s.mtrxLast i) := by
  have h := rounds_done filtEn ⟨m, s, 0#32⟩ (List.nodup_finRange n)
  have hcolumn : ∀ k, Column filtEn s m (keyDebounceFilter filtEn s m) k := fun k =>
    h.new k (List.mem_finRange k)
  refine ⟨funext fun k => (hcolumn k).mtrxCur, ?_, ?_⟩
  · exact Filt.ext (funext fun k => (hcolumn k).mtrxPre) (funext fun k => (hcolumn k).mtrxLast)
      (funext fun k => (hcolumn k).stuckKeyPress)
  · rw [keyDebounceFilter, h.kc]
    simp [List.mem_finRange]

/-- It is the filter of the scanner. -/
theorem scanner_filter {n : Nat} (s : Kb n) (filtEn : Bool) (press : Fin n → U8) (m : Matrix n) :
    let l := keyDebounceFilter filtEn ⟨s.mtrxPre, s.mtrxLast, press⟩ m
    ((s.keyDebounceFilter filtEn m).1 = true ↔ l.kc = 1#32) ∧
      (s.keyDebounceFilter filtEn m).2 =
        { s with mtrxPre := l.stat.mtrxPre, mtrxLast := l.stat.mtrxLast } := by
  obtain ⟨-, hstat, hkc⟩ := loop_eq filtEn ⟨s.mtrxPre, s.mtrxLast, press⟩ m
  refine ⟨?_, ?_⟩
  · rw [hkc, Kb.keyDebounceFilter]
    simp [Kb.filtered, Filt.filtered]
  · rw [hstat]
    rfl

/-! ### A run -/

section run

variable {n : Nat}

/-- A scan, with the filter on. -/
def Filt.scan (s : Filt n) (m : Matrix n) : Filt n := (keyDebounceFilter true s m).stat

/-- What the filter returns for it. -/
def Filt.event (s : Filt n) (m : Matrix n) : U32 := (keyDebounceFilter true s m).kc

/-- The statics after the scans `ms`. -/
def after (ms : List (Matrix n)) : Filt n := runFrom Filt.scan (.zero n) ms

/-- A raw bit of the last of the scans, which is 0 before the first. -/
def rawBit (ms : List (Matrix n)) (i : Fin n) (j : Nat) : Bool :=
  ((ms.getLast?.getD fun _ => 0#32) i).getLsbD j

/-- The filtered bit after the scans. -/
def filtBit (ms : List (Matrix n)) (i : Fin n) (j : Nat) : Bool :=
  ((after ms).mtrxLast i).getLsbD j

theorem after_concat (ms : List (Matrix n)) (m : Matrix n) :
    after (ms ++ [m]) = ⟨m, (after ms).filtered true m, fun i => pressFlag (m i)⟩ := by
  rw [after, runFrom_append, runFrom_cons, runFrom_nil, Filt.scan, (loop_eq true _ m).2.1, after]

theorem after_mtrxPre (ms : List (Matrix n)) :
    (after ms).mtrxPre = ms.getLast?.getD fun _ => 0#32 := by
  rcases List.eq_nil_or_concat ms with rfl | ⟨ms, m, rfl⟩
  · rfl
  · rw [List.concat_eq_append, after_concat, List.getLast?_concat, Option.getD_some]

/-- One bit of the three words. -/
theorem getLsbD_debounce (pre last tmp : U32) (j : Nat) : (debounce true pre last tmp).getLsbD j =
    if tmp.getLsbD j = pre.getLsbD j then tmp.getLsbD j else last.getLsbD j := by
  by_cases hj : j < 32
  · simp only [debounce, if_true, BitVec.getLsbD_or, BitVec.getLsbD_and, BitVec.getLsbD_not, hj,
      decide_true, Bool.true_and]
    cases pre.getLsbD j <;> cases last.getLsbD j <;> cases tmp.getLsbD j <;> rfl
  · have hout : ∀ w : U32, w.getLsbD j = false := fun w =>
      BitVec.getLsbD_of_ge w j (Nat.not_lt.mp hj)
    simp only [hout, if_true]

/-- **One bit, one scan.**  It follows two raw scans that agree, and stays as it is otherwise. -/
theorem filtered_bit (ms : List (Matrix n)) (m : Matrix n) (i : Fin n) (j : Nat) :
    filtBit (ms ++ [m]) i j =
      if (m i).getLsbD j = rawBit ms i j then (m i).getLsbD j else filtBit ms i j := by
  rw [filtBit, after_concat, rawBit, ← after_mtrxPre]
  exact getLsbD_debounce ..

theorem rawBit_concat (ms : List (Matrix n)) (m : Matrix n) (i : Fin n) (j : Nat) :
    rawBit (ms ++ [m]) i j = (m i).getLsbD j := by
  rw [rawBit, List.getLast?_concat, Option.getD_some]

theorem event_iff (ms : List (Matrix n)) (m : Matrix n) : (after ms).event m = 1#32 ↔
    ∃ i, (after (ms ++ [m])).mtrxLast i ≠ (after ms).mtrxLast i := by
  rw [after_concat]
  exact (loop_eq true _ m).2.2

/-- A bit that changes is reported. -/
theorem event_of_bit {ms : List (Matrix n)} {m : Matrix n} {i : Fin n} {j : Nat}
    (h : filtBit (ms ++ [m]) i j ≠ filtBit ms i j) : (after ms).event m = 1#32 :=
  (event_iff ms m).mpr ⟨i, fun heq => h (congrArg (·.getLsbD j) heq)⟩

/-- **The filter over a run.**  After any scans `ms`, and with a scan `m` and a scan `m'` to come: a
bit follows two raw scans that agree and stays as it is otherwise; a change of the filtered matrix
is reported; a raw change that lasts for the scan `m` alone leaves the bit; one that lasts for
`m'` as well sets it, and is reported with `m'` when the bit did not have its value before. -/
theorem debounce_law (ms : List (Matrix n)) (m m' : Matrix n) :
    (∀ i j, filtBit (ms ++ [m]) i j =
        if (m i).getLsbD j = rawBit ms i j then (m i).getLsbD j else filtBit ms i j) ∧
      ((after ms).event m = 1#32 ↔
        ∃ i, (after (ms ++ [m])).mtrxLast i ≠ (after ms).mtrxLast i) ∧
      ∀ i j, (m i).getLsbD j ≠ rawBit ms i j →
        filtBit (ms ++ [m]) i j = filtBit ms i j ∧
        ((m' i).getLsbD j = rawBit ms i j → filtBit (ms ++ [m] ++ [m']) i j = filtBit ms i j) ∧
        ((m' i).getLsbD j = (m i).getLsbD j →
          filtBit (ms ++ [m] ++ [m']) i j = (m i).getLsbD j ∧
            (filtBit ms i j = rawBit ms i j → (after (ms ++ [m])).event m' = 1#32)) := by
  refine ⟨fun i j => filtered_bit ms m i j, event_iff ms m, fun i j hraw => ?_⟩
  have hfirst : filtBit (ms ++ [m]) i j = filtBit ms i j := by
    rw [filtered_bit, if_neg hraw]
  refine ⟨hfirst, fun hback => ?_, fun hlast => ?_⟩
  · have hne : ¬(m' i).getLsbD j = (m i).getLsbD j := fun h => hraw (h.symm.trans hback)
    rw [filtered_bit, rawBit_concat, if_neg hne, hfirst]
  · have hsecond : filtBit (ms ++ [m] ++ [m']) i j = (m i).getLsbD j := by
      rw [filtered_bit, rawBit_concat, if_pos hlast, hlast]
    refine ⟨hsecond, fun hsettled => event_of_bit (i := i) (j := j) ?_⟩
    rw [hsecond, hfirst, hsettled]
    exact hraw

/-- A raw bit that was the same for two scans is the filtered bit. -/
theorem settled (ms : List (Matrix n)) (m : Matrix n) {i : Fin n} {j : Nat}
    (h : (m i).getLsbD j = rawBit ms i j) :
    filtBit (ms ++ [m]) i j = rawBit (ms ++ [m]) i j := by
  rw [filtered_bit, rawBit_concat, if_pos h]

end run

/-- One column with its first key down, or up. -/
def oneKey (down : Bool) : Matrix 1 := fun _ => if down then 1#32 else 0#32

/-- The key bounces for a single scan.  That it is down again, for two scans, is not reported. -/
theorem bounce_not_reported : ¬∀ (ms : List (Matrix 1)) (m m' : Matrix 1) (i : Fin 1) (j : Nat),
    (m i).getLsbD j ≠ rawBit ms i j → (m' i).getLsbD j = (m i).getLsbD j →
      (after ms).event m = 1#32 ∨ (after (ms ++ [m])).event m' = 1#32 := by
  intro h
  have hevent := h [oneKey true, oneKey true, oneKey false] (oneKey true) (oneKey true) 0 0
    (by decide) rfl
  exact absurd hevent (by decide)

end TelinkB91.Keyboard
