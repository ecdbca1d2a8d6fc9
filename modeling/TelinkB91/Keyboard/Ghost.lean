import Mathlib.Logic.Equiv.Defs
import TelinkB91.Keyboard.Matrix
import TelinkB91.Lib.WordBits

/-!
# Keyboard — ghost keys

Three keys at the corners of a rectangle of the matrix make the fourth look pressed.
`kb_rmv_ghost_key` clears the rows that two columns share, unless they share a single one and have
no other.  It walks the columns and collects the rows in `mix_final`, and clears a column with what
it has collected by then, before it looks at the pairs of the columns behind.

* `Ghost.third`: rows found later are found already with an earlier column that has them.
* `ghosts_removed`: so every column loses the rows of all the pairs, whatever the order of the
  columns, and two columns share no row after it but one that is all they have.
-/

namespace TelinkB91.Keyboard
open WordBits

variable {n : Nat} {m : Matrix n}

/-- Two columns share some rows, and not just one that is all they have. -/
def Ghost (m : Matrix n) (p q : Fin n) : Prop :=
  m p &&& m q ≠ 0#32 ∧ (ManyBits (m p &&& m q) ∨ m p ≠ m q)

instance (m : Matrix n) (p q : Fin n) : Decidable (Ghost m p q) :=
  inferInstanceAs (Decidable (_ ∧ (_ ∨ _)))

/-- The pairs of columns. -/
def columnPairs (n : Nat) : List (Fin n × Fin n) :=
  (List.finRange n).flatMap fun p => (List.finRange n).map fun q => (p, q)

/-- The rows that any two columns share as ghosts. -/
def ghostRows (m : Matrix n) : U32 :=
  union (((columnPairs n).filter fun c => c.1 ≠ c.2 ∧ Ghost m c.1 c.2).map fun c =>
    m c.1 &&& m c.2)

/-! ### Pairs and triples of columns -/

theorem getLsbD_ghostRows (m : Matrix n) (j : Nat) : (ghostRows m).getLsbD j = true ↔
    ∃ p q, p ≠ q ∧ Ghost m p q ∧ (m p).getLsbD j = true ∧ (m q).getLsbD j = true := by
  simp [ghostRows, getLsbD_union, columnPairs, and_assoc]

theorem Ghost.symm {p q : Fin n} (h : Ghost m p q) : Ghost m q p := by
  rw [Ghost, BitVec.and_comm]
  exact ⟨h.1, h.2.imp id Ne.symm⟩

/-- Two columns that share a row and are no ghosts are that row. -/
theorem eq_of_not_ghost {p q : Fin n} {j : Nat} (hp : (m p).getLsbD j = true)
    (hq : (m q).getLsbD j = true) (h : ¬Ghost m p q) : m p = m q ∧ ¬ManyBits (m p &&& m q) := by
  have hne : m p &&& m q ≠ 0#32 := by
    intro hzero
    have hbit := congrArg (·.getLsbD j) hzero
    simp [hp, hq] at hbit
  have hnot : ¬(ManyBits (m p &&& m q) ∨ m p ≠ m q) := fun hor => h ⟨hne, hor⟩
  rw [not_or, not_ne_iff] at hnot
  exact ⟨hnot.2, hnot.1⟩

/-- **Three columns with one row.**  Where two of them are ghosts, one of the two is one with the
third. -/
theorem Ghost.third {i p q : Fin n} {j : Nat} (h : Ghost m p q) (hi : (m i).getLsbD j = true)
    (hp : (m p).getLsbD j = true) (hq : (m q).getLsbD j = true) : Ghost m i p ∨ Ghost m i q := by
  by_contra hno
  rw [not_or] at hno
  obtain ⟨hip, hfew⟩ := eq_of_not_ghost hi hp hno.1
  obtain ⟨hiq, -⟩ := eq_of_not_ghost hi hq hno.2
  rw [hip] at hfew hiq
  rcases h.2 with hmany | hne
  · rw [← hiq] at hmany
    exact hfew hmany
  · exact hne hiq

/-! ### The walk -/

/-- One pair adds its rows when it is one of ghosts. -/
theorem getLsbD_mixPair (m : Matrix n) (i : Fin n) (mixFinal : U32) (q : Fin n) (j : Nat) :
    (mixPair m i mixFinal q).getLsbD j = true ↔ mixFinal.getLsbD j = true ∨
      (Ghost m i q ∧ (m i).getLsbD j = true ∧ (m q).getLsbD j = true) := by
  have hghost : (m i &&& m q ≠ 0#32 ∧ (¬bitIsPow2 (m i &&& m q) ∨ m i ^^^ m q ≠ 0#32)) ↔
      Ghost m i q := by
    refine and_congr_right fun hne => or_congr ?_ ?_
    · rw [bitIsPow2, beq_iff_eq, and_pred_eq_zero_iff hne, not_not]
    · rw [ne_eq, BitVec.xor_eq_zero_iff]
  rw [mixPair]
  split_ifs with h
  · rw [hghost] at h
    simp [h]
  · rw [hghost] at h
    simp [h]

theorem getLsbD_mixPairs (m : Matrix n) (i : Fin n) (qs : List (Fin n)) (mixFinal : U32)
    (j : Nat) : (qs.foldl (mixPair m i) mixFinal).getLsbD j = true ↔ mixFinal.getLsbD j = true ∨
      ∃ q ∈ qs, Ghost m i q ∧ (m i).getLsbD j = true ∧ (m q).getLsbD j = true := by
  induction qs generalizing mixFinal with
  | nil => simp
  | cons q qs ih =>
      rw [List.foldl_cons, ih, getLsbD_mixPair]
      simp [or_assoc]

/-- The pair of `p` and a column behind it has the row `j`. -/
def Found (m : Matrix n) (p : Fin n) (j : Nat) : Prop :=
  ∃ q, p < q ∧ Ghost m p q ∧ (m p).getLsbD j = true ∧ (m q).getLsbD j = true

/-- The columns `is` are done. -/
structure Walked (m : Matrix n) (is : List (Fin n)) (t : Matrix n × U32) : Prop where
  done : ∀ k ∈ is, t.1 k = m k &&& ~~~ghostRows m
  left : ∀ k ∉ is, t.1 k = m k
  mix : ∀ j, t.2.getLsbD j = true ↔ ∃ p ∈ is, Found m p j

/-- What is found up to the column `i` is all that column `i` has to lose. -/
theorem found_iff {i : Fin n} {j : Nat} (hi : (m i).getLsbD j = true) :
    (∃ p ≤ i, Found m p j) ↔ (ghostRows m).getLsbD j = true := by
  rw [getLsbD_ghostRows]
  constructor
  · rintro ⟨p, -, q, hpq, hfound⟩
    exact ⟨p, q, ne_of_lt hpq, hfound⟩
  · rintro ⟨p, q, hne, hghost, hp, hq⟩
    have hfound : ∀ p q, p < q → Ghost m p q → (m p).getLsbD j = true → (m q).getLsbD j = true →
        ∃ p ≤ i, Found m p j := by
      intro p q hpq hghost hp hq
      by_cases hpi : p ≤ i
      · exact ⟨p, hpi, q, hpq, hghost, hp, hq⟩
      -- a pair behind column `i` is one of ghosts with `i`, which comes first
      · have hip : i < p := not_le.mp hpi
        rcases hghost.third hi hp hq with hip' | hiq'
        · exact ⟨i, le_rfl, p, hip, hip', hi, hp⟩
        · exact ⟨i, le_rfl, q, hip.trans hpq, hiq', hi, hq⟩
    rcases lt_or_gt_of_ne hne with hpq | hqp
    · exact hfound p q hpq hghost hp hq
    · exact hfound q p hqp hghost.symm hq hp

/-- What one column finds, when it and those behind it are as they were. -/
theorem getLsbD_rmvColumn {t : Matrix n × U32} {i : Fin n} (hsame : ∀ k, i ≤ k → t.1 k = m k)
    (j : Nat) :
    (rmvColumn t i).2.getLsbD j = true ↔ t.2.getLsbD j = true ∨ Found m i j := by
  have hfound : (∃ q ∈ (List.finRange n).filter (i < ·), Ghost t.1 i q ∧
      (t.1 i).getLsbD j = true ∧ (t.1 q).getLsbD j = true) ↔ Found m i j := by
    refine exists_congr fun q => ?_
    rw [List.mem_filter, decide_eq_true_eq, and_iff_right (List.mem_finRange q)]
    refine and_congr_right fun hiq => ?_
    rw [Ghost, Ghost, hsame i le_rfl, hsame q (le_of_lt hiq)]
  rw [rmvColumn, getLsbD_mixPairs, hfound]

/-- **One column.** -/
theorem Walked.column {is : List (Fin n)} {t : Matrix n × U32} {i : Fin n} (h : Walked m is t)
    (hbefore : ∀ k, k ∈ is ↔ k < i) : Walked m (is ++ [i]) (rmvColumn t i) := by
  have hsame : ∀ k, i ≤ k → t.1 k = m k := fun k hk =>
    h.left k fun hmem => absurd ((hbefore k).mp hmem) (not_lt.mpr hk)
  have hle : ∀ k, k ∈ is ++ [i] ↔ k ≤ i := by
    intro k
    rw [List.mem_append, List.mem_singleton, hbefore, le_iff_lt_or_eq]
  have hmix : ∀ j, (rmvColumn t i).2.getLsbD j = true ↔ ∃ p ∈ is ++ [i], Found m p j := by
    intro j
    rw [getLsbD_rmvColumn hsame, h.mix]
    simp [or_and_right, exists_or]
  refine ⟨fun k hk => ?_, fun k hk => ?_, hmix⟩
  · by_cases hki : k = i
    · subst hki
      have hself : (rmvColumn t k).1 k = m k &&& ~~~(rmvColumn t k).2 := by
        rw [← hsame k le_rfl]
        exact Function.update_self ..
      rw [hself]
      refine BitVec.eq_of_getLsbD_eq fun j hj => ?_
      rw [BitVec.getLsbD_and, BitVec.getLsbD_and, BitVec.getLsbD_not, BitVec.getLsbD_not]
      cases hrow : (m k).getLsbD j with
      | false => rfl
      | true =>
          have hiff := found_iff hrow
          simp only [← hle, ← hmix] at hiff
          rw [Bool.eq_iff_iff.mpr hiff]
    · have hmem : k ∈ is := (List.mem_append.mp hk).resolve_right fun h =>
        hki (List.mem_singleton.mp h)
      rw [← h.done k hmem]
      exact Function.update_of_ne hki ..
  · rw [List.mem_append, List.mem_singleton, not_or] at hk
    rw [← h.left k hk.1]
    exact Function.update_of_ne hk.2 ..

theorem walked_columns {is js : List (Fin n)} {t : Matrix n × U32} (h : Walked m is t)
    (hcols : is ++ js = List.finRange n) :
    Walked m (List.finRange n) (js.foldl rmvColumn t) := by
  induction js generalizing is t with
  | nil =>
      rw [List.append_nil] at hcols
      exact hcols ▸ h
  | cons i js ih =>
      have hsorted := List.pairwise_lt_finRange n
      rw [← hcols, List.pairwise_append, List.pairwise_cons] at hsorted
      obtain ⟨-, ⟨hbehind, -⟩, hfront⟩ := hsorted
      have hbefore : ∀ k, k ∈ is ↔ k < i := by
        intro k
        refine ⟨fun hk => hfront k hk i List.mem_cons_self, fun hk => ?_⟩
        have hmem : k ∈ is ++ i :: js := hcols ▸ List.mem_finRange k
        rcases List.mem_append.mp hmem with his | hjs
        · exact his
        · rcases List.mem_cons.mp hjs with rfl | hjs
          · exact absurd hk (lt_irrefl k)
          · exact absurd (hbehind k hjs) (lt_asymm hk)
      refine ih (h.column hbefore) ?_
      rw [List.append_assoc]
      exact hcols

/-- Every column loses the ghosts of all the pairs. -/
theorem kbRmvGhostKey_eq (m : Matrix n) :
    kbRmvGhostKey m = fun k => m k &&& ~~~ghostRows m := by
  have hstart : Walked m [] (m, 0#32) := by
    refine ⟨fun k hk => absurd hk List.not_mem_nil, fun k _ => rfl, fun j => ?_⟩
    simp
  have h := walked_columns hstart (List.nil_append _)
  exact funext fun k => h.done k (List.mem_finRange k)

/-! ### The order of the columns -/

theorem ghostRows_comp (m : Matrix n) (σ : Equiv.Perm (Fin n)) :
    ghostRows (fun k => m (σ k)) = ghostRows m := by
  refine BitVec.eq_of_getLsbD_eq fun j _ => Bool.eq_iff_iff.mpr ?_
  rw [getLsbD_ghostRows, getLsbD_ghostRows]
  constructor
  · rintro ⟨p, q, hne, hghost⟩
    exact ⟨σ p, σ q, σ.injective.ne hne, hghost⟩
  · rintro ⟨p, q, hne, hghost⟩
    refine ⟨σ.symm p, σ.symm q, σ.symm.injective.ne hne, ?_⟩
    simpa [Ghost] using hghost

/-- **Ghost keys.**  Every column loses the rows that any two columns share as ghosts.  A matrix
with its columns in another order loses the same, and two columns that share a row after it are both
that row. -/
theorem ghosts_removed (m : Matrix n) :
    (kbRmvGhostKey m = fun k => m k &&& ~~~ghostRows m) ∧
      (∀ σ : Equiv.Perm (Fin n),
        kbRmvGhostKey (fun k => m (σ k)) = fun k => kbRmvGhostKey m (σ k)) ∧
      ∀ p q j, p ≠ q → (kbRmvGhostKey m p).getLsbD j = true →
        (kbRmvGhostKey m q).getLsbD j = true →
          kbRmvGhostKey m p = BitVec.twoPow 32 j ∧ kbRmvGhostKey m q = BitVec.twoPow 32 j := by
  refine ⟨kbRmvGhostKey_eq m, fun σ => ?_, fun p q j hne hp hq => ?_⟩
  · rw [kbRmvGhostKey_eq, kbRmvGhostKey_eq, ghostRows_comp]
  · have hbit : ∀ k, (kbRmvGhostKey m k).getLsbD j = true →
        (m k).getLsbD j = true ∧ (ghostRows m).getLsbD j = false := by
      intro k hk
      rw [kbRmvGhostKey_eq, BitVec.getLsbD_and, BitVec.getLsbD_not] at hk
      simp only [Bool.and_eq_true, Bool.not_eq_true'] at hk
      exact ⟨hk.1, hk.2.2⟩
    obtain ⟨hp', hkept⟩ := hbit p hp
    obtain ⟨hq', -⟩ := hbit q hq
    have hnot : ¬Ghost m p q := by
      intro hghost
      rw [(getLsbD_ghostRows m j).mpr ⟨p, q, hne, hghost, hp', hq'⟩] at hkept
      cases hkept
    obtain ⟨heq, hfew⟩ := eq_of_not_ghost hp' hq' hnot
    rw [heq, BitVec.and_self] at hfew
    -- a column that is one row keeps that row
    have hone : ∀ k, m k = m q → kbRmvGhostKey m k = BitVec.twoPow 32 j := by
      intro k hk
      have hrow := eq_twoPow hq' hfew
      refine BitVec.eq_of_getLsbD_eq fun i hi => ?_
      rw [kbRmvGhostKey_eq, BitVec.getLsbD_and, BitVec.getLsbD_not, hk, hrow,
        BitVec.getLsbD_twoPow]
      by_cases hij : j = i
      · subst hij
        rw [hkept]
        simp [hi]
      · simp [hij]
    exact ⟨hone p heq, hone q rfl⟩

end TelinkB91.Keyboard
