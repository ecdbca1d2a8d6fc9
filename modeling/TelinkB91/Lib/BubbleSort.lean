import TelinkB91.Lib.LiveArray
import Mathlib.Data.List.Perm.Basic
import Mathlib.Order.Lattice

/-!
# Library — bubble sort of a live prefix

The two nested loops that sort the first `n` slots of a fixed array by exchanging neighbours.
The test `big a b` need not be an order: it may hold of equal entries both ways, and outside the
entries at hand it may be anything.  All that is asked is that on the live entries it compares
some key.

* `sort_perm`: the live entries are rearranged; none is lost or duplicated.
* `sort_sorted`: they come out in the order of their keys.
-/

namespace BubbleSort
open LiveArray

variable {α : Type*} {cap : Nat}

/-- `if (big (a[j], a[j + 1])) swap (a[j], a[j + 1])`. -/
def exchange (big : α → α → Bool) (v : Vector α cap) (j : Nat) : Vector α cap :=
  if h : j + 1 < cap then
    have hj : j < cap := Nat.lt_of_succ_lt h
    if big v[j] v[j + 1] then v.swap j (j + 1) else v
  else v

/-- `for (j = 0; j < m; j++)`. -/
def pass (big : α → α → Bool) (v : Vector α cap) (m : Nat) : Vector α cap :=
  (List.range m).foldl (exchange big) v

/-- The outer loop after `k` rounds. -/
def passes (big : α → α → Bool) (v : Vector α cap) (n k : Nat) : Vector α cap :=
  (List.range k).foldl (fun v i => pass big v (n - i - 1)) v

/-- `for (i = 0; i < n - 1; i++) for (j = 0; j < n - i - 1; j++)`. -/
def sort (big : α → α → Bool) (v : Vector α cap) (n : Nat) : Vector α cap :=
  passes big v n (n - 1)

variable {big : α → α → Bool}

theorem pass_succ (v : Vector α cap) (m : Nat) :
    pass big v (m + 1) = exchange big (pass big v m) m := by
  rw [pass, List.range_succ, List.foldl_append, List.foldl_cons, List.foldl_nil, pass]

theorem passes_succ (v : Vector α cap) (n k : Nat) :
    passes big v n (k + 1) = pass big (passes big v n k) (n - k - 1) := by
  rw [passes, List.range_succ, List.foldl_append, List.foldl_cons, List.foldl_nil, passes]

/-! ### One exchange -/

/-- An exchange either does nothing or swaps the two neighbours. -/
theorem exchange_cases (big : α → α → Bool) (v : Vector α cap) {j : Nat} (hj : j < cap)
    (h : j + 1 < cap) :
    (big v[j] v[j + 1] = false ∧ exchange big v j = v) ∨
      (big v[j] v[j + 1] = true ∧ exchange big v j = v.swap j (j + 1)) := by
  rw [exchange, dif_pos h]
  cases hb : big v[j] v[j + 1] with
  | false => exact .inl ⟨rfl, if_neg (Bool.not_eq_true _ ▸ hb)⟩
  | true => exact .inr ⟨rfl, if_pos hb⟩

theorem swap_getElem? (v : Vector α cap) {j : Nat} (hj : j < cap) (h : j + 1 < cap) (x : Nat) :
    (v.swap j (j + 1))[x]? =
      if x = j then v[j + 1]? else if x = j + 1 then v[j]? else v[x]? := by
  rw [Vector.getElem?_swap]
  grind

theorem swap_perm (v : Vector α cap) {j n : Nat} (hj : j + 1 < n) (hn : n ≤ cap) :
    (live (v.swap j (j + 1)) n).Perm (live v n) := by
  have h₁ : j + 1 < (v.toList.take n).length := by simp; omega
  have hswap : live (v.swap j (j + 1)) n =
      ((v.toList.take n).set j (v.toList.take n)[j + 1]).set (j + 1) (v.toList.take n)[j] := by
    rw [live, Vector.toList_swap, List.take_set, List.take_set]
    simp
  rw [hswap]
  exact List.set_set_perm (by omega) h₁

theorem exchange_perm (v : Vector α cap) {j n : Nat} (hj : j + 1 < n) (hn : n ≤ cap) :
    (live (exchange big v j) n).Perm (live v n) := by
  rcases exchange_cases big v (by omega : j < cap) (by omega) with ⟨-, h⟩ | ⟨-, h⟩
  · rw [h]
  · rw [h]; exact swap_perm v hj hn

/-- Slots an exchange does not compare keep their entries. -/
theorem exchange_frame (v : Vector α cap) {j x : Nat} (h₀ : x ≠ j) (h₁ : x ≠ j + 1) :
    (exchange big v j)[x]? = v[x]? := by
  by_cases h : j + 1 < cap
  · rcases exchange_cases big v (Nat.lt_of_succ_lt h) h with ⟨-, h'⟩ | ⟨-, h'⟩
    · rw [h']
    · rw [h', swap_getElem? v _ h, if_neg h₀, if_neg h₁]
  · rw [exchange, dif_neg h]

/-- The entry an exchange leaves at one of the two slots came from one of the two. -/
theorem exchange_source (big : α → α → Bool) (v : Vector α cap) {j x : Nat} (h : j + 1 < cap)
    (hx : x = j ∨ x = j + 1) :
    (exchange big v j)[x]? = v[j]? ∨ (exchange big v j)[x]? = v[j + 1]? := by
  rcases exchange_cases big v (Nat.lt_of_succ_lt h) h with ⟨-, h'⟩ | ⟨-, h'⟩
  · rw [h']
    rcases hx with rfl | rfl
    · exact .inl rfl
    · exact .inr rfl
  · rw [h', swap_getElem? v _ h]
    rcases hx with rfl | rfl
    · exact .inr (by simp)
    · exact .inl (by simp)

/-! ### One pass -/

theorem pass_perm (v : Vector α cap) {m n : Nat} (hm : m < n) (hn : n ≤ cap) :
    (live (pass big v m) n).Perm (live v n) := by
  induction m with
  | zero => exact .refl _
  | succ m ih =>
      rw [pass_succ]
      exact (exchange_perm _ hm hn).trans (ih (by omega))

/-- Slots past the pass keep their entries. -/
theorem pass_frame (v : Vector α cap) {m x : Nat} (hx : m < x) :
    (pass big v m)[x]? = v[x]? := by
  induction m with
  | zero => rfl
  | succ m ih =>
      rw [pass_succ, exchange_frame _ (by omega) (by omega)]
      exact ih (by omega)

/-- A slot the pass has been over holds an entry of one of the slots it has been over. -/
theorem pass_source (big : α → α → Bool) (v : Vector α cap) {m x : Nat} (hm : m < cap)
    (hx : x ≤ m) : ∃ y ≤ m, (pass big v m)[x]? = v[y]? := by
  induction m generalizing x with
  | zero => exact ⟨x, hx, rfl⟩
  | succ m ih =>
      have older : ∀ {x}, x ≤ m → ∃ y ≤ m + 1, (pass big v m)[x]? = v[y]? := fun {x} hx => by
        obtain ⟨y, hy, h⟩ := ih (by omega) hx
        exact ⟨y, by omega, h⟩
      rw [pass_succ]
      by_cases hlt : x < m
      · rw [exchange_frame _ (by omega) (by omega)]
        exact older (by omega)
      · rcases exchange_source big (pass big v m) hm (by omega : x = m ∨ x = m + 1)
          with h | h
        · rw [h]; exact older m.le_refl
        · rw [h]; exact ⟨m + 1, Nat.le_refl _, pass_frame v (by omega)⟩

/-! ### The order -/

variable {κ : Type*} [LinearOrder κ] {p : α → Prop} {key : α → κ}

/-- The entries at `x` and `y` are in order. -/
def InOrder (key : α → κ) (v : Vector α cap) (x y : Nat) : Prop :=
  ∀ a b, v[x]? = some a → v[y]? = some b → key a ≤ key b

/-- `big` compares keys on the entries that satisfy `p`. -/
def Compares (big : α → α → Bool) (p : α → Prop) (key : α → κ) : Prop :=
  ∀ a b, p a → p b → (big a b = true ↔ key b ≤ key a)

/-- The `n` first slots hold entries that satisfy `p`. -/
def All (p : α → Prop) (v : Vector α cap) (n : Nat) : Prop := ∀ a ∈ live v n, p a

theorem All.perm {v v' : Vector α cap} {n : Nat} (h : All p v n)
    (hv : (live v' n).Perm (live v n)) : All p v' n := fun a ha => h a (hv.mem_iff.mp ha)

theorem All.at {v : Vector α cap} {n x : Nat} {a : α} (h : All p v n) (hx : x < n)
    (ha : v[x]? = some a) : p a := by
  refine h a (List.mem_iff_getElem?.mpr ⟨x, ?_⟩)
  rw [live_getElem?, if_pos hx, ha]

/-- After the exchange at `j` slot `j + 1` holds the larger of the two. -/
theorem exchange_max (hbig : Compares big p key) {v : Vector α cap} {j n : Nat} (hj : j + 1 < n)
    (hn : n ≤ cap) (hv : All p v n) {b : α} (hb : (exchange big v j)[j + 1]? = some b) :
    (∀ a, v[j]? = some a → key a ≤ key b) ∧ ∀ a, v[j + 1]? = some a → key a ≤ key b := by
  have hc : j + 1 < cap := by omega
  have h₀ : v[j]? = some v[j] := Vector.getElem?_eq_getElem _
  have h₁ : v[j + 1]? = some v[j + 1] := Vector.getElem?_eq_getElem _
  have hiff := hbig v[j] v[j + 1] (hv.at (by omega) h₀) (hv.at hj h₁)
  rw [h₀, h₁]
  rcases exchange_cases big v (Nat.lt_of_succ_lt hc) hc with ⟨hf, h'⟩ | ⟨ht, h'⟩
  · rw [h', h₁] at hb
    obtain rfl := Option.some.inj hb
    rw [hf] at hiff
    refine ⟨fun a ha => ?_, fun a ha => ?_⟩
    · obtain rfl := Option.some.inj ha
      simp only [Bool.false_eq_true, false_iff, not_le] at hiff
      exact hiff.le
    · exact (congrArg key (Option.some.inj ha)).ge
  · rw [h', swap_getElem? v _ hc, if_neg (by omega), if_pos rfl, h₀] at hb
    obtain rfl := Option.some.inj hb
    refine ⟨fun a ha => ?_, fun a ha => ?_⟩
    · exact (congrArg key (Option.some.inj ha)).ge
    · obtain rfl := Option.some.inj ha
      exact hiff.mp ht

/-- **The running maximum.**  After a pass of length `m` slot `m` dominates every slot before
it. -/
theorem pass_max (hbig : Compares big p key) {v : Vector α cap} {m n : Nat} (hm : m < n)
    (hn : n ≤ cap) (hv : All p v n) {x : Nat} (hx : x ≤ m) : InOrder key (pass big v m) x m := by
  induction m generalizing x with
  | zero =>
      intro a b ha hb
      obtain rfl : x = 0 := by omega
      rw [ha] at hb
      exact (congrArg key (Option.some.inj hb)).le
  | succ m ih =>
      intro a b ha hb
      rw [pass_succ] at ha hb
      obtain ⟨hmax₀, hmax₁⟩ :=
        exchange_max hbig hm hn (hv.perm (pass_perm v (by omega) hn)) hb
      by_cases hlt : x < m
      · -- below the exchange: dominated by the old maximum, which is one of the two compared
        rw [exchange_frame _ (by omega) (by omega)] at ha
        have hc : m < cap := by omega
        have htop : (pass big v m)[m]? = some (pass big v m)[m] := Vector.getElem?_eq_getElem _
        exact (ih (by omega) (by omega) a _ ha htop).trans (hmax₀ _ htop)
      · rcases exchange_source big (pass big v m) (by omega) (by omega : x = m ∨ x = m + 1)
          with h | h
        · exact hmax₀ a (h ▸ ha)
        · exact hmax₁ a (h ▸ ha)

theorem passes_perm (v : Vector α cap) {n k : Nat} (hk : k < n) (hn : n ≤ cap) :
    (live (passes big v n k) n).Perm (live v n) := by
  induction k with
  | zero => exact .refl _
  | succ k ih =>
      rw [passes_succ]
      exact (pass_perm _ (by omega) hn).trans (ih (by omega))

/-- The outer loop's invariant: the last `k` live slots dominate every slot before them. -/
theorem passes_settled (hbig : Compares big p key) {v : Vector α cap} {n k : Nat} (hk : k < n)
    (hn : n ≤ cap) (hv : All p v n) {x y : Nat} (hxy : x ≤ y) (hy : n - k ≤ y) (hyn : y < n) :
    InOrder key (passes big v n k) x y := by
  induction k generalizing x y with
  | zero => omega
  | succ k ih =>
      have hall : All p (passes big v n k) n := hv.perm (passes_perm v (by omega) hn)
      rw [passes_succ]
      by_cases hy' : y = n - k - 1
      · subst hy'
        exact pass_max hbig (by omega) hn hall hxy
      · intro a b ha hb
        rw [pass_frame _ (by omega)] at hb
        by_cases hx : n - k - 1 < x
        · rw [pass_frame _ hx] at ha
          exact ih (by omega) hxy (by omega) hyn a b ha hb
        · obtain ⟨z, hz, h⟩ := pass_source big (passes big v n k)
            (by omega : n - k - 1 < cap) (by omega : x ≤ n - k - 1)
          exact ih (by omega) (by omega : z ≤ y) (by omega) hyn a b (h ▸ ha) hb

/-- **Conservation.**  Sorting rearranges the live entries. -/
theorem sort_perm (v : Vector α cap) {n : Nat} (hn : n ≤ cap) :
    (live (sort big v n) n).Perm (live v n) := by
  rcases Nat.eq_zero_or_pos n with rfl | hpos
  · exact .refl _
  · exact passes_perm v (by omega) hn

/-- **Order.**  Where `big` compares keys on the live entries, they come out sorted by key. -/
theorem sort_sorted (hbig : Compares big p key) {v : Vector α cap} {n : Nat} (hn : n ≤ cap)
    (hv : All p v n) : (live (sort big v n) n).Pairwise fun a b => key a ≤ key b := by
  refine List.pairwise_iff_getElem.mpr ?_
  intro x y hx hy hxy
  rw [length_live hn] at hx hy
  have hlive : ∀ {z} (hz : z < n), (sort big v n)[z]? =
      some ((live (sort big v n) n).get ⟨z, by rw [length_live hn]; exact hz⟩) := fun {z} hz => by
    rw [List.get_eq_getElem, ← List.getElem?_eq_getElem, live_getElem?, if_pos hz]
  exact passes_settled hbig (by omega) hn hv (Nat.le_of_lt hxy) (by omega) hy _ _ (hlive hx)
    (hlive hy)

end BubbleSort
