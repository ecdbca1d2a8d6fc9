import Mathlib.Data.List.Basic
import Mathlib.Data.List.Pairwise
import Mathlib.Tactic.Common

/-!
# Library — sets of numbers as lists of intervals

A block is an interval `[addr, addr + size)`.  A list of blocks is *separated* when no block is
empty and each ends strictly before the next one starts: the list is in order, its blocks are
disjoint and no two of them touch.  Such a list is the only one with the numbers it covers.

`place b L` puts a block into a separated list and joins it with the blocks it touches; `firstFit`
takes a block of a given size from the first one that is large enough.

* `covers_place`, `Separated.place`: placing a block adds its numbers and keeps the list separated.
* `within_block`: an interval of covered numbers lies in one block.
* `firstFit_spec`: the block that is taken, which is at the lowest address where an interval of its
  size is covered, and what is left.
* `firstFit_eq_none_iff`: none is taken just when no interval of this size is covered.
* `Separated.eq_singleton`: a list that covers an interval is that interval.
-/

namespace Intervals

/-- The interval `[addr, addr + size)`. -/
structure Block where
  addr : Nat
  size : Nat
  deriving DecidableEq, Repr

/-- The first number behind the block. -/
def Block.fin (b : Block) : Nat := b.addr + b.size

/-- `x` is in the block. -/
def Block.Has (b : Block) (x : Nat) : Prop := b.addr ≤ x ∧ x < b.fin

instance (b : Block) (x : Nat) : Decidable (b.Has x) :=
  inferInstanceAs (Decidable (_ ∧ _))

/-- Blocks without a number in common are one behind the other. -/
theorem Block.apart_of_disjoint {b c : Block} (hb : 0 < b.size) (hc : 0 < c.size)
    (h : ∀ x, b.Has x → ¬c.Has x) : b.fin ≤ c.addr ∨ c.fin ≤ b.addr := by
  have hbc := h b.addr
  have hcb := h c.addr
  simp only [Block.Has, Block.fin] at *
  omega

/-- `x` is in one of the blocks. -/
def Covers (L : List Block) (x : Nat) : Prop := ∃ b ∈ L, b.Has x

@[simp] theorem covers_nil (x : Nat) : ¬Covers [] x := fun ⟨_, h, _⟩ => List.not_mem_nil h

@[simp] theorem covers_cons {b : Block} {L : List Block} {x : Nat} :
    Covers (b :: L) x ↔ b.Has x ∨ Covers L x := by
  simp [Covers]

theorem covers_append {L M : List Block} {x : Nat} :
    Covers (L ++ M) x ↔ Covers L x ∨ Covers M x := by
  simp [Covers, or_and_right, exists_or]

/-- How many numbers the blocks have, one block after the other. -/
def total : List Block → Nat
  | [] => 0
  | b :: L => b.size + total L

@[simp] theorem total_nil : total [] = 0 := rfl

@[simp] theorem total_cons (b : Block) (L : List Block) : total (b :: L) = b.size + total L := rfl

theorem total_singleton (b : Block) : total [b] = b.size := rfl

theorem total_append (L M : List Block) : total (L ++ M) = total L + total M := by
  induction L with
  | nil => simp
  | cons b L ih => rw [List.cons_append, total_cons, total_cons, ih, Nat.add_assoc]

theorem size_le_total {b : Block} {L : List Block} (h : b ∈ L) : b.size ≤ total L := by
  induction L with
  | nil => exact absurd h List.not_mem_nil
  | cons c L ih =>
      rw [total_cons]
      rcases List.mem_cons.mp h with rfl | h
      · exact Nat.le_add_right _ _
      · exact Nat.le_add_left_of_le (ih h)

/-- No block is empty, and each ends before the next one starts. -/
structure Separated (L : List Block) : Prop where
  before : L.Pairwise fun b c => b.fin < c.addr
  pos : ∀ b ∈ L, 0 < b.size

@[simp] theorem separated_nil : Separated [] := ⟨.nil, fun _ h => absurd h List.not_mem_nil⟩

theorem separated_cons {b : Block} {L : List Block} :
    Separated (b :: L) ↔ 0 < b.size ∧ (∀ c ∈ L, b.fin < c.addr) ∧ Separated L := by
  constructor
  · intro h
    obtain ⟨hbefore, htail⟩ := List.pairwise_cons.mp h.before
    exact ⟨h.pos b List.mem_cons_self, hbefore,
      ⟨htail, fun c hc => h.pos c (List.mem_cons_of_mem b hc)⟩⟩
  · rintro ⟨hpos, hbefore, h⟩
    refine ⟨List.pairwise_cons.mpr ⟨hbefore, h.before⟩, fun c hc => ?_⟩
    rcases List.mem_cons.mp hc with rfl | hc
    · exact hpos
    · exact h.pos c hc

theorem separated_append {L M : List Block} :
    Separated (L ++ M) ↔ Separated L ∧ Separated M ∧ ∀ b ∈ L, ∀ c ∈ M, b.fin < c.addr := by
  induction L with
  | nil => simp
  | cons a L ih =>
      rw [List.cons_append, separated_cons, ih, separated_cons]
      simp only [List.mem_append, List.mem_cons, or_imp, forall_and, forall_eq]
      tauto

/-- Two blocks of a separated list are the same or do not touch. -/
theorem Separated.apart {L : List Block} (h : Separated L) {b c : Block} (hb : b ∈ L)
    (hc : c ∈ L) : b = c ∨ b.fin < c.addr ∨ c.fin < b.addr := by
  induction L with
  | nil => exact absurd hb List.not_mem_nil
  | cons a L ih =>
      obtain ⟨-, hbefore, htail⟩ := separated_cons.mp h
      rcases List.mem_cons.mp hb with rfl | hbL
      · rcases List.mem_cons.mp hc with rfl | hcL
        · exact .inl rfl
        · exact .inr (.inl (hbefore c hcL))
      · rcases List.mem_cons.mp hc with rfl | hcL
        · exact .inr (.inr (hbefore b hbL))
        · exact ih htail hbL hcL

/-- **One block.**  An interval of covered numbers lies in one of the blocks. -/
theorem within_block {L : List Block} (h : Separated L) {a n : Nat} (hn : 0 < n)
    (hcov : ∀ x, a ≤ x → x < a + n → Covers L x) : ∃ b ∈ L, b.addr ≤ a ∧ a + n ≤ b.fin := by
  obtain ⟨b, hb, hle, hlt⟩ := hcov a (Nat.le_refl a) (by omega)
  refine ⟨b, hb, hle, ?_⟩
  by_contra hout
  -- The number behind `b` is covered, by a block that touches it.
  obtain ⟨c, hc, hcle, hclt⟩ := hcov b.fin (Nat.le_of_lt hlt) (by omega)
  rcases h.apart hb hc with rfl | hbc | hcb
  · exact absurd hclt (Nat.lt_irrefl _)
  · omega
  · have := h.pos c hc
    simp only [Block.fin] at *
    omega

/-- A separated list that covers an interval is one block. -/
theorem Separated.eq_singleton {L : List Block} (h : Separated L) {a n : Nat} (hn : 0 < n)
    (hcov : ∀ x, Covers L x ↔ a ≤ x ∧ x < a + n) : L = [⟨a, n⟩] := by
  obtain ⟨b, hb, hle, hfin⟩ := within_block h hn fun x h₁ h₂ => (hcov x).mpr ⟨h₁, h₂⟩
  have hpos := h.pos b hb
  have hlow := (hcov b.addr).mp ⟨b, hb, Nat.le_refl _, by simp only [Block.fin]; omega⟩
  have hhigh := (hcov (b.fin - 1)).mp
    ⟨b, hb, by simp only [Block.fin]; omega, by simp only [Block.fin]; omega⟩
  have hbeq : b = ⟨a, n⟩ := by
    obtain ⟨addr, size⟩ := b
    simp only [Block.fin, Block.mk.injEq] at *
    omega
  -- Another block would have its first number in the interval, so in `b`.
  have hall : ∀ c ∈ L, c = b := by
    intro c hc
    have hcpos := h.pos c hc
    have hcin := (hcov c.addr).mp ⟨c, hc, Nat.le_refl _, by simp only [Block.fin]; omega⟩
    rcases h.apart hb hc with heq | hlt | hlt
    · exact heq.symm
    · simp only [Block.fin] at *
      omega
    · simp only [Block.fin] at *
      omega
  match L, h, hb, hall with
  | [c], _, _, hall => rw [hall c List.mem_cons_self, hbeq]
  | c :: d :: L, h, _, hall =>
      have hlt := (separated_cons.mp h).2.1 d List.mem_cons_self
      rw [hall c List.mem_cons_self, hall d (by simp)] at hlt
      simp only [Block.fin] at hlt
      omega

/-! ## Placing a block -/

/-- `b` in front of the list, joined with the first block if they touch. -/
def join (b : Block) : List Block → List Block
  | [] => [b]
  | c :: L => if b.fin = c.addr then ⟨b.addr, b.size + c.size⟩ :: L else b :: c :: L

/-- `b` at its place in the list, joined with the blocks it touches. -/
def place (b : Block) : List Block → List Block
  | [] => [b]
  | a :: L =>
      if a.addr < b.addr then
        if a.fin = b.addr then join ⟨a.addr, a.size + b.size⟩ L else a :: place b L
      else join b (a :: L)

theorem has_joined {b c : Block} (h : b.fin = c.addr) (x : Nat) :
    Block.Has ⟨b.addr, b.size + c.size⟩ x ↔ b.Has x ∨ c.Has x := by
  simp only [Block.Has, Block.fin] at *
  omega

theorem covers_join (b : Block) (L : List Block) (x : Nat) :
    Covers (join b L) x ↔ b.Has x ∨ Covers L x := by
  match L with
  | [] => simp [join]
  | c :: L =>
      rw [join]
      split_ifs with h
      · rw [covers_cons, covers_cons, has_joined h, or_assoc]
      · rw [covers_cons]

/-- **Placing** adds the numbers of the block. -/
theorem covers_place (b : Block) (L : List Block) (x : Nat) :
    Covers (place b L) x ↔ b.Has x ∨ Covers L x := by
  induction L with
  | nil => simp [place]
  | cons a L ih =>
      rw [place]
      split_ifs with hlt htouch
      · rw [covers_join, has_joined htouch, covers_cons]
        tauto
      · rw [covers_cons, ih, covers_cons]
        tauto
      · rw [covers_join]

theorem total_join (b : Block) (L : List Block) : total (join b L) = b.size + total L := by
  match L with
  | [] => rfl
  | c :: L =>
      rw [join]
      split_ifs
      · rw [total_cons, total_cons, Nat.add_assoc]
      · rw [total_cons]

theorem total_place (b : Block) (L : List Block) : total (place b L) = b.size + total L := by
  induction L with
  | nil => rfl
  | cons a L ih =>
      rw [place]
      split_ifs with hlt htouch
      · rw [total_join, total_cons]
        dsimp only
        omega
      · rw [total_cons, ih, total_cons]
        omega
      · rw [total_join]

/-- Where the blocks start after a join. -/
theorem addr_of_mem_join {b c : Block} {L : List Block} (h : c ∈ join b L) :
    c.addr = b.addr ∨ ∃ d ∈ L, c.addr = d.addr := by
  match L with
  | [] => exact .inl (congrArg Block.addr (List.mem_singleton.mp h))
  | d :: L =>
      rw [join] at h
      split_ifs at h
      · rcases List.mem_cons.mp h with rfl | h
        · exact .inl rfl
        · exact .inr ⟨c, List.mem_cons_of_mem d h, rfl⟩
      · rcases List.mem_cons.mp h with rfl | h
        · exact .inl rfl
        · exact .inr ⟨c, h, rfl⟩

/-- Where the blocks start after a block is placed. -/
theorem addr_of_mem_place {b c : Block} {L : List Block} (h : c ∈ place b L) :
    c.addr = b.addr ∨ ∃ d ∈ L, c.addr = d.addr := by
  induction L with
  | nil => exact .inl (congrArg Block.addr (List.mem_singleton.mp h))
  | cons a L ih =>
      rw [place] at h
      split_ifs at h
      · rcases addr_of_mem_join h with hc | ⟨d, hd, hc⟩
        · exact .inr ⟨a, List.mem_cons_self, hc⟩
        · exact .inr ⟨d, List.mem_cons_of_mem a hd, hc⟩
      · rcases List.mem_cons.mp h with rfl | h
        · exact .inr ⟨c, List.mem_cons_self, rfl⟩
        · rcases ih h with hc | ⟨d, hd, hc⟩
          · exact .inl hc
          · exact .inr ⟨d, List.mem_cons_of_mem a hd, hc⟩
      · exact addr_of_mem_join h

theorem Separated.join {b : Block} {L : List Block} (h : Separated L) (hpos : 0 < b.size)
    (hle : ∀ c ∈ L, b.fin ≤ c.addr) : Separated (join b L) := by
  match L, h, hle with
  | [], _, _ => exact separated_cons.mpr ⟨hpos, fun _ h => absurd h List.not_mem_nil, separated_nil⟩
  | c :: L, h, hle =>
      obtain ⟨hcpos, hbefore, htail⟩ := separated_cons.mp h
      have hbc := hle c List.mem_cons_self
      rw [Intervals.join]
      split_ifs with htouch
      · refine separated_cons.mpr ⟨Nat.add_pos_left hpos _, fun d hd => ?_, htail⟩
        have := hbefore d hd
        simp only [Block.fin] at *
        omega
      · refine separated_cons.mpr ⟨hpos, fun d hd => ?_, h⟩
        rcases List.mem_cons.mp hd with rfl | hdL
        · exact Nat.lt_of_le_of_ne hbc htouch
        · have := hbefore d hdL
          simp only [Block.fin] at *
          omega

/-- **Placing** a block that overlaps none keeps the list separated. -/
theorem Separated.place {b : Block} {L : List Block} (h : Separated L) (hpos : 0 < b.size)
    (hout : ∀ c ∈ L, c.fin ≤ b.addr ∨ b.fin ≤ c.addr) : Separated (place b L) := by
  induction L with
  | nil =>
      exact separated_cons.mpr ⟨hpos, fun _ h => absurd h List.not_mem_nil, separated_nil⟩
  | cons a L ih =>
      obtain ⟨hapos, hbefore, htail⟩ := separated_cons.mp h
      have haout := hout a List.mem_cons_self
      have hLout : ∀ c ∈ L, c.fin ≤ b.addr ∨ b.fin ≤ c.addr :=
        fun c hc => hout c (List.mem_cons_of_mem a hc)
      rw [Intervals.place]
      split_ifs with hlt htouch
      · refine htail.join (Nat.add_pos_left hapos _) fun c hc => ?_
        have hac := hbefore c hc
        have hbc := hLout c hc
        have hcpos := htail.pos c hc
        simp only [Block.fin] at *
        omega
      · refine separated_cons.mpr ⟨hapos, fun c hc => ?_, ih htail hLout⟩
        rcases addr_of_mem_place hc with hcb | ⟨d, hd, hcd⟩
        · simp only [Block.fin] at *
          omega
        · rw [hcd]
          exact hbefore d hd
      · refine h.join hpos fun c hc => ?_
        rcases List.mem_cons.mp hc with rfl | hcL
        · simp only [Block.fin] at *
          omega
        · have := hbefore c hcL
          simp only [Block.fin] at *
          omega

/-- A block behind the first ones, which it does not touch. -/
theorem place_append {b : Block} {L : List Block} (M : List Block)
    (h : ∀ a ∈ L, a.addr < b.addr ∧ a.fin ≠ b.addr) : place b (L ++ M) = L ++ place b M := by
  induction L with
  | nil => rfl
  | cons a L ih =>
      obtain ⟨hlt, hne⟩ := h a List.mem_cons_self
      rw [List.cons_append, place, if_pos hlt, if_neg hne,
        ih fun c hc => h c (List.mem_cons_of_mem a hc), List.cons_append]

/-- The blocks that start in front of `x`, and the others. -/
theorem Separated.split {L : List Block} (h : Separated L) (x : Nat) :
    ∃ L₁ L₂, L = L₁ ++ L₂ ∧ (∀ a ∈ L₁, a.addr < x) ∧ ∀ c ∈ L₂, x ≤ c.addr := by
  induction L with
  | nil => exact ⟨[], [], rfl, by simp, by simp⟩
  | cons a L ih =>
      obtain ⟨-, hbefore, htail⟩ := separated_cons.mp h
      by_cases hax : a.addr < x
      · obtain ⟨L₁, L₂, rfl, h₁, h₂⟩ := ih htail
        exact ⟨a :: L₁, L₂, rfl, List.forall_mem_cons.mpr ⟨hax, h₁⟩, h₂⟩
      · refine ⟨[], a :: L, rfl, by simp, List.forall_mem_cons.mpr ⟨Nat.not_lt.mp hax, ?_⟩⟩
        intro c hc
        have := hbefore c hc
        simp only [Block.fin] at this
        omega

/-- A block in front of the list. -/
theorem place_of_le {b : Block} {L : List Block} (h : ∀ c ∈ L, b.addr ≤ c.addr) :
    place b L = join b L := by
  match L, h with
  | [], _ => rfl
  | c :: L, h => rw [place, if_neg (Nat.not_lt.mpr (h c List.mem_cons_self))]

/-! ## Taking a block -/

/-- The first block of at least `need` numbers, and the list without it: all of the block, or only
its first `need` numbers where more than `slack` are left over. -/
def firstFit (need slack : Nat) : List Block → Option (Block × List Block)
  | [] => none
  | a :: L =>
      if a.size < need then (firstFit need slack L).map fun r => (r.1, a :: r.2)
      else if slack < a.size - need then
        some (⟨a.addr, need⟩, ⟨a.addr + need, a.size - need⟩ :: L)
      else some (a, L)

theorem firstFit_eq_none {need slack : Nat} {L : List Block} :
    firstFit need slack L = none ↔ ∀ a ∈ L, a.size < need := by
  induction L with
  | nil => simp [firstFit]
  | cons a L ih =>
      rw [firstFit]
      split_ifs with hsmall hsplit
      · simp [ih, hsmall]
      · simp [hsmall]
      · simp [hsmall]

/-- Where the block is taken from. -/
theorem firstFit_at {need slack : Nat} {L : List Block} {r : Block × List Block}
    (h : firstFit need slack L = some r) :
    ∃ L₁ b L₂, L = L₁ ++ b :: L₂ ∧ (∀ a ∈ L₁, a.size < need) ∧ need ≤ b.size ∧
      r = if slack < b.size - need then
          (⟨b.addr, need⟩, L₁ ++ ⟨b.addr + need, b.size - need⟩ :: L₂)
        else (b, L₁ ++ L₂) := by
  induction L generalizing r with
  | nil => cases h
  | cons a L ih =>
      rw [firstFit] at h
      split_ifs at h with hsmall hsplit
      · obtain ⟨r', hr', rfl⟩ := Option.map_eq_some_iff.mp h
        obtain ⟨L₁, b, L₂, rfl, h₁, hb, rfl⟩ := ih hr'
        refine ⟨a :: L₁, b, L₂, rfl, List.forall_mem_cons.mpr ⟨hsmall, h₁⟩, hb, ?_⟩
        split_ifs <;> rfl
      · exact ⟨[], a, L, rfl, by simp, Nat.not_lt.mp hsmall, by
          rw [if_pos hsplit]
          exact (Option.some.inj h).symm⟩
      · exact ⟨[], a, L, rfl, by simp, Nat.not_lt.mp hsmall, by
          rw [if_neg hsplit]
          exact (Option.some.inj h).symm⟩

/-- What is taken and what is left. -/
structure Taken (need slack : Nat) (L : List Block) (b : Block) (L' : List Block) : Prop where
  enough : need ≤ b.size
  slack_le : b.size ≤ need + slack
  separated : Separated L'
  covers : ∀ x, Covers L x ↔ b.Has x ∨ Covers L' x
  gone : ∀ x, b.Has x → ¬Covers L' x
  total_eq : total L = b.size + total L'
  least : ∀ a, (∀ x, a ≤ x → x < a + need → Covers L x) → b.addr ≤ a

/-- No number is in front of what a separated list covers. -/
theorem not_covers_of_lt {L : List Block} {x : Nat} (h : ∀ c ∈ L, x < c.addr) : ¬Covers L x :=
  fun ⟨c, hc, hle, _⟩ => absurd (h c hc) (Nat.not_lt.mpr hle)

theorem Block.has_addr {b : Block} (h : 0 < b.size) : b.Has b.addr :=
  ⟨Nat.le_refl _, Nat.lt_add_of_pos_right h⟩

/-- An interval with no room in the first block lies in the others. -/
theorem covers_tail {a : Block} {L : List Block} (h : Separated (a :: L)) {need c : Nat}
    (hneed : 0 < need) (hsmall : a.size < need)
    (hc : ∀ x, c ≤ x → x < c + need → Covers (a :: L) x) :
    ∀ x, c ≤ x → x < c + need → Covers L x := by
  obtain ⟨b, hb, hle, hfin⟩ := within_block h hneed hc
  rcases List.mem_cons.mp hb with rfl | hbL
  · simp only [Block.fin] at *
    omega
  · exact fun x h₁ h₂ => ⟨b, hbL, Nat.le_trans hle h₁, Nat.lt_of_lt_of_le h₂ hfin⟩

/-- **First fit.** -/
theorem firstFit_spec {need slack : Nat} {L L' : List Block} {b : Block} (h : Separated L)
    (hneed : 0 < need) (hfit : firstFit need slack L = some (b, L')) : Taken need slack L b L' := by
  induction L generalizing L' with
  | nil => cases hfit
  | cons a L ih =>
      obtain ⟨hapos, hbefore, htail⟩ := separated_cons.mp h
      rw [firstFit] at hfit
      split_ifs at hfit with hsmall hsplit
      · obtain ⟨⟨b', M⟩, hM, heq⟩ := Option.map_eq_some_iff.mp hfit
        obtain ⟨rfl, rfl⟩ := Prod.mk.inj heq
        have t := ih htail hM
        have hin : ∀ x, Covers M x → Covers L x := fun x hx => (t.covers x).mpr (.inr hx)
        have hbpos : 0 < b'.size := Nat.lt_of_lt_of_le hneed t.enough
        refine ⟨t.enough, t.slack_le, separated_cons.mpr ⟨hapos, fun c hc => ?_, t.separated⟩,
          fun x => ?_, fun x hx => ?_, ?_, fun c hc => ?_⟩
        · obtain ⟨d, hd, hle, _⟩ := hin c.addr ⟨c, hc, Block.has_addr (t.separated.pos c hc)⟩
          exact Nat.lt_of_lt_of_le (hbefore d hd) hle
        · rw [covers_cons, covers_cons, t.covers]
          tauto
        · rw [covers_cons, not_or]
          refine ⟨fun ha => ?_, t.gone x hx⟩
          obtain ⟨d, hd, hle, _⟩ := (t.covers x).mpr (.inl hx)
          have := hbefore d hd
          simp only [Block.Has] at ha
          omega
        · rw [total_cons, total_cons, t.total_eq]
          dsimp only
          omega
        · exact t.least c (covers_tail h hneed hsmall hc)
      all_goals
        obtain ⟨rfl, rfl⟩ := Prod.mk.inj (Option.some.inj hfit)
        have hleast : ∀ c, (∀ x, c ≤ x → x < c + need → Covers (a :: L) x) → a.addr ≤ c := by
          intro c hc
          obtain ⟨d, hd, hle, _⟩ := hc c (Nat.le_refl c) (Nat.lt_add_of_pos_right hneed)
          rcases List.mem_cons.mp hd with rfl | hdL
          · exact hle
          · exact Nat.le_trans (Nat.le_of_lt (Nat.lt_of_le_of_lt (Nat.le_add_right _ _)
              (hbefore d hdL))) hle
      · refine ⟨Nat.le_refl _, Nat.le_add_right _ _, separated_cons.mpr ⟨?_, ?_, htail⟩,
          fun x => ?_, fun x hx => ?_, ?_, hleast⟩
        · exact Nat.zero_lt_of_lt hsplit
        · intro c hc
          have := hbefore c hc
          simp only [Block.fin] at *
          omega
        · rw [covers_cons, covers_cons, ← or_assoc]
          refine or_congr_left ?_
          simp only [Block.Has, Block.fin]
          omega
        · rw [covers_cons, not_or]
          refine ⟨?_, not_covers_of_lt fun c hc => ?_⟩
          · simp only [Block.Has, Block.fin] at *
            omega
          · have := hbefore c hc
            simp only [Block.Has, Block.fin] at *
            omega
        · rw [total_cons, total_cons]
          dsimp only
          omega
      · refine ⟨Nat.not_lt.mp hsmall, by omega, htail, fun x => covers_cons, fun x hx => ?_,
          total_cons _ _, hleast⟩
        refine not_covers_of_lt fun c hc => ?_
        exact Nat.lt_trans hx.2 (hbefore c hc)

/-- Nothing is taken just when no interval of this size is covered. -/
theorem firstFit_eq_none_iff {need slack : Nat} {L : List Block} (h : Separated L)
    (hneed : 0 < need) :
    firstFit need slack L = none ↔ ¬∃ a, ∀ x, a ≤ x → x < a + need → Covers L x := by
  rw [firstFit_eq_none]
  constructor
  · rintro hsmall ⟨a, ha⟩
    obtain ⟨b, hb, hle, hfin⟩ := within_block h hneed ha
    have := hsmall b hb
    simp only [Block.fin] at *
    omega
  · intro hno b hb
    by_contra hsize
    refine hno ⟨b.addr, fun x h₁ h₂ => ⟨b, hb, h₁, ?_⟩⟩
    simp only [Block.fin]
    omega

end Intervals
