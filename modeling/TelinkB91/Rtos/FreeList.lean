import TelinkB91.Lib.Intervals
import TelinkB91.Rtos.Heap

/-!
# Rtos — the list of the free blocks

`Linked m e p L` says that the headers of the blocks `L` follow the header `p` in the memory, one
after the other, and that `e` follows the last.  The two loops of the heap are walks along such a
list, and putting a block into it is `Intervals.place`.

* `Frame.linked`: a list is not changed by writes to other headers.
* `pxIterator_eq`, `findBlock_fit`, `findBlock_none`: where the two loops stop.
* `linked_linkIn`: what `prvInsertBlockIntoFreeList` does to the list.
-/

namespace TelinkB91.Rtos

open WordMemory Intervals

/-! ## Headers -/

/-- Two headers do not overlap. -/
def Apart (p q : Nat) : Prop := p + 8 ≤ q ∨ q + 8 ≤ p

theorem Apart.symm {p q : Nat} (h : Apart p q) : Apart q p := Or.symm h

/-- The memories differ in the headers `S` alone. -/
def Frame (S : List Nat) (m m' : Memory) : Prop :=
  ∀ x, (∀ p ∈ S, x < p ∨ p + 8 ≤ x) → m' x = m x

theorem Frame.refl (S : List Nat) (m : Memory) : Frame S m m := fun _ _ => rfl

theorem Frame.trans {S : List Nat} {m m' m'' : Memory} (h : Frame S m m') (h' : Frame S m' m'') :
    Frame S m m'' :=
  fun x hx => (h' x hx).trans (h x hx)

theorem Frame.mono {S T : List Nat} {m m' : Memory} (h : Frame S m m') (hST : ∀ p ∈ S, p ∈ T) :
    Frame T m m' :=
  fun x hx => h x fun p hp => hx p (hST p hp)

/-- The memories agree on the header `q`. -/
def Same (m m' : Memory) (q : Nat) : Prop := ∀ x, q ≤ x → x < q + 8 → m' x = m x

theorem Same.next {m m' : Memory} {q : Nat} (h : Same m m' q) :
    pxNextFreeBlock m' q = pxNextFreeBlock m q :=
  word_congr fun x h₁ h₂ => h x h₁ (by omega)

theorem Same.size {m m' : Memory} {q : Nat} (h : Same m m' q) :
    xBlockSize m' q = xBlockSize m q :=
  word_congr fun x h₁ h₂ => h x (by omega) (by omega)

theorem Frame.same {S : List Nat} {m m' : Memory} (h : Frame S m m') {q : Nat}
    (hq : ∀ p ∈ S, Apart p q) : Same m m' q :=
  fun x h₁ h₂ => h x fun p hp => by
    rcases hq p hp with h | h
    · exact .inr (by omega)
    · exact .inl (by omega)

theorem Frame.next {S : List Nat} {m m' : Memory} (h : Frame S m m') {q : Nat}
    (hq : ∀ p ∈ S, Apart p q) : pxNextFreeBlock m' q = pxNextFreeBlock m q :=
  (h.same hq).next

theorem Frame.size {S : List Nat} {m m' : Memory} (h : Frame S m m') {q : Nat}
    (hq : ∀ p ∈ S, Apart p q) : xBlockSize m' q = xBlockSize m q :=
  (h.same hq).size

theorem frame_setNext (m : Memory) (p v : Nat) : Frame [p] m (setNextFreeBlock m p v) :=
  fun x hx => setWord_apart (by have := hx p List.mem_cons_self; omega)

theorem frame_setSize (m : Memory) (p v : Nat) : Frame [p] m (setBlockSize m p v) :=
  fun x hx => setWord_apart (by have := hx p List.mem_cons_self; omega)

theorem next_setNext (m : Memory) (p : Nat) {v : Nat} (h : v < 2 ^ 32) :
    pxNextFreeBlock (setNextFreeBlock m p v) p = v :=
  word_setWord m p h

theorem size_setSize (m : Memory) (p : Nat) {v : Nat} (h : v < 2 ^ 32) :
    xBlockSize (setBlockSize m p v) p = v :=
  word_setWord m (p + 4) h

@[simp] theorem size_setNext (m : Memory) (p v : Nat) :
    xBlockSize (setNextFreeBlock m p v) p = xBlockSize m p :=
  word_setWord_apart m (.inr (Nat.le_refl _))

@[simp] theorem next_setSize (m : Memory) (p v : Nat) :
    pxNextFreeBlock (setBlockSize m p v) p = pxNextFreeBlock m p :=
  word_setWord_apart m (.inl (Nat.le_refl _))

theorem next_lt (m : Memory) (p : Nat) : pxNextFreeBlock m p < 2 ^ 32 := word_lt m p

theorem add32_of_lt {a b : Nat} (h : a + b < 2 ^ 32) : add32 a b = a + b := Nat.mod_eq_of_lt h

theorem sub32_of_le {a b : Nat} (h : b ≤ a) (ha : a < 2 ^ 32) : sub32 a b = a - b := by
  rw [sub32]
  omega

/-! ## The list -/

/-- The headers of `L` follow the header `p`, and `e` follows the last. -/
def Linked (m : Memory) (e : Nat) : Nat → List Block → Prop
  | p, [] => pxNextFreeBlock m p = e
  | p, b :: L => pxNextFreeBlock m p = b.addr ∧ xBlockSize m b.addr = b.size ∧ Linked m e b.addr L

/-- The first header of the list, or what is behind it. -/
def first (e : Nat) : List Block → Nat
  | [] => e
  | b :: _ => b.addr

theorem le_first {p e : Nat} {L : List Block} (he : p ≤ e) (hL : ∀ c ∈ L, p ≤ c.addr) :
    p ≤ first e L := by
  cases L with
  | nil => exact he
  | cons c L => exact hL c List.mem_cons_self

/-- The last header of the list, or what is in front of it. -/
def last (p : Nat) : List Block → Nat
  | [] => p
  | b :: L => last b.addr L

@[simp] theorem first_nil (e : Nat) : first e [] = e := rfl

@[simp] theorem first_cons (e : Nat) (b : Block) (L : List Block) : first e (b :: L) = b.addr := rfl

@[simp] theorem last_nil (p : Nat) : last p [] = p := rfl

@[simp] theorem last_concat (p : Nat) (L : List Block) (b : Block) :
    last p (L ++ [b]) = b.addr := by
  induction L generalizing p with
  | nil => rfl
  | cons a L ih => exact ih a.addr

/-- The last header is one of the list, or what is in front of it. -/
theorem last_mem (p : Nat) (L : List Block) : last p L = p ∨ ∃ b ∈ L, last p L = b.addr := by
  rcases List.eq_nil_or_concat L with rfl | ⟨L, b, rfl⟩
  · exact .inl rfl
  · rw [List.concat_eq_append]
    exact .inr ⟨b, by simp, last_concat p L b⟩

theorem Linked.next {m : Memory} {e p : Nat} {L : List Block} (h : Linked m e p L) :
    pxNextFreeBlock m p = first e L := by
  cases L with
  | nil => exact h
  | cons b L => exact h.1

theorem linked_append {m : Memory} {e p : Nat} {L M : List Block} :
    Linked m e p (L ++ M) ↔ Linked m (first e M) p L ∧ Linked m e (last p L) M := by
  induction L generalizing p with
  | nil => exact ⟨fun h => ⟨h.next, h⟩, fun h => h.2⟩
  | cons b L ih =>
      rw [List.cons_append, Linked, ih, Linked, and_assoc, and_assoc]
      rfl

theorem Linked.next_last {m : Memory} {e p : Nat} {L : List Block} (h : Linked m e p L) :
    pxNextFreeBlock m (last p L) = e := by
  rw [← List.append_nil L, linked_append] at h
  exact h.2

theorem Linked.size {m : Memory} {e p : Nat} {L : List Block} (h : Linked m e p L) {b : Block}
    (hb : b ∈ L) : xBlockSize m b.addr = b.size := by
  obtain ⟨L₁, L₂, rfl⟩ := List.append_of_mem hb
  exact (linked_append.mp h).2.2.1

/-- A list is in its headers. -/
theorem Linked.congr {m m' : Memory} {e p : Nat} {L : List Block} (h : Linked m e p L)
    (hp : Same m m' p) (hL : ∀ b ∈ L, Same m m' b.addr) : Linked m' e p L := by
  induction L generalizing p with
  | nil => exact hp.next.trans h
  | cons b L ih =>
      have hb := hL b List.mem_cons_self
      exact ⟨hp.next.trans h.1, hb.size.trans h.2.1,
        ih h.2.2 hb fun c hc => hL c (List.mem_cons_of_mem b hc)⟩

/-- **Frame.**  A list is not changed by writes to other headers. -/
theorem Frame.linked {S : List Nat} {m m' : Memory} (hf : Frame S m m') {e p : Nat}
    {L : List Block} (hp : ∀ q ∈ S, Apart q p) (hL : ∀ b ∈ L, ∀ q ∈ S, Apart q b.addr)
    (h : Linked m e p L) : Linked m' e p L :=
  h.congr (hf.same hp) fun b hb => hf.same (hL b hb)

/-- A list whose first link is another header's. -/
theorem Linked.from_next {m : Memory} {e p q : Nat} {L : List Block} (h : Linked m e p L)
    (hq : pxNextFreeBlock m q = pxNextFreeBlock m p) : Linked m e q L := by
  cases L with
  | nil => exact hq.trans h
  | cons b L => exact ⟨hq.trans h.1, h.2⟩

/-! ## The two loops -/

/-- The loop of `prvInsertBlockIntoFreeList` stops at the last block in front of `b`. -/
theorem pxIterator_eq {m : Memory} {e b : Nat} {L₁ L₂ : List Block}
    (h₁ : ∀ a ∈ L₁, a.addr < b) (h₂ : b ≤ first e L₂) {p k : Nat}
    (h : Linked m e p (L₁ ++ L₂)) (hk : L₁.length < k) :
    pxIterator m b k p = some (last p L₁) := by
  induction L₁ generalizing p k with
  | nil =>
      obtain ⟨k, rfl⟩ := Nat.exists_eq_succ_of_ne_zero (Nat.ne_zero_of_lt hk)
      have hnext : pxNextFreeBlock m p = first e L₂ := h.next
      rw [pxIterator, if_neg (by rw [hnext]; exact Nat.not_lt.mpr h₂), last_nil]
  | cons a L₁ ih =>
      obtain ⟨k, rfl⟩ := Nat.exists_eq_succ_of_ne_zero (Nat.ne_zero_of_lt hk)
      have hnext : pxNextFreeBlock m p = a.addr := h.1
      rw [pxIterator, if_pos (by rw [hnext]; exact h₁ a List.mem_cons_self), hnext,
        ih (fun c hc => h₁ c (List.mem_cons_of_mem a hc)) h.2.2 (Nat.lt_of_succ_lt_succ hk)]
      rfl

/-- The loop of `pvPortMalloc` stops at the first block that is large enough. -/
theorem findBlock_fit {m : Memory} {e w : Nat} {L₁ L₂ : List Block} {b : Block}
    (h₁ : ∀ a ∈ L₁, a.size < w) (hb : w ≤ b.size) (hpos : ∀ c ∈ L₁ ++ b :: L₂, c.addr ≠ 0)
    {p k : Nat} (h : Linked m e p (L₁ ++ b :: L₂)) (hk : L₁.length < k) :
    findBlock m w k p (pxNextFreeBlock m p) = some (last p L₁, b.addr) := by
  induction L₁ generalizing p k with
  | nil =>
      obtain ⟨k, rfl⟩ := Nat.exists_eq_succ_of_ne_zero (Nat.ne_zero_of_lt hk)
      have hnext : pxNextFreeBlock m p = b.addr := h.1
      have hsize : xBlockSize m b.addr = b.size := h.2.1
      rw [findBlock, hnext, hsize, if_neg fun hw => absurd hw.1 (Nat.not_lt.mpr hb), last_nil]
  | cons a L₁ ih =>
      obtain ⟨k, rfl⟩ := Nat.exists_eq_succ_of_ne_zero (Nat.ne_zero_of_lt hk)
      have hnext : pxNextFreeBlock m p = a.addr := h.1
      have hsize : xBlockSize m a.addr = a.size := h.2.1
      have hmore : pxNextFreeBlock m a.addr ≠ 0 := by
        have hlink : Linked m e a.addr (L₁ ++ b :: L₂) := h.2.2
        rw [hlink.next]
        cases L₁ with
        | nil => exact hpos b (by simp)
        | cons c L₁ => exact hpos c (by simp)
      rw [findBlock, hnext, hsize, if_pos ⟨h₁ a List.mem_cons_self, hmore⟩,
        ih (fun c hc => h₁ c (List.mem_cons_of_mem a hc))
          (fun c hc => hpos c (List.mem_cons_of_mem a hc)) h.2.2 (Nat.lt_of_succ_lt_succ hk)]
      rfl

/-- The loop of `pvPortMalloc` runs to the end if no block is large enough. -/
theorem findBlock_none {m : Memory} {e w : Nat} {L : List Block} (hL : ∀ a ∈ L, a.size < w)
    (hpos : ∀ c ∈ L, c.addr ≠ 0) (he : e ≠ 0) (hend : pxNextFreeBlock m e = 0) {p k : Nat}
    (h : Linked m e p L) (hk : L.length < k) :
    findBlock m w k p (pxNextFreeBlock m p) = some (last p L, e) := by
  induction L generalizing p k with
  | nil =>
      obtain ⟨k, rfl⟩ := Nat.exists_eq_succ_of_ne_zero (Nat.ne_zero_of_lt hk)
      have hnext : pxNextFreeBlock m p = e := h
      rw [findBlock, hnext, if_neg fun hw => hw.2 hend, last_nil]
  | cons a L ih =>
      obtain ⟨k, rfl⟩ := Nat.exists_eq_succ_of_ne_zero (Nat.ne_zero_of_lt hk)
      have hnext : pxNextFreeBlock m p = a.addr := h.1
      have hsize : xBlockSize m a.addr = a.size := h.2.1
      have hmore : pxNextFreeBlock m a.addr ≠ 0 := by
        have hlink : Linked m e a.addr L := h.2.2
        rw [hlink.next]
        cases L with
        | nil => exact he
        | cons c L => exact hpos c (by simp)
      rw [findBlock, hnext, hsize, if_pos ⟨hL a List.mem_cons_self, hmore⟩,
        ih (fun c hc => hL c (List.mem_cons_of_mem a hc))
          (fun c hc => hpos c (List.mem_cons_of_mem a hc)) h.2.2 (Nat.lt_of_succ_lt_succ hk)]
      rfl

/-! ## Putting a block into the list -/

section Insert

variable {m : Memory} {e it : Nat} {b : Block} {L : List Block}

/-- The block is joined with the one behind it if they touch. -/
theorem mergeAfter_join (hb : xBlockSize m b.addr = b.size) (hL : Linked m e it L)
    (hit : it = b.addr ∨ Apart b.addr it) (hapart : ∀ c ∈ L, Apart b.addr c.addr)
    (hend : ∀ c ∈ L, c.addr ≠ e)
    (hfin : ∀ c ∈ b :: L, c.fin < 2 ^ 32) :
    ∃ n M, join b L = ⟨b.addr, n⟩ :: M ∧ Frame [b.addr] m (mergeAfter m e it b.addr) ∧
      xBlockSize (mergeAfter m e it b.addr) b.addr = n ∧
      Linked (mergeAfter m e it b.addr) e b.addr M := by
  have hbfin : add32 b.addr (xBlockSize m b.addr) = b.fin := by
    rw [hb]
    exact add32_of_lt (hfin b List.mem_cons_self)
  cases L with
  | nil =>
      have hnext : pxNextFreeBlock m it = e := hL
      have heq : mergeAfter m e it b.addr = setNextFreeBlock m b.addr e := by
        simp only [mergeAfter, hnext, ne_eq, not_true_eq_false, if_false, ite_self]
      have he : e < 2 ^ 32 := hnext ▸ next_lt m it
      rw [heq]
      exact ⟨b.size, [], rfl, frame_setNext m b.addr e, (size_setNext m b.addr e).trans hb,
        next_setNext m b.addr he⟩
  | cons c L =>
      have hnext : pxNextFreeBlock m it = c.addr := hL.1
      have hbc := hapart c List.mem_cons_self
      have hbL : ∀ d ∈ L, ∀ q ∈ [b.addr], Apart q d.addr := by
        intro d hd q hq
        rw [List.mem_singleton.mp hq]
        exact hapart d (List.mem_cons_of_mem c hd)
      have hcq : ∀ q ∈ [b.addr], Apart q c.addr := by
        intro q hq
        rw [List.mem_singleton.mp hq]
        exact hbc
      rw [mergeAfter, hbfin, hnext, if_pos (hend c List.mem_cons_self)]
      by_cases htouch : b.fin = c.addr
      · have hcfin := hfin c (List.mem_cons_of_mem b List.mem_cons_self)
        have hsum : add32 (xBlockSize m b.addr) (xBlockSize m c.addr) = b.size + c.size := by
          rw [hb, hL.2.1]
          refine add32_of_lt ?_
          simp only [Block.fin] at *
          omega
        have hitnext : pxNextFreeBlock (setBlockSize m b.addr (b.size + c.size)) it = c.addr := by
          rcases hit with rfl | hit
          · rw [next_setSize, hnext]
          · rw [(frame_setSize m b.addr _).next (by simpa using hit), hnext]
        rw [if_pos htouch, hsum]
        dsimp only
        rw [hitnext]
        have hsumlt : b.size + c.size < 2 ^ 32 := by
          rw [← hsum]
          exact Nat.mod_lt _ (by decide)
        have hf : Frame [b.addr] m (setNextFreeBlock (setBlockSize m b.addr (b.size + c.size)) b.addr
            (pxNextFreeBlock (setBlockSize m b.addr (b.size + c.size)) c.addr)) :=
          (frame_setSize m b.addr _).trans (frame_setNext _ b.addr _)
        refine ⟨b.size + c.size, L, by rw [join, if_pos htouch], hf, ?_, ?_⟩
        · rw [size_setNext, size_setSize m b.addr hsumlt]
        · -- the list goes on where the block behind went on
          refine (hf.linked hcq hbL hL.2.2).from_next ?_
          exact (next_setNext _ _ (next_lt _ _)).trans
            (((frame_setSize m b.addr _).next hcq).trans (hf.next hcq).symm)
      · rw [if_neg htouch]
        have hf := frame_setNext m b.addr c.addr
        have hc : c.addr < 2 ^ 32 := hnext ▸ next_lt m it
        refine ⟨b.size, c :: L, by rw [join, if_neg htouch], hf, (size_setNext _ _ _).trans hb,
          next_setNext m b.addr hc, (hf.size hcq).trans hL.2.1, hf.linked hcq hbL hL.2.2⟩

/-- A block that does not touch the header it is put behind. -/
theorem linkIn_apart (hb : xBlockSize m b.addr = b.size) (hL : Linked m e it L)
    (hit : add32 it (xBlockSize m it) ≠ b.addr) (hitb : Apart it b.addr)
    (hitL : ∀ c ∈ L, Apart it c.addr) (hapart : ∀ c ∈ L, Apart b.addr c.addr)
    (hend : ∀ c ∈ L, c.addr ≠ e) (hfin : ∀ c ∈ b :: L, c.fin < 2 ^ 32) :
    Frame [it, b.addr] m (linkIn m e it b.addr) ∧
      xBlockSize (linkIn m e it b.addr) it = xBlockSize m it ∧
      Linked (linkIn m e it b.addr) e it (join b L) := by
  have hne : it ≠ b.addr := by
    rcases hitb with h | h <;> omega
  have hbefore : mergeBefore m it b.addr = (m, b.addr) := if_neg hit
  obtain ⟨n, M, hjoin, hf, hsize, hM⟩ :=
    mergeAfter_join hb hL (.inr hitb.symm) hapart hend hfin
  have heq : linkIn m e it b.addr =
      setNextFreeBlock (mergeAfter m e it b.addr) it b.addr := by
    simp only [linkIn, hbefore, if_pos hne]
  have hblt : b.addr < 2 ^ 32 :=
    Nat.lt_of_le_of_lt (Nat.le_add_right _ _) (hfin b List.mem_cons_self)
  have hf' := frame_setNext (mergeAfter m e it b.addr) it b.addr
  have hbq : ∀ q ∈ [it], Apart q b.addr := by simpa using hitb
  have hMq : ∀ c ∈ M, ∀ q ∈ [it], Apart q c.addr := by
    intro c hc q hq
    rw [List.mem_singleton.mp hq]
    rcases addr_of_mem_join (hjoin ▸ List.mem_cons_of_mem _ hc : c ∈ join b L) with h | ⟨d, hd, h⟩
    · rw [h]
      exact hitb
    · rw [h]
      exact hitL d hd
  rw [heq, hjoin]
  refine ⟨(hf.mono (by simp)).trans (hf'.mono (by simp)), ?_, ?_, ?_, ?_⟩
  · rw [size_setNext, hf.size (by simpa using hitb.symm)]
  · exact next_setNext _ it hblt
  · exact (hf'.size hbq).trans hsize
  · exact hf'.linked hbq hMq hM

/-- A block that touches the one it is put behind. -/
theorem linkIn_touch {a : Block} (ha : xBlockSize m a.addr = a.size)
    (hb : xBlockSize m b.addr = b.size) (hL : Linked m e a.addr L) (htouch : a.fin = b.addr)
    (hapart : ∀ c ∈ L, Apart a.addr c.addr) (hend : ∀ c ∈ L, c.addr ≠ e) (hbfin : b.fin < 2 ^ 32)
    (hfin : ∀ c ∈ L, c.fin < 2 ^ 32) :
    ∃ n M, join ⟨a.addr, a.size + b.size⟩ L = ⟨a.addr, n⟩ :: M ∧
      Frame [a.addr] m (linkIn m e a.addr b.addr) ∧
      xBlockSize (linkIn m e a.addr b.addr) a.addr = n ∧
      Linked (linkIn m e a.addr b.addr) e a.addr M := by
  have hsum : a.size + b.size < 2 ^ 32 := by
    simp only [Block.fin] at *
    omega
  have hafin : add32 a.addr (xBlockSize m a.addr) = b.addr := by
    rw [ha, ← htouch]
    refine add32_of_lt ?_
    simp only [Block.fin] at *
    omega
  have hbefore : mergeBefore m a.addr b.addr =
      (setBlockSize m a.addr (a.size + b.size), a.addr) := by
    rw [mergeBefore, if_pos hafin, ha, hb, add32_of_lt hsum]
  have hf := frame_setSize m a.addr (a.size + b.size)
  have hL' : Linked (setBlockSize m a.addr (a.size + b.size)) e a.addr L := by
    cases L with
    | nil => exact (next_setSize _ _ _).trans hL
    | cons c L =>
        have hc : ∀ q ∈ [a.addr], Apart q c.addr := by
          simpa using hapart c List.mem_cons_self
        refine ⟨(next_setSize _ _ _).trans hL.1, (hf.size hc).trans hL.2.1, hf.linked hc ?_ hL.2.2⟩
        intro d hd q hq
        rw [List.mem_singleton.mp hq]
        exact hapart d (List.mem_cons_of_mem c hd)
  have hsize : xBlockSize (setBlockSize m a.addr (a.size + b.size)) a.addr = a.size + b.size :=
    size_setSize m a.addr hsum
  have hjfin : ∀ c ∈ (⟨a.addr, a.size + b.size⟩ : Block) :: L, c.fin < 2 ^ 32 := by
    refine List.forall_mem_cons.mpr ⟨?_, hfin⟩
    simp only [Block.fin] at *
    omega
  obtain ⟨n, M, hjoin, hf', hn, hM⟩ :=
    mergeAfter_join (b := ⟨a.addr, a.size + b.size⟩) hsize hL' (.inl rfl) hapart hend hjfin
  have heq : linkIn m e a.addr b.addr =
      mergeAfter (setBlockSize m a.addr (a.size + b.size)) e a.addr a.addr := by
    simp only [linkIn, hbefore, ne_eq, not_true_eq_false, if_false]
  rw [heq]
  exact ⟨n, M, hjoin, hf.trans hf', hn, hM⟩

end Insert

/-- Where the headers may be: two of them are apart, and `s` is in front of the list. -/
structure Spots (Spot : Nat → Prop) (s e : Nat) : Prop where
  apart : ∀ p q, Spot p → Spot q → p ≠ q → Apart p q
  start : Spot s
  lt : e < 2 ^ 32

/-- The blocks have their headers at such places, between the two. -/
def Within (Spot : Nat → Prop) (s e : Nat) (L : List Block) : Prop :=
  ∀ c ∈ L, Spot c.addr ∧ c.addr ≠ s ∧ c.fin ≤ e

/-- **`prvInsertBlockIntoFreeList`** puts a block into the list. -/
theorem insert_linked {Spot : Nat → Prop} {l : Link} {m : Memory} {e : Nat}
    (hS : Spots Spot l.xStart e) {b : Block} {L : List Block} (hsep : Separated L)
    (hpos : 0 < b.size) (hin : Within Spot l.xStart e (b :: L))
    (hout : ∀ c ∈ L, c.fin ≤ b.addr ∨ b.fin ≤ c.addr) (hlen : L.length < configTotalHeapSize)
    (hs : xBlockSize m l.xStart = 0) (hslt : l.xStart < 2 ^ 32)
    (hb : xBlockSize m b.addr = b.size) (hL : Linked m e l.xStart L) :
    ∃ m', prvInsertBlockIntoFreeList l m e b.addr = some m' ∧ Linked m' e l.xStart (place b L) ∧
      xBlockSize m' l.xStart = 0 ∧ Frame (l.xStart :: b.addr :: L.map Block.addr) m m' := by
  obtain ⟨hbspot, hbs, hbe⟩ := hin b List.mem_cons_self
  have hinL : ∀ c ∈ L, Spot c.addr ∧ c.addr ≠ l.xStart ∧ c.fin ≤ e :=
    fun c hc => hin c (List.mem_cons_of_mem b hc)
  obtain ⟨L₁, L₂, rfl, h₁, h₂⟩ := hsep.split b.addr
  obtain ⟨hsep₁, hsep₂, hacross⟩ := separated_append.mp hsep
  have hlt := hS.lt
  have hbfin : b.fin < 2 ^ 32 := Nat.lt_of_le_of_lt hbe hlt
  -- The blocks behind do not overlap it.
  have h₂fin : ∀ c ∈ L₂, b.fin ≤ c.addr := by
    intro c hc
    have hcpos := hsep₂.pos c hc
    have hle := h₂ c hc
    have := hout c (List.mem_append_right L₁ hc)
    simp only [Block.fin] at *
    omega
  have hin₂ : ∀ c ∈ L₂, Spot c.addr ∧ c.addr ≠ l.xStart ∧ c.fin ≤ e :=
    fun c hc => hinL c (List.mem_append_right L₁ hc)
  have hapart : ∀ c ∈ L₂, Apart b.addr c.addr := by
    intro c hc
    refine hS.apart _ _ hbspot (hin₂ c hc).1 ?_
    have := h₂fin c hc
    simp only [Block.fin] at this
    omega
  have hend : ∀ c ∈ L₂, c.addr ≠ e := by
    intro c hc
    have hcpos := hsep₂.pos c hc
    have := (hin₂ c hc).2.2
    simp only [Block.fin] at this
    omega
  have hfin : ∀ c ∈ L₂, c.fin < 2 ^ 32 := fun c hc => Nat.lt_of_le_of_lt (hin₂ c hc).2.2 hlt
  have hfirst : b.addr ≤ first e L₂ := le_first (Nat.le_trans (Nat.le_add_right _ _) hbe) h₂
  have hiter : pxIterator m b.addr configTotalHeapSize l.xStart = some (last l.xStart L₁) :=
    pxIterator_eq h₁ hfirst hL (Nat.lt_of_le_of_lt (by simp) hlen)
  rw [prvInsertBlockIntoFreeList, hiter, Option.map_some]
  obtain ⟨hL₁, hL₂⟩ := linked_append.mp hL
  refine ⟨_, rfl, ?_⟩
  rcases List.eq_nil_or_concat L₁ with rfl | ⟨L₀, a, rfl⟩
  · -- In front of all the others, behind `xStart`.
    have hstart : Apart l.xStart b.addr := hS.apart _ _ hS.start hbspot hbs.symm
    have hitL : ∀ c ∈ L₂, Apart l.xStart c.addr := fun c hc =>
      hS.apart _ _ hS.start (hin₂ c hc).1 (hin₂ c hc).2.1.symm
    have hit : add32 l.xStart (xBlockSize m l.xStart) ≠ b.addr := by
      rw [hs, add32_of_lt hslt]
      exact hbs.symm
    obtain ⟨hf, hsize, hlink⟩ := linkIn_apart hb hL₂ hit hstart hitL hapart hend
      (List.forall_mem_cons.mpr ⟨hbfin, hfin⟩)
    rw [List.nil_append, place_of_le h₂]
    exact ⟨hlink, hsize.trans hs, hf.mono (by simp)⟩
  · rw [List.concat_eq_append] at *
    rw [last_concat] at hL₂ ⊢
    have hamem : a ∈ L₀ ++ [a] := List.mem_append_right L₀ List.mem_cons_self
    obtain ⟨haspot, has, hae⟩ := hinL a (List.mem_append_left L₂ hamem)
    have hab := h₁ a hamem
    have hapos := hsep₁.pos a hamem
    have hasize : xBlockSize m a.addr = a.size := hL₁.size hamem
    have haapart : Apart a.addr b.addr := hS.apart _ _ haspot hbspot (Nat.ne_of_lt hab)
    have hitL : ∀ c ∈ L₂, Apart a.addr c.addr := by
      intro c hc
      refine hS.apart _ _ haspot (hin₂ c hc).1 ?_
      have := h₂ c hc
      omega
    obtain ⟨hL₀, -, -⟩ := linked_append.mp hL₁
    -- The headers in front of `a` are neither `a` nor the block.
    have hsa : Apart a.addr l.xStart := hS.apart _ _ haspot hS.start has
    have hsb : Apart b.addr l.xStart := hS.apart _ _ hbspot hS.start hbs
    obtain ⟨hsep₀, -, hbeforea⟩ := separated_append.mp hsep₁
    have hL₀apart : ∀ c ∈ L₀, Apart a.addr c.addr ∧ Apart b.addr c.addr := by
      intro c hc
      have hcspot := (hinL c (List.mem_append_left L₂ (List.mem_append_left [a] hc))).1
      have hcpos := hsep₀.pos c hc
      have hca := hbeforea c hc a List.mem_cons_self
      simp only [Block.fin] at hca
      exact ⟨hS.apart _ _ haspot hcspot (by omega), hS.apart _ _ hbspot hcspot (by omega)⟩
    have hL₀place : ∀ c ∈ L₀, c.addr < b.addr ∧ c.fin ≠ b.addr := by
      intro c hc
      have hca := hbeforea c hc a List.mem_cons_self
      simp only [Block.fin] at *
      omega
    rw [List.append_assoc, place_append _ hL₀place, List.singleton_append, place, if_pos hab]
    by_cases htouch : a.fin = b.addr
    · obtain ⟨n, M, hjoin, hf, hsize, hM⟩ :=
        linkIn_touch hasize hb hL₂ htouch hitL hend hbfin hfin
      rw [if_pos htouch, hjoin]
      have hfront : Linked (linkIn m e a.addr b.addr) a.addr l.xStart L₀ :=
        hf.linked (by simpa using hsa) (by simpa using fun c hc => (hL₀apart c hc).1) hL₀
      refine ⟨linked_append.mpr ⟨hfront, hfront.next_last, hsize, hM⟩, ?_, hf.mono (by simp)⟩
      rw [hf.size (by simpa using hsa), hs]
    · have hit : add32 a.addr (xBlockSize m a.addr) ≠ b.addr := by
        rw [hasize, add32_of_lt (Nat.lt_of_le_of_lt hae hlt)]
        exact htouch
      obtain ⟨hf, hsize, hlink⟩ := linkIn_apart hb hL₂ hit haapart hitL hapart hend
        (List.forall_mem_cons.mpr ⟨hbfin, hfin⟩)
      have hfront : Linked (linkIn m e a.addr b.addr) a.addr l.xStart L₀ :=
        hf.linked (by simpa using ⟨hsa, hsb⟩) (by simpa using hL₀apart) hL₀
      rw [if_neg htouch, place_of_le h₂]
      refine ⟨linked_append.mpr ⟨hfront, hfront.next_last, hsize.trans hasize, hlink⟩, ?_,
        hf.mono (by simp)⟩
      rw [hf.size (by simpa using ⟨hsa, hsb⟩), hs]

/-! ## Taking a block out of the list -/

/-- The last link of a list is changed. -/
theorem Linked.retarget {m : Memory} {x p v : Nat} {L : List Block} (h : Linked m x p L)
    (hv : v < 2 ^ 32) (hp : L ≠ [] → Apart (last p L) p)
    (hL : ∀ c ∈ L, c.addr ≠ last p L → Apart (last p L) c.addr)
    (hne : ∀ c ∈ L.dropLast, c.addr ≠ last p L) :
    Linked (setNextFreeBlock m (last p L) v) v p L := by
  rcases List.eq_nil_or_concat L with rfl | ⟨L₀, a, rfl⟩
  · exact next_setNext m p hv
  · rw [List.concat_eq_append] at *
    rw [List.dropLast_concat] at hne
    rw [last_concat] at *
    obtain ⟨hL₀, -, hsize, -⟩ := linked_append.mp h
    have hf := frame_setNext m a.addr v
    have hfront : Linked (setNextFreeBlock m a.addr v) a.addr p L₀ :=
      hf.linked (by simpa using hp (by simp)) (by
        simpa using fun c hc => hL c (List.mem_append_left [a] hc) (hne c hc)) hL₀
    exact linked_append.mpr ⟨hfront, hfront.next_last, (size_setNext m a.addr v).trans hsize,
      next_setNext m a.addr hv⟩

/-- The link in front of a block goes past it. -/
theorem linked_unlink {Spot : Nat → Prop} {s e : Nat} (hS : Spots Spot s e) {m : Memory}
    {b : Block} {L₁ L₂ : List Block} (hsep : Separated (L₁ ++ b :: L₂))
    (hin : Within Spot s e (L₁ ++ b :: L₂)) (hL : Linked m e s (L₁ ++ b :: L₂)) :
    Linked (setNextFreeBlock m (last s L₁) (pxNextFreeBlock m b.addr)) e s (L₁ ++ L₂) ∧
      Apart (last s L₁) b.addr ∧ (last s L₁ = s ∨ Apart (last s L₁) s) := by
  obtain ⟨hsep₁, hsep₂, hacross⟩ := separated_append.mp hsep
  obtain ⟨hbpos, hbefore, hsep₂⟩ := separated_cons.mp hsep₂
  obtain ⟨hbspot, hbs, -⟩ := hin b (by simp)
  have hin₂ : ∀ c ∈ L₂, Spot c.addr ∧ c.addr ≠ s ∧ c.fin ≤ e := fun c hc =>
    hin c (by simp [hc])
  -- What is in front of the block: `s`, or a block of the list.
  have hprev : Spot (last s L₁) ∧ last s L₁ ≠ b.addr ∧
      (∀ c ∈ L₂, last s L₁ ≠ c.addr) ∧ (L₁ ≠ [] → last s L₁ ≠ s) ∧
      ∀ c ∈ L₁.dropLast, c.addr ≠ last s L₁ := by
    rcases List.eq_nil_or_concat L₁ with rfl | ⟨L₀, a, rfl⟩
    · exact ⟨hS.start, hbs.symm, fun c hc => (hin₂ c hc).2.1.symm, fun h => absurd rfl h, by simp⟩
    · rw [List.concat_eq_append] at *
      rw [List.dropLast_concat, last_concat]
      obtain ⟨haspot, has, -⟩ := hin a (by simp)
      obtain ⟨hsep₀, -, hbeforea⟩ := separated_append.mp hsep₁
      have hab := hacross a (by simp) b List.mem_cons_self
      simp only [Block.fin] at hab
      refine ⟨haspot, by omega, fun c hc => ?_, fun _ => has, fun c hc => ?_⟩
      · have hbc := hbefore c hc
        simp only [Block.fin] at hbc
        omega
      · have hca := hbeforea c hc a List.mem_cons_self
        have hcpos := hsep₀.pos c hc
        simp only [Block.fin] at hca
        omega
  obtain ⟨hpspot, hpb, hpL₂, hps, hfront⟩ := hprev
  have hapartb : Apart (last s L₁) b.addr := hS.apart _ _ hpspot hbspot hpb
  have hf := frame_setNext m (last s L₁) (pxNextFreeBlock m b.addr)
  obtain ⟨hL₁, hbL⟩ := linked_append.mp hL
  have htail : Linked m e b.addr L₂ := hbL.2.2
  have hpq : ∀ q ∈ [last s L₁], Apart q b.addr := by simpa using hapartb
  refine ⟨linked_append.mpr ⟨?_, ?_⟩, hapartb, ?_⟩
  · have hfirst : pxNextFreeBlock m b.addr = first e L₂ := htail.next
    rw [← hfirst]
    refine hL₁.retarget (next_lt _ _) (fun hne => ?_) (fun c hc hne => ?_) hfront
    · exact hS.apart _ _ hpspot hS.start (hps hne)
    · exact hS.apart _ _ hpspot (hin c (List.mem_append_left _ hc)).1 hne.symm
  · have hkept : Linked (setNextFreeBlock m (last s L₁) (pxNextFreeBlock m b.addr)) e b.addr L₂ :=
      hf.linked hpq (by
        simpa using fun c hc => hS.apart _ _ hpspot (hin₂ c hc).1 (hpL₂ c hc)) htail
    exact hkept.from_next ((next_setNext _ _ (next_lt _ _)).trans (hf.next hpq).symm)
  · by_cases hne : L₁ = []
    · exact .inl (by rw [hne, last_nil])
    · exact .inr (hS.apart _ _ hpspot hS.start (hps hne))

end TelinkB91.Rtos
