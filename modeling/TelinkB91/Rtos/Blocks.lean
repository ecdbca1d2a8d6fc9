import TelinkB91.Rtos.FreeList

/-!
# Rtos — the blocks of the heap

`Keeps l h L live`: the heap `h` has the free blocks `L`, in its list, and the blocks `live`, in
use; the two make up the array without overlap, and no two free blocks touch.

* `Keeps.init`: the initialisation makes one free block.
* `Keeps.malloc_none`, `Keeps.malloc_some`: `pvPortMalloc` takes the first block that is large
  enough, and changes nothing if there is none.
* `Keeps.free`: `vPortFree` places the block into the list.
* `Keeps.congr`: what the callers write into their blocks does not matter.
-/

namespace TelinkB91.Rtos

open WordMemory Intervals

/-- The linker has placed the array and `xStart` apart, inside the memory. -/
structure Placed (l : Link) : Prop where
  heap_pos : 0 < l.ucHeap
  heap_fits : l.ucHeap + configTotalHeapSize < 2 ^ 32
  start_apart : l.xStart + 8 ≤ l.ucHeap ∨ l.ucHeap + configTotalHeapSize ≤ l.xStart
  start_fits : l.xStart + 8 ≤ 2 ^ 32

/-- Where the blocks start. -/
def heapStart (l : Link) : Nat := (alignedHeap l).1

/-- Where the blocks end: the place of `pxEnd`. -/
def heapEnd (l : Link) : Nat :=
  andNotMask (sub32 (add32 (alignedHeap l).1 (alignedHeap l).2) xHeapStructSize)

@[simp] theorem xHeapStructSize_eq : xHeapStructSize = 16 := rfl

@[simp] theorem heapMinimumBlockSize_eq : heapMinimumBlockSize = 32 := rfl

@[simp] theorem configTotalHeapSize_eq : configTotalHeapSize = 16384 := rfl

@[simp] theorem portByteAlignment_eq : portByteAlignment = 16 := rfl

/-- The array in numbers. -/
structure Geometry (l : Link) : Prop where
  start_mod : heapStart l % 16 = 0
  end_mod : heapEnd l % 16 = 0
  start_ge : l.ucHeap ≤ heapStart l
  start_lt : heapStart l < l.ucHeap + 16
  end_ge : l.ucHeap + 16384 < heapEnd l + 32
  end_le : heapEnd l + 16 ≤ l.ucHeap + 16384

theorem Placed.geometry {l : Link} (hl : Placed l) : Geometry l := by
  have hfits := hl.heap_fits
  have hpos := hl.heap_pos
  simp only [configTotalHeapSize_eq] at hfits
  by_cases hmod : l.ucHeap % 16 = 0
  · have hheap : alignedHeap l = (l.ucHeap, 16384) := by
      rw [alignedHeap, portByteAlignment_eq, if_neg (not_not.mpr hmod), configTotalHeapSize_eq]
    have hend : heapEnd l = l.ucHeap + 16384 - 16 - (l.ucHeap + 16384 - 16) % 16 := by
      rw [heapEnd, hheap, xHeapStructSize_eq, add32_of_lt hfits,
        sub32_of_le (by omega) hfits]
      rfl
    have hstart : heapStart l = l.ucHeap := by rw [heapStart, hheap]
    constructor <;> omega
  · have hup : andNotMask (add32 l.ucHeap 15) = l.ucHeap + 15 - (l.ucHeap + 15) % 16 := by
      rw [add32_of_lt (by omega)]
      rfl
    have hheap : alignedHeap l = (l.ucHeap + 15 - (l.ucHeap + 15) % 16,
        16384 - (l.ucHeap + 15 - (l.ucHeap + 15) % 16 - l.ucHeap)) := by
      rw [alignedHeap, portByteAlignment_eq, if_pos hmod, configTotalHeapSize_eq]
      dsimp only
      rw [hup, sub32_of_le (a := l.ucHeap + 15 - (l.ucHeap + 15) % 16) (by omega) (by omega),
        sub32_of_le (by omega) (by omega)]
    have hend : heapEnd l = l.ucHeap + 16384 - 16 - (l.ucHeap + 16384 - 16) % 16 := by
      rw [heapEnd, hheap, xHeapStructSize_eq]
      dsimp only
      rw [add32_of_lt (by omega), sub32_of_le (by omega) (by omega), andNotMask,
        portByteAlignment_eq]
      omega
    have hstart : heapStart l = l.ucHeap + 15 - (l.ucHeap + 15) % 16 := by rw [heapStart, hheap]
    constructor <;> omega

/-- Where the headers of the heap are. -/
def Spot (l : Link) (p : Nat) : Prop :=
  p = l.xStart ∨ (heapStart l ≤ p ∧ p ≤ heapEnd l ∧ p % 16 = 0)

theorem Placed.spots {l : Link} (hl : Placed l) : Spots (Spot l) l.xStart (heapEnd l) := by
  have g := hl.geometry
  have hstart := hl.start_apart
  have hfits := hl.heap_fits
  have hs := g.start_ge
  have hs' := g.start_mod
  have he := g.end_le
  have he' := g.end_ge
  have hem := g.end_mod
  simp only [configTotalHeapSize_eq] at hstart hfits
  have hlt := g.start_lt
  refine ⟨fun p q hp hq hne => ?_, .inl rfl, by omega⟩
  simp only [Spot, Apart] at *
  omega

/-- Sizes and addresses are aligned, and a block has room for a header and 16 bytes more. -/
def Shaped (b : Block) : Prop := b.addr % 16 = 0 ∧ b.size % 16 = 0 ∧ 32 ≤ b.size

/-- The heap has the free blocks `L` and the blocks `live` in use. -/
structure Keeps (l : Link) (h : Heap) (L live : List Block) : Prop where
  pxEnd : h.pxEnd = heapEnd l
  bit : h.xBlockAllocatedBit = 2 ^ 31
  linked : Linked h.mem (heapEnd l) l.xStart L
  startSize : xBlockSize h.mem l.xStart = 0
  endSize : xBlockSize h.mem (heapEnd l) = 0
  endNext : pxNextFreeBlock h.mem (heapEnd l) = 0
  separated : Separated L
  shaped : ∀ b ∈ L, Shaped b
  liveShaped : ∀ b ∈ live, Shaped b
  marked : ∀ b ∈ live,
    xBlockSize h.mem b.addr = b.size + 2 ^ 31 ∧ pxNextFreeBlock h.mem b.addr = 0
  apart : live.Pairwise fun b c => b.fin ≤ c.addr ∨ c.fin ≤ b.addr
  covers : ∀ x, (Covers L x ∨ Covers live x) ↔ heapStart l ≤ x ∧ x < heapEnd l
  disjoint : ∀ x, Covers L x → ¬Covers live x
  remaining : h.xFreeBytesRemaining = total L
  capacity : total L + total live = heapEnd l - heapStart l
  least : h.xMinimumEverFreeBytesRemaining ≤ h.xFreeBytesRemaining

variable {l : Link} {h : Heap} {L live : List Block}

theorem Keeps.bounds (k : Keeps l h L live) {b : Block} (hb : b ∈ L ∨ b ∈ live) :
    heapStart l ≤ b.addr ∧ b.fin ≤ heapEnd l := by
  have hsize : 32 ≤ b.size := hb.elim (fun hb => (k.shaped b hb).2.2) fun hb =>
    (k.liveShaped b hb).2.2
  have hcov : ∀ x, b.Has x → heapStart l ≤ x ∧ x < heapEnd l := fun x hx =>
    (k.covers x).mp (hb.imp (fun hb => ⟨b, hb, hx⟩) fun hb => ⟨b, hb, hx⟩)
  have hlow := hcov b.addr (Block.has_addr (by omega))
  have hhigh := hcov (b.addr + b.size - 1) (by simp only [Block.Has, Block.fin]; omega)
  simp only [Block.fin]
  omega

/-- Every block has room for two headers. -/
theorem length_le_total {M : List Block} (hM : ∀ b ∈ M, Shaped b) :
    32 * M.length ≤ total M := by
  induction M with
  | nil => exact Nat.le_refl _
  | cons b M ih =>
      have hb := (hM b List.mem_cons_self).2.2
      have := ih fun c hc => hM c (List.mem_cons_of_mem b hc)
      rw [List.length_cons, total_cons]
      omega

theorem Keeps.total_lt (hl : Placed l) (k : Keeps l h L live) : total L < 16384 := by
  have g := hl.geometry
  have hcap := k.capacity
  have h₁ := g.start_ge
  have h₂ := g.end_le
  omega

theorem Keeps.length_lt (hl : Placed l) (k : Keeps l h L live) :
    L.length < configTotalHeapSize := by
  have h₁ := length_le_total k.shaped
  have h₂ := k.total_lt hl
  rw [configTotalHeapSize_eq]
  omega

theorem Keeps.spot (k : Keeps l h L live) {b : Block} (hb : b ∈ L ∨ b ∈ live) :
    Spot l b.addr := by
  have hbounds := k.bounds hb
  have hmod : b.addr % 16 = 0 := hb.elim (fun hb => (k.shaped b hb).1) fun hb =>
    (k.liveShaped b hb).1
  refine .inr ⟨hbounds.1, ?_, hmod⟩
  exact Nat.le_trans (Nat.le_add_right _ _) hbounds.2

theorem Placed.ne_start (hl : Placed l) {p : Nat} (h₁ : heapStart l ≤ p) (h₂ : p ≤ heapEnd l) :
    p ≠ l.xStart := by
  have g := hl.geometry
  have hs := g.start_ge
  have he := g.end_le
  have hstart := hl.start_apart
  rw [configTotalHeapSize_eq] at hstart
  omega

theorem Keeps.ne_start (hl : Placed l) (k : Keeps l h L live) {b : Block}
    (hb : b ∈ L ∨ b ∈ live) : b.addr ≠ l.xStart := by
  have hbounds := k.bounds hb
  exact hl.ne_start hbounds.1 (Nat.le_trans (Nat.le_add_right _ _) hbounds.2)

/-- A block in use and a free one do not overlap. -/
theorem Keeps.free_apart (k : Keeps l h L live) {b c : Block} (hb : b ∈ live) (hc : c ∈ L) :
    c.fin ≤ b.addr ∨ b.fin ≤ c.addr := by
  have hbsize := (k.liveShaped b hb).2.2
  have hcsize := (k.shaped c hc).2.2
  exact Block.apart_of_disjoint (by omega) (by omega) fun x hx hx' =>
    k.disjoint x ⟨c, hc, hx⟩ ⟨b, hb, hx'⟩

/-- Writes only into the blocks `L` and into `xStart`. -/
def Quiet (l : Link) (L : List Block) (m m' : Memory) : Prop :=
  ∀ x, ¬Covers L x → (x < l.xStart ∨ l.xStart + 8 ≤ x) → m' x = m x

theorem Quiet.trans {m m' m'' : Memory} (q : Quiet l L m m') (q' : Quiet l L m' m'') :
    Quiet l L m m'' :=
  fun x hx hs => (q' x hx hs).trans (q x hx hs)

/-- A header that lies in one of the blocks, or is `xStart`. -/
def Inside (l : Link) (L : List Block) (p : Nat) : Prop :=
  p = l.xStart ∨ ∃ b ∈ L, b.addr ≤ p ∧ p + 8 ≤ b.fin

theorem Frame.quiet {S : List Nat} {m m' : Memory} (hf : Frame S m m')
    (hS : ∀ p ∈ S, Inside l L p) : Quiet l L m m' := by
  intro x hx hs
  refine hf x fun p hp => ?_
  rcases hS p hp with rfl | ⟨b, hb, hle, hfin⟩
  · exact hs
  · by_contra hin
    exact hx ⟨b, hb, by omega, by omega⟩

theorem inside_addr {b : Block} (hb : b ∈ L) (h : Shaped b) : Inside l L b.addr :=
  .inr ⟨b, hb, Nat.le_refl _, by have := h.2.2; simp only [Block.fin]; omega⟩

theorem Quiet.same {m m' : Memory} (q : Quiet l L m m') {p : Nat}
    (hcov : ∀ x, p ≤ x → x < p + 8 → ¬Covers L x) (hp : Apart p l.xStart) : Same m m' p :=
  fun x h₁ h₂ => q x (hcov x h₁ h₂) (by rcases hp with h | h <;> omega)

/-- The header behind the blocks is not changed. -/
theorem Quiet.same_end (hl : Placed l) {m m' : Memory} (q : Quiet l L m m')
    (hL : ∀ b ∈ L, b.fin ≤ heapEnd l) : Same m m' (heapEnd l) := by
  have g := hl.geometry
  refine q.same (fun x h₁ _ => ?_) ?_
  · rintro ⟨b, hb, -, hfin⟩
    exact absurd (Nat.lt_of_lt_of_le hfin (hL b hb)) (Nat.not_lt.mpr h₁)
  · have hstart := hl.start_apart
    have hs := g.start_ge
    have he := g.end_le
    have he' := g.end_ge
    rw [configTotalHeapSize_eq] at hstart
    simp only [Apart]
    omega

/-- The headers of the other blocks in use are not changed. -/
theorem Quiet.same_live (hl : Placed l) {m m' : Memory} (q : Quiet l L m m') {c : Block}
    (hc : Shaped c) (hlow : heapStart l ≤ c.addr) (hhigh : c.fin ≤ heapEnd l)
    (hout : ∀ x, c.Has x → ¬Covers L x) : Same m m' c.addr := by
  have hsize := hc.2.2
  refine q.same (fun x h₁ h₂ => hout x ⟨h₁, by simp only [Block.fin]; omega⟩) ?_
  simp only [Block.fin] at hhigh
  refine hl.spots.apart _ _ (.inr ⟨hlow, by omega, hc.1⟩) (.inl rfl) ?_
  exact hl.ne_start hlow (by omega)

/-! ## The top bit -/

theorem and_top_eq_zero {x : Nat} (hx : x < 2 ^ 32) : x &&& 2 ^ 31 = 0 ↔ x < 2 ^ 31 := by
  constructor
  · intro h
    by_contra hge
    have hbit := Nat.testBit_of_two_pow_le_and_two_pow_add_one_gt (Nat.not_lt.mp hge) hx
    have hzero : (x &&& 2 ^ 31).testBit 31 = false := by rw [h, Nat.zero_testBit]
    rw [Nat.testBit_and, hbit, Nat.testBit_two_pow_self] at hzero
    cases hzero
  · intro h
    refine Nat.eq_of_testBit_eq fun i => ?_
    rw [Nat.testBit_and, Nat.testBit_two_pow, Nat.zero_testBit]
    by_cases hi : 31 = i
    · rw [← hi, Nat.testBit_lt_two_pow h, Bool.false_and]
    · rw [decide_eq_false hi, Bool.and_false]

theorem or_top {x : Nat} (hx : x < 2 ^ 31) : x ||| 2 ^ 31 = x + 2 ^ 31 := by
  have h := Nat.two_pow_add_eq_or_of_lt hx 1
  rw [Nat.mul_one] at h
  rw [Nat.or_comm, ← h, Nat.add_comm]

theorem andNot_top {x : Nat} (hx : x < 2 ^ 31) : (x + 2 ^ 31) &&& (2 ^ 32 - 1 - 2 ^ 31) = x := by
  have hmask : 2 ^ 32 - 1 - 2 ^ 31 = 2 ^ 31 - 1 := rfl
  rw [hmask, Nat.and_two_pow_sub_one_eq_mod, Nat.add_mod_right, Nat.mod_eq_of_lt hx]

/-! ## The operations -/

theorem shaped_join {b : Block} (hb : Shaped b) (hL : ∀ c ∈ L, Shaped c) :
    ∀ c ∈ join b L, Shaped c := by
  cases L with
  | nil => simpa [join] using hb
  | cons d L =>
      obtain ⟨hd, htail⟩ := List.forall_mem_cons.mp hL
      rw [join]
      split_ifs
      · refine List.forall_mem_cons.mpr ⟨?_, htail⟩
        simp only [Shaped] at *
        omega
      · exact List.forall_mem_cons.mpr ⟨hb, hL⟩

theorem shaped_place {b : Block} (hb : Shaped b) (hL : ∀ c ∈ L, Shaped c) :
    ∀ c ∈ place b L, Shaped c := by
  induction L with
  | nil => simpa [place] using hb
  | cons a L ih =>
      obtain ⟨ha, htail⟩ := List.forall_mem_cons.mp hL
      rw [place]
      split_ifs
      · refine shaped_join ?_ htail
        simp only [Shaped] at *
        omega
      · exact List.forall_mem_cons.mpr ⟨ha, ih htail⟩
      · exact shaped_join hb hL

/-- A block goes from one list to the other. -/
theorem covers_moved {b : Block} {pre post : List Block} (x : Nat) :
    (Covers (place b L) x ∨ Covers (pre ++ post) x) ↔
      (Covers L x ∨ Covers (pre ++ b :: post) x) := by
  rw [covers_place, covers_append, covers_append, covers_cons]
  tauto

/-- **`vPortFree`** puts the block into the list. -/
theorem Keeps.free (hl : Placed l) {b : Block} {pre post : List Block}
    (k : Keeps l h L (pre ++ b :: post)) :
    ∃ h', vPortFree l h (b.addr + 16) = some h' ∧ Keeps l h' (place b L) (pre ++ post) ∧
      Quiet l (b :: L) h.mem h'.mem ∧
      h'.xMinimumEverFreeBytesRemaining = h.xMinimumEverFreeBytesRemaining := by
  have g := hl.geometry
  have hbmem : b ∈ pre ++ b :: post := by simp
  have hother : ∀ c ∈ pre ++ post, c ∈ pre ++ b :: post := by
    intro c hc
    rcases List.mem_append.mp hc with hc | hc
    · exact List.mem_append_left _ hc
    · exact List.mem_append_right _ (List.mem_cons_of_mem b hc)
  have hbshaped := k.liveShaped b hbmem
  have hbsize := hbshaped.2.2
  obtain ⟨hblow, hbhigh⟩ := k.bounds (.inr hbmem)
  obtain ⟨hmark, hnull⟩ := k.marked b hbmem
  have hbfin : b.addr + b.size ≤ heapEnd l := hbhigh
  have he := g.end_le
  have hfits := hl.heap_fits
  rw [configTotalHeapSize_eq] at hfits
  have hbtop : b.size < 2 ^ 31 := by
    have := g.start_ge
    omega
  have hlink : sub32 (b.addr + 16) xHeapStructSize = b.addr := by
    rw [xHeapStructSize_eq, sub32_of_le (by omega) (by omega), Nat.add_sub_cancel]
  have hmarked : (b.size + 2 ^ 31) &&& 2 ^ 31 ≠ 0 := by
    rw [Ne, and_top_eq_zero (by omega)]
    omega
  -- The mark is taken off.
  have hf := frame_setSize h.mem b.addr b.size
  have hsize : xBlockSize (setBlockSize h.mem b.addr b.size) b.addr = b.size :=
    size_setSize h.mem b.addr (by omega)
  have hbspot := k.spot (.inr hbmem)
  have hbstart := k.ne_start hl (.inr hbmem)
  have hbs : Apart b.addr l.xStart := hl.spots.apart _ _ hbspot (.inl rfl) hbstart
  have hbL : ∀ c ∈ L, Apart b.addr c.addr := by
    intro c hc
    refine hl.spots.apart _ _ hbspot (k.spot (.inl hc)) ?_
    have hcsize := (k.shaped c hc).2.2
    have := k.free_apart hbmem hc
    simp only [Block.fin] at this
    omega
  obtain ⟨m', hm', hlinked, hstart, hframe⟩ := insert_linked hl.spots (b := b) k.separated
    (by omega)
    (List.forall_mem_cons.mpr ⟨⟨hbspot, hbstart, hbhigh⟩, fun c hc =>
      ⟨k.spot (.inl hc), k.ne_start hl (.inl hc), (k.bounds (.inl hc)).2⟩⟩)
    (fun c hc => k.free_apart hbmem hc) (k.length_lt hl)
    ((hf.size (by simpa using hbs)).trans k.startSize) (by have := hl.start_fits; omega) hsize
    (hf.linked (by simpa using hbs) (by simpa using hbL) k.linked)
  have hfree : vPortFree l h (b.addr + 16) = some { h with
      mem := m'
      xFreeBytesRemaining := add32 h.xFreeBytesRemaining b.size
      xNumberOfSuccessfulFrees := add32 h.xNumberOfSuccessfulFrees 1 } := by
    rw [vPortFree, if_pos (Nat.succ_ne_zero _), hlink]
    dsimp only
    rw [hmark, k.bit, if_pos ⟨hmarked, hnull⟩, andNot_top hbtop, k.pxEnd, hm', Option.map_some,
      hsize]
  have hquiet : Quiet l (b :: L) h.mem m' := by
    refine Frame.quiet ((hf.mono (by simp)).trans hframe) fun p hp => ?_
    rcases List.mem_cons.mp hp with rfl | hp
    · exact .inl rfl
    rcases List.mem_cons.mp hp with rfl | hp
    · exact inside_addr List.mem_cons_self hbshaped
    obtain ⟨c, hc, rfl⟩ := List.mem_map.mp hp
    exact inside_addr (List.mem_cons_of_mem b hc) (k.shaped c hc)
  -- No other block in use overlaps what is free now.
  obtain ⟨hpre, hbpost, hacross⟩ := List.pairwise_append.mp k.apart
  obtain ⟨hbefore, hpost⟩ := List.pairwise_cons.mp hbpost
  have hbother : ∀ c ∈ pre ++ post, ∀ x, c.Has x → ¬b.Has x := by
    intro c hc x hx hx'
    simp only [Block.Has] at hx hx'
    rcases List.mem_append.mp hc with hc | hc
    · have := hacross c hc b List.mem_cons_self
      omega
    · have := hbefore c hc
      omega
  have hout : ∀ c ∈ pre ++ post, ∀ x, c.Has x → ¬Covers (b :: L) x := by
    intro c hc x hx hcov
    rcases covers_cons.mp hcov with hb | hL
    · exact hbother c hc x hx hb
    · exact k.disjoint x hL ⟨c, hother c hc, hx⟩
  have hsameEnd : Same h.mem m' (heapEnd l) := hquiet.same_end hl
    (List.forall_mem_cons.mpr ⟨hbhigh, fun c hc => (k.bounds (.inl hc)).2⟩)
  have hsameLive : ∀ c ∈ pre ++ post, Same h.mem m' c.addr := fun c hc =>
    hquiet.same_live hl (k.liveShaped c (hother c hc)) (k.bounds (.inr (hother c hc))).1
      (k.bounds (.inr (hother c hc))).2 (hout c hc)
  have htotal := total_place b L
  have hcap := k.capacity
  have hlive : total (pre ++ b :: post) = b.size + total (pre ++ post) := by
    rw [total_append, total_append, total_cons]
    omega
  have hadd : add32 h.xFreeBytesRemaining b.size = total L + b.size := by
    rw [k.remaining]
    refine add32_of_lt ?_
    have := g.start_ge
    omega
  refine ⟨_, hfree, ?_, hquiet, rfl⟩
  exact
    { pxEnd := k.pxEnd
      bit := k.bit
      linked := hlinked
      startSize := hstart
      endSize := hsameEnd.size.trans k.endSize
      endNext := hsameEnd.next.trans k.endNext
      separated := k.separated.place (by omega) fun c hc => k.free_apart hbmem hc
      shaped := shaped_place hbshaped k.shaped
      liveShaped := fun c hc => k.liveShaped c (hother c hc)
      marked := fun c hc => ⟨(hsameLive c hc).size.trans (k.marked c (hother c hc)).1,
        (hsameLive c hc).next.trans (k.marked c (hother c hc)).2⟩
      apart := List.pairwise_append.mpr ⟨hpre, hpost, fun c hc d hd =>
        hacross c hc d (List.mem_cons_of_mem b hd)⟩
      covers := fun x => (covers_moved x).trans (k.covers x)
      disjoint := fun x hx hx' => by
        obtain ⟨c, hc, hcx⟩ := hx'
        exact hout c hc x hcx (covers_cons.mpr ((covers_place b L x).mp hx))
      remaining := hadd.trans (htotal.trans (Nat.add_comm _ _)).symm
      capacity := by
        rw [htotal]
        omega
      least := Nat.le_trans k.least 
        (k.remaining.trans_le ((Nat.le_add_right _ _).trans hadd.ge)) }

/-- The bytes a block of `n` bytes takes: a header more, rounded up. -/
def needed (n : Nat) : Nat := (n + 16 + 15) / 16 * 16

theorem needed_mod (n : Nat) : needed n % 16 = 0 := Nat.mul_mod_left _ _

theorem le_needed (n : Nat) : n + 16 ≤ needed n := by
  rw [needed]
  omega

theorem wantedSize_eq {n : Nat} (hn : 0 < n) (htop : n < 2 ^ 31) : wantedSize n = needed n := by
  have hadd : add32 n 16 = n + 16 := add32_of_lt (by omega)
  rw [wantedSize, if_pos hn, xHeapStructSize_eq, hadd, portByteAlignment_eq]
  dsimp only
  by_cases hmod : (n + 16) % 16 = 0
  · rw [if_neg (not_not.mpr hmod), needed]
    omega
  · rw [if_pos hmod, add32_of_lt (by omega), needed]
    omega

/-- The block that is taken is split if more than the least block is left over. -/
theorem splitBlock_linked (hl : Placed l) {m : Memory} {b : Block} {L₁ L₂ : List Block} {w : Nat}
    (hsep : Separated (L₁ ++ b :: L₂)) (hshaped : ∀ c ∈ L₁ ++ b :: L₂, Shaped c)
    (hin : Within (Spot l) l.xStart (heapEnd l) (L₁ ++ b :: L₂))
    (hlow : heapStart l ≤ b.addr)
    (hlen : (L₁ ++ b :: L₂).length < configTotalHeapSize) (hw : w ≤ b.size) (hwmod : w % 16 = 0)
    (hw32 : 32 ≤ w) (hstart : xBlockSize m l.xStart = 0) (hslt : l.xStart < 2 ^ 32)
    (hb : xBlockSize m b.addr = b.size) (hL : Linked m (heapEnd l) l.xStart (L₁ ++ L₂)) :
    ∃ m', splitBlock l m (heapEnd l) b.addr w = some m' ∧
      Linked m' (heapEnd l) l.xStart
        (if 32 < b.size - w then L₁ ++ ⟨b.addr + w, b.size - w⟩ :: L₂ else L₁ ++ L₂) ∧
      xBlockSize m' b.addr = (if 32 < b.size - w then w else b.size) ∧
      xBlockSize m' l.xStart = 0 ∧ Quiet l (L₁ ++ b :: L₂) m m' := by
  obtain ⟨hsep₁, hsepb, hacross⟩ := separated_append.mp hsep
  obtain ⟨-, hbefore, hsep₂⟩ := separated_cons.mp hsepb
  have hbmem : b ∈ L₁ ++ b :: L₂ := by simp
  have hbshaped := hshaped b hbmem
  obtain ⟨hbspot, hbs, hbe⟩ := hin b hbmem
  have hlt := hl.spots.lt
  have hbe' : b.addr + b.size ≤ heapEnd l := hbe
  have hbsize : sub32 (xBlockSize m b.addr) w = b.size - w := by
    rw [hb, sub32_of_le hw (by omega)]
  have hadd : add32 b.addr w = b.addr + w := add32_of_lt (by omega)
  by_cases hsplit : 32 < b.size - w
  · have hother : ∀ c ∈ L₁ ++ L₂, c ∈ L₁ ++ b :: L₂ := by
      intro c hc
      rcases List.mem_append.mp hc with hc | hc
      · exact List.mem_append_left _ hc
      · exact List.mem_append_right _ (List.mem_cons_of_mem b hc)
    -- The rest of the block lies between its neighbours and touches neither.
    have hbehind : ∀ c ∈ L₁, c.addr < b.addr + w ∧ c.fin < b.addr := by
      intro c hc
      have := hacross c hc b List.mem_cons_self
      simp only [Block.fin] at *
      omega
    have hfront : ∀ c ∈ L₂, b.addr + b.size < c.addr := hbefore
    have hrspot : Spot l (b.addr + w) := by
      obtain ⟨hbmod, -, -⟩ := hbshaped
      exact .inr ⟨by omega, by omega, by omega⟩
    have hrs : b.addr + w ≠ l.xStart := hl.ne_start (by omega) (by omega)
    have hnodes : ∀ c ∈ L₁ ++ L₂, Spot l c.addr ∧ c.addr ≠ l.xStart ∧
        c.addr ≠ b.addr ∧ c.addr ≠ b.addr + w := by
      intro c hc
      refine ⟨(hin c (hother c hc)).1, (hin c (hother c hc)).2.1, ?_⟩
      rcases List.mem_append.mp hc with hc | hc
      · have := hbehind c hc
        have hcpos := hsep₁.pos c hc
        simp only [Block.fin] at this
        omega
      · have := hfront c hc
        omega
    have hapart := hl.spots.apart
    have hrb : Apart (b.addr + w) b.addr := hapart _ _ hrspot hbspot (by omega)
    -- The sizes of the two parts are written.
    have hf₁ := frame_setSize m (b.addr + w) (b.size - w)
    have hf₂ := frame_setSize (setBlockSize m (b.addr + w) (b.size - w)) b.addr w
    have hf : Frame [b.addr + w, b.addr] m
        (setBlockSize (setBlockSize m (b.addr + w) (b.size - w)) b.addr w) :=
      (hf₁.mono (by simp)).trans (hf₂.mono (by simp))
    have hrsize : xBlockSize (setBlockSize (setBlockSize m (b.addr + w) (b.size - w)) b.addr w)
        (b.addr + w) = b.size - w := by
      rw [hf₂.size (by simpa using hrb.symm), size_setSize _ _ (by omega)]
    have hbsize' : xBlockSize (setBlockSize (setBlockSize m (b.addr + w) (b.size - w)) b.addr w)
        b.addr = w :=
      size_setSize _ _ (by omega)
    have hsApart : ∀ q ∈ [b.addr + w, b.addr], Apart q l.xStart := by
      simpa using ⟨hapart _ _ hrspot (.inl rfl) hrs, hapart _ _ hbspot (.inl rfl) hbs⟩
    have hLApart : ∀ c ∈ L₁ ++ L₂, ∀ q ∈ [b.addr + w, b.addr], Apart q c.addr := by
      intro c hc
      obtain ⟨hspot, -, hne, hner⟩ := hnodes c hc
      simpa using ⟨hapart _ _ hrspot hspot hner.symm, hapart _ _ hbspot hspot hne.symm⟩
    obtain ⟨m', hm', hlinked, hs', hframe⟩ := insert_linked hl.spots
      (b := ⟨b.addr + w, b.size - w⟩) (L := L₁ ++ L₂)
      (separated_append.mpr ⟨hsep₁, hsep₂, fun a ha c hc =>
        hacross a ha c (List.mem_cons_of_mem b hc)⟩)
      (Nat.zero_lt_of_lt hsplit)
      (List.forall_mem_cons.mpr ⟨⟨hrspot, hrs, by simp only [Block.fin]; omega⟩,
        fun c hc => hin c (hother c hc)⟩)
      (fun c hc => by
        rcases List.mem_append.mp hc with hc | hc
        · have := hbehind c hc
          simp only [Block.fin] at *
          omega
        · have := hfront c hc
          simp only [Block.fin] at *
          omega)
      (by simp only [List.length_append, List.length_cons] at hlen ⊢; omega)
      ((hf.size hsApart).trans hstart) hslt hrsize (hf.linked hsApart hLApart hL)
    have hplace : place ⟨b.addr + w, b.size - w⟩ (L₁ ++ L₂) =
        L₁ ++ ⟨b.addr + w, b.size - w⟩ :: L₂ := by
      rw [place_append L₂ fun c hc => ⟨(hbehind c hc).1, by
          have := (hbehind c hc).2
          dsimp only
          omega⟩, place_of_le fun c hc => by have := hfront c hc; dsimp only; omega]
      cases L₂ with
      | nil => rfl
      | cons c L₂ =>
          have := hfront c List.mem_cons_self
          rw [join, if_neg (by simp only [Block.fin]; omega)]
    refine ⟨m', ?_, ?_, ?_, hs', ?_⟩
    · rw [splitBlock, hbsize, heapMinimumBlockSize_eq, if_pos hsplit, hadd]
      exact hm'
    · rw [if_pos hsplit, ← hplace]
      exact hlinked
    · rw [if_pos hsplit, hframe.size ?_, hbsize']
      intro q hq
      rcases List.mem_cons.mp hq with rfl | hq
      · exact hapart _ _ (.inl rfl) hbspot hbs.symm
      rcases List.mem_cons.mp hq with rfl | hq
      · exact hrb
      obtain ⟨c, hc, rfl⟩ := List.mem_map.mp hq
      exact hapart _ _ (hnodes c hc).1 hbspot (hnodes c hc).2.2.1
    · refine Frame.quiet ((hf.mono (by simp)).trans (hframe.mono ?_) :
        Frame (l.xStart :: (b.addr + w) :: b.addr :: (L₁ ++ L₂).map Block.addr) m m') ?_
      · intro q hq
        simp only [List.mem_cons] at hq ⊢
        exact hq.imp_right fun h => h.imp_right .inr
      · intro q hq
        rcases List.mem_cons.mp hq with rfl | hq
        · exact .inl rfl
        rcases List.mem_cons.mp hq with rfl | hq
        · exact .inr ⟨b, hbmem, Nat.le_add_right _ _, by simp only [Block.fin]; omega⟩
        rcases List.mem_cons.mp hq with rfl | hq
        · exact inside_addr hbmem hbshaped
        obtain ⟨c, hc, rfl⟩ := List.mem_map.mp hq
        exact inside_addr (hother c hc) (hshaped c (hother c hc))
  · refine ⟨m, ?_, ?_, ?_, hstart, fun _ _ _ => rfl⟩
    · rw [splitBlock, hbsize, heapMinimumBlockSize_eq, if_neg hsplit]
    · rw [if_neg hsplit]
      exact hL
    · rw [if_neg hsplit]
      exact hb

theorem Keeps.addr_ne_zero (hl : Placed l) (k : Keeps l h L live) {b : Block} (hb : b ∈ L) :
    b.addr ≠ 0 := by
  have hbounds := (k.bounds (.inl hb)).1
  have hs := hl.geometry.start_ge
  have hpos := hl.heap_pos
  omega

/-- **No block** is large enough. -/
theorem Keeps.malloc_none (hl : Placed l) (k : Keeps l h L live) {n : Nat} (hn : n < 2 ^ 32)
    (hnone : n = 0 ∨ firstFit (needed n) heapMinimumBlockSize L = none) :
    h.allocate l n = some (h, 0) := by
  rw [Heap.allocate, k.bit]
  by_cases htop : n &&& 2 ^ 31 = 0
  · rw [if_neg (not_not.mpr htop)]
    dsimp only
    by_cases hfit : 0 < wantedSize n ∧ wantedSize n ≤ h.xFreeBytesRemaining
    · have hn0 : 0 < n := by
        rcases Nat.eq_zero_or_pos n with rfl | hpos
        · exact absurd hfit.1 (Nat.lt_irrefl 0)
        · exact hpos
      have hsmall := firstFit_eq_none.mp (hnone.resolve_left (Nat.ne_of_gt hn0))
      rw [if_pos hfit, wantedSize_eq hn0 ((and_top_eq_zero hn).mp htop)]
      have g := hl.geometry
      have hend : heapEnd l ≠ 0 := by
        have := g.end_ge
        omega
      have hwalk := findBlock_none hsmall (fun c hc => k.addr_ne_zero hl hc) hend k.endNext k.linked
        (k.length_lt hl)
      rw [hwalk, Option.bind_some, ← k.pxEnd, Heap.take, if_neg fun hne => hne rfl]
    · rw [if_neg hfit]
  · rw [if_pos htop]

theorem ite_lt_eq_min (free least : Nat) :
    (if free < least then free else least) = min least free := by
  split_ifs <;> omega

/-- What is left over is a block, too. -/
theorem shaped_left {b₀ b : Block} {L₁ L₂ L' : List Block} {w : Nat} (hw : w % 16 = 0)
    (hw32 : 32 ≤ w) (hshaped : ∀ c ∈ L₁ ++ b₀ :: L₂, Shaped c)
    (hsplit : (b, L') = if 32 < b₀.size - w then
        (⟨b₀.addr, w⟩, L₁ ++ ⟨b₀.addr + w, b₀.size - w⟩ :: L₂) else (b₀, L₁ ++ L₂)) :
    Shaped b ∧ (∀ c ∈ L', Shaped c) ∧ b.addr = b₀.addr ∧
      b.size = (if 32 < b₀.size - w then w else b₀.size) ∧
      L' = if 32 < b₀.size - w then L₁ ++ ⟨b₀.addr + w, b₀.size - w⟩ :: L₂ else L₁ ++ L₂ := by
  obtain ⟨h₁, hb₂⟩ := List.forall_mem_append.mp hshaped
  obtain ⟨hb₀, h₂⟩ := List.forall_mem_cons.mp hb₂
  split_ifs at hsplit ⊢ with hlarge
  · obtain ⟨rfl, rfl⟩ := Prod.mk.inj hsplit
    refine ⟨?_, List.forall_mem_append.mpr ⟨h₁, List.forall_mem_cons.mpr ⟨?_, h₂⟩⟩, rfl, rfl, rfl⟩
    · exact ⟨hb₀.1, hw, hw32⟩
    · simp only [Shaped] at *
      omega
  · obtain ⟨rfl, rfl⟩ := Prod.mk.inj hsplit
    exact ⟨hb₀, List.forall_mem_append.mpr ⟨h₁, h₂⟩, rfl, rfl, rfl⟩

/-- **The first block** that is large enough is taken. -/
theorem Keeps.malloc_some (hl : Placed l) (k : Keeps l h L live) {n : Nat} (hn : 0 < n) {b : Block}
    {L' : List Block} (hfit : firstFit (needed n) heapMinimumBlockSize L = some (b, L')) :
    ∃ h', h.allocate l n = some (h', b.addr + 16) ∧ Keeps l h' L' (b :: live) ∧
      Quiet l L h.mem h'.mem ∧
      h'.xMinimumEverFreeBytesRemaining =
        min h.xMinimumEverFreeBytesRemaining h'.xFreeBytesRemaining := by
  have g := hl.geometry
  have hneed := le_needed n
  have hw32 : 32 ≤ needed n := by
    have := needed_mod n
    omega
  have t := firstFit_spec k.separated (Nat.lt_of_lt_of_le (by omega) hneed) hfit
  obtain ⟨L₁, b₀, L₂, rfl, hsmall, henough, hsplit⟩ := firstFit_at hfit
  rw [heapMinimumBlockSize_eq] at hsplit
  have hb₀ : b₀ ∈ L₁ ++ b₀ :: L₂ := by simp
  have hb₀shaped := k.shaped b₀ hb₀
  obtain ⟨hlow, hhigh⟩ := k.bounds (.inl hb₀)
  have htotal := k.total_lt hl
  have hb₀le := size_le_total hb₀
  have hend := hl.spots.lt
  have hhigh' : b₀.addr + b₀.size ≤ heapEnd l := hhigh
  have hntop : n < 2 ^ 31 := by omega
  have hin : Within (Spot l) l.xStart (heapEnd l) (L₁ ++ b₀ :: L₂) := fun c hc =>
    ⟨k.spot (.inl hc), k.ne_start hl (.inl hc), (k.bounds (.inl hc)).2⟩
  -- The block is found and unlinked.
  have hwalk := findBlock_fit hsmall henough (fun c hc => k.addr_ne_zero hl hc) k.linked
    (Nat.lt_of_le_of_lt (by simp) (k.length_lt hl))
  obtain ⟨hunlinked, hprev, hprevs⟩ := linked_unlink hl.spots k.separated hin k.linked
  have hf := frame_setNext h.mem (last l.xStart L₁) (pxNextFreeBlock h.mem b₀.addr)
  have hbsize : xBlockSize (setNextFreeBlock h.mem (last l.xStart L₁)
      (pxNextFreeBlock h.mem b₀.addr)) b₀.addr = b₀.size := by
    exact (hf.size (by simpa using hprev)).trans (k.linked.size hb₀)
  have hssize : xBlockSize (setNextFreeBlock h.mem (last l.xStart L₁)
      (pxNextFreeBlock h.mem b₀.addr)) l.xStart = 0 := by
    rcases hprevs with heq | hap
    · rw [heq, size_setNext]
      exact k.startSize
    · rw [hf.size (by simpa using hap)]
      exact k.startSize
  have hslt : l.xStart < 2 ^ 32 := by
    have := hl.start_fits
    omega
  obtain ⟨m', hm', hlinked, hbsize', hstart', hquiet'⟩ := splitBlock_linked hl k.separated k.shaped
    hin hlow (k.length_lt hl) henough (needed_mod n) hw32 hssize hslt hbsize hunlinked
  obtain ⟨hbshaped, hshaped', hbaddr, hbsz, hL'⟩ := shaped_left (needed_mod n) hw32 k.shaped hsplit
  rw [← hL'] at hlinked
  rw [← hbsz] at hbsize'
  have hbpos : 0 < b.size := Nat.lt_of_lt_of_le (by omega) t.enough
  have hcov' : ∀ x, Covers L' x → Covers (L₁ ++ b₀ :: L₂) x :=
    fun x hx => (t.covers x).mpr (.inr hx)
  -- The call.
  have hnext : pxNextFreeBlock h.mem (last l.xStart L₁) = b₀.addr :=
    (linked_append.mp k.linked).2.1
  have hcall : h.allocate l n = some (h.hand m' b₀.addr, b₀.addr + 16) := by
    have hne : b₀.addr ≠ h.pxEnd := by
      rw [k.pxEnd]
      have := hb₀shaped.2.2
      omega
    have hroom : 0 < needed n ∧ needed n ≤ h.xFreeBytesRemaining := by
      rw [k.remaining]
      omega
    rw [Heap.allocate, k.bit, if_neg (not_not.mpr ((and_top_eq_zero (by omega)).mpr hntop)),
      wantedSize_eq hn hntop, if_pos hroom, hwalk, Option.bind_some, Heap.take, if_pos hne, hnext,
      k.pxEnd]
    dsimp only
    rw [hm', Option.map_some, xHeapStructSize_eq, add32_of_lt (by omega)]
  -- The mark on the block.
  have htop : b.size < 2 ^ 31 := by
    have := t.total_eq
    omega
  have hf₁ := frame_setSize m' b₀.addr (b.size + 2 ^ 31)
  have hf₂ := frame_setNext (setBlockSize m' b₀.addr (b.size + 2 ^ 31)) b₀.addr 0
  have hf' := hf₁.trans hf₂
  have hmem : (h.hand m' b₀.addr).mem =
      setNextFreeBlock (setBlockSize m' b₀.addr (b.size + 2 ^ 31)) b₀.addr 0 := by
    rw [Heap.hand, hbsize', k.bit, or_top htop]
  have hquiet : Quiet l (L₁ ++ b₀ :: L₂) h.mem (h.hand m' b₀.addr).mem := by
    rw [hmem]
    refine Quiet.trans (Frame.quiet hf ?_) (hquiet'.trans (Frame.quiet hf' ?_))
    · rintro p hp
      rw [List.mem_singleton.mp hp]
      rcases last_mem l.xStart L₁ with heq | ⟨a, ha, heq⟩
      · exact .inl heq
      · rw [heq]
        exact inside_addr (by simp [ha]) (k.shaped a (by simp [ha]))
    · rintro p hp
      rw [List.mem_singleton.mp hp]
      exact inside_addr hb₀ hb₀shaped
  have hspot' : ∀ c ∈ L', Spot l c.addr ∧ c.addr ≠ b₀.addr := by
    intro c hc
    have hcs := hshaped' c hc
    have hhas : c.Has c.addr := Block.has_addr (t.separated.pos c hc)
    have hbound := (k.covers c.addr).mp (.inl (hcov' _ ⟨c, hc, hhas⟩))
    refine ⟨.inr ⟨hbound.1, Nat.le_of_lt hbound.2, hcs.1⟩, fun heq => ?_⟩
    refine t.gone c.addr ?_ ⟨c, hc, hhas⟩
    rw [heq, ← hbaddr]
    exact Block.has_addr hbpos
  have hb₀spot := k.spot (.inl hb₀)
  have hb₀ne := k.ne_start hl (.inl hb₀)
  have hend' : ∀ c ∈ L₁ ++ b₀ :: L₂, c.fin ≤ heapEnd l := fun c hc => (k.bounds (.inl hc)).2
  have hsameEnd := hquiet.same_end hl hend'
  have hsameLive : ∀ c ∈ live, Same h.mem (h.hand m' b₀.addr).mem c.addr := fun c hc =>
    hquiet.same_live hl (k.liveShaped c hc) (k.bounds (.inr hc)).1 (k.bounds (.inr hc)).2
      fun x hx hcov => k.disjoint x hcov ⟨c, hc, hx⟩
  have hfree : (h.hand m' b₀.addr).xFreeBytesRemaining = total L' := by
    have htot := t.total_eq
    show sub32 h.xFreeBytesRemaining (xBlockSize m' b₀.addr) = total L'
    rw [k.remaining, hbsize', sub32_of_le (by omega) (by omega)]
    omega
  have hleast : (h.hand m' b₀.addr).xMinimumEverFreeBytesRemaining =
      min h.xMinimumEverFreeBytesRemaining (h.hand m' b₀.addr).xFreeBytesRemaining :=
    ite_lt_eq_min _ _
  refine ⟨_, by rw [hcall, hbaddr], ?_, hquiet, hleast⟩
  exact
    { pxEnd := k.pxEnd
      bit := k.bit
      linked := by
        rw [hmem]
        refine hf'.linked ?_ (fun c hc => ?_) hlinked
        · simpa using hl.spots.apart _ _ hb₀spot (.inl rfl) hb₀ne
        · simpa using hl.spots.apart _ _ hb₀spot (hspot' c hc).1 (hspot' c hc).2.symm
      startSize := by
        rw [hmem, hf'.size (by simpa using hl.spots.apart _ _ hb₀spot (.inl rfl) hb₀ne)]
        exact hstart'
      endSize := hsameEnd.size.trans k.endSize
      endNext := hsameEnd.next.trans k.endNext
      separated := t.separated
      shaped := hshaped'
      liveShaped := List.forall_mem_cons.mpr ⟨hbshaped, k.liveShaped⟩
      marked := by
        refine List.forall_mem_cons.mpr ⟨?_, fun c hc => ?_⟩
        · rw [hmem, hbaddr, size_setNext, size_setSize _ _ (by omega),
            next_setNext _ _ (by decide)]
          exact ⟨rfl, rfl⟩
        · exact ⟨(hsameLive c hc).size.trans (k.marked c hc).1,
            (hsameLive c hc).next.trans (k.marked c hc).2⟩
      apart := by
        refine List.pairwise_cons.mpr ⟨fun c hc => ?_, k.apart⟩
        have hcsize := (k.liveShaped c hc).2.2
        exact Block.apart_of_disjoint hbpos (by omega) fun x hx hx' =>
          k.disjoint x ((t.covers x).mpr (.inl hx)) ⟨c, hc, hx'⟩
      covers := fun x => by
        rw [← k.covers x, t.covers x, covers_cons, ← or_assoc, or_comm (a := Covers L' x)]
      disjoint := fun x hx hx' => by
        rcases covers_cons.mp hx' with hb | hlive
        · exact t.gone x hb hx
        · exact k.disjoint x (hcov' x hx) hlive
      remaining := hfree
      capacity := by
        have htot := t.total_eq
        have hcap := k.capacity
        rw [total_cons]
        omega
      least := by
        rw [hleast]
        exact Nat.min_le_right _ _ }

/-- Two blocks in use, in either order. -/
theorem pairwise_mem {M : List Block} (hM : M.Pairwise fun b c => b.fin ≤ c.addr ∨ c.fin ≤ b.addr)
    {b c : Block} (hb : b ∈ M) (hc : c ∈ M) (hne : b ≠ c) : b.fin ≤ c.addr ∨ c.fin ≤ b.addr := by
  induction hM with
  | nil => exact absurd hb List.not_mem_nil
  | cons hbefore _ ih =>
      rcases List.mem_cons.mp hb with rfl | hbM
      · rcases List.mem_cons.mp hc with rfl | hcM
        · exact absurd rfl hne
        · exact hbefore c hcM
      · rcases List.mem_cons.mp hc with rfl | hcM
        · exact (hbefore b hbM).symm
        · exact ih hbM hcM

/-- **`prvHeapInit`** makes one free block. -/
theorem Keeps.init (hl : Placed l) (h : Heap) :
    Keeps l (prvHeapInit l h) [⟨heapStart l, heapEnd l - heapStart l⟩] [] ∧
      (prvHeapInit l h).xMinimumEverFreeBytesRemaining =
        (prvHeapInit l h).xFreeBytesRemaining := by
  obtain ⟨hsmod, hemod, hsge, hslt, hege, hele⟩ := hl.geometry
  have hlt := hl.spots.lt
  have hfits := hl.start_fits
  have hsub : sub32 (heapEnd l) (heapStart l) = heapEnd l - heapStart l :=
    sub32_of_le (by omega) hlt
  have hspotS : Spot l (heapStart l) := .inr ⟨Nat.le_refl _, by omega, hsmod⟩
  have hspotE : Spot l (heapEnd l) := .inr ⟨by omega, Nat.le_refl _, hemod⟩
  have hXS : Apart (heapStart l) l.xStart :=
    hl.spots.apart _ _ hspotS (.inl rfl) (hl.ne_start (Nat.le_refl _) (by omega))
  have hXE : Apart (heapEnd l) l.xStart :=
    hl.spots.apart _ _ hspotE (.inl rfl) (hl.ne_start (by omega) (Nat.le_refl _))
  have hSE : Apart (heapStart l) (heapEnd l) :=
    hl.spots.apart _ _ hspotS hspotE (by omega)
  -- The writes, header by header.
  let m₁ := setBlockSize (setNextFreeBlock h.mem l.xStart (heapStart l)) l.xStart 0
  let m₂ := setNextFreeBlock (setBlockSize m₁ (heapEnd l) 0) (heapEnd l) 0
  let m₃ := setNextFreeBlock (setBlockSize m₂ (heapStart l) (heapEnd l - heapStart l)) (heapStart l)
    (heapEnd l)
  have hmem : (prvHeapInit l h).mem = m₃ :=
    congrArg (fun n => setNextFreeBlock (setBlockSize m₂ (heapStart l) n) (heapStart l) (heapEnd l))
      hsub
  have hf₂ : Frame [heapEnd l] m₁ m₂ := (frame_setSize _ _ _).trans (frame_setNext _ _ _)
  have hf₃ : Frame [heapStart l] m₂ m₃ := (frame_setSize _ _ _).trans (frame_setNext _ _ _)
  have hX : Same m₁ m₃ l.xStart := fun x h₁ h₂ =>
    (hf₃.same (by simpa using hXS) x h₁ h₂).trans (hf₂.same (by simpa using hXE) x h₁ h₂)
  have hE : Same m₂ m₃ (heapEnd l) := hf₃.same (by simpa using hSE)
  have hsizeS : xBlockSize m₃ (heapStart l) = heapEnd l - heapStart l :=
    (size_setNext _ _ _).trans (size_setSize _ _ (by omega))
  have hfree : (prvHeapInit l h).xFreeBytesRemaining = heapEnd l - heapStart l := by
    have hdef : (prvHeapInit l h).xFreeBytesRemaining =
        xBlockSize (prvHeapInit l h).mem (heapStart l) := rfl
    rw [hdef, hmem, hsizeS]
  refine ⟨?_, rfl⟩
  exact
    { pxEnd := rfl
      bit := rfl
      linked := by
        rw [hmem]
        exact ⟨hX.next.trans ((next_setSize _ _ _).trans (next_setNext _ _ (by omega))), hsizeS,
          next_setNext _ _ hlt⟩
      startSize := by
        rw [hmem, hX.size]
        exact size_setSize _ _ (by decide)
      endSize := by
        rw [hmem, hE.size]
        exact (size_setNext _ _ _).trans (size_setSize _ _ (by decide))
      endNext := by
        rw [hmem, hE.next]
        exact next_setNext _ _ (by decide)
      separated := separated_cons.mpr ⟨by dsimp only; omega,
        fun _ hc => absurd hc List.not_mem_nil, separated_nil⟩
      shaped := List.forall_mem_singleton.mpr (by simp only [Shaped]; omega)
      liveShaped := fun _ hc => absurd hc List.not_mem_nil
      marked := fun _ hc => absurd hc List.not_mem_nil
      apart := .nil
      covers := fun x => by
        rw [covers_cons]
        simp only [Block.Has, Block.fin, covers_nil, or_false]
        omega
      disjoint := fun x _ => covers_nil x
      remaining := hfree.trans (total_singleton ⟨heapStart l, heapEnd l - heapStart l⟩).symm
      capacity := by rw [total_singleton, total_nil, Nat.add_zero]
      least := Nat.le_refl _ }

/-- **The callers' bytes.**  What is written behind the headers of the blocks in use does not
matter. -/
theorem Keeps.congr (hl : Placed l) (k : Keeps l h L live) {m' : Memory}
    (hm' : ∀ x, (∀ b ∈ live, x < b.addr + 16 ∨ b.fin ≤ x) → m' x = h.mem x) :
    Keeps l { h with mem := m' } L live := by
  have hfree : ∀ b ∈ L, Same h.mem m' b.addr := by
    intro b hb x h₁ h₂
    refine hm' x fun c hc => ?_
    have hsize := (k.shaped b hb).2.2
    have := k.free_apart hc hb
    simp only [Block.fin] at *
    omega
  have houtside : ∀ p, (p + 8 ≤ heapStart l ∨ heapEnd l ≤ p) → Same h.mem m' p := by
    intro p hp x h₁ h₂
    refine hm' x fun c hc => ?_
    have hbounds := k.bounds (.inr hc)
    omega
  have hstart : Same h.mem m' l.xStart := by
    refine houtside _ ?_
    have g := hl.geometry
    have h₁ := g.start_ge
    have h₂ := g.end_le
    have h₃ := hl.start_apart
    rw [configTotalHeapSize_eq] at h₃
    omega
  have hend : Same h.mem m' (heapEnd l) := houtside _ (.inr (Nat.le_refl _))
  have hlive : ∀ b ∈ live, Same h.mem m' b.addr := by
    intro b hb x h₁ h₂
    refine hm' x fun c hc => ?_
    have hbsize := (k.liveShaped b hb).2.2
    have hcsize := (k.liveShaped c hc).2.2
    rcases eq_or_ne b c with rfl | hne
    · omega
    · have := pairwise_mem k.apart hb hc hne
      simp only [Block.fin] at *
      omega
  exact
    { k with
      linked := k.linked.congr hstart hfree
      startSize := hstart.size.trans k.startSize
      endSize := hend.size.trans k.endSize
      endNext := hend.next.trans k.endNext
      marked := fun b hb => ⟨(hlive b hb).size.trans (k.marked b hb).1,
        (hlive b hb).next.trans (k.marked b hb).2⟩ }

end TelinkB91.Rtos
