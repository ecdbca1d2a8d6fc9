import TelinkB91.Rtos.HeapRuns

/-!
# Rtos — the counters of the heap

`xPortGetFreeHeapSize`, `xPortGetMinimumEverFreeHeapSize` and `vPortGetHeapStats`.  The loop of the
last one is entered with the first block of the list and left when `pxEnd` follows: without a free
block it is entered with `pxEnd` itself and goes on at `NULL`.

* `bytes_accounted`: the free bytes are those of no block in use, the least ever free is the least
  of the run, and a heap that got everything back is one block.
* `stats_exact_iff`: the statistics are those of the free blocks, and the loop does not leave the
  list, just when there is a free byte.
-/

namespace TelinkB91.Rtos

open WordMemory Intervals

/-- `HeapStats_t`. -/
structure HeapStats where
  xAvailableHeapSpaceInBytes : Nat
  xSizeOfLargestFreeBlockInBytes : Nat
  xSizeOfSmallestFreeBlockInBytes : Nat
  xNumberOfFreeBlocks : Nat
  xMinimumEverFreeBytesRemaining : Nat
  xNumberOfSuccessfulAllocations : Nat
  xNumberOfSuccessfulFrees : Nat

/-- `portMAX_DELAY`. -/
def portMaxDelay : Nat := 2 ^ 32 - 1

/-- The three values of the loop: `xBlocks`, `xMaxSize` and `xMinSize`. -/
structure Tally where
  xBlocks : Nat
  xMaxSize : Nat
  xMinSize : Nat
  deriving DecidableEq, Repr

/-- One block is counted. -/
def Tally.count (t : Tally) (size : Nat) : Tally where
  xBlocks := add32 t.xBlocks 1
  xMaxSize := if size > t.xMaxSize then size else t.xMaxSize
  xMinSize := if size < t.xMinSize then size else t.xMinSize

/-- The loop of `vPortGetHeapStats`: the headers it reads, and the values at its end. -/
def statsLoop (m : Memory) (pxEnd : Nat) : Nat → Nat → Tally → List Nat × Option Tally
  | 0, _, _ => ([], none)
  | k + 1, pxBlock, t =>
      let t := t.count (xBlockSize m pxBlock)
      if pxNextFreeBlock m pxBlock ≠ pxEnd then
        let r := statsLoop m pxEnd k (pxNextFreeBlock m pxBlock) t
        (pxBlock :: r.1, r.2)
      else ([pxBlock], some t)

/-- The loop from where `vPortGetHeapStats` enters it. -/
def Heap.walk (l : Link) (h : Heap) : List Nat × Option Tally :=
  if pxNextFreeBlock h.mem l.xStart ≠ 0 then
    statsLoop h.mem h.pxEnd configTotalHeapSize (pxNextFreeBlock h.mem l.xStart)
      ⟨0, 0, portMaxDelay⟩
  else ([], some ⟨0, 0, portMaxDelay⟩)

/-- `vPortGetHeapStats`. -/
def vPortGetHeapStats (l : Link) (h : Heap) : Option HeapStats :=
  (h.walk l).2.map fun t =>
    { xAvailableHeapSpaceInBytes := h.xFreeBytesRemaining
      xSizeOfLargestFreeBlockInBytes := t.xMaxSize
      xSizeOfSmallestFreeBlockInBytes := t.xMinSize
      xNumberOfFreeBlocks := t.xBlocks
      xMinimumEverFreeBytesRemaining := h.xMinimumEverFreeBytesRemaining
      xNumberOfSuccessfulAllocations := h.xNumberOfSuccessfulAllocations
      xNumberOfSuccessfulFrees := h.xNumberOfSuccessfulFrees }

variable {l : Link} {c : Client}

/-! ## The bytes -/

theorem Sound.bytes (s : Sound l c) (hc : c.heap.pxEnd ≠ 0) :
    c.heap.xFreeBytesRemaining + total c.blocks = heapEnd l - heapStart l := by
  rcases s.kept with ⟨hend, -⟩ | ⟨L, k⟩
  · exact absurd hend hc
  · rw [k.remaining]
    exact k.capacity

/-- How a step changes the least ever free. -/
theorem Sound.step_least (hl : Placed l) (s : Sound l c) {i : Call} (hi : Allowed c i)
    (hc : (c.step l i).heap.pxEnd ≠ 0) :
    (c.step l i).heap.xMinimumEverFreeBytesRemaining =
      if c.heap.pxEnd = 0 then (c.step l i).heap.xFreeBytesRemaining
      else min c.heap.xMinimumEverFreeBytesRemaining (c.step l i).heap.xFreeBytesRemaining := by
  cases i with
  | malloc n =>
      have hready : c.heap.pxEnd = 0 → (c.heap.ready l).xMinimumEverFreeBytesRemaining =
          (c.heap.ready l).xFreeBytesRemaining := fun hend => by
        rw [Heap.ready, if_pos hend]
        exact (Keeps.init hl c.heap).2
      have hready' : c.heap.pxEnd ≠ 0 → c.heap.ready l = c.heap := fun hend => by
        rw [Heap.ready, if_neg hend]
      obtain ⟨L, k, ⟨-, hcall⟩ | ⟨b, L', h', -, hfit, hcall, k', -, hmin⟩⟩ := s.malloc hl n.isLt
      · rw [Client.step, hcall]
        dsimp only
        split_ifs with hend
        · exact hready hend
        · rw [hready' hend]
          rw [hready' hend] at k
          exact (Nat.min_eq_left k.least).symm
      · rw [Client.step, hcall]
        dsimp only
        rw [hmin]
        split_ifs with hend
        · have t := firstFit_spec k.separated
            (Nat.lt_of_lt_of_le (by omega) (le_needed n.toNat)) hfit
          have htot := t.total_eq
          rw [hready hend, k.remaining, k'.remaining]
          omega
        · rw [hready' hend]
  | free p =>
      rcases hi with rfl | ⟨a, ha, rfl⟩
      · have hcall : vPortFree l c.heap 0 = some c.heap := rfl
        rw [Client.step, hcall] at hc ⊢
        rcases s.kept with ⟨hend, -⟩ | ⟨L, k⟩
        · exact absurd hend hc
        · rw [if_neg (k.pxEnd_ne_zero hl)]
          exact (Nat.min_eq_left k.least).symm
      · obtain ⟨L, h', pre, post, hsplit, hfilter, k, hcall, k', q, hmin⟩ := s.free hl ha
        rw [Client.step, hcall, if_neg (k.pxEnd_ne_zero hl)]
        dsimp only
        rw [hmin]
        exact (Nat.min_eq_left (hmin ▸ k'.least)).symm
  | store x v =>
      rcases s.kept with ⟨hend, -⟩ | ⟨L, k⟩
      · exact absurd hend hc
      · rw [if_neg (k.pxEnd_ne_zero hl)]
        exact (Nat.min_eq_left k.least).symm

/-- The heap is initialised once. -/
theorem Sound.step_pxEnd (hl : Placed l) (s : Sound l c) {i : Call} (hi : Allowed c i)
    (hc : c.heap.pxEnd ≠ 0) : (c.step l i).heap.pxEnd ≠ 0 := by
  rcases (s.step hl hi).kept with ⟨hend, -⟩ | ⟨L, k⟩
  · cases i with
    | malloc n =>
        obtain ⟨L, k, ⟨-, hcall⟩ | ⟨b, L', h', -, -, hcall, k', -⟩⟩ := s.malloc hl n.isLt
        · rw [Client.step, hcall]
          exact k.pxEnd_ne_zero hl
        · rw [Client.step, hcall]
          exact k'.pxEnd_ne_zero hl
    | free p =>
        rcases hi with rfl | ⟨a, ha, rfl⟩
        · exact hc
        · obtain ⟨L, h', pre, post, -, -, -, hcall, k', -⟩ := s.free hl ha
          rw [Client.step, hcall]
          exact k'.pxEnd_ne_zero hl
    | store x v => exact hc
  · exact k.pxEnd_ne_zero hl

/-- The least ever free is the least of the states of the run. -/
theorem least_ever (hl : Placed l) (m : Memory) {calls : List Call}
    (h : Runs.Along (Client.step l) Allowed (.boot m) calls) :
    let c := Runs.runFrom (Client.step l) (.boot m) calls
    let states := (Runs.visited (Client.step l) (.boot m) calls).filter fun t => t.heap.pxEnd ≠ 0
    (c.heap.pxEnd = 0 → states = []) ∧
      (c.heap.pxEnd ≠ 0 →
        (∃ t ∈ states, t.heap.xFreeBytesRemaining = c.heap.xMinimumEverFreeBytesRemaining) ∧
        ∀ t ∈ states, c.heap.xMinimumEverFreeBytesRemaining ≤ t.heap.xFreeBytesRemaining) := by
  induction calls using List.reverseRecOn with
  | nil => exact ⟨fun _ => rfl, fun hne => absurd rfl hne⟩
  | append_singleton calls i ih =>
      obtain ⟨hcalls, hi, -⟩ := Runs.along_append.mp h
      obtain ⟨ih₀, ih₁⟩ := ih hcalls
      have s := sound_run hl m hcalls
      dsimp only at ih₀ ih₁ ⊢
      rw [Runs.runFrom_append, Runs.visited_append, List.filter_append]
      rw [Runs.runFrom_cons, Runs.runFrom_nil, Runs.visited, Runs.visited]
      refine ⟨fun hend => ?_, fun hend => ?_⟩
      · have hbefore := not_imp_not.mp (s.step_pxEnd hl hi) hend
        rw [ih₀ hbefore, List.nil_append, List.filter_cons_of_neg (by simpa using hend),
          List.filter_nil]
      · rw [List.filter_cons_of_pos (by simpa using hend), List.filter_nil,
          s.step_least hl hi hend]
        by_cases hbefore :
            (Runs.runFrom (Client.step l) (Client.boot m) calls).heap.pxEnd = 0
        · rw [if_pos hbefore, ih₀ hbefore, List.nil_append]
          exact ⟨⟨_, List.mem_cons_self, rfl⟩, List.forall_mem_singleton.mpr (Nat.le_refl _)⟩
        · obtain ⟨⟨t, ht, hteq⟩, hall⟩ := ih₁ hbefore
          rw [if_neg hbefore]
          refine ⟨?_, List.forall_mem_append.mpr ⟨fun u hu => ?_, ?_⟩⟩
          · -- The least is that of before or that of the new state.
            rcases Nat.le_total
              (Runs.runFrom (Client.step l) (.boot m) calls).heap.xMinimumEverFreeBytesRemaining
              ((Runs.runFrom (Client.step l) (.boot m) calls).step l i).heap.xFreeBytesRemaining
              with hle | hle
            · exact ⟨t, List.mem_append_left _ ht, by rw [Nat.min_eq_left hle, hteq]⟩
            · exact ⟨_, List.mem_append_right _ List.mem_cons_self, by rw [Nat.min_eq_right hle]⟩
          · exact Nat.le_trans (Nat.min_le_left _ _) (hall u hu)
          · exact List.forall_mem_singleton.mpr (Nat.min_le_right _ _)

/-- A heap that got everything back is one block. -/
theorem Keeps.whole (hl : Placed l) {h : Heap} {L : List Block} (k : Keeps l h L []) :
    L = [⟨heapStart l, heapEnd l - heapStart l⟩] := by
  have g := hl.geometry
  have h₁ := g.end_ge
  have h₂ := g.start_lt
  refine k.separated.eq_singleton (by omega) fun x => ?_
  have hcov := k.covers x
  simp only [covers_nil, or_false] at hcov
  rw [hcov]
  omega

/-- **The counters.**  The free bytes are those in no block in use, and a block in use is at most
the least block larger than asked for; the least ever free is that of the run; and when everything
was given back the next request gets the array from its start on. -/
theorem bytes_accounted (hl : Placed l) (m : Memory) {calls : List Call}
    (h : Runs.Along (Client.step l) Allowed (.boot m) calls) :
    let c := Runs.runFrom (Client.step l) (.boot m) calls
    let states := (Runs.visited (Client.step l) (.boot m) calls).filter fun t => t.heap.pxEnd ≠ 0
    c.heap.pxEnd ≠ 0 →
      c.heap.xFreeBytesRemaining + total c.blocks = heapEnd l - heapStart l ∧
      (∀ a ∈ c.live, needed a.2 ≤ (blockAt c.heap.mem a.1).size ∧
        (blockAt c.heap.mem a.1).size ≤ needed a.2 + heapMinimumBlockSize) ∧
      (∃ t ∈ states, t.heap.xFreeBytesRemaining = c.heap.xMinimumEverFreeBytesRemaining) ∧
      (∀ t ∈ states, c.heap.xMinimumEverFreeBytesRemaining ≤ t.heap.xFreeBytesRemaining) ∧
      (c.live = [] → ∀ n : BitVec 32, n ≠ 0 → needed n.toNat ≤ heapEnd l - heapStart l →
        ∃ h', pvPortMalloc l c.heap n.toNat = some (h', heapStart l + xHeapStructSize)) := by
  intro c states hc
  have s := sound_run hl m h
  obtain ⟨hex, hall⟩ := (least_ever hl m h).2 hc
  refine ⟨s.bytes hc, fun a ha => (s.handed a ha).2.2, hex, hall, fun hlive n hn hroom => ?_⟩
  obtain ⟨L, k, hcase⟩ := s.malloc hl n.isLt
  have hempty : (c.live.map fun a => blockAt (c.heap.ready l).mem a.1) = [] := by rw [hlive]; rfl
  have hL := Keeps.whole hl (hempty ▸ k)
  have hpos : 0 < n.toNat := by
    rw [Nat.pos_iff_ne_zero]
    exact fun h0 => hn (BitVec.toNat_inj.mp h0)
  rw [hL] at hcase
  rcases hcase with ⟨h0 | hnone, -⟩ | ⟨b, L', h', -, hfit, hcall, -⟩
  · exact absurd h0 (Nat.ne_of_gt hpos)
  · have := firstFit_eq_none.mp hnone _ List.mem_cons_self
    exact absurd hroom (Nat.not_le.mpr this)
  · refine ⟨h', ?_⟩
    rw [firstFit, if_neg (Nat.not_lt.mpr hroom)] at hfit
    have hb : b.addr = heapStart l := by
      split_ifs at hfit
      · rw [← (Prod.mk.inj (Option.some.inj hfit)).1]
      · rw [← (Prod.mk.inj (Option.some.inj hfit)).1]
    rw [hcall, hb, xHeapStructSize_eq]

/-- The counters with two blocks in use. -/
theorem bytes_accounted_sample :
    let c := Runs.runFrom (Client.step sampleLink) (.boot fun _ => 0) sampleCalls
    c.heap.xFreeBytesRemaining + total c.blocks = heapEnd sampleLink - heapStart sampleLink ∧
      ∀ a ∈ c.live, needed a.2 ≤ (blockAt c.heap.mem a.1).size := by
  obtain ⟨hbytes, hsizes, -⟩ := bytes_accounted sampleLink_placed (fun _ => 0)
    sampleCalls_allowed (by decide +kernel)
  exact ⟨hbytes, fun a ha => (hsizes a ha).1⟩

/-! ## The statistics -/

/-- The loop reads the headers of the list and counts their sizes. -/
theorem statsLoop_eq {m : Memory} {e p k : Nat} {b : Block} {L : List Block} {t : Tally}
    (h : Linked m e p (b :: L)) (hne : ∀ c ∈ L, c.addr ≠ e) (hk : L.length < k) :
    statsLoop m e k b.addr t =
      ((b :: L).map Block.addr, some (((b :: L).map Block.size).foldl Tally.count t)) := by
  induction L generalizing p k b t with
  | nil =>
      obtain ⟨k, rfl⟩ := Nat.exists_eq_succ_of_ne_zero (Nat.ne_zero_of_lt hk)
      have hnext : pxNextFreeBlock m b.addr = e := h.2.2
      have hsize : xBlockSize m b.addr = b.size := h.2.1
      rw [statsLoop, hnext, hsize, if_neg fun hne => hne rfl]
      rfl
  | cons a L ih =>
      obtain ⟨k, rfl⟩ := Nat.exists_eq_succ_of_ne_zero (Nat.ne_zero_of_lt hk)
      have hnext : pxNextFreeBlock m b.addr = a.addr := h.2.2.1
      have hsize : xBlockSize m b.addr = b.size := h.2.1
      rw [statsLoop, hnext, hsize, if_pos (hne a List.mem_cons_self),
        ih h.2.2 (fun c hc => hne c (List.mem_cons_of_mem a hc)) (Nat.lt_of_succ_lt_succ hk)]
      rfl

/-- The values of the loop after the sizes `ss`. -/
structure Counted (t : Tally) (ss : List Nat) (r : Tally) : Prop where
  blocks : r.xBlocks = (t.xBlocks + ss.length) % 2 ^ 32
  max_ge : ∀ s ∈ ss, s ≤ r.xMaxSize
  max_from : r.xMaxSize = t.xMaxSize ∨ r.xMaxSize ∈ ss
  max_start : t.xMaxSize ≤ r.xMaxSize
  min_le : ∀ s ∈ ss, r.xMinSize ≤ s
  min_from : r.xMinSize = t.xMinSize ∨ r.xMinSize ∈ ss
  min_start : r.xMinSize ≤ t.xMinSize

theorem counted_foldl (ss : List Nat) {t : Tally} (ht : t.xBlocks < 2 ^ 32) :
    Counted t ss (ss.foldl Tally.count t) := by
  induction ss generalizing t with
  | nil =>
      exact ⟨(Nat.mod_eq_of_lt ht).symm, by simp, .inl rfl, Nat.le_refl _, by simp, .inl rfl,
        Nat.le_refl _⟩
  | cons s ss ih =>
      have hlt : (t.count s).xBlocks < 2 ^ 32 := Nat.mod_lt _ (by decide)
      obtain ⟨h₁, h₂, h₃, h₄, h₅, h₆, h₇⟩ := ih hlt
      have hblocks : (t.count s).xBlocks = (t.xBlocks + 1) % 2 ^ 32 := rfl
      have hmax : (t.count s).xMaxSize = if s > t.xMaxSize then s else t.xMaxSize := rfl
      have hmin : (t.count s).xMinSize = if s < t.xMinSize then s else t.xMinSize := rfl
      rw [List.foldl_cons]
      refine ⟨?_, List.forall_mem_cons.mpr ⟨?_, h₂⟩, ?_, ?_, List.forall_mem_cons.mpr ⟨?_, h₅⟩,
        ?_, ?_⟩
      · rw [h₁, hblocks, List.length_cons]
        omega
      · split_ifs at hmax <;> omega
      · rw [List.mem_cons]
        split_ifs at hmax
        · rcases h₃ with h | h
          · exact .inr (.inl (h.trans hmax))
          · exact .inr (.inr h)
        · rcases h₃ with h | h
          · exact .inl (h.trans hmax)
          · exact .inr (.inr h)
      · split_ifs at hmax <;> omega
      · split_ifs at hmin <;> omega
      · rw [List.mem_cons]
        split_ifs at hmin
        · rcases h₆ with h | h
          · exact .inr (.inl (h.trans hmin))
          · exact .inr (.inr h)
        · rcases h₆ with h | h
          · exact .inl (h.trans hmin)
          · exact .inr (.inr h)
      · split_ifs at hmin <;> omega

/-- The statistics are those of the blocks `L`. -/
structure HeapStats.Of (st : HeapStats) (L : List Block) : Prop where
  number : st.xNumberOfFreeBlocks = L.length
  largest : (∃ b ∈ L, b.size = st.xSizeOfLargestFreeBlockInBytes) ∧
    ∀ b ∈ L, b.size ≤ st.xSizeOfLargestFreeBlockInBytes
  smallest : (∃ b ∈ L, b.size = st.xSizeOfSmallestFreeBlockInBytes) ∧
    ∀ b ∈ L, st.xSizeOfSmallestFreeBlockInBytes ≤ b.size
  available : st.xAvailableHeapSpaceInBytes = total L

/-- With a free block the loop stays in the list. -/
theorem Keeps.stats (hl : Placed l) {h : Heap} {L live : List Block} (k : Keeps l h L live)
    (hne : L ≠ []) :
    (h.walk l).1 = L.map Block.addr ∧ ∃ st, vPortGetHeapStats l h = some st ∧ st.Of L := by
  obtain ⟨b, L, rfl⟩ := List.exists_cons_of_ne_nil hne
  have hlen := k.length_lt hl
  have htotal := k.total_lt hl
  have hnext : pxNextFreeBlock h.mem l.xStart = b.addr := k.linked.1
  have hend : ∀ c ∈ L, c.addr ≠ heapEnd l := fun c hc => by
    have hbound := (k.bounds (.inl (List.mem_cons_of_mem b hc))).2
    have hsize := (k.shaped c (List.mem_cons_of_mem b hc)).2.2
    simp only [Block.fin] at hbound
    omega
  have hwalk : h.walk l = ((b :: L).map Block.addr,
      some (((b :: L).map Block.size).foldl Tally.count ⟨0, 0, portMaxDelay⟩)) := by
    rw [Heap.walk, hnext, if_pos (k.addr_ne_zero hl List.mem_cons_self), k.pxEnd]
    exact statsLoop_eq k.linked hend (Nat.lt_of_succ_lt hlen)
  have r := counted_foldl ((b :: L).map Block.size) (t := ⟨0, 0, portMaxDelay⟩) (by decide)
  have hbsize := (k.shaped b List.mem_cons_self).2.2
  have hble := size_le_total (b := b) (L := b :: L) List.mem_cons_self
  have hmem : b.size ∈ (b :: L).map Block.size := List.mem_map_of_mem List.mem_cons_self
  refine ⟨by rw [hwalk], _, by rw [vPortGetHeapStats, hwalk]; rfl, ?_, ⟨?_, ?_⟩, ⟨?_, ?_⟩, ?_⟩
  · have hblocks := r.blocks
    rw [List.length_map, Nat.zero_add] at hblocks
    refine hblocks.trans (Nat.mod_eq_of_lt (Nat.lt_trans hlen ?_))
    decide
  · refine List.mem_map.mp (r.max_from.resolve_left fun heq => ?_)
    have := r.max_ge _ hmem
    rw [heq] at this
    dsimp only at this
    omega
  · exact fun c hc => r.max_ge _ (List.mem_map_of_mem hc)
  · refine List.mem_map.mp (r.min_from.resolve_left fun heq => ?_)
    have := r.min_le _ hmem
    rw [heq] at this
    simp only [portMaxDelay] at this
    omega
  · exact fun c hc => r.min_le _ (List.mem_map_of_mem hc)
  · exact k.remaining

theorem statsLoop_null {m : Memory} {e : Nat} (he : e ≠ 0) (hnext : pxNextFreeBlock m e = 0)
    (k : Nat) (t : Tally) : 0 ∈ (statsLoop m e (k + 2) e t).1 := by
  rw [statsLoop, hnext, if_pos he.symm, statsLoop]
  split_ifs <;> simp

/-- Without a free block the loop goes on at `NULL`. -/
theorem Keeps.stats_null (hl : Placed l) {h : Heap} {live : List Block} (k : Keeps l h [] live) :
    0 ∈ (h.walk l).1 := by
  have g := hl.geometry
  have hend : heapEnd l ≠ 0 := by
    have := g.end_ge
    omega
  have hnext : pxNextFreeBlock h.mem l.xStart = heapEnd l := k.linked
  have hfuel : configTotalHeapSize = 16382 + 2 := rfl
  rw [Heap.walk, hnext, if_pos hend, k.pxEnd, hfuel]
  exact statsLoop_null hend k.endNext 16382 _

/-- **The statistics** are those of the gaps between the blocks in use just when there is a free
byte; otherwise the loop reads a block header at `NULL`. -/
theorem stats_exact_iff (hl : Placed l) (m : Memory) {calls : List Call}
    (h : Runs.Along (Client.step l) Allowed (.boot m) calls) :
    let c := Runs.runFrom (Client.step l) (.boot m) calls
    c.heap.pxEnd ≠ 0 →
      ((∃ L st, Separated L ∧
          (∀ x, Covers L x ↔ (heapStart l ≤ x ∧ x < heapEnd l) ∧ ¬Covers c.blocks x) ∧
          (c.heap.walk l).1 = L.map Block.addr ∧ vPortGetHeapStats l c.heap = some st ∧ st.Of L) ↔
        c.heap.xFreeBytesRemaining ≠ 0) ∧
      (c.heap.xFreeBytesRemaining = 0 → 0 ∈ (c.heap.walk l).1) := by
  intro c hc
  have s := sound_run hl m h
  rcases s.kept with ⟨hend, -⟩ | ⟨L, k⟩
  · exact absurd hend hc
  · have hcov : ∀ x, Covers L x ↔ (heapStart l ≤ x ∧ x < heapEnd l) ∧ ¬Covers c.blocks x := by
      intro x
      rw [← k.covers x]
      have := k.disjoint x
      tauto
    have hfree : c.heap.xFreeBytesRemaining = 0 ↔ L = [] := by
      have hlen := length_le_total k.shaped
      rw [k.remaining]
      constructor
      · intro h0
        rw [h0] at hlen
        exact List.length_eq_zero_iff.mp (by omega)
      · intro h0
        rw [h0]
        rfl
    refine ⟨⟨?_, fun hne => ?_⟩, fun h0 => ?_⟩
    · rintro ⟨M, st, hM, hMcov, hwalk, -, -⟩ h0
      have hL := hfree.mp h0
      subst hL
      have hnull := k.stats_null hl
      rw [hwalk] at hnull
      -- There is no gap, so no block that covers one.
      obtain ⟨b, hb, -⟩ := List.mem_map.mp hnull
      have hhas : Covers M b.addr := ⟨b, hb, Block.has_addr (hM.pos b hb)⟩
      exact covers_nil _ ((hcov _).mpr ((hMcov _).mp hhas))
    · obtain ⟨hwalk, st, hst, hof⟩ := k.stats hl fun hL => hne (hfree.mpr hL)
      exact ⟨L, st, k.separated, hcov, hwalk, hst, hof⟩
    · have hL := hfree.mp h0
      subst hL
      exact k.stats_null hl

/-- A request for all but the header leaves no free byte. -/
theorem stats_exact_iff_full :
    let c := Runs.runFrom (Client.step sampleLink) (.boot fun _ => 0) [.malloc 16320]
    c.heap.xFreeBytesRemaining = 0 ∧ 0 ∈ (c.heap.walk sampleLink).1 := by
  have hfull : (Runs.runFrom (Client.step sampleLink) (.boot fun _ => 0)
      [.malloc 16320]).heap.xFreeBytesRemaining = 0 := by decide +kernel
  have hallowed : Runs.Along (Client.step sampleLink) Allowed (.boot fun _ => 0)
      [.malloc 16320] := ⟨trivial, trivial⟩
  exact ⟨hfull,
    (stats_exact_iff sampleLink_placed (fun _ => 0) hallowed (by decide +kernel)).2 hfull⟩

end TelinkB91.Rtos
