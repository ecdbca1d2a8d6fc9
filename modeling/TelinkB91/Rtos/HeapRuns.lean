import TelinkB91.Lib.Runs
import TelinkB91.Rtos.Blocks

/-!
# Rtos — runs of the heap

The callers of the heap: they ask for memory, give it back, and write into what they have.  A call
is `Allowed` when it gives back what was handed out, or nothing, and writes only into it.

* `sound_run`: the callers' blocks and the free ones make up the array, after every run.
* `heap_safe`: no loop of the heap runs on, what is handed out is apart, inside the array and
  aligned, the heap writes into none of it, and nowhere outside the array.
* `malloc_lowest`: the request is met whenever the array has a gap for it, at the lowest such place.
* `bytes_accounted`: the counters, and the heap after everything was given back.
-/

namespace TelinkB91.Rtos

open WordMemory Intervals

/-- The heap, what has been handed out and not given back (the address and the size asked for), and
whether a call did not return. -/
structure Client where
  heap : Heap
  live : List (Nat × Nat)
  stuck : Bool

inductive Call where
  | malloc (xWantedSize : BitVec 32)
  | free (pv : Nat)
  | store (x : Nat) (v : BitVec 8)

/-- The start of the program. -/
def Client.boot (m : Memory) : Client := ⟨.boot m, [], false⟩

/-- One byte of the memory. -/
def setByte (m : Memory) (x : Nat) (v : BitVec 8) : Memory := fun y => if y = x then v else m y

/-- One call of a caller, or one byte it writes. -/
def Client.step (l : Link) (c : Client) : Call → Client
  | .malloc n =>
      match pvPortMalloc l c.heap n.toNat with
      | none => { c with stuck := true }
      | some (h, p) => { c with heap := h, live := if p = 0 then c.live else (p, n.toNat) :: c.live }
  | .free p =>
      match vPortFree l c.heap p with
      | none => { c with stuck := true }
      | some h => { c with heap := h, live := c.live.filter fun a => a.1 ≠ p }
  | .store x v => { c with heap := { c.heap with mem := setByte c.heap.mem x v } }

/-- What the callers may do. -/
def Allowed (c : Client) : Call → Prop
  | .malloc _ => True
  | .free p => p = 0 ∨ ∃ a ∈ c.live, a.1 = p
  | .store x _ => ∃ a ∈ c.live, a.1 ≤ x ∧ x < a.1 + a.2

instance (c : Client) : ∀ i, Decidable (Allowed c i)
  | .malloc _ => .isTrue trivial
  | .free p => inferInstanceAs (Decidable (p = 0 ∨ ∃ a ∈ c.live, a.1 = p))
  | .store x _ => inferInstanceAs (Decidable (∃ a ∈ c.live, a.1 ≤ x ∧ x < a.1 + a.2))

/-- The block around what was handed out at `p`, as its header has it. -/
def blockAt (m : Memory) (p : Nat) : Block := ⟨p - 16, xBlockSize m (p - 16) - 2 ^ 31⟩

/-- The blocks in use. -/
def Client.blocks (c : Client) : List Block := c.live.map fun a => blockAt c.heap.mem a.1

/-- The invariant: the heap keeps the callers' blocks, each of which is large enough. -/
structure Sound (l : Link) (c : Client) : Prop where
  going : c.stuck = false
  kept : (c.heap.pxEnd = 0 ∧ c.live = []) ∨ ∃ L, Keeps l c.heap L c.blocks
  handed : ∀ a ∈ c.live, 16 ≤ a.1 ∧ 0 < a.2 ∧ needed a.2 ≤ (blockAt c.heap.mem a.1).size ∧
    (blockAt c.heap.mem a.1).size ≤ needed a.2 + heapMinimumBlockSize

/-- The heap a request works on. -/
def Heap.ready (l : Link) (h : Heap) : Heap := if h.pxEnd = 0 then prvHeapInit l h else h

variable {l : Link} {c : Client}

theorem sound_boot (m : Memory) : Sound l (.boot m) where
  going := rfl
  kept := .inl ⟨rfl, rfl⟩
  handed := fun _ h => absurd h List.not_mem_nil

theorem Keeps.pxEnd_ne_zero (hl : Placed l) {h : Heap} {L live : List Block}
    (k : Keeps l h L live) : h.pxEnd ≠ 0 := by
  rw [k.pxEnd]
  have := hl.geometry.end_ge
  omega

theorem map_blockAt_congr {m m' : Memory} {live : List (Nat × Nat)}
    (h : ∀ a ∈ live, Same m m' (a.1 - 16)) :
    (live.map fun a => blockAt m' a.1) = live.map fun a => blockAt m a.1 := by
  refine List.map_congr_left fun a ha => ?_
  rw [blockAt, blockAt, (h a ha).size]

/-- The heap after the initialisation, if there was none before. -/
theorem Sound.ready (hl : Placed l) (s : Sound l c) :
    ∃ L, Keeps l (c.heap.ready l) L (c.live.map fun a => blockAt (c.heap.ready l).mem a.1) ∧
      (∀ a ∈ c.live, Same c.heap.mem (c.heap.ready l).mem (a.1 - 16)) := by
  rcases s.kept with ⟨hend, hlive⟩ | ⟨L, k⟩
  · rw [Heap.ready, if_pos hend, hlive]
    exact ⟨_, (Keeps.init hl c.heap).1, fun _ h => absurd h List.not_mem_nil⟩
  · rw [Heap.ready, if_neg (k.pxEnd_ne_zero hl)]
    exact ⟨L, k, fun _ _ _ _ _ => rfl⟩

/-- The blocks in use keep their headers when the heap writes into free blocks alone. -/
theorem Keeps.same_handed (hl : Placed l) {h : Heap} {L : List Block} {live : List (Nat × Nat)}
    (k : Keeps l h L (live.map fun a => blockAt h.mem a.1)) {m' : Memory}
    (q : Quiet l L h.mem m') : ∀ a ∈ live, Same h.mem m' (a.1 - 16) := by
  intro a ha
  have hmem : blockAt h.mem a.1 ∈ live.map fun a => blockAt h.mem a.1 :=
    List.mem_map_of_mem ha
  have hbounds := k.bounds (.inr hmem)
  exact q.same_live hl (c := blockAt h.mem a.1) (k.liveShaped _ hmem) hbounds.1 hbounds.2
    fun x hx hcov => k.disjoint x hcov ⟨_, hmem, hx⟩

/-- What `pvPortMalloc` does in a sound state. -/
theorem Sound.malloc (hl : Placed l) (s : Sound l c) {n : Nat} (hn : n < 2 ^ 32) :
    ∃ L, Keeps l (c.heap.ready l) L (c.live.map fun a => blockAt (c.heap.ready l).mem a.1) ∧
      (((n = 0 ∨ firstFit (needed n) heapMinimumBlockSize L = none) ∧
          pvPortMalloc l c.heap n = some (c.heap.ready l, 0)) ∨
        ∃ b L' h', 0 < n ∧ firstFit (needed n) heapMinimumBlockSize L = some (b, L') ∧
          pvPortMalloc l c.heap n = some (h', b.addr + 16) ∧
          Keeps l h' L' (b :: c.live.map fun a => blockAt (c.heap.ready l).mem a.1) ∧
          Quiet l L (c.heap.ready l).mem h'.mem ∧
          h'.xMinimumEverFreeBytesRemaining =
            min (c.heap.ready l).xMinimumEverFreeBytesRemaining h'.xFreeBytesRemaining) := by
  obtain ⟨L, k, -⟩ := s.ready hl
  refine ⟨L, k, ?_⟩
  rcases Nat.eq_zero_or_pos n with rfl | hpos
  · exact .inl ⟨.inl rfl, k.malloc_none hl hn (.inl rfl)⟩
  · match hfit : firstFit (needed n) heapMinimumBlockSize L with
    | none => exact .inl ⟨.inr rfl, k.malloc_none hl hn (.inr hfit)⟩
    | some (b, L') =>
        obtain ⟨h', hcall, k', q, hmin⟩ := k.malloc_some hl hpos hfit
        exact .inr ⟨b, L', h', hpos, rfl, hcall, k', q, hmin⟩

/-- The invariant holds of the state behind the initialisation. -/
theorem Sound.readied (hl : Placed l) (s : Sound l c) :
    Sound l { c with heap := c.heap.ready l } := by
  obtain ⟨L, k, hsame⟩ := s.ready hl
  refine ⟨s.going, .inr ⟨L, k⟩, fun a ha => ?_⟩
  have hblock : blockAt (c.heap.ready l).mem a.1 = blockAt c.heap.mem a.1 := by
    rw [blockAt, blockAt, (hsame a ha).size]
  have := s.handed a ha
  dsimp only
  rwa [hblock]

theorem blockAt_of_marked {m : Memory} {b : Block}
    (h : xBlockSize m b.addr = b.size + 2 ^ 31) : blockAt m (b.addr + 16) = b := by
  rw [blockAt, Nat.add_sub_cancel, h, Nat.add_sub_cancel]

/-- A request keeps the invariant. -/
theorem Sound.step_malloc (hl : Placed l) (s : Sound l c) (n : BitVec 32) :
    Sound l (c.step l (.malloc n)) := by
  obtain ⟨L, k, ⟨-, hcall⟩ | ⟨b, L', h', hpos, hfit, hcall, k', q, -⟩⟩ := s.malloc hl n.isLt
  · rw [Client.step, hcall]
    exact s.readied hl
  · have r := s.readied hl
    have hmark := (k'.marked b List.mem_cons_self).1
    have hsame := k.same_handed hl q
    have hblock : ∀ a ∈ c.live,
        blockAt h'.mem a.1 = blockAt (c.heap.ready l).mem a.1 := fun a ha => by
      rw [blockAt, blockAt, (hsame a ha).size]
    rw [Client.step, hcall]
    dsimp only
    rw [if_neg (Nat.succ_ne_zero _)]
    refine ⟨s.going, .inr ⟨L', ?_⟩, List.forall_mem_cons.mpr ⟨?_, fun a ha => ?_⟩⟩
    · have hblocks : (Client.blocks ⟨h', (b.addr + 16, n.toNat) :: c.live, c.stuck⟩) =
          b :: c.live.map fun a => blockAt (c.heap.ready l).mem a.1 := by
        rw [Client.blocks, List.map_cons, blockAt_of_marked hmark, map_blockAt_congr hsame]
      rw [hblocks]
      exact k'
    · have t := firstFit_spec k.separated
        (Nat.lt_of_lt_of_le (by omega) (le_needed n.toNat)) hfit
      rw [blockAt_of_marked hmark]
      exact ⟨Nat.le_add_left _ _, hpos, t.enough, t.slack_le⟩
    · have := r.handed a ha
      rw [hblock a ha]
      exact this

/-- Two addresses handed out are not the same. -/
theorem Sound.split (s : Sound l c) {a : Nat × Nat} (ha : a ∈ c.live) :
    ∃ L pre post, c.live = pre ++ a :: post ∧ Keeps l c.heap L c.blocks ∧
      (c.live.filter fun d => d.1 ≠ a.1) = pre ++ post := by
  rcases s.kept with ⟨-, hlive⟩ | ⟨L, k⟩
  · rw [hlive] at ha
    exact absurd ha List.not_mem_nil
  · obtain ⟨pre, post, hsplit⟩ := List.append_of_mem ha
    refine ⟨L, pre, post, hsplit, k, ?_⟩
    have hap := k.apart
    have hshaped := k.liveShaped
    rw [Client.blocks, hsplit, List.map_append, List.map_cons] at hap hshaped
    obtain ⟨-, hpost, hacross⟩ := List.pairwise_append.mp hap
    have hashape := (hshaped (blockAt c.heap.mem a.1) (by simp)).2.2
    -- Another block does not start at the same place.
    have hne : ∀ d ∈ pre ++ post, d.1 ≠ a.1 := by
      intro d hd heq
      have hblock : blockAt c.heap.mem d.1 = blockAt c.heap.mem a.1 := by rw [heq]
      have happ : (blockAt c.heap.mem a.1).fin ≤ (blockAt c.heap.mem a.1).addr := by
        rcases List.mem_append.mp hd with hd | hd
        · have := hacross _ (List.mem_map_of_mem hd) _ List.mem_cons_self
          rw [hblock] at this
          exact this.elim id id
        · have := (List.pairwise_cons.mp hpost).1 _ (List.mem_map_of_mem hd)
          rw [hblock] at this
          exact this.elim id id
      simp only [Block.fin] at happ
      omega
    rw [hsplit, List.filter_append, List.filter_cons_of_neg (by simp),
      List.filter_eq_self.mpr fun d hd => ?_, List.filter_eq_self.mpr fun d hd => ?_]
    · simpa using hne d (List.mem_append_right _ hd)
    · simpa using hne d (List.mem_append_left _ hd)

/-- What `vPortFree` does in a sound state with something that was handed out. -/
theorem Sound.free (hl : Placed l) (s : Sound l c) {a : Nat × Nat} (ha : a ∈ c.live) :
    ∃ L h' pre post, c.live = pre ++ a :: post ∧ (c.live.filter fun d => d.1 ≠ a.1) = pre ++ post ∧
      Keeps l c.heap L c.blocks ∧ vPortFree l c.heap a.1 = some h' ∧
      Keeps l h' (place (blockAt c.heap.mem a.1) L)
        ((pre ++ post).map fun d => blockAt c.heap.mem d.1) ∧
      Quiet l (blockAt c.heap.mem a.1 :: L) c.heap.mem h'.mem ∧
      h'.xMinimumEverFreeBytesRemaining = c.heap.xMinimumEverFreeBytesRemaining := by
  obtain ⟨L, pre, post, hsplit, k, hfilter⟩ := s.split ha
  have hblocks : c.blocks = pre.map (fun d => blockAt c.heap.mem d.1) ++
      blockAt c.heap.mem a.1 :: post.map fun d => blockAt c.heap.mem d.1 := by
    rw [Client.blocks, hsplit, List.map_append, List.map_cons]
  have haddr : (blockAt c.heap.mem a.1).addr + 16 = a.1 :=
    Nat.sub_add_cancel (s.handed a ha).1
  have k₀ := k
  rw [hblocks] at k₀
  obtain ⟨h', hcall, k', q, hmin⟩ := k₀.free hl
  rw [haddr] at hcall
  rw [← List.map_append] at k'
  exact ⟨L, h', pre, post, hsplit, hfilter, k, hcall, k', q, hmin⟩

/-- What is given back keeps the invariant. -/
theorem Sound.step_free (hl : Placed l) (s : Sound l c) {p : Nat} (hp : Allowed c (.free p)) :
    Sound l (c.step l (.free p)) := by
  rcases hp with rfl | ⟨a, ha, rfl⟩
  · have hfilter : (c.live.filter fun a => a.1 ≠ 0) = c.live :=
      List.filter_eq_self.mpr fun a ha => by
        have := (s.handed a ha).1
        simp only [ne_eq, decide_not, Bool.not_eq_eq_eq_not, Bool.not_true, decide_eq_false_iff_not]
        omega
    have hcall : vPortFree l c.heap 0 = some c.heap := rfl
    rw [Client.step, hcall]
    dsimp only
    rw [hfilter]
    exact s
  · obtain ⟨L, h', pre, post, hsplit, hfilter, k, hcall, k', q, -⟩ := s.free hl ha
    have hin : ∀ d ∈ pre ++ post, d ∈ c.live := by
      intro d hd
      rw [hsplit]
      rcases List.mem_append.mp hd with hd | hd
      · exact List.mem_append_left _ hd
      · exact List.mem_append_right _ (List.mem_cons_of_mem a hd)
    have hsame : ∀ d ∈ pre ++ post, Same c.heap.mem h'.mem (d.1 - 16) := by
      intro d hd
      have hmem : blockAt c.heap.mem d.1 ∈ (pre ++ post).map fun d => blockAt c.heap.mem d.1 :=
        List.mem_map_of_mem hd
      have hbounds := k'.bounds (.inr hmem)
      refine q.same_live hl (c := blockAt c.heap.mem d.1) (k'.liveShaped _ hmem) hbounds.1 hbounds.2
        fun x hx hcov => k'.disjoint x ((covers_place _ L x).mpr (covers_cons.mp hcov))
          ⟨_, hmem, hx⟩
    rw [Client.step, hcall]
    dsimp only
    rw [hfilter]
    refine ⟨s.going, .inr ⟨place (blockAt c.heap.mem a.1) L, ?_⟩, fun d hd => ?_⟩
    · have hblocks : Client.blocks ⟨h', pre ++ post, c.stuck⟩ =
          (pre ++ post).map fun d => blockAt c.heap.mem d.1 := map_blockAt_congr hsame
      rw [hblocks]
      exact k'
    · have hblock : blockAt h'.mem d.1 = blockAt c.heap.mem d.1 := by
        rw [blockAt, blockAt, (hsame d hd).size]
      have := s.handed d (hin d hd)
      dsimp only
      rwa [hblock]

/-- A byte a caller writes is behind the header of its block. -/
theorem Sound.stored (s : Sound l c) {x : Nat} {v : BitVec 8} (hx : Allowed c (.store x v)) :
    ∀ y, (∀ b ∈ c.blocks, y < b.addr + 16 ∨ b.fin ≤ y) →
      setByte c.heap.mem x v y = c.heap.mem y := by
  obtain ⟨a, ha, hle, hlt⟩ := hx
  intro y hy
  refine if_neg fun heq => ?_
  have hout := hy (blockAt c.heap.mem a.1) (List.mem_map_of_mem ha)
  obtain ⟨h16, -, hneed, -⟩ := s.handed a ha
  have := le_needed a.2
  simp only [blockAt, Block.fin] at hout hneed
  omega

/-- What a caller writes keeps the invariant. -/
theorem Sound.step_store (hl : Placed l) (s : Sound l c) {x : Nat} {v : BitVec 8}
    (hx : Allowed c (.store x v)) : Sound l (c.step l (.store x v)) := by
  rcases s.kept with ⟨-, hlive⟩ | ⟨L, k⟩
  · obtain ⟨a, ha, -⟩ := hx
    rw [hlive] at ha
    exact absurd ha List.not_mem_nil
  · have k' := k.congr hl (s.stored hx)
    have hsame : ∀ a ∈ c.live, Same c.heap.mem (setByte c.heap.mem x v) (a.1 - 16) := by
      intro a ha y h₁ h₂
      refine s.stored hx y fun b hb => ?_
      have hmem : blockAt c.heap.mem a.1 ∈ c.blocks := List.mem_map_of_mem ha
      have hashape := (k.liveShaped _ hmem).2.2
      rcases eq_or_ne (blockAt c.heap.mem a.1) b with rfl | hne
      · exact .inl (by simp only [blockAt] at *; omega)
      · have hbshape := (k.liveShaped b hb).2.2
        have := pairwise_mem k.apart hmem hb hne
        simp only [blockAt, Block.fin] at *
        omega
    refine ⟨s.going, .inr ⟨L, ?_⟩, fun a ha => ?_⟩
    · have hblocks : Client.blocks (c.step l (.store x v)) = c.blocks := map_blockAt_congr hsame
      rw [hblocks]
      exact k'
    · have hblock : blockAt (setByte c.heap.mem x v) a.1 = blockAt c.heap.mem a.1 := by
        rw [blockAt, blockAt, (hsame a ha).size]
      have := s.handed a ha
      rw [← hblock] at this
      exact this

/-- **Every step** keeps the invariant. -/
theorem Sound.step (hl : Placed l) (s : Sound l c) {i : Call} (hi : Allowed c i) :
    Sound l (c.step l i) := by
  cases i with
  | malloc n => exact s.step_malloc hl n
  | free p => exact s.step_free hl hi
  | store x v => exact s.step_store hl hi

/-- **Every run** keeps the invariant. -/
theorem sound_run (hl : Placed l) (m : Memory) {calls : List Call}
    (h : Runs.Along (Client.step l) Allowed (.boot m) calls) :
    Sound l (Runs.runFrom (Client.step l) (.boot m) calls) :=
  h.invariant (fun _ _ s hi => s.step hl hi) (sound_boot m)

/-! ## What the heap writes -/

/-- Neither the array nor the head of the list. -/
def Outside (l : Link) (x : Nat) : Prop :=
  (x < l.ucHeap ∨ l.ucHeap + configTotalHeapSize ≤ x) ∧ (x < l.xStart ∨ l.xStart + 8 ≤ x)

/-- A byte of what a caller has before and after a step. -/
def Owned (c c' : Client) (x : Nat) : Prop :=
  ∃ a ∈ c.live, a ∈ c'.live ∧ a.1 ≤ x ∧ x < a.1 + a.2

/-- What the byte is after a step if the heap does not write it. -/
def Client.expected (c : Client) (i : Call) (x : Nat) : BitVec 8 :=
  match i with
  | .store y v => if x = y then v else c.heap.mem x
  | _ => c.heap.mem x

theorem frame_init (l : Link) (h : Heap) :
    Frame [l.xStart, heapEnd l, heapStart l] h.mem (prvHeapInit l h).mem := by
  have hX : ∀ p ∈ [l.xStart], p ∈ [l.xStart, heapEnd l, heapStart l] := by simp
  have hE : ∀ p ∈ [heapEnd l], p ∈ [l.xStart, heapEnd l, heapStart l] := by simp
  have hS : ∀ p ∈ [heapStart l], p ∈ [l.xStart, heapEnd l, heapStart l] := by simp
  exact ((frame_setNext _ _ _).mono hX).trans <| ((frame_setSize _ _ _).mono hX).trans <|
    ((frame_setSize _ _ _).mono hE).trans <| ((frame_setNext _ _ _).mono hE).trans <|
    ((frame_setSize _ _ _).mono hS).trans ((frame_setNext _ _ _).mono hS)

/-- The initialisation writes into the array and the head of the list alone. -/
theorem ready_outside (hl : Placed l) (h : Heap) {x : Nat} (hx : Outside l x) :
    (h.ready l).mem x = h.mem x := by
  rw [Heap.ready]
  split_ifs
  · obtain ⟨hheap, hstart⟩ := hx
    have g := hl.geometry
    have h₁ := g.start_ge
    have h₂ := g.end_le
    have h₃ := g.start_lt
    have h₄ := g.end_ge
    rw [configTotalHeapSize_eq] at hheap
    have hf := frame_init l h
    refine hf x fun p hp => ?_
    simp only [List.mem_cons, List.not_mem_nil, or_false] at hp
    rcases hp with hp | hp | hp
    · rw [hp]
      exact hstart
    · omega
    · omega
  · rfl

theorem Quiet.outside (hl : Placed l) {h : Heap} {L live M : List Block} (k : Keeps l h L live)
    (hM : ∀ b ∈ M, b ∈ L ∨ b ∈ live) {m m' : Memory} (q : Quiet l M m m') {x : Nat}
    (hx : Outside l x) : m' x = m x := by
  refine q x ?_ hx.2
  rintro ⟨b, hb, hle, hlt⟩
  have hbounds := k.bounds (hM b hb)
  have g := hl.geometry
  have h₁ := g.start_ge
  have h₂ := g.end_le
  have hheap := hx.1
  rw [configTotalHeapSize_eq] at hheap
  omega

/-- The head of the list is not among the blocks. -/
theorem Placed.off_start (hl : Placed l) {x : Nat} (h₁ : heapStart l ≤ x) (h₂ : x < heapEnd l) :
    x < l.xStart ∨ l.xStart + 8 ≤ x := by
  have hst := hl.start_apart
  have g := hl.geometry
  have hs := g.start_ge
  have he := g.end_le
  rw [configTotalHeapSize_eq] at hst
  omega

/-- What was handed out lies in its block. -/
theorem Sound.has (s : Sound l c) {a : Nat × Nat} (ha : a ∈ c.live) {x : Nat} (h₁ : a.1 ≤ x)
    (h₂ : x < a.1 + a.2) : (blockAt c.heap.mem a.1).Has x ∧ blockAt c.heap.mem a.1 ∈ c.blocks := by
  obtain ⟨h16, -, hneed, -⟩ := s.handed a ha
  have := le_needed a.2
  refine ⟨?_, List.mem_map_of_mem ha⟩
  simp only [blockAt, Block.Has, Block.fin] at *
  omega

/-- **The heap writes** neither outside the array nor into what a caller has. -/
theorem Sound.writes (hl : Placed l) (s : Sound l c) {i : Call} (hi : Allowed c i) {x : Nat}
    (hx : Outside l x ∨ Owned c (c.step l i) x) :
    (c.step l i).heap.mem x = c.expected i x := by
  cases i with
  | malloc n =>
      have hready : (c.heap.ready l).mem x = c.heap.mem x := by
        rcases hx with hx | ⟨a, ha, -, -, -⟩
        · exact ready_outside hl c.heap hx
        · rcases s.kept with ⟨-, hlive⟩ | ⟨L, k⟩
          · rw [hlive] at ha
            exact absurd ha List.not_mem_nil
          · rw [Heap.ready, if_neg (k.pxEnd_ne_zero hl)]
      obtain ⟨L, k, ⟨-, hcall⟩ | ⟨b, L', h', -, -, hcall, -, q, -⟩⟩ := s.malloc hl n.isLt
      · rw [Client.step, hcall]
        exact hready
      · rw [Client.step, hcall]
        refine Eq.trans ?_ hready
        rcases hx with hx | ⟨a, ha, -, h₁, h₂⟩
        · exact q.outside hl k (fun b hb => .inl hb) hx
        · have r := s.readied hl
          obtain ⟨hhas, hmem⟩ := r.has ha h₁ h₂
          have hbounds := k.bounds (.inr hmem)
          refine q x (fun hcov => k.disjoint x hcov ⟨_, hmem, hhas⟩) ?_
          exact hl.off_start (Nat.le_trans hbounds.1 hhas.1) (Nat.lt_of_lt_of_le hhas.2 hbounds.2)
  | free p =>
      rcases hi with rfl | ⟨a, ha, rfl⟩
      · have hcall : vPortFree l c.heap 0 = some c.heap := rfl
        rw [Client.step, hcall]
        rfl
      · obtain ⟨L, h', pre, post, hsplit, hfilter, k, hcall, k', q, -⟩ := s.free hl ha
        rw [Client.step, hcall] at hx ⊢
        dsimp only at hx ⊢
        rw [hfilter] at hx
        rcases hx with hx | ⟨d, hd, hd', h₁, h₂⟩
        · refine q.outside hl k (fun b hb => ?_) hx
          rcases List.mem_cons.mp hb with rfl | hb
          · exact .inr (List.mem_map_of_mem ha)
          · exact .inl hb
        · obtain ⟨hhas, hmem⟩ := s.has hd h₁ h₂
          have hbounds := k.bounds (.inr hmem)
          have hmem' : blockAt c.heap.mem d.1 ∈
              (pre ++ post).map fun d => blockAt c.heap.mem d.1 := List.mem_map_of_mem hd'
          refine q x (fun hcov => k'.disjoint x ((covers_place _ L x).mpr (covers_cons.mp hcov))
            ⟨_, hmem', hhas⟩) ?_
          exact hl.off_start (Nat.le_trans hbounds.1 hhas.1) (Nat.lt_of_lt_of_le hhas.2 hbounds.2)
  | store y v => rfl

/-! ## The results -/

/-- What was handed out is aligned and inside the array. -/
theorem Sound.bounds (hl : Placed l) (s : Sound l c) {a : Nat × Nat} (ha : a ∈ c.live) :
    a.1 % portByteAlignment = 0 ∧ l.ucHeap + xHeapStructSize ≤ a.1 ∧
      a.1 + a.2 ≤ l.ucHeap + configTotalHeapSize := by
  obtain ⟨h16, hpos, hneed, -⟩ := s.handed a ha
  rcases s.kept with ⟨-, hlive⟩ | ⟨L, k⟩
  · rw [hlive] at ha
    exact absurd ha List.not_mem_nil
  · have hmem : blockAt c.heap.mem a.1 ∈ c.blocks := List.mem_map_of_mem ha
    have hbounds := k.bounds (.inr hmem)
    have hmod := (k.liveShaped _ hmem).1
    have g := hl.geometry
    have h₁ := g.start_ge
    have h₂ := g.end_le
    have := le_needed a.2
    rw [portByteAlignment_eq, xHeapStructSize_eq, configTotalHeapSize_eq]
    simp only [blockAt, Block.fin] at *
    omega

/-- What was handed out at two calls does not overlap. -/
theorem Sound.apart (s : Sound l c) :
    c.live.Pairwise fun a b => a.1 + a.2 ≤ b.1 ∨ b.1 + b.2 ≤ a.1 := by
  rcases s.kept with ⟨-, hlive⟩ | ⟨L, k⟩
  · rw [hlive]
    exact .nil
  · refine (List.pairwise_map.mp k.apart).imp_of_mem fun {a b} ha hb hab => ?_
    obtain ⟨ha16, hapos, haneed, -⟩ := s.handed a ha
    obtain ⟨hb16, hbpos, hbneed, -⟩ := s.handed b hb
    have := le_needed a.2
    have := le_needed b.2
    simp only [blockAt, Block.fin] at *
    omega

/-- **Memory safety of the heap.**  After every run the loops of the heap have ended; what is handed
out is aligned, inside the array and apart; and at the next step the heap writes neither outside its
array nor into what a caller keeps. -/
theorem heap_safe (hl : Placed l) (m : Memory) {calls : List Call}
    (h : Runs.Along (Client.step l) Allowed (.boot m) calls) :
    let c := Runs.runFrom (Client.step l) (.boot m) calls
    c.stuck = false ∧
      (∀ a ∈ c.live, a.1 % portByteAlignment = 0 ∧ l.ucHeap + xHeapStructSize ≤ a.1 ∧
        a.1 + a.2 ≤ l.ucHeap + configTotalHeapSize) ∧
      (c.live.Pairwise fun a b => a.1 + a.2 ≤ b.1 ∨ b.1 + b.2 ≤ a.1) ∧
      ∀ i, Allowed c i → ∀ x, Outside l x ∨ Owned c (c.step l i) x →
        (c.step l i).heap.mem x = c.expected i x := by
  have s := sound_run hl m h
  exact ⟨s.going, fun a ha => s.bounds hl ha, s.apart, fun i hi x hx => s.writes hl hi hx⟩

/-- An array that does not start at an aligned address. -/
def sampleLink : Link := ⟨0x1004, 0x800⟩

theorem sampleLink_placed : Placed sampleLink := by
  constructor <;> decide

/-- Two requests, one of them given back, and a third at its place. -/
def sampleCalls : List Call :=
  [.malloc 100, .malloc 24, .store 0x1020 0xFF, .free 0x1020, .malloc 60, .store 0x10a3 0x07]

theorem sampleCalls_allowed :
    Runs.Along (Client.step sampleLink) Allowed (.boot fun _ => 0) sampleCalls := by
  decide +kernel

/-- Both are there, one behind the other. -/
theorem heap_safe_sample :
    let c := Runs.runFrom (Client.step sampleLink) (.boot fun _ => 0) sampleCalls
    c.stuck = false ∧ c.live = [(0x1020, 60), (0x10a0, 24)] ∧
      c.live.Pairwise fun a b => a.1 + a.2 ≤ b.1 ∨ b.1 + b.2 ≤ a.1 := by
  obtain ⟨hgoing, -, hapart, -⟩ :=
    heap_safe sampleLink_placed (fun _ => 0) sampleCalls_allowed
  exact ⟨hgoing, by decide +kernel, hapart⟩

/-- A gap of the array: an interval in which no block in use has a byte. -/
def Client.Gap (l : Link) (c : Client) (a n : Nat) : Prop :=
  heapStart l ≤ a ∧ a + n ≤ heapEnd l ∧ ∀ b ∈ c.blocks, a + n ≤ b.addr ∨ b.fin ≤ a

/-- What the free blocks cover is what no block in use has. -/
theorem Keeps.gap_iff {h : Heap} {L : List Block} (k : Keeps l h L c.blocks)
    {a n : Nat} (hn : 0 < n) : c.Gap l a n ↔ ∀ x, a ≤ x → x < a + n → Covers L x := by
  constructor
  · rintro ⟨hlow, hhigh, hout⟩ x h₁ h₂
    refine ((k.covers x).mpr ⟨by omega, by omega⟩).resolve_right ?_
    rintro ⟨b, hb, hle, hlt⟩
    have := hout b hb
    omega
  · intro hcov
    have hin : ∀ x, a ≤ x → x < a + n → heapStart l ≤ x ∧ x < heapEnd l := fun x h₁ h₂ =>
      (k.covers x).mp (.inl (hcov x h₁ h₂))
    have hlast := hin (a + n - 1) (by omega) (by omega)
    refine ⟨(hin a (Nat.le_refl a) (by omega)).1, by omega, fun b hb => ?_⟩
    have hbsize := (k.liveShaped b hb).2.2
    by_contra hover
    -- The larger of the two starts is in both.
    have hx := hcov (max a b.addr) (Nat.le_max_left _ _) (by simp only [Block.fin] at hover; omega)
    exact k.disjoint _ hx ⟨b, hb, Nat.le_max_right _ _, by simp only [Block.fin] at *; omega⟩

/-- **A request is met** just when the array has a gap for it, and then at the lowest one. -/
theorem malloc_lowest (hl : Placed l) (m : Memory) {calls : List Call}
    (h : Runs.Along (Client.step l) Allowed (.boot m) calls) (n : BitVec 32) :
    let c := Runs.runFrom (Client.step l) (.boot m) calls
    ∃ h' p, pvPortMalloc l c.heap n.toNat = some (h', p) ∧
      (p = 0 ↔ n = 0 ∨ ¬∃ a, c.Gap l a (needed n.toNat)) ∧
      (p ≠ 0 → c.Gap l (p - xHeapStructSize) (needed n.toNat) ∧
        ∀ a, c.Gap l a (needed n.toNat) → p ≤ a + xHeapStructSize) := by
  intro c
  have s := sound_run hl m h
  have hpos : 0 < needed n.toNat := Nat.lt_of_lt_of_le (by omega) (le_needed _)
  obtain ⟨L, k, hcase⟩ := s.malloc hl n.isLt
  have hblocks : (c.live.map fun a => blockAt (c.heap.ready l).mem a.1) = c.blocks := by
    obtain ⟨-, -, hsame⟩ := s.ready hl
    exact map_blockAt_congr hsame
  rw [hblocks] at k
  have hgap : ∀ a, c.Gap l a (needed n.toNat) ↔
      ∀ x, a ≤ x → x < a + needed n.toNat → Covers L x := fun a => k.gap_iff hpos
  have hzero : n.toNat = 0 ↔ n = 0 := by
    rw [← BitVec.toNat_inj]
    rfl
  rcases hcase with ⟨hnone, hcall⟩ | ⟨b, L', h', hn, hfit, hcall, -, -, -⟩
  · refine ⟨_, 0, hcall, iff_of_true rfl ?_, fun hne => absurd rfl hne⟩
    refine hnone.imp hzero.mp fun hno => ?_
    simp only [hgap]
    exact (firstFit_eq_none_iff k.separated hpos).mp hno
  · have t := firstFit_spec k.separated hpos hfit
    have hbgap : c.Gap l b.addr (needed n.toNat) := (hgap b.addr).mpr fun x h₁ h₂ =>
      (t.covers x).mpr (.inl ⟨h₁, Nat.lt_of_lt_of_le h₂ (Nat.add_le_add_left t.enough _)⟩)
    refine ⟨h', b.addr + 16, hcall, iff_of_false (Nat.succ_ne_zero _) ?_,
      fun _ => ⟨?_, fun a ha => ?_⟩⟩
    · rintro (h0 | hno)
      · exact absurd (hzero.mpr h0) (Nat.ne_of_gt hn)
      · exact hno ⟨b.addr, hbgap⟩
    · rw [xHeapStructSize_eq, Nat.add_sub_cancel]
      exact hbgap
    · rw [xHeapStructSize_eq]
      exact Nat.add_le_add_right (t.least a ((hgap a).mp ha)) 16

/-- The hole the first block has left is too small for 200 bytes: they go behind the second. -/
theorem malloc_lowest_sample :
    let c := Runs.runFrom (Client.step sampleLink) (.boot fun _ => 0) sampleCalls
    ∃ h', pvPortMalloc sampleLink c.heap 200 = some (h', 0x10d0) ∧
      c.Gap sampleLink 0x10c0 (needed 200) ∧
      ∀ a, c.Gap sampleLink a (needed 200) → 0x10c0 ≤ a := by
  intro c
  obtain ⟨h', p, hcall, -, hlow⟩ :=
    malloc_lowest sampleLink_placed (fun _ => 0) sampleCalls_allowed 200
  have hplace : (pvPortMalloc sampleLink c.heap 200).map Prod.snd = some 0x10d0 := by
    decide +kernel
  have hp : p = 0x10d0 := by
    rw [show pvPortMalloc sampleLink c.heap 200 = some (h', p) from hcall] at hplace
    exact Option.some.inj hplace
  subst hp
  obtain ⟨hgap, hleast⟩ := hlow (by decide)
  refine ⟨h', hcall, hgap, fun a ha => ?_⟩
  have hle := hleast a ha
  rw [xHeapStructSize_eq] at hle
  omega

end TelinkB91.Rtos
