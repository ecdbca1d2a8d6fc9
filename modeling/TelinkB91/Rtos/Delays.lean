import TelinkB91.Rtos.Notify

/-!
# Rtos — the delays of the tasks

The tick count has 32 bits and wraps.  A task that waits for `n` ticks has the value of the count at
its end, in the one list when the count does not wrap before and in the other when it does, and the
lists are switched when the count wraps.  Against a clock that does not wrap, every wait runs out at
its tick, and in the order of the ends.  Only a sleep that ends on the last tick of a round leaves
the tasks that are due then in the first list when the lists are switched, and they wait for two
rounds more.

* `Wait.ends`, `Missed`: when a wait ends, and what puts it off.
* `Before`: the order in which waits run out.
* `Timed`, `Punctual`: the invariant, over the variables that the time is made of.
* `Timed.drop`, `Timed.wake`, `Timed.hold`: a task leaves, a wait runs out, and one begins.
* `Punctual.advance`, `timed_unblock`: a tick, and the tasks it wakes.
-/

namespace TelinkB91.Rtos.Tasks

/-- When the wait ends: two rounds later each time that it was missed. -/
def Wait.ends (w : Wait) : Nat := w.due + 2 ^ 33 * w.missed

/-- The wait is missed once more. -/
def Wait.miss (w : Wait) : Wait := { w with missed := w.missed + 1 }

/-- The one ends first; of two that end together, it began first. -/
def Before (w w' : Wait) : Prop := w.ends < w'.ends ∨ w.ends = w'.ends ∧ w.turn < w'.turn

instance (w w' : Wait) : Decidable (Before w w') :=
  inferInstanceAs (Decidable (w.ends < w'.ends ∨ w.ends = w'.ends ∧ w.turn < w'.turn))

/-- What the time is made of. -/
structure Times where
  tick : U32
  clock : Nat
  next : U32
  delayed : List (U32 × Nat)
  overflow : List (U32 × Nat)
  waits : Nat → Option Wait
  turns : Nat
  wakes : List Wake
  landed : List Nat

def Kernel.times (k : Kernel) : Times where
  tick := k.xTickCount
  clock := k.seen.clock
  next := k.xNextTaskUnblockTime
  delayed := k.pxDelayedTaskList
  overflow := k.pxOverflowDelayedTaskList
  waits := k.seen.waits
  turns := k.seen.turns
  wakes := k.seen.wakes
  landed := k.seen.landed

/-- A wait that has run out on time: at its tick, or with the next one if a sleep ended on it and
the round was not over. -/
def OnTime (landed : List Nat) (e : Wake) : Prop :=
  e.clock = e.wait.ends ∨
    e.clock = e.wait.ends + 1 ∧ e.wait.ends ∈ landed ∧ e.clock % 2 ^ 32 ≠ 0

instance (landed : List Nat) (e : Wake) : Decidable (OnTime landed e) :=
  inferInstanceAs (Decidable (e.clock = e.wait.ends ∨
    e.clock = e.wait.ends + 1 ∧ e.wait.ends ∈ landed ∧ e.clock % 2 ^ 32 ≠ 0))

/-- A wait is missed only when a sleep ends on its end, and this is the last tick of a round. -/
def Missed (landed : List Nat) (w : Wait) : Prop :=
  ∀ i < w.missed, w.due + 2 ^ 33 * i ∈ landed ∧ (w.due + 1) % 2 ^ 32 = 0

instance (landed : List Nat) (w : Wait) : Decidable (Missed landed w) :=
  inferInstanceAs (Decidable (∀ i < w.missed, _))

/-- The delayed tasks are those whose wait ends before the count wraps, the others those whose wait
ends in the round after; `P` says how late the first ones may be. -/
structure Timed (P : Nat → Prop) (m : Times) : Prop where
  tick : m.clock % 2 ^ 32 = m.tick.toNat
  delayed : ∀ y ∈ m.delayed, m.next ≤ y.1 ∧ ∃ w, m.waits y.2 = some w ∧
    w.ends + m.tick.toNat = m.clock + y.1.toNat ∧ P w.ends
  overflow : ∀ y ∈ m.overflow, ∃ w, m.waits y.2 = some w ∧
    w.ends + m.tick.toNat = m.clock + y.1.toNat + 2 ^ 32
  waiting : ∀ t w, m.waits t = some w → t ∈ m.delayed.map Prod.snd ∨ t ∈ m.overflow.map Prod.snd
  once : (m.delayed.map Prod.snd).Nodup
  onceOver : (m.overflow.map Prod.snd).Nodup
  order : ∀ l, l = m.delayed ∨ l = m.overflow → l.Pairwise fun y z =>
    ∀ w w', m.waits y.2 = some w → m.waits z.2 = some w' → Before w w'
  fresh : ∀ t w, m.waits t = some w → w.turn < m.turns
  put : ∀ t w, m.waits t = some w → Missed m.landed w
  onTime : ∀ e ∈ m.wakes, OnTime m.landed e ∧ Missed m.landed e.wait ∧ e.wait.ends ≤ m.clock
  ordered : m.wakes.Pairwise fun e e' => Before e.wait e'.wait
  later : ∀ e ∈ m.wakes, ∀ t w, m.waits t = some w → Before e.wait w

variable {ts : TaskSet} {k : Kernel} {P : Nat → Prop} {m : Times}

theorem Before.trans {w w' w'' : Wait} (h : Before w w') (h' : Before w' w'') : Before w w'' := by
  rw [Before] at h h' ⊢
  omega

theorem Before.ends_le {w w' : Wait} (h : Before w w') : w.ends ≤ w'.ends := by
  rcases h with hlt | ⟨heq, -⟩
  · exact Nat.le_of_lt hlt
  · exact Nat.le_of_eq heq

/-- The first task of a list in the order of the waits has the least value. -/
theorem head_value_le {y : U32 × Nat} {rest : List (U32 × Nat)} {waits : Nat → Option Wait}
    (off base : Nat)
    (horder : (y :: rest).Pairwise fun y z =>
      ∀ w w', waits y.2 = some w → waits z.2 = some w' → Before w w')
    (hends : ∀ z ∈ y :: rest, ∃ w, waits z.2 = some w ∧ w.ends + off = base + z.1.toNat) :
    ∀ z ∈ y :: rest, y.1 ≤ z.1 := by
  intro z hz
  obtain ⟨w, hw, hvalue⟩ := hends y List.mem_cons_self
  obtain ⟨w', hw', hvalue'⟩ := hends z hz
  rcases List.mem_cons.mp hz with rfl | hz
  · exact Nat.le_refl _
  · have hle := ((List.pairwise_cons.mp horder).1 z hz w w' hw hw').ends_le
    exact BitVec.le_def.mpr (by omega)

/-! ### A task leaves -/

theorem eraseP_eq_filter {l : List (U32 × Nat)} (h : (l.map Prod.snd).Nodup) (t : Nat) :
    l.eraseP (·.2 = t) = l.filter (·.2 ≠ t) := by
  induction l with
  | nil => rfl
  | cons y l ih =>
      rw [List.map_cons, List.nodup_cons] at h
      by_cases hy : y.2 = t
      · have hrest : l.filter (·.2 ≠ t) = l := by
          rw [List.filter_eq_self]
          intro z hz
          rw [decide_eq_true_eq]
          rintro rfl
          exact h.1 (hy ▸ List.mem_map_of_mem hz)
        rw [List.eraseP_cons_of_pos (by simpa using hy),
          List.filter_cons_of_neg (by simpa using hy), hrest]
      · rw [List.eraseP_cons_of_neg (by simpa using hy),
          List.filter_cons_of_pos (by simpa using hy), ih h.2]

/-- The times without one task. -/
def Times.drop (m : Times) (t : Nat) : Times := { m with
  delayed := m.delayed.eraseP (·.2 = t)
  overflow := m.overflow.eraseP (·.2 = t)
  waits := Function.update m.waits t none }

theorem update_none {f : Nat → Option Wait} {t u : Nat} {w : Wait} :
    Function.update f t none u = some w ↔ u ≠ t ∧ f u = some w := by
  by_cases hut : u = t
  · subst hut
    simp
  · rw [Function.update_of_ne hut]
    simp [hut]

/-- **A task leaves.** -/
theorem Timed.drop (h : Timed P m) (t : Nat) : Timed P (m.drop t) := by
  have hmem : ∀ {l : List (U32 × Nat)}, (l.map Prod.snd).Nodup → ∀ y,
      y ∈ l.eraseP (·.2 = t) ↔ y ∈ l ∧ y.2 ≠ t := by
    intro l hl y
    rw [eraseP_eq_filter hl, List.mem_filter, decide_eq_true_eq]
  have hmap : ∀ {l : List (U32 × Nat)}, (l.map Prod.snd).Nodup → ∀ {u : Nat}, u ≠ t →
      u ∈ l.map Prod.snd → u ∈ (l.eraseP (·.2 = t)).map Prod.snd := by
    intro l hl u hut hu
    obtain ⟨y, hy, rfl⟩ := List.mem_map.mp hu
    exact List.mem_map_of_mem ((hmem hl y).mpr ⟨hy, hut⟩)
  exact {
    h with
    delayed := fun y hy => by
      obtain ⟨hy, hne⟩ := (hmem h.once y).mp hy
      obtain ⟨hnext, w, hw, hdue⟩ := h.delayed y hy
      exact ⟨hnext, w, update_none.mpr ⟨hne, hw⟩, hdue⟩
    overflow := fun y hy => by
      obtain ⟨hy, hne⟩ := (hmem h.onceOver y).mp hy
      obtain ⟨w, hw, hdue⟩ := h.overflow y hy
      exact ⟨w, update_none.mpr ⟨hne, hw⟩, hdue⟩
    waiting := fun u w hw => by
      obtain ⟨hne, hw⟩ := update_none.mp hw
      exact (h.waiting u w hw).imp (hmap h.once hne) (hmap h.onceOver hne)
    once := h.once.sublist (List.eraseP_sublist.map _)
    onceOver := h.onceOver.sublist (List.eraseP_sublist.map _)
    order := fun l hl => by
      have hsub : ∃ l', (l' = m.delayed ∨ l' = m.overflow) ∧ l.Sublist l' := by
        rcases hl with rfl | rfl
        · exact ⟨_, .inl rfl, List.eraseP_sublist⟩
        · exact ⟨_, .inr rfl, List.eraseP_sublist⟩
      obtain ⟨l', hl', hsub⟩ := hsub
      refine ((h.order l' hl').sublist hsub).imp fun hyz w w' hw hw' => ?_
      exact hyz w w' (update_none.mp hw).2 (update_none.mp hw').2
    fresh := fun u w hw => h.fresh u w (update_none.mp hw).2
    put := fun u w hw => h.put u w (update_none.mp hw).2
    later := fun e he u w hw => h.later e he u w (update_none.mp hw).2 }

/-- The times when the wait of one task runs out. -/
def Times.wake (m : Times) (t : Nat) (w : Wait) : Times := { m.drop t with
  wakes := m.wakes ++ [⟨t, w, m.clock⟩] }

/-- **A wait runs out.**  It is the first of all. -/
theorem Timed.wake (h : Timed P m) {y : U32 × Nat} {rest : List (U32 × Nat)}
    (hy : m.delayed = y :: rest) {w : Wait} (hw : m.waits y.2 = some w)
    (hends : w.ends ≤ m.clock) (hlate : OnTime m.landed ⟨y.2, w, m.clock⟩) :
    Timed P (m.wake y.2 w) := by
  have hdrop := h.drop y.2
  refine {
    hdrop with
    onTime := fun e he => ?_
    ordered := ?_
    later := fun e he u w' hw' => ?_ }
  · rcases List.mem_append.mp he with he | he
    · exact h.onTime e he
    · obtain rfl := List.mem_singleton.mp he
      exact ⟨hlate, h.put y.2 w hw, hends⟩
  · refine List.pairwise_append.mpr ⟨h.ordered, List.pairwise_singleton _ _, fun e he e' he' => ?_⟩
    obtain rfl := List.mem_singleton.mp he'
    exact h.later e he y.2 w hw
  · obtain ⟨hne, hw''⟩ := update_none.mp hw'
    rcases List.mem_append.mp he with he | he
    · exact h.later e he u w' hw''
    · obtain rfl := List.mem_singleton.mp he
      rcases h.waiting u w' hw'' with hu | hu
      · obtain ⟨z, hz, rfl⟩ := List.mem_map.mp hu
        rw [hy] at hz
        have horder := h.order _ (.inl rfl)
        rw [hy, List.pairwise_cons] at horder
        rcases List.mem_cons.mp hz with rfl | hz
        · exact absurd rfl hne
        · exact horder.1 z hz w w' hw hw''
      · obtain ⟨z, hz, rfl⟩ := List.mem_map.mp hu
        obtain ⟨w₁, hw₁, hdue₁⟩ := h.overflow z hz
        obtain rfl : w' = w₁ := Option.some.inj (hw''.symm.trans hw₁)
        have hlt := m.tick.isLt
        exact .inl (by dsimp only; omega)

/-! ### A task waits -/

/-- The times when a task that waits for nothing begins to wait until `due`, in the one list or the
other. -/
def Times.hold (m : Times) (t : Nat) (v : U32) (due : Nat) : Times :=
  let waits := Function.update m.waits t (some ⟨due, m.turns, 0⟩)
  if v < m.tick then { m with
    waits := waits, turns := m.turns + 1, overflow := vListInsert v t m.overflow }
  else { m with
    waits := waits, turns := m.turns + 1, delayed := vListInsert v t m.delayed
    next := if v < m.next then v else m.next }

theorem map_vListInsert_nodup {v : U32} {t : Nat} {l : List (U32 × Nat)}
    (h : (l.map Prod.snd).Nodup) (ht : t ∉ l.map Prod.snd) :
    ((vListInsert v t l).map Prod.snd).Nodup := by
  rw [List.nodup_iff_count] at h ⊢
  intro u
  rw [count_vListInsert]
  split_ifs with htu
  · rw [← htu, List.count_eq_zero_of_not_mem ht]
  · exact h u

/-- The order of a list into which a new wait is inserted: it is the last of those that end with
it. -/
theorem order_insert {l : List (U32 × Nat)} {waits : Nat → Option Wait} {t due turns : Nat}
    {v : U32} (off : Nat)
    (horder : l.Pairwise fun y z => ∀ w w', waits y.2 = some w → waits z.2 = some w' → Before w w')
    (hdue : ∀ y ∈ l, ∃ w, waits y.2 = some w ∧ w.ends + off = due + y.1.toNat ∧ w.turn < turns)
    (hv : v.toNat = off) (ht : t ∉ l.map Prod.snd) :
    (vListInsert v t l).Pairwise fun y z => ∀ w w',
      Function.update waits t (some ⟨due, turns, 0⟩) y.2 = some w →
        Function.update waits t (some ⟨due, turns, 0⟩) z.2 = some w' → Before w w' := by
  have hother : ∀ y ∈ l, Function.update waits t (some ⟨due, turns, 0⟩) y.2 = waits y.2 := by
    intro y hy
    refine Function.update_of_ne (fun hyt => ht ?_) ..
    exact hyt ▸ List.mem_map_of_mem hy
  refine pairwise_vListInsert ?_ (fun y hy hle w w' hw hw' => ?_)
    (fun y hy hlt w w' hw hw' => ?_) ?_
  · refine List.Pairwise.imp_of_mem ?_ horder
    intro y z hy hz hyz w w' hw hw'
    rw [hother y hy] at hw
    rw [hother z hz] at hw'
    exact hyz w w' hw hw'
  · obtain ⟨w₁, hw₁, hdue₁, hturn⟩ := hdue y hy
    rw [hother y hy, hw₁] at hw
    dsimp only at hw'
    rw [Function.update_self] at hw'
    obtain rfl := Option.some.inj hw
    obtain rfl := Option.some.inj hw'
    have hle' : y.1.toNat ≤ v.toNat := hle
    have hnew : (⟨due, turns, 0⟩ : Wait).ends = due := rfl
    rcases Nat.lt_or_ge w₁.ends due with hlt | hge
    · exact .inl (hnew.symm ▸ hlt)
    · exact .inr ⟨by omega, hturn⟩
  · obtain ⟨w₁, hw₁, hdue₁, -⟩ := hdue y hy
    rw [hother y hy, hw₁] at hw'
    dsimp only at hw
    rw [Function.update_self] at hw
    obtain rfl := Option.some.inj hw
    obtain rfl := Option.some.inj hw'
    have hlt' : v.toNat < y.1.toNat := hlt
    have hnew : (⟨due, turns, 0⟩ : Wait).ends = due := rfl
    exact .inl (by omega)
  · refine List.Pairwise.imp_of_mem ?_ horder
    intro y z hy hz hyz
    obtain ⟨w, hw, hwdue, -⟩ := hdue y hy
    obtain ⟨w', hw', hwdue', -⟩ := hdue z hz
    have hle := (hyz w w' hw hw').ends_le
    exact BitVec.le_def.mpr (by omega)

/-- The value of the count at which a wait of `n` ticks ends. -/
theorem toNat_wake (tick n : U32) : (tick + n).toNat = tick.toNat + n.toNat ∧ ¬tick + n < tick ∨
    (tick + n).toNat + 2 ^ 32 = tick.toNat + n.toNat ∧ tick + n < tick := by
  have ht := tick.isLt
  have hn := n.isLt
  rw [BitVec.lt_def, BitVec.toNat_add]
  omega

theorem update_some {f : Nat → Option Wait} {t u : Nat} {w w' : Wait}
    (h : Function.update f t (some w') u = some w) : u = t ∧ w = w' ∨ u ≠ t ∧ f u = some w := by
  by_cases hut : u = t
  · subst hut
    rw [Function.update_self] at h
    exact .inl ⟨rfl, (Option.some.inj h).symm⟩
  · rw [Function.update_of_ne hut] at h
    exact .inr ⟨hut, h⟩

theorem mem_map_vListInsert {v : U32} {t u : Nat} {l : List (U32 × Nat)} :
    u ∈ (vListInsert v t l).map Prod.snd ↔ u = t ∨ u ∈ l.map Prod.snd := by
  constructor
  · intro hu
    obtain ⟨y, hy, rfl⟩ := List.mem_map.mp hu
    exact (mem_vListInsert.mp hy).imp (congrArg Prod.snd) List.mem_map_of_mem
  · rintro (rfl | hu)
    · exact List.mem_map.mpr ⟨_, mem_vListInsert.mpr (.inl rfl), rfl⟩
    · obtain ⟨y, hy, rfl⟩ := List.mem_map.mp hu
      exact List.mem_map_of_mem (mem_vListInsert.mpr (.inr hy))

/-- The waits when `t` waits until `due`. -/
abbrev Times.begun (m : Times) (t due : Nat) : Nat → Option Wait :=
  Function.update m.waits t (some ⟨due, m.turns, 0⟩)

section begun

variable {t due : Nat}

theorem Times.begun_other {l : List (U32 × Nat)} (ht : t ∉ l.map Prod.snd) :
    ∀ y ∈ l, m.begun t due y.2 = m.waits y.2 := by
  intro y hy
  refine Function.update_of_ne (fun hyt => ht ?_) ..
  exact hyt ▸ List.mem_map_of_mem hy

theorem Timed.begun_fresh (h : Timed P m) {u : Nat} {w : Wait} (hw : m.begun t due u = some w) :
    w.turn < m.turns + 1 := by
  rcases update_some hw with ⟨-, rfl⟩ | ⟨-, hw⟩
  · exact Nat.lt_succ_self _
  · exact Nat.lt_succ_of_lt (h.fresh u w hw)

theorem Timed.begun_put (h : Timed P m) {u : Nat} {w : Wait} (hw : m.begun t due u = some w) :
    Missed m.landed w := by
  rcases update_some hw with ⟨-, rfl⟩ | ⟨-, hw⟩
  · exact fun i hi => absurd hi i.not_lt_zero
  · exact h.put u w hw

theorem Timed.begun_later (h : Timed P m) (hdue : m.clock < due) {e : Wake} (he : e ∈ m.wakes)
    {u : Nat} {w : Wait} (hw : m.begun t due u = some w) : Before e.wait w := by
  rcases update_some hw with ⟨-, rfl⟩ | ⟨-, hw⟩
  · exact .inl (Nat.lt_of_le_of_lt (h.onTime e he).2.2 hdue)
  · exact h.later e he u w hw

/-- The other list keeps its order. -/
theorem Timed.begun_order (h : Timed P m) {l : List (U32 × Nat)}
    (hl : l = m.delayed ∨ l = m.overflow) (ht : t ∉ l.map Prod.snd) :
    l.Pairwise fun y z => ∀ w w', m.begun t due y.2 = some w → m.begun t due z.2 = some w' →
      Before w w' := by
  refine List.Pairwise.imp_of_mem ?_ (h.order l hl)
  intro y z hy hz hyz w w' hw hw'
  rw [m.begun_other ht y hy] at hw
  rw [m.begun_other ht z hz] at hw'
  exact hyz w w' hw hw'

theorem Timed.begun_delayed (h : Timed P m) (ht : t ∉ m.delayed.map Prod.snd) :
    ∀ y ∈ m.delayed, ∃ w, m.begun t due y.2 = some w ∧
      w.ends + m.tick.toNat = m.clock + y.1.toNat ∧ P w.ends := by
  intro y hy
  obtain ⟨-, w, hw, hends⟩ := h.delayed y hy
  exact ⟨w, (m.begun_other ht y hy).trans hw, hends⟩

theorem Timed.begun_overflow (h : Timed P m) (ht : t ∉ m.overflow.map Prod.snd) :
    ∀ y ∈ m.overflow, ∃ w, m.begun t due y.2 = some w ∧
      w.ends + m.tick.toNat = m.clock + y.1.toNat + 2 ^ 32 := by
  intro y hy
  obtain ⟨w, hw, hends⟩ := h.overflow y hy
  exact ⟨w, (m.begun_other ht y hy).trans hw, hends⟩

theorem Timed.begun_waiting (h : Timed P m) {u : Nat} {w : Wait}
    (hw : m.begun t due u = some w) :
    u = t ∨ u ∈ m.delayed.map Prod.snd ∨ u ∈ m.overflow.map Prod.snd := by
  rcases update_some hw with ⟨rfl, -⟩ | ⟨-, hw⟩
  · exact .inl rfl
  · exact .inr (h.waiting u w hw)

theorem begun_ends {n : Nat} (hn : due = m.clock + n) {v : U32} {k : Nat}
    (hv : v.toNat + k = m.tick.toNat + n) :
    ∃ w, m.begun t due t = some w ∧ w.ends + m.tick.toNat = m.clock + v.toNat + k ∧
      w.ends = due := by
  refine ⟨_, Function.update_self .., ?_, rfl⟩
  change due + m.tick.toNat = m.clock + v.toNat + k
  omega

end begun

/-- The wait ends before the count wraps. -/
theorem Timed.hold_delayed (h : Timed P m) {t : Nat} (ht : t ∉ m.delayed.map Prod.snd)
    (htover : t ∉ m.overflow.map Prod.snd) {v : U32} {n : Nat} (hn : 0 < n)
    (hP : P (m.clock + n)) (hv : v.toNat = m.tick.toNat + n) :
    Timed P { m with
      waits := m.begun t (m.clock + n)
      turns := m.turns + 1
      delayed := vListInsert v t m.delayed
      next := if v < m.next then v else m.next } := by
  refine {
    h with
    delayed := fun y hy => ?_
    overflow := h.begun_overflow htover
    waiting := fun u w hw => ?_
    once := map_vListInsert_nodup h.once ht
    order := ?_
    fresh := fun u w hw => h.begun_fresh hw
    put := fun u w hw => h.begun_put hw
    later := fun e he u w hw => h.begun_later (Nat.lt_add_of_pos_right hn) he hw }
  · rcases mem_vListInsert.mp hy with rfl | hy
    · obtain ⟨w, hw, hends, hdue⟩ := begun_ends (m := m) (t := t) rfl (v := v) (k := 0) hv
      refine ⟨?_, w, hw, hends, hdue.symm ▸ hP⟩
      dsimp only
      split_ifs with hnext
      · exact Nat.le_refl _
      · exact BitVec.not_lt.mp hnext
    · refine ⟨?_, h.begun_delayed ht y hy⟩
      have hle := (h.delayed y hy).1
      dsimp only
      split_ifs with hnext
      · exact Nat.le_trans (Nat.le_of_lt hnext) hle
      · exact hle
  · rw [mem_map_vListInsert, or_assoc]
    exact h.begun_waiting hw
  · rintro l (rfl | rfl)
    · refine order_insert v.toNat (h.order _ (.inl rfl)) (fun y hy => ?_) rfl ht
      obtain ⟨-, w, hw, hends, -⟩ := h.delayed y hy
      exact ⟨w, hw, by omega, h.fresh y.2 w hw⟩
    · exact h.begun_order (.inr rfl) htover

/-- The count wraps before the wait ends. -/
theorem Timed.hold_overflow (h : Timed P m) {t : Nat} (ht : t ∉ m.delayed.map Prod.snd)
    (htover : t ∉ m.overflow.map Prod.snd) {v : U32} {n : Nat} (hn : 0 < n)
    (hv : v.toNat + 2 ^ 32 = m.tick.toNat + n) :
    Timed P { m with
      waits := m.begun t (m.clock + n)
      turns := m.turns + 1
      overflow := vListInsert v t m.overflow } := by
  refine {
    h with
    delayed := fun y hy => ⟨(h.delayed y hy).1, h.begun_delayed ht y hy⟩
    overflow := fun y hy => ?_
    waiting := fun u w hw => ?_
    onceOver := map_vListInsert_nodup h.onceOver htover
    order := ?_
    fresh := fun u w hw => h.begun_fresh hw
    put := fun u w hw => h.begun_put hw
    later := fun e he u w hw => h.begun_later (Nat.lt_add_of_pos_right hn) he hw }
  · rcases mem_vListInsert.mp hy with rfl | hy
    · obtain ⟨w, hw, hends, -⟩ := begun_ends (m := m) (t := t) rfl hv
      exact ⟨w, hw, hends⟩
    · exact h.begun_overflow htover y hy
  · rw [mem_map_vListInsert, or_left_comm]
    exact h.begun_waiting hw
  · rintro l (rfl | rfl)
    · exact h.begun_order (.inl rfl) ht
    · refine order_insert v.toNat (h.order _ (.inr rfl)) (fun y hy => ?_) rfl htover
      obtain ⟨w, hw, hends⟩ := h.overflow y hy
      exact ⟨w, hw, by omega, h.fresh y.2 w hw⟩

/-- **A task begins to wait.** -/
theorem Timed.hold (h : Timed P m) {t : Nat} (ht : t ∉ m.delayed.map Prod.snd)
    (htover : t ∉ m.overflow.map Prod.snd) {n : U32} (hn : n ≠ 0#32)
    (hP : P (m.clock + n.toNat)) :
    Timed P (m.hold t (m.tick + n) (m.clock + n.toNat)) := by
  have hpos : 0 < n.toNat := Nat.pos_of_ne_zero fun h0 => hn (BitVec.eq_of_toNat_eq h0)
  rw [Times.hold]
  rcases toNat_wake m.tick n with ⟨hv, hnot⟩ | ⟨hv, hwrap⟩
  · rw [if_neg hnot]
    exact h.hold_delayed ht htover hpos hP hv
  · rw [if_pos hwrap]
    exact h.hold_overflow ht htover hpos hv

/-! ### Between the events -/

/-- The end of a wait that has not run out. -/
def Ahead (m : Times) (ends : Nat) : Prop := m.clock < ends ∨ ends = m.clock ∧ ends ∈ m.landed

/-- The end of a wait that has not run out, or does so now. -/
def Due (m : Times) (ends : Nat) : Prop :=
  m.clock ≤ ends ∨ ends + 1 = m.clock ∧ ends ∈ m.landed ∧ m.clock % 2 ^ 32 ≠ 0

/-- The waits that have not run out are ahead, and `xNextTaskUnblockTime` is not passed. -/
structure Punctual (m : Times) : Prop where
  timed : Timed (Ahead m) m
  next : m.tick ≤ m.next

theorem Timed.of_imp {Q : Nat → Prop} (h : Timed P m) (hPQ : ∀ y ∈ m.delayed, ∀ w,
    m.waits y.2 = some w → w.ends + m.tick.toNat = m.clock + y.1.toNat → P w.ends → Q w.ends) :
    Timed Q m :=
  { h with
    delayed := fun y hy => by
      obtain ⟨hnext, w, hw, hdue, hp⟩ := h.delayed y hy
      exact ⟨hnext, w, hw, hdue, hPQ y hy w hw hdue hp⟩ }

/-- The first of the delayed tasks has the least value. -/
theorem Timed.head_le (h : Timed P m) {y : U32 × Nat} {rest : List (U32 × Nat)}
    (hy : m.delayed = y :: rest) : ∀ z ∈ m.delayed, y.1 ≤ z.1 := by
  have horder := h.order _ (.inl rfl)
  rw [hy] at horder ⊢
  refine head_value_le m.tick.toNat m.clock horder fun z hz => ?_
  obtain ⟨-, w, hw, hdue, -⟩ := h.delayed z (hy ▸ hz)
  exact ⟨w, hw, hdue⟩

theorem firstValue_le (h : Timed P m) : ∀ y ∈ m.delayed, firstValue m.delayed ≤ y.1 := by
  intro z hz
  cases hm : m.delayed with
  | nil => exact absurd (hm ▸ hz) List.not_mem_nil
  | cons y rest => exact h.head_le hm z hz

theorem Punctual.reset (h : Punctual m) : Punctual { m with next := firstValue m.delayed } where
  timed := { h.timed with
    delayed := fun y hy => ⟨firstValue_le h.timed y hy, (h.timed.delayed y hy).2⟩ }
  next := by
    cases hm : m.delayed with
    | nil => exact Nat.le_pred_of_lt m.tick.isLt
    | cons y rest =>
        obtain ⟨-, w, -, hdue, hahead⟩ := h.timed.delayed y (hm ▸ List.mem_cons_self)
        rw [Ahead] at hahead
        change m.tick.toNat ≤ y.1.toNat
        omega

theorem Punctual.drop (h : Punctual m) (t : Nat) : Punctual (m.drop t) where
  timed := h.timed.drop t
  next := h.next

theorem Punctual.hold (h : Punctual m) {t : Nat} (ht : t ∉ m.delayed.map Prod.snd)
    (htover : t ∉ m.overflow.map Prod.snd) {n : U32} (hn : n ≠ 0#32) :
    Punctual (m.hold t (m.tick + n) (m.clock + n.toNat)) := by
  have hpos : 0 < n.toNat := Nat.pos_of_ne_zero fun h0 => hn (BitVec.eq_of_toNat_eq h0)
  have htimed : Timed (Ahead m) (m.hold t (m.tick + n) (m.clock + n.toNat)) :=
    h.timed.hold ht htover hn (.inl (by omega))
  rw [Times.hold] at htimed ⊢
  rcases toNat_wake m.tick n with ⟨hv, hnot⟩ | ⟨hv, hwrap⟩
  · rw [if_neg hnot] at htimed ⊢
    refine ⟨htimed, ?_⟩
    dsimp only
    split_ifs
    · exact BitVec.le_def.mpr (by omega)
    · exact h.next
  · rw [if_pos hwrap] at htimed ⊢
    exact ⟨htimed, h.next⟩

/-! ### A tick -/

/-- The tick of `xTaskIncrementTick`. -/
def Times.advance (m : Times) : Times :=
  if m.tick + 1#32 = 0#32 then { m with
    tick := m.tick + 1#32, clock := m.clock + 1, delayed := m.overflow, overflow := m.delayed
    waits := missed (m.delayed.map Prod.snd) m.waits
    next := firstValue m.overflow }
  else { m with tick := m.tick + 1#32, clock := m.clock + 1 }

theorem toNat_succ (tick : U32) : tick + 1#32 = 0#32 ∧ tick.toNat + 1 = 2 ^ 32 ∨
    tick + 1#32 ≠ 0#32 ∧ (tick + 1#32).toNat = tick.toNat + 1 := by
  have hlt := tick.isLt
  rcases Nat.lt_or_ge (tick.toNat + 1) (2 ^ 32) with h | h
  · right
    have hval : (tick + 1#32).toNat = tick.toNat + 1 := by
      rw [BitVec.toNat_add, BitVec.toNat_ofNat]
      omega
    refine ⟨fun h0 => ?_, hval⟩
    rw [h0] at hval
    exact Nat.succ_ne_zero _ hval.symm
  · left
    refine ⟨BitVec.eq_of_toNat_eq ?_, by omega⟩
    rw [BitVec.toNat_add, BitVec.toNat_ofNat, BitVec.toNat_ofNat]
    omega

theorem missed_some {l : List Nat} {waits : Nat → Option Wait} {t : Nat} {w : Wait} :
    missed l waits t = some w ↔ ∃ w₀, waits t = some w₀ ∧ w = if t ∈ l then w₀.miss else w₀ := by
  rw [missed, Option.map_eq_some_iff]
  exact exists_congr fun w₀ => and_congr_right fun _ => eq_comm

theorem Wait.ends_miss (w : Wait) : w.miss.ends = w.ends + 2 ^ 33 := by
  change w.due + 2 ^ 33 * (w.missed + 1) = w.due + 2 ^ 33 * w.missed + 2 ^ 33
  omega

theorem ends_missed_le {t : Nat} {l : List Nat} (w : Wait) :
    w.ends ≤ (if t ∈ l then w.miss else w).ends := by
  split_ifs
  · exact w.ends_miss ▸ Nat.le_add_right _ _
  · exact Nat.le_refl _

theorem turn_missed {t : Nat} {l : List Nat} (w : Wait) :
    (if t ∈ l then w.miss else w).turn = w.turn := by
  split_ifs <;> rfl

/-- A wait that is put off stays behind those that came before it. -/
theorem Before.put_off {w w₀ : Wait} (h : Before w w₀) {t : Nat} {l : List Nat} :
    Before w (if t ∈ l then w₀.miss else w₀) := by
  have hle := ends_missed_le (t := t) (l := l) w₀
  have hturn := turn_missed (t := t) (l := l) w₀
  rcases h with hlt | ⟨heq, hlt⟩
  · exact .inl (Nat.lt_of_lt_of_le hlt hle)
  · rcases Nat.lt_or_eq_of_le hle with hmore | hsame
    · exact .inl (heq ▸ hmore)
    · exact .inr ⟨heq.trans hsame, hturn.symm ▸ hlt⟩

theorem Before.miss {w w' : Wait} (h : Before w w') : Before w.miss w'.miss := by
  rw [Before, Wait.ends_miss, Wait.ends_miss, Nat.add_lt_add_iff_right, Nat.add_right_cancel_iff]
  exact h

/-- Nobody is in both lists. -/
theorem Timed.disjoint (h : Timed P m) {t : Nat} (ht : t ∈ m.overflow.map Prod.snd) :
    t ∉ m.delayed.map Prod.snd := by
  intro ht'
  obtain ⟨y, hy, rfl⟩ := List.mem_map.mp ht
  obtain ⟨z, hz, hzy⟩ := List.mem_map.mp ht'
  obtain ⟨w, hw, hends⟩ := h.overflow y hy
  obtain ⟨-, w', hw', hends', -⟩ := h.delayed z hz
  rw [hzy, hw] at hw'
  obtain rfl := Option.some.inj hw'
  have hlt := z.1.isLt
  omega

/-- On the last tick of a round, the first list holds those that are due on it, and on which a sleep
has ended. -/
theorem Punctual.last (h : Punctual m) (hmax : m.tick.toNat + 1 = 2 ^ 32) :
    ∀ y ∈ m.delayed, ∃ w, m.waits y.2 = some w ∧ y.1.toNat + 1 = 2 ^ 32 ∧ w.ends = m.clock ∧
      w.ends ∈ m.landed := by
  intro y hy
  obtain ⟨hnext, w, hw, hends, hahead⟩ := h.timed.delayed y hy
  have hle : m.tick.toNat ≤ y.1.toNat := Nat.le_trans h.next hnext
  have hlt := y.1.isLt
  rw [Ahead] at hahead
  refine ⟨w, hw, by omega, by omega, ?_⟩
  rcases hahead with hahead | ⟨-, hlanded⟩
  · omega
  · exact hlanded

/-- A wait that is missed on the last tick of a round. -/
theorem Missed.miss {landed : List Nat} {w : Wait} (h : Missed landed w)
    (hlanded : w.ends ∈ landed) (hlast : (w.ends + 1) % 2 ^ 32 = 0) : Missed landed w.miss := by
  intro i hi
  change w.due + 2 ^ 33 * i ∈ landed ∧ (w.due + 1) % 2 ^ 32 = 0
  rcases Nat.lt_succ_iff_lt_or_eq.mp hi with hlt | rfl
  · exact h i hlt
  · refine ⟨hlanded, ?_⟩
    rw [Wait.ends] at hlast
    omega

/-- On the last tick of a round, who is in the first list is missed, and had to be. -/
theorem Punctual.put_off (h : Punctual m) (hmax : m.tick.toNat + 1 = 2 ^ 32) {t : Nat} {w₀ : Wait}
    (hw₀ : m.waits t = some w₀) :
    Missed m.landed (if t ∈ m.delayed.map Prod.snd then w₀.miss else w₀) := by
  have hput := h.timed.put t w₀ hw₀
  have htick := h.timed.tick
  by_cases ht : t ∈ m.delayed.map Prod.snd
  · rw [if_pos ht]
    obtain ⟨y, hy, rfl⟩ := List.mem_map.mp ht
    obtain ⟨w, hw, -, hends, hlanded⟩ := h.last hmax y hy
    obtain rfl := Option.some.inj (hw₀.symm.trans hw)
    exact hput.miss hlanded (by omega)
  · rw [if_neg ht]
    exact hput

/-- **The tick at the end of a round.**  The second list takes the place of the first, whose tasks
wait for two rounds more. -/
theorem Punctual.wrap (h : Punctual m) (hzero : m.tick + 1#32 = 0#32)
    (hmax : m.tick.toNat + 1 = 2 ^ 32) : Timed (Due m.advance) m.advance := by
  have hlast := h.last hmax
  have htick := h.timed.tick
  have hdelayed : ∀ y ∈ m.overflow, ∃ w,
      missed (m.delayed.map Prod.snd) m.waits y.2 = some w ∧ m.waits y.2 = some w ∧
        w.ends = m.clock + 1 + y.1.toNat := by
    intro y hy
    obtain ⟨w, hw, hends⟩ := h.timed.overflow y hy
    have hnot := h.timed.disjoint (List.mem_map_of_mem hy)
    exact ⟨w, missed_some.mpr ⟨w, hw, (if_neg hnot).symm⟩, hw, by omega⟩
  rw [Times.advance, if_pos hzero]
  refine {
    h.timed with
    tick := by
      dsimp only
      rw [hzero, BitVec.toNat_zero]
      omega
    delayed := fun y hy => ⟨?_, ?_⟩
    overflow := fun y hy => ?_
    waiting := fun t w hw => ?_
    once := h.timed.onceOver
    onceOver := h.timed.once
    order := ?_
    fresh := fun t w hw => ?_
    put := fun t w hw => ?_
    onTime := fun e he => ?_
    later := fun e he t w hw => ?_ }
  · dsimp only at hy ⊢
    cases hm : m.overflow with
    | nil => exact absurd (hm ▸ hy) List.not_mem_nil
    | cons z rest =>
        have horder := h.timed.order _ (.inr rfl)
        rw [hm] at horder hy
        refine head_value_le 0 (m.clock + 1) horder (fun x hx => ?_) y hy
        obtain ⟨w, -, hw, hends⟩ := hdelayed x (hm ▸ hx)
        exact ⟨w, hw, hends⟩
  · obtain ⟨w, hw, -, hends⟩ := hdelayed y hy
    refine ⟨w, hw, ?_, .inl ?_⟩
    · dsimp only
      rw [hzero, hends]
      rfl
    · dsimp only
      omega
  · obtain ⟨w, hw, hvalue, hends, -⟩ := hlast y hy
    refine ⟨w.miss, missed_some.mpr ⟨w, hw, (if_pos (List.mem_map_of_mem hy)).symm⟩, ?_⟩
    dsimp only
    rw [hzero, w.ends_miss, BitVec.toNat_zero]
    omega
  · obtain ⟨w₀, hw₀, -⟩ := missed_some.mp hw
    exact (h.timed.waiting t w₀ hw₀).symm
  · rintro l (rfl | rfl)
    · refine List.Pairwise.imp_of_mem ?_ (h.timed.order _ (.inr rfl))
      intro y z hy hz hyz w w' hw hw'
      obtain ⟨w₁, hw₁, hold, -⟩ := hdelayed y hy
      obtain ⟨w₂, hw₂, hold', -⟩ := hdelayed z hz
      obtain rfl := Option.some.inj (hw.symm.trans hw₁)
      obtain rfl := Option.some.inj (hw'.symm.trans hw₂)
      exact hyz w w' hold hold'
    · refine List.Pairwise.imp_of_mem ?_ (h.timed.order _ (.inl rfl))
      intro y z hy hz hyz w w' hw hw'
      obtain ⟨w₁, hw₁, rfl⟩ := missed_some.mp hw
      obtain ⟨w₂, hw₂, rfl⟩ := missed_some.mp hw'
      rw [if_pos (List.mem_map_of_mem hy), if_pos (List.mem_map_of_mem hz)]
      exact (hyz w₁ w₂ hw₁ hw₂).miss
  · obtain ⟨w₀, hw₀, rfl⟩ := missed_some.mp hw
    exact (turn_missed w₀).symm ▸ h.timed.fresh t w₀ hw₀
  · obtain ⟨w₀, hw₀, rfl⟩ := missed_some.mp hw
    exact h.put_off hmax hw₀
  · obtain ⟨honTime, hput, hle⟩ := h.timed.onTime e he
    exact ⟨honTime, hput, Nat.le_succ_of_le hle⟩
  · obtain ⟨w₀, hw₀, rfl⟩ := missed_some.mp hw
    exact (h.timed.later e he t w₀ hw₀).put_off

/-- **The tick.** -/
theorem Punctual.advance (h : Punctual m) : Timed (Due m.advance) m.advance := by
  rcases toNat_succ m.tick with ⟨hzero, hlast⟩ | ⟨hne, hval⟩
  · exact h.wrap hzero hlast
  · have htick := h.timed.tick
    have hlt := (m.tick + 1#32).isLt
    rw [Times.advance, if_neg hne]
    exact {
      h.timed with
      tick := by
        dsimp only
        omega
      delayed := fun y hy => by
        obtain ⟨hnext, w, hw, hends, hahead⟩ := h.timed.delayed y hy
        refine ⟨hnext, w, hw, by dsimp only; omega, ?_⟩
        rw [Ahead] at hahead
        rw [Due]
        dsimp only
        rcases hahead with hlt | ⟨heq, hlanded⟩
        · exact .inl hlt
        · exact .inr ⟨congrArg (· + 1) heq, hlanded, by omega⟩
      overflow := fun y hy => by
        obtain ⟨w, hw, hends⟩ := h.timed.overflow y hy
        exact ⟨w, hw, by dsimp only; omega⟩
      onTime := fun e he => by
        obtain ⟨honTime, hput, hle⟩ := h.timed.onTime e he
        exact ⟨honTime, hput, Nat.le_succ_of_le hle⟩ }

variable (ts) in
theorem times_wake {t : Nat} {w : Wait} (hw : k.seen.waits t = some w) :
    (ts.prvAddTaskToReadyList { ts.removeState k t with
      seen := (ts.removeState k t).seen.wake t } t).times = k.times.wake t w := by
  have hw' : (ts.removeState k t).seen.waits t = some w := hw
  rw [TaskSet.prvAddTaskToReadyList, Seen.wake, hw']
  rfl

/-- **The tasks whose time has come.**  They are the first of the delayed ones, and those behind
them wait on. -/
theorem timed_unblock : ∀ (l : List (U32 × Nat)) {k : Kernel}, k.pxDelayedTaskList = l →
    Timed (Due k.times) k.times → Punctual (ts.unblock k.xTickCount l k).1.times
  | [], k, hl, h => by
      rw [TaskSet.unblock]
      refine ⟨{ h with delayed := fun y hy => ?_ }, Nat.le_pred_of_lt k.xTickCount.isLt⟩
      have hnone : k.pxDelayedTaskList = [] := hl
      exact absurd (hnone ▸ hy) List.not_mem_nil
  | y :: rest, k, hl, h => by
      have hl' : k.times.delayed = y :: rest := hl
      obtain ⟨-, w, hw, hdue, hlate⟩ := h.delayed y (hl' ▸ List.mem_cons_self)
      have hw' : k.seen.waits y.2 = some w := hw
      rw [Due] at hlate
      rw [TaskSet.unblock]
      by_cases hlt : k.xTickCount < y.1
      · have hlt' : k.times.tick.toNat < y.1.toNat := hlt
        rw [if_pos hlt]
        refine ⟨{ h with delayed := fun z hz => ?_ }, Nat.le_of_lt hlt⟩
        obtain ⟨-, w', hw', hdue', -⟩ := h.delayed z hz
        have hle : y.1.toNat ≤ z.1.toNat := h.head_le hl' z hz
        exact ⟨hle, w', hw', hdue', .inl (by change k.times.clock < w'.ends; omega)⟩
      · have hle : y.1.toNat ≤ k.times.tick.toNat := Nat.not_lt.mp hlt
        rw [if_neg hlt]
        have htimes := times_wake ts hw'
        have hwake : Timed (Due (k.times.wake y.2 w)) (k.times.wake y.2 w) := by
          refine h.wake hl' hw (by omega) ?_
          rcases hlate with hlate | ⟨hlate, hlanded, hround⟩
          · exact .inl (by dsimp only; omega)
          · exact .inr ⟨hlate.symm, hlanded, hround⟩
        rw [← htimes] at hwake
        refine timed_unblock rest ?_ hwake
        change k.pxDelayedTaskList.eraseP (·.2 = y.2) = rest
        rw [hl, List.eraseP_cons_of_pos (by simp)]

end TelinkB91.Rtos.Tasks
