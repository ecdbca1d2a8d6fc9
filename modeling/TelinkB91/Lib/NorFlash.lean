import Mathlib.Data.List.Basic
import Mathlib.Tactic.Common

/-!
# Library — NOR flash

A NOR flash is bytes by address.  Programming can only clear bits, so it stores the bitwise
`and` of the old byte and the new one (`program`); erasing sets a range to `0xFF` (`erase`).
A program that changes flash issues a list of commands, each atomic, and a reset between two of
them leaves the image that a prefix of the list produces (`applyAll m (cs.take k)`).

A chip programs by pages: behind the last byte of a page it goes on with the first (`programPage`).

* `program_apart`: a byte outside the programmed range keeps its value.
* `program_blank`: programming an erased range stores the bytes themselves.
* `read_congr`: a read depends only on the bytes it covers.
* `program_append`: two ranges programmed one behind the other are one.
* `programPage_of_le`: inside a page, a page program is a program.
* `programPage_apart`: outside its page, it changes nothing.
-/

namespace NorFlash

/-- A byte of the flash. -/
abbrev Byte := BitVec 8

/-- The contents, by address. -/
abbrev Mem := Nat → Byte

/-- The value of an erased byte. -/
abbrev blank : Byte := 0xFF#8

theorem blank_and (b : Byte) : blank &&& b = b := by
  have h : blank = BitVec.allOnes 8 := rfl
  rw [h, BitVec.allOnes_and]

/-- `n` bytes from `a`. -/
def read (m : Mem) (a n : Nat) : List Byte := (List.range n).map fun i => m (a + i)

/-- The bytes `bs` programmed at `a`: each is anded into what is there. -/
def program (m : Mem) (a : Nat) (bs : List Byte) : Mem := fun x =>
  if a ≤ x then
    match bs[x - a]? with
    | some b => m x &&& b
    | none => m x
  else m x

/-- `n` bytes from `a` erased. -/
def erase (m : Mem) (a n : Nat) : Mem := fun x => if a ≤ x ∧ x < a + n then blank else m x

/-- One flash command. -/
inductive Cmd where
  | program (a : Nat) (bs : List Byte)
  | erase (a n : Nat)
  deriving DecidableEq, Repr

/-- The image after a command. -/
def Cmd.apply (m : Mem) : Cmd → Mem
  | .program a bs => NorFlash.program m a bs
  | .erase a n => NorFlash.erase m a n

/-- The image after a list of commands. -/
def applyAll (m : Mem) (cs : List Cmd) : Mem := cs.foldl Cmd.apply m

@[simp] theorem applyAll_nil (m : Mem) : applyAll m [] = m := rfl

@[simp] theorem applyAll_cons (m : Mem) (c : Cmd) (cs : List Cmd) :
    applyAll m (c :: cs) = applyAll (c.apply m) cs := rfl

@[simp] theorem length_read (m : Mem) (a n : Nat) : (read m a n).length = n := by simp [read]

theorem read_getElem? (m : Mem) (a n i : Nat) :
    (read m a n)[i]? = if i < n then some (m (a + i)) else none := by
  by_cases h : i < n <;> simp [read, h]

theorem read_succ (m : Mem) (a n : Nat) : read m a (n + 1) = m a :: read m (a + 1) n := by
  simp [read, List.range_succ_eq_map, Function.comp_def, Nat.add_assoc, Nat.add_comm 1]

/-- A read depends only on the bytes it covers. -/
theorem read_congr {m m' : Mem} {a n : Nat} (h : ∀ x, a ≤ x → x < a + n → m x = m' x) :
    read m a n = read m' a n := by
  refine List.map_congr_left fun i hi => h _ (by omega) ?_
  have := List.mem_range.mp hi
  omega

/-- A byte outside the programmed range keeps its value. -/
theorem program_apart {m : Mem} {a x : Nat} {bs : List Byte} (h : x < a ∨ a + bs.length ≤ x) :
    program m a bs x = m x := by
  unfold program
  split
  · rw [List.getElem?_eq_none (by omega)]
  · rfl

/-- A programmed byte is the old one anded with the new one. -/
theorem program_at {m : Mem} {a i : Nat} {bs : List Byte} {b : Byte} (h : bs[i]? = some b) :
    program m a bs (a + i) = m (a + i) &&& b := by
  simp [program, h]

/-- Programming an erased range stores the bytes themselves. -/
theorem read_program_blank {m : Mem} {a : Nat} {bs : List Byte}
    (h : ∀ x, a ≤ x → x < a + bs.length → m x = blank) :
    read (program m a bs) a bs.length = bs := by
  refine List.ext_getElem? fun i => ?_
  rw [read_getElem?]
  by_cases hi : i < bs.length
  · rw [if_pos hi, program_at (List.getElem?_eq_getElem hi), h _ (by omega) (by omega),
      blank_and, List.getElem?_eq_getElem hi]
  · rw [if_neg hi, List.getElem?_eq_none (by omega)]

theorem program_nil (m : Mem) (a : Nat) : program m a [] = m := by
  funext x
  exact program_apart (Nat.lt_or_ge x a)

/-- **One range behind the other.** -/
theorem program_append (m : Mem) (a : Nat) (bs cs : List Byte) :
    program (program m a bs) (a + bs.length) cs = program m a (bs ++ cs) := by
  funext x
  by_cases h : a + bs.length ≤ x
  · have hle : a ≤ x := Nat.le_trans (Nat.le_add_right _ _) h
    have hlen : bs.length ≤ x - a := Nat.le_sub_of_add_le' h
    rw [program, if_pos h, program_apart (.inr h), program, if_pos hle,
      List.getElem?_append_right hlen, Nat.sub_sub]
  · have hlt := Nat.not_le.mp h
    rw [program_apart (.inl hlt)]
    by_cases hle : a ≤ x
    · have hlen : x - a < bs.length := Nat.sub_lt_left_of_lt_add hle hlt
      rw [program, if_pos hle, program, if_pos hle, List.getElem?_append_left hlen]
    · rw [program, if_neg hle, program, if_neg hle]

/-- A page program: behind the end of the page, its start is next. -/
def programPage (page : Nat) (m : Mem) (a : Nat) : List Byte → Mem
  | [] => m
  | b :: bs => programPage page (program m a [b]) (a / page * page + (a % page + 1) % page) bs

/-- **Inside a page.** -/
theorem programPage_of_le {page a : Nat} {bs : List Byte} (h : a % page + bs.length ≤ page)
    (m : Mem) : programPage page m a bs = program m a bs := by
  induction bs generalizing m a with
  | nil => rw [programPage, program_nil]
  | cons b bs ih =>
      rw [List.length_cons] at h
      rw [programPage]
      rcases bs with _ | ⟨b', bs⟩
      · rfl
      · rw [List.length_cons] at h
        have hlt : a % page + 1 < page := by omega
        have hnext : a / page * page + (a % page + 1) % page = a + 1 := by
          rw [Nat.mod_eq_of_lt hlt, ← Nat.add_assoc, Nat.div_add_mod' a page]
        have hmod : (a + 1) % page = a % page + 1 := by
          rw [Nat.add_mod, Nat.mod_eq_of_lt (a := 1) (by omega), Nat.mod_eq_of_lt hlt]
        rw [hnext, ih (by rw [hmod, List.length_cons]; omega)]
        exact program_append m a [b] (b' :: bs)

/-- **Outside its page** a page program changes nothing. -/
theorem programPage_apart {page a x : Nat} (hpage : 0 < page)
    (hx : x < a / page * page ∨ a / page * page + page ≤ x) (m : Mem) (bs : List Byte) :
    programPage page m a bs x = m x := by
  induction bs generalizing m a with
  | nil => rfl
  | cons b bs ih =>
      have hlt : (a % page + 1) % page < page := Nat.mod_lt _ hpage
      have hsame : (a / page * page + (a % page + 1) % page) / page = a / page := by
        rw [Nat.mul_comm, Nat.mul_add_div hpage, Nat.div_eq_of_lt hlt, Nat.add_zero]
      have hmod := Nat.mod_lt a hpage
      have hdiv := Nat.div_add_mod' a page
      rw [programPage, ih (by rwa [hsame])]
      refine program_apart ?_
      rw [List.length_singleton]
      omega

theorem erase_apart {m : Mem} {a n x : Nat} (h : x < a ∨ a + n ≤ x) : erase m a n x = m x :=
  if_neg (by omega)

theorem erase_inside {m : Mem} {a n x : Nat} (h₁ : a ≤ x) (h₂ : x < a + n) :
    erase m a n x = blank := if_pos ⟨h₁, h₂⟩

end NorFlash
