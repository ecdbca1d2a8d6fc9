import Mathlib.Data.List.Basic

/-!
# Library — runs of a deterministic machine

A machine is a total function `f : σ → ι → σ`: a state and one input give the next state.  The
environment's choices are part of the input.  `runFrom f s is` is the state after the inputs
`is`, and `Along f P s is` says that every step of that run, taken at state `t` with input `i`,
satisfies `P t i`.

* `Along.invariant`: a predicate that every guarded step keeps holds at the end of a run all of
  whose steps meet the guard.
* `Along.derive`: what an invariant and the guard give at one step, they give along the run.
* `tally`, `Along.counted`: how many steps of a run satisfy a predicate, and what that number and
  the state satisfy together.
* `Along.path`: where every guarded step is a step of a labelled relation on an abstract state,
  the run is a path of that relation.
* `Along.refines`: where related states of two machines answer alike and stay related, the runs
  answer alike.
-/

namespace Runs

variable {σ ι : Type*}

/-- The state after the inputs `is`, taken in order from `s`. -/
def runFrom (f : σ → ι → σ) (s : σ) (is : List ι) : σ := is.foldl f s

@[simp] theorem runFrom_nil (f : σ → ι → σ) (s : σ) : runFrom f s [] = s := rfl

@[simp] theorem runFrom_cons (f : σ → ι → σ) (s : σ) (i : ι) (is : List ι) :
    runFrom f s (i :: is) = runFrom f (f s i) is := rfl

theorem runFrom_append (f : σ → ι → σ) (s : σ) (is js : List ι) :
    runFrom f s (is ++ js) = runFrom f (runFrom f s is) js :=
  List.foldl_append

/-- The states of a run, after each of its inputs. -/
def visited (f : σ → ι → σ) : σ → List ι → List σ
  | _, [] => []
  | s, i :: is => f s i :: visited f (f s i) is

theorem visited_append (f : σ → ι → σ) (s : σ) (is js : List ι) :
    visited f s (is ++ js) = visited f s is ++ visited f (runFrom f s is) js := by
  induction is generalizing s with
  | nil => rfl
  | cons i is ih => rw [List.cons_append, visited, ih, visited, runFrom_cons, List.cons_append]

/-- A state visited is the state after some of the inputs. -/
theorem exists_of_mem_visited {f : σ → ι → σ} {s t : σ} {is : List ι} (h : t ∈ visited f s is) :
    ∃ js ks, is = js ++ ks ∧ t = runFrom f s js := by
  induction is generalizing s with
  | nil => exact absurd h List.not_mem_nil
  | cons i is ih =>
      rcases List.mem_cons.mp h with rfl | h
      · exact ⟨[i], is, rfl, rfl⟩
      · obtain ⟨js, ks, rfl, rfl⟩ := ih h
        exact ⟨i :: js, ks, rfl, rfl⟩

/-- Every step of the run from `s` along `is` satisfies `P`. -/
def Along (f : σ → ι → σ) (P : σ → ι → Prop) : σ → List ι → Prop
  | _, [] => True
  | s, i :: is => P s i ∧ Along f P (f s i) is

@[simp] theorem along_nil {f : σ → ι → σ} {P : σ → ι → Prop} {s : σ} : Along f P s [] := trivial

@[simp] theorem along_cons {f : σ → ι → σ} {P : σ → ι → Prop} {s : σ} {i : ι} {is : List ι} :
    Along f P s (i :: is) ↔ P s i ∧ Along f P (f s i) is := Iff.rfl

theorem along_append {f : σ → ι → σ} {P : σ → ι → Prop} {s : σ} {is js : List ι} :
    Along f P s (is ++ js) ↔ Along f P s is ∧ Along f P (runFrom f s is) js := by
  induction is generalizing s with
  | nil => exact ⟨fun h => ⟨trivial, h⟩, fun h => h.2⟩
  | cons i is ih => rw [List.cons_append, along_cons, ih, along_cons, runFrom_cons, and_assoc]

/-- A guard that holds of these inputs in every state. -/
theorem Along.of_forall {f : σ → ι → σ} {P : σ → ι → Prop} {is : List ι}
    (h : ∀ i ∈ is, ∀ s, P s i) {s : σ} : Along f P s is := by
  induction is generalizing s with
  | nil => trivial
  | cons i is ih =>
      exact ⟨h i List.mem_cons_self s, ih fun j hj => h j (List.mem_cons_of_mem i hj)⟩

/-- A guard that always holds. -/
theorem Along.intro {f : σ → ι → σ} (is : List ι) {s : σ} : Along f (fun _ _ => True) s is :=
  .of_forall fun _ _ _ => trivial

instance Along.decidable {f : σ → ι → σ} {P : σ → ι → Prop} [∀ s i, Decidable (P s i)] :
    ∀ s is, Decidable (Along f P s is)
  | _, [] => .isTrue trivial
  | s, i :: is =>
      have : Decidable (Along f P (f s i) is) := Along.decidable (f s i) is
      inferInstanceAs (Decidable (P s i ∧ Along f P (f s i) is))

theorem Along.and {f : σ → ι → σ} {P Q : σ → ι → Prop} {s : σ} {is : List ι}
    (h : Along f P s is) (h' : Along f Q s is) : Along f (fun s i => P s i ∧ Q s i) s is := by
  induction is generalizing s with
  | nil => trivial
  | cons i is ih => exact ⟨⟨h.1, h'.1⟩, ih h.2 h'.2⟩

/-- **Invariants of guarded runs.**  A predicate kept by every step that meets `P` holds after
every run whose steps meet `P`. -/
theorem Along.invariant {f : σ → ι → σ} {P : σ → ι → Prop} {I : σ → Prop}
    (hstep : ∀ s i, I s → P s i → I (f s i)) {s : σ} {is : List ι} (h₀ : I s)
    (h : Along f P s is) : I (runFrom f s is) := by
  induction is generalizing s with
  | nil => exact h₀
  | cons i is ih => exact ih (hstep s i h₀ h.1) h.2

/-- **What each step gives, the run gives.**  An invariant and a guard that yield `Q` at every
step yield it along the run. -/
theorem Along.derive {f : σ → ι → σ} {P Q : σ → ι → Prop} {I : σ → Prop}
    (hstep : ∀ s i, I s → P s i → I (f s i)) (hQ : ∀ s i, I s → P s i → Q s i) {s : σ}
    {is : List ι} (h₀ : I s) (h : Along f P s is) : Along f Q s is := by
  induction is generalizing s with
  | nil => trivial
  | cons i is ih => exact ⟨hQ s i h₀ h.1, ih (hstep s i h₀ h.1) h.2⟩

/-- An unguarded invariant holds after every run. -/
theorem invariant {f : σ → ι → σ} {I : σ → Prop} (hstep : ∀ s i, I s → I (f s i)) {s : σ}
    (h₀ : I s) (is : List ι) : I (runFrom f s is) := by
  induction is generalizing s with
  | nil => exact h₀
  | cons i is ih => exact ih (hstep s i h₀)

/-- How many steps of the run satisfy `P`. -/
def tally (f : σ → ι → σ) (P : σ → ι → Prop) [∀ s i, Decidable (P s i)] : σ → List ι → Nat
  | _, [] => 0
  | s, i :: is => (if P s i then 1 else 0) + tally f P (f s i) is

/-- **Invariants that count.**  A predicate of a number and a state, which every guarded step keeps
when the number counts the steps that satisfy `Q`, counts them over every guarded run. -/
theorem Along.counted {f : σ → ι → σ} {P Q : σ → ι → Prop} [∀ s i, Decidable (Q s i)]
    {I : Nat → σ → Prop}
    (hstep : ∀ n s i, I n s → P s i → I (n + if Q s i then 1 else 0) (f s i)) {n : Nat} {s : σ}
    {is : List ι} (h₀ : I n s) (h : Along f P s is) : I (n + tally f Q s is) (runFrom f s is) := by
  induction is generalizing n s with
  | nil => exact h₀
  | cons i is ih =>
      rw [tally, ← Nat.add_assoc]
      exact ih (hstep n s i h₀ h.1) h.2

/-! ### Machines with outputs -/

section outputs

variable {ο τ : Type*}

/-- The inputs of a run of `f`, each with the output of its step. -/
def trace (f : σ → ι → σ × ο) : σ → List ι → List (ι × ο)
  | _, [] => []
  | s, i :: is => (i, (f s i).2) :: trace f (f s i).1 is

/-- A path of the relation `R`, through steps labelled by an input and an output. -/
inductive Path (R : ι → ο → τ → τ → Prop) : τ → List (ι × ο) → τ → Prop where
  | nil (t : τ) : Path R t [] t
  | cons {t t₁ t' : τ} {i : ι} {o : ο} {l : List (ι × ο)} (h : R i o t t₁) (p : Path R t₁ l t') :
      Path R t ((i, o) :: l) t'

/-- **Simulation.**  If an invariant and the guard make every step of the machine a step of `R`
between the abstractions of its states, a guarded run is a path of `R`. -/
theorem Along.path {f : σ → ι → σ × ο} {P : σ → ι → Prop} {I : σ → Prop} {g : σ → τ}
    {R : ι → ο → τ → τ → Prop} (hstep : ∀ s i, I s → P s i → I (f s i).1)
    (hsim : ∀ s i, I s → P s i → R i (f s i).2 (g s) (g (f s i).1)) {s : σ} {is : List ι}
    (h₀ : I s) (h : Along (fun s i => (f s i).1) P s is) :
    Path R (g s) (trace f s is) (g (runFrom (fun s i => (f s i).1) s is)) := by
  induction is generalizing s with
  | nil => exact .nil _
  | cons i is ih => exact .cons (hsim s i h₀ h.1) (ih (hstep s i h₀ h.1) h.2)

/-- The outputs of a run of `f`. -/
def outputs (f : σ → ι → σ × ο) : σ → List ι → List ο
  | _, [] => []
  | s, i :: is => (f s i).2 :: outputs f (f s i).1 is

/-- **Refinement.**  If related states answer every guarded input alike and stay related, so do
the two machines over a guarded run. -/
theorem Along.refines {ο' : Type*} {f : σ → ι → σ × ο} {g : τ → ι → τ × ο'} {P : σ → ι → Prop}
    {R : σ → τ → Prop} {O : ο → ο' → Prop}
    (hstep : ∀ s t i, R s t → P s i → R (f s i).1 (g t i).1 ∧ O (f s i).2 (g t i).2) {s : σ} {t : τ}
    {is : List ι} (h₀ : R s t) (h : Along (fun s i => (f s i).1) P s is) :
    List.Forall₂ O (outputs f s is) (outputs g t is) := by
  induction is generalizing s t with
  | nil => exact .nil
  | cons i is ih =>
      obtain ⟨hR, hO⟩ := hstep s t i h₀ h.1
      exact .cons hO (ih hR h.2)

end outputs

end Runs
