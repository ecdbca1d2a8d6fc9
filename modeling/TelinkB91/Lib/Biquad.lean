import Mathlib.Algebra.Order.Ring.Int
import Mathlib.Tactic.Ring

/-!
# Library — second-order filters with rounding

A filter adds up the input, the two inputs before it and its own last two outputs, each times a
coefficient, and divides the sum by `unit`, rounding to the nearest with `half`.

Its state is what the next two sums take from the past: `early`, what the next one takes, and
`late`, what the one after that takes already.  A step adds the new input and the new output to
`late` for the next `early`, and starts `late` anew.  So whether a set of pairs is kept, for every
output the rounding allows, is a condition on four numbers, and for a set with straight edges a
linear one.

* `early_next`, `late_next`: a step on the pairs.
* `Kept.next`: a set that meets the condition is kept.
-/

namespace Biquad

/-- The coefficients, of the inputs and of the outputs, and the rounding. -/
structure Filter where
  b₀ : Int
  b₁ : Int
  b₂ : Int
  a₁ : Int
  a₂ : Int
  unit : Int
  half : Int
  unit_pos : 0 < unit

/-- The last two inputs and outputs. -/
structure Taps where
  x₁ : Int
  x₂ : Int
  y₁ : Int
  y₂ : Int
  deriving DecidableEq, Repr

/-- Nothing yet. -/
def Taps.zero : Taps := ⟨0, 0, 0, 0⟩

variable (c : Filter) (t : Taps) (x : Int)

/-- What the next sum takes from the past. -/
def Filter.early : Int := c.b₁ * t.x₁ + c.b₂ * t.x₂ + c.a₁ * t.y₁ + c.a₂ * t.y₂

/-- What the sum after the next takes from it. -/
def Filter.late : Int := c.b₂ * t.x₁ + c.a₂ * t.y₁

def Filter.sum : Int := c.b₀ * x + c.early t

def Filter.output : Int := (c.sum t x + c.half) / c.unit

/-- One step, with the input `x`. -/
def Filter.next : Taps := ⟨x, t.x₁, c.output t x, t.y₁⟩

@[simp] theorem early_zero : c.early .zero = 0 := by simp [Filter.early, Taps.zero]

@[simp] theorem late_zero : c.late .zero = 0 := by simp [Filter.late, Taps.zero]

theorem early_next :
    c.early (c.next t x) = c.b₁ * x + c.late t + c.a₁ * c.output t x := by
  rw [Filter.early, Filter.next, Filter.late]
  ring

theorem late_next : c.late (c.next t x) = c.b₂ * x + c.a₂ * c.output t x := by
  rw [Filter.late, Filter.next]

/-- `y` is a rounding of the sum with the input `x` and `u` from the past. -/
def Filter.Rounds (u x y : Int) : Prop :=
  c.unit * y ≤ c.b₀ * x + u + c.half ∧ c.b₀ * x + u + c.half < c.unit * y + c.unit

theorem rounds_output : c.Rounds (c.early t) x (c.output t x) :=
  ⟨Int.mul_ediv_self_le c.unit_pos.ne', Int.lt_mul_ediv_self_add c.unit_pos⟩

/-- The set `S` of pairs is kept by every step whose input is in `X`. -/
structure Kept (c : Filter) (X : Int → Prop) (S : Int → Int → Prop) : Prop where
  zero : S 0 0
  step : ∀ u v x y, S u v → X x → c.Rounds u x y → S (c.b₁ * x + v + c.a₁ * y) (c.b₂ * x + c.a₂ * y)

variable {c t x} {X : Int → Prop} {S : Int → Int → Prop}

/-- **Such a set is kept by the filter**, which rounds in one of the ways. -/
theorem Kept.next (h : Kept c X S) (ht : S (c.early t) (c.late t)) (hx : X x) :
    S (c.early (c.next t x)) (c.late (c.next t x)) := by
  rw [early_next, late_next]
  exact h.step _ _ _ _ ht hx (rounds_output c t x)

end Biquad
