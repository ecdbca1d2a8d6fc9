import Mathlib.Data.BitVec
import TelinkB91.Lib.ByteMemory

/-!
# Library — words in a memory of bytes

A word of 32 bits is four bytes, the low one first.

* `word_setWord`: what was stored is loaded.
* `word_setWord_apart`, `setWord_apart`: other words and other bytes stay.
-/

namespace WordMemory

/-- A memory of bytes. -/
abbrev Memory := Nat → BitVec 8

/-- The word at `a`. -/
def word (m : Memory) (a : Nat) : Nat :=
  (m a).toNat + (m (a + 1)).toNat * 2 ^ 8 + (m (a + 2)).toNat * 2 ^ 16 + (m (a + 3)).toNat * 2 ^ 24

/-- The bytes of a word. -/
def wordBytes (v : Nat) : List (BitVec 8) :=
  [BitVec.ofNat 8 v, BitVec.ofNat 8 (v / 2 ^ 8), BitVec.ofNat 8 (v / 2 ^ 16),
    BitVec.ofNat 8 (v / 2 ^ 24)]

/-- The memory after the word `v` is stored at `a`. -/
def setWord (m : Memory) (a v : Nat) : Memory := ByteMemory.write m a (wordBytes v)

theorem word_lt (m : Memory) (a : Nat) : word m a < 2 ^ 32 := by
  have h₀ := (m a).isLt
  have h₁ := (m (a + 1)).isLt
  have h₂ := (m (a + 2)).isLt
  have h₃ := (m (a + 3)).isLt
  rw [word]
  omega

theorem setWord_apart {m : Memory} {a x v : Nat} (h : x < a ∨ a + 4 ≤ x) :
    setWord m a v x = m x :=
  ByteMemory.write_apart h

theorem word_setWord (m : Memory) (a : Nat) {v : Nat} (h : v < 2 ^ 32) :
    word (setWord m a v) a = v := by
  have h₀ : setWord m a v a = BitVec.ofNat 8 v := ByteMemory.write_at (i := 0) rfl
  have h₁ : setWord m a v (a + 1) = BitVec.ofNat 8 (v / 2 ^ 8) := ByteMemory.write_at rfl
  have h₂ : setWord m a v (a + 2) = BitVec.ofNat 8 (v / 2 ^ 16) := ByteMemory.write_at rfl
  have h₃ : setWord m a v (a + 3) = BitVec.ofNat 8 (v / 2 ^ 24) := ByteMemory.write_at rfl
  simp only [word, h₀, h₁, h₂, h₃, BitVec.toNat_ofNat]
  omega

theorem word_congr {m m' : Memory} {a : Nat} (h : ∀ x, a ≤ x → x < a + 4 → m' x = m x) :
    word m' a = word m a := by
  rw [word, word, h a (by omega) (by omega), h (a + 1) (by omega) (by omega),
    h (a + 2) (by omega) (by omega), h (a + 3) (by omega) (by omega)]

theorem word_setWord_apart (m : Memory) {a b v : Nat} (h : b + 4 ≤ a ∨ a + 4 ≤ b) :
    word (setWord m a v) b = word m b :=
  word_congr fun x h₁ h₂ => setWord_apart (by omega)

end WordMemory
