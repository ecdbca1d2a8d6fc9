import Mathlib.Data.BitVec
import Mathlib.Data.List.Basic
import Mathlib.Tactic.IntervalCases

/-!
# Library — nibbles in bytes and words

Codes of four bits travel in bytes, the low nibble first.  An encoder that works on 16-bit words
shifts each code in from the top, and after four of them the word holds just those four, the
oldest lowest.

* `nibbles_getElem?`: the nibble a reader finds at a given place.
* `nibbles_shiftIn`: the nibbles of the bytes of such a word are the four codes, in order.
* `bytes_swapWord`: exchanging the nibbles of a word is exchanging those of its bytes.
-/

namespace Nibbles

abbrev Byte := BitVec 8

abbrev Nibble := BitVec 4

abbrev Word := BitVec 16

/-- The low nibble. -/
def low (b : Byte) : Nibble := b.setWidth 4

/-- The high nibble. -/
def high (b : Byte) : Nibble := (b >>> 4).setWidth 4

/-- The nibbles of a list of bytes, low ones first. -/
def nibbles (bs : List Byte) : List Nibble := bs.flatMap fun b => [low b, high b]

/-- The bytes of a word in memory, low one first. -/
def bytes (w : Word) : List Byte := [w.setWidth 8, (w >>> 8).setWidth 8]

/-- The bytes of a list of words. -/
def bytesOf (ws : List Word) : List Byte := ws.flatMap bytes

/-- `w = (w >> 4) | (c << 12)`. -/
def shiftIn (w c : Word) : Word := w >>> 4 ||| c <<< 12

/-- The byte with its nibbles exchanged. -/
def swap (b : Byte) : Byte := (b >>> 4 &&& 0x0F#8) ||| (b <<< 4 &&& 0xF0#8)

/-- The word with the nibbles of each byte exchanged. -/
def swapWord (w : Word) : Word :=
  (w &&& 0x000F#16) <<< 4 ||| (w &&& 0x00F0#16) >>> 4 ||| (w &&& 0x0F00#16) <<< 4 |||
    (w &&& 0xF000#16) >>> 4

@[simp] theorem nibbles_nil : nibbles [] = [] := rfl

@[simp] theorem nibbles_cons (b : Byte) (bs : List Byte) :
    nibbles (b :: bs) = low b :: high b :: nibbles bs := rfl

theorem length_nibbles (bs : List Byte) : (nibbles bs).length = 2 * bs.length := by
  induction bs with
  | nil => rfl
  | cons b bs ih => rw [nibbles_cons, List.length_cons, List.length_cons, ih, List.length_cons]; rfl

@[simp] theorem bytesOf_nil : bytesOf [] = [] := rfl

@[simp] theorem bytesOf_cons (w : Word) (ws : List Word) :
    bytesOf (w :: ws) = bytes w ++ bytesOf ws := rfl

theorem length_bytesOf (ws : List Word) : (bytesOf ws).length = 2 * ws.length := by
  induction ws with
  | nil => rfl
  | cons w ws ih =>
      rw [bytesOf_cons, List.length_append, ih, List.length_cons]
      exact Nat.add_comm _ _

/-- The nibble at place `i` is in byte `i / 2`: the low one at even places, the high one at odd
places. -/
theorem nibbles_getElem? (bs : List Byte) (i : Nat) :
    (nibbles bs)[i]? = bs[i / 2]?.map fun b => if i % 2 = 0 then low b else high b := by
  induction bs generalizing i with
  | nil => simp
  | cons b bs ih =>
      match i with
      | 0 => rfl
      | 1 => rfl
      | i + 2 =>
          have hdiv : (i + 2) / 2 = i / 2 + 1 := by omega
          have hmod : (i + 2) % 2 = i % 2 := by omega
          rw [nibbles_cons, List.getElem?_cons_succ, List.getElem?_cons_succ, ih, hdiv, hmod,
            List.getElem?_cons_succ]

/-- Four codes shifted in leave nothing of what was there. -/
theorem shiftIn_four (w a b c d : Word) :
    shiftIn (shiftIn (shiftIn (shiftIn w a) b) c) d =
      d.setWidth 4 ++ c.setWidth 4 ++ b.setWidth 4 ++ a.setWidth 4 := by
  refine BitVec.eq_of_getLsbD_eq ?_
  intro i hi
  simp only [shiftIn, BitVec.getLsbD_or, BitVec.getLsbD_ushiftRight, BitVec.getLsbD_shiftLeft,
    BitVec.getLsbD_append, BitVec.getLsbD_setWidth]
  interval_cases i <;> simp

theorem nibbles_bytes (d c b a : Nibble) :
    nibbles (bytes (d ++ c ++ b ++ a : BitVec 16)) = [a, b, c, d] := by
  have hword : ∀ {n : Nat} (x : BitVec n) (k i : Nat), (x >>> k).getLsbD i = x.getLsbD (k + i) :=
    fun x k i => BitVec.getLsbD_ushiftRight x k i
  simp only [bytes, nibbles_cons, nibbles_nil, List.cons.injEq, and_true]
  refine ⟨?_, ?_, ?_, ?_⟩ <;> refine BitVec.eq_of_getLsbD_eq fun i hi => ?_ <;>
    simp only [low, high, BitVec.getLsbD_append, BitVec.getLsbD_setWidth, hword] <;>
    interval_cases i <;> simp

/-- **What a reader finds.**  The nibbles of a word that four codes were shifted into. -/
theorem nibbles_shiftIn (w a b c d : Word) :
    nibbles (bytes (shiftIn (shiftIn (shiftIn (shiftIn w a) b) c) d)) =
      [a.setWidth 4, b.setWidth 4, c.setWidth 4, d.setWidth 4] := by
  rw [shiftIn_four]
  exact nibbles_bytes _ _ _ _

theorem nibbles_append (bs bs' : List Byte) : nibbles (bs ++ bs') = nibbles bs ++ nibbles bs' :=
  List.flatMap_append

theorem swap_swap (b : Byte) : swap (swap b) = b := by
  revert b; decide

theorem bytes_swapWord (w : Word) : bytes (swapWord w) = (bytes w).map swap := by
  simp only [bytes, List.map_cons, List.map_nil, List.cons.injEq, and_true]
  refine ⟨?_, ?_⟩ <;> refine BitVec.eq_of_getLsbD_eq fun i hi => ?_ <;>
    simp only [swapWord, swap, BitVec.getLsbD_or, BitVec.getLsbD_and, BitVec.getLsbD_ushiftRight,
      BitVec.getLsbD_shiftLeft, BitVec.getLsbD_setWidth] <;>
    interval_cases i <;> simp

/-- A reader that exchanges the nibbles back reads the bytes of the word. -/
theorem map_swap_swapWord (w : Word) : (bytes (swapWord w)).map swap = bytes w := by
  rw [bytes_swapWord, List.map_map, show swap ∘ swap = id from funext swap_swap, List.map_id]

/-- A word is its bytes, put together. -/
theorem append_bytes (w : Word) : ((w >>> 8).setWidth 8 ++ w.setWidth 8 : BitVec 16) = w := by
  refine BitVec.eq_of_getLsbD_eq ?_
  intro i hi
  simp only [BitVec.getLsbD_append, BitVec.getLsbD_setWidth, BitVec.getLsbD_ushiftRight]
  interval_cases i <;> simp

/-- The low byte of a word. -/
theorem append_and_low (hi lo : Byte) : (hi ++ lo : BitVec 16) &&& 0xFF#16 = lo.setWidth 16 := by
  refine BitVec.eq_of_getLsbD_eq ?_
  intro i h
  simp only [BitVec.getLsbD_and, BitVec.getLsbD_append, BitVec.getLsbD_setWidth]
  interval_cases i <;> simp

end Nibbles
