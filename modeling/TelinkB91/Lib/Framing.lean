import Mathlib.Data.List.Basic
import Mathlib.Algebra.Order.Ring.Nat

/-!
# Library — messages in packets

A link carries packets of `k` elements at most.  `chunks k bs n` cuts the front of `bs` into `n`
packets, and goes on with empty ones when `bs` is used up.  A message is sent as packets of `k`,
and ends with a packet that is shorter, if need be an empty one.  `split k` is the receiver, which
appends packets until it sees a short one.

* `flatten_chunks`, `length_chunk`, `chunk_full`, `chunk_nil`: the packets of a list.
* `outgoing_send`: a sender that has sent one more packet has the same messages out, of which the
  receiver has some, and one in part.
-/

namespace Framing

variable {α : Type*}

/-- `n` packets from the front of a list. -/
def chunks (k : Nat) : List α → Nat → List (List α)
  | _, 0 => []
  | bs, n + 1 => bs.take k :: chunks k (bs.drop k) n

@[simp] theorem length_chunks (k : Nat) (bs : List α) (n : Nat) : (chunks k bs n).length = n := by
  induction n generalizing bs with
  | zero => rfl
  | succ n ih => rw [chunks, List.length_cons, ih]

theorem chunks_getElem? {k : Nat} {bs c : List α} {n i : Nat} (h : (chunks k bs n)[i]? = some c) :
    c = (bs.drop (k * i)).take k := by
  induction n generalizing bs i with
  | zero => exact nomatch h
  | succ n ih =>
      rw [chunks] at h
      cases i with
      | zero => exact (Option.some.inj h).symm
      | succ i =>
          rw [List.getElem?_cons_succ] at h
          rw [ih h, List.drop_drop, Nat.mul_succ, Nat.add_comm]

theorem flatten_chunks (k : Nat) (bs : List α) (n : Nat) :
    (chunks k bs n).flatten = bs.take (k * n) := by
  induction n generalizing bs with
  | zero => rw [Nat.mul_zero, List.take_zero, chunks, List.flatten_nil]
  | succ n ih => rw [chunks, List.flatten_cons, ih, Nat.mul_succ, Nat.add_comm, List.take_add]

section packets

variable {k n : Nat} {bs : List α}

theorem length_chunk {c : List α} (h : c ∈ chunks k bs n) : c.length ≤ k := by
  obtain ⟨i, hi⟩ := List.mem_iff_getElem?.mp h
  rw [chunks_getElem? hi]
  exact List.length_take_le _ _

/-- A packet with a non-empty one behind it is full. -/
theorem chunk_full {i j : Nat} {c c' : List α} (hij : i < j) (hi : (chunks k bs n)[i]? = some c)
    (hj : (chunks k bs n)[j]? = some c') (hne : c' ≠ []) : c.length = k := by
  have hlt : k * j < bs.length := by
    by_contra hge
    rw [chunks_getElem? hj, List.drop_of_length_le (Nat.not_lt.mp hge), List.take_nil] at hne
    exact hne rfl
  have hnext : k * i + k ≤ k * j := Nat.mul_le_mul_left k (Nat.succ_le_of_lt hij)
  rw [chunks_getElem? hi, List.length_take, List.length_drop]
  exact Nat.min_eq_left (by omega)

/-- A packet behind the end is empty. -/
theorem chunk_nil {i : Nat} {c : List α} (hi : (chunks k bs n)[i]? = some c)
    (hend : bs.length ≤ k * i) : c = [] := by
  rw [chunks_getElem? hi, List.drop_of_length_le hend, List.take_nil]

end packets

/-! ### Messages -/

/-- One packet at the receiver, which has the messages `r.1`, and `r.2` of the next. -/
def accept (k : Nat) (r : List (List α) × List α) (packet : List α) : List (List α) × List α :=
  if packet.length < k then (r.1 ++ [r.2 ++ packet], []) else (r.1, r.2 ++ packet)

/-- What the receiver makes of the packets. -/
def split (k : Nat) (packets : List (List α)) : List (List α) × List α :=
  packets.foldl (accept k) ([], [])

theorem split_concat (k : Nat) (packets : List (List α)) (packet : List α) :
    split k (packets ++ [packet]) = accept k (split k packets) packet := by
  rw [split, List.foldl_append]
  rfl

/-- What the sender has left of the message `rest` after one packet, if it goes on. -/
def remainder (k : Nat) (rest : List α) : Option (List α) :=
  if (rest.take k).length < k then none else some (rest.drop k)

/-- The messages that are out: those the receiver has, and the one that is under way. -/
def outgoing (r : List (List α) × List α) : Option (List α) → List (List α)
  | none => r.1
  | some rest => r.1 ++ [r.2 ++ rest]

/-- **One packet.**  It leaves the messages that are out as they are, and a receiver that has part
of a message has a sender that goes on with it. -/
theorem outgoing_send (k : Nat) (r : List (List α) × List α) (rest : List α) :
    outgoing (accept k r (rest.take k)) (remainder k rest) = outgoing r (some rest) ∧
      (remainder k rest = none → (accept k r (rest.take k)).2 = []) := by
  rw [accept, remainder]
  split_ifs with hshort
  · have hall : rest.take k = rest := by
      rw [List.length_take] at hshort
      exact List.take_of_length_le (by omega)
    rw [hall]
    exact ⟨rfl, fun _ => rfl⟩
  · refine ⟨?_, fun h => nomatch h⟩
    rw [outgoing, outgoing, List.append_assoc, List.take_append_drop]

end Framing
