import TelinkB91.Debug.Output

/-!
# Debug — the length of a printed record

`my_printf` lets `vsnprintf` write the text into the slot, behind the header.  `vsnprintf` stores
`fifo_data_len` bytes at most, the last of which is zero, but returns the length of the whole text,
and a negative value for an error.  `my_printf` puts what it returns into the length of the record,
which has 16 bits.  The output sends as many bytes as that length says; the UART channel looks at
its first byte only.

* `lenAt_header`: the length that is read back.
* `printf_truthful_iff`: the length is that of what is there just when the text was not cut, or only
  by a multiple of 65536.
* `printf_cut`: a text of 100 bytes.
-/

namespace TelinkB91.Debug
open ByteMemory Fifo

/-- What `vsnprintf` has formatted, and what it returns. -/
structure Formatted where
  text : List U8
  ret : Int
  ret_eq : 0 ≤ ret → ret = text.length

/-- A text with no error. -/
def Formatted.ok (text : List U8) : Formatted := ⟨text, text.length, fun _ => rfl⟩

/-- The bytes `vsnprintf (s, n, ..)` stores at `s`. -/
def Formatted.stored (r : Formatted) (n : Nat) : List U8 :=
  if n = 0 then [] else r.text.take (n - 1) ++ [0#8]

/-- How many of them are text. -/
def Formatted.kept (r : Formatted) (n : Nat) : Nat := min r.text.length (n - 1)

/-- The bytes of the record between the length and the text: those that count. -/
def Channel.extension : Channel → List U8
  | .udb => [0x82#8, 8#8, 0x22#8, 0#8, 0#8]
  | .gsuart | .uart => []

/-- `my_printf` for the slot of `wptr`, and what it returns.  `len` and `len >> 8` go into the first
two bytes. -/
def myPrintf (g : TlkDbg) (s : Sys) (r : Formatted) : Sys × Int :=
  let len := r.ret + g.dbgChn.extension.length
  (s.store ([BitVec.ofInt 8 len, BitVec.ofInt 8 (len >>> (8 : Nat)), 0#8, 0#8] ++
    g.dbgChn.extension ++ r.stored g.fifoDataLen.toNat), r.ret)

/-- The bytes that the output of the channel sends of the record at `p`, from `p + 4` on. -/
def Channel.sentLen (chn : Channel) (m : Memory) (p : Nat) : Nat :=
  match chn with
  | .udb | .gsuart => lenAt m p
  | .uart => (m p).toNat

/-- The record that a `my_printf` on `s` has left, for a text with `kept` bytes of it stored. -/
structure Truthful (chn : Channel) (s t : Sys) (r : Formatted) (n : Nat) : Prop where
  length : lenAt t.mem (s.fifo.addr s.fifo.wptr) = chn.extension.length + r.kept n
  sent : chn.sentLen t.mem (s.fifo.addr s.fifo.wptr) ≤ chn.extension.length + r.kept n
  inSlot : 4 + chn.extension.length + (r.stored n).length ≤ s.fifo.size

/-- The whole text was stored, without an error. -/
def Formatted.Whole (r : Formatted) (n : Nat) : Prop := 0 ≤ r.ret ∧ r.kept n = r.text.length

/-- What is returned is the number of bytes stored and a multiple of 65536 besides, not 0. -/
def Formatted.Wraps (r : Formatted) (n : Nat) : Prop :=
  r.ret ≠ r.kept n ∧ (65536 : Int) ∣ r.ret - r.kept n

/-- The slot holds the header, or the header with the text, and the length has 16 bits. -/
structure Fits (chn : Channel) (size : Nat) (r : Formatted) (n : Nat) : Prop where
  slot : chn.formatLen.toNat ≤ size ∨ 4 + chn.extension.length + (r.kept n + 1) ≤ size
  word : chn.extension.length + r.kept n < 65536

/-! ### The header and the text -/

section record

variable (r : Formatted) (n : Nat)

theorem Formatted.length_stored :
    (r.stored n).length = if n = 0 then 0 else r.kept n + 1 := by
  rw [stored, kept]
  split
  · rfl
  · rw [List.length_append, List.length_take, List.length_singleton, Nat.min_comm]

/-- **The length** that is read back has 16 bits of the one that was stored. -/
theorem lenAt_header (m : Memory) (p : Nat) (len : Int) (bs : List U8) :
    lenAt (write m p (BitVec.ofInt 8 len :: BitVec.ofInt 8 (len >>> (8 : Nat)) :: bs)) p =
      (len % 65536).toNat := by
  have hlow : write m p (BitVec.ofInt 8 len :: BitVec.ofInt 8 (len >>> (8 : Nat)) :: bs) p =
      BitVec.ofInt 8 len := write_at (i := 0) rfl
  have hhigh : write m p (BitVec.ofInt 8 len :: BitVec.ofInt 8 (len >>> (8 : Nat)) :: bs) (p + 1) =
      BitVec.ofInt 8 (len >>> (8 : Nat)) := write_at (i := 1) rfl
  rw [lenAt, hlow, hhigh, BitVec.toNat_ofInt, BitVec.toNat_ofInt, Int.shiftRight_eq_div_pow]
  omega

/-- No channel sends more than the length says. -/
theorem sentLen_le (chn : Channel) (m : Memory) (p : Nat) : chn.sentLen m p ≤ lenAt m p := by
  cases chn with
  | udb | gsuart => exact le_rfl
  | uart => exact Nat.le_add_right _ _

theorem lenAt_myPrintf (g : TlkDbg) (s : Sys) :
    lenAt (myPrintf g s r).1.mem (s.fifo.addr s.fifo.wptr) =
      ((r.ret + g.dbgChn.extension.length) % 65536).toNat :=
  lenAt_header ..

/-- Where nothing was cut, the text is what is returned. -/
theorem whole_or_wraps_iff :
    r.Whole n ∨ r.Wraps n ↔ (65536 : Int) ∣ r.ret - r.kept n := by
  constructor
  · rintro (⟨hret, hkept⟩ | hwraps)
    · rw [r.ret_eq hret, hkept, sub_self]
      exact dvd_zero _
    · exact hwraps.2
  · intro hdvd
    by_cases heq : r.ret = r.kept n
    · have hret : 0 ≤ r.ret := heq ▸ Int.natCast_nonneg _
      exact .inl ⟨hret, Int.natCast_inj.mp (heq.symm.trans (r.ret_eq hret))⟩
    · exact .inr ⟨heq, hdvd⟩

/-- The record is in its slot. -/
theorem inSlot_iff (chn : Channel) (size : Nat) :
    4 + chn.extension.length + (r.stored (chn.dataLen size).toNat).length ≤ size ↔
      chn.formatLen.toNat ≤ size ∨
        4 + chn.extension.length + (r.kept (chn.dataLen size).toNat + 1) ≤ size := by
  have hext : 4 + chn.extension.length ≤ chn.formatLen.toNat := by
    cases chn with
    | udb | gsuart | uart => exact by decide
  rw [r.length_stored]
  by_cases hle : chn.formatLen.toNat ≤ size
  · have hmod := Nat.mod_le (size - chn.formatLen.toNat) 65536
    rw [toNat_dataLen hle, Formatted.kept]
    split_ifs with hzero
    · exact ⟨fun _ => .inl hle, fun _ => by omega⟩
    · exact ⟨fun _ => .inl hle, fun _ => by omega⟩
  · have hne : (chn.dataLen size).toNat ≠ 0 := by
      have hlt := chn.formatLen_le
      rw [Channel.dataLen, BitVec.toNat_sub, BitVec.toNat_ofNat, BitVec.toNat_setWidth]
      omega
    rw [if_neg hne, or_iff_right hle]

end record

/-- What `my_printf` stores is `printed`, where there is no error. -/
theorem myPrintf_ok (g : TlkDbg) (s : Sys) (text : List U8) :
    (myPrintf g s (.ok text)).1 = s.store (printed g text) := by
  have hbyte : ∀ k : Nat, BitVec.ofInt 8 ((k : Int) >>> (8 : Nat)) = BitVec.ofNat 8 (k >>> 8) := by
    intro k
    rw [Int.shiftRight_eq_div_pow, Nat.shiftRight_eq_div_pow, ← BitVec.ofInt_natCast,
      Int.natCast_ediv]
  rw [myPrintf, printed]
  cases g.dbgChn with
  | udb =>
      have hlen : (Formatted.ok text).ret + (Channel.extension .udb).length =
          ((text.length + 5 : Nat) : Int) := rfl
      rw [hlen, hbyte, BitVec.ofInt_natCast]
      rfl
  | gsuart | uart =>
      have hlen : (Formatted.ok text).ret + ([] : List U8).length = (text.length : Int) :=
        Int.add_zero _
      simp only [Channel.extension, hlen, hbyte, BitVec.ofInt_natCast]
      rfl

/-- **The length of a printed record.**  Over any slot, for any channel and any result of
`vsnprintf`: the length is that of the bytes in the record, no more is sent, and the record is in
its slot, just when the text was stored as a whole or the rest of it wraps, and the slot holds
it. -/
theorem printf_truthful_iff (chn : Channel) (g : TlkDbg) (s : Sys) (r : Formatted) :
    Truthful chn s (myPrintf (tlkapiDebugInit chn g s.fifo).1 s r).1 r
        (chn.dataLen s.fifo.size).toNat ↔
      (r.Whole (chn.dataLen s.fifo.size).toNat ∨ r.Wraps (chn.dataLen s.fifo.size).toNat) ∧
        Fits chn s.fifo.size r (chn.dataLen s.fifo.size).toNat := by
  have hlen := lenAt_myPrintf r (tlkapiDebugInit chn g s.fifo).1 s
  have hslot := inSlot_iff r chn s.fifo.size
  have hsent := sentLen_le chn (myPrintf (tlkapiDebugInit chn g s.fifo).1 s r).1.mem
    (s.fifo.addr s.fifo.wptr)
  have hchn : (tlkapiDebugInit chn g s.fifo).1.dbgChn = chn := rfl
  rw [hchn] at hlen
  rw [whole_or_wraps_iff]
  constructor
  · rintro ⟨hlength, -, hin⟩
    rw [hlen] at hlength
    have hword : chn.extension.length + r.kept (chn.dataLen s.fifo.size).toNat < 65536 := by
      omega
    exact ⟨by omega, hslot.mp hin, hword⟩
  · rintro ⟨hdvd, hfit, hword⟩
    have hlength : lenAt (myPrintf (tlkapiDebugInit chn g s.fifo).1 s r).1.mem
        (s.fifo.addr s.fifo.wptr) =
          chn.extension.length + r.kept (chn.dataLen s.fifo.size).toNat := by
      rw [hlen]
      omega
    exact ⟨hlength, hlength ▸ hsent, hslot.mpr hfit⟩

/-- **A text that is cut.**  Of 100 bytes the slot gets 55, and the length says 100. -/
theorem printf_cut :
    ¬∀ (chn : Channel) (g : TlkDbg) (s : Sys) (r : Formatted),
      Truthful chn s (myPrintf (tlkapiDebugInit chn g s.fifo).1 s r).1 r
        (chn.dataLen s.fifo.size).toNat := by
  intro h
  have hlength := (h .uart ⟨0#8, .uart, 0#8, 0#8, 0#16⟩ ⟨printFifo, fun _ => 0#8⟩
    (.ok (List.replicate 100 0x78#8))).length
  rw [lenAt_myPrintf] at hlength
  exact absurd hlength (by decide)

end TelinkB91.Debug
