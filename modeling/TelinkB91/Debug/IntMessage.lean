import TelinkB91.Debug.Packets

/-!
# Debug — a string with a number

`usb_send_str_int` puts a string, a sign and the decimal digits of an `int` into the print FIFO.  It
returns early when the FIFO is full, and when the string is empty; the second time it has disabled
the interrupts.  It negates a negative number, and does not look at the size of a slot.

* `digitsFrom_eq`: the loop over the digits.
* `message_iff`: when the function does one or the other of what it should.
* `digits_intMin`: the number that is its own negation.
* `empty_string`: the interrupts stay disabled.
-/

namespace TelinkB91.Debug.IntMessage
open ByteMemory Fifo Packets Ring

/-- A string in front of its zero.  Its length is an `int`. -/
structure CString where
  bytes : List U8
  ne_zero : ∀ b ∈ bytes, b ≠ 0#8
  length_lt : bytes.length < 2 ^ 31

/-- The print FIFO, and the bit `MIE` of `mstatus`. -/
structure Log where
  sys : Sys
  mie : Bool

/-- `core_interrupt_disable`, with its result. -/
def coreInterruptDisable (s : Log) : Log × Bool :=
  if s.mie then ({ s with mie := false }, s.mie) else (s, s.mie)

/-- `core_restore_interrupt`. -/
def coreRestoreInterrupt (s : Log) (en : Bool) : Log := if en then { s with mie := true } else s

/-- `myudb_print_fifo_full`. -/
def MyudbPrintFifoFull (f : MyFifo) : Prop := occupied f.rptr f.wptr ≥ f.num

instance (f : MyFifo) : Decidable (MyudbPrintFifoFull f) := inferInstanceAs (Decidable (_ ≥ _))

/-- The loop over the digits, in front of `acc`.  `buf` has room for `room` of them. -/
def digitsFrom : Nat → U32 → List U8 → Option (List U8)
  | 0, _, _ => none
  | room + 1, u, acc =>
      let tmp := (u.srem 10#32).setWidth 8
      let acc := (tmp + 0x30#8) :: acc
      let u := u.sdiv 10#32
      if u ≠ 0#32 then digitsFrom room u acc else some acc

/-- `symbol`. -/
def symbol (w : U32) : U8 := if w.toInt < 0 then 0x2D#8 else 0x20#8

/-- `u`, without a sign.  The negation wraps. -/
def unsigned (w : U32) : U32 := if w.toInt < 0 then -w else w

/-- `usb_send_str_int`, with its result, if the digits have room in `buf[13]`. -/
def usbSendStrInt (s : Log) (str : CString) (w : U32) : Option (Log × Int) :=
  if MyudbPrintFifoFull s.sys.fifo then some (s, -1)
  else
    let (s, rie) := coreInterruptDisable s
    let n := str.bytes.length
    if n = 0 then some (s, -2)
    else
      (digitsFrom 12 (unsigned w) []).map fun digits =>
        let len := n + 2 + 1 + 1 + digits.length
        let record :=
          [BitVec.ofNat 8 len, BitVec.ofNat 8 (len >>> 8), 0#8, 0#8, 0x82#8, 8#8, 0x20#8] ++
            str.bytes ++ [symbol w] ++ digits
        (coreRestoreInterrupt { s with sys := s.sys.store record } rie,
          (BitVec.ofNat 32 len).toInt)

/-- The decimal digits of a number, as characters. -/
def decimal (n : Nat) : List U8 := (Nat.toDigits 10 n).map fun c => BitVec.ofNat 8 c.toNat

/-- The string, the sign and the digits. -/
def message (str : CString) (w : U32) : List U8 :=
  str.bytes ++ [if w.toInt < 0 then 0x2D#8 else 0x20#8] ++ decimal w.toInt.natAbs

/-- A negative result, and nothing is changed. -/
def Refused (s t : Log) (ret : Int) : Prop := ret < 0 ∧ t = s

/-- One record is appended, inside of its slot, and its text is the message. -/
structure Appended (s t : Log) (str : CString) (w : U32) : Prop where
  fifo : t.sys.fifo = myFifoNext s.sys.fifo
  text : payloadAt t.sys.mem (s.sys.fifo.addr s.sys.fifo.wptr) =
    [0x82#8, 8#8, 0x20#8] ++ message str w
  inSlot : 4 + lenAt t.sys.mem (s.sys.fifo.addr s.sys.fifo.wptr) ≤ s.sys.fifo.size
  kept : ∀ x, x < s.sys.fifo.addr s.sys.fifo.wptr ∨
    s.sys.fifo.addr s.sys.fifo.wptr + s.sys.fifo.size ≤ x → t.sys.mem x = s.sys.mem x
  mie : t.mie = s.mie

/-- What a call should do. -/
def Reports (s : Log) (str : CString) (w : U32) : Prop :=
  ∃ t ret, usbSendStrInt s str w = some (t, ret) ∧ (Refused s t ret ∨ Appended s t str w)

/-! ### The digits -/

/-- The last digit. -/
theorem decimal_eq (n : Nat) :
    decimal n = (if n < 10 then [] else decimal (n / 10)) ++ [BitVec.ofNat 8 (48 + n % 10)] := by
  have hlast : ∀ d < 10, BitVec.ofNat 8 (Nat.digitChar d).toNat = BitVec.ofNat 8 (48 + d) := by
    intro d hd
    rw [Nat.toNat_digitChar_of_lt_ten hd]
  rw [decimal, Nat.toDigits_eq_if (by decide)]
  split_ifs with hless
  · rw [List.map_singleton, hlast n hless, Nat.mod_eq_of_lt hless, List.nil_append]
  · rw [List.map_append, List.map_singleton, hlast _ (Nat.mod_lt n (by decide)), decimal]

section digits

variable {u : U32}

theorem msb_unsigned (hsign : u.toNat < 2 ^ 31) : u.msb = false := by
  rw [BitVec.msb_eq_false_iff_two_mul_lt]
  omega

theorem toNat_sdiv (hsign : u.toNat < 2 ^ 31) : (u.sdiv 10#32).toNat = u.toNat / 10 := by
  rw [BitVec.sdiv_eq, msb_unsigned hsign]
  exact BitVec.toNat_udiv

/-- `tmp + '0'`. -/
theorem last_digit (hsign : u.toNat < 2 ^ 31) :
    (u.srem 10#32).setWidth 8 + 0x30#8 = BitVec.ofNat 8 (48 + u.toNat % 10) := by
  have hmod : (u % 10#32).toNat = u.toNat % 10 := BitVec.toNat_umod
  rw [BitVec.srem_eq, msb_unsigned hsign]
  refine BitVec.eq_of_toNat_eq ?_
  change ((u % 10#32).setWidth 8 + 0x30#8).toNat = _
  rw [BitVec.toNat_add, BitVec.toNat_setWidth, hmod, BitVec.toNat_ofNat, BitVec.toNat_ofNat]
  omega

theorem digitsFrom_last (hless : u.toNat < 10) (k : Nat) (acc : List U8) :
    digitsFrom (k + 1) u acc = some (decimal u.toNat ++ acc) := by
  have hsign : u.toNat < 2 ^ 31 := hless.trans (by decide)
  have hend : u.sdiv 10#32 = 0#32 :=
    BitVec.eq_of_toNat_eq ((toNat_sdiv hsign).trans (Nat.div_eq_of_lt hless))
  rw [digitsFrom, last_digit hsign, decimal_eq, if_pos hless]
  exact if_neg (not_not.mpr hend)

/-- **The loop over the digits**, for a number without a sign. -/
theorem digitsFrom_eq (hsign : u.toNat < 2 ^ 31) {k : Nat} (hk : u.toNat < 10 ^ (k + 1))
    (acc : List U8) : digitsFrom (k + 1) u acc = some (decimal u.toNat ++ acc) := by
  induction k generalizing u acc with
  | zero => exact digitsFrom_last hk 0 acc
  | succ k ih =>
      by_cases hless : u.toNat < 10
      · exact digitsFrom_last hless _ acc
      · have hdiv := toNat_sdiv hsign
        have hmore : u.sdiv 10#32 ≠ 0#32 := by
          intro hzero
          rw [hzero] at hdiv
          exact hless (Nat.lt_of_div_eq_zero (by decide) hdiv.symm)
        have hsign' : (u.sdiv 10#32).toNat < 2 ^ 31 := by omega
        have hk' : (u.sdiv 10#32).toNat < 10 ^ (k + 1) := by
          rw [hdiv]
          exact Nat.div_lt_of_lt_mul (by rw [← Nat.pow_succ']; exact hk)
        rw [digitsFrom, last_digit hsign, decimal_eq, if_neg hless, List.append_assoc, ← hdiv]
        exact (if_pos hmore).trans (ih hsign' hk' _)

end digits

/-- The most negative number, `INT_MIN`. -/
def intMin : U32 := 0x80000000#32

/-- Every other number has its absolute value. -/
theorem toNat_unsigned {w : U32} (h : w ≠ intMin) :
    (unsigned w).toNat = w.toInt.natAbs ∧ (unsigned w).toNat < 2 ^ 31 := by
  have hint := BitVec.toInt_eq_toNat_cond w
  rw [unsigned]
  split_ifs with hneg
  · have hne : w.toNat ≠ 0x80000000 := fun hmin => h (BitVec.eq_of_toNat_eq hmin)
    rw [BitVec.toNat_neg]
    split_ifs at hint <;> omega
  · split_ifs at hint <;> omega

/-- The digits of every number but `INT_MIN`. -/
theorem digits_unsigned {w : U32} (h : w ≠ intMin) :
    digitsFrom 12 (unsigned w) [] = some (decimal w.toInt.natAbs) := by
  obtain ⟨habs, hsign⟩ := toNat_unsigned h
  have hk : (unsigned w).toNat < 10 ^ (11 + 1) := hsign.trans (by decide)
  rw [digitsFrom_eq hsign hk, habs, List.append_nil]

/-- What the loop makes of `INT_MIN`: ten characters, none of them a digit. -/
theorem digits_intMin : digitsFrom 12 (unsigned intMin) [] =
    some [0x2E#8, 0x2F#8, 0x2C#8, 0x29#8, 0x2C#8, 0x28#8, 0x2D#8, 0x2A#8, 0x2C#8, 0x28#8] := rfl

/-! ### One call -/

section call

variable {s t : Log} {str : CString} {w : U32} {ret : Int}

theorem disable_eq (s : Log) : coreInterruptDisable s = ({ s with mie := false }, s.mie) := by
  obtain ⟨sys, mie⟩ := s
  cases mie <;> rfl

theorem restore_eq (sys : Sys) (mie : Bool) :
    coreRestoreInterrupt ⟨sys, false⟩ mie = ⟨sys, mie⟩ := by
  cases mie <;> rfl

theorem sendStrInt_full (str : CString) (w : U32) (h : MyudbPrintFifoFull s.sys.fifo) :
    usbSendStrInt s str w = some (s, -1) := if_pos h

theorem sendStrInt_empty (w : U32) (h : ¬MyudbPrintFifoFull s.sys.fifo) (hn : str.bytes = []) :
    usbSendStrInt s str w = some ({ s with mie := false }, -2) := by
  have hlen : str.bytes.length = 0 := by rw [hn, List.length_nil]
  rw [usbSendStrInt, if_neg h, disable_eq]
  exact if_pos hlen

/-- What is sent of a string with the digits `digits`. -/
def payload (str : CString) (w : U32) (digits : List U8) : List U8 :=
  [0x82#8, 8#8, 0x20#8] ++ (str.bytes ++ [symbol w] ++ digits)

theorem sendStrInt_stored (h : ¬MyudbPrintFifoFull s.sys.fifo) (hn : str.bytes ≠ [])
    {digits : List U8} (hdigits : digitsFrom 12 (unsigned w) [] = some digits) :
    ∃ ret, usbSendStrInt s str w =
      some (⟨s.sys.store (framed (payload str w digits)), s.mie⟩, ret) := by
  have hlen : str.bytes.length ≠ 0 := fun hzero => hn (List.eq_nil_of_length_eq_zero hzero)
  have hpayload : (payload str w digits).length = str.bytes.length + 2 + 1 + 1 + digits.length := by
    simp only [payload, List.length_append, List.length_cons, List.length_nil]
    omega
  rw [usbSendStrInt, if_neg h, disable_eq]
  dsimp only
  rw [if_neg hlen, hdigits, Option.map_some]
  refine ⟨_, congrArg some (Prod.ext ?_ rfl)⟩
  dsimp only
  rw [restore_eq, framed, hpayload, payload]
  simp only [List.append_assoc]
  rfl

/-- A record that is read back as the text `q` of its own length. -/
theorem eq_of_payloadAt {m : Memory} {a : Nat} {p q : List U8} (hlen : p.length = q.length)
    (h : payloadAt (write m a (framed p)) a = q) : p = q ∧ p.length < 65536 := by
  have hback : lenAt (write m a (framed p)) a = p.length % 65536 := lenAt_write_mod ..
  have hlength := congrArg List.length h
  rw [payloadAt, length_read, hback, ← hlen] at hlength
  have hless : p.length < 65536 := by
    rw [← hlength]
    exact Nat.mod_lt _ (by decide)
  exact ⟨(payloadAt_framed m a hless).symm.trans h, hless⟩

/-- The FIFO has changed. -/
theorem not_refused {bs : List U8} {mie : Bool} : ¬Refused s ⟨s.sys.store bs, mie⟩ ret := by
  rintro ⟨-, heq⟩
  have hwptr : s.sys.fifo.wptr + 1 = s.sys.fifo.wptr :=
    congrArg (fun t : Log => t.sys.fifo.wptr) heq
  bv_omega

/-- What is appended, for a message that fits. -/
theorem appended_iff :
    Appended s ⟨s.sys.store (framed ([0x82#8, 8#8, 0x20#8] ++ message str w)), s.mie⟩ str w ↔
      (message str w).length + 7 ≤ s.sys.fifo.size ∧ (message str w).length + 3 < 65536 := by
  have hlen : ([0x82#8, 8#8, 0x20#8] ++ message str w).length = (message str w).length + 3 := by
    rw [List.length_append, Nat.add_comm]
    rfl
  have hback : ∀ hless : (message str w).length + 3 < 65536,
      lenAt (s.sys.store (framed ([0x82#8, 8#8, 0x20#8] ++ message str w))).mem
        (s.sys.fifo.addr s.sys.fifo.wptr) = (message str w).length + 3 := by
    intro hless
    rw [← hlen] at hless
    exact (lenAt_framed _ _ hless).trans hlen
  constructor
  · intro h
    obtain ⟨-, hless⟩ := eq_of_payloadAt rfl h.text
    rw [hlen] at hless
    have hslot := h.inSlot
    rw [hback hless] at hslot
    exact ⟨by omega, hless⟩
  · rintro ⟨hsize, hless⟩
    refine ⟨rfl, payloadAt_framed _ _ (hlen ▸ hless), ?_, fun x hx => ?_, rfl⟩
    · rw [hback hless]
      omega
    · refine write_apart (hx.imp_right fun hle => ?_)
      rw [length_framed, hlen]
      omega

/-- The message is in its slot, and its length in 16 bits. -/
structure Fits (s : Log) (str : CString) (w : U32) : Prop where
  slot : (message str w).length + 7 ≤ s.sys.fifo.size
  word : (message str w).length + 3 < 65536

/-- A string that is not empty. -/
theorem reports_stored (h : ¬MyudbPrintFifoFull s.sys.fifo) (hn : str.bytes ≠ []) :
    Reports s str w ↔ w ≠ intMin ∧ Fits s str w := by
  by_cases hmin : w = intMin
  · obtain ⟨ret, hcall⟩ := sendStrInt_stored h hn (hmin ▸ digits_intMin)
    refine ⟨?_, fun hw => absurd hmin hw.1⟩
    rintro ⟨t, ret', hcall', hreports⟩
    obtain ⟨rfl, -⟩ := Prod.ext_iff.mp (Option.some.inj (hcall.symm.trans hcall'))
    have happended := hreports.resolve_left not_refused
    -- The characters are as many as the digits.
    obtain ⟨heq, -⟩ := eq_of_payloadAt (by
      rw [payload, message, List.length_append, List.length_append, List.length_append,
        List.length_append, List.length_append, List.length_append, hmin]
      rfl) happended.text
    have hdigits := List.append_cancel_left (List.append_cancel_left heq)
    rw [hmin] at hdigits
    exact absurd hdigits (by decide)
  · obtain ⟨ret, hcall⟩ := sendStrInt_stored h hn (digits_unsigned hmin)
    have hpayload : payload str w (decimal w.toInt.natAbs) =
        [0x82#8, 8#8, 0x20#8] ++ message str w := rfl
    rw [hpayload] at hcall
    constructor
    · rintro ⟨t, ret', hcall', hreports⟩
      obtain ⟨rfl, -⟩ := Prod.ext_iff.mp (Option.some.inj (hcall.symm.trans hcall'))
      obtain ⟨hslot, hword⟩ := appended_iff.mp (hreports.resolve_left not_refused)
      exact ⟨hmin, hslot, hword⟩
    · rintro ⟨-, hfits⟩
      exact ⟨_, _, hcall, .inr (appended_iff.mpr ⟨hfits.slot, hfits.word⟩)⟩

/-- An empty string. -/
theorem reports_empty (h : ¬MyudbPrintFifoFull s.sys.fifo) (hn : str.bytes = []) :
    Reports s str w ↔ s.mie = false := by
  have hcall := sendStrInt_empty w h hn
  constructor
  · rintro ⟨t, ret, hcall', hreports⟩
    obtain ⟨rfl, -⟩ := Prod.ext_iff.mp (Option.some.inj (hcall.symm.trans hcall'))
    rcases hreports with ⟨-, heq⟩ | happended
    · exact (congrArg Log.mie heq).symm
    · exact happended.mie.symm
  · intro hmie
    refine ⟨_, _, hcall, .inl ⟨by decide, ?_⟩⟩
    rw [← hmie]

end call

/-- **A string with a number.**  The call does nothing, or appends the message, just when the FIFO
is full; or the string is empty and the interrupts were disabled before; or the string is not empty,
the number is not `INT_MIN`, and the message fits. -/
theorem message_iff (s : Log) (str : CString) (w : U32) :
    Reports s str w ↔ MyudbPrintFifoFull s.sys.fifo ∨ (str.bytes = [] ∧ s.mie = false) ∨
      (str.bytes ≠ [] ∧ w ≠ intMin ∧ Fits s str w) := by
  by_cases hfull : MyudbPrintFifoFull s.sys.fifo
  · have hcall := sendStrInt_full str w hfull
    exact ⟨fun _ => .inl hfull, fun _ => ⟨_, _, hcall, .inl ⟨by decide, rfl⟩⟩⟩
  · rw [or_iff_right hfull]
    by_cases hn : str.bytes = []
    · rw [reports_empty hfull hn]
      exact ⟨fun hmie => .inl ⟨hn, hmie⟩, fun h => (h.resolve_right fun h => h.1 hn).2⟩
    · rw [reports_stored hfull hn]
      exact ⟨fun h => .inr ⟨hn, h⟩, fun h => (h.resolve_left fun h => hn h.1).2⟩

/-- **An empty string.**  The interrupts stay disabled. -/
theorem empty_string : ¬∀ (s : Log) (str : CString) (w : U32), Reports s str w := by
  intro h
  have hreports := h ⟨⟨printFifo, fun _ => 0#8⟩, true⟩
    ⟨[], fun _ h => absurd h List.not_mem_nil, by decide⟩ 0#32
  exact Bool.noConfusion ((reports_empty (by decide) rfl).mp hreports)

end TelinkB91.Debug.IntMessage
