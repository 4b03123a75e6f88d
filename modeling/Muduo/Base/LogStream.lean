import Muduo.Base.StringPiece
import Muduo.Lib.Machine
import Muduo.Lib.Numerals
import Muduo.Lib.Slice

/-!
# LogStream

Texts that are inserted into an array of a fixed size. A pointer into the array
is a position in it, and whatever is written goes through `Memory.write`, which
faults outside the array. `%` and `/` are those of C++, which cut towards zero.
-/

namespace Muduo

open Lib

namespace LogStream

def kSmallBuffer : Nat := 4000
def kMaxNumericSize : Nat := 32

inductive Fault
  /-- A byte written outside the array, or a pointer behind its end. -/
  | outOfBounds
  /-- A byte read behind the end of what is copied. -/
  | source
  | digit
  deriving DecidableEq

end LogStream

open LogStream (Fault)

-- ---------------------------------------------------------------------------
-- FixedBuffer
-- ---------------------------------------------------------------------------

abbrev Memory (SIZE : Nat) := { data : Bytes // data.length = SIZE }

def Memory.write (m : Memory SIZE) (p : Nat) (bytes : Bytes) : Except Fault (Memory SIZE) :=
  if h : p + bytes.length ≤ SIZE then
    .ok ⟨splice m.val p bytes, (length_splice (m.property.symm ▸ h)).trans m.property⟩
  else .error .outOfBounds

/-- `cur_` is where the next byte goes. -/
structure FixedBuffer (SIZE : Nat) where
  data : Memory SIZE
  cur : Nat
  cur_le : cur ≤ SIZE

namespace FixedBuffer

variable {SIZE : Nat}

/-- The array holds what was in its memory before. -/
def make (data : Memory SIZE) : FixedBuffer SIZE := ⟨data, 0, Nat.zero_le SIZE⟩

def length (b : FixedBuffer SIZE) : Nat := b.cur

def current (b : FixedBuffer SIZE) : Nat := b.cur

def avail (b : FixedBuffer SIZE) : Nat := SIZE - b.cur

def asString (b : FixedBuffer SIZE) : Bytes := b.data.val.take b.length

def add (b : FixedBuffer SIZE) (len : Nat) : Except Fault (FixedBuffer SIZE) :=
  if h : b.cur + len ≤ SIZE then .ok { b with cur := b.cur + len, cur_le := h }
  else .error .outOfBounds

def append (b : FixedBuffer SIZE) (buf : Bytes) (len : Nat) : Except Fault (FixedBuffer SIZE) := do
  if b.avail > len then
    ensure (len ≤ buf.length) .source
    let data ← b.data.write b.cur (buf.take len)
    { b with data := data }.add len
  else
    return b

end FixedBuffer

namespace LogStream

-- ---------------------------------------------------------------------------
-- Conversions
-- ---------------------------------------------------------------------------

def digits : Bytes := ascii "9876543210123456789"

def digitsHex : Bytes := ascii "0123456789ABCDEF"

def zero (lsd : Int) : Option UInt8 := if 0 ≤ 9 + lsd then digits[(9 + lsd).toNat]? else none

def hexDigit (lsd : Int) : Option UInt8 := if 0 ≤ lsd then digitsHex[lsd.toNat]? else none

/-- What the loops of `convert` and `convertHex` differ in. -/
structure Radix where
  base : Nat
  digit : Int → Option UInt8
  base_gt : 1 < base

def Radix.decimal : Radix := ⟨10, zero, by decide⟩

def Radix.hex : Radix := ⟨16, hexDigit, by decide⟩

theorem Radix.natAbs_tdiv_lt (r : Radix) {i : Int} (h : i.tdiv r.base ≠ 0) :
    (i.tdiv r.base).natAbs < i.natAbs := by
  have hdiv : (i.tdiv r.base).natAbs = i.natAbs / r.base := Int.natAbs_tdiv i r.base
  have hpos : 0 < i.natAbs := by
    refine Int.natAbs_pos.mpr fun hi => h ?_
    rw [hi, Int.zero_tdiv]
  rw [hdiv]
  exact Nat.div_lt_self hpos r.base_gt

/-- `p` is where the next digit goes. -/
def digitLoop (r : Radix) (m : Memory SIZE) (p : Nat) (i : Int) :
    Except Fault (Memory SIZE × Nat) :=
  match r.digit (i.tmod r.base) with
  | none => .error .digit
  | some c => do
    let m ← m.write p [c]
    if h : i.tdiv r.base = 0 then return (m, p + 1) else digitLoop r m (p + 1) (i.tdiv r.base)
termination_by i.natAbs
decreasing_by exact r.natAbs_tdiv_lt h

def writeSign (m : Memory SIZE) (p : Nat) (value : Int) : Except Fault (Memory SIZE × Nat) := do
  if value < 0 then
    let m ← m.write p (ascii "-")
    return (m, p + 1)
  else
    return (m, p)

/-- `*p = '\0'; std::reverse(buf,p); return p - buf;` -/
def terminate (m : Memory SIZE) (buf p : Nat) : Except Fault (Memory SIZE × Nat) := do
  let m ← m.write p [0]
  let m ← m.write buf (slice m.val buf p).reverse
  return (m, p - buf)

def convert (m : Memory SIZE) (buf : Nat) (value : Int) : Except Fault (Memory SIZE × Nat) := do
  let (m, p) ← digitLoop .decimal m buf value
  let (m, p) ← writeSign m p value
  terminate m buf p

def convertHex (m : Memory SIZE) (buf : Nat) (value : UInt64) :
    Except Fault (Memory SIZE × Nat) := do
  let (m, p) ← digitLoop .hex m buf value.toNat
  terminate m buf p

end LogStream

-- ---------------------------------------------------------------------------
-- What is inserted
-- ---------------------------------------------------------------------------

/-- What `operator<<` has a conversion for. A pointer is its `uintptr_t`. -/
inductive Number
  | short (v : Int16)
  | unsignedShort (v : UInt16)
  | int (v : Int32)
  | unsignedInt (v : UInt32)
  | long (v : Int64)
  | unsignedLong (v : UInt64)
  | longLong (v : Int64)
  | unsignedLongLong (v : UInt64)
  | pointer (p : UInt64)

/-- What `snprintf` makes of a number, with a NUL in no more than 32 bytes. -/
structure Printed where
  text : Bytes
  length_lt : text.length < LogStream.kMaxNumericSize

inductive Item
  | bool (v : Bool)
  | number (v : Number)
  /-- What `"%.12g"` makes of it. A `float` is inserted as a `double`. -/
  | double (v : Printed)
  | char (v : UInt8)
  | cString (v : CString)
  | string (v : Bytes)
  | piece (v : StringPiece) (hv : v.Valid)
  | fmt (v : Printed)

structure LogStream where
  buffer : FixedBuffer LogStream.kSmallBuffer

namespace LogStream

def make (data : Memory kSmallBuffer) : LogStream := ⟨.make data⟩

def append (s : LogStream) (data : Bytes) (len : Nat) : Except Fault LogStream := do
  return ⟨← s.buffer.append data len⟩

def formatInteger (s : LogStream) (v : Int) : Except Fault LogStream := do
  if s.buffer.avail > kMaxNumericSize then
    let (data, len) ← convert s.buffer.data s.buffer.current v
    return ⟨← { s.buffer with data := data }.add len⟩
  else
    return s

/-- `operator<<(const void*)` -/
def formatPointer (s : LogStream) (v : UInt64) : Except Fault LogStream := do
  if s.buffer.avail ≥ kMaxNumericSize then
    let buf := s.buffer.current
    let data ← s.buffer.data.write buf (ascii "0")
    let data ← data.write (buf + 1) (ascii "x")
    let (data, len) ← convertHex data (buf + 2) v
    return ⟨← { s.buffer with data := data }.add (len + 2)⟩
  else
    return s

/-- `operator<<(double)` -/
def formatDouble (s : LogStream) (v : Printed) : Except Fault LogStream := do
  if s.buffer.avail > kMaxNumericSize then
    let data ← s.buffer.data.write s.buffer.current (v.text ++ [0])
    return ⟨← { s.buffer with data := data }.add v.text.length⟩
  else
    return s

/-- A `short` is inserted as an `int`. -/
def insertNumber (s : LogStream) : Number → Except Fault LogStream
  | .short v => s.formatInteger v.toInt32.toInt
  | .unsignedShort v => s.formatInteger v.toUInt32.toNat
  | .int v => s.formatInteger v.toInt
  | .unsignedInt v => s.formatInteger v.toNat
  | .long v => s.formatInteger v.toInt
  | .unsignedLong v => s.formatInteger v.toNat
  | .longLong v => s.formatInteger v.toInt
  | .unsignedLongLong v => s.formatInteger v.toNat
  | .pointer p => s.formatPointer p

/-- `operator<<`. An `int` that is given as the `size_t` of `append` is cast to it. -/
def insert (s : LogStream) : Item → Except Fault LogStream
  | .bool v => s.append (ascii (if v then "1" else "0")) 1
  | .number v => s.insertNumber v
  | .double v => s.formatDouble v
  | .char v => s.append [v] 1
  | .cString v => s.append v.memory v.strlen
  | .string v => s.append v v.length
  | .piece v _ => s.append v.data (v.size % 2 ^ 64).toNat
  | .fmt v => s.append v.text v.text.length

def insertAll (s : LogStream) (items : List Item) : Except Fault LogStream :=
  items.foldlM insert s

-- ---------------------------------------------------------------------------
-- Texts
-- ---------------------------------------------------------------------------

def decimalDigit (d : Nat) : UInt8 := (ascii "0123456789").getD d 0

def upperHexDigit (d : Nat) : UInt8 := digitsHex.getD d 0

def sign (v : Int) : Bytes := if v < 0 then ascii "-" else []

def decimal (v : Int) : Bytes := sign v ++ numeral 10 decimalDigit v.natAbs

def hexadecimal (v : UInt64) : Bytes := ascii "0x" ++ numeral 16 upperHexDigit v.toNat

end LogStream

open LogStream

def Number.value : Number → Int
  | .short v => v.toInt
  | .unsignedShort v => v.toNat
  | .int v => v.toInt
  | .unsignedInt v => v.toNat
  | .long v => v.toInt
  | .unsignedLong v => v.toNat
  | .longLong v => v.toInt
  | .unsignedLongLong v => v.toNat
  | .pointer p => p.toNat

def Number.text : Number → Bytes
  | .pointer p => hexadecimal p
  | v => decimal v.value

def Number.Fits (avail : Nat) : Number → Prop
  | .pointer _ => kMaxNumericSize ≤ avail
  | _ => kMaxNumericSize < avail

def Item.text : Item → Bytes
  | .bool v => ascii (if v then "1" else "0")
  | .number v => v.text
  | .double v => v.text
  | .char v => [v]
  | .cString v => v.text
  | .string v => v
  | .piece v _ => v.data.take v.size.toNat
  | .fmt v => v.text

def Item.Fits (avail : Nat) : Item → Prop
  | .number v => v.Fits avail
  | .double _ => kMaxNumericSize < avail
  | x => x.text.length < avail

-- ---------------------------------------------------------------------------
-- Writes
-- ---------------------------------------------------------------------------

variable {SIZE : Nat} {m : Memory SIZE} {before behind bytes : Bytes} {c : Nat → UInt8}

theorem Memory.write_ok (hm : m.val = before ++ behind) (bytes : Bytes)
    (h : bytes.length ≤ behind.length) :
    ∃ m', m.write before.length bytes = .ok m' ∧
      m'.val = before ++ bytes ++ behind.drop bytes.length := by
  have hsize : before.length + behind.length = SIZE := by
    rw [← List.length_append, ← hm, m.property]
  have hsplice : splice m.val before.length bytes =
      before ++ bytes ++ behind.drop bytes.length := by
    rw [hm, splice, List.take_left, ← List.drop_drop, List.drop_left]
  exact ⟨_, dif_pos (by omega), hsplice⟩

namespace LogStream

theorem natAbs_tmod_lt (r : Radix) (i : Int) : i.natAbs % r.base < r.base :=
  Nat.mod_lt _ (Nat.lt_of_succ_lt r.base_gt)

theorem digit_tmod {r : Radix} {i : Int} (hdigit : ∀ d < r.base, r.digit d = some (c d))
    (hneg : i < 0 → ∀ d < r.base, r.digit (-d) = some (c d)) :
    r.digit (i.tmod r.base) = some (c (i.natAbs % r.base)) := by
  have habs : (i.tmod r.base).natAbs = i.natAbs % r.base := Int.natAbs_tmod i r.base
  have hlt := natAbs_tmod_lt r i
  rcases lt_or_ge i 0 with hi | hi
  · have hsign : 0 ≤ (-i).tmod r.base := Int.tmod_nonneg _ (by omega)
    rw [Int.neg_tmod] at hsign
    have hmod : i.tmod r.base = -((i.natAbs % r.base : Nat) : Int) := by omega
    rw [hmod, hneg hi _ hlt]
  · have hsign : 0 ≤ i.tmod r.base := Int.tmod_nonneg _ hi
    have hmod : i.tmod r.base = ((i.natAbs % r.base : Nat) : Int) := by omega
    rw [hmod, hdigit _ hlt]

/-- The loop leaves the digits, the lowest first, and touches nothing else. -/
theorem digitLoop_ok {r : Radix} {i : Int} (hdigit : ∀ d < r.base, r.digit d = some (c d))
    (hneg : i < 0 → ∀ d < r.base, r.digit (-d) = some (c d)) (hm : m.val = before ++ behind)
    (hroom : (lowDigits r.base i.natAbs).length ≤ behind.length) :
    ∃ m', digitLoop r m before.length i =
        .ok (m', before.length + (lowDigits r.base i.natAbs).length) ∧
      m'.val = before ++ (lowDigits r.base i.natAbs).map c ++
        behind.drop (lowDigits r.base i.natAbs).length := by
  induction hn : i.natAbs using Nat.strong_induction_on generalizing m before behind i with
  | _ n ih =>
    subst hn
    have hdiv : (i.tdiv r.base).natAbs = i.natAbs / r.base := Int.natAbs_tdiv i r.base
    have hcons := lowDigits_cons r.base_gt i.natAbs
    rw [hcons, List.length_cons] at hroom
    obtain ⟨m₁, hwrite, hm₁⟩ := Memory.write_ok hm [c (i.natAbs % r.base)]
      (by rw [List.length_singleton]; omega)
    rw [digitLoop, digit_tmod hdigit hneg, hcons]
    simp only [hwrite, ok_bind]
    by_cases hend : i.tdiv r.base = 0
    · have hzero : i.natAbs / r.base = 0 := by rw [← hdiv, hend]; rfl
      rw [dif_pos hend, if_pos hzero]
      exact ⟨m₁, rfl, hm₁⟩
    · have hmore : ¬i.natAbs / r.base = 0 := by rw [← hdiv]; omega
      rw [if_neg hmore, ← hdiv] at hroom
      have hsign : i.tdiv r.base < 0 → i < 0 := fun h => by
        by_contra hi
        exact absurd (Int.tdiv_nonneg (Int.not_lt.mp hi) (Int.natCast_nonneg r.base)) (by omega)
      obtain ⟨m₂, hloop, hm₂⟩ := ih _ (r.natAbs_tdiv_lt hend) (fun h => hneg (hsign h)) hm₁
        (by rw [List.length_drop, List.length_singleton]; omega) rfl
      rw [List.length_append, List.length_singleton] at hloop
      rw [dif_neg hend, hloop, if_neg hmore, hdiv]
      refine ⟨m₂, ?_, ?_⟩
      · -- one place for this digit, and those of the quotient behind it
        rw [List.length_cons, Nat.add_assoc, Nat.add_comm 1]
      · rw [hm₂, hdiv, List.drop_drop, List.length_singleton, List.length_cons, Nat.add_comm 1]
        simp

theorem writeSign_ok {v : Int} (hm : m.val = before ++ behind) (hroom : 0 < behind.length) :
    ∃ m', writeSign m before.length v = .ok (m', before.length + (sign v).length) ∧
      m'.val = before ++ sign v ++ behind.drop (sign v).length := by
  by_cases hv : v < 0
  · obtain ⟨m', hwrite, hm'⟩ := Memory.write_ok hm (ascii "-") hroom
    rw [sign, if_pos hv]
    refine ⟨m', ?_, hm'⟩
    rw [writeSign, if_pos hv, hwrite]
    rfl
  · rw [sign, if_neg hv]
    refine ⟨m, ?_, by simpa using hm⟩
    rw [writeSign, if_neg hv]
    rfl

theorem terminate_ok {low : Bytes} (hm : m.val = before ++ low ++ behind)
    (hroom : 0 < behind.length) :
    ∃ m', terminate m before.length (before.length + low.length) = .ok (m', low.length) ∧
      m'.val = before ++ low.reverse ++ 0 :: behind.drop 1 := by
  obtain ⟨m₁, hnul, hm₁⟩ := Memory.write_ok hm [0] hroom
  have hslice : slice m₁.val before.length (before.length + low.length) = low := by
    rw [hm₁, slice, List.append_assoc, List.append_assoc, List.drop_left, Nat.add_sub_cancel_left,
      List.take_left]
  have hparts : m₁.val = before ++ (low ++ 0 :: behind.drop 1) := by
    rw [hm₁]
    simp
  obtain ⟨m₂, hreverse, hm₂⟩ := Memory.write_ok hparts (low.reverse) (by simp)
  rw [List.length_append] at hnul
  refine ⟨m₂, ?_, ?_⟩
  · simp only [terminate, hnul, ok_bind, hslice, hreverse, Nat.add_sub_cancel_left]
    rfl
  · rw [hm₂, List.length_reverse, List.drop_left]

theorem convert_ok {v : Int} (hm : m.val = before ++ behind)
    (hroom : (decimal v).length < behind.length) :
    ∃ m', convert m before.length v = .ok (m', (decimal v).length) ∧
      m'.val = before ++ decimal v ++ 0 :: behind.drop ((decimal v).length + 1) := by
  have hdigit : ∀ d < Radix.decimal.base, Radix.decimal.digit d = some (decimalDigit d) := by
    decide
  have hneg : v < 0 → ∀ d < Radix.decimal.base,
      Radix.decimal.digit (-d) = some (decimalDigit d) := fun _ => by decide
  have hbase : Radix.decimal.base = 10 := rfl
  have hsign : (sign v).reverse = sign v := by
    unfold sign
    split <;> rfl
  generalize hlow : (lowDigits 10 v.natAbs).map decimalDigit ++ sign v = low
  have htext : low.reverse = decimal v := by
    rw [← hlow, List.reverse_append, hsign]
    rfl
  have hlength : (decimal v).length = (lowDigits 10 v.natAbs).length + (sign v).length := by
    rw [← htext, ← hlow, List.length_reverse, List.length_append, List.length_map]
  obtain ⟨m₁, hdigits, hm₁⟩ := digitLoop_ok hdigit hneg hm (by rw [hbase]; omega)
  rw [hbase] at hdigits hm₁
  obtain ⟨m₂, hwrite, hm₂⟩ := writeSign_ok (v := v) hm₁ (by rw [List.length_drop]; omega)
  rw [List.length_append, List.length_map, Nat.add_assoc, ← hlength] at hwrite
  rw [List.append_assoc before, hlow, List.drop_drop, ← hlength] at hm₂
  obtain ⟨m₃, hterminate, hm₃⟩ := terminate_ok hm₂ (by rw [List.length_drop]; omega)
  have hlength' : low.length = (decimal v).length := by rw [← htext, List.length_reverse]
  rw [hlength'] at hterminate
  rw [htext, List.drop_drop] at hm₃
  refine ⟨m₃, ?_, hm₃⟩
  simp only [convert, hdigits, ok_bind, hwrite, hterminate]

theorem convertHex_ok {v : UInt64} (hm : m.val = before ++ behind)
    (hroom : (numeral 16 upperHexDigit v.toNat).length < behind.length) :
    ∃ m', convertHex m before.length v = .ok (m', (numeral 16 upperHexDigit v.toNat).length) ∧
      m'.val = before ++ numeral 16 upperHexDigit v.toNat ++
        0 :: behind.drop ((numeral 16 upperHexDigit v.toNat).length + 1) := by
  have hdigit : ∀ d < Radix.hex.base, Radix.hex.digit d = some (upperHexDigit d) := by decide
  have hneg : (v.toNat : Int) < 0 → ∀ d < Radix.hex.base,
      Radix.hex.digit (-d) = some (upperHexDigit d) :=
    fun h => absurd (Int.natCast_nonneg v.toNat) (by omega)
  have hbase : Radix.hex.base = 16 := rfl
  have hlength : (numeral 16 upperHexDigit v.toNat).length = (lowDigits 16 v.toNat).length := by
    rw [numeral, List.length_reverse, List.length_map]
  rw [hlength] at hroom ⊢
  obtain ⟨m₁, hdigits, hm₁⟩ := digitLoop_ok hdigit hneg hm
    (by rw [hbase, Int.natAbs_natCast]; omega)
  rw [hbase, Int.natAbs_natCast] at hdigits hm₁
  obtain ⟨m₂, hterminate, hm₂⟩ := terminate_ok hm₁ (by rw [List.length_drop]; omega)
  rw [List.length_map] at hterminate
  rw [List.drop_drop] at hm₂
  refine ⟨m₂, ?_, hm₂⟩
  simp only [convertHex, hdigits, ok_bind, hterminate]

end LogStream

-- ---------------------------------------------------------------------------
-- Insertions
-- ---------------------------------------------------------------------------

namespace FixedBuffer

variable {b b' : FixedBuffer SIZE} {data : Memory SIZE} {rest : Bytes}

/-- `bytes` came in behind what was there, and `rest` is left behind them. -/
structure Appended (b b' : FixedBuffer SIZE) (bytes rest : Bytes) : Prop where
  data : b'.data.val = b.asString ++ bytes ++ rest
  cur : b'.cur = b.cur + bytes.length

theorem length_asString (b : FixedBuffer SIZE) : b.asString.length = b.cur := by
  rw [asString, length, List.length_take_of_le]
  rw [b.data.property]
  exact b.cur_le

theorem data_eq (b : FixedBuffer SIZE) :
    ∃ behind, b.data.val = b.asString ++ behind ∧ behind.length = b.avail := by
  refine ⟨b.data.val.drop b.cur, (List.take_append_drop _ _).symm, ?_⟩
  rw [List.length_drop, b.data.property, avail]

theorem Appended.asString (h : Appended b b' bytes rest) :
    b'.asString = b.asString ++ bytes := by
  rw [FixedBuffer.asString, length, h.data, h.cur, List.take_left']
  rw [List.length_append, length_asString]

theorem Appended.avail (h : Appended b b' bytes rest) : b'.avail = rest.length := by
  have hsize := b'.data.property
  rw [h.data, List.length_append, List.length_append, length_asString] at hsize
  rw [FixedBuffer.avail, h.cur]
  omega

theorem add_ok (hdata : data.val = b.asString ++ bytes ++ rest) :
    ∃ b', { b with data := data }.add bytes.length = .ok b' ∧ Appended b b' bytes rest := by
  have hsize := data.property
  rw [hdata, List.length_append, List.length_append, length_asString] at hsize
  have hle : b.cur + bytes.length ≤ SIZE := by omega
  exact ⟨_, dif_pos hle, hdata, rfl⟩

theorem append_fits (buf : Bytes) (len : Nat) (hlen : len ≤ buf.length) (hroom : len < b.avail) :
    ∃ b' rest, b.append buf len = .ok b' ∧ Appended b b' (buf.take len) rest ∧ rest ≠ [] := by
  obtain ⟨behind, hdata, havail⟩ := b.data_eq
  have htake : (buf.take len).length = len := List.length_take_of_le hlen
  obtain ⟨m, hwrite, hm⟩ := Memory.write_ok hdata (buf.take len) (by omega)
  obtain ⟨b', hadd, happended⟩ := add_ok hm
  rw [length_asString] at hwrite
  rw [htake] at hadd happended
  refine ⟨b', _, ?_, happended, ?_⟩
  · rw [append, if_pos hroom, ensure_bind hlen, hwrite, ok_bind, hadd]
  · rw [Ne, List.drop_eq_nil_iff]
    omega

theorem append_full (buf : Bytes) {len : Nat} (hroom : ¬len < b.avail) :
    b.append buf len = .ok b := if_neg hroom

end FixedBuffer

open FixedBuffer (Appended)

namespace LogStream

variable {s s' : LogStream}

theorem append_fits (data : Bytes) (len : Nat) (hlen : len ≤ data.length)
    (hroom : len < s.buffer.avail) :
    ∃ s' rest, s.append data len = .ok s' ∧
      Appended s.buffer s'.buffer (data.take len) rest ∧ rest ≠ [] := by
  obtain ⟨b', rest, hb', happended, hrest⟩ := FixedBuffer.append_fits data len hlen hroom
  refine ⟨⟨b'⟩, rest, ?_, happended, hrest⟩
  rw [append, hb']
  rfl

theorem append_full (data : Bytes) {len : Nat} (hroom : ¬len < s.buffer.avail) :
    s.append data len = .ok s := by
  rw [append, FixedBuffer.append_full data hroom]
  rfl

theorem length_decimal_le {v : Int} (h : v.natAbs < 10 ^ 20) : (decimal v).length ≤ 21 := by
  have hdigits : (numeral 10 decimalDigit v.natAbs).length ≤ 20 :=
    (length_numeral_le (by decide) (by decide)).mpr h
  have hsign : (sign v).length ≤ 1 := by
    unfold sign
    split <;> decide
  rw [decimal, List.length_append]
  omega

theorem length_hexadecimal_le (v : UInt64) : (hexadecimal v).length ≤ 18 := by
  have hdigits : (numeral 16 upperHexDigit v.toNat).length ≤ 16 :=
    (length_numeral_le (by decide) (by decide)).mpr v.toNat_lt
  have hprefix : (ascii "0x").length = 2 := by decide
  rw [hexadecimal, List.length_append]
  omega

theorem formatInteger_fits {v : Int} (hv : v.natAbs < 10 ^ 20)
    (hroom : kMaxNumericSize < s.buffer.avail) :
    ∃ s' rest, s.formatInteger v = .ok s' ∧
      Appended s.buffer s'.buffer (decimal v) (0 :: rest) := by
  have hlength := length_decimal_le hv
  have hsize : kMaxNumericSize = 32 := rfl
  obtain ⟨behind, hdata, havail⟩ := s.buffer.data_eq
  obtain ⟨m, hconvert, hm⟩ := convert_ok (v := v) hdata (by omega)
  obtain ⟨b', hadd, happended⟩ := FixedBuffer.add_ok hm
  rw [FixedBuffer.length_asString] at hconvert
  refine ⟨⟨b'⟩, _, ?_, happended⟩
  rw [formatInteger, if_pos hroom, FixedBuffer.current, hconvert]
  simp only [ok_bind, hadd]
  rfl

theorem formatPointer_fits {v : UInt64} (hroom : kMaxNumericSize ≤ s.buffer.avail) :
    ∃ s' rest, s.formatPointer v = .ok s' ∧
      Appended s.buffer s'.buffer (hexadecimal v) (0 :: rest) := by
  have hlength := length_hexadecimal_le v
  have hparts : (hexadecimal v).length = (numeral 16 upperHexDigit v.toNat).length + 2 := by
    rw [hexadecimal, List.length_append, Nat.add_comm]
    rfl
  have hsize : kMaxNumericSize = 32 := rfl
  obtain ⟨behind, hdata, havail⟩ := s.buffer.data_eq
  have h0 : (ascii "0").length = 1 := by decide
  have hx : (ascii "x").length = 1 := by decide
  obtain ⟨m₁, hwrite₁, hm₁⟩ := Memory.write_ok hdata (ascii "0") (by omega)
  obtain ⟨m₂, hwrite₂, hm₂⟩ := Memory.write_ok hm₁ (ascii "x")
    (by rw [List.length_drop]; omega)
  obtain ⟨m₃, hconvert, hm₃⟩ := convertHex_ok (v := v) hm₂
    (by rw [List.length_drop, List.length_drop]; omega)
  rw [List.append_assoc (FixedBuffer.asString _), List.append_assoc (FixedBuffer.asString _)] at hm₃
  obtain ⟨b', hadd, happended⟩ := FixedBuffer.add_ok hm₃
  rw [FixedBuffer.length_asString] at hwrite₁
  rw [List.length_append, FixedBuffer.length_asString, h0] at hwrite₂
  rw [List.length_append, List.length_append, FixedBuffer.length_asString, h0, hx] at hconvert
  refine ⟨⟨b'⟩, _, ?_, happended⟩
  have hlen : (ascii "0" ++ ascii "x" ++ numeral 16 upperHexDigit v.toNat).length =
      (numeral 16 upperHexDigit v.toNat).length + 2 := hparts
  rw [hlen] at hadd
  rw [formatPointer, if_pos hroom]
  simp only [FixedBuffer.current, hwrite₁, ok_bind, hwrite₂, hconvert, hadd]
  rfl

theorem formatDouble_fits {v : Printed} (hroom : kMaxNumericSize < s.buffer.avail) :
    ∃ s' rest, s.formatDouble v = .ok s' ∧
      Appended s.buffer s'.buffer v.text (0 :: rest) := by
  have hlength := v.length_lt
  obtain ⟨behind, hdata, havail⟩ := s.buffer.data_eq
  obtain ⟨m, hwrite, hm⟩ := Memory.write_ok hdata (v.text ++ [0])
    (by rw [List.length_append, List.length_singleton]; omega)
  rw [← List.append_assoc, List.append_assoc _ [0], List.singleton_append] at hm
  obtain ⟨b', hadd, happended⟩ := FixedBuffer.add_ok hm
  rw [FixedBuffer.length_asString] at hwrite
  refine ⟨⟨b'⟩, _, ?_, happended⟩
  rw [formatDouble, if_pos hroom, FixedBuffer.current, hwrite]
  simp only [ok_bind, hadd]
  rfl

theorem natAbs_value_lt (v : Number) : v.value.natAbs < 10 ^ 20 := by
  cases v with
  | short v | int v | long v | longLong v =>
    have hlow := v.le_toInt
    have hhigh := v.toInt_lt
    simp only [Number.value]
    omega
  | unsignedShort v | unsignedInt v | unsignedLong v | unsignedLongLong v | pointer v =>
    have hhigh := v.toNat_lt
    simp only [Number.value]
    omega

theorem insertNumber_fits {v : Number} (hroom : v.Fits s.buffer.avail) :
    ∃ s' rest, s.insertNumber v = .ok s' ∧ Appended s.buffer s'.buffer v.text (0 :: rest) := by
  have hv := natAbs_value_lt v
  cases v with
  | short v =>
    rw [insertNumber, Int16.toInt_toInt32]
    exact formatInteger_fits hv hroom
  | unsignedShort v =>
    rw [insertNumber, UInt16.toNat_toUInt32]
    exact formatInteger_fits hv hroom
  | pointer p => exact formatPointer_fits hroom
  | int v | unsignedInt v | long v | unsignedLong v | longLong v | unsignedLongLong v =>
    exact formatInteger_fits hv hroom

theorem insertNumber_full {v : Number} (hroom : ¬v.Fits s.buffer.avail) :
    s.insertNumber v = .ok s := by
  cases v <;> exact if_neg hroom

theorem size_toNat {v : StringPiece} (hv : v.Valid) : (v.size % 2 ^ 64).toNat = v.size.toNat := by
  have hint := hv.int
  rw [Int.emod_eq_of_lt hv.nonneg (by omega)]

theorem insert_fits {x : Item} (hroom : x.Fits s.buffer.avail) :
    ∃ s' rest, s.insert x = .ok s' ∧ Appended s.buffer s'.buffer x.text rest ∧ rest ≠ [] := by
  cases x with
  | bool v => cases v <;> exact append_fits _ 1 (by decide) hroom
  | number v =>
    obtain ⟨s', rest, hs', happended⟩ := insertNumber_fits hroom
    exact ⟨s', _, hs', happended, List.cons_ne_nil 0 rest⟩
  | double v =>
    obtain ⟨s', rest, hs', happended⟩ := formatDouble_fits hroom
    exact ⟨s', _, hs', happended, List.cons_ne_nil 0 rest⟩
  | char v => exact append_fits [v] 1 (by simp) hroom
  | cString v =>
    simp only [Item.Fits, Item.text, CString.length_text] at hroom
    exact append_fits v.memory v.strlen (Nat.le_of_lt v.strlen_lt) hroom
  | string v =>
    have happend := append_fits v v.length (Nat.le_refl _) hroom
    rwa [List.take_length] at happend
  | piece v hv =>
    have hsize : v.size.toNat ≤ v.data.length := Int.toNat_le.mpr hv.size
    simp only [Item.Fits, Item.text, List.length_take_of_le hsize] at hroom
    rw [insert, size_toNat hv]
    exact append_fits v.data _ hsize hroom
  | fmt v =>
    have happend := append_fits v.text v.text.length (Nat.le_refl _) hroom
    rwa [List.take_length] at happend

theorem insert_full {x : Item} (hroom : ¬x.Fits s.buffer.avail) : s.insert x = .ok s := by
  cases x with
  | bool v => cases v <;> exact append_full _ hroom
  | number v => exact insertNumber_full hroom
  | double v => exact if_neg hroom
  | char v => exact append_full [v] hroom
  | cString v =>
    simp only [Item.Fits, Item.text, CString.length_text] at hroom
    exact append_full v.memory hroom
  | string v => exact append_full v hroom
  | piece v hv =>
    simp only [Item.Fits, Item.text, List.length_take_of_le (Int.toNat_le.mpr hv.size)] at hroom
    rw [insert, size_toNat hv]
    exact append_full v.data hroom
  | fmt v => exact append_full v.text hroom

theorem insert_whole (hroom : 0 < s.buffer.avail) (x : Item) :
    ∃ s', s.insert x = .ok s' ∧ 0 < s'.buffer.avail ∧
      (s'.buffer.asString = s.buffer.asString ++ x.text ∨ s' = s) := by
  by_cases hx : x.Fits s.buffer.avail
  · obtain ⟨s', rest, hs', happended, hrest⟩ := insert_fits hx
    refine ⟨s', hs', ?_, .inl happended.asString⟩
    rw [happended.avail]
    exact List.length_pos_of_ne_nil hrest
  · exact ⟨s, insert_full hx, hroom, .inr rfl⟩

theorem insertAll_whole (hroom : 0 < s.buffer.avail) (items : List Item) :
    ∃ (s' : LogStream) (kept : List Item), s.insertAll items = .ok s' ∧
      0 < s'.buffer.avail ∧ kept.Sublist items ∧
      s'.buffer.asString = s.buffer.asString ++ (kept.map Item.text).flatten := by
  induction items generalizing s with
  | nil => exact ⟨s, [], rfl, hroom, List.Sublist.slnil, by simp⟩
  | cons x items ih =>
    obtain ⟨s₁, hinsert, hroom₁, hs₁⟩ := insert_whole hroom x
    obtain ⟨s₂, kept, hall, hroom₂, hkept, htext⟩ := ih hroom₁
    have hrun : s.insertAll (x :: items) = .ok s₂ := by
      rw [insertAll, List.foldlM_cons, hinsert, ok_bind, ← insertAll, hall]
    obtain hs₁ | rfl := hs₁
    · refine ⟨s₂, x :: kept, hrun, hroom₂, hkept.cons_cons x, ?_⟩
      rw [htext, hs₁, List.map_cons, List.flatten_cons, List.append_assoc]
    · exact ⟨s₂, kept, hrun, hroom₂, hkept.cons x, htext⟩

/-- Whatever is inserted: what is in the array is some of the items in order and in
full, it leaves a byte free, and no byte outside the array is written. -/
theorem all_or_nothing (data : Memory kSmallBuffer) (items : List Item) :
    ∃ (s : LogStream) (kept : List Item), (make data).insertAll items = .ok s ∧
      kept.Sublist items ∧ s.buffer.asString = (kept.map Item.text).flatten ∧
      s.buffer.length ≤ 3999 := by
  have hroom : 0 < (make data).buffer.avail := (by decide : 0 < kSmallBuffer)
  obtain ⟨s, kept, hall, hroom', hkept, htext⟩ := insertAll_whole hroom items
  have havail : s.buffer.avail = 4000 - s.buffer.length := rfl
  exact ⟨s, kept, hall, hkept, htext, by omega⟩

end LogStream

end Muduo
