import Muduo.Base.LogStream

/-!
# Numbers in the log

The text of a number is its canonical numeral, and `parse` reads the number back
from it, whatever its type.
-/

namespace Muduo

open Lib
open LogStream

namespace Number

def readDecimalDigit (x : UInt8) : Option Nat := (ascii "0123456789").idxOf? x

def readHexDigit (x : UInt8) : Option Nat := digitsHex.idxOf? x

/-- What a text stands for: a hexadecimal numeral behind `0x`, else a decimal one. -/
def parse : Bytes → Option Int
  | 48 :: 120 :: text => (readNumeral 16 readHexDigit text).map Int.ofNat
  | 45 :: text => (readNumeral 10 readDecimalDigit text).map Int.negOfNat
  | text => (readNumeral 10 readDecimalDigit text).map Int.ofNat

/-- The form of a numeral, without zeros at its head. -/
def Canonical : Number → Bytes → Prop
  | .pointer _, text => ∃ ds, text = ascii "0x" ++ ds ∧ IsNumeral 16 upperHexDigit ds
  | v, text => ∃ ds, text = sign v.value ++ ds ∧ IsNumeral 10 decimalDigit ds

theorem readDecimalDigit_digit : ∀ d < 10, readDecimalDigit (decimalDigit d) = some d := by decide

theorem readHexDigit_digit : ∀ d < 16, readHexDigit (upperHexDigit d) = some d := by decide

theorem isNumeral_decimal (n : Nat) : IsNumeral 10 decimalDigit (numeral 10 decimalDigit n) :=
  isNumeral_numeral (by decide) readDecimalDigit_digit n

theorem isNumeral_hexadecimal (n : Nat) :
    IsNumeral 16 upperHexDigit (numeral 16 upperHexDigit n) :=
  isNumeral_numeral (by decide) readHexDigit_digit n

theorem decimalDigit_ne : ∀ d < 10, decimalDigit d ≠ 45 ∧ decimalDigit d ≠ 120 := by decide

/-- A decimal numeral looks like no other one. -/
theorem parse_digits {ds : Bytes} (h : IsNumeral 10 decimalDigit ds) :
    parse ds = (readNumeral 10 readDecimalDigit ds).map Int.ofNat := by
  unfold parse
  split
  · obtain ⟨d, hd, hx⟩ := h.digits 120 (by simp)
    exact absurd hx.symm (decimalDigit_ne d hd).2
  · obtain ⟨d, hd, hx⟩ := h.digits 45 (by simp)
    exact absurd hx.symm (decimalDigit_ne d hd).1
  · rfl

theorem parse_decimal (v : Int) : parse (decimal v) = some v := by
  have hread := readNumeral_numeral (by decide) readDecimalDigit_digit v.natAbs
  by_cases hv : v < 0
  · have htext : decimal v = 45 :: numeral 10 decimalDigit v.natAbs := by
      rw [decimal, sign, if_pos hv]
      rfl
    have hparse : parse (decimal v) = (some v.natAbs).map Int.negOfNat := by
      rw [htext, ← hread]
      rfl
    rw [hparse, Option.map_some, Int.negOfNat_eq]
    simp only [Int.ofNat_eq_natCast, Option.some.injEq]
    omega
  · have htext : decimal v = numeral 10 decimalDigit v.natAbs := by
      rw [decimal, sign, if_neg hv]
      rfl
    rw [htext, parse_digits (isNumeral_decimal _), hread, Option.map_some]
    simp only [Int.ofNat_eq_natCast, Option.some.injEq]
    omega

theorem parse_hexadecimal (v : UInt64) : parse (hexadecimal v) = some (v.toNat : Int) := by
  have hread := readNumeral_numeral (by decide) readHexDigit_digit v.toNat
  have hparse : parse (hexadecimal v) = (some v.toNat).map Int.ofNat := by
    rw [← hread]
    rfl
  rw [hparse]
  rfl

theorem parse_text (v : Number) : parse v.text = some v.value := by
  cases v with
  | pointer p => exact parse_hexadecimal p
  | short v | int v | long v | longLong v | unsignedShort v | unsignedInt v | unsignedLong v
  | unsignedLongLong v => exact parse_decimal _

theorem canonical_text (v : Number) : v.Canonical v.text := by
  cases v with
  | pointer p => exact ⟨_, rfl, isNumeral_hexadecimal _⟩
  | short v | int v | long v | longLong v | unsignedShort v | unsignedInt v | unsignedLong v
  | unsignedLongLong v => exact ⟨_, rfl, isNumeral_decimal _⟩

theorem length_text_le (v : Number) : v.text.length ≤ 21 := by
  have hv := natAbs_value_lt v
  cases v with
  | pointer p => exact Nat.le_trans (length_hexadecimal_le p) (by decide)
  | short v | int v | long v | longLong v | unsignedShort v | unsignedInt v | unsignedLong v
  | unsignedLongLong v => exact length_decimal_le hv

end Number

namespace LogStream

/-- With room for it a number comes in as its canonical numeral, which takes up to 22
bytes with the NUL behind it, and what another value comes in as is another text. -/
theorem numbers_exact (s : LogStream) {v : Number} (hroom : v.Fits s.buffer.avail) :
    ∃ s' text, s.insert (.number v) = .ok s' ∧
      s'.buffer.asString = s.buffer.asString ++ text ∧ v.Canonical text ∧
      Number.parse text = some v.value ∧
      s'.buffer.data.val[s'.buffer.cur]? = some 0 ∧ text.length + 1 ≤ 22 ∧
      ∀ (t t' : LogStream) (w : Number), w.Fits t.buffer.avail →
        t.insert (.number w) = .ok t' → t'.buffer.asString = t.buffer.asString ++ text →
        w.value = v.value := by
  obtain ⟨s', rest, hs', happended⟩ := insertNumber_fits hroom
  refine ⟨s', v.text, hs', happended.asString, v.canonical_text, v.parse_text, ?_,
    Nat.succ_le_succ v.length_text_le, ?_⟩
  · rw [happended.data, happended.cur, List.getElem?_append_right]
    · simp [FixedBuffer.length_asString]
    · simp [FixedBuffer.length_asString]
  · intro t t' w hw ht' htext
    obtain ⟨t'', rest', ht'', happended'⟩ := insertNumber_fits hw
    have hsame : t'' = t' := by
      rw [insert, ht''] at ht'
      exact Except.ok.inj ht'
    subst hsame
    rw [happended'.asString] at htext
    have hwv : w.text = v.text := List.append_cancel_left htext
    have hvalue := w.parse_text
    rw [hwv, v.parse_text] at hvalue
    exact (Option.some.inj hvalue).symm

/-- The smallest value of 64 bits. -/
theorem numbers_exact_min : ∃ s' text,
    (make ⟨List.replicate kSmallBuffer 7, List.length_replicate⟩).insert
      (.number (.long Int64.minValue)) = .ok s' ∧
    Number.parse text = some (-9223372036854775808) ∧ text.length + 1 ≤ 22 := by
  obtain ⟨s', text, hs', -, -, hparse, -, hlength, -⟩ :=
    numbers_exact (make ⟨List.replicate kSmallBuffer 7, List.length_replicate⟩)
      (v := .long Int64.minValue) (by decide : kMaxNumericSize < kSmallBuffer)
  exact ⟨s', text, hs', hparse, hlength⟩

end LogStream

end Muduo
