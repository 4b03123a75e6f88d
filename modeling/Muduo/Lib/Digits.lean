import Mathlib.Algebra.Order.Group.Nat
import Mathlib.Data.Nat.Notation

/-!
# Decimal digits that are cut off

The first digits of a numeral are the numeral of a smaller number: `leading`
says of which one, so that two cut numerals are compared as numbers.
-/

namespace Lib

open Nat (toDigits)

/-- The number that the first `r` decimal digits of `n` stand for. -/
def leading (r n : Nat) : Nat := n / 10 ^ ((toDigits 10 n).length - r)

theorem toDigits_inj (h : toDigits 10 m = toDigits 10 n) : m = n := by
  have hvalue := congrArg (fun ds => Nat.ofDigitChars 10 ds 0) h
  simpa only [Nat.ofDigitChars_ten_toDigits] using hvalue

theorem length_toDigits_le (hr : 0 < r) : (toDigits 10 n).length ≤ r ↔ n < 10 ^ r :=
  Nat.length_toDigits_le_iff (by decide) hr

theorem leading_of_lt (hr : 0 < r) (h : n < 10 ^ r) : leading r n = n := by
  have hlength := (length_toDigits_le hr).mpr h
  rw [leading, Nat.sub_eq_zero_of_le hlength, Nat.pow_zero, Nat.div_one]

/-- A digit past the first `r` does not count. -/
theorem leading_div (hr : 0 < r) (h : 10 ^ r ≤ n) : leading r n = leading r (n / 10) := by
  have hten : 10 ≤ n := Nat.le_trans (Nat.le_self_pow hr.ne' 10) h
  have hlong : ¬(toDigits 10 n).length ≤ r := mt (length_toDigits_le hr).mp (Nat.not_lt.mpr h)
  have hlength : (toDigits 10 n).length = (toDigits 10 (n / 10)).length + 1 := by
    rw [Nat.toDigits_of_base_le (by decide) hten, List.length_append, List.length_singleton]
  have hsub : (toDigits 10 n).length - r = (toDigits 10 (n / 10)).length - r + 1 := by omega
  rw [leading, leading, hsub, Nat.pow_succ', ← Nat.div_div_eq_div_mul]

theorem take_toDigits (hr : 0 < r) (n : Nat) :
    (toDigits 10 n).take r = toDigits 10 (leading r n) := by
  induction n using Nat.strong_induction_on with
  | _ n ih =>
    by_cases h : n < 10 ^ r
    · rw [leading_of_lt hr h, List.take_of_length_le ((length_toDigits_le hr).mpr h)]
    · have hle := Nat.not_lt.mp h
      have hten : 10 ≤ n := Nat.le_trans (Nat.le_self_pow hr.ne' 10) hle
      have hrest : r ≤ (toDigits 10 (n / 10)).length := by
        have hlong : ¬(toDigits 10 n).length ≤ r := mt (length_toDigits_le hr).mp h
        rw [Nat.toDigits_of_base_le (by decide) hten, List.length_append,
          List.length_singleton] at hlong
        exact Nat.le_of_lt_succ (Nat.not_le.mp hlong)
      have hsmaller : n / 10 < n := Nat.div_lt_self (Nat.lt_of_lt_of_le (by decide) hten) (by decide)
      rw [Nat.toDigits_of_base_le (by decide) hten, List.take_append_of_le_length hrest,
        ih _ hsmaller, leading_div hr hle]

theorem take_toDigits_inj (hr : 0 < r) :
    (toDigits 10 m).take r = (toDigits 10 n).take r ↔ leading r m = leading r n := by
  rw [take_toDigits hr, take_toDigits hr]
  exact ⟨toDigits_inj, congrArg _⟩

end Lib
