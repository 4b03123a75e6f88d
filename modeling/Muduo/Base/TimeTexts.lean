import Muduo.Base.LogNumbers
import Muduo.Base.LogPrefix
import Muduo.Base.Timestamp
import Muduo.Lib.Columns

/-!
# Times as texts

`toString` tells any two times apart. What `toFormattedString` and the first columns of
a log line give for times stands in the order of the times.
-/

namespace Muduo.Timestamp

open Lib LogStream
open Logging (padded dateText usText)

-- ---------------------------------------------------------------------------
-- The code
-- ---------------------------------------------------------------------------

/-- `%0` with a width: the sign is in it, before the zeros. -/
def zeroPadded (width : Nat) (v : Int) : Bytes :=
  sign v ++ (numeral 10 decimalDigit v.natAbs).leftpad (width - (sign v).length) 48

/-- `"%" PRId64 ".%06" PRId64` -/
def toString (t : Timestamp) : Bytes :=
  decimal (t.tdiv kMicroSecondsPerSecond) ++ ascii "." ++
    zeroPadded 6 (t.tmod kMicroSecondsPerSecond)

/-- `"%04d%02d%2d:%02d:%02d:%02d.%06d"`, of a time that is not before the epoch. -/
def toFormattedString (t : Nat) : Bytes :=
  let tm_time := gmtime (t / 1000000)
  padded 48 4 tm_time.year ++ padded 48 2 (tm_time.mon + 1) ++ padded 32 2 (tm_time.mday + 1) ++
    ascii ":" ++ padded 48 2 tm_time.hour ++ ascii ":" ++ padded 48 2 tm_time.min ++ ascii ":" ++
    padded 48 2 tm_time.sec ++ ascii "." ++ padded 48 6 (t % 1000000)

def lineTime (t : Nat) : Bytes := dateText (gmtime (t / 1000000)) ++ usText (t % 1000000)

-- ---------------------------------------------------------------------------
-- Reading a time
-- ---------------------------------------------------------------------------

def readSigned : Bytes → Option Int
  | 45 :: text => (readDigits 10 Number.readDecimalDigit text).map Int.negOfNat
  | text => (readDigits 10 Number.readDecimalDigit text).map Int.ofNat

/-- The numbers before and after the point. -/
def readTimestamp (text : Bytes) : Option Timestamp := do
  let seconds ← readSigned (text.takeWhile (· ≠ 46))
  let microseconds ← readSigned ((text.dropWhile (· ≠ 46)).drop 1)
  return seconds * kMicroSecondsPerSecond + microseconds

theorem readDigits_numeral (n : Nat) :
    readDigits 10 Number.readDecimalDigit (numeral 10 decimalDigit n) = some n := by
  rw [numeral, readDigits_reverse Number.readDecimalDigit_digit (lowDigits_lt (by decide)),
    ofDigits_lowDigits]

theorem readDigits_zeros (k : Nat) :
    readDigits 10 Number.readDecimalDigit (List.replicate k 48) = some 0 := by
  induction k with
  | zero => rfl
  | succ k ih =>
    rw [readDigits] at ih
    rw [List.replicate_succ', readDigits, List.foldlM_append, ih]
    rfl

theorem readDigits_leftpad (w n : Nat) :
    readDigits 10 Number.readDecimalDigit ((numeral 10 decimalDigit n).leftpad w 48) =
      some n := by
  have hzeros := readDigits_zeros (w - (numeral 10 decimalDigit n).length)
  rw [readDigits] at hzeros
  rw [List.leftpad, readDigits, List.foldlM_append, hzeros]
  exact readDigits_numeral n

theorem decimalDigit_punctuation : ∀ d < 10, decimalDigit d ≠ 45 ∧ decimalDigit d ≠ 46 := by
  decide

theorem mem_numeral (h : x ∈ numeral 10 decimalDigit n) : x ≠ 45 ∧ x ≠ 46 := by
  obtain ⟨d, hd, rfl⟩ := (Number.isNumeral_decimal n).digits x h
  exact decimalDigit_punctuation d hd

theorem mem_leftpad (h : x ∈ (numeral 10 decimalDigit n).leftpad w 48) : x ≠ 45 ∧ x ≠ 46 := by
  rcases List.mem_append.mp h with h | h
  · rw [List.eq_of_mem_replicate h]
    decide
  · exact mem_numeral h

theorem readSigned_sign (hread : readDigits 10 Number.readDecimalDigit ds = some v.natAbs)
    (hds : ∀ x ∈ ds, x ≠ 45) : readSigned (sign v ++ ds) = some v := by
  by_cases hv : v < 0
  · have htext : sign v ++ ds = 45 :: ds := by
      rw [sign, if_pos hv]
      rfl
    rw [htext, readSigned, hread, Option.map_some, Int.negOfNat_eq]
    simp only [Int.ofNat_eq_natCast, Option.some.injEq]
    omega
  · rw [sign, if_neg hv, List.nil_append]
    unfold readSigned
    split
    · exact absurd rfl (hds 45 (by simp))
    · rw [hread, Option.map_some]
      simp only [Int.ofNat_eq_natCast, Option.some.injEq]
      omega

theorem readSigned_decimal (v : Int) : readSigned (decimal v) = some v :=
  readSigned_sign (readDigits_numeral _) fun _ hx => (mem_numeral hx).1

theorem readSigned_zeroPadded (w : Nat) (v : Int) : readSigned (zeroPadded w v) = some v :=
  readSigned_sign (readDigits_leftpad _ _) fun _ hx => (mem_leftpad hx).1

theorem readTimestamp_toString (t : Timestamp) : readTimestamp (toString t) = some t := by
  have hpoint : ∀ x ∈ decimal (t.tdiv kMicroSecondsPerSecond), decide (x ≠ 46) = true := by
    intro x hx
    rcases List.mem_append.mp hx with hx | hx
    · unfold sign at hx
      split at hx
      · rw [List.mem_singleton.mp hx]
        decide
      · cases hx
    · simpa using (mem_numeral hx).2
  have htext : toString t = decimal (t.tdiv kMicroSecondsPerSecond) ++
      46 :: zeroPadded 6 (t.tmod kMicroSecondsPerSecond) := by
    rw [toString, List.append_assoc]
    rfl
  have hparts : t.tdiv kMicroSecondsPerSecond * kMicroSecondsPerSecond +
      t.tmod kMicroSecondsPerSecond = t := Int.tdiv_mul_add_tmod ..
  rw [readTimestamp, htext, List.takeWhile_append_of_pos hpoint,
    List.dropWhile_append_of_pos hpoint]
  simp [readSigned_decimal, readSigned_zeroPadded, hparts]

-- ---------------------------------------------------------------------------
-- Earlier and later
-- ---------------------------------------------------------------------------

theorem decimalDigit_lt : ∀ j < 10, ∀ i < j, decimalDigit i < decimalDigit j := by
  decide

def zeros (w : Nat) : Column UInt8 := .ofDigits 10 decimalDigit decimalDigit_lt (Nat.succ_pos 9) w

theorem padded_eq (h : n < 10 ^ (w + 1)) :
    padded 48 (w + 1) n = (zeros (w + 1)).text n := by
  rw [padded, Logging.decimal_natCast]
  exact leftpad_numeral (by decide) h

theorem padded_full (fill : UInt8) (hw : 0 < w) (hlow : 10 ^ w ≤ n) (h : n < 10 ^ (w + 1)) :
    padded fill (w + 1) n = (zeros (w + 1)).text n := by
  have hlong : ¬(numeral 10 decimalDigit n).length ≤ w :=
    mt (length_numeral_le (by decide) hw).mp (Nat.not_lt.mpr hlow)
  have hnone : w + 1 - (numeral 10 decimalDigit n).length = 0 := by omega
  rw [← padded_eq h, padded, padded, Logging.decimal_natCast, List.leftpad, List.leftpad, hnone]
  rfl

def day : Column UInt8 where
  text n := padded 32 2 (n + 1)
  bound := 31
  length hm hn :=
    ((Logging.length_padded 32 (by decide)).mpr (by omega)).trans
      ((Logging.length_padded 32 (by decide)).mpr (by omega)).symm
  lt := by
    intro m n h hn
    have hall : ∀ n < 31, ∀ m < n, padded 32 2 (m + 1) < padded 32 2 (n + 1) := by
      decide +kernel
    exact hall n hn m h

def formattedColumns : List (Column UInt8) :=
  [zeros 4, (zeros 2).succ, day, .after (ascii ":") (zeros 2), .after (ascii ":") (zeros 2),
    .after (ascii ":") (zeros 2), .after (ascii ".") (zeros 6)]

def lineColumns : List (Column UInt8) :=
  [zeros 4, (zeros 2).succ, (zeros 2).succ, .after (ascii " ") (zeros 2),
    .after (ascii ":") (zeros 2), .after (ascii ":") (zeros 2), .after (ascii ".") (zeros 6)]

/-- The first time with a year of five digits. -/
def horizon : Nat := 253402300800 * 1000000

def moment (t : Nat) : List Nat := (gmtime (t / 1000000)).toList ++ [t % 1000000]

theorem moment_lt (h : s < t) : moment s < moment t := by
  rcases Nat.lt_or_eq_of_le (Nat.div_le_div_right (c := 1000000) (Nat.le_of_lt h)) with hlt | heq
  · have hlen : (gmtime (s / 1000000)).toList.length = (gmtime (t / 1000000)).toList.length := rfl
    exact append_lt_append hlen (gmtime_lt hlt) _ _
  · rw [moment, moment, heq]
    exact List.append_left_lt (List.cons_lt_cons_iff.mpr (.inl (by omega)))

theorem div_horizon (h : t < horizon) : t / 1000000 < 253402300800 :=
  Nat.div_lt_of_lt_mul (by rwa [Nat.mul_comm])

theorem fits_formatted (h : t < horizon) : Column.Fits formattedColumns (moment t) := by
  obtain ⟨hmon, hmday, hhour, hmin, hsec⟩ := gmtime_ranges (t / 1000000)
  have hyear := gmtime_year_le (div_horizon h)
  refine ⟨Nat.lt_succ_of_le hyear, ?_, hmday, ?_, ?_, ?_, Nat.mod_lt t (by decide), trivial⟩
  · exact Nat.lt_trans hmon (by decide)
  · exact Nat.lt_trans hhour (by decide)
  · exact Nat.lt_trans hmin (by decide)
  · exact Nat.lt_trans hsec (by decide)

theorem fits_line (h : t < horizon) : Column.Fits lineColumns (moment t) := by
  obtain ⟨hyear, hmon, hmday, hrest⟩ := fits_formatted h
  exact ⟨hyear, hmon, Nat.lt_trans hmday (by decide), hrest⟩

theorem toFormattedString_eq (h : t < horizon) :
    toFormattedString t = Column.write formattedColumns (moment t) := by
  obtain ⟨hmon, hmday, hhour, hmin, hsec⟩ := gmtime_ranges (t / 1000000)
  have hyear := gmtime_year_le (div_horizon h)
  have hmicro : t % 1000000 < 1000000 := Nat.mod_lt t (by decide)
  simp only [toFormattedString]
  rw [padded_eq (w := 3) (Nat.lt_succ_of_le hyear), padded_eq (w := 1) (by omega),
    padded_eq (w := 1) (n := (gmtime _).hour) (by omega),
    padded_eq (w := 1) (n := (gmtime _).min) (by omega),
    padded_eq (w := 1) (n := (gmtime _).sec) (by omega), padded_eq (w := 5) hmicro]
  simp [formattedColumns, moment, Tm.toList, Column.write, Column.after, Column.succ, day]

theorem lineTime_eq (h : t < horizon) :
    lineTime t = Column.write lineColumns (moment t) ++ ascii "Z " := by
  obtain ⟨hmon, hmday, hhour, hmin, hsec⟩ := gmtime_ranges (t / 1000000)
  have hyear := gmtime_year_le (div_horizon h)
  have hlow : 1970 ≤ (gmtime (t / 1000000)).year := le_locate daysInYear _ 1970 _
  have hmicro : t % 1000000 < 1000000 := Nat.mod_lt t (by decide)
  simp only [lineTime, dateText, usText]
  rw [padded_full (w := 3) 32 (by decide) (by omega) (Nat.lt_succ_of_le hyear),
    padded_eq (w := 1) (n := (gmtime _).mon + 1) (by omega),
    padded_eq (w := 1) (n := (gmtime _).mday + 1) (by omega),
    padded_eq (w := 1) (n := (gmtime _).hour) (by omega),
    padded_eq (w := 1) (n := (gmtime _).min) (by omega),
    padded_eq (w := 1) (n := (gmtime _).sec) (by omega), padded_eq (w := 5) hmicro]
  simp [lineColumns, moment, Tm.toList, Column.write, Column.after, Column.succ]

theorem toFormattedString_lt (h : s < t) (ht : t < horizon) :
    toFormattedString s < toFormattedString t := by
  have hs := Nat.lt_trans h ht
  rw [toFormattedString_eq hs, toFormattedString_eq ht]
  exact Column.write_lt (fits_formatted hs) (fits_formatted ht) (moment_lt h)

theorem lineTime_lt (h : s < t) (ht : t < horizon) : lineTime s < lineTime t := by
  have hs := Nat.lt_trans h ht
  have hlen := Column.length_write (fits_line hs) (fits_line ht)
  rw [lineTime_eq hs, lineTime_eq ht]
  exact append_lt_append hlen (Column.write_lt (fits_line hs) (fits_line ht) (moment_lt h)) _ _

/-- A text for each time that grows with it stands in its order. -/
theorem text_lt_iff {text : Nat → Bytes} (htext : ∀ {s t}, s < t → t < horizon → text s < text t)
    (hs : s < horizon) (ht : t < horizon) : text s < text t ↔ s < t := by
  refine ⟨fun hlt => ?_, fun h => htext h ht⟩
  rcases Nat.lt_trichotomy s t with h | rfl | h
  · exact h
  · exact absurd hlt (List.lt_irrefl _)
  · exact absurd hlt (List.lt_asymm (htext h hs))

/-- Every time is read back from `toString`; and until the year 10000 the texts of
`toFormattedString` stand in the order of the times, and so do log lines. -/
theorem texts_exact :
    (∀ t : Timestamp, readTimestamp (toString t) = some t) ∧
    (∀ s < horizon, ∀ t < horizon, toFormattedString s < toFormattedString t ↔ s < t) ∧
    ∀ s < horizon, ∀ t < horizon, lineTime s < lineTime t ↔ s < t :=
  ⟨readTimestamp_toString, fun _ hs _ ht => text_lt_iff toFormattedString_lt hs ht,
    fun _ hs _ ht => text_lt_iff lineTime_lt hs ht⟩

/-- The last microsecond of a February and the one after it. -/
theorem texts_exact_midnight :
    toFormattedString 1709251199999999 = ascii "20240229:23:59:59.999999" ∧
    toFormattedString 1709251200000000 = ascii "202403 1:00:00:00.000000" ∧
    toFormattedString 1709251199999999 < toFormattedString 1709251200000000 :=
  ⟨by decide +kernel, by decide +kernel,
    (texts_exact.2.1 _ (by decide) _ (by decide)).mpr (by decide)⟩

end Muduo.Timestamp
