import Mathlib.Tactic.Common

/-!
# The civil calendar

`locate` counts units off in pieces of given lengths: days in years, days in
months. `gmtime` breaks the seconds since the epoch down with it, and no two
times are broken down alike.
-/

namespace Lib

-- ---------------------------------------------------------------------------
-- Pieces of varying length
-- ---------------------------------------------------------------------------

/-- In which of the pieces from the `i`-th on unit `n` is, and where in it. At
most `fuel` pieces are passed. -/
def locate (len : Nat → Nat) : Nat → Nat → Nat → Nat × Nat
  | 0, i, n => (i, n)
  | fuel + 1, i, n => if n < len i then (i, n) else locate len fuel (i + 1) (n - len i)

def offset (len : Nat → Nat) : Nat → Nat
  | 0 => 0
  | i + 1 => offset len i + len i

variable {len : Nat → Nat}

theorem locate_offset (len : Nat → Nat) (fuel i n : Nat) :
    (locate len fuel i n).2 + offset len (locate len fuel i n).1 = n + offset len i := by
  induction fuel generalizing i n with
  | zero => rfl
  | succ fuel ih =>
    unfold locate
    split
    · rfl
    · have hrest := ih (i + 1) (n - len i)
      have hpiece : offset len (i + 1) = offset len i + len i := rfl
      omega

theorem locate_inj (h : locate len fuel i m = locate len fuel' i n) : m = n := by
  have hm := locate_offset len fuel i m
  have hn := locate_offset len fuel' i n
  rw [h] at hm
  omega

theorem locate_le (len : Nat → Nat) (fuel i n : Nat) : (locate len fuel i n).1 ≤ i + fuel := by
  induction fuel generalizing i n with
  | zero => exact Nat.le_refl i
  | succ fuel ih =>
    unfold locate
    split
    · exact Nat.le_add_right i _
    · have hrest := ih (i + 1) (n - len i)
      omega

theorem le_locate (len : Nat → Nat) (fuel i n : Nat) : i ≤ (locate len fuel i n).1 := by
  induction fuel generalizing i n with
  | zero => exact Nat.le_refl i
  | succ fuel ih =>
    unfold locate
    split
    · exact Nat.le_refl i
    · exact Nat.le_trans (Nat.le_succ i) (ih (i + 1) (n - len i))

/-- With enough fuel the unit is in its piece. -/
theorem locate_lt (hlen : ∀ i, 0 < len i) (h : n ≤ fuel) :
    (locate len fuel i n).2 < len (locate len fuel i n).1 := by
  induction fuel generalizing i n with
  | zero =>
    rw [Nat.le_zero.mp h]
    exact hlen i
  | succ fuel ih =>
    unfold locate
    split
    · assumption
    · have hpos := hlen i
      exact ih (by omega)

theorem locate_last (len : Nat → Nat) (fuel i n : Nat) :
    (locate len fuel i n).2 < len (locate len fuel i n).1 ∨ (locate len fuel i n).1 = i + fuel := by
  induction fuel generalizing i n with
  | zero => exact .inr rfl
  | succ fuel ih =>
    unfold locate
    split
    · exact .inl ‹_›
    · rw [show i + (fuel + 1) = i + 1 + fuel by omega]
      exact ih (i + 1) (n - len i)

-- ---------------------------------------------------------------------------
-- Dates
-- ---------------------------------------------------------------------------

def isLeap (year : Nat) : Prop := year % 4 = 0 ∧ year % 100 ≠ 0 ∨ year % 400 = 0

instance (year : Nat) : Decidable (isLeap year) := inferInstanceAs (Decidable (_ ∧ _ ∨ _))

def daysInYear (year : Nat) : Nat := if isLeap year then 366 else 365

def daysInMonth (year month : Nat) : Nat :=
  match month with
  | 1 => if isLeap year then 29 else 28
  | 3 | 5 | 8 | 10 => 30
  | _ => 31

/-- A time broken down: months, days of the month and the rest count from zero. -/
structure Tm where
  year : Nat
  mon : Nat
  mday : Nat
  hour : Nat
  min : Nat
  sec : Nat
  deriving DecidableEq

def gmtime (time : Nat) : Tm :=
  let days := time / 86400
  let (year, yday) := locate daysInYear days 1970 days
  let (mon, mday) := locate (daysInMonth year) 11 0 yday
  let rest := time % 86400
  ⟨year, mon, mday, rest / 3600, rest % 3600 / 60, rest % 60⟩

theorem gmtime_inj (h : gmtime s = gmtime t) : s = t := by
  simp only [gmtime, Tm.mk.injEq] at h
  obtain ⟨hyear, hmon, hmday, hhour, hmin, hsec⟩ := h
  have hyday : (locate daysInYear (s / 86400) 1970 (s / 86400)).2 =
      (locate daysInYear (t / 86400) 1970 (t / 86400)).2 := by
    rw [hyear] at hmon hmday
    exact locate_inj (Prod.ext hmon hmday)
  have hdays : s / 86400 = t / 86400 := locate_inj (Prod.ext hyear hyday)
  omega

theorem daysInYear_pos (year : Nat) : 0 < daysInYear year := by
  unfold daysInYear
  split <;> decide

theorem daysInMonth_le (year month : Nat) : daysInMonth year month ≤ 31 := by
  unfold daysInMonth
  split <;> (try split) <;> decide

theorem offset_december (year : Nat) : offset (daysInMonth year) 11 + 31 = daysInYear year := by
  simp only [offset, daysInMonth, daysInYear]
  split <;> rfl

theorem offset_mono (len : Nat → Nat) (h : i ≤ j) : offset len i ≤ offset len j := by
  induction h with
  | refl => exact Nat.le_refl _
  | step _ ih => exact Nat.le_trans ih (Nat.le_add_right _ _)

theorem offset_daysInYear (year : Nat) :
    offset daysInYear year + (year + 99) / 100 =
      365 * year + (year + 3) / 4 + (year + 399) / 400 := by
  induction year with
  | zero => rfl
  | succ year ih =>
    by_cases hleap : isLeap year
    · rw [offset, daysInYear, if_pos hleap]
      rcases hleap with ⟨hfour, hcentury⟩ | hcycle <;> omega
    · rw [offset, daysInYear, if_neg hleap]
      obtain ⟨hfour, hcycle⟩ := not_or.mp hleap
      by_cases hcentury : year % 100 = 0
      · omega
      · have hcommon : year % 4 ≠ 0 := fun h => hfour ⟨h, hcentury⟩
        have hfours : (year + 1 + 3) / 4 = (year + 3) / 4 := by omega
        have hcenturies : (year + 1 + 99) / 100 = (year + 99) / 100 := by omega
        have hcycles : (year + 1 + 399) / 400 = (year + 399) / 400 := by omega
        rw [hfours, hcenturies, hcycles]
        omega

/-- The last year of four digits ends with the second 253402300799. -/
theorem gmtime_year_le (h : time < 253402300800) : (gmtime time).year ≤ 9999 := by
  by_contra hyear
  have hlate : 10000 ≤ (locate daysInYear (time / 86400) 1970 (time / 86400)).1 := by
    simp only [gmtime] at hyear
    omega
  have hlocate := locate_offset daysInYear (time / 86400) 1970 (time / 86400)
  have hmono := offset_mono daysInYear hlate
  have hend := offset_daysInYear 10000
  have hepoch := offset_daysInYear 1970
  omega

structure Tm.Ranges (tm : Tm) : Prop where
  mon : tm.mon < 12
  mday : tm.mday < 31
  hour : tm.hour < 24
  min : tm.min < 60
  sec : tm.sec < 60

theorem gmtime_ranges (t : Nat) : (gmtime t).Ranges := by
  let date := locate daysInYear (t / 86400) 1970 (t / 86400)
  have hyday : date.2 < daysInYear date.1 := locate_lt daysInYear_pos (Nat.le_refl _)
  have hmon := locate_le (daysInMonth date.1) 11 0 date.2
  have hmday : (locate (daysInMonth date.1) 11 0 date.2).2 < 31 := by
    rcases locate_last (daysInMonth date.1) 11 0 date.2 with h | h
    · exact Nat.lt_of_lt_of_le h (daysInMonth_le ..)
    · have hoffset := locate_offset (daysInMonth date.1) 11 0 date.2
      have hdecember := offset_december date.1
      rw [h, Nat.zero_add] at hoffset
      have hzero : offset (daysInMonth date.1) 0 = 0 := rfl
      omega
  refine ⟨Nat.lt_succ_of_le hmon, hmday, ?_, ?_, Nat.mod_lt _ (by decide)⟩
  · show t % 86400 / 3600 < 24
    omega
  · show t % 86400 % 3600 / 60 < 60
    omega

example : gmtime 1709210096 = ⟨2024, 1, 28, 12, 34, 56⟩ := by decide +kernel

-- ---------------------------------------------------------------------------
-- Earlier and later
-- ---------------------------------------------------------------------------

theorem locate_lt_locate (h : m < n)
    (hn : (locate len g i n).2 < len (locate len g i n).1 ∨
      (locate len f i m).1 ≤ (locate len g i n).1) :
    (locate len f i m).1 < (locate len g i n).1 ∨
      (locate len f i m).1 = (locate len g i n).1 ∧
        (locate len f i m).2 < (locate len g i n).2 := by
  have hm' := locate_offset len f i m
  have hn' := locate_offset len g i n
  rcases Nat.lt_trichotomy (locate len f i m).1 (locate len g i n).1 with hlt | heq | hgt
  · exact .inl hlt
  · rw [heq] at hm'
    exact .inr ⟨heq, by omega⟩
  · have hpiece := hn.resolve_right (Nat.not_le.mpr hgt)
    have hmono := offset_mono len (Nat.succ_le_of_lt hgt)
    rw [Nat.succ_eq_add_one, offset] at hmono
    omega

def Tm.toList (tm : Tm) : List Nat := [tm.year, tm.mon, tm.mday, tm.hour, tm.min, tm.sec]

/-- The year counts before the month, and so on. -/
theorem gmtime_lt (h : s < t) : (gmtime s).toList < (gmtime t).toList := by
  simp only [Tm.toList, gmtime, List.cons_lt_cons_iff]
  rcases Nat.lt_or_eq_of_le (Nat.div_le_div_right (c := 86400) (Nat.le_of_lt h)) with hdays | hdays
  · rcases locate_lt_locate (f := s / 86400) hdays
      (.inl (locate_lt daysInYear_pos (i := 1970) (Nat.le_refl (t / 86400)))) with
      hyear | ⟨hyear, hyday⟩
    · exact .inl hyear
    · refine .inr ⟨hyear, ?_⟩
      rw [hyear]
      generalize (locate daysInYear (s / 86400) 1970 (s / 86400)).2 = a at hyday ⊢
      generalize locate daysInYear (t / 86400) 1970 (t / 86400) = date at hyday ⊢
      have hlast := locate_last (daysInMonth date.1) 11 0 date.2
      have hle := locate_le (daysInMonth date.1) 11 0 a
      rcases locate_lt_locate (f := 11) hyday
        (hlast.imp id fun he => he ▸ hle) with hmon | ⟨hmon, hmday⟩
      · exact .inl hmon
      · exact .inr ⟨hmon, .inl hmday⟩
  · simp only [hdays, Nat.lt_irrefl, false_or, true_and]
    have hrest : s % 86400 < t % 86400 := by omega
    generalize s % 86400 = a at hrest ⊢
    generalize t % 86400 = b at hrest ⊢
    by_cases hhour : a / 3600 = b / 3600
    · refine .inr ⟨hhour, ?_⟩
      by_cases hmin : a % 3600 / 60 = b % 3600 / 60
      · exact .inr ⟨hmin, .inl (by omega)⟩
      · exact .inl (by omega)
    · exact .inl (by omega)

end Lib
