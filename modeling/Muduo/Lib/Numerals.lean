import Mathlib.Data.Nat.Digits.Lemmas

/-!
# Numerals

The digits of a number as a loop takes them off, the lowest first and one at
least, and the numeral they make when they are turned around. `c` gives the
character of each digit to the base `b`, `read` the digit of a character.
-/

namespace Lib

variable {α : Type u} {b k n : Nat} {c : Nat → α} {read : α → Option Nat}

-- ---------------------------------------------------------------------------
-- Digits
-- ---------------------------------------------------------------------------

def lowDigits (b n : Nat) : List Nat := if n = 0 then [0] else b.digits n

theorem lowDigits_cons (hb : 1 < b) (n : Nat) :
    lowDigits b n = n % b :: if n / b = 0 then [] else lowDigits b (n / b) := by
  by_cases hn : n = 0
  · subst hn
    simp [lowDigits]
  · rw [lowDigits, if_neg hn, Nat.digits_eq_cons_digits_div hb hn]
    by_cases hdiv : n / b = 0
    · rw [if_pos hdiv, hdiv, Nat.digits_zero]
    · rw [if_neg hdiv, lowDigits, if_neg hdiv]

theorem ofDigits_lowDigits (b n : Nat) : Nat.ofDigits b (lowDigits b n) = n := by
  by_cases hn : n = 0
  · subst hn
    simp [lowDigits]
  · rw [lowDigits, if_neg hn, Nat.ofDigits_digits]

theorem lowDigits_lt (hb : 1 < b) : ∀ d ∈ lowDigits b n, d < b := by
  intro d hd
  by_cases hn : n = 0
  · rw [lowDigits, if_pos hn, List.mem_singleton] at hd
    omega
  · rw [lowDigits, if_neg hn] at hd
    exact Nat.digits_lt_base hb hd

theorem lowDigits_ne_nil (b n : Nat) : lowDigits b n ≠ [] := by
  by_cases hn : n = 0
  · simp [lowDigits, hn]
  · rw [lowDigits, if_neg hn]
    exact Nat.digits_ne_nil_iff_ne_zero.mpr hn

theorem length_lowDigits_le (hb : 1 < b) (hk : 0 < k) :
    (lowDigits b n).length ≤ k ↔ n < b ^ k := by
  by_cases hn : n = 0
  · subst hn
    exact iff_of_true hk (Nat.pow_pos (Nat.lt_of_succ_lt hb))
  · rw [lowDigits, if_neg hn]
    exact Nat.digits_length_le_iff hb n

/-- The highest digit is a zero only alone. -/
theorem lowDigits_leading (h : (lowDigits b n).getLast? = some 0) : n = 0 := by
  by_contra hn
  rw [lowDigits, if_neg hn, List.getLast?_eq_some_getLast (Nat.digits_ne_nil_iff_ne_zero.mpr hn)]
    at h
  exact Nat.getLast_digit_ne_zero b hn (Option.some.inj h)

-- ---------------------------------------------------------------------------
-- Numerals
-- ---------------------------------------------------------------------------

def numeral (b : Nat) (c : Nat → α) (n : Nat) : List α := ((lowDigits b n).map c).reverse

/-- Digits only, and no zero leads others. -/
structure IsNumeral (b : Nat) (c : Nat → α) (text : List α) : Prop where
  nonempty : text ≠ []
  digits : ∀ x ∈ text, ∃ d < b, x = c d
  leading : text.head? = some (c 0) → text = [c 0]

def readDigits (b : Nat) (read : α → Option Nat) : List α → Option Nat :=
  List.foldlM (fun n x => (read x).map (b * n + ·)) 0

def readNumeral (b : Nat) (read : α → Option Nat) : List α → Option Nat
  | [] => none
  | x :: text => readDigits b read (x :: text)

theorem length_numeral_le (hb : 1 < b) (hk : 0 < k) :
    (numeral b c n).length ≤ k ↔ n < b ^ k := by
  rw [numeral, List.length_reverse, List.length_map]
  exact length_lowDigits_le hb hk

theorem numeral_ne_nil (b : Nat) (c : Nat → α) (n : Nat) : numeral b c n ≠ [] := by
  rw [numeral, Ne, List.reverse_eq_nil_iff, List.map_eq_nil_iff]
  exact lowDigits_ne_nil b n

theorem isNumeral_numeral (hb : 1 < b) (hread : ∀ d < b, read (c d) = some d) (n : Nat) :
    IsNumeral b c (numeral b c n) := by
  refine ⟨numeral_ne_nil b c n, fun x hx => ?_, fun hhead => ?_⟩
  · rw [numeral, List.mem_reverse, List.mem_map] at hx
    obtain ⟨d, hd, rfl⟩ := hx
    exact ⟨d, lowDigits_lt hb d hd, rfl⟩
  · rw [numeral, List.head?_reverse, List.getLast?_map, Option.map_eq_some_iff] at hhead
    obtain ⟨d, hd, hzero⟩ := hhead
    have hlt := lowDigits_lt hb d (List.mem_of_getLast? hd)
    have heq : d = 0 := by
      have hsome := hread d hlt
      rw [hzero, hread 0 (by omega)] at hsome
      exact (Option.some.inj hsome).symm
    subst heq
    rw [numeral, lowDigits_leading hd]
    rfl

/-- The digits are read from the highest on. -/
theorem readDigits_reverse (hread : ∀ d < b, read (c d) = some d) {ds : List Nat}
    (hds : ∀ d ∈ ds, d < b) :
    readDigits b read (ds.map c).reverse = some (Nat.ofDigits b ds) := by
  induction ds with
  | nil => rfl
  | cons d ds ih =>
    obtain ⟨hd, hds⟩ := List.forall_mem_cons.mp hds
    have hrest := ih hds
    rw [readDigits] at hrest ⊢
    rw [List.map_cons, List.reverse_cons, List.foldlM_append, hrest]
    simp [hread d hd, Nat.ofDigits_cons, Nat.add_comm]

theorem readNumeral_numeral (hb : 1 < b) (hread : ∀ d < b, read (c d) = some d) (n : Nat) :
    readNumeral b read (numeral b c n) = some n := by
  obtain ⟨x, text, htext⟩ := List.exists_cons_of_ne_nil (numeral_ne_nil b c n)
  rw [htext, readNumeral, ← htext, numeral, readDigits_reverse hread (lowDigits_lt hb),
    ofDigits_lowDigits]

end Lib
