import Muduo.Lib.Numerals
import Mathlib.Data.Nat.Notation
import Mathlib.Tactic.Common

/-!
# Texts in columns

A text with numbers in columns of fixed width stands before another one exactly when
its numbers do, the first one counting first. `Column` says how a number is written
in its column; digits after leading zeros are one way to write it.
-/

namespace Lib

-- ---------------------------------------------------------------------------
-- Columns
-- ---------------------------------------------------------------------------

/-- Numbers below `bound` are written in texts of one length that stand in their
order. -/
structure Column (α : Type u) [LT α] where
  text : ℕ → List α
  bound : ℕ
  length : ∀ {m n}, m < bound → n < bound → (text m).length = (text n).length
  lt : ∀ {m n}, m < n → n < bound → text m < text n

variable {α : Type u} [LT α]

theorem append_lt_append {a b : List α} (hl : a.length = b.length) (h : a < b) (x y : List α) :
    a ++ x < b ++ y := by
  induction a generalizing b with
  | nil =>
    rw [List.length_eq_zero_iff.mp hl.symm] at h
    cases h
  | cons c a ih =>
    cases b with
    | nil => cases hl
    | cons d b =>
      simp only [List.cons_append, List.cons_lt_cons_iff] at h ⊢
      exact h.imp id fun ⟨hcd, hab⟩ => ⟨hcd, ih (Nat.succ.inj hl) hab⟩

namespace Column

def after (sep : List α) (c : Column α) : Column α where
  text n := sep ++ c.text n
  bound := c.bound
  length hm hn := by simp [c.length hm hn]
  lt h hn := List.append_left_lt (c.lt h hn)

/-- The column for a number that is counted from zero and written from one. -/
def succ (c : Column α) : Column α where
  text n := c.text (n + 1)
  bound := c.bound - 1
  length hm hn := c.length (Nat.add_lt_of_lt_sub hm) (Nat.add_lt_of_lt_sub hn)
  lt h hn := c.lt (Nat.succ_lt_succ h) (Nat.add_lt_of_lt_sub hn)

def write : List (Column α) → List ℕ → List α
  | c :: cs, x :: xs => c.text x ++ write cs xs
  | _, _ => []

def Fits : List (Column α) → List ℕ → Prop
  | [], [] => True
  | c :: cs, x :: xs => x < c.bound ∧ Fits cs xs
  | _, _ => False

theorem length_write {cs : List (Column α)} (hx : Fits cs xs) (hy : Fits cs ys) :
    (write cs xs).length = (write cs ys).length := by
  induction cs generalizing xs ys with
  | nil => rfl
  | cons c cs ih =>
    cases xs with
    | nil => exact hx.elim
    | cons x xs =>
      cases ys with
      | nil => exact hy.elim
      | cons y ys => simp [write, c.length hx.1 hy.1, ih hx.2 hy.2]

/-- The texts stand in the order of the numbers. -/
theorem write_lt {cs : List (Column α)} (hx : Fits cs xs) (hy : Fits cs ys) (h : xs < ys) :
    write cs xs < write cs ys := by
  induction cs generalizing xs ys with
  | nil =>
    cases xs with
    | nil =>
      cases ys with
      | nil => exact absurd h (List.lt_irrefl _)
      | cons y ys => exact hy.elim
    | cons x xs => exact hx.elim
  | cons c cs ih =>
    cases xs with
    | nil => exact hx.elim
    | cons x xs =>
      cases ys with
      | nil => exact hy.elim
      | cons y ys =>
        rcases List.cons_lt_cons_iff.mp h with hlt | ⟨rfl, hlt⟩
        · exact append_lt_append (c.length hx.1 hy.1) (c.lt hlt hy.1) _ _
        · exact List.append_left_lt (ih hx.2 hy.2 hlt)

end Column

-- ---------------------------------------------------------------------------
-- Leading zeros
-- ---------------------------------------------------------------------------

/-- The last `w` digits of `n` to the base `b`. -/
def lastDigits (b : ℕ) (c : ℕ → α) : ℕ → ℕ → List α
  | 0, _ => []
  | w + 1, n => lastDigits b c w (n / b) ++ [c (n % b)]

section
omit [LT α]
variable {b : ℕ} {c : ℕ → α}

@[simp] theorem length_lastDigits (b : ℕ) (c : ℕ → α) (w n : ℕ) :
    (lastDigits b c w n).length = w := by
  induction w generalizing n with
  | zero => rfl
  | succ w ih => simp [lastDigits, ih]

theorem numeral_snoc (hb : 1 < b) (n : ℕ) :
    numeral b c n = (if n / b = 0 then [] else numeral b c (n / b)) ++ [c (n % b)] := by
  rw [numeral, lowDigits_cons hb]
  split <;> simp [numeral]

theorem leftpad_snoc (w : ℕ) (a x : α) (l : List α) :
    (l ++ [x]).leftpad (w + 1) a = l.leftpad w a ++ [x] := by
  simp [List.leftpad]

theorem leftpad_numeral (hb : 1 < b) (h : n < b ^ (w + 1)) :
    (numeral b c n).leftpad (w + 1) (c 0) = lastDigits b c (w + 1) n := by
  have hdiv : n / b < b ^ w := Nat.div_lt_of_lt_mul (by rwa [Nat.pow_succ, Nat.mul_comm] at h)
  rw [numeral_snoc hb, leftpad_snoc, lastDigits]
  congr 1
  induction w generalizing n with
  | zero =>
    have hzero : n / b = 0 := by simpa using hdiv
    rw [if_pos hzero]
    rfl
  | succ w ih =>
    have hrest : n / b / b < b ^ w :=
      Nat.div_lt_of_lt_mul (by rwa [Nat.pow_succ, Nat.mul_comm] at hdiv)
    split
    · rename_i hzero
      have hnil := ih hdiv hrest
      rw [hzero, Nat.zero_div, if_pos rfl] at hnil
      rw [hzero, lastDigits, Nat.zero_div, Nat.zero_mod, ← hnil]
      simp [List.leftpad, List.replicate_succ']
    · rw [numeral_snoc hb, leftpad_snoc, lastDigits, ih hdiv hrest]

end

theorem lastDigits_lt {c : ℕ → α} (hc : ∀ j < b, ∀ i < j, c i < c j) (hb : 0 < b) (h : m < n)
    (hn : n < b ^ w) : lastDigits b c w m < lastDigits b c w n := by
  induction w generalizing m n with
  | zero => simp [Nat.lt_one_iff.mp (hn.trans_eq (Nat.pow_zero b))] at h
  | succ w ih =>
    rcases Nat.lt_or_eq_of_le (Nat.div_le_div_right (c := b) (Nat.le_of_lt h)) with hlt | heq
    · have hlen : (lastDigits b c w (m / b)).length = (lastDigits b c w (n / b)).length := by simp
      refine append_lt_append hlen (ih hlt ?_) _ _
      exact Nat.div_lt_of_lt_mul (by rwa [Nat.pow_succ, Nat.mul_comm] at hn)
    · have hmod : m % b < n % b := by
        have hm' := Nat.div_add_mod m b
        have hn' := Nat.div_add_mod n b
        rw [heq] at hm'
        omega
      simp only [lastDigits, heq]
      exact List.append_left_lt
        (List.cons_lt_cons_iff.mpr (.inl (hc _ (Nat.mod_lt n hb) _ hmod)))

def Column.ofDigits (b : ℕ) (c : ℕ → α) (hc : ∀ j < b, ∀ i < j, c i < c j) (hb : 0 < b) (w : ℕ) :
    Column α where
  text := lastDigits b c w
  bound := b ^ w
  length _ _ := by simp
  lt h hn := lastDigits_lt hc hb h hn

end Lib
