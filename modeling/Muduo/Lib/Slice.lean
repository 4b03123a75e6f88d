import Mathlib.Tactic.Common
import Mathlib.Data.List.TakeDrop

/-!
# Slices of a list

`slice xs i j` is the range `[i, j)` of an array kept as a list, `splice` writes
over a range of it and `resize` is `std::vector::resize`.
-/

namespace Lib

variable {α : Type u}

def slice (xs : List α) (i j : Nat) : List α := (xs.drop i).take (j - i)

/-- `std::copy` of `ys` to position `i`. -/
def splice (xs : List α) (i : Nat) (ys : List α) : List α :=
  xs.take i ++ ys ++ xs.drop (i + ys.length)

def resize (xs : List α) (n : Nat) (fill : α) : List α :=
  xs.take n ++ List.replicate (n - xs.length) fill

theorem length_slice {xs : List α} (h : j ≤ xs.length) : (slice xs i j).length = j - i := by
  simp only [slice, List.length_take, List.length_drop]
  omega

@[simp] theorem slice_self (xs : List α) (i : Nat) : slice xs i i = [] := by
  simp [slice]

theorem slice_append_slice {xs : List α} (hij : i ≤ j) (hjk : j ≤ k) :
    slice xs i j ++ slice xs j k = slice xs i k := by
  have hk : k - i = (j - i) + (k - j) := by omega
  have hj : i + (j - i) = j := by omega
  simp only [slice]
  rw [hk, List.take_add, List.drop_drop, hj]

theorem drop_slice (xs : List α) : (slice xs i j).drop n = slice xs (i + n) j := by
  simp only [slice, List.drop_take, List.drop_drop]
  congr 1
  omega

theorem take_slice {xs : List α} (h : i + n ≤ j) : (slice xs i j).take n = slice xs i (i + n) := by
  simp only [slice, List.take_take]
  congr 1
  omega

theorem length_splice {xs ys : List α} (h : i + ys.length ≤ xs.length) :
    (splice xs i ys).length = xs.length := by
  simp only [splice, List.length_append, List.length_take, List.length_drop]
  omega

theorem slice_splice_left {xs : List α} (ys : List α) (hij : i ≤ j) (hj : j ≤ xs.length) :
    slice (splice xs j ys) i (j + ys.length) = slice xs i j ++ ys := by
  have hlen : (xs.take j).length = j := by simp; omega
  unfold splice slice
  rw [List.append_assoc, List.drop_append_of_le_length (by omega), ← List.append_assoc,
    List.take_append_of_le_length (by simp; omega)]
  rw [List.take_of_length_le (by simp; omega), List.drop_take]

theorem slice_splice_right {xs : List α} (ys : List α) (hj : i + ys.length ≤ j)
    (hx : j ≤ xs.length) :
    slice (splice xs i ys) i j = ys ++ slice xs (i + ys.length) j := by
  have hlen : (xs.take i).length = i := by simp; omega
  have hdrop : (splice xs i ys).drop i = ys ++ xs.drop (i + ys.length) := by
    unfold splice
    rw [List.append_assoc, List.drop_append, List.drop_eq_nil_of_le (by omega), hlen]
    simp
  unfold slice
  rw [hdrop, List.take_append, List.take_of_length_le (by omega)]
  congr 2
  omega

theorem length_resize (xs : List α) (n : Nat) (fill : α) : (resize xs n fill).length = n := by
  simp only [resize, List.length_append, List.length_take, List.length_replicate]
  omega

theorem slice_resize {xs : List α} (hj : j ≤ xs.length) (hn : j ≤ n) :
    slice (resize xs n fill) i j = slice xs i j := by
  by_cases hij : i ≤ j
  · unfold slice resize
    rw [List.drop_append_of_le_length (by simp; omega),
      List.take_append_of_le_length (by simp; omega), List.drop_take, List.take_take]
    congr 1
    omega
  · have : j - i = 0 := by omega
    simp [slice, this]

end Lib
