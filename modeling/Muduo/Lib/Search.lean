import Mathlib.Tactic.Common
import Mathlib.Data.List.TakeDrop
import Mathlib.Data.List.Infix

/-!
# Searching a list

`search` is `std::search`: where a pattern occurs first. `std::find` is
`List.idxOf`, which gives the length when there is nothing to find.
-/

namespace Lib

variable {α : Type u} [DecidableEq α]

/-- Where `pat` occurs first. -/
def search (pat : List α) : List α → Option Nat
  | [] => if pat = [] then some 0 else none
  | x :: xs => if pat <+: x :: xs then some 0 else (search pat xs).map (· + 1)

theorem prefix_of_search {pat xs : List α} (h : search pat xs = some i) : pat <+: xs.drop i := by
  induction xs generalizing i with
  | nil =>
    rw [search] at h
    split at h
    · rename_i hp
      rw [hp]
      exact List.nil_prefix
    · cases h
  | cons x xs ih =>
    rw [search] at h
    split at h
    · cases h
      assumption
    · obtain ⟨j, hj, rfl⟩ := Option.map_eq_some_iff.mp h
      exact ih hj

theorem search_le {pat xs : List α} (h : search pat xs = some i) :
    i + pat.length ≤ xs.length ∨ pat = [] := by
  have hle := (prefix_of_search h).length_le
  rw [List.length_drop] at hle
  rcases Nat.lt_or_ge i xs.length with hi | hi
  · exact .inl (by omega)
  · exact .inr (List.eq_nil_of_length_eq_zero (by omega))

/-- What comes behind does not change where a pattern is found. -/
theorem search_append {pat xs : List α} (h : search pat xs = some i) (ys : List α) :
    search pat (xs ++ ys) = some i := by
  induction xs generalizing i with
  | nil =>
    rw [search] at h
    split at h
    · rename_i hp
      cases h
      rw [hp]
      cases ys <;> simp [search]
    · cases h
  | cons x xs ih =>
    rw [search] at h
    rw [List.cons_append, search]
    split at h
    · rename_i hp
      cases h
      exact if_pos (hp.trans (List.prefix_append (x :: xs) ys))
    · rename_i hp
      obtain ⟨j, hj, rfl⟩ := Option.map_eq_some_iff.mp h
      rw [if_neg, ih hj, Option.map_some]
      intro hp'
      -- a match that early would lie within `x :: xs`
      have hle : pat.length ≤ (x :: xs).length := by
        rcases search_le hj with hle | rfl
        · rw [List.length_cons]
          omega
        · exact Nat.zero_le _
      rw [← List.cons_append] at hp'
      exact hp (List.prefix_of_prefix_length_le hp' (List.prefix_append ..) hle)

theorem idxOf_append_cons {a : α} {xs : List α} (h : a ∉ xs) (ys : List α) :
    (xs ++ a :: ys).idxOf a = xs.length := by
  simp [List.idxOf_append, h]

theorem take_idxOf {a : α} {xs : List α} (h : xs.idxOf a ≠ xs.length) :
    xs.take (xs.idxOf a) ++ a :: xs.drop (xs.idxOf a + 1) = xs := by
  have hlt : xs.idxOf a < xs.length := lt_of_le_of_ne List.idxOf_le_length h
  have hget : xs[xs.idxOf a] = a := List.getElem_idxOf hlt
  calc xs.take (xs.idxOf a) ++ a :: xs.drop (xs.idxOf a + 1)
      = xs.take (xs.idxOf a) ++ xs.drop (xs.idxOf a) := by
        rw [List.drop_eq_getElem_cons hlt, hget]
    _ = xs := List.take_append_drop ..

end Lib
