import Mathlib.Data.List.Basic

/-!
# Segments

The segments of a list are its longest parts without a separator, empty ones left
out: `Segmented` says so, and `segments` computes them.
-/

namespace Lib

variable {α : Type u}

/-- A segment ends at a separator or at the end, and the next one begins behind it. -/
inductive Segmented (sep : α) : List α → List (List α) → Prop
  | nil : Segmented sep [] []
  | skip {xs segs} : Segmented sep xs segs → Segmented sep (sep :: xs) segs
  | last {seg} : seg ≠ [] → sep ∉ seg → Segmented sep seg [seg]
  | cons {seg xs segs} : seg ≠ [] → sep ∉ seg → Segmented sep xs segs →
      Segmented sep (seg ++ sep :: xs) (seg :: segs)

variable [DecidableEq α] {sep : α} {xs : List α} {segs : List (List α)}

def segments (sep : α) (xs : List α) : List (List α) := (xs.splitOn sep).filter (· ≠ [])

/-- Up to the first separator, where anything is before it. -/
theorem segments_cut (h : sep ∉ xs) (ys : List α) :
    segments sep (xs ++ sep :: ys) = (if xs = [] then [] else [xs]) ++ segments sep ys := by
  rw [segments, List.splitOn_append_cons_self_of_not_mem h]
  by_cases hxs : xs = [] <;> simp [hxs, segments]

theorem segments_rest (h : sep ∉ xs) : segments sep xs = if xs = [] then [] else [xs] := by
  rw [segments, List.splitOn_eq_singleton h]
  by_cases hxs : xs = [] <;> simp [hxs]

theorem segmented_segments (sep : α) (xs : List α) : Segmented sep xs (segments sep xs) := by
  induction hn : xs.length using Nat.strongRecOn generalizing xs with
  | _ n ih =>
    by_cases hmem : sep ∈ xs
    · obtain ⟨before, behind, rfl, hbefore⟩ := List.eq_append_cons_of_mem hmem
      rw [List.length_append, List.length_cons] at hn
      have hrest := ih behind.length (by omega) behind rfl
      rw [segments_cut hbefore]
      by_cases hempty : before = []
      · subst hempty
        exact .skip hrest
      · rw [if_neg hempty]
        exact .cons hempty hbefore hrest
    · rw [segments_rest hmem]
      by_cases hempty : xs = []
      · subst hempty
        exact .nil
      · rw [if_neg hempty]
        exact .last hempty hmem

theorem Segmented.eq_segments (h : Segmented sep xs segs) : segs = segments sep xs := by
  induction h with
  | nil => simp [segments]
  | skip _ ih =>
    rw [ih]
    exact (segments_cut List.not_mem_nil _).symm
  | last hne hsep => rw [segments_rest hsep, if_neg hne]
  | cons hne hsep _ ih => rw [segments_cut hsep, if_neg hne, ih, List.singleton_append]

end Lib
