import Muduo.Lib.Search
import Mathlib.Data.List.Chain

/-!
# Lines

The lines that a delimiter ends. What follows the last delimiter is no line.
-/

namespace Lib

variable {α : Type u} {d : List α}

def unlines (d : List α) (ls : List (List α)) : List α := ls.flatMap (· ++ d)

@[simp] theorem unlines_nil : unlines d [] = [] := rfl

@[simp] theorem unlines_cons (l : List α) (ls : List (List α)) :
    unlines d (l :: ls) = l ++ d ++ unlines d ls :=
  List.flatMap_cons ..

@[simp] theorem unlines_append (ls ms : List (List α)) :
    unlines d (ls ++ ms) = unlines d ls ++ unlines d ms :=
  List.flatMap_append

variable [DecidableEq α]

def linesUpTo (d : List α) : Nat → List α → List (List α)
  | 0, _ => []
  | fuel + 1, xs =>
    match search d xs with
    | some i => xs.take i :: linesUpTo d fuel (xs.drop (i + d.length))
    | none => []

/-- There are no more lines than elements. -/
def lines (d : List α) (xs : List α) : List (List α) := linesUpTo d xs.length xs

/-- The delimiter is not in it, and not across its end. -/
def IsLine (d : List α) (l : List α) : Prop := search d (l ++ d) = some l.length

-- ---------------------------------------------------------------------------
-- One line
-- ---------------------------------------------------------------------------

theorem search_nil (hd : d ≠ []) : search d [] = none := if_neg hd

theorem take_search {xs : List α} (h : search d xs = some i) :
    xs = xs.take i ++ d ++ xs.drop (i + d.length) := by
  obtain ⟨rest, hrest⟩ := prefix_of_search h
  have hdrop : xs.drop (i + d.length) = rest := by
    rw [← List.drop_drop, ← hrest, List.drop_left]
  rw [hdrop, List.append_assoc, hrest, List.take_append_drop]

theorem search_take {xs : List α} (h : search d xs = some i) :
    search d (xs.take (i + d.length)) = some i := by
  induction xs generalizing i with
  | nil =>
    rw [search] at h
    split at h
    · rename_i hd
      cases h
      simp [search, hd]
    · cases h
  | cons x xs ih =>
    rw [search] at h
    split at h
    · rename_i hp
      cases h
      rw [Nat.zero_add, List.prefix_iff_eq_take.mp hp |>.symm]
      cases d <;> simp [search]
    · rename_i hp
      obtain ⟨j, hj, rfl⟩ := Option.map_eq_some_iff.mp h
      have hlen : j + 1 + d.length = j + d.length + 1 := by omega
      rw [hlen, List.take_succ_cons, search, ih hj, if_neg]
      · rfl
      · exact fun hp' => hp (hp'.trans (List.take_prefix (j + d.length + 1) (x :: xs)))

theorem isLine_take {xs : List α} (h : search d xs = some i) (hd : d ≠ []) :
    IsLine d (xs.take i) := by
  have hle := (search_le h).resolve_right hd
  have htake : xs.take (i + d.length) = xs.take i ++ d := by
    conv_lhs => rw [take_search h]
    rw [List.take_left']
    simp
    omega
  unfold IsLine
  rw [← htake, search_take h, List.length_take]
  congr 1
  omega

-- ---------------------------------------------------------------------------
-- Delimiters of two elements
-- ---------------------------------------------------------------------------

omit [DecidableEq α] in
theorem not_infix_pair {a b : α} {l : List α} :
    ¬[a, b] <:+: l ↔ l.IsChain fun x y => x = a → y ≠ b := by
  rw [List.isChain_iff_forall_rel_of_append_cons_cons]
  constructor
  · rintro h x y pre post rfl rfl rfl
    exact h ⟨pre, post, by simp⟩
  · rintro h ⟨pre, post, rfl⟩
    exact @h a b pre post (by simp) rfl rfl

omit [DecidableEq α] in
theorem not_infix_pair_append {a b c : α} {xs ys : List α} (hx : ¬[a, b] <:+: xs)
    (hy : ¬[a, b] <:+: ys) (ha : c ≠ a) (hb : c ≠ b) : ¬[a, b] <:+: xs ++ [c] ++ ys := by
  rw [not_infix_pair] at hx hy ⊢
  rw [List.append_assoc, List.isChain_append, List.singleton_append, List.isChain_cons]
  refine ⟨hx, ⟨fun y _ hc => absurd hc ha, hy⟩, fun x _ y hyc _ => ?_⟩
  obtain rfl : c = y := Option.some.inj hyc
  exact hb

theorem isLine_pair {a b : α} {l : List α} (hab : a ≠ b) (h : ¬[a, b] <:+: l) :
    IsLine [a, b] l := by
  unfold IsLine
  induction l with
  | nil => simp [search]
  | cons x l ih =>
    have htail : ¬[a, b] <:+: l := fun hl => h (hl.trans (List.suffix_cons x l).isInfix)
    rw [List.cons_append, search, if_neg, ih htail]
    · rfl
    · intro hp
      obtain ⟨hfirst, hnext⟩ := List.cons_prefix_cons.mp hp
      cases l with
      | nil => exact hab (List.cons_prefix_cons.mp hnext).1.symm
      | cons y l =>
        have hsecond : b = y := (List.cons_prefix_cons.mp hnext).1
        rw [← hfirst, ← hsecond] at h
        exact h (List.prefix_append [a, b] l).isInfix

-- ---------------------------------------------------------------------------
-- All lines
-- ---------------------------------------------------------------------------

theorem linesUpTo_congr (hd : d ≠ []) {fuel fuel' : Nat} {xs : List α} (h : xs.length ≤ fuel)
    (h' : xs.length ≤ fuel') : linesUpTo d fuel xs = linesUpTo d fuel' xs := by
  have hpos := List.length_pos_of_ne_nil hd
  induction fuel generalizing fuel' xs with
  | zero =>
    obtain rfl := List.eq_nil_of_length_eq_zero (Nat.le_zero.mp h)
    cases fuel' with
    | zero => rfl
    | succ fuel' => rw [linesUpTo, linesUpTo, search_nil hd]
  | succ fuel ih =>
    cases fuel' with
    | zero =>
      obtain rfl := List.eq_nil_of_length_eq_zero (Nat.le_zero.mp h')
      rw [linesUpTo, linesUpTo, search_nil hd]
    | succ fuel' =>
      rw [linesUpTo, linesUpTo]
      cases hs : search d xs with
      | none => rfl
      | some i =>
        have hle := (search_le hs).resolve_right hd
        have hdrop : (xs.drop (i + d.length)).length = xs.length - (i + d.length) :=
          List.length_drop
        exact congrArg _ (ih (by omega) (by omega))

theorem lines_none {xs : List α} (h : search d xs = none) : lines d xs = [] := by
  unfold lines
  cases xs with
  | nil => rfl
  | cons x xs => rw [List.length_cons, linesUpTo, h]

theorem lines_some {xs : List α} (hd : d ≠ []) (h : search d xs = some i) :
    lines d xs = xs.take i :: lines d (xs.drop (i + d.length)) := by
  have hle := (search_le h).resolve_right hd
  have hpos := List.length_pos_of_ne_nil hd
  have hdrop : (xs.drop (i + d.length)).length = xs.length - (i + d.length) := List.length_drop
  unfold lines
  obtain ⟨n, hn⟩ : ∃ n, xs.length = n + 1 := ⟨xs.length - 1, by omega⟩
  rw [hn, linesUpTo, h]
  exact congrArg _ (linesUpTo_congr hd (by omega) (le_refl _))

theorem lines_cons {l : List α} (hd : d ≠ []) (h : IsLine d l) (ys : List α) :
    lines d (l ++ d ++ ys) = l :: lines d ys := by
  rw [lines_some hd (search_append h ys)]
  simp

/-- Lines come apart again. -/
theorem lines_unlines {ls : List (List α)} (hd : d ≠ []) (h : ∀ l ∈ ls, IsLine d l)
    (ys : List α) : lines d (unlines d ls ++ ys) = ls ++ lines d ys := by
  induction ls with
  | nil => rfl
  | cons l ls ih =>
    obtain ⟨hl, hls⟩ := List.forall_mem_cons.mp h
    rw [unlines_cons, List.append_assoc, lines_cons hd hl, ih hls, List.cons_append]

theorem lines_split {xs : List α} {ls ms : List (List α)} (hd : d ≠ [])
    (h : lines d xs = ls ++ ms) :
    ∃ rest, xs = unlines d ls ++ rest ∧ lines d rest = ms ∧ ∀ l ∈ ls, IsLine d l := by
  induction ls generalizing xs with
  | nil => exact ⟨xs, rfl, h, by simp⟩
  | cons l ls ih =>
    cases hs : search d xs with
    | none =>
      rw [lines_none hs] at h
      cases h
    | some i =>
      rw [lines_some hd hs] at h
      obtain ⟨rfl, htail⟩ := List.cons_eq_cons.mp h
      obtain ⟨rest, hrest, hms, hls⟩ := ih htail
      refine ⟨rest, ?_, hms, List.forall_mem_cons.mpr ⟨isLine_take hs hd, hls⟩⟩
      rw [unlines_cons, List.append_assoc, ← hrest]
      exact take_search hs

/-- What comes behind leaves the lines there are. -/
theorem lines_append {xs : List α} (hd : d ≠ []) (h : xs = unlines d (lines d xs) ++ rest)
    (hls : ∀ l ∈ lines d xs, IsLine d l) (ys : List α) :
    lines d (xs ++ ys) = lines d xs ++ lines d (rest ++ ys) := by
  conv_lhs => rw [h]
  rw [List.append_assoc, lines_unlines hd hls]

end Lib
