import Mathlib.Order.Lattice
import Mathlib.Tactic.Common
import Mathlib.Data.List.Nodup
import Mathlib.Data.List.TakeWhile

/-!
# Ordered maps and sets

A finite map kept as a list of entries with strictly increasing keys, so that
walking the list visits the keys in order. A set is a map to `Unit`. Every
operation is described by what it does to `find?` and to `size`.
-/

namespace Lib

structure OrdMap (κ : Type u) (ν : Type v) [LinearOrder κ] where
  entries : List (κ × ν)
  sorted : entries.Pairwise (fun a b => a.1 < b.1)

namespace OrdMap

variable {κ : Type u} {ν : Type v} [LinearOrder κ]

def empty : OrdMap κ ν := ⟨[], .nil⟩

def size (m : OrdMap κ ν) : Nat := m.entries.length

def lookup (k : κ) : List (κ × ν) → Option ν
  | [] => none
  | (k', v) :: rest => if k = k' then some v else lookup k rest

def find? (m : OrdMap κ ν) (k : κ) : Option ν := lookup k m.entries

/-- The entry with the least key. -/
def first? (m : OrdMap κ ν) : Option (κ × ν) := m.entries.head?

def put (k : κ) (v : ν) : List (κ × ν) → List (κ × ν)
  | [] => [(k, v)]
  | (k', v') :: rest =>
    if k < k' then (k, v) :: (k', v') :: rest
    else if k = k' then (k, v) :: rest
    else (k', v') :: put k v rest

theorem mem_put {e : κ × ν} (h : e ∈ put k v es) : e = (k, v) ∨ e ∈ es := by
  induction es with
  | nil => simpa [put] using h
  | cons hd tl ih =>
    obtain ⟨k', v'⟩ := hd
    rw [put] at h
    split at h
    · simpa using h
    · split at h
      · rcases List.mem_cons.mp h with h | h
        · exact .inl h
        · exact .inr (List.mem_cons_of_mem _ h)
      · rcases List.mem_cons.mp h with h | h
        · exact .inr (by simp [h])
        · exact (ih h).imp_right (List.mem_cons_of_mem _)

theorem sorted_put {es : List (κ × ν)} (h : es.Pairwise (fun a b => a.1 < b.1)) :
    (put k v es).Pairwise (fun a b => a.1 < b.1) := by
  induction es with
  | nil => simp [put]
  | cons hd tl ih =>
    obtain ⟨k', v'⟩ := hd
    obtain ⟨hlt, htl⟩ := List.pairwise_cons.mp h
    rw [put]
    split
    · rename_i hk
      refine List.pairwise_cons.mpr ⟨fun e he => ?_, h⟩
      rcases List.mem_cons.mp he with rfl | he
      · exact hk
      · exact lt_trans hk (hlt e he)
    · split
      · rename_i hk
        subst hk
        exact List.pairwise_cons.mpr ⟨hlt, htl⟩
      · rename_i hk hne
        refine List.pairwise_cons.mpr ⟨fun e he => ?_, ih htl⟩
        rcases mem_put he with rfl | he
        · exact lt_of_le_of_ne (not_lt.mp hk) (Ne.symm hne)
        · exact hlt e he

/-- `m[k] = v`: a new entry, or a new value for the key it has. -/
def insert (m : OrdMap κ ν) (k : κ) (v : ν) : OrdMap κ ν :=
  ⟨put k v m.entries, sorted_put m.sorted⟩

def erase (m : OrdMap κ ν) (k : κ) : OrdMap κ ν :=
  ⟨m.entries.filter (fun e => e.1 ≠ k), m.sorted.sublist List.filter_sublist⟩

/-- The entries with a key below `k`, in order. -/
def below (m : OrdMap κ ν) (k : κ) : List (κ × ν) := m.entries.takeWhile (fun e => e.1 < k)

/-- The entries with a value in `P`. -/
def filter (m : OrdMap κ ν) (P : ν → Prop) [DecidablePred P] : OrdMap κ ν :=
  ⟨m.entries.filter (fun e => P e.2), m.sorted.sublist List.filter_sublist⟩

def dropBelow (m : OrdMap κ ν) (k : κ) : OrdMap κ ν :=
  ⟨m.entries.dropWhile (fun e => e.1 < k), m.sorted.sublist (List.dropWhile_sublist _)⟩

-- ---------------------------------------------------------------------------
-- Lookup
-- ---------------------------------------------------------------------------

theorem mem_of_lookup {es : List (κ × ν)} (h : lookup k es = some v) : (k, v) ∈ es := by
  induction es with
  | nil => simp [lookup] at h
  | cons hd tl ih =>
    obtain ⟨k', v'⟩ := hd
    rw [lookup] at h
    split at h
    · rename_i hk
      cases h
      simp [hk]
    · exact List.mem_cons_of_mem _ (ih h)

theorem lookup_of_mem {es : List (κ × ν)} (hs : es.Pairwise (fun a b => a.1 < b.1))
    (h : (k, v) ∈ es) : lookup k es = some v := by
  induction es with
  | nil => simp at h
  | cons hd tl ih =>
    obtain ⟨k', v'⟩ := hd
    obtain ⟨hlt, htl⟩ := List.pairwise_cons.mp hs
    rw [lookup]
    rcases List.mem_cons.mp h with h | h
    · cases h
      exact if_pos rfl
    · have hne : k ≠ k' := ne_of_gt (hlt _ h)
      rw [if_neg hne]
      exact ih htl h

theorem find?_eq_some {m : OrdMap κ ν} : m.find? k = some v ↔ (k, v) ∈ m.entries :=
  ⟨mem_of_lookup, lookup_of_mem m.sorted⟩

theorem find?_eq_none {m : OrdMap κ ν} : m.find? k = none ↔ ∀ v, (k, v) ∉ m.entries := by
  constructor
  · intro h v hv
    rw [find?_eq_some.mpr hv] at h
    cases h
  · intro h
    cases hf : m.find? k with
    | none => rfl
    | some v => exact absurd (find?_eq_some.mp hf) (h v)

@[simp] theorem find?_empty : (empty : OrdMap κ ν).find? k = none := rfl

@[simp] theorem size_empty : (empty : OrdMap κ ν).size = 0 := rfl

theorem lookup_put (es : List (κ × ν)) (k k' : κ) (v : ν) :
    lookup k' (put k v es) = if k' = k then some v else lookup k' es := by
  induction es with
  | nil => rfl
  | cons hd tl ih =>
    obtain ⟨k₀, v₀⟩ := hd
    rw [put]
    split
    · rfl
    · split
      · rename_i hk
        subst hk
        simp only [lookup]
        split <;> rfl
      · rename_i hne
        simp only [lookup, ih]
        split
        · rename_i hk
          subst hk
          exact (if_neg (Ne.symm hne)).symm
        · rfl

theorem find?_insert (m : OrdMap κ ν) (k k' : κ) (v : ν) :
    (m.insert k v).find? k' = if k' = k then some v else m.find? k' :=
  lookup_put m.entries k k' v

@[simp] theorem find?_insert_self (m : OrdMap κ ν) (k : κ) (v : ν) :
    (m.insert k v).find? k = some v := by
  rw [find?_insert, if_pos rfl]

theorem find?_erase (m : OrdMap κ ν) (k k' : κ) :
    (m.erase k).find? k' = if k' = k then none else m.find? k' := by
  split
  · rename_i hk
    subst hk
    exact find?_eq_none.mpr fun v hv => by simp [erase] at hv
  · rename_i hne
    refine Option.ext fun v => ?_
    rw [find?_eq_some, find?_eq_some]
    simp [erase, hne]

-- ---------------------------------------------------------------------------
-- Size
-- ---------------------------------------------------------------------------

theorem length_put (es : List (κ × ν)) (hs : es.Pairwise (fun a b => a.1 < b.1)) :
    (put k v es).length = if (lookup k es).isSome then es.length else es.length + 1 := by
  induction es with
  | nil => rfl
  | cons hd tl ih =>
    obtain ⟨k', v'⟩ := hd
    obtain ⟨hlt, htl⟩ := List.pairwise_cons.mp hs
    rw [put]
    split
    · rename_i hk
      have hnone : lookup k ((k', v') :: tl) = none := by
        refine Option.eq_none_iff_forall_ne_some.mpr fun v hv => ?_
        rcases List.mem_cons.mp (mem_of_lookup hv) with h | h
        · cases h
          exact lt_irrefl _ hk
        · exact lt_irrefl _ (lt_trans hk (hlt _ h))
      simp [hnone]
    · split
      · rename_i hk
        simp [lookup, hk]
      · rename_i hne
        simp only [lookup, if_neg hne, List.length_cons, ih htl]
        split <;> rfl

theorem size_insert_new {m : OrdMap κ ν} (h : m.find? k = none) :
    (m.insert k v).size = m.size + 1 := by
  have hl : lookup k m.entries = none := h
  show (put k v m.entries).length = m.entries.length + 1
  rw [length_put m.entries m.sorted, hl]
  rfl

theorem length_filter_ne {es : List (κ × ν)} (hs : es.Pairwise (fun a b => a.1 < b.1))
    (hm : (k, v) ∈ es) : (es.filter (fun e => e.1 ≠ k)).length + 1 = es.length := by
  induction es with
  | nil => simp at hm
  | cons hd tl ih =>
    obtain ⟨hlt, htl⟩ := List.pairwise_cons.mp hs
    rcases List.mem_cons.mp hm with rfl | hm
    · have hkeep : tl.filter (fun e => e.1 ≠ k) = tl :=
        List.filter_eq_self.mpr fun e he => by simpa using ne_of_gt (hlt e he)
      rw [List.filter_cons_of_neg (by simp), hkeep, List.length_cons]
    · have hne : hd.1 ≠ k := ne_of_lt (hlt _ hm)
      rw [List.filter_cons_of_pos (by simpa using hne), List.length_cons, List.length_cons,
        ih htl hm]

theorem size_erase {m : OrdMap κ ν} (h : m.find? k = some v) :
    (m.erase k).size + 1 = m.size :=
  length_filter_ne m.sorted (find?_eq_some.mp h)

/-- How many entries `erase` took out: the count `std::map::erase` returns. -/
def count (m : OrdMap κ ν) (k : κ) : Nat := if (m.find? k).isSome then 1 else 0

theorem count_eq_one {m : OrdMap κ ν} (h : m.find? k = some v) : m.count k = 1 := by
  simp [count, h]

-- ---------------------------------------------------------------------------
-- Order
-- ---------------------------------------------------------------------------

theorem find?_first? {m : OrdMap κ ν} (h : m.first? = some e) : m.find? e.1 = some e.2 :=
  find?_eq_some.mpr (List.mem_of_head? h)

theorem first?_le {m : OrdMap κ ν} (h : m.first? = some e) (hm : m.find? k = some v) :
    e.1 ≤ k := by
  have hs := m.sorted
  have he := find?_eq_some.mp hm
  unfold first? at h
  cases hes : m.entries with
  | nil => simp [hes] at h
  | cons hd tl =>
    rw [hes] at h he hs
    cases h
    rcases List.mem_cons.mp he with he | he
    · cases he
      exact le_refl _
    · exact le_of_lt ((List.pairwise_cons.mp hs).1 _ he)

theorem find?_of_first?_none {m : OrdMap κ ν} (h : m.first? = none) : m.find? k = none := by
  have hnil : m.entries = [] := List.head?_eq_none_iff.mp h
  rw [find?, hnil]
  rfl

theorem below_append_dropBelow (m : OrdMap κ ν) (k : κ) :
    m.below k ++ (m.dropBelow k).entries = m.entries :=
  List.takeWhile_append_dropWhile

theorem below_lt {m : OrdMap κ ν} (h : e ∈ m.below k) : e.1 < k := by
  simpa using List.mem_takeWhile_imp h

theorem dropBelow_ge {m : OrdMap κ ν} (h : e ∈ (m.dropBelow k).entries) : k ≤ e.1 := by
  have hs := (m.dropBelow k).sorted
  cases hd : (m.dropBelow k).entries with
  | nil => simp [hd] at h
  | cons hd' tl =>
    rw [hd] at h hs
    have hhead : k ≤ hd'.1 := by
      have hne : m.entries.dropWhile (fun e => e.1 < k) ≠ [] := by
        intro hnil
        have : (m.dropBelow k).entries = [] := hnil
        simp [hd] at this
      have hh := List.head_dropWhile_not (fun e : κ × ν => decide (e.1 < k)) hne
      have heq : (m.entries.dropWhile (fun e => e.1 < k)).head hne = hd' := by
        have : m.entries.dropWhile (fun e => e.1 < k) = hd' :: tl := hd
        simp [this]
      rw [heq] at hh
      simpa using hh
    rcases List.mem_cons.mp h with rfl | h
    · exact hhead
    · exact le_trans hhead (le_of_lt ((List.pairwise_cons.mp hs).1 _ h))

theorem mem_below {m : OrdMap κ ν} : (k, v) ∈ m.below b ↔ m.find? k = some v ∧ k < b := by
  rw [find?_eq_some, ← below_append_dropBelow m b, List.mem_append]
  constructor
  · intro h
    exact ⟨.inl h, below_lt h⟩
  · rintro ⟨h | h, hlt⟩
    · exact h
    · exact absurd hlt (not_lt.mpr (dropBelow_ge h))

theorem find?_dropBelow (m : OrdMap κ ν) (b k : κ) :
    (m.dropBelow b).find? k = if k < b then none else m.find? k := by
  refine Option.ext fun v => ?_
  rw [find?_eq_some]
  split
  · rename_i hlt
    exact ⟨fun h => absurd hlt (not_lt.mpr (dropBelow_ge h)), fun h => by cases h⟩
  · rename_i hge
    rw [find?_eq_some, ← below_append_dropBelow m b, List.mem_append]
    exact ⟨.inr, fun h => h.resolve_left fun hb => hge (below_lt hb)⟩

theorem size_below_add (m : OrdMap κ ν) (k : κ) :
    (m.below k).length + (m.dropBelow k).size = m.size := by
  unfold size
  rw [← List.length_append, below_append_dropBelow]

theorem below_eq_filter (m : OrdMap κ ν) (k : κ) :
    m.below k = m.entries.filter (fun e => e.1 < k) := by
  have hdrop : (m.dropBelow k).entries.filter (fun e => e.1 < k) = [] :=
    List.filter_eq_nil_iff.mpr fun e he => by simpa using dropBelow_ge he
  have hbelow : (m.below k).filter (fun e => e.1 < k) = m.below k :=
    List.filter_eq_self.mpr fun e he => by simpa using below_lt he
  calc m.below k = (m.below k ++ (m.dropBelow k).entries).filter (fun e => e.1 < k) := by
        rw [List.filter_append, hbelow, hdrop, List.append_nil]
    _ = m.entries.filter (fun e => e.1 < k) := by rw [below_append_dropBelow]

theorem below_filter (m : OrdMap κ ν) (P : ν → Prop) [DecidablePred P] (k : κ) :
    (m.filter P).below k = (m.below k).filter (fun e => P e.2) := by
  rw [below_eq_filter, below_eq_filter, filter, List.filter_comm]

theorem find?_filter {m : OrdMap κ ν} {P : ν → Prop} [DecidablePred P] :
    (m.filter P).find? k = some v ↔ m.find? k = some v ∧ P v := by
  rw [find?_eq_some, find?_eq_some, filter, List.mem_filter, decide_eq_true_iff]

theorem entries_ext {es es' : List (κ × ν)} (hs : es.Pairwise (fun a b => a.1 < b.1))
    (hs' : es'.Pairwise (fun a b => a.1 < b.1)) (h : ∀ e, e ∈ es ↔ e ∈ es') : es = es' := by
  have hnodup : ∀ {l : List (κ × ν)}, l.Pairwise (fun a b => a.1 < b.1) → l.Nodup :=
    fun hl => hl.imp fun {a b} hlt => ne_of_apply_ne Prod.fst hlt.ne
  have hanti : ∀ a b : κ × ν, a ∈ es → b ∈ es' → a.1 < b.1 → b.1 < a.1 → a = b :=
    fun a b _ _ hab hba => absurd hab (lt_asymm hba)
  exact ((List.perm_ext_iff_of_nodup (hnodup hs) (hnodup hs')).mpr h).eq_of_pairwise hanti hs hs'

/-- Maps that find the same are the same. -/
theorem ext_find? {m m' : OrdMap κ ν} (h : ∀ k v, m.find? k = some v ↔ m'.find? k = some v) :
    m = m' := by
  obtain ⟨es, hs⟩ := m
  obtain ⟨es', hs'⟩ := m'
  have heq : es = es' := entries_ext hs hs' fun e => by
    have hk := h e.1 e.2
    rwa [find?_eq_some, find?_eq_some] at hk
  cases heq
  rfl

-- ---------------------------------------------------------------------------
-- Maps as indexes
-- ---------------------------------------------------------------------------

/-- `m` finds the objects of `R` by their keys. -/
def Indexes (m : OrdMap κ ν) (R : ν → κ → Prop) : Prop := ∀ k v, m.find? k = some v ↔ R v k

variable {R R' : ν → κ → Prop} {m : OrdMap κ ν}

theorem Indexes.empty : (empty : OrdMap κ ν).Indexes (fun _ _ => False) := fun k v => by simp

theorem Indexes.congr (h : m.Indexes R) (hR : ∀ v k, R' v k ↔ R v k) : m.Indexes R' :=
  fun k v => (h k v).trans (hR v k).symm

theorem Indexes.fresh (h : m.Indexes R) (hk : ∀ v, ¬R v k) : m.find? k = none := by
  refine Option.eq_none_iff_forall_ne_some.mpr fun v hv => ?_
  exact hk v ((h k v).mp hv)

theorem Indexes.insert (h : m.Indexes R) (hk : ∀ v, ¬R v k) :
    (m.insert k v).Indexes (fun w k' => (w = v ∧ k' = k) ∨ R w k') := by
  intro k' w
  rw [find?_insert]
  split
  · rename_i heq
    subst heq
    simp [hk, eq_comm]
  · rename_i hne
    simp [hne, h k' w]

theorem Indexes.erase (h : m.Indexes R) : (m.erase k).Indexes (fun w k' => k' ≠ k ∧ R w k') := by
  intro k' w
  rw [find?_erase]
  split
  · rename_i heq
    simp [heq]
  · rename_i hne
    simp [hne, h k' w]

theorem Indexes.filter (h : m.Indexes R) (P : ν → Prop) [DecidablePred P] :
    (m.filter P).Indexes (fun w k => R w k ∧ P w) := fun k w => by
  rw [find?_filter, h k w]

/-- Two maps that index the same objects by the same keys. -/
theorem Indexes.unique {m' : OrdMap κ ν} (h : m.Indexes R) (h' : m'.Indexes R) : m = m' :=
  ext_find? fun k v => (h k v).trans (h' k v).symm

theorem Indexes.dropBelow (h : m.Indexes R) :
    (m.dropBelow b).Indexes (fun w k => ¬k < b ∧ R w k) := by
  intro k w
  rw [find?_dropBelow]
  split
  · rename_i hlt
    simp [hlt]
  · rename_i hge
    simp [hge, h k w]

theorem Indexes.mem_below (h : m.Indexes R) :
    v ∈ (m.below b).map Prod.snd ↔ ∃ k, R v k ∧ k < b := by
  constructor
  · intro hv
    obtain ⟨⟨k, w⟩, hm, rfl⟩ := List.mem_map.mp hv
    obtain ⟨hf, hlt⟩ := OrdMap.mem_below.mp hm
    exact ⟨k, (h k w).mp hf, hlt⟩
  · rintro ⟨k, hr, hlt⟩
    exact List.mem_map_of_mem (OrdMap.mem_below.mpr ⟨(h k v).mpr hr, hlt⟩)

/-- An object with one key is found once. -/
theorem Indexes.below_nodup (h : m.Indexes R) (hone : ∀ {v k k'}, R v k → R v k' → k = k') :
    ((m.below b).map Prod.snd).Nodup := by
  have hs := m.sorted.sublist (List.takeWhile_sublist (fun e => decide (e.1 < b)))
  refine List.pairwise_map.mpr (hs.imp_of_mem fun {x y} hx hy hlt heq => ?_)
  have hfx := (h x.1 x.2).mp (OrdMap.mem_below.mp hx).1
  have hfy := (h y.1 y.2).mp (OrdMap.mem_below.mp hy).1
  rw [← heq] at hfy
  exact ne_of_lt hlt (hone hfx hfy)

-- ---------------------------------------------------------------------------
-- Maps of maps
-- ---------------------------------------------------------------------------

section Nested

variable {ℓ : Type w} [LinearOrder ℓ]

def findIn? (m : OrdMap κ (OrdMap ℓ ν)) (k : κ) (l : ℓ) : Option ν := (m.find? k).bind (·.find? l)

/-- `m[k][l] = v`: the inner map is made when there is none. -/
def insertIn (m : OrdMap κ (OrdMap ℓ ν)) (k : κ) (l : ℓ) (v : ν) : OrdMap κ (OrdMap ℓ ν) :=
  m.insert k (((m.find? k).getD .empty).insert l v)

/-- All that is in the inner maps, in the order of both keys. -/
def entriesIn (m : OrdMap κ (OrdMap ℓ ν)) : List (κ × ℓ × ν) :=
  m.entries.flatMap fun e => e.2.entries.map fun f => (e.1, f)

theorem findIn?_insertIn (m : OrdMap κ (OrdMap ℓ ν)) (k k' : κ) (l l' : ℓ) (v : ν) :
    (m.insertIn k l v).findIn? k' l' = if k' = k ∧ l' = l then some v else m.findIn? k' l' := by
  rw [findIn?, insertIn, find?_insert]
  by_cases hk : k' = k
  · subst hk
    rw [if_pos rfl, Option.bind_some, find?_insert, findIn?]
    by_cases hl : l' = l
    · simp [hl]
    · rw [if_neg hl, if_neg (fun h => hl h.2)]
      cases m.find? k' with
      | none => rfl
      | some inner => rfl
  · rw [if_neg hk, if_neg (fun h => hk h.1), findIn?]

theorem mem_entriesIn {m : OrdMap κ (OrdMap ℓ ν)} {k : κ} {l : ℓ} {v : ν} :
    (k, l, v) ∈ m.entriesIn ↔ m.findIn? k l = some v := by
  simp only [entriesIn, List.mem_flatMap, List.mem_map, Prod.mk.injEq, findIn?,
    Option.bind_eq_some_iff, find?_eq_some]
  constructor
  · rintro ⟨⟨k', inner⟩, hm, f, hf, rfl, rfl⟩
    exact ⟨inner, hm, hf⟩
  · rintro ⟨inner, hm, hf⟩
    exact ⟨(k, inner), hm, (l, v), hf, rfl, rfl⟩

end Nested

end OrdMap

/-- A set is a map to `Unit`. -/
abbrev OrdSet (α : Type u) [LinearOrder α] := OrdMap α Unit

namespace OrdSet

variable {α : Type u} [LinearOrder α]

instance : Membership α (OrdSet α) := ⟨fun s a => OrdMap.find? s a = some ()⟩

theorem mem_iff {s : OrdSet α} : a ∈ s ↔ OrdMap.find? s a = some () := Iff.rfl

instance (s : OrdSet α) (a : α) : Decidable (a ∈ s) :=
  inferInstanceAs (Decidable (OrdMap.find? s a = some ()))

theorem not_mem_iff {s : OrdSet α} : a ∉ s ↔ OrdMap.find? s a = none := by
  rw [mem_iff]
  cases h : OrdMap.find? s a with
  | none => simp
  | some u => simp

def add (s : OrdSet α) (a : α) : OrdSet α := OrdMap.insert s a ()

@[simp] theorem not_mem_empty : a ∉ (OrdMap.empty : OrdSet α) := by
  rw [not_mem_iff]
  rfl

@[simp] theorem mem_add {s : OrdSet α} : a ∈ s.add b ↔ a = b ∨ a ∈ s := by
  rw [mem_iff, add, OrdMap.find?_insert]
  split
  · rename_i h
    simp [h]
  · rename_i h
    simp [h, mem_iff]

@[simp] theorem mem_erase {s : OrdSet α} : a ∈ (OrdMap.erase s b : OrdSet α) ↔ a ≠ b ∧ a ∈ s := by
  rw [mem_iff, OrdMap.find?_erase]
  split
  · rename_i h
    simp [h]
  · rename_i h
    simp [h, mem_iff]

def below (s : OrdSet α) (b : α) : List α := (OrdMap.below s b).map Prod.fst

end OrdSet

/-- Bytes by their unsigned values, so that lists of them have the order of
`std::string`. -/
instance linearOrderUInt8 : LinearOrder UInt8 := LinearOrder.lift' UInt8.toNat fun _ _ h => UInt8.toNat_inj.mp h

end Lib
