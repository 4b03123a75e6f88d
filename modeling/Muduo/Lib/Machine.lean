import Mathlib.Algebra.GroupWithZero.Nat
import Mathlib.Tactic.Common

/-!
# Machines whose steps may fault

A machine is deterministic: the label of a step carries every choice of its
environment, and `enabled` says which labels the environment may offer. A step
may fault instead of giving a state; a failed assertion is such a fault.

`Run.keeps` is the run rule for invariants and `Run.safe` the one for
invariants that also rule faults out. `holds_iff_meets` compares a property of
every state of a run with a condition on each of its steps.
-/

namespace Lib

-- ---------------------------------------------------------------------------
-- Checks that fault
-- ---------------------------------------------------------------------------

/-- `assert(p)`: faults with `e` when `p` is false. -/
def ensure (p : Prop) [Decidable p] (e : ε) : Except ε Unit :=
  if p then .ok () else .error e

theorem ensure_true {p : Prop} [Decidable p] (h : p) : ensure p e = .ok () := if_pos h

theorem ensure_false {p : Prop} [Decidable p] (h : ¬p) : ensure p e = .error e := if_neg h

theorem ensure_ok {p : Prop} [Decidable p] : ensure p e = .ok u ↔ p := by
  by_cases h : p <;> simp [ensure, h]

@[simp] theorem ok_bind (a : α) (f : α → Except ε β) : (Except.ok a >>= f) = f a := rfl

@[simp] theorem error_bind (e : ε) (f : α → Except ε β) :
    (Except.error e >>= f) = .error e := rfl

theorem bind_ok {x : Except ε α} {f : α → Except ε β} :
    x >>= f = .ok b ↔ ∃ a, x = .ok a ∧ f a = .ok b := by
  cases x <;> simp

theorem pure_ok : (pure a : Except ε α) = .ok b ↔ a = b := by
  simp [pure, Except.pure]

theorem ok_mapError (x : α) (f : ε → ε') : (Except.ok x : Except ε α).mapError f = .ok x := rfl

theorem mapError_ok {x : Except ε α} {f : ε → ε'} : x.mapError f = .ok a ↔ x = .ok a := by
  cases x <;> simp [Except.mapError]

theorem ensure_bind {p : Prop} [Decidable p] (h : p) (f : Unit → Except ε α) :
    (ensure p e >>= f) = f () := by
  rw [ensure_true h, ok_bind]

instance decidableEqError [DecidableEq ε] (x : Except ε α) (e : ε) : Decidable (x = .error e) :=
  match x with
  | .ok _ => isFalse nofun
  | .error e' => decidable_of_iff (e' = e) (by simp)

instance decidableExistsOk (x : Except ε α) (P : α → Prop) [DecidablePred P] :
    Decidable (∃ a, x = .ok a ∧ P a) :=
  match x with
  | .ok a => decidable_of_iff (P a) (by simp)
  | .error _ => isFalse (by simp)

/-- Gives a state with `I` when `C` holds, and faults when it does not. -/
structure Decides (x : Except ε σ) (C : Prop) (I : σ → Prop) : Prop where
  ok : C → ∃ t, x = .ok t ∧ I t
  fault : ¬C → ∀ t, x ≠ .ok t

theorem Decides.of_ok {I : σ → Prop} {x : Except ε σ} (hx : x = .ok t) (hc : C) (hi : I t) :
    Decides x C I :=
  ⟨fun _ => ⟨t, hx, hi⟩, fun hn => absurd hc hn⟩

theorem Decides.result {I : σ → Prop} {x : Except ε σ} (h : Decides x C I) (hx : x = .ok t) :
    I t := by
  obtain ⟨u, hu, hi⟩ := h.ok (Classical.not_not.mp fun hn => h.fault hn t hx)
  rw [hx] at hu
  cases hu
  exact hi

theorem Decides.congr {I : σ → Prop} {x : Except ε σ} (h : Decides x C I) (hc : C' ↔ C) :
    Decides x C' I :=
  ⟨fun hc' => h.ok (hc.mp hc'), fun hn => h.fault fun hc' => hn (hc.mpr hc')⟩

theorem Decides.ensure {p : Prop} [Decidable p] {I : σ → Prop} {f : Unit → Except ε σ}
    (h : p → Decides (f ()) C I) : Decides (ensure p e >>= f) (p ∧ C) I := by
  by_cases hp : p
  · rw [ensure_bind hp]
    exact (h hp).congr (and_iff_right hp)
  · rw [ensure_false hp, error_bind]
    exact ⟨fun hc => absurd hc.1 hp, fun _ _ => nofun⟩

-- ---------------------------------------------------------------------------
-- Runs
-- ---------------------------------------------------------------------------

structure Machine (σ : Type u) (α : Type v) (ε : Type w) where
  enabled : σ → α → Prop
  step : σ → α → Except ε σ

namespace Machine

variable {M : Machine σ α ε}

inductive Run (M : Machine σ α ε) : σ → List α → σ → Prop
  | nil : Run M s [] s
  | cons : M.enabled s a → M.step s a = .ok t → Run M t as u → Run M s (a :: as) u

/-- Every label the environment may offer is taken without a fault. -/
def NoFault (M : Machine σ α ε) (s : σ) : Prop :=
  ∀ a, M.enabled s a → ∃ t, M.step s a = .ok t

/-- `P` is kept by every step that does not fault. -/
def Keeps (M : Machine σ α ε) (P : σ → Prop) : Prop :=
  ∀ {s a t}, P s → M.enabled s a → M.step s a = .ok t → P t

/-- No enabled step faults in a state with `P`, and every step keeps `P`. -/
def Safe (M : Machine σ α ε) (P : σ → Prop) : Prop :=
  ∀ {s a}, P s → M.enabled s a → ∃ t, M.step s a = .ok t ∧ P t

theorem Safe.keeps (h : M.Safe P) : M.Keeps P := by
  intro s a t hs ha ht
  obtain ⟨t', ht', hp⟩ := h hs ha
  rw [ht] at ht'
  cases ht'
  exact hp

theorem Safe.noFault (h : M.Safe P) (hs : P s) : M.NoFault s := fun _ ha =>
  (h hs ha).imp fun _ ht => ht.1

theorem Run.keeps (hk : M.Keeps P) (h : M.Run s as t) (hs : P s) : P t := by
  induction h with
  | nil => exact hs
  | cons ha ht _ ih => exact ih (hk hs ha ht)

theorem Run.safe (hk : M.Safe P) (h : M.Run s as t) (hs : P s) : P t ∧ M.NoFault t :=
  have ht := h.keeps hk.keeps hs
  ⟨ht, hk.noFault ht⟩

theorem run_append : M.Run s (as ++ bs) u ↔ ∃ t, M.Run s as t ∧ M.Run t bs u := by
  induction as generalizing s with
  | nil =>
    refine ⟨fun h => ⟨s, .nil, h⟩, ?_⟩
    rintro ⟨t, hnil, h⟩
    cases hnil
    exact h
  | cons a as ih =>
    constructor
    · intro h
      cases h with
      | cons ha hs hrest =>
        obtain ⟨t, hfirst, hlast⟩ := ih.mp hrest
        exact ⟨t, .cons ha hs hfirst, hlast⟩
    · rintro ⟨t, hfirst, hlast⟩
      cases hfirst with
      | cons ha hs hrest => exact .cons ha hs (ih.mpr ⟨t, hrest, hlast⟩)

/-- The steps that lower a measure are no more than what the steps add to it. -/
theorem Run.count_le_sum {I : σ → Prop} {μ : σ → Nat} {lowers : α → Bool} {gain : α → Nat}
    (hk : M.Keeps I)
    (hm : ∀ {s a t}, I s → M.enabled s a → M.step s a = .ok t →
      μ t + (if lowers a then 1 else 0) ≤ μ s + gain a)
    (h : M.Run s as t) (hi : I s) : as.countP lowers + μ t ≤ μ s + (as.map gain).sum := by
  induction h with
  | nil => simp
  | cons ha ht _ ih =>
    have hstep := hm hi ha ht
    have hrest := ih (hk hi ha ht)
    rw [List.countP_cons, List.map_cons, List.sum_cons]
    omega

/-- The steps that lower a measure are not many more than those that raise it. -/
theorem Run.count_le_add {I : σ → Prop} {μ : σ → Nat} {lowers raises : α → Bool} (hk : M.Keeps I)
    (hm : ∀ {s a t}, I s → M.enabled s a → M.step s a = .ok t →
      μ t + (if lowers a then 1 else 0) ≤ μ s + if raises a then 1 else 0)
    (h : M.Run s as t) (hi : I s) : as.countP lowers + μ t ≤ μ s + as.countP raises := by
  have hcount : (as.map fun a => if raises a then 1 else 0).sum = as.countP raises := by
    clear h
    induction as with
    | nil => rfl
    | cons a as ih => rw [List.map_cons, List.sum_cons, ih, List.countP_cons, Nat.add_comm]
  rw [← hcount]
  exact h.count_le_sum hk hm hi

theorem Run.count_le {I : σ → Prop} {μ : σ → Nat} {lowers : α → Bool} (hk : M.Keeps I)
    (hm : ∀ {s a t}, I s → M.enabled s a → M.step s a = .ok t →
      μ t + (if lowers a then 1 else 0) ≤ μ s)
    (h : M.Run s as t) (hi : I s) : as.countP lowers + μ t ≤ μ s := by
  have hle : as.countP lowers + μ t ≤ μ s + as.countP fun _ => false :=
    h.count_le_add hk (fun hs ha ht => by simpa using hm hs ha ht) hi
  simpa using hle

/-- An abstract machine follows every run of `M` when each step keeps the
relation between the two states. -/
theorem Run.follow {R : σ → τ → Prop} {next : τ → α → τ}
    (hk : ∀ {s t a s'}, R s t → M.enabled s a → M.step s a = .ok s' → R s' (next t a))
    (h : M.Run s as s') (hr : R s t) : R s' (as.foldl next t) := by
  induction h generalizing t with
  | nil => exact hr
  | cons ha ht _ ih => exact ih (hk hr ha ht)

/-- When another machine matches each step of `M` and what is seen of it, it matches
every run. -/
theorem Run.traces {N : Machine τ β δ} {R : σ → τ → Prop} {f : α → Option γ} {g : β → Option γ}
    (hsim : ∀ {s t a s'}, R s t → M.enabled s a → M.step s a = .ok s' →
      ∃ bs t', N.Run t bs t' ∧ bs.filterMap g = (f a).toList ∧ R s' t')
    (h : M.Run s as s') (hr : R s t) :
    ∃ bs t', N.Run t bs t' ∧ bs.filterMap g = as.filterMap f ∧ R s' t' := by
  induction h generalizing t with
  | nil => exact ⟨[], t, .nil, rfl, hr⟩
  | @cons s a s₁ as s' ha hs _ ih =>
    obtain ⟨bs, t₁, hfirst, hseen, hr₁⟩ := hsim hr ha hs
    obtain ⟨cs, t₂, hrest, hseen', hr₂⟩ := ih hr₁
    refine ⟨bs ++ cs, t₂, run_append.mpr ⟨t₁, hfirst, hrest⟩, ?_, hr₂⟩
    rw [List.filterMap_append, hseen, hseen']
    cases hf : f a <;> simp [hf]

theorem Run.simulates {N : Machine τ β δ} {R : σ → τ → Prop}
    (hsim : ∀ {s t a s'}, R s t → M.enabled s a → M.step s a = .ok s' →
      ∃ bs t', N.Run t bs t' ∧ R s' t')
    (h : M.Run s as s') (hr : R s t) : ∃ bs t', N.Run t bs t' ∧ R s' t' := by
  have hseen := h.traces (f := fun _ => none) (g := fun _ => (none : Option Unit))
    (fun hr ha hs => by
      obtain ⟨bs, t', hrun, hr'⟩ := hsim hr ha hs
      exact ⟨bs, t', hrun, by simp, hr'⟩) hr
  obtain ⟨bs, t', hrun, -, hr'⟩ := hseen
  exact ⟨bs, t', hrun, hr'⟩

/-- Takes the labels one after the other, as far as they are enabled and do not
fault. -/
def exec (M : Machine σ α ε) [∀ s a, Decidable (M.enabled s a)] : σ → List α → Option σ
  | s, [] => some s
  | s, a :: as =>
    if M.enabled s a then
      match M.step s a with
      | .ok t => M.exec t as
      | .error _ => none
    else none

theorem run_of_exec [∀ s a, Decidable (M.enabled s a)] (h : M.exec s as = some t) :
    M.Run s as t := by
  induction as generalizing s with
  | nil =>
    cases h
    exact .nil
  | cons a as ih =>
    unfold exec at h
    split at h
    · rename_i ha
      split at h
      · rename_i hm
        exact .cons ha hm (ih h)
      · cases h
    · cases h

/-- A run found by taking its steps. -/
theorem exists_run [∀ s a, Decidable (M.enabled s a)] {P : σ → Prop}
    (h : ∃ t ∈ M.exec s as, P t) : ∃ t, M.Run s as t ∧ P t :=
  h.imp fun _ ht => ⟨run_of_exec ht.1, ht.2⟩

def restrict (M : Machine σ α ε) (C : σ → α → Prop) : Machine σ α ε :=
  { M with enabled := fun s a => M.enabled s a ∧ C s a }

theorem Run.of_restrict {C : σ → α → Prop} (h : (M.restrict C).Run s as t) : M.Run s as t := by
  induction h with
  | nil => exact .nil
  | cons ha ht _ ih => exact .cons ha.1 ht ih

-- ---------------------------------------------------------------------------
-- Properties of every state, conditions on every step
-- ---------------------------------------------------------------------------

/-- `P` holds in every state the labels lead through. -/
def Holds (M : Machine σ α ε) (P : σ → Prop) : σ → List α → Prop
  | s, [] => P s
  | s, a :: as => P s ∧ ∀ t, M.step s a = .ok t → M.Holds P t as

/-- Every step the labels take meets `C` in the state before it. -/
def Meets (M : Machine σ α ε) (C : σ → α → Prop) : σ → List α → Prop
  | _, [] => True
  | s, a :: as => C s a ∧ ∀ t, M.step s a = .ok t → M.Meets C t as

theorem meets_cons {C : σ → α → Prop} (h : M.step s a = .ok t) :
    M.Meets C s (a :: as) ↔ C s a ∧ M.Meets C t as := by
  refine and_congr_right fun _ => ⟨fun hall => hall t h, fun ht u hu => ?_⟩
  rw [h] at hu
  cases hu
  exact ht

theorem meets_cons_error {C : σ → α → Prop} (h : M.step s a = .error e) :
    M.Meets C s (a :: as) ↔ C s a := by
  refine and_iff_left fun t ht => ?_
  rw [h] at ht
  cases ht

instance decidableMeets (C : σ → α → Prop) [∀ s a, Decidable (C s a)] :
    ∀ s as, Decidable (M.Meets C s as)
  | _, [] => isTrue trivial
  | s, a :: as =>
    match h : M.step s a with
    | .ok t =>
      have := decidableMeets C t as
      decidable_of_iff (C s a ∧ M.Meets C t as) (meets_cons h).symm
    | .error _ => decidable_of_iff (C s a) (meets_cons_error h).symm

theorem Run.meets_snoc {C : σ → α → Prop} (h : M.Run s as t) :
    M.Meets C s (as ++ [a]) ↔ M.Meets C s as ∧ C t a := by
  induction h with
  | nil => exact ⟨fun h => ⟨trivial, h.1⟩, fun h => ⟨h.2, fun _ _ => trivial⟩⟩
  | cons _ ht _ ih => rw [List.cons_append, meets_cons ht, meets_cons ht, ih, and_assoc]

theorem meets_of_mem {C : α → Prop} (h : ∀ a ∈ as, C a) : M.Meets (fun _ => C) s as := by
  induction as generalizing s with
  | nil => trivial
  | cons a as ih =>
    obtain ⟨ha, has⟩ := List.forall_mem_cons.mp h
    exact ⟨ha, fun t _ => ih has⟩

theorem Run.meets {I : σ → Prop} {C : σ → α → Prop} (hk : M.Keeps I)
    (hc : ∀ {s a}, I s → M.enabled s a → C s a) (h : M.Run s as t) (hi : I s) :
    M.Meets C s as := by
  induction h with
  | nil => trivial
  | cons ha ht _ ih => exact (meets_cons ht).mpr ⟨hc hi ha, ih (hk hi ha ht)⟩

theorem Run.restrict {C : σ → α → Prop} (h : M.Run s as t) (hm : M.Meets C s as) :
    (M.restrict C).Run s as t := by
  induction h with
  | nil => exact .nil
  | cons ha ht _ ih => exact .cons ⟨ha, hm.1⟩ ht (ih (hm.2 _ ht))

theorem Holds.here {P : σ → Prop} (h : M.Holds P s as) : P s := by
  cases as with
  | nil => exact h
  | cons _ _ => exact h.1

theorem Holds.imp {P Q : σ → Prop} (hpq : ∀ {s}, P s → Q s) (h : M.Holds P s as) :
    M.Holds Q s as := by
  induction as generalizing s with
  | nil => exact hpq h
  | cons a as ih => exact ⟨hpq h.1, fun t ht => ih (h.2 t ht)⟩

/-- When the steps with `C` are those that do not fault, the labels that lead
through a run are those that meet `C` all along. -/
theorem run_iff_meets {I : σ → Prop} {C : σ → α → Prop}
    (hd : ∀ {s a}, I s → M.enabled s a → Decides (M.step s a) (C s a) I)
    (ho : M.Meets M.enabled s as) (hi : I s) :
    ((∃ t, M.Run s as t) ↔ M.Meets C s as) ∧ M.Holds I s as := by
  induction as generalizing s with
  | nil => exact ⟨⟨fun _ => trivial, fun _ => ⟨s, .nil⟩⟩, hi⟩
  | cons a as ih =>
    obtain ⟨ha, hrest⟩ := ho
    have hdec := hd hi ha
    by_cases hc : C s a
    · obtain ⟨t, ht, hit⟩ := hdec.ok hc
      obtain ⟨hiff, hholds⟩ := ih (hrest t ht) hit
      refine ⟨?_, hi, fun u hu => ?_⟩
      · rw [meets_cons ht, ← hiff]
        constructor
        · rintro ⟨u, hrun⟩
          cases hrun with
          | cons _ ht' hrun =>
            rw [ht] at ht'
            cases ht'
            exact ⟨hc, u, hrun⟩
        · rintro ⟨-, u, hrun⟩
          exact ⟨u, .cons ha ht hrun⟩
      · rw [ht] at hu
        cases hu
        exact hholds
    · refine ⟨iff_of_false ?_ fun hm => hc hm.1, hi, fun t ht => absurd ht (hdec.fault hc t)⟩
      rintro ⟨u, hrun⟩
      cases hrun with
      | cons _ ht _ => exact hdec.fault hc _ ht

/-- When the steps with `C` keep `I`, which has `P`, and those without it break
`P`, `P` holds all along a run exactly if every step of the run meets `C`. -/
theorem Run.holds_iff_meets_of {I P : σ → Prop} {C : σ → α → Prop} (hp : ∀ {s}, I s → P s)
    (hk : ∀ {s a t}, I s → M.enabled s a → M.step s a = .ok t → C s a → I t)
    (hb : ∀ {s a t}, I s → M.enabled s a → M.step s a = .ok t → P t → C s a)
    (h : M.Run s as t) (hi : I s) : M.Holds P s as ↔ M.Meets C s as := by
  induction h with
  | nil => exact ⟨fun _ => trivial, fun _ => hp hi⟩
  | @cons s a m as u ha hm _ ih =>
    constructor
    · rintro ⟨-, hall⟩
      have hmid := hall m hm
      have hc := hb hi ha hm hmid.here
      refine ⟨hc, fun t ht => ?_⟩
      rw [hm] at ht
      cases ht
      exact (ih (hk hi ha hm hc)).mp hmid
    · rintro ⟨hc, hall⟩
      refine ⟨hp hi, fun t ht => ?_⟩
      rw [hm] at ht
      cases ht
      exact (ih (hk hi ha hm hc)).mpr (hall m hm)

/-- When a step keeps `P` exactly if it meets `C`, `P` holds all along a run
exactly if every step of the run meets `C`. -/
theorem Run.holds_iff_meets {I P : σ → Prop} {C : σ → α → Prop} (hk : M.Keeps I)
    (hc : ∀ {s a t}, I s → P s → M.enabled s a → M.step s a = .ok t → (P t ↔ C s a))
    (h : M.Run s as t) (hi : I s) (hp : P s) : M.Holds P s as ↔ M.Meets C s as :=
  h.holds_iff_meets_of (I := fun s => I s ∧ P s) And.right
    (fun hs ha ht hca => ⟨hk hs.1 ha ht, (hc hs.1 hs.2 ha ht).mpr hca⟩)
    (fun hs ha ht hpt => (hc hs.1 hs.2 ha ht).mp hpt) ⟨hi, hp⟩

end Machine

end Lib
