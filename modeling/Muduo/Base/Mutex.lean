import Muduo.Lib.Machine
import Mathlib.Logic.Function.Basic

/-!
# MutexLock

Any number of threads, each named by its `tid`. `lock` and `unlock` are two steps
each, as `holder_` is written while the mutex is held. `Condition::wait` gives the
mutex up and takes it back past `holder_`, so a thread that comes back from it may
be told that it has not locked the mutex; it is never told so wrongly otherwise.
-/

namespace Muduo

open Lib Function

namespace MutexLock

inductive Pc
  | out
  | locking
  | inside
  | waiting
  | unlocking
  deriving DecidableEq

inductive Fault
  | holder
  | assertLocked
  deriving DecidableEq

end MutexLock

structure MutexLock where
  holder : Nat := 0
  /-- The thread that has the `pthread_mutex_t`. -/
  owner : Option Nat := none
  thread : Nat → MutexLock.Pc := fun _ => .out

namespace MutexLock

-- ---------------------------------------------------------------------------
-- The code
-- ---------------------------------------------------------------------------

def isLockedByThisThread (m : MutexLock) (tid : Nat) : Prop := m.holder = tid

instance (m : MutexLock) (tid : Nat) : Decidable (m.isLockedByThisThread tid) :=
  inferInstanceAs (Decidable (_ = _))

def assertLocked (m : MutexLock) (tid : Nat) : Except Fault Unit :=
  ensure (m.isLockedByThisThread tid) .assertLocked

def destroy (m : MutexLock) : Except Fault Unit := ensure (m.holder = 0) .holder

def setThread (m : MutexLock) (i : Nat) (pc : Pc) : MutexLock :=
  { m with thread := update m.thread i pc }

inductive Label
  | lock (i : Nat)
  /-- `holder_ = CurrentThread::tid()` -/
  | assign (i : Nat)
  /-- `pthread_cond_wait` gives the mutex up. -/
  | wait (i : Nat)
  /-- It has the mutex again, asked for or not. -/
  | wake (i : Nat)
  | unassign (i : Nat)
  | unlock (i : Nat)
  deriving DecidableEq

/-- No thread has the `tid` zero, and the mutex has one owner at a time. -/
def Enabled (m : MutexLock) : Label → Prop
  | .lock i => i ≠ 0 ∧ m.thread i = .out ∧ m.owner = none
  | .assign i => m.thread i = .locking
  | .wait i => m.thread i = .inside
  | .wake i => m.thread i = .waiting ∧ m.owner = none
  | .unassign i => m.thread i = .inside
  | .unlock i => m.thread i = .unlocking

instance (m : MutexLock) : DecidablePred m.Enabled := fun a => by
  unfold Enabled
  cases a <;> infer_instance

def next (m : MutexLock) : Label → MutexLock
  | .lock i => { m.setThread i .locking with owner := some i }
  | .assign i => { m.setThread i .inside with holder := i }
  | .wait i => { m.setThread i .waiting with owner := none }
  | .wake i => { m.setThread i .inside with owner := some i }
  | .unassign i => { m.setThread i .unlocking with holder := 0 }
  | .unlock i => { m.setThread i .out with owner := none }

def machine : Machine MutexLock Label Fault where
  enabled := Enabled
  step m a := .ok (m.next a)

instance (m : MutexLock) : DecidablePred (machine.enabled m) := fun a =>
  inferInstanceAs (Decidable (m.Enabled a))

variable {m m' : MutexLock} {labels before after : List Label} {i j : Nat}

-- ---------------------------------------------------------------------------
-- Who has the mutex
-- ---------------------------------------------------------------------------

def Pc.Holds : Pc → Prop
  | .locking | .inside | .unlocking => True
  | .out | .waiting => False

def Pc.Within : Pc → Prop
  | .inside | .waiting => True
  | .out | .locking | .unlocking => False

structure Inv (m : MutexLock) : Prop where
  owner : ∀ i, m.owner = some i ↔ (m.thread i).Holds
  named : m.thread 0 = .out
  holder : m.holder = 0 ∨ (m.thread m.holder).Within

theorem start_inv : Inv {} := by
  refine ⟨fun i => ?_, rfl, .inl rfl⟩
  simp [Pc.Holds]

@[simp] theorem thread_setThread (m : MutexLock) (i : Nat) (pc : Pc) :
    (m.setThread i pc).thread = update m.thread i pc := rfl

theorem Inv.owned {owner : Option Nat} {pc : Pc} (h : Inv m)
    (ho : m.owner = none ∧ pc.Holds ∧ owner = some i ∨
      (m.thread i).Holds ∧ ¬pc.Holds ∧ owner = none ∨
      (m.thread i).Holds ∧ pc.Holds ∧ owner = m.owner) (j : Nat) :
    owner = some j ↔ (update m.thread i pc j).Holds := by
  by_cases hj : j = i
  · subst hj
    rw [update_self]
    rcases ho with ⟨-, hpc, rfl⟩ | ⟨-, hpc, rfl⟩ | ⟨hold, hpc, rfl⟩
    · simp [hpc]
    · simp [hpc]
    · simp [hpc, (h.owner j).mpr hold]
  · rw [update_of_ne hj]
    rcases ho with ⟨hfree, -, rfl⟩ | ⟨hold, -, rfl⟩ | ⟨-, -, rfl⟩
    · simp [← h.owner j, hfree, Ne.symm hj]
    · simp [← h.owner j, (h.owner i).mpr hold, Ne.symm hj]
    · exact h.owner j

theorem Inv.held {pc : Pc} (h : Inv m) (hpc : (m.thread i).Within → pc.Within) :
    m.holder = 0 ∨ (update m.thread i pc m.holder).Within := by
  rcases h.holder with hz | hw
  · exact .inl hz
  by_cases hi : m.holder = i
  · rw [hi] at hw ⊢
    rw [update_self]
    exact .inr (hpc hw)
  · rw [update_of_ne hi]
    exact .inr hw

theorem Inv.out {pc : Pc} (h : Inv m) (hi : m.thread i ≠ .out) :
    update m.thread i pc 0 = .out := by
  rw [update_of_ne]
  · exact h.named
  · rintro rfl
    exact hi h.named

theorem inv_keeps : machine.Keeps Inv := by
  rintro m a _ h ha ⟨⟩
  cases a with
  | lock i =>
    obtain ⟨hi, hout, hfree⟩ := ha
    exact ⟨h.owned (.inl ⟨hfree, trivial, rfl⟩), by simp [hi.symm, h.named, next],
      h.held (by simp [hout, Pc.Within])⟩
  | assign i =>
    have hpc : m.thread i = .locking := ha
    exact ⟨h.owned (.inr (.inr ⟨by simp [hpc, Pc.Holds], trivial, rfl⟩)),
      h.out (by simp [hpc]), .inr (by simp [next, Pc.Within])⟩
  | wait i =>
    have hpc : m.thread i = .inside := ha
    exact ⟨h.owned (.inr (.inl ⟨by simp [hpc, Pc.Holds], id, rfl⟩)), h.out (by simp [hpc]),
      h.held fun _ => trivial⟩
  | wake i =>
    obtain ⟨hpc, hfree⟩ := ha
    exact ⟨h.owned (.inl ⟨hfree, trivial, rfl⟩), h.out (by simp [hpc]), h.held fun _ => trivial⟩
  | unassign i =>
    have hpc : m.thread i = .inside := ha
    exact ⟨h.owned (.inr (.inr ⟨by simp [hpc, Pc.Holds], trivial, rfl⟩)),
      h.out (by simp [hpc]), .inl rfl⟩
  | unlock i =>
    have hpc : m.thread i = .unlocking := ha
    exact ⟨h.owned (.inr (.inl ⟨by simp [hpc, Pc.Holds], id, rfl⟩)), h.out (by simp [hpc]),
      h.held (by simp [hpc, Pc.Within])⟩

-- ---------------------------------------------------------------------------
-- Since a thread locked the mutex
-- ---------------------------------------------------------------------------

def Label.tid : Label → Nat
  | .lock i | .assign i | .wait i | .wake i | .unassign i | .unlock i => i

def Label.Writes : Label → Prop
  | .assign _ | .unassign _ => True
  | _ => False

instance : DecidablePred Label.Writes := fun a => by
  unfold Label.Writes
  cases a <;> infer_instance

theorem thread_of_ne {a : Label} (h : i ≠ a.tid) : (m.next a).thread i = m.thread i := by
  cases a <;> exact update_of_ne h _ _

theorem holder_of_not_writes {a : Label} (h : ¬a.Writes) : (m.next a).holder = m.holder := by
  cases a with
  | assign _ | unassign _ => exact absurd trivial h
  | _ => rfl

theorem within_of_step {a : Label} (ha : m.Enabled a) (hne : a ≠ .assign i)
    (h : ((m.next a).thread i).Within) : (m.thread i).Within := by
  by_cases hi : i = a.tid
  · subst hi
    cases a with
    | lock j | unassign j | unlock j => simp [next, Label.tid, Pc.Within] at h
    | assign j => exact absurd rfl hne
    | wait j =>
      have hpc : m.thread j = .inside := ha
      simp [Label.tid, hpc, Pc.Within]
    | wake j => simp [Label.tid, ha.1, Pc.Within]
  · rwa [thread_of_ne hi] at h

theorem within_of_run (h : machine.Run m after m') (hn : .assign i ∉ after)
    (hw : (m'.thread i).Within) : (m.thread i).Within := by
  induction h with
  | nil => exact hw
  | cons ha hs _ ih =>
    cases hs
    rw [List.mem_cons, not_or] at hn
    exact within_of_step ha (Ne.symm hn.1) (ih hn.2 hw)

theorem holder_run (h : machine.Run m after m') (hi : i ≠ 0) (hn : .assign i ∉ after)
    (hw : (m'.thread i).Within) :
    m'.holder = i ↔ m.holder = i ∧ ∀ a ∈ after, a.Writes → a.tid = i := by
  induction h with
  | nil => simp
  | @cons m a m₁ after m' ha hs hrun ih =>
    cases hs
    rw [List.mem_cons, not_or] at hn
    have hin := within_of_run hrun hn.2 hw
    rw [ih hn.2 hw, List.forall_mem_cons]
    by_cases hwrites : a.Writes
    · have hother : a.tid ≠ i := by
        rintro rfl
        cases a with
        | assign _ => exact hn.1 rfl
        | unassign _ => simp [next, Label.tid, Pc.Within] at hin
        | _ => exact hwrites
      have hlost : (m.next a).holder ≠ i := by
        cases a with
        | assign _ => exact hother
        | unassign _ => exact hi.symm
        | _ => exact hwrites.elim
      simp [hlost, hwrites, hother]
    · simp [holder_of_not_writes hwrites, hwrites]

/-- Nobody else takes a step with the mutex while its owner does not wait. -/
theorem owner_run (h : machine.Run m after m') (hi : Inv m) (hpc : m.thread i = .inside)
    (hn : .assign i ∉ after) (hwait : .wait i ∉ after) (hw : (m'.thread i).Within) :
    ∀ a ∈ after, a.Writes → a.tid = i := by
  induction h with
  | nil => simp
  | @cons m a m₁ after m' ha hs hrun ih =>
    cases hs
    rw [List.mem_cons, not_or] at hn hwait
    have howner : m.owner = some i := (hi.owner i).mpr (by simp [hpc, Pc.Holds])
    have hin := within_of_run hrun hn.2 hw
    have hstay : a.tid = i → (m.next a).thread i = .inside := by
      rintro rfl
      cases a with
      | lock j => simp [Label.tid, ha.2.1] at hpc
      | assign j => exact absurd rfl hn.1
      | wait j => exact absurd rfl hwait.1
      | wake j => simp [Label.tid, ha.1] at hpc
      | unassign j | unlock j => simp [next, Label.tid, Pc.Within] at hin
    refine List.forall_mem_cons.mpr ⟨fun hwrites => ?_, ?_⟩
    · have hholds : (m.thread a.tid).Holds := by
        cases a with
        | assign j | unassign j =>
          have hj : m.thread j = _ := ha
          simp [Label.tid, hj, Pc.Holds]
        | _ => exact hwrites.elim
      exact Option.some.inj (((hi.owner _).mpr hholds).symm.trans howner)
    · refine ih (inv_keeps hi ha rfl) ?_ hn.2 hwait.2 hw
      by_cases htid : a.tid = i
      · exact hstay htid
      · rwa [thread_of_ne (Ne.symm htid)]

-- ---------------------------------------------------------------------------
-- Runs
-- ---------------------------------------------------------------------------

/-- Whatever the threads do and whoever wakes up: one thread at a time has the
mutex; `isLockedByThisThread` is true of no thread that has not locked it; of one
that has, and is not waiting, it is true exactly when no other thread has locked or
unlocked the mutex since, and so `assertLocked` holds if the thread has not waited.
The destructor's assertion holds when nobody uses the mutex. -/
theorem holder_exact (h : machine.Run {} labels m) :
    (∀ i j, (m.thread i).Holds → (m.thread j).Holds → i = j) ∧
    (∀ i, i ≠ 0 → m.isLockedByThisThread i → m.thread i = .inside ∨ m.thread i = .waiting) ∧
    (∀ i before after, labels = before ++ .assign i :: after → .assign i ∉ after →
      m.thread i = .inside →
        (m.isLockedByThisThread i ↔
          ∀ j, j ≠ i → .assign j ∉ after ∧ .unassign j ∉ after) ∧
        (.wait i ∉ after → m.assertLocked i = .ok ())) ∧
    ((∀ i, m.thread i = .out) → m.destroy = .ok ()) := by
  have hinv := h.keeps inv_keeps start_inv
  refine ⟨fun i j hi hj => ?_, fun i hi hm => ?_, ?_, fun hout => ?_⟩
  · exact Option.some.inj (((hinv.owner i).mpr hi).symm.trans ((hinv.owner j).mpr hj))
  · have hw := hinv.holder.resolve_left fun hz => hi (hm.symm.trans hz)
    rw [show m.holder = i from hm] at hw
    cases hpc : m.thread i with
    | inside => exact .inl rfl
    | waiting => exact .inr rfl
    | _ => simp [hpc, Pc.Within] at hw
  · rintro i before after rfl hn hpc
    obtain ⟨m₀, hbefore, hrun⟩ := Machine.run_append.mp h
    have hinv₀ := hbefore.keeps inv_keeps start_inv
    cases hrun with
    | cons ha hs hrun =>
      cases hs
      have hlocking : m₀.thread i = .locking := ha
      have hi : i ≠ 0 := by
        rintro rfl
        rw [hinv₀.named] at hlocking
        cases hlocking
      have hw : (m.thread i).Within := by simp [hpc, Pc.Within]
      have hexact := holder_run hrun hi hn hw
      have hinside : (m₀.next (.assign i)).thread i = .inside := by simp [next]
      refine ⟨?_, fun hwait => ?_⟩
      · rw [isLockedByThisThread, hexact]
        refine ⟨fun hothers j hj => ⟨?_, ?_⟩, fun hothers => ⟨rfl, fun a ha' hwrites => ?_⟩⟩
        · exact fun hm => hj (hothers.2 _ hm trivial)
        · exact fun hm => hj (hothers.2 _ hm trivial)
        · by_contra hj
          cases a with
          | assign j => exact (hothers j hj).1 ha'
          | unassign j => exact (hothers j hj).2 ha'
          | _ => exact hwrites
      · exact ensure_true
          (hexact.mpr ⟨rfl, owner_run hrun (inv_keeps hinv₀ ha rfl) hinside hn hwait hw⟩)
  · have hz : m.holder = 0 := hinv.holder.resolve_right (by simp [hout, Pc.Within])
    rw [destroy, ensure_true hz]

/-- A thread comes back from `wait` after another one has had the mutex: it has it,
and is told that it has not. -/
theorem holder_exact_waited : ∃ m,
    machine.Run {} ([.lock 1] ++ .assign 1 ::
      [.wait 1, .lock 2, .assign 2, .unassign 2, .unlock 2, .wake 1]) m ∧
    m.owner = some 1 ∧ ¬m.isLockedByThisThread 1 := by
  have hrun : ∃ m, machine.Run {} ([.lock 1] ++ .assign 1 ::
      [.wait 1, .lock 2, .assign 2, .unassign 2, .unlock 2, .wake 1]) m ∧
      m.owner = some 1 ∧ m.thread 1 = .inside := Machine.exists_run (by decide +kernel)
  obtain ⟨m, hm, howner, hpc⟩ := hrun
  have hexact := ((holder_exact hm).2.2.1 1 _ _ rfl (by decide) hpc).1
  exact ⟨m, hm, howner, fun hl => (hexact.mp hl 2 (by decide)).1 (by decide)⟩

end MutexLock

end Muduo
