import Mathlib.Data.List.Basic

/-!
# Threads that wait for a condition

What a thread does under a mutex is one step, up to the end or to a `wait`. A
signal wakes at least one of the threads that wait; some wake up unasked. No
wakeup is lost as long as the woken threads are as many as what there is for
them (`Covered`), or nobody waits.
-/

namespace Lib.Monitor

inductive Phase
  | called
  | waiting
  | woken
  | returned
  deriving DecidableEq

/-- It may have the mutex next. -/
def Ready (callers : List Phase) (i : Nat) : Prop :=
  callers[i]? = some .called ∨ callers[i]? = some .woken

instance (callers : List Phase) (i : Nat) : Decidable (Ready callers i) :=
  inferInstanceAs (Decidable (_ ∨ _))

/-- Whom a signal may wake: threads that wait, and one of them if there is one. -/
def MaySignal (callers : List Phase) (signaled : List Nat) : Prop :=
  (∀ i ∈ signaled, callers[i]? = some .waiting) ∧ (.waiting ∈ callers → signaled ≠ [])

instance (callers : List Phase) (signaled : List Nat) : Decidable (MaySignal callers signaled) :=
  inferInstanceAs (Decidable (_ ∧ _))

def signal (callers : List Phase) : List Nat → List Phase
  | [] => callers
  | i :: signaled => signal (callers.set i .woken) signaled

def broadcast (callers : List Phase) : List Phase :=
  callers.map fun phase => if phase = .waiting then .woken else phase

/-- `n` threads or all of them go on. -/
def Covered (callers : List Phase) (n : Nat) : Prop :=
  .waiting ∈ callers → n ≤ callers.count .woken

variable {callers : List Phase}

theorem waiting_of_set (h : .waiting ∈ callers.set i phase) (hp : phase ≠ .waiting) :
    .waiting ∈ callers :=
  (List.mem_or_eq_of_mem_set h).resolve_right hp.symm

theorem count_set_woken (callers : List Phase) (i : Nat) :
    callers.count .woken ≤ (callers.set i .woken).count .woken := by
  by_cases hi : i < callers.length
  · rw [List.count_set hi, if_pos (beq_self_eq_true _)]
    split <;> omega
  · have hsame := List.set_eq_of_length_le (a := .woken) (Nat.not_lt.mp hi)
    exact Nat.le_of_eq (congrArg (List.count .woken) hsame.symm)

theorem count_set_waiting (h : callers[i]? = some .waiting) :
    (callers.set i .woken).count .woken = callers.count .woken + 1 := by
  obtain ⟨hi, hget⟩ := List.getElem?_eq_some_iff.mp h
  rw [List.count_set hi, hget]
  rfl

@[simp] theorem length_signal (callers : List Phase) (signaled : List Nat) :
    (signal callers signaled).length = callers.length := by
  induction signaled generalizing callers with
  | nil => rfl
  | cons i signaled ih => exact (ih _).trans (List.length_set ..)

theorem getElem?_signal (h : ∀ i ∈ signaled, i < callers.length) (j : Nat) :
    (signal callers signaled)[j]? = if j ∈ signaled then some .woken else callers[j]? := by
  induction signaled generalizing callers with
  | nil => rfl
  | cons i signaled ih =>
    obtain ⟨hi, hrest⟩ := List.forall_mem_cons.mp h
    rw [signal, ih (by simpa using hrest)]
    by_cases hj : j = i
    · simp [hj, hi]
    · simp [hj, List.getElem?_set_ne (Ne.symm hj)]

theorem count_signal (callers : List Phase) (signaled : List Nat) :
    callers.count .woken ≤ (signal callers signaled).count .woken := by
  induction signaled generalizing callers with
  | nil => exact Nat.le_refl _
  | cons i signaled ih => exact Nat.le_trans (count_set_woken callers i) (ih _)

theorem waiting_of_signal (h : .waiting ∈ signal callers signaled) : .waiting ∈ callers := by
  induction signaled generalizing callers with
  | nil => exact h
  | cons i signaled ih => exact waiting_of_set (ih h) nofun

theorem broadcast_awake (callers : List Phase) : .waiting ∉ broadcast callers := by
  intro hw
  obtain ⟨phase, -, heq⟩ := List.mem_map.mp hw
  split at heq
  · cases heq
  · exact absurd heq ‹_›

theorem mem_of_broadcast (h : phase ∈ broadcast callers) (hp : phase ≠ .woken) :
    phase ∈ callers := by
  obtain ⟨phase', hm, rfl⟩ := List.mem_map.mp h
  split at hp
  · exact absurd rfl hp
  · rename_i hne
    rwa [if_neg hne]

-- ---------------------------------------------------------------------------
-- Calls that are over
-- ---------------------------------------------------------------------------

theorem Ready.not_returned (h : Ready callers i) : callers[i]? ≠ some .returned := by
  rcases h with h | h <;>
  · rw [h]
    nofun

theorem returned_of_set (h : callers[i]? ≠ some .returned) (hp : phase ≠ .returned) (j : Nat) :
    (callers.set i phase)[j]? = some .returned ↔ callers[j]? = some .returned := by
  by_cases hij : i = j
  · subst hij
    by_cases hi : i < callers.length
    · rw [List.getElem?_set_self hi]
      simp [hp, h]
    · rw [List.set_eq_of_length_le (Nat.not_lt.mp hi)]
  · rw [List.getElem?_set_ne hij]

theorem returned_set (h : Ready callers i) (j : Nat) :
    (callers.set i .returned)[j]? = some .returned ↔ callers[j]? = some .returned ∨ j = i := by
  have hi : i < callers.length := by
    rcases h with h | h <;> exact (List.getElem?_eq_some_iff.mp h).1
  by_cases hij : i = j
  · subst hij
    simp [List.getElem?_set_self hi]
  · rw [List.getElem?_set_ne hij]
    simp [Ne.symm hij]

theorem returned_append (i : Nat) :
    (callers ++ [.called])[i]? = some .returned ↔ callers[i]? = some .returned := by
  simp only [List.getElem?_append, List.getElem?_singleton]
  split
  · rfl
  · rename_i hlt
    rw [List.getElem?_eq_none (Nat.not_lt.mp hlt)]
    split <;> simp

theorem returned_signal (h : ∀ i ∈ signaled, callers[i]? = some .waiting) (j : Nat) :
    (signal callers signaled)[j]? = some .returned ↔ callers[j]? = some .returned := by
  have hne : ∀ i ∈ signaled, callers[i]? ≠ some .returned := fun i hi => by
    rw [h i hi]
    nofun
  clear h
  induction signaled generalizing callers with
  | nil => rfl
  | cons i signaled ih =>
    have hset :=
      returned_of_set (hne i List.mem_cons_self) (show Phase.woken ≠ .returned from nofun)
    refine (ih fun k hk => ?_).trans (hset j)
    exact fun hr => hne k (List.mem_cons_of_mem _ hk) ((hset k).mp hr)

-- ---------------------------------------------------------------------------
-- Steps
-- ---------------------------------------------------------------------------

theorem Covered.zero : Covered callers 0 := fun _ => Nat.zero_le _

theorem Covered.call (h : Covered callers n) : Covered (callers ++ [.called]) n := by
  intro hw
  rw [List.count_append]
  exact Nat.le_add_right_of_le (h ((List.mem_append.mp hw).resolve_right (by simp)))

theorem Covered.wake (h : Covered callers n) (i : Nat) : Covered (callers.set i .woken) n :=
  fun hw => Nat.le_trans (h (waiting_of_set hw nofun)) (count_set_woken callers i)

/-- There is one more thing to go on for, and a signal for it. -/
theorem Covered.signal (h : Covered callers n) (hs : MaySignal callers signaled) :
    Covered (signal callers signaled) (n + 1) := by
  intro hw
  have hwaiting := waiting_of_signal hw
  cases signaled with
  | nil => exact absurd rfl (hs.2 hwaiting)
  | cons i signaled =>
    calc
      n + 1 ≤ callers.count .woken + 1 := Nat.succ_le_succ (h hwaiting)
      _ = (callers.set i .woken).count .woken :=
        (count_set_waiting (hs.1 i List.mem_cons_self)).symm
      _ ≤ _ := count_signal _ signaled

theorem Covered.finish (h : Covered callers (n + 1)) (i : Nat) :
    Covered (callers.set i .returned) n := by
  intro hw
  have hle := h (waiting_of_set hw nofun)
  by_cases hi : i < callers.length
  · rw [List.count_set hi]
    split <;> simp <;> omega
  · rw [List.set_eq_of_length_le (Nat.not_lt.mp hi)]
    exact Nat.le_of_succ_le hle

/-- Who waits waits for something that is not there. -/
theorem Covered.stuck (h : Covered callers n) (hw : .waiting ∈ callers) (hn : .woken ∉ callers) :
    n = 0 := by
  have hle := h hw
  rw [List.count_eq_zero_of_not_mem hn] at hle
  exact Nat.le_zero.mp hle

end Lib.Monitor
