import Muduo.Lib.Machine
import Muduo.Lib.Monitor
import Mathlib.Algebra.Group.Int.Defs

/-!
# CountDownLatch

Any number of threads in `wait`, any number of calls of `countDown`. What is
done under `mutex_` is one step; a call that was woken starts over at the head
of its loop.
-/

namespace Muduo

open Lib Lib.Monitor

namespace CountDownLatch

inductive Fault
  /-- `--count_` at the least `int`. -/
  | overflow
  deriving DecidableEq

end CountDownLatch

structure CountDownLatch where
  count : Int
  waiters : List Phase := []
  downs : Nat := 0

namespace CountDownLatch

-- ---------------------------------------------------------------------------
-- The code
-- ---------------------------------------------------------------------------

def wait (l : CountDownLatch) (i : Nat) : CountDownLatch :=
  { l with waiters := l.waiters.set i (if l.count > 0 then .waiting else .returned) }

def countDown (l : CountDownLatch) : Except Fault CountDownLatch := do
  ensure (-2 ^ 31 < l.count) .overflow
  let count := l.count - 1
  return { l with
    count
    waiters := if count = 0 then broadcast l.waiters else l.waiters
    downs := l.downs + 1 }

def getCount (l : CountDownLatch) : Int := l.count

-- ---------------------------------------------------------------------------
-- Runs
-- ---------------------------------------------------------------------------

inductive Label
  | callWait
  | wait (i : Nat)
  /-- A wakeup nobody asked for. -/
  | wake (i : Nat)
  | countDown
  deriving DecidableEq

def Enabled (l : CountDownLatch) : Label → Prop
  | .callWait => True
  | .wait i => Ready l.waiters i
  | .wake i => l.waiters[i]? = some .waiting
  | .countDown => True

def step (l : CountDownLatch) : Label → Except Fault CountDownLatch
  | .callWait => return { l with waiters := l.waiters ++ [.called] }
  | .wait i => return l.wait i
  | .wake i => return { l with waiters := l.waiters.set i .woken }
  | .countDown => l.countDown

def machine : Machine CountDownLatch Label Fault where
  enabled := Enabled
  step := step

instance (l : CountDownLatch) (a : Label) : Decidable (machine.enabled l a) := by
  unfold machine Enabled
  cases a <;> infer_instance

-- ---------------------------------------------------------------------------
-- Steps
-- ---------------------------------------------------------------------------

variable {l l' : CountDownLatch}

structure Inv (n : Int) (l : CountDownLatch) : Prop where
  count : l.getCount = n - l.downs
  shut : .returned ∈ l.waiters → l.getCount ≤ 0
  opened : .waiting ∈ l.waiters → 0 < l.getCount

theorem start_inv (n : Int) : Inv n { count := n } := ⟨by simp [getCount], nofun, nofun⟩

theorem Inv.set (h : Inv n l) (i : Nat) (hr : phase = .returned → l.count ≤ 0)
    (hw : phase = .waiting → 0 < l.count) : Inv n { l with waiters := l.waiters.set i phase } := by
  refine ⟨h.count, fun hm => ?_, fun hm => ?_⟩
  · rcases List.mem_or_eq_of_mem_set hm with hm | rfl
    · exact h.shut hm
    · exact hr rfl
  · rcases List.mem_or_eq_of_mem_set hm with hm | rfl
    · exact h.opened hm
    · exact hw rfl

theorem Inv.wait (h : Inv n l) (i : Nat) : Inv n (l.wait i) := by
  refine h.set i (fun hr => ?_) fun hw => ?_
  · split at hr
    · cases hr
    · omega
  · split at hw
    · assumption
    · cases hw

theorem Inv.countDown (h : Inv n l) (hs : l.countDown = .ok l') : Inv n l' := by
  obtain ⟨_, -, hs⟩ := bind_ok.mp hs
  cases hs
  have hcount := h.count
  refine ⟨?_, fun hm => ?_, fun hm => ?_⟩ <;> simp only [getCount] at *
  · omega
  · -- Whoever has returned had returned before.
    have hmem : .returned ∈ l.waiters := by
      split at hm
      · exact mem_of_broadcast hm nofun
      · exact hm
    have hle := h.shut hmem
    simp only [getCount] at hle
    omega
  · split at hm
    · exact absurd hm (broadcast_awake _)
    · have hlt := h.opened hm
      simp only [getCount] at hlt
      omega

theorem inv_keeps (n : Int) : machine.Keeps (Inv n) := by
  intro l a l' h ha hs
  cases a with
  | callWait =>
    cases hs
    refine ⟨h.count, fun hm => h.shut ?_, fun hm => h.opened ?_⟩ <;>
    · exact (List.mem_append.mp hm).resolve_right (by simp)
  | wait i =>
    cases hs
    exact h.wait i
  | wake i =>
    cases hs
    exact h.set i nofun nofun
  | countDown => exact h.countDown hs

-- ---------------------------------------------------------------------------
-- Runs
-- ---------------------------------------------------------------------------

theorem downs_eq (h : machine.Run l as l') : l'.downs = l.downs + as.count .countDown := by
  induction h with
  | nil => rfl
  | @cons l a t as u ha hs _ ih =>
    have hstep : t.downs = l.downs + if a = .countDown then 1 else 0 := by
      cases a with
      | countDown =>
        obtain ⟨_, -, hs⟩ := bind_ok.mp hs
        cases hs
        rfl
      | callWait | wait i | wake i =>
        cases hs
        rfl
    rw [ih, hstep, List.count_cons]
    simp only [beq_iff_eq]
    omega

/-- No `wait` returns before as many calls of `countDown` as the latch was made
with, and from then on nobody waits: what every call of `wait` that is not over
does next is to return. -/
theorem latched (h : machine.Run { count := n } as l) :
    (.returned ∈ l.waiters → n ≤ as.count .countDown) ∧
    (n ≤ as.count .countDown →
      .waiting ∉ l.waiters ∧
      ∀ i phase, l.waiters[i]? = some phase → phase ≠ .returned →
        Ready l.waiters i ∧ (l.wait i).waiters[i]? = some .returned) := by
  have hinv := h.keeps (inv_keeps n) (start_inv n)
  have hdowns : l.downs = as.count .countDown := by
    rw [downs_eq h]
    exact Nat.zero_add _
  have hcount := hinv.count
  rw [hdowns] at hcount
  refine ⟨fun hr => ?_, fun hle => ?_⟩
  · have hshut := hinv.shut hr
    omega
  · have hawake : .waiting ∉ l.waiters := fun hw => by
      have hopened := hinv.opened hw
      omega
    refine ⟨hawake, fun i phase hget hne => ?_⟩
    obtain ⟨hi, -⟩ := List.getElem?_eq_some_iff.mp hget
    constructor
    · cases phase with
      | called => exact .inl hget
      | woken => exact .inr hget
      | waiting => exact absurd (List.mem_of_getElem? hget) hawake
      | returned => exact absurd rfl hne
    · have hnot : ¬l.count > 0 := by
        simp only [getCount] at hcount
        omega
      rw [wait, if_neg hnot, List.getElem?_set_self hi]

/-- Two threads wait, one of them wakes up unasked and waits again, a third
comes late. -/
theorem latched_two : ∃ l, machine.Run { count := 2 }
    [.callWait, .callWait, .wait 0, .countDown, .wait 1, .wake 0, .wait 0, .countDown, .wait 0,
      .callWait, .wait 2] l ∧
    l.waiters = [.returned, .woken, .returned] ∧ .waiting ∉ l.waiters ∧
    (l.wait 1).waiters[1]? = some .returned := by
  have hrun : ∃ l, machine.Run { count := 2 }
      [.callWait, .callWait, .wait 0, .countDown, .wait 1, .wake 0, .wait 0, .countDown, .wait 0,
        .callWait, .wait 2] l ∧ l.waiters = [.returned, .woken, .returned] :=
    Machine.exists_run (by decide +kernel)
  obtain ⟨l, hl, hwaiters⟩ := hrun
  obtain ⟨hawake, hnext⟩ := (latched hl).2 (by decide)
  exact ⟨l, hl, hwaiters, hawake, (hnext 1 .woken (by rw [hwaiters]; rfl) nofun).2⟩

end CountDownLatch

end Muduo
