import Muduo.Lib.Machine
import Muduo.Lib.Monitor

/-!
# BlockingQueue

Any number of threads in `put` and `take`. What is done under `mutex_` up to the
end of a call or to `wait` is one step; a call that was woken starts over at the
head of its loop.
-/

namespace Muduo

open Lib Lib.Monitor

namespace BlockingQueue

inductive Fault
  | empty
  deriving DecidableEq

end BlockingQueue

structure BlockingQueue (α : Type u) where
  queue : List α := []
  consumers : List Phase := []
  /-- Which call of `take` gave which element. -/
  taken : List (Nat × α) := []

namespace BlockingQueue

-- ---------------------------------------------------------------------------
-- The code
-- ---------------------------------------------------------------------------

def put (q : BlockingQueue α) (x : α) (signaled : List Nat) : BlockingQueue α :=
  { q with queue := q.queue ++ [x], consumers := signal q.consumers signaled }

def take (q : BlockingQueue α) (c : Nat) : Except Fault (BlockingQueue α) :=
  if q.queue = [] then
    return { q with consumers := q.consumers.set c .waiting }
  else
    match q.queue with
    | [] => .error .empty
    | front :: queue =>
      return { queue, consumers := q.consumers.set c .returned, taken := q.taken ++ [(c, front)] }

def size (q : BlockingQueue α) : Nat := q.queue.length

-- ---------------------------------------------------------------------------
-- Runs
-- ---------------------------------------------------------------------------

inductive Label (α : Type u)
  /-- These are woken by `notify`. -/
  | put (x : α) (signaled : List Nat)
  | callTake
  | take (c : Nat)
  /-- A wakeup nobody asked for. -/
  | wake (c : Nat)

def Label.put? : Label α → Option α
  | .put x _ => some x
  | _ => none

def Enabled (q : BlockingQueue α) : Label α → Prop
  | .put _ signaled => MaySignal q.consumers signaled
  | .callTake => True
  | .take c => Ready q.consumers c
  | .wake c => q.consumers[c]? = some .waiting

def step (q : BlockingQueue α) : Label α → Except Fault (BlockingQueue α)
  | .put x signaled => return q.put x signaled
  | .callTake => return { q with consumers := q.consumers ++ [.called] }
  | .take c => q.take c
  | .wake c => return { q with consumers := q.consumers.set c .woken }

def machine : Machine (BlockingQueue α) (Label α) Fault where
  enabled := Enabled
  step := step

instance (q : BlockingQueue α) (a : Label α) : Decidable (machine.enabled q a) := by
  unfold machine Enabled
  cases a <;> infer_instance

-- ---------------------------------------------------------------------------
-- Steps
-- ---------------------------------------------------------------------------

variable {q q' : BlockingQueue α}

theorem take_cases (q : BlockingQueue α) (c : Nat) :
    (q.queue = [] ∧ q.take c = .ok { q with consumers := q.consumers.set c .waiting }) ∨
    ∃ front queue, q.queue = front :: queue ∧ q.take c = .ok
      { queue, consumers := q.consumers.set c .returned, taken := q.taken ++ [(c, front)] } := by
  unfold take
  cases q.queue with
  | nil => exact .inl ⟨rfl, if_pos rfl⟩
  | cons front queue => exact .inr ⟨front, queue, rfl, if_neg nofun⟩

structure Inv (q : BlockingQueue α) : Prop where
  covered : Covered q.consumers q.size
  once : (q.taken.map Prod.fst).Nodup
  returned : ∀ c, c ∈ q.taken.map Prod.fst ↔ q.consumers[c]? = some .returned

theorem start_inv : Inv ({} : BlockingQueue α) := ⟨.zero, .nil, by simp⟩

theorem Inv.of_consumers (h : Inv q) {consumers : List Phase} (hc : Covered consumers q.size)
    (hr : ∀ c : Nat, consumers[c]? = some .returned ↔ q.consumers[c]? = some .returned) :
    Inv { q with consumers } :=
  ⟨hc, h.once, fun c => (h.returned c).trans (hr c).symm⟩

theorem Inv.take (h : Inv q) (hr : Ready q.consumers c) : ∃ q', q.take c = .ok q' ∧ Inv q' := by
  rcases q.take_cases c with ⟨hnil, htake⟩ | ⟨front, queue, hq, htake⟩
  · refine ⟨_, htake, h.of_consumers ?_ (returned_of_set hr.not_returned nofun)⟩
    rw [size, hnil]
    exact .zero
  · have hcovered := h.covered
    rw [size, hq] at hcovered
    refine ⟨_, htake, hcovered.finish c, ?_, fun d => ?_⟩
    · rw [List.map_append, List.nodup_append]
      refine ⟨h.once, by simp, fun d hd e he heq => ?_⟩
      obtain rfl := List.mem_singleton.mp he
      exact hr.not_returned (by rw [← heq]; exact (h.returned d).mp hd)
    · rw [List.map_append, List.mem_append, h.returned, returned_set hr]
      exact or_congr_right List.mem_singleton

theorem inv_safe : (machine (α := α)).Safe Inv := by
  intro q a h ha
  cases a with
  | put x signaled =>
    refine ⟨_, rfl, ?_, h.once, fun c => ?_⟩
    · simpa [size, put] using h.covered.signal ha
    · exact (h.returned c).trans (returned_signal ha.1 c).symm
  | callTake =>
    refine ⟨_, rfl, h.of_consumers h.covered.call fun c => ?_⟩
    exact returned_append c
  | take c => exact h.take ha
  | wake c =>
    refine ⟨_, rfl, h.of_consumers (h.covered.wake c) (returned_of_set ?_ nofun)⟩
    rw [show q.consumers[c]? = _ from ha]
    nofun

-- ---------------------------------------------------------------------------
-- Runs
-- ---------------------------------------------------------------------------

theorem fifo (h : machine.Run q as q') : q'.taken.map Prod.snd ++ q'.queue =
    q.taken.map Prod.snd ++ q.queue ++ as.filterMap Label.put? := by
  induction h with
  | nil => simp
  | @cons q a t as u ha hs _ ih =>
    rw [ih]
    cases a with
    | put x signaled =>
      cases hs
      simp [put, Label.put?]
    | take c =>
      rcases q.take_cases c with ⟨hnil, htake⟩ | ⟨front, queue, hq, htake⟩ <;>
      · cases htake.symm.trans hs
        simp [List.filterMap_cons, Label.put?, *]
    | callTake | wake c =>
      cases hs
      simp [List.filterMap_cons, Label.put?]

/-- Whatever the threads do and whoever wakes up: the elements come out once
each and in the order of the calls of `put`, every call of `take` that returns
has one of its own, and as long as a thread waits, there are as many on their way
to the queue as elements in it. -/
theorem handed (h : machine.Run {} as q) :
    q.taken.map Prod.snd ++ q.queue = as.filterMap Label.put? ∧
    (q.taken.map Prod.fst).Nodup ∧
    (∀ c, c ∈ q.taken.map Prod.fst ↔ q.consumers[c]? = some .returned) ∧
    (.waiting ∈ q.consumers → q.size ≤ q.consumers.count .woken) ∧
    machine.NoFault q := by
  obtain ⟨hinv, hsafe⟩ := h.safe inv_safe start_inv
  exact ⟨fifo h, hinv.once, hinv.returned, hinv.covered, hsafe⟩

/-- The element a thread is woken for goes to one that comes later; it waits
again and gets the next. -/
theorem handed_overtaken : ∃ q : BlockingQueue Nat, machine.Run {}
    [.callTake, .take 0, .put 5 [0], .callTake, .take 1, .take 0, .put 6 [0], .take 0] q ∧
    q.taken = [(1, 5), (0, 6)] ∧ q.taken.map Prod.snd ++ q.queue = [5, 6] := by
  have hrun : ∃ q : BlockingQueue Nat, machine.Run {}
      [.callTake, .take 0, .put 5 [0], .callTake, .take 1, .take 0, .put 6 [0], .take 0] q ∧
      q.taken = [(1, 5), (0, 6)] :=
    Machine.exists_run (by decide +kernel)
  obtain ⟨q, hq, htaken⟩ := hrun
  exact ⟨q, hq, htaken, (handed hq).1⟩

end BlockingQueue

end Muduo
