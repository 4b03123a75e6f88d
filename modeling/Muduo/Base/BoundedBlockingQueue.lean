import Muduo.Lib.Machine
import Muduo.Lib.Monitor

/-!
# BoundedBlockingQueue

Any number of threads in `put` and `take`. What a call does from where it has
`mutex_` up to its end or to `wait` is one step; a call that was woken starts
over at the head of its loop.
-/

namespace Muduo

open Lib Lib.Monitor

namespace BoundedBlockingQueue

inductive Fault
  | full
  | empty
  deriving DecidableEq

end BoundedBlockingQueue

structure BoundedBlockingQueue (α : Type u) where
  maxSize : Nat
  queue : List α := []
  /-- The calls of `put`, which wait on `notFull_`, and their arguments. -/
  producers : List Phase := []
  args : List α := []
  consumers : List Phase := []
  putted : List α := []
  taken : List α := []

namespace BoundedBlockingQueue

-- ---------------------------------------------------------------------------
-- The code
-- ---------------------------------------------------------------------------

def Full (q : BoundedBlockingQueue α) : Prop := q.queue.length = q.maxSize

instance (q : BoundedBlockingQueue α) : Decidable q.Full := inferInstanceAs (Decidable (_ = _))

/-- A full `circular_buffer` overwrites its first element. -/
def push_back (q : BoundedBlockingQueue α) (x : α) : List α :=
  if q.Full then (q.queue ++ [x]).tail else q.queue ++ [x]

def put (q : BoundedBlockingQueue α) (p : Nat) (x : α) (signaled : List Nat) :
    Except Fault (BoundedBlockingQueue α) :=
  if q.Full then
    return { q with producers := q.producers.set p .waiting }
  else do
    ensure (¬q.Full) .full
    return { q with
      queue := q.push_back x
      consumers := signal q.consumers signaled
      producers := q.producers.set p .returned
      putted := q.putted ++ [x] }

def take (q : BoundedBlockingQueue α) (c : Nat) (signaled : List Nat) :
    Except Fault (BoundedBlockingQueue α) :=
  if q.queue = [] then
    return { q with consumers := q.consumers.set c .waiting }
  else
    match q.queue with
    | [] => .error .empty
    | front :: queue =>
      return { q with
        queue
        producers := signal q.producers signaled
        consumers := q.consumers.set c .returned
        taken := q.taken ++ [front] }

-- ---------------------------------------------------------------------------
-- Runs
-- ---------------------------------------------------------------------------

inductive Label (α : Type u)
  | callPut (x : α)
  | callTake
  /-- The call has the mutex; if it comes to `notify`, these are woken. -/
  | put (p : Nat) (signaled : List Nat)
  | take (c : Nat) (signaled : List Nat)
  | wakeProducer (p : Nat)
  | wakeConsumer (c : Nat)

def Enabled (q : BoundedBlockingQueue α) : Label α → Prop
  | .callPut _ => True
  | .callTake => True
  | .put p signaled => Ready q.producers p ∧ (¬q.Full → MaySignal q.consumers signaled)
  | .take c signaled => Ready q.consumers c ∧ (q.queue ≠ [] → MaySignal q.producers signaled)
  | .wakeProducer p => q.producers[p]? = some .waiting
  | .wakeConsumer c => q.consumers[c]? = some .waiting

def step (q : BoundedBlockingQueue α) : Label α → Except Fault (BoundedBlockingQueue α)
  | .callPut x => return { q with producers := q.producers ++ [.called], args := q.args ++ [x] }
  | .callTake => return { q with consumers := q.consumers ++ [.called] }
  | .put p signaled =>
    match q.args[p]? with
    | some x => q.put p x signaled
    | none => return q
  | .take c signaled => q.take c signaled
  | .wakeProducer p => return { q with producers := q.producers.set p .woken }
  | .wakeConsumer c => return { q with consumers := q.consumers.set c .woken }

def machine : Machine (BoundedBlockingQueue α) (Label α) Fault where
  enabled := Enabled
  step := step

instance (q : BoundedBlockingQueue α) (a : Label α) : Decidable (machine.enabled q a) := by
  unfold machine Enabled
  cases a <;> infer_instance

-- ---------------------------------------------------------------------------
-- Steps
-- ---------------------------------------------------------------------------

variable {q q' : BoundedBlockingQueue α}

/-- Elements are to consumers what free places are to producers. -/
structure Inv (n : Nat) (q : BoundedBlockingQueue α) : Prop where
  maxSize : q.maxSize = n
  args : q.args.length = q.producers.length
  fifo : q.taken ++ q.queue = q.putted
  bound : q.queue.length ≤ q.maxSize
  consumers : Covered q.consumers q.queue.length
  producers : Covered q.producers (q.maxSize - q.queue.length)

theorem start_inv (maxSize : Nat) : Inv maxSize ({ maxSize } : BoundedBlockingQueue α) :=
  ⟨rfl, rfl, rfl, Nat.zero_le _, .zero, nofun⟩

theorem Inv.put (h : Inv n q) (p : Nat) (x : α) (hs : ¬q.Full → MaySignal q.consumers signaled) :
    ∃ q', q.put p x signaled = .ok q' ∧ Inv n q' := by
  unfold BoundedBlockingQueue.put
  by_cases hfull : q.Full
  · refine ⟨_, if_pos hfull, h.maxSize, ?_, h.fifo, h.bound, h.consumers, ?_⟩
    · rw [List.length_set]
      exact h.args
    · rw [show q.queue.length = q.maxSize from hfull, Nat.sub_self]
      exact .zero
  · have hlt : q.queue.length < q.maxSize := Nat.lt_of_le_of_ne h.bound hfull
    have hpush : q.push_back x = q.queue ++ [x] := if_neg hfull
    have hlength : (q.queue ++ [x]).length = q.queue.length + 1 := List.length_append
    rw [if_neg hfull, ensure_bind hfull]
    refine ⟨_, rfl, h.maxSize, ?_, ?_, ?_, ?_, ?_⟩
    · rw [List.length_set]
      exact h.args
    · rw [hpush, ← h.fifo, List.append_assoc]
    · rw [hpush, hlength]
      exact hlt
    · rw [hpush, hlength]
      exact h.consumers.signal (hs hfull)
    · have hfree : q.maxSize - q.queue.length = q.maxSize - (q.queue.length + 1) + 1 := by omega
      have hcovered := h.producers
      rw [hfree] at hcovered
      rw [hpush, hlength]
      exact hcovered.finish p

theorem Inv.take (h : Inv n q) (c : Nat) (hs : q.queue ≠ [] → MaySignal q.producers signaled) :
    ∃ q', q.take c signaled = .ok q' ∧ Inv n q' := by
  unfold BoundedBlockingQueue.take
  cases hq : q.queue with
  | nil =>
    refine ⟨_, if_pos rfl, h.maxSize, h.args, ?_, ?_, ?_, ?_⟩
    · rw [← hq]
      exact h.fifo
    · exact Nat.zero_le _
    · exact .zero
    · rw [← hq]
      exact h.producers
  | cons front queue =>
    have hlength : q.queue.length = queue.length + 1 := by rw [hq, List.length_cons]
    have hbound := h.bound
    have hconsumers := h.consumers
    rw [hlength] at hbound hconsumers
    refine ⟨_, if_neg nofun, h.maxSize, ?_, ?_, Nat.le_of_succ_le hbound, hconsumers.finish c, ?_⟩
    · rw [length_signal]
      exact h.args
    · rw [← h.fifo, hq, List.append_assoc]
      rfl
    · have hfree : q.maxSize - queue.length = q.maxSize - q.queue.length + 1 := by omega
      rw [hfree]
      exact h.producers.signal (hs (by rw [hq]; nofun))

theorem inv_safe : (machine (α := α)).Safe (Inv n) := by
  intro q a h hen
  cases a with
  | callPut x =>
    refine ⟨_, rfl, h.maxSize, ?_, h.fifo, h.bound, h.consumers, h.producers.call⟩
    rw [List.length_append, List.length_append, h.args]
    rfl
  | callTake => exact ⟨_, rfl, h.maxSize, h.args, h.fifo, h.bound, h.consumers.call, h.producers⟩
  | put p signaled =>
    have hstep : step q (.put p signaled) = match q.args[p]? with
      | some x => q.put p x signaled
      | none => .ok q := rfl
    show ∃ t, step q (.put p signaled) = .ok t ∧ Inv n t
    rw [hstep]
    cases q.args[p]? with
    | some x => exact h.put p x hen.2
    | none => exact ⟨q, rfl, h⟩
  | take c signaled => exact h.take c hen.2
  | wakeProducer p =>
    refine ⟨_, rfl, h.maxSize, ?_, h.fifo, h.bound, h.consumers, h.producers.wake p⟩
    rw [List.length_set]
    exact h.args
  | wakeConsumer c => exact ⟨_, rfl, h.maxSize, h.args, h.fifo, h.bound, h.consumers.wake c, h.producers⟩

-- ---------------------------------------------------------------------------
-- Runs
-- ---------------------------------------------------------------------------

/-- Whatever the threads do and whoever wakes up: what is taken is what was put,
in this order; nothing is put into a full queue; and no thread is left waiting
for what is there, with no other on its way to take it. -/
theorem fifo_no_lost_wakeup {maxSize : Nat} (h : machine.Run { maxSize } labels q) :
    q.taken <+: q.putted ∧ q.taken ++ q.queue = q.putted ∧ q.queue.length ≤ maxSize ∧
    (.waiting ∈ q.consumers → .woken ∉ q.consumers → q.queue = []) ∧
    (.waiting ∈ q.producers → .woken ∉ q.producers → q.queue.length = maxSize) ∧
    machine.NoFault q := by
  obtain ⟨hinv, hsafe⟩ := h.safe inv_safe (start_inv maxSize)
  have hbound := hinv.bound
  rw [hinv.maxSize] at hbound
  refine ⟨⟨q.queue, hinv.fifo⟩, hinv.fifo, hbound, fun hw hn => ?_, fun hw hn => ?_, hsafe⟩
  · exact List.length_eq_zero_iff.mp (hinv.consumers.stuck hw hn)
  · have hfree := hinv.producers.stuck hw hn
    rw [hinv.maxSize] at hfree
    exact Nat.le_antisymm hbound (Nat.sub_eq_zero_iff_le.mp hfree)

/-- One place: the second producer waits until the consumer, woken by the first,
has taken its element. -/
theorem fifo_one_place : ∃ q : BoundedBlockingQueue Nat, machine.Run { maxSize := 1 }
    [.callTake, .take 0 [], .callPut 5, .callPut 6, .put 0 [0], .put 1 [], .wakeProducer 1,
      .put 1 [], .callTake, .take 0 [1], .put 1 [], .take 1 []] q ∧
    q.putted = [5, 6] ∧ q.taken = [5, 6] ∧ q.taken <+: q.putted ∧ machine.NoFault q := by
  have hrun : ∃ q : BoundedBlockingQueue Nat, machine.Run { maxSize := 1 }
      [.callTake, .take 0 [], .callPut 5, .callPut 6, .put 0 [0], .put 1 [], .wakeProducer 1,
        .put 1 [], .callTake, .take 0 [1], .put 1 [], .take 1 []] q ∧
      q.putted = [5, 6] ∧ q.taken = [5, 6] :=
    Machine.exists_run (by decide +kernel)
  obtain ⟨q, hq, hput, htaken⟩ := hrun
  have hfifo := fifo_no_lost_wakeup hq
  exact ⟨q, hq, hput, htaken, hfifo.1, hfifo.2.2.2.2.2⟩

end BoundedBlockingQueue

end Muduo
