import Muduo.Lib.Machine

/-!
# ThreadPool

Threads that call `run`, the workers and `stop`. What is done under `mutex_` is
one step, and so is each read of `queue_` and `running_` outside of it.
-/

namespace Muduo

open Lib

namespace ThreadPool

/-- A task is known by the call of `run` it is given to. -/
abbrev Task := Nat

inductive Call
  | called
  | tested (empty : Bool)
  | executing
  | returned
  deriving DecidableEq

inductive Worker
  | looping
  | taking
  | waiting
  | took (task : Option Task)
  | executing (task : Task)
  | exited
  deriving DecidableEq

inductive Place
  | inRun
  | worker (w : Nat)
  deriving DecidableEq

inductive Fault
  | threads
  deriving DecidableEq

end ThreadPool

structure ThreadPool where
  threads : List ThreadPool.Worker := []
  queue : List ThreadPool.Task := []
  running : Bool := false
  calls : List ThreadPool.Call := []
  executions : List (ThreadPool.Task × ThreadPool.Place) := []

namespace ThreadPool

-- ---------------------------------------------------------------------------
-- The code
-- ---------------------------------------------------------------------------

def start (p : ThreadPool) (numThreads : Nat) : Except Fault ThreadPool := do
  ensure (p.threads = []) .threads
  return { p with running := true, threads := List.replicate numThreads .looping }

def notify (threads : List Worker) : Option Nat → List Worker
  | some w => threads.set w .taking
  | none => threads

def notifyAll (threads : List Worker) : List Worker :=
  threads.map fun worker => if worker = .waiting then .taking else worker

def stop (p : ThreadPool) : ThreadPool :=
  { p with running := false, threads := notifyAll p.threads }

def setCall (p : ThreadPool) (c : Task) (call : Call) : ThreadPool :=
  { p with calls := p.calls.set c call }

def setThread (p : ThreadPool) (w : Nat) (worker : Worker) : ThreadPool :=
  { p with threads := p.threads.set w worker }

def execute (p : ThreadPool) (task : Task) (place : Place) : ThreadPool :=
  { p with executions := p.executions ++ [(task, place)] }

/-- `take` from where it has the mutex, up to its end or to `wait`. -/
def take (p : ThreadPool) (w : Nat) : ThreadPool :=
  match p.queue with
  | [] => p.setThread w (if p.running then .waiting else .took none)
  | task :: queue => { p with queue }.setThread w (.took (some task))

-- ---------------------------------------------------------------------------
-- Runs
-- ---------------------------------------------------------------------------

inductive Label
  | run
  | test (c : Task)
  /-- `task()`, when the queue was empty. -/
  | callTask (c : Task)
  /-- The critical section, when it was not, and the thread `notify` wakes. -/
  | push (c : Task) (signaled : Option Nat)
  | finish (c : Task)
  | whileRunning (w : Nat)
  | take (w : Nat)
  /-- A wakeup nobody asked for. -/
  | wake (w : Nat)
  | took (w : Nat) (task : Option Task)
  | executed (w : Nat) (task : Task) (threw : Bool)
  | stop
  deriving DecidableEq

/-- `notify` wakes a thread that waits, if there is one. -/
def MaySignal (p : ThreadPool) : Option Nat → Prop
  | some w => p.threads[w]? = some .waiting
  | none => .waiting ∉ p.threads

instance : ∀ (p : ThreadPool) signaled, Decidable (p.MaySignal signaled)
  | p, some w => inferInstanceAs (Decidable (p.threads[w]? = some .waiting))
  | p, none => inferInstanceAs (Decidable (.waiting ∉ p.threads))

def Enabled (p : ThreadPool) : Label → Prop
  | .run => p.running
  | .test c => p.calls[c]? = some .called
  | .callTask c => p.calls[c]? = some (.tested true)
  | .push c signaled => p.calls[c]? = some (.tested false) ∧ p.MaySignal signaled
  | .finish c => p.calls[c]? = some .executing
  | .whileRunning w => p.threads[w]? = some .looping
  | .take w => p.threads[w]? = some .taking
  | .wake w => p.threads[w]? = some .waiting
  | .took w task => p.threads[w]? = some (.took task)
  | .executed w task _ => p.threads[w]? = some (.executing task)
  | .stop => p.running

instance : ∀ (p : ThreadPool) a, Decidable (p.Enabled a)
  | p, .run => inferInstanceAs (Decidable (p.running = true))
  | p, .test c => inferInstanceAs (Decidable (p.calls[c]? = _))
  | p, .callTask c => inferInstanceAs (Decidable (p.calls[c]? = _))
  | p, .push c signaled =>
    inferInstanceAs (Decidable (p.calls[c]? = some (.tested false) ∧ p.MaySignal signaled))
  | p, .finish c => inferInstanceAs (Decidable (p.calls[c]? = _))
  | p, .whileRunning w => inferInstanceAs (Decidable (p.threads[w]? = _))
  | p, .take w => inferInstanceAs (Decidable (p.threads[w]? = _))
  | p, .wake w => inferInstanceAs (Decidable (p.threads[w]? = _))
  | p, .took w _ => inferInstanceAs (Decidable (p.threads[w]? = _))
  | p, .executed w _ _ => inferInstanceAs (Decidable (p.threads[w]? = _))
  | p, .stop => inferInstanceAs (Decidable (p.running = true))

def next (p : ThreadPool) : Label → ThreadPool
  | .run => { p with calls := p.calls ++ [.called] }
  | .test c => p.setCall c (.tested p.queue.isEmpty)
  | .callTask c => (p.setCall c .executing).execute c .inRun
  | .push c signaled =>
    { p with queue := p.queue ++ [c], threads := notify p.threads signaled }.setCall c .returned
  | .finish c => p.setCall c .returned
  | .whileRunning w => p.setThread w (if p.running then .taking else .exited)
  | .take w => p.take w
  | .wake w => p.setThread w .taking
  | .took w (some task) => (p.setThread w (.executing task)).execute task (.worker w)
  | .took w none => p.setThread w .looping
  | .executed w _ threw => p.setThread w (if threw then .exited else .looping)
  | .stop => p.stop

def machine : Machine ThreadPool Label Fault where
  enabled := Enabled
  step p a := .ok (p.next a)

instance : ∀ p a, Decidable (machine.enabled p a) :=
  fun p a => inferInstanceAs (Decidable (p.Enabled a))

/-- What the pool is for. -/
structure Handed (p : ThreadPool) : Prop where
  outside : ∀ e ∈ p.executions, e.2 ≠ .inRun
  once : (p.executions.map Prod.fst).Nodup
  /-- A task whose call is over is with the workers. -/
  kept : ∀ c, p.calls[c]? = some .returned →
    c ∈ p.queue ∨ .took (some c) ∈ p.threads ∨ ∃ w, (c, .worker w) ∈ p.executions

-- ---------------------------------------------------------------------------
-- The queue is never filled
-- ---------------------------------------------------------------------------

def Call.Begun (call : Option Call) : Prop := call = some .executing ∨ call = some .returned

def Worker.Idle : Worker → Prop
  | .took (some _) => False
  | .executing _ => False
  | _ => True

structure Inline (p : ThreadPool) : Prop where
  queue : p.queue = []
  tested : ∀ c : Task, p.calls[c]? ≠ some (Call.tested false)
  threads : ∀ worker ∈ p.threads, worker.Idle
  executions : ∀ (c : Task) place, (c, place) ∈ p.executions ↔ place = .inRun ∧ Call.Begun p.calls[c]?
  once : (p.executions.map Prod.fst).Nodup

variable {p q : ThreadPool}

theorem start_inline (h : ({} : ThreadPool).start n = .ok p) : Inline p := by
  obtain ⟨_, -, h⟩ := bind_ok.mp h
  cases h
  constructor
  · rfl
  · intro c
    simp
  · intro worker hworker
    obtain rfl := List.eq_of_mem_replicate hworker
    trivial
  · simp [Call.Begun]
  · simp

theorem Inline.of_threads (h : Inline p) {threads : List Worker}
    (hidle : ∀ worker ∈ threads, worker.Idle) (running : Bool) :
    Inline { p with threads, running } :=
  ⟨h.queue, h.tested, hidle, h.executions, h.once⟩

theorem Inline.setThread (h : Inline p) {worker : Worker} (hidle : worker.Idle) (w : Nat) :
    Inline (p.setThread w worker) := by
  refine h.of_threads (fun worker' hmem => ?_) p.running
  rcases List.mem_or_eq_of_mem_set hmem with hmem | rfl
  · exact h.threads worker' hmem
  · exact hidle

theorem Inline.stop (h : Inline p) : Inline p.stop := by
  refine h.of_threads (fun worker' hmem' => ?_) false
  obtain ⟨worker, hmem, rfl⟩ := List.mem_map.mp hmem'
  split
  · trivial
  · exact h.threads worker hmem

theorem Inline.take (h : Inline p) (w : Nat) : Inline (p.take w) := by
  unfold ThreadPool.take
  rw [h.queue]
  refine h.setThread ?_ w
  split <;> trivial

theorem getElem?_setCall {old : Call} (hc : p.calls[c]? = some old) (call : Call) (c' : Task) :
    (p.setCall c call).calls[c']? = if c' = c then some call else p.calls[c']? := by
  obtain ⟨hlt, -⟩ := List.getElem?_eq_some_iff.mp hc
  simp only [ThreadPool.setCall, List.getElem?_set, hlt, if_true, eq_comm (a := c)]

theorem Inline.setCall (h : Inline p) {old call : Call} (hc : p.calls[c]? = some old)
    (hcall : call ≠ .tested false) (hbegun : Call.Begun (some call) ↔ Call.Begun (some old)) :
    Inline (p.setCall c call) := by
  refine ⟨h.queue, fun c' => ?_, h.threads, fun c' place => ?_, h.once⟩
  · rw [getElem?_setCall hc]
    split
    · simpa using hcall
    · exact h.tested c'
  · rw [getElem?_setCall hc, show (p.setCall c call).executions = p.executions from rfl,
      h.executions]
    split
    · rename_i heq
      rw [heq, hc, hbegun]
    · rfl

theorem Inline.callTask (h : Inline p) {old : Call} (hc : p.calls[c]? = some old)
    (hold : ¬Call.Begun (some old)) : Inline ((p.setCall c .executing).execute c .inRun) := by
  refine ⟨h.queue, fun c' => ?_, h.threads, fun c' place => ?_, ?_⟩
  · show (p.setCall c .executing).calls[c']? ≠ _
    rw [getElem?_setCall hc]
    split
    · simp
    · exact h.tested c'
  · show (c', place) ∈ p.executions ++ [(c, .inRun)] ↔
      place = .inRun ∧ Call.Begun (p.setCall c .executing).calls[c']?
    rw [List.mem_append, List.mem_singleton, h.executions, getElem?_setCall hc]
    split
    · rename_i heq
      have hnot : ¬(place = .inRun ∧ Call.Begun (some old)) := fun hand => hold hand.2
      rw [heq, hc, or_iff_right hnot]
      simp [Call.Begun]
    · rename_i hne
      simp [hne]
  · show ((p.executions ++ [(c, Place.inRun)]).map Prod.fst).Nodup
    rw [List.map_append, List.nodup_append]
    refine ⟨h.once, by simp, fun c₁ h₁ c₂ h₂ heq => ?_⟩
    obtain ⟨⟨c', place⟩, hmem, rfl⟩ := List.mem_map.mp h₁
    obtain rfl := List.mem_singleton.mp h₂
    have hbegun := ((h.executions c' place).mp hmem).2
    simp only at heq
    rw [heq, hc] at hbegun
    exact hold hbegun

theorem Inline.run (h : Inline p) : Inline { p with calls := p.calls ++ [.called] } := by
  have hcalls (c : Task) : (p.calls ++ [.called])[c]? = p.calls[c]? ∨
      (p.calls ++ [.called])[c]? = some .called ∧ p.calls[c]? = none := by
    rcases Nat.lt_trichotomy c p.calls.length with hlt | rfl | hgt
    · exact .inl (List.getElem?_append_left hlt)
    · exact .inr ⟨List.getElem?_concat_length, List.getElem?_eq_none (Nat.le_refl _)⟩
    · left
      rw [List.getElem?_eq_none (by simp; omega), List.getElem?_eq_none (Nat.le_of_lt hgt)]
  refine ⟨h.queue, fun c => ?_, h.threads, fun c place => ?_, h.once⟩
  · rcases hcalls c with heq | ⟨heq, -⟩
    · rw [heq]
      exact h.tested c
    · rw [heq]
      simp
  · rw [h.executions]
    rcases hcalls c with heq | ⟨heq, hnone⟩
    · rw [heq]
    · rw [heq, hnone]
      simp [Call.Begun]

theorem inline_keeps : machine.Keeps Inline := by
  rintro p a q h ha ⟨⟩
  cases a with
  | run => exact h.run
  | test c =>
    rw [show p.next (.test c) = p.setCall c (.tested p.queue.isEmpty) from rfl, h.queue]
    exact h.setCall ha (by simp) (by simp [Call.Begun])
  | callTask c => exact h.callTask ha (by simp [Call.Begun])
  | push c signaled => exact absurd ha.1 (h.tested c)
  | finish c => exact h.setCall ha (by simp) (by simp [Call.Begun])
  | whileRunning w => exact h.setThread (by split <;> trivial) w
  | take w => exact h.take w
  | wake w => exact h.setThread (show Worker.Idle .taking from trivial) w
  | took w task =>
    cases task with
    | none => exact h.setThread (show Worker.Idle .looping from trivial) w
    | some task => exact (h.threads _ (List.mem_of_getElem? ha)).elim
  | executed w task threw => exact (h.threads _ (List.mem_of_getElem? ha)).elim
  | stop => exact h.stop

-- ---------------------------------------------------------------------------
-- Handing over
-- ---------------------------------------------------------------------------

/-- A call of `run` gets past its test of the queue. -/
def Label.Passes : Label → Prop
  | .callTask _ => True
  | .push _ _ => True
  | _ => False

instance : ∀ a : Label, Decidable a.Passes
  | .callTask _ => isTrue trivial
  | .push _ _ => isTrue trivial
  | .run | .test _ | .finish _ | .whileRunning _ | .take _ | .wake _ | .took _ _
  | .executed _ _ _ | .stop => isFalse id

theorem start_handed (h : ({} : ThreadPool).start n = .ok p) : Handed p := by
  obtain ⟨_, -, h⟩ := bind_ok.mp h
  cases h
  exact ⟨by simp, by simp, by simp⟩

theorem Inline.handed_iff_nil (h : Inline p) : Handed p ↔ p.executions = [] := by
  constructor
  · intro hh
    refine List.eq_nil_iff_forall_not_mem.mpr fun ⟨c, place⟩ hmem => ?_
    exact hh.outside _ hmem ((h.executions c place).mp hmem).1
  · intro hnil
    refine ⟨by simp [hnil], by simp [hnil], fun c hc => ?_⟩
    have hmem := (h.executions c .inRun).mpr ⟨rfl, .inr hc⟩
    simp [hnil] at hmem

/-- Only a call that passes its test executes anything. -/
theorem Inline.next_executions (h : Inline p) (ha : p.Enabled a) :
    (p.next a).executions = [] ↔ p.executions = [] ∧ ¬a.Passes := by
  have hsame (hsame : (p.next a).executions = p.executions) (hpasses : ¬a.Passes) :
      (p.next a).executions = [] ↔ p.executions = [] ∧ ¬a.Passes := by
    rw [hsame, and_iff_left hpasses]
  cases a with
  | callTask c => simp [next, execute, Label.Passes]
  | push c signaled => exact absurd ha.1 (h.tested c)
  | take w =>
    refine hsame ?_ id
    rw [show p.next (.take w) = p.take w from rfl, ThreadPool.take, h.queue]
    rfl
  | took w task =>
    cases task with
    | none => exact hsame rfl id
    | some task => exact (h.threads _ (List.mem_of_getElem? ha)).elim
  | _ => exact hsame rfl id

/-- The first call of `run` that passes its test of the queue keeps its task
from the workers. -/
theorem handed_iff (hs : ({} : ThreadPool).start n = .ok p) (h : machine.Run p as q) :
    machine.Holds Handed p as ↔ machine.Meets (fun _ a => ¬a.Passes) p as := by
  refine h.holds_iff_meets inline_keeps ?_ (start_inline hs) (start_handed hs)
  rintro p a q hi hh ha ⟨⟩
  have hi' := inline_keeps hi ha rfl
  rw [hi'.handed_iff_nil, hi.next_executions ha, and_iff_right (hi.handed_iff_nil.mp hh)]

def started : ThreadPool :=
  { running := true, threads := List.replicate 5 .looping }

theorem started_ok : ({} : ThreadPool).start 5 = .ok started := rfl

theorem handed_iff_started : machine.Holds Handed started [.run, .test 0] ↔
    machine.Meets (fun _ a => ¬a.Passes) started [.run, .test 0] :=
  handed_iff started_ok (.cons rfl rfl (.cons rfl rfl .nil))

/-- The first task given to five workers that wait for one. -/
theorem handed_inRun : ∃ p, machine.Run started
    ([0, 1, 2, 3, 4].flatMap (fun w => [.whileRunning w, .take w]) ++
      [.run, .test 0, .callTask 0, .finish 0]) p ∧
    (p.threads = List.replicate 5 .waiting ∧ p.calls = [.returned] ∧
      p.executions = [(0, .inRun)] ∧ ¬Handed p) := by
  refine Machine.exists_run ⟨_, rfl, rfl, rfl, rfl, fun hh => ?_⟩
  exact hh.outside (0, .inRun) (by decide) rfl

end ThreadPool

end Muduo
