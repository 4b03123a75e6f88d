import Muduo.Base.ThreadPool
import Mathlib.Algebra.GroupWithZero.Nat

/-!
# Stopping a ThreadPool

`stop` joins the workers, so each of them has to get to its end: nobody waits once
`running_` is false, and a worker that does not wait has few steps left.
-/

namespace Muduo.ThreadPool

open Lib

variable {p q : ThreadPool}

-- ---------------------------------------------------------------------------
-- Steps that are left
-- ---------------------------------------------------------------------------

/-- How many steps a worker has left at most, when `running_` is false. -/
def Worker.left : Worker → Nat
  | .exited => 0
  | .looping => 1
  | .executing _ => 2
  | .took none => 2
  | .took (some _) => 3
  | .taking => 4
  | .waiting => 5

theorem Worker.left_le (worker : Worker) : worker.left ≤ 5 := by
  cases worker with
  | took task => cases task <;> simp [left]
  | _ => simp [left]

def left (p : ThreadPool) : Nat := (p.threads.map Worker.left).sum

theorem left_le (p : ThreadPool) : p.left ≤ 5 * p.threads.length := by
  unfold left
  induction p.threads with
  | nil => exact Nat.le_refl _
  | cons worker threads ih =>
    have hle := worker.left_le
    rw [List.map_cons, List.sum_cons, List.length_cons]
    omega

theorem sum_set {threads : List Worker} {old : Worker} (h : threads[w]? = some old)
    (worker : Worker) : ((threads.set w worker).map Worker.left).sum + old.left =
      (threads.map Worker.left).sum + worker.left := by
  induction threads generalizing w with
  | nil => cases h
  | cons first threads ih =>
    cases w with
    | zero =>
      cases h
      simp only [List.set_cons_zero, List.map_cons, List.sum_cons]
      omega
    | succ w =>
      have hrest := ih h
      simp only [List.set_cons_succ, List.map_cons, List.sum_cons]
      omega

theorem left_setThread {old : Worker} (h : p.threads[w]? = some old) (worker : Worker) :
    (p.setThread w worker).left + old.left = p.left + worker.left := sum_set h worker

-- ---------------------------------------------------------------------------
-- After `stop`
-- ---------------------------------------------------------------------------

structure Stopped (p : ThreadPool) : Prop where
  running : p.running = false
  awake : .waiting ∉ p.threads

/-- Nobody waits when `running_` is false. -/
def Noticed (p : ThreadPool) : Prop := p.running = false → .waiting ∉ p.threads

def Label.isWorker : Label → Bool
  | .whileRunning _ => true
  | .take _ => true
  | .wake _ => true
  | .took _ _ => true
  | .executed _ _ _ => true
  | _ => false

theorem not_waiting_set {threads : List Worker} (h : .waiting ∉ threads) (w : Nat)
    (hw : worker ≠ .waiting) : .waiting ∉ threads.set w worker := by
  intro hm
  rcases List.mem_or_eq_of_mem_set hm with hm | heq
  · exact h hm
  · exact hw heq.symm

theorem notifyAll_awake (threads : List Worker) : .waiting ∉ notifyAll threads := by
  intro hm
  obtain ⟨worker, -, heq⟩ := List.mem_map.mp hm
  split at heq
  · cases heq
  · exact absurd heq ‹_›

theorem Noticed.setThread (h : Noticed p) (w : Nat) (worker : Worker)
    (hw : p.running = false → worker ≠ .waiting) : Noticed (p.setThread w worker) :=
  fun hr => not_waiting_set (h hr) w (hw hr)

theorem Noticed.take (h : Noticed p) (w : Nat) : Noticed (p.take w) := by
  unfold ThreadPool.take
  split
  · refine h.setThread w _ fun hr => ?_
    simp [hr]
  · rename_i task queue _
    have hpop : Noticed { p with queue } := h
    exact hpop.setThread w (.took (some task)) fun _ => nofun

theorem noticed_keeps : machine.Keeps Noticed := by
  rintro p a q h ha ⟨⟩
  cases a with
  | push c signaled =>
    intro hr
    cases signaled with
    | none => exact h hr
    | some w => exact not_waiting_set (h hr) w (show Worker.taking ≠ .waiting from nofun)
  | whileRunning w => exact h.setThread w _ fun hr => by simp [hr]
  | take w => exact h.take w
  | wake w => exact h.setThread w .taking fun _ => nofun
  | took w task =>
    cases task with
    | none => exact h.setThread w .looping fun _ => nofun
    | some task => exact h.setThread w (.executing task) fun _ => nofun
  | executed w task threw => exact h.setThread w _ fun _ => by cases threw <;> simp
  | stop => exact fun _ => notifyAll_awake p.threads
  | run | test c | callTask c | finish c => exact h

theorem stopped_keeps : machine.Keeps Stopped := by
  intro p a q h ha hs
  refine ⟨?_, noticed_keeps (fun _ => h.awake) ha hs ?_⟩ <;>
  · cases hs
    cases a with
    | take w =>
      show (p.take w).running = false
      unfold ThreadPool.take
      split <;> exact h.running
    | took w task => cases task <;> exact h.running
    | stop => rfl
    | _ => exact h.running

theorem left_lt (h : Stopped p) (ha : p.Enabled a) :
    (p.next a).left + (if a.isWorker then 1 else 0) ≤ p.left := by
  cases a with
  | whileRunning w =>
    have hleft := left_setThread ha .exited
    simp only [Worker.left] at hleft
    simp only [next, h.running, Label.isWorker, Bool.false_eq_true, if_false, if_true]
    omega
  | take w =>
    simp only [next, ThreadPool.take, Label.isWorker, if_true]
    cases p.queue with
    | nil =>
      have hleft := left_setThread ha (.took none)
      simp only [Worker.left] at hleft
      simp only [h.running, Bool.false_eq_true, if_false]
      omega
    | cons task queue =>
      have hleft := left_setThread (p := { p with queue }) ha (.took (some task))
      have hsame : ({ p with queue } : ThreadPool).left = p.left := rfl
      simp only [Worker.left] at hleft
      simp only
      omega
  | wake w => exact absurd (List.mem_of_getElem? ha) h.awake
  | took w task =>
    cases task with
    | none =>
      have hleft := left_setThread ha .looping
      simp only [Worker.left] at hleft
      simp only [next, Label.isWorker, if_true]
      omega
    | some task =>
      have hleft := left_setThread ha (.executing task)
      simp only [Worker.left] at hleft
      simp only [next, Label.isWorker, if_true]
      have hsame : ((p.setThread w (.executing task)).execute task (.worker w)).left =
        (p.setThread w (.executing task)).left := rfl
      omega
  | executed w task threw =>
    have hleft := left_setThread ha (if threw then .exited else .looping)
    have hle : (if threw then Worker.exited else .looping).left ≤ 1 := by cases threw <;> decide
    have htwo : (Worker.executing task).left = 2 := rfl
    simp only [next, Label.isWorker, if_true]
    omega
  | push c signaled =>
    cases signaled with
    | none => exact Nat.le_refl _
    | some w => exact absurd (List.mem_of_getElem? ha.2) h.awake
  | stop =>
    have hsame : notifyAll p.threads = p.threads := by
      unfold notifyAll
      refine (List.map_congr_left fun worker hm => ?_).trans (List.map_id _)
      refine if_neg fun (heq : worker = .waiting) => h.awake ?_
      rwa [heq] at hm
    simp [next, ThreadPool.stop, left, hsame, Label.isWorker]
  | run | test c | callTask c | finish c => exact Nat.le_refl _

theorem Stopped.worker_enabled (h : Stopped p) {worker : Worker} (hw : worker ∈ p.threads)
    (hne : worker ≠ .exited) : ∃ a : Label, a.isWorker = true ∧ p.Enabled a := by
  obtain ⟨w, hget⟩ := List.mem_iff_getElem?.mp hw
  cases worker with
  | looping => exact ⟨.whileRunning w, rfl, hget⟩
  | taking => exact ⟨.take w, rfl, hget⟩
  | waiting => exact absurd hw h.awake
  | took task => exact ⟨.took w task, rfl, hget⟩
  | executing task => exact ⟨.executed w task false, rfl, hget⟩
  | exited => exact absurd rfl hne

-- ---------------------------------------------------------------------------
-- Runs
-- ---------------------------------------------------------------------------

theorem length_keeps (n : Nat) : machine.Keeps fun p => p.threads.length = n := by
  rintro p a q h ha ⟨⟩
  cases a with
  | push c signaled => cases signaled <;> simpa [next, notify, setCall] using h
  | take w =>
    simp only [next, ThreadPool.take]
    split <;> simpa [setThread] using h
  | took w task => cases task <;> simpa [next, setThread, execute] using h
  | stop => simpa [next, ThreadPool.stop, notifyAll] using h
  | whileRunning w | wake w | executed w task threw => simpa [next, setThread] using h
  | run | test c | callTask c | finish c => exact h

/-- Whenever `stop` has cleared `running_`, nobody waits; as long as a worker is
not at its end, one can go on; and all of them together take five steps each at
most, whatever else goes on. So every `join` comes back, if the tasks do. -/
theorem stop_joins (hs : ({} : ThreadPool).start n = .ok p) (h : machine.Run p as q)
    (hr : q.running = false) :
    .waiting ∉ q.threads ∧
    (∀ worker ∈ q.threads, worker ≠ .exited →
      ∃ a : Label, a.isWorker = true ∧ machine.enabled q a) ∧
    ∀ bs r, machine.Run q bs r → bs.countP Label.isWorker ≤ 5 * n := by
  obtain ⟨_, -, hs⟩ := bind_ok.mp hs
  cases hs
  have hlength := h.keeps (length_keeps n) (List.length_replicate ..)
  have hnoticed := h.keeps noticed_keeps (fun hr' => by cases hr')
  have hstopped : Stopped q := ⟨hr, hnoticed hr⟩
  refine ⟨hnoticed hr, fun worker hw hne => hstopped.worker_enabled hw hne, fun bs r hrun => ?_⟩
  have hcount := hrun.count_le (μ := left) stopped_keeps
    (fun hst ha hstep => by cases hstep; exact left_lt hst ha) hstopped
  have hle := q.left_le
  rw [hlength] at hle
  omega

/-- A worker waits for a task and another looks at `running_` when the pool is
stopped. -/
theorem stop_joins_waiting :
    ∃ q, machine.Run started [.whileRunning 0, .take 0, .stop] q ∧
      q.threads = .taking :: List.replicate 4 .looping ∧
      ∀ bs r, machine.Run q bs r → bs.countP Label.isWorker ≤ 5 * 5 := by
  have hrun : ∃ q, machine.Run started [.whileRunning 0, .take 0, .stop] q ∧
      (q.threads = .taking :: List.replicate 4 .looping ∧ q.running = false) :=
    Machine.exists_run ⟨_, rfl, rfl, rfl⟩
  obtain ⟨q, hq, hthreads, hr⟩ := hrun
  exact ⟨q, hq, hthreads, (stop_joins started_ok hq hr).2.2⟩

end Muduo.ThreadPool
