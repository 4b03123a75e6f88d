import Muduo.Base.BlockingQueue
import Muduo.Base.Mutex

/-!
# BlockingQueue, statement by statement

The threads take `put` and `take` one statement at a time, with the steps of `lock`,
`unlock` and `wait` among them. What they do is a run of the queue whose steps are
whole: a `put` happens when it notifies, and a round of the loop of `take` when it
looks at the queue.
-/

namespace Muduo

open Lib Lib.Monitor Function

namespace SteppedQueue

/-- What a thread is about to do; the calls of `take` are numbered. -/
inductive Call (α : Type u)
  | idle
  /-- `queue_.push_back(x)`, when it has the mutex -/
  | put (x : α)
  /-- `notEmpty_.notify()` -/
  | pushed (x : α)
  /-- `while(queue_.empty())`, when it has the mutex -/
  | take (c : Nat)
  | waiting (c : Nat)
  | leaving
  deriving DecidableEq

end SteppedQueue

structure SteppedQueue (α : Type u) where
  mutex : MutexLock := {}
  queue : List α := []
  call : Nat → SteppedQueue.Call α := fun _ => .idle
  /-- The threads that have no wakeup yet. -/
  waiters : List Nat := []
  callers : List Nat := []
  taken : List (Nat × α) := []

namespace SteppedQueue

-- ---------------------------------------------------------------------------
-- The code
-- ---------------------------------------------------------------------------

def setCall (s : SteppedQueue α) (i : Nat) (pc : Call α) : SteppedQueue α :=
  { s with call := update s.call i pc }

def sync (s : SteppedQueue α) (a : MutexLock.Label) : SteppedQueue α :=
  { s with mutex := s.mutex.next a }

/-- The loop of `take`, and what comes behind it. -/
def test (s : SteppedQueue α) (i c : Nat) : Except BlockingQueue.Fault (SteppedQueue α) :=
  if s.queue = [] then
    return { (s.setCall i (.waiting c)).sync (.wait i) with waiters := s.waiters ++ [i] }
  else
    match s.queue with
    | [] => .error .empty
    | front :: queue =>
      return { s.setCall i .leaving with queue, taken := s.taken ++ [(c, front)] }

inductive Label (α : Type u)
  | callPut (i : Nat) (x : α)
  | callTake (i : Nat)
  | lock (i : Nat)
  | assign (i : Nat)
  | push_back (i : Nat) (x : α)
  | notify (i : Nat) (x : α) (signaled : List Nat)
  | test (i c : Nat)
  /-- A wakeup nobody asked for. -/
  | unasked (i : Nat)
  | wake (i c : Nat)
  | unassign (i : Nat)
  | unlock (i : Nat)

def Label.put? : Label α → Option α
  | .notify _ x _ => some x
  | _ => none

def Enabled (s : SteppedQueue α) : Label α → Prop
  | .callPut i _ | .callTake i => s.call i = .idle
  | .lock i => s.call i ≠ .idle ∧ s.mutex.Enabled (.lock i)
  | .assign i => s.mutex.Enabled (.assign i)
  | .push_back i x => s.call i = .put x ∧ s.mutex.thread i = .inside
  | .notify i x signaled =>
    s.call i = .pushed x ∧ signaled ⊆ s.waiters ∧ (s.waiters ≠ [] → signaled ≠ [])
  | .test i c => s.call i = .take c ∧ s.mutex.thread i = .inside
  | .unasked i => i ∈ s.waiters
  | .wake i c => s.call i = .waiting c ∧ i ∉ s.waiters ∧ s.mutex.Enabled (.wake i)
  | .unassign i => s.call i = .leaving ∧ s.mutex.Enabled (.unassign i)
  | .unlock i => s.mutex.Enabled (.unlock i)

def step (s : SteppedQueue α) : Label α → Except BlockingQueue.Fault (SteppedQueue α)
  | .callPut i x => return s.setCall i (.put x)
  | .callTake i =>
    return { s.setCall i (.take s.callers.length) with callers := s.callers ++ [i] }
  | .lock i => return s.sync (.lock i)
  | .assign i => return s.sync (.assign i)
  | .push_back i x => return { s.setCall i (.pushed x) with queue := s.queue ++ [x] }
  | .notify i _ signaled =>
    return { s.setCall i .leaving with waiters := s.waiters.filter (· ∉ signaled) }
  | .test i c => s.test i c
  | .unasked i => return { s with waiters := s.waiters.filter (· ≠ i) }
  | .wake i c => return (s.setCall i (.take c)).sync (.wake i)
  | .unassign i => return s.sync (.unassign i)
  | .unlock i => return (s.setCall i .idle).sync (.unlock i)

def machine : Machine (SteppedQueue α) (Label α) BlockingQueue.Fault where
  enabled := Enabled
  step := step

instance [DecidableEq α] (s : SteppedQueue α) (a : Label α) :
    Decidable (machine.enabled s a) := by
  unfold machine Enabled
  cases a <;> infer_instance

variable {s s' : SteppedQueue α} {q q' : BlockingQueue α} {i j c : Nat} {pc : Call α}
  {a : MutexLock.Label}

-- ---------------------------------------------------------------------------
-- The queue it stands for
-- ---------------------------------------------------------------------------

def Call.number : Call α → Option Nat
  | .take c | .waiting c => some c
  | _ => none

/-- Where the mutex has a thread that is about to do this. -/
def Call.Fits : Call α → MutexLock.Pc → Prop
  | .idle, pc => pc = .out
  | .put _, pc | .take _, pc => pc = .out ∨ pc = .locking ∨ pc = .inside
  | .pushed _, pc => pc = .inside
  | .waiting _, pc => pc = .waiting
  | .leaving, pc => pc = .inside ∨ pc = .unlocking

/-- The threads, the mutex and the condition agree. -/
structure Sound (s : SteppedQueue α) : Prop where
  mutex : s.mutex.Inv
  fits : ∀ i, (s.call i).Fits (s.mutex.thread i)
  waiters : ∀ i ∈ s.waiters, ∃ c, s.call i = .waiting c
  callers : ∀ i c, (s.call i).number = some c → s.callers[c]? = some i

/-- The calls of `take` are where they are in the whole steps. -/
structure Calls (s : SteppedQueue α) (consumers : List Phase) : Prop where
  length : consumers.length = s.callers.length
  take : ∀ i c, s.call i = .take c → Ready consumers c
  waiting : ∀ i c, s.call i = .waiting c →
    consumers[c]? = some (if i ∈ s.waiters then .waiting else .woken)
  present : ∀ c phase, consumers[c]? = some phase → phase ≠ .returned →
    ∃ i, (s.call i).number = some c

/-- The queue is the same unless a thread is between `push_back` and `notify`. -/
structure Holds (s : SteppedQueue α) (q : BlockingQueue α) : Prop where
  taken : s.taken = q.taken
  pushed : ∀ i x, s.call i = .pushed x → s.queue = q.queue ++ [x]
  whole : (∀ i x, s.call i ≠ .pushed x) → s.queue = q.queue

structure Refines (s : SteppedQueue α) (q : BlockingQueue α) : Prop where
  sound : Sound s
  calls : Calls s q.consumers
  holds : Holds s q

theorem start_refines : Refines ({} : SteppedQueue α) {} := by
  refine ⟨⟨MutexLock.start_inv, fun _ => rfl, ?_, ?_⟩, ⟨rfl, ?_, ?_, ?_⟩,
    ⟨rfl, ?_, fun _ => rfl⟩⟩ <;> simp [Call.number]

-- ---------------------------------------------------------------------------
-- The threads
-- ---------------------------------------------------------------------------

theorem call_cases (hcall : s'.call = update s.call i pc) (j : Nat) :
    (j = i ∧ s'.call j = pc) ∨ (j ≠ i ∧ s'.call j = s.call j) := by
  by_cases hj : j = i
  · exact .inl ⟨hj, by rw [hcall, hj, update_self]⟩
  · exact .inr ⟨hj, by rw [hcall, update_of_ne hj]⟩

theorem Sound.alone (h : Sound s) (hi : (s.mutex.thread i).Holds)
    (hj : (s.mutex.thread j).Holds) : j = i :=
  Option.some.inj (((h.mutex.owner j).mpr hj).symm.trans ((h.mutex.owner i).mpr hi))

theorem Sound.pushed_alone (h : Sound s) (hi : s.mutex.thread i = .inside)
    (hc : s.call j = .pushed x) : j = i := by
  have hfits := h.fits j
  rw [hc] at hfits
  have hin : s.mutex.thread j = .inside := hfits
  exact h.alone (by simp [hi, MutexLock.Pc.Holds]) (by simp [hin, MutexLock.Pc.Holds])

theorem Sound.not_waiter (h : Sound s) (hc : ∀ c, s.call i ≠ .waiting c) : i ∉ s.waiters := by
  intro hm
  obtain ⟨c, hw⟩ := h.waiters i hm
  exact hc c hw

theorem Sound.sync (h : Sound s) (ha : s.mutex.Enabled a)
    (hf : (s.call a.tid).Fits ((s.mutex.next a).thread a.tid)) : Sound (s.sync a) := by
  refine ⟨MutexLock.inv_keeps h.mutex ha rfl, fun j => ?_, h.waiters, h.callers⟩
  by_cases hj : j = a.tid
  · exact hj ▸ hf
  · show (s.call j).Fits ((s.mutex.next a).thread j)
    rw [MutexLock.thread_of_ne hj]
    exact h.fits j

theorem Sound.update (h : Sound s) (hcall : s'.call = update s.call i pc)
    (hmutex : s'.mutex.Inv) (hothers : ∀ j, j ≠ i → s'.mutex.thread j = s.mutex.thread j)
    (hf : pc.Fits (s'.mutex.thread i))
    (hw : ∀ j ∈ s'.waiters, j ∈ s.waiters ∧ j ≠ i ∨ j = i ∧ ∃ c, pc = .waiting c)
    (hc : s.callers <+: s'.callers) (hn : ∀ c, pc.number = some c → s'.callers[c]? = some i) :
    Sound s' := by
  refine ⟨hmutex, fun j => ?_, fun j hj => ?_, fun j c hj => ?_⟩
  · rcases call_cases hcall j with ⟨rfl, hpc⟩ | ⟨hne, hpc⟩
    · rw [hpc]
      exact hf
    · rw [hpc, hothers j hne]
      exact h.fits j
  · rcases call_cases hcall j with ⟨rfl, hpc⟩ | ⟨hne, hpc⟩
    · rcases hw j hj with ⟨-, hne⟩ | ⟨-, hwait⟩
      · exact absurd rfl hne
      · rwa [hpc]
    · rw [hpc]
      exact h.waiters j ((hw j hj).resolve_right fun hi => hne hi.1).1
  · rcases call_cases hcall j with ⟨rfl, hpc⟩ | ⟨hne, hpc⟩ <;> rw [hpc] at hj
    · exact hn c hj
    · obtain ⟨more, hmore⟩ := hc
      have hcaller := h.callers j c hj
      rw [← hmore, List.getElem?_append_left (List.getElem?_eq_some_iff.mp hcaller).1]
      exact hcaller

theorem Sound.move (h : Sound s) (ha : s.mutex.Enabled a)
    (hcall : s'.call = Function.update s.call a.tid pc) (hmutex : s'.mutex = s.mutex.next a)
    (hf : pc.Fits ((s.mutex.next a).thread a.tid))
    (hw : ∀ j ∈ s'.waiters, j ∈ s.waiters ∧ j ≠ a.tid ∨ j = a.tid ∧ ∃ c, pc = .waiting c)
    (hc : s.callers <+: s'.callers)
    (hn : ∀ c, pc.number = some c → s'.callers[c]? = some a.tid) : Sound s' := by
  refine h.update hcall ?_ (fun j hj => ?_) (hmutex ▸ hf) hw hc hn
  · rw [hmutex]
    exact MutexLock.inv_keeps h.mutex ha rfl
  · rw [hmutex]
    exact MutexLock.thread_of_ne hj

theorem waiters_of_subset {waiters : List Nat} (hs : waiters ⊆ s.waiters) (hi : i ∉ waiters) :
    ∀ j ∈ waiters, j ∈ s.waiters ∧ j ≠ i ∨ j = i ∧ ∃ c, pc = .waiting c := by
  intro j hj
  refine .inl ⟨hs hj, ?_⟩
  rintro rfl
  exact hi hj

theorem Sound.number (h : Sound s) (hn : pc.number = none ∨ pc.number = (s.call i).number) :
    ∀ c, pc.number = some c → s.callers[c]? = some i := by
  intro c hc
  rcases hn with hnone | hsame
  · rw [hnone] at hc
    cases hc
  · exact h.callers i c (hsame ▸ hc)

-- ---------------------------------------------------------------------------
-- The calls and the queue
-- ---------------------------------------------------------------------------

theorem Calls.update (h : Calls s consumers) (hcall : s'.call = update s.call i pc)
    (hwaiters : s'.waiters = s.waiters) (hcallers : s'.callers = s.callers)
    (hn : pc.number = (s.call i).number) (ht : ∀ c, pc = .take c → Ready consumers c)
    (hw : ∀ c, pc ≠ .waiting c) : Calls s' consumers := by
  refine ⟨hcallers ▸ h.length, fun j c hj => ?_, fun j c hj => ?_, fun c phase hp hne => ?_⟩
  · rcases call_cases hcall j with ⟨-, hpc⟩ | ⟨-, hpc⟩ <;> rw [hpc] at hj
    · exact ht c hj
    · exact h.take j c hj
  · rcases call_cases hcall j with ⟨-, hpc⟩ | ⟨-, hpc⟩ <;> rw [hpc] at hj
    · exact absurd hj (hw c)
    · rw [hwaiters]
      exact h.waiting j c hj
  · obtain ⟨j, hj⟩ := h.present c phase hp hne
    refine ⟨j, ?_⟩
    rcases call_cases hcall j with ⟨rfl, hpc⟩ | ⟨-, hpc⟩ <;> rw [hpc]
    · rw [hn, hj]
    · exact hj

theorem Holds.update (h : Holds s q) (hcall : s'.call = update s.call i pc)
    (hqueue : s'.queue = s.queue) (htaken : s'.taken = s.taken)
    (hold : ∀ x, s.call i ≠ .pushed x) (hnew : ∀ x, pc ≠ .pushed x) : Holds s' q := by
  refine ⟨htaken.trans h.taken, fun j x hj => ?_, fun hnone => ?_⟩
  · rcases call_cases hcall j with ⟨-, hpc⟩ | ⟨-, hpc⟩ <;> rw [hpc] at hj
    · exact absurd hj (hnew x)
    · exact hqueue.trans (h.pushed j x hj)
  · refine hqueue.trans (h.whole fun j x hj => ?_)
    rcases call_cases hcall j with ⟨rfl, -⟩ | ⟨-, hpc⟩
    · exact hold x hj
    · exact hnone j x (hpc.trans hj)

theorem Holds.leave (hs : Sound s) (hi : s.mutex.thread i = .inside)
    (hcall : s'.call = Function.update s.call i pc) (hnew : ∀ x, pc ≠ .pushed x)
    (htaken : s'.taken = q.taken) (hqueue : s'.queue = q.queue) : Holds s' q := by
  refine ⟨htaken, fun j x hj => ?_, fun _ => hqueue⟩
  rcases call_cases hcall j with ⟨-, hpc⟩ | ⟨hne, hpc⟩ <;> rw [hpc] at hj
  · exact absurd hj (hnew x)
  · exact absurd (hs.pushed_alone hi hj) hne

/-- A thread that has the mutex and has not pushed sees the whole queue. -/
theorem Refines.sees (h : Refines s q) (hi : s.mutex.thread i = .inside)
    (hc : ∀ x, s.call i ≠ .pushed x) : s.queue = q.queue := by
  refine h.holds.whole fun j x hj => ?_
  obtain rfl := h.sound.pushed_alone hi hj
  exact hc x hj

theorem Refines.sync (h : Refines s q) (ha : s.mutex.Enabled a)
    (hf : (s.call a.tid).Fits ((s.mutex.next a).thread a.tid)) : Refines (s.sync a) q :=
  ⟨h.sound.sync ha hf, ⟨h.calls.length, h.calls.take, h.calls.waiting, h.calls.present⟩,
    ⟨h.holds.taken, h.holds.pushed, h.holds.whole⟩⟩

-- ---------------------------------------------------------------------------
-- The whole steps
-- ---------------------------------------------------------------------------

theorem ready_append (h : Ready consumers c) : Ready (consumers ++ [.called]) c := by
  rcases h with h | h
  · exact .inl (by rw [List.getElem?_append_left (List.getElem?_eq_some_iff.mp h).1, h])
  · exact .inr (by rw [List.getElem?_append_left (List.getElem?_eq_some_iff.mp h).1, h])

theorem Refines.callTake (h : Refines s q) (ha : s.call i = .idle) :
    Refines { s.setCall i (.take s.callers.length) with callers := s.callers ++ [i] }
      { q with consumers := q.consumers ++ [.called] } := by
  have hcall : ({ s.setCall i (.take s.callers.length) with callers := s.callers ++ [i] } :
      SteppedQueue α).call = update s.call i (.take s.callers.length) := rfl
  have hfits := h.sound.fits i
  rw [ha] at hfits
  refine ⟨h.sound.update hcall h.sound.mutex (fun _ _ => rfl) (.inl hfits)
    (waiters_of_subset (List.Subset.refl _) (h.sound.not_waiter (by simp [ha])))
    (List.prefix_append ..) (by simp [Call.number]), ⟨?_, fun j c hj => ?_, fun j c hj => ?_,
      fun c phase hp hne => ?_⟩, ?_⟩
  · simp [h.calls.length]
  · rcases call_cases hcall j with ⟨-, hpc⟩ | ⟨-, hpc⟩ <;> rw [hpc] at hj
    · cases hj
      exact .inl (by simp [← h.calls.length])
    · exact ready_append (h.calls.take j c hj)
  · rcases call_cases hcall j with ⟨-, hpc⟩ | ⟨-, hpc⟩ <;> rw [hpc] at hj
    · cases hj
    · have hphase := h.calls.waiting j c hj
      show (q.consumers ++ [.called])[c]? = _
      rw [List.getElem?_append_left (List.getElem?_eq_some_iff.mp hphase).1]
      exact hphase
  · by_cases hc : c < q.consumers.length
    · rw [List.getElem?_append_left hc] at hp
      obtain ⟨j, hj⟩ := h.calls.present c phase hp hne
      refine ⟨j, ?_⟩
      rcases call_cases hcall j with ⟨rfl, -⟩ | ⟨-, hpc⟩
      · rw [ha] at hj
        cases hj
      · rw [hpc, hj]
    · refine ⟨i, ?_⟩
      have hlast : c = s.callers.length := by
        have hlt := (List.getElem?_eq_some_iff.mp hp).1
        simp only [List.length_append, List.length_singleton] at hlt
        have hlength := h.calls.length
        omega
      simp [setCall, Call.number, hlast]
  · have hholds := h.holds.update hcall rfl rfl (by simp [ha]) (by simp)
    exact ⟨hholds.taken, hholds.pushed, hholds.whole⟩

theorem Refines.push_back (h : Refines s q) (ha : s.call i = .put x)
    (hi : s.mutex.thread i = .inside) :
    Refines { s.setCall i (.pushed x) with queue := s.queue ++ [x] } q := by
  have hcall : ({ s.setCall i (.pushed x) with queue := s.queue ++ [x] } : SteppedQueue α).call =
      update s.call i (.pushed x) := rfl
  refine ⟨h.sound.update hcall h.sound.mutex (fun _ _ => rfl) hi
    (waiters_of_subset (List.Subset.refl _) (h.sound.not_waiter (by simp [ha])))
    (List.prefix_refl _) (by simp [Call.number]),
    h.calls.update hcall rfl rfl (by simp [ha, Call.number]) (by simp) (by simp),
    ⟨h.holds.taken, fun j y hj => ?_, fun hnone => ?_⟩⟩
  · rcases call_cases hcall j with ⟨-, hpc⟩ | ⟨hne, hpc⟩ <;> rw [hpc] at hj
    · cases hj
      exact congrArg (· ++ [x]) (h.sees hi (by simp [ha]))
    · exact absurd (h.sound.pushed_alone hi hj) hne
  · exact absurd (update_self ..) (hnone i x)

def woken (s : SteppedQueue α) (signaled : List Nat) : List Nat :=
  signaled.filterMap fun j => (s.call j).number

theorem mem_woken : c ∈ s.woken signaled ↔ ∃ j ∈ signaled, (s.call j).number = some c :=
  List.mem_filterMap

theorem Refines.waiting_of_waiter (h : Refines s q) (hi : i ∈ s.waiters) :
    ∃ c, s.call i = .waiting c ∧ q.consumers[c]? = some .waiting := by
  obtain ⟨c, hc⟩ := h.sound.waiters i hi
  exact ⟨c, hc, by rw [h.calls.waiting i c hc, if_pos hi]⟩

theorem Refines.waiting_of_woken (h : Refines s q) (hs : signaled ⊆ s.waiters)
    (hc : c ∈ s.woken signaled) :
    ∃ j ∈ signaled, s.call j = .waiting c ∧ q.consumers[c]? = some .waiting := by
  obtain ⟨j, hj, hn⟩ := mem_woken.mp hc
  obtain ⟨d, hd, hphase⟩ := h.waiting_of_waiter (hs hj)
  rw [hd] at hn
  cases hn
  exact ⟨j, hj, hd, hphase⟩

theorem Refines.maySignal (h : Refines s q) (hs : signaled ⊆ s.waiters)
    (hne : s.waiters ≠ [] → signaled ≠ []) : MaySignal q.consumers (s.woken signaled) := by
  refine ⟨fun c hc => ?_, fun hm => ?_⟩
  · obtain ⟨_, -, -, hphase⟩ := h.waiting_of_woken hs hc
    exact hphase
  · obtain ⟨c, hc⟩ := List.mem_iff_getElem?.mp hm
    obtain ⟨j, hj⟩ := h.calls.present c _ hc (by simp)
    have hw : j ∈ s.waiters := by
      cases hpc : s.call j with
      | take d =>
        rw [hpc] at hj
        cases hj
        rcases h.calls.take j c hpc with hr | hr <;> simp [hr] at hc
      | waiting d =>
        rw [hpc] at hj
        cases hj
        by_contra hnot
        rw [h.calls.waiting j c hpc, if_neg hnot] at hc
        cases hc
      | idle | put _ | pushed _ | leaving =>
        rw [hpc] at hj
        cases hj
    obtain ⟨k, rest, rfl⟩ := List.exists_cons_of_ne_nil (hne (List.ne_nil_of_mem hw))
    obtain ⟨d, hd, -⟩ := h.waiting_of_waiter (hs List.mem_cons_self)
    refine List.ne_nil_of_mem (a := d) (mem_woken.mpr ⟨k, List.mem_cons_self, ?_⟩)
    rw [hd]
    rfl

theorem Sound.number_inj (h : Sound s) (hi : (s.call i).number = some c)
    (hj : (s.call j).number = some c) : j = i :=
  Option.some.inj ((h.callers j c hj).symm.trans (h.callers i c hi))

theorem Refines.notify (h : Refines s q) (ha : s.call i = .pushed x)
    (hs : signaled ⊆ s.waiters) :
    Refines { s.setCall i .leaving with waiters := s.waiters.filter (· ∉ signaled) }
      (q.put x (s.woken signaled)) := by
  have hcall : ({ s.setCall i .leaving with waiters := s.waiters.filter (· ∉ signaled) } :
      SteppedQueue α).call = update s.call i .leaving := rfl
  have hin : s.mutex.thread i = .inside := by
    have hfits := h.sound.fits i
    rwa [ha] at hfits
  have hsignal (c : Nat) : (signal q.consumers (s.woken signaled))[c]? =
      if c ∈ s.woken signaled then some .woken else q.consumers[c]? := by
    refine getElem?_signal (fun d hd => ?_) c
    obtain ⟨_, -, -, hphase⟩ := h.waiting_of_woken hs hd
    exact (List.getElem?_eq_some_iff.mp hphase).1
  refine ⟨h.sound.update hcall h.sound.mutex (fun _ _ => rfl) (.inl hin)
    (waiters_of_subset List.filter_sublist.subset
      fun hm => h.sound.not_waiter (by simp [ha]) (List.mem_filter.mp hm).1)
    (List.prefix_refl _) (by simp [Call.number]), ⟨?_, fun j c hj => ?_, fun j c hj => ?_,
      fun c phase hp hne => ?_⟩, .leave h.sound hin hcall (by simp) h.holds.taken
      (h.holds.pushed i x ha)⟩
  · exact (length_signal ..).trans h.calls.length
  · rcases call_cases hcall j with ⟨-, hpc⟩ | ⟨-, hpc⟩ <;> rw [hpc] at hj
    · cases hj
    · -- a call that runs is not woken
      have hnot : c ∉ s.woken signaled := by
        intro hm
        obtain ⟨k, hk, hwait, -⟩ := h.waiting_of_woken hs hm
        obtain rfl := h.sound.number_inj (i := k) (j := j) (by rw [hwait]; rfl) (by rw [hj]; rfl)
        rw [hj] at hwait
        cases hwait
      have hready := h.calls.take j c hj
      unfold Ready at hready ⊢
      show (signal _ _)[c]? = _ ∨ (signal _ _)[c]? = _
      rwa [hsignal, if_neg hnot]
  · rcases call_cases hcall j with ⟨-, hpc⟩ | ⟨-, hpc⟩ <;> rw [hpc] at hj
    · cases hj
    · have hiff : c ∈ s.woken signaled ↔ j ∈ signaled := by
        refine mem_woken.trans ⟨?_, fun hm => ⟨j, hm, by rw [hj]; rfl⟩⟩
        rintro ⟨k, hk, hn⟩
        obtain rfl := h.sound.number_inj (i := k) (j := j) hn (by rw [hj]; rfl)
        exact hk
      show (signal _ _)[c]? = _
      rw [hsignal, h.calls.waiting j c hj]
      by_cases hm : j ∈ signaled
      · simp [hiff, hm]
      · simp [hiff, hm]
  · obtain ⟨old, hold, hneold⟩ : ∃ old, q.consumers[c]? = some old ∧ old ≠ .returned := by
      have hp : (signal q.consumers (s.woken signaled))[c]? = some phase := hp
      rw [hsignal] at hp
      split at hp
      · rename_i hm
        obtain ⟨_, -, -, hphase⟩ := h.waiting_of_woken hs hm
        exact ⟨_, hphase, by simp⟩
      · exact ⟨phase, hp, hne⟩
    obtain ⟨j, hj⟩ := h.calls.present c old hold hneold
    refine ⟨j, ?_⟩
    rcases call_cases hcall j with ⟨rfl, -⟩ | ⟨-, hpc⟩
    · rw [ha] at hj
      cases hj
    · rw [hpc, hj]

theorem Calls.set {phase : Phase} (hs : Sound s) (h : Calls s consumers)
    (hcall : s'.call = Function.update s.call i pc) (hcallers : s'.callers = s.callers)
    (hc : (s.call i).number = some c) (hn : pc.number = some c ∨ phase = .returned)
    (ht : ∀ d, pc ≠ .take d) (hw : ∀ d, pc = .waiting d →
      d = c ∧ phase = if i ∈ s'.waiters then .waiting else .woken)
    (hwaiters : ∀ j, j ≠ i → (j ∈ s'.waiters ↔ j ∈ s.waiters)) :
    Calls s' (consumers.set c phase) := by
  have hlt : c < consumers.length := by
    rw [h.length]
    exact (List.getElem?_eq_some_iff.mp (hs.callers i c hc)).1
  have hother {j d : Nat} (hne : j ≠ i) (hj : (s.call j).number = some d) :
      (consumers.set c phase)[d]? = consumers[d]? := by
    refine List.getElem?_set_ne ?_
    rintro rfl
    exact hne (hs.number_inj hc hj)
  refine ⟨by rw [List.length_set, hcallers, h.length], fun j d hj => ?_, fun j d hj => ?_,
    fun d old hp hne => ?_⟩
  · rcases call_cases hcall j with ⟨-, hpc⟩ | ⟨hne, hpc⟩ <;> rw [hpc] at hj
    · exact absurd hj (ht d)
    · unfold Ready
      rw [hother hne (by rw [hj]; rfl)]
      exact h.take j d hj
  · rcases call_cases hcall j with ⟨rfl, hpc⟩ | ⟨hne, hpc⟩ <;> rw [hpc] at hj
    · obtain ⟨rfl, rfl⟩ := hw d hj
      rw [List.getElem?_set_self hlt]
    · rw [hother hne (by rw [hj]; rfl), h.waiting j d hj]
      simp only [hwaiters j hne]
  · by_cases hd : d = c
    · subst hd
      rw [List.getElem?_set_self hlt] at hp
      cases hp
      refine ⟨i, ?_⟩
      rw [hcall, update_self]
      exact hn.resolve_right hne
    · rw [List.getElem?_set_ne (Ne.symm hd)] at hp
      obtain ⟨j, hj⟩ := h.present d old hp hne
      refine ⟨j, ?_⟩
      rcases call_cases hcall j with ⟨rfl, -⟩ | ⟨-, hpc⟩
      · rw [hc] at hj
        exact absurd (Option.some.inj hj).symm hd
      · rw [hpc, hj]

theorem Refines.test (h : Refines s q) (ha : s.call i = .take c)
    (hi : s.mutex.thread i = .inside) :
    ∃ s' q', s.test i c = .ok s' ∧ q.take c = .ok q' ∧ Refines s' q' := by
  have hsees : s.queue = q.queue := h.sees hi (by simp [ha])
  have hnumber : (s.call i).number = some c := by
    rw [ha]
    rfl
  have hnot : i ∉ s.waiters := h.sound.not_waiter (by simp [ha])
  rcases q.take_cases c with ⟨hnil, htake⟩ | ⟨front, queue, hq, htake⟩
  · let s' : SteppedQueue α :=
      { (s.setCall i (.waiting c)).sync (.wait i) with waiters := s.waiters ++ [i] }
    have hcall : s'.call = update s.call i (.waiting c) := rfl
    have hsound : Sound s' := by
      refine h.sound.move (a := .wait i) hi hcall rfl (update_self ..) (fun j hj => ?_)
        (List.prefix_refl _) fun d hd => ?_
      · rcases List.mem_append.mp hj with hm | hm
        · refine .inl ⟨hm, ?_⟩
          rintro rfl
          exact hnot hm
        · exact .inr ⟨List.mem_singleton.mp hm, c, rfl⟩
      · cases hd
        exact h.sound.callers i c hnumber
    have hcalls : Calls s' (q.consumers.set c .waiting) := by
      refine h.calls.set h.sound hcall rfl hnumber (.inl rfl) (by simp) (fun d hd => ?_)
        fun j hj => ?_
      · cases hd
        exact ⟨rfl, by simp [s']⟩
      · simp [s', hj]
    refine ⟨s', _, ?_, htake, hsound, hcalls,
      .leave h.sound hi hcall (by simp) h.holds.taken hsees⟩
    rw [SteppedQueue.test, if_pos (hsees.trans hnil)]
    rfl
  · let s' : SteppedQueue α :=
      { s.setCall i .leaving with queue, taken := s.taken ++ [(c, front)] }
    have hcall : s'.call = update s.call i .leaving := rfl
    refine ⟨s', _, ?_, htake, h.sound.update hcall h.sound.mutex (fun _ _ => rfl) (.inl hi)
      (waiters_of_subset (List.Subset.refl _) hnot) (List.prefix_refl _) (by simp [Call.number]),
      h.calls.set h.sound hcall rfl hnumber (.inr rfl) (by simp) (by simp) (fun _ _ => .rfl),
      .leave h.sound hi hcall (by simp) ?_ rfl⟩
    · have hcons : s.queue = front :: queue := hsees.trans hq
      rw [SteppedQueue.test, if_neg (by simp [hcons])]
      simp only [hcons]
      rfl
    · exact congrArg (· ++ [(c, front)]) h.holds.taken

theorem Refines.unasked (h : Refines s q) (hi : i ∈ s.waiters) :
    ∃ c, q.consumers[c]? = some .waiting ∧
      Refines { s with waiters := s.waiters.filter (· ≠ i) }
        { q with consumers := q.consumers.set c .woken } := by
  obtain ⟨c, hc, hphase⟩ := h.waiting_of_waiter hi
  have hnumber : (s.call i).number = some c := by
    rw [hc]
    rfl
  have hcall : ({ s with waiters := s.waiters.filter (· ≠ i) } : SteppedQueue α).call =
      update s.call i (.waiting c) := by
    rw [← hc, update_eq_self]
  refine ⟨c, hphase, ⟨h.sound.mutex, h.sound.fits, fun j hj => ?_, h.sound.callers⟩,
    h.calls.set h.sound hcall rfl hnumber (.inl rfl) (by simp) (fun d hd => ?_)
      (fun j hj => ?_), ⟨h.holds.taken, h.holds.pushed, h.holds.whole⟩⟩
  · exact h.sound.waiters j (List.mem_filter.mp hj).1
  · cases hd
    exact ⟨rfl, by simp⟩
  · simp [hj]

theorem Refines.wake (h : Refines s q) (hc : s.call i = .waiting c) (hi : i ∉ s.waiters)
    (ha : s.mutex.Enabled (.wake i)) : Refines ((s.setCall i (.take c)).sync (.wake i)) q := by
  have hcall : ((s.setCall i (.take c)).sync (.wake i)).call = update s.call i (.take c) := rfl
  refine ⟨h.sound.move (a := .wake i) ha hcall rfl (.inr (.inr ?_))
    (waiters_of_subset (List.Subset.refl _) hi) (List.prefix_refl _)
    (h.sound.number (i := i) (.inr (congrArg Call.number hc).symm)),
    h.calls.update hcall rfl rfl (by rw [hc]; rfl) (fun d hd => ?_) (by simp),
    h.holds.update hcall rfl rfl (by simp [hc]) (by simp)⟩
  · exact update_self ..
  · cases hd
    have hphase := h.calls.waiting i c hc
    rw [if_neg hi] at hphase
    exact .inr hphase

theorem Refines.unlock (h : Refines s q) (ha : s.mutex.Enabled (.unlock i)) :
    Refines ((s.setCall i .idle).sync (.unlock i)) q := by
  have hcall : ((s.setCall i .idle).sync (.unlock i)).call = update s.call i .idle := rfl
  have hleaving : s.call i = .leaving := by
    have hfits := h.sound.fits i
    have hpc : s.mutex.thread i = .unlocking := ha
    rw [hpc] at hfits
    cases hc : s.call i with
    | leaving => rfl
    | _ => simp [hc, Call.Fits] at hfits
  have hnot : i ∉ s.waiters := h.sound.not_waiter (by simp [hleaving])
  refine ⟨h.sound.move (a := .unlock i) ha hcall rfl ?_
    (waiters_of_subset (List.Subset.refl _) hnot)
    (List.prefix_refl _) (by simp [Call.number]),
    h.calls.update hcall rfl rfl (by rw [hleaving]; rfl) (by simp) (by simp),
    h.holds.update hcall rfl rfl (by simp [hleaving]) (by simp)⟩
  exact update_self ..

theorem Refines.step (h : Refines s q) {a : Label α} (ha : machine.enabled s a) :
    ∃ s', machine.step s a = .ok s' ∧ ∃ steps q', BlockingQueue.machine.Run q steps q' ∧
      steps.filterMap BlockingQueue.Label.put? = a.put?.toList ∧ Refines s' q' := by
  cases a with
  | callPut i x =>
    have hidle : s.call i = .idle := ha
    have hcall : (s.setCall i (.put x)).call = update s.call i (.put x) := rfl
    have hfits := h.sound.fits i
    rw [hidle] at hfits
    have hsound : Sound (s.setCall i (.put x)) :=
      h.sound.update hcall h.sound.mutex (fun _ _ => rfl) (.inl hfits)
        (waiters_of_subset (List.Subset.refl _) (h.sound.not_waiter (by simp [hidle])))
        (List.prefix_refl _) (by simp [Call.number])
    refine ⟨_, rfl, [], q, .nil, rfl, hsound,
      h.calls.update hcall rfl rfl (by rw [hidle]; rfl) (by simp) (by simp),
      h.holds.update hcall rfl rfl (by simp [hidle]) (by simp)⟩
  | callTake i => exact ⟨_, rfl, [.callTake], _, .cons trivial rfl .nil, rfl, h.callTake ha⟩
  | lock i =>
    obtain ⟨hc, ha⟩ := ha
    have hfits := h.sound.fits i
    have hpc : s.mutex.thread i = .out := ha.2.1
    refine ⟨_, rfl, [], q, .nil, rfl, h.sync ha ?_⟩
    have hnext : (s.mutex.next (.lock i)).thread i = .locking := update_self ..
    show (s.call i).Fits ((s.mutex.next (.lock i)).thread i)
    rw [hnext]
    rw [hpc] at hfits
    cases hcall : s.call i with
    | idle => exact absurd hcall hc
    | put _ | take _ => exact .inr (.inl rfl)
    | _ => simp [hcall, Call.Fits] at hfits
  | assign i =>
    have hfits := h.sound.fits i
    have hpc : s.mutex.thread i = .locking := ha
    refine ⟨_, rfl, [], q, .nil, rfl, h.sync (a := .assign i) ha ?_⟩
    have hnext : (s.mutex.next (.assign i)).thread i = .inside := update_self ..
    show (s.call i).Fits ((s.mutex.next (.assign i)).thread i)
    rw [hnext]
    rw [hpc] at hfits
    cases hcall : s.call i with
    | put _ | take _ => exact .inr (.inr rfl)
    | _ => simp [hcall, Call.Fits] at hfits
  | push_back i x => exact ⟨_, rfl, [], q, .nil, rfl, h.push_back ha.1 ha.2⟩
  | notify i x signaled =>
    obtain ⟨hc, hs, hne⟩ := ha
    exact ⟨_, rfl, [.put x (s.woken signaled)], _, .cons (h.maySignal hs hne) rfl .nil,
      rfl, h.notify hc hs⟩
  | test i c =>
    obtain ⟨hc, hi⟩ := ha
    obtain ⟨s', q', hs, hq, hnext⟩ := h.test hc hi
    exact ⟨s', hs, [.take c], q', .cons (h.calls.take i c hc) hq .nil, rfl, hnext⟩
  | unasked i =>
    obtain ⟨c, hc, hnext⟩ := h.unasked ha
    exact ⟨_, rfl, [.wake c], _, .cons hc rfl .nil, rfl, hnext⟩
  | wake i c => exact ⟨_, rfl, [], q, .nil, rfl, h.wake ha.1 ha.2.1 ha.2.2⟩
  | unassign i =>
    obtain ⟨hc, ha⟩ := ha
    refine ⟨_, rfl, [], q, .nil, rfl, h.sync ha ?_⟩
    have hnext : (s.mutex.next (.unassign i)).thread i = .unlocking := update_self ..
    show (s.call i).Fits ((s.mutex.next (.unassign i)).thread i)
    rw [hnext, hc]
    exact .inr rfl
  | unlock i => exact ⟨_, rfl, [], q, .nil, rfl, h.unlock ha⟩

/-- Where a thread waits beside an element, another one is in its loop or has a wakeup. -/
theorem Refines.served (h : Refines s q) (hrun : BlockingQueue.machine.Run {} steps q)
    (hne : q.queue ≠ []) (hwait : s.waiters ≠ []) :
    ∃ i c, s.call i = .take c ∨ s.call i = .waiting c ∧ i ∉ s.waiters := by
  obtain ⟨hinv, -⟩ := hrun.safe BlockingQueue.inv_safe BlockingQueue.start_inv
  obtain ⟨j, rest, hcons⟩ := List.exists_cons_of_ne_nil hwait
  obtain ⟨c, -, hc⟩ := h.waiting_of_waiter (i := j) (hcons ▸ List.mem_cons_self)
  have hpos : 0 < q.consumers.count .woken :=
    Nat.lt_of_lt_of_le (List.length_pos_iff.mpr hne) (hinv.covered (List.mem_of_getElem? hc))
  obtain ⟨d, hd⟩ := List.mem_iff_getElem?.mp (List.count_pos_iff.mp hpos)
  obtain ⟨i, hi⟩ := h.calls.present d _ hd (by simp)
  refine ⟨i, d, ?_⟩
  cases hpc : s.call i with
  | take e =>
    rw [hpc] at hi
    cases hi
    exact .inl rfl
  | waiting e =>
    rw [hpc] at hi
    cases hi
    refine .inr ⟨rfl, fun hm => ?_⟩
    rw [h.calls.waiting i d hpc, if_pos hm] at hd
    cases hd
  | idle | put _ | pushed _ | leaving =>
    rw [hpc] at hi
    cases hi

-- ---------------------------------------------------------------------------
-- Runs
-- ---------------------------------------------------------------------------

/-- However the statements of the threads come between each other: they make a run of
the queue with whole steps and the same elements, and no assertion fails. So what was
taken and what is in the queue is what was put, in order, and no thread is left
waiting beside an element unless another one is on its way to it. -/
theorem whole_steps (h : machine.Run ({} : SteppedQueue α) labels s) :
    (∃ steps q, BlockingQueue.machine.Run {} steps q ∧
      steps.filterMap BlockingQueue.Label.put? = labels.filterMap Label.put? ∧ Refines s q) ∧
    ((∀ i x, s.call i ≠ .pushed x) →
      s.taken.map Prod.snd ++ s.queue = labels.filterMap Label.put? ∧
      (s.queue ≠ [] → s.waiters ≠ [] →
        ∃ i c, s.call i = .take c ∨ s.call i = .waiting c ∧ i ∉ s.waiters)) ∧
    machine.NoFault s := by
  have hsim := h.traces (R := Refines) (f := Label.put?) (g := BlockingQueue.Label.put?)
    (fun hr ha hs => by
      obtain ⟨s₁, hs₁, hnext⟩ := hr.step ha
      rw [hs] at hs₁
      cases hs₁
      exact hnext) start_refines
  obtain ⟨steps, q, hrun, hseen, href⟩ := hsim
  refine ⟨⟨steps, q, hrun, hseen, href⟩, fun hwhole => ⟨?_, fun hne hwait => ?_⟩, fun a ha => ?_⟩
  · rw [href.holds.taken, href.holds.whole hwhole, ← hseen]
    exact BlockingQueue.fifo hrun
  · rw [href.holds.whole hwhole] at hne
    exact href.served hrun hne hwait
  · obtain ⟨s', hs, -⟩ := href.step ha
    exact ⟨s', hs⟩

/-- A thread waits, and another one puts and notifies before it has the mutex again. -/
theorem whole_steps_waited : ∃ s : SteppedQueue Nat,
    machine.Run {} [.callTake 1, .lock 1, .callPut 2 7, .assign 1, .test 1 0, .lock 2, .assign 2,
      .push_back 2 7, .notify 2 7 [1], .unassign 2, .unlock 2, .wake 1 0, .test 1 0] s ∧
    s.taken = [(0, 7)] ∧ ∃ steps q, BlockingQueue.machine.Run {} steps q ∧
      steps.filterMap BlockingQueue.Label.put? = [7] ∧ Refines s q := by
  have hrun : ∃ s : SteppedQueue Nat,
      machine.Run {} [.callTake 1, .lock 1, .callPut 2 7, .assign 1, .test 1 0, .lock 2, .assign 2,
        .push_back 2 7, .notify 2 7 [1], .unassign 2, .unlock 2, .wake 1 0, .test 1 0] s ∧
      s.taken = [(0, 7)] := Machine.exists_run (by decide +kernel)
  obtain ⟨s, hs, htaken⟩ := hrun
  exact ⟨s, hs, htaken, (whole_steps hs).1⟩

end SteppedQueue

end Muduo
