import Muduo.Net.Wakeup

/-!
# The end of loop()

Once `quit_` is set the loop thread is on its way out of `loop()`: it has few steps
left besides running functors, and it polls at most once more, with a wakeup on its
way.
-/

namespace Muduo.EventLoop

open Lib Function

variable {l l' : EventLoop}

-- ---------------------------------------------------------------------------
-- Steps that are left
-- ---------------------------------------------------------------------------

def Label.isOwn : Label → Bool
  | .test => true
  | .poll => true
  | .pollReturn => true
  | .handleRead => true
  | .doPendingFunctors => true
  | .swap => true
  | .functor => true
  | .endFunctors => true
  | _ => false

/-- It gives the loop thread one more thing to do. -/
def Label.isMore : Label → Bool
  | .loop => true
  | .queueInLoop => true
  | .push _ => true
  | _ => false

/-- How many steps there are from here to the end of `loop()` when `quit_` is set
and no functor is there. -/
def Pc.left : Pc → Nat
  | .out => 0
  | .test => 1
  | .running => 2
  | .calling => 3
  | .events false => 4
  | .events true => 5
  | .polling => 6
  | .enter => 7

def left (l : EventLoop) : Nat := l.pc.left + l.functors.length + l.pendingFunctors.length

theorem left_lt (hq : l.quit = true) (ha : l.Enabled a) (hs : step l a = .ok l') :
    l'.left + (if a.isOwn then 1 else 0) ≤ l.left + if a.isMore then 1 else 0 := by
  cases a with
  | loop =>
    obtain ⟨_, -, hs⟩ := bind_ok.mp hs
    cases hs
    have hpc : l.pc = .out := ha
    simp only [left, hpc, Pc.left, Label.isOwn, Label.isMore, if_true, if_false, Bool.false_eq_true]
    omega
  | test =>
    have hpc : l.pc = .test := ha
    simp only [step, if_pos hq] at hs
    cases hs
    simp only [left, hpc, Pc.left, Label.isOwn, Label.isMore, if_true, if_false, Bool.false_eq_true]
    omega
  | poll =>
    have hpc : l.pc = .enter := ha
    cases hs
    simp only [left, hpc, Pc.left, Label.isOwn, Label.isMore, if_true, if_false, Bool.false_eq_true]
    omega
  | pollReturn =>
    have hpc : l.pc = .polling := ha
    cases hs
    simp only [left, hpc, Label.isOwn, Label.isMore, if_true, if_false, Bool.false_eq_true]
    cases decide (0 < l.wakeupFd) <;>
    · simp only [Pc.left]
      omega
  | handleRead =>
    have hpc : l.pc = .events true := ha
    cases hs
    simp only [left, hpc, Pc.left, Label.isOwn, Label.isMore, if_true, if_false, Bool.false_eq_true]
    omega
  | doPendingFunctors =>
    have hpc : l.pc = .events false := ha
    cases hs
    simp only [left, hpc, Pc.left, Label.isOwn, Label.isMore, if_true, if_false, Bool.false_eq_true]
    omega
  | swap =>
    have hpc : l.pc = .calling := ha
    cases hs
    simp only [left, hpc, Pc.left, Label.isOwn, Label.isMore, List.length_nil, if_true, if_false,
      Bool.false_eq_true]
    omega
  | functor =>
    cases hf : l.functors with
    | nil => exact absurd hf ha.2
    | cons f functors =>
      simp only [step, hf] at hs
      cases hs
      simp only [left, hf, Label.isOwn, Label.isMore, List.length_cons, if_true, if_false,
        Bool.false_eq_true]
      omega
  | endFunctors =>
    have hpc : l.pc = .running := ha.1
    cases hs
    simp only [left, hpc, Pc.left, Label.isOwn, Label.isMore, if_true, if_false, Bool.false_eq_true]
    omega
  | queueInLoop =>
    simp only [step] at hs
    split at hs <;> cases hs <;>
    · simp only [left, pushBack, wakeup, Label.isOwn, Label.isMore, List.length_append,
        List.length_singleton, if_true, if_false, Bool.false_eq_true]
      omega
  | push t =>
    cases hs
    simp only [left, pushBack, setThread, Label.isOwn, Label.isMore, List.length_append,
      List.length_singleton, if_true, if_false, Bool.false_eq_true]
    omega
  | quit | setQuit t | wakeup t =>
    cases hs
    exact Nat.le_refl _

theorem quit_keeps : machine.Keeps fun l => l.quit = true := by
  intro l a l' hq _ hs
  cases a with
  | loop =>
    obtain ⟨_, -, hs⟩ := bind_ok.mp hs
    cases hs
    exact hq
  | test =>
    simp only [machine, step, if_pos hq] at hs
    cases hs
    exact hq
  | functor =>
    simp only [machine, step] at hs
    split at hs <;>
    · cases hs
      exact hq
  | queueInLoop =>
    simp only [machine, step] at hs
    split at hs <;>
    · cases hs
      exact hq
  | quit | setQuit t =>
    cases hs
    rfl
  | poll | pollReturn | handleRead | doPendingFunctors | swap | endFunctors | push t | wakeup t =>
    cases hs
    exact hq

/-- `poll` has been called, or is not going to be. -/
def polled (l : EventLoop) : Nat := l.polls + if l.pc = .enter then 1 else 0

theorem polled_keeps (n : Nat) : machine.Keeps fun l => l.quit = true ∧ l.polled = n := by
  intro l a l' ⟨hq, hn⟩ ha hs
  refine ⟨quit_keeps hq ha hs, ?_⟩
  cases a with
  | loop =>
    have hpc : l.pc = .out := ha
    obtain ⟨_, -, hs⟩ := bind_ok.mp hs
    cases hs
    simpa [polled, hpc] using hn
  | test =>
    have hpc : l.pc = .test := ha
    simp only [machine, step, if_pos hq] at hs
    cases hs
    simpa [polled, hpc] using hn
  | poll =>
    have hpc : l.pc = .enter := ha
    cases hs
    simpa [polled, hpc] using hn
  | pollReturn =>
    have hpc : l.pc = .polling := ha
    cases hs
    simpa [polled, hpc] using hn
  | handleRead =>
    have hpc : l.pc = .events true := ha
    cases hs
    simpa [polled, hpc] using hn
  | doPendingFunctors =>
    have hpc : l.pc = .events false := ha
    cases hs
    simpa [polled, hpc] using hn
  | swap =>
    have hpc : l.pc = .calling := ha
    cases hs
    simpa [polled, hpc] using hn
  | functor =>
    simp only [machine, step] at hs
    split at hs <;>
    · cases hs
      exact hn
  | endFunctors =>
    have hpc : l.pc = .running := ha.1
    cases hs
    simpa [polled, hpc] using hn
  | queueInLoop =>
    simp only [machine, step] at hs
    split at hs <;>
    · cases hs
      exact hn
  | quit | push t | setQuit t | wakeup t =>
    cases hs
    exact hn

theorem own_enabled (h : l.pc ≠ .out) : ∃ a : Label, a.isOwn = true ∧ l.Enabled a := by
  cases hpc : l.pc with
  | out => exact absurd hpc h
  | test => exact ⟨.test, rfl, hpc⟩
  | enter => exact ⟨.poll, rfl, hpc⟩
  | polling => exact ⟨.pollReturn, rfl, hpc⟩
  | events wakeup =>
    cases wakeup with
    | true => exact ⟨.handleRead, rfl, hpc⟩
    | false => exact ⟨.doPendingFunctors, rfl, hpc⟩
  | calling => exact ⟨.swap, rfl, hpc⟩
  | running =>
    by_cases hf : l.functors = []
    · exact ⟨.endFunctors, rfl, hpc, hf⟩
    · exact ⟨.functor, rfl, hpc, hf⟩

-- ---------------------------------------------------------------------------
-- Runs
-- ---------------------------------------------------------------------------

/-- Wherever the loop thread is when `quit_` is set, and whatever all threads do
afterwards: `loop()` takes at most seven steps more and one for each functor, none
of them waits but a single `poll`, and in that one the eventfd is positive or a
thread that called `quit` has its write before it. -/
theorem quit_ends (h : machine.Run (start calling) as l) (hq : l.quit = true)
    (h' : machine.Run l bs l') :
    bs.countP Label.isOwn + l'.left ≤
      7 + l.functors.length + l.pendingFunctors.length + bs.countP Label.isMore ∧
    l'.polls ≤ l.polls + 1 ∧
    (l'.pc ≠ .out → ∃ a : Label, a.isOwn = true ∧ machine.enabled l' a) ∧
    (l'.pc = .polling → 0 < l'.wakeupFd ∨ ∃ t, l'.thread t = .quitting) := by
  have hinv := ((h'.safe inv_safe (h.safe inv_safe (start_inv calling)).1)).1
  have hq' := h'.keeps quit_keeps hq
  refine ⟨?_, ?_, own_enabled, fun hpc => ?_⟩
  · have hcount := h'.count_le_add quit_keeps left_lt hq
    have hpc : l.pc.left ≤ 7 := by
      cases l.pc with
      | events wakeup => cases wakeup <;> decide
      | _ => decide
    have hleft : l.left = l.pc.left + l.functors.length + l.pendingFunctors.length := rfl
    omega
  · have hpolled := (h'.keeps (polled_keeps l.polled) ⟨hq, rfl⟩).2
    unfold polled at hpolled
    split at hpolled <;> split at hpolled <;> omega
  · rcases Nat.eq_zero_or_pos l'.wakeupFd with hfd | hfd
    · exact .inr (hinv.owes.quit (.inr hpc) hq' hfd)
    · exact .inl hfd

/-- Another thread calls `quit` while the loop polls, and a third one queues a
functor that still runs. -/
theorem quit_ends_polling : ∃ l l' : EventLoop,
    machine.Run (start false) [.loop, .test, .poll, .setQuit 1] l ∧
    machine.Run l [.push 2, .wakeup 1, .pollReturn, .handleRead, .doPendingFunctors, .swap,
      .functor, .endFunctors, .test] l' ∧
    l'.pc = .out ∧ l'.polls ≤ l.polls + 1 := by
  have hrun : ∃ l, machine.Run (start false) [.loop, .test, .poll, .setQuit 1] l ∧
      ∃ l', machine.Run l [.push 2, .wakeup 1, .pollReturn, .handleRead, .doPendingFunctors, .swap,
        .functor, .endFunctors, .test] l' ∧ (l.quit = true ∧ l'.pc = .out) := by
    refine Machine.exists_run ⟨_, rfl, ?_⟩
    exact Machine.exists_run ⟨_, rfl, rfl, rfl⟩
  obtain ⟨l, hl, l', hl', hq, hpc⟩ := hrun
  exact ⟨l, l', hl, hl', hpc, (quit_ends hl hq hl').2.1⟩

end Muduo.EventLoop
