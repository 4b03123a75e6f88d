import Muduo.Net.EventLoop

/-!
# Functors and wakeups

A functor is in one of three places, in the order of the pushes: started, in the
batch that is running, or pending. While the loop polls with an eventfd at zero,
whoever left it something to do still owes a write.
-/

namespace Muduo.EventLoop

open Lib Function

variable {l l' : EventLoop}

-- ---------------------------------------------------------------------------
-- The line of functors
-- ---------------------------------------------------------------------------

structure Line (l : EventLoop) : Prop where
  order : l.started.map Start.functor ++ l.functors ++ l.pendingFunctors =
    List.range l.queued.length
  swaps : ∀ p ∈ l.queued, p.swaps ≤ l.swaps
  batch : ∀ f ∈ l.functors, ∀ p, l.queued[f]? = some p → p.swaps < l.swaps
  started : ∀ s ∈ l.started, ∀ p, l.queued[s.functor]? = some p → p.swaps < s.pass

theorem Line.lt (h : Line l) (hf : f ∈ l.started.map Start.functor ++ l.functors) :
    f < l.queued.length := by
  rw [← List.mem_range, ← h.order]
  exact List.mem_append_left _ hf

theorem Line.pushBack (h : Line l) : Line l.pushBack := by
  have hold : ∀ f ∈ l.started.map Start.functor ++ l.functors, ∀ p,
      l.pushBack.queued[f]? = some p → l.queued[f]? = some p := by
    intro f hf p hp
    rwa [EventLoop.pushBack, List.getElem?_append_left (h.lt hf)] at hp
  refine ⟨?_, fun p hp => ?_, fun f hf p hp => ?_, fun s hs p hp => ?_⟩
  · simp only [EventLoop.pushBack, List.length_append, List.length_singleton, List.range_succ,
      ← h.order, List.append_assoc]
  · rcases List.mem_append.mp hp with hp | hp
    · exact h.swaps p hp
    · obtain rfl := List.mem_singleton.mp hp
      exact Nat.le_refl _
  · exact h.batch f hf p (hold f (List.mem_append_right _ hf) p hp)
  · exact h.started s hs p (hold _ (List.mem_append_left _ (List.mem_map_of_mem hs)) p hp)

-- ---------------------------------------------------------------------------
-- The loop thread
-- ---------------------------------------------------------------------------

/-- How many passes were begun and how many polls made, against the swaps. -/
def Counted (l : EventLoop) : Prop :=
  match l.pc with
  | .polling => l.polls = l.swaps + 1 ∧ l.passes = l.swaps
  | .events _ => l.polls = l.swaps + 1 ∧ l.passes = l.swaps
  | .calling => l.polls = l.swaps + 1 ∧ l.passes = l.swaps + 1
  | _ => l.polls = l.swaps ∧ l.passes = l.swaps

structure Control (l : EventLoop) : Prop where
  batch : l.pc ≠ .running → l.functors = []
  counted : l.Counted
  looping : l.looping = true ↔ l.pc ≠ .out
  calling : l.pc = .calling → l.callingPendingFunctors = true
  running : l.pc = .running → l.callingPendingFunctors = true
  told : l.pc = .out → 0 < l.swaps → l.quit = true

-- ---------------------------------------------------------------------------
-- What is owed
-- ---------------------------------------------------------------------------

/-- The loop has swapped and not returned from the next `poll`. -/
def Waiting (l : EventLoop) : Prop :=
  match l.pc with
  | .running => True
  | .test => l.quit = false
  | .enter => True
  | .polling => True
  | _ => False

/-- The thread that pushed it has not written yet. -/
def Owed (l : EventLoop) (f : Nat) : Prop := ∃ t, l.thread t = .pushed f

structure Owes (l : EventLoop) : Prop where
  pending : l.Waiting → 0 < l.swaps → l.wakeupFd = 0 → ∀ f ∈ l.pendingFunctors, l.Owed f
  quit : l.pc = .enter ∨ l.pc = .polling → l.quit = true → l.wakeupFd = 0 →
    ∃ t, l.thread t = .quitting

structure Inv (l : EventLoop) : Prop where
  line : Line l
  control : Control l
  owes : Owes l

theorem setThread_of_ne (ht : l.thread t = .idle) (hu : l.thread u = s) (hs : s ≠ .idle) :
    (l.setThread t s').thread u = s := by
  have hne : u ≠ t := by
    rintro rfl
    exact hs (hu.symm.trans ht)
  simp only [setThread, update_of_ne hne]
  exact hu

-- ---------------------------------------------------------------------------
-- Steps
-- ---------------------------------------------------------------------------

theorem Inv.loop (h : Inv l) (hpc : l.pc = .out) :
    ∃ l', step l .loop = .ok l' ∧ Inv l' := by
  have hloop : ¬l.looping = true := fun hl => h.control.looping.mp hl hpc
  refine ⟨{ l with looping := true, pc := .test }, ?_, ?_, ?_, ?_⟩
  · simp only [step, ensure_bind hloop]
    rfl
  · exact ⟨h.line.order, h.line.swaps, h.line.batch, h.line.started⟩
  · obtain ⟨hb, hc, -, -, -, -⟩ := h.control
    simp only [Counted, hpc] at hc
    exact ⟨fun _ => hb (by simp [hpc]), hc, by simp, nofun, nofun, nofun⟩
  · refine ⟨fun hw h0 => ?_, by simp⟩
    -- a loop that ran before was told to quit, and is still
    have hq : l.quit = false := hw
    rw [h.control.told hpc h0] at hq
    cases hq

theorem Inv.test (h : Inv l) (hpc : l.pc = .test) :
    ∃ l', step l .test = .ok l' ∧ Inv l' := by
  obtain ⟨hb, hc, -, -, -, -⟩ := h.control
  simp only [Counted, hpc] at hc
  simp only [step]
  split
  · rename_i hq
    refine ⟨_, rfl, ⟨h.line.order, h.line.swaps, h.line.batch, h.line.started⟩, ?_, ?_⟩
    · exact ⟨fun _ => hb (by simp [hpc]), hc, by simp, nofun, nofun, fun _ _ => hq⟩
    · exact ⟨nofun, by simp⟩
  · rename_i hq
    refine ⟨_, rfl, ⟨h.line.order, h.line.swaps, h.line.batch, h.line.started⟩, ?_, ?_⟩
    · refine ⟨fun _ => hb (by simp [hpc]), hc, ?_, nofun, nofun, nofun⟩
      exact iff_of_true (h.control.looping.mpr (by simp [hpc])) nofun
    · refine ⟨fun _ => h.owes.pending ?_, fun _ hq' => absurd hq' hq⟩
      simp only [Waiting, hpc]
      exact Bool.eq_false_iff.mpr hq

theorem Inv.poll (h : Inv l) (hpc : l.pc = .enter) :
    Inv { l with pc := .polling, polls := l.polls + 1 } := by
  obtain ⟨hb, hc, -, -, -, -⟩ := h.control
  simp only [Counted, hpc] at hc
  refine ⟨⟨h.line.order, h.line.swaps, h.line.batch, h.line.started⟩, ⟨fun _ => hb (by simp [hpc]),
    ⟨by simp only [hc.1], hc.2⟩, ?_, nofun, nofun, nofun⟩, fun _ => h.owes.pending ?_,
    fun _ => h.owes.quit (.inl hpc)⟩
  · exact iff_of_true (h.control.looping.mpr (by simp [hpc])) nofun
  · simp only [Waiting, hpc]

theorem Inv.pollReturn (h : Inv l) (hpc : l.pc = .polling) (wakeup : Bool) :
    Inv { l with pc := .events wakeup } := by
  obtain ⟨hb, hc, -, -, -, -⟩ := h.control
  simp only [Counted, hpc] at hc
  refine ⟨⟨h.line.order, h.line.swaps, h.line.batch, h.line.started⟩, ⟨fun _ => hb (by simp [hpc]),
    hc, ?_, nofun, nofun, nofun⟩, nofun, by simp⟩
  exact iff_of_true (h.control.looping.mpr (by simp [hpc])) nofun

theorem Inv.handleRead (h : Inv l) (hpc : l.pc = .events true) :
    Inv { l with wakeupFd := 0, pc := .events false } := by
  obtain ⟨hb, hc, -, -, -, -⟩ := h.control
  simp only [Counted, hpc] at hc
  refine ⟨⟨h.line.order, h.line.swaps, h.line.batch, h.line.started⟩, ⟨fun _ => hb (by simp [hpc]),
    hc, ?_, nofun, nofun, nofun⟩, nofun, by simp⟩
  exact iff_of_true (h.control.looping.mpr (by simp [hpc])) nofun

theorem Inv.doPendingFunctors (h : Inv l) (hpc : l.pc = .events false) :
    Inv { l with callingPendingFunctors := true, pc := .calling, passes := l.passes + 1 } := by
  obtain ⟨hb, hc, -, -, -, -⟩ := h.control
  simp only [Counted, hpc] at hc
  refine ⟨⟨h.line.order, h.line.swaps, h.line.batch, h.line.started⟩, ⟨fun _ => hb (by simp [hpc]),
    ⟨hc.1, by simp only [hc.2]⟩, ?_, fun _ => rfl, nofun, nofun⟩, nofun, by simp⟩
  exact iff_of_true (h.control.looping.mpr (by simp [hpc])) nofun

theorem Inv.swap (h : Inv l) (hpc : l.pc = .calling) :
    Inv { l with
      functors := l.pendingFunctors, pendingFunctors := [], pc := .running
      swaps := l.swaps + 1 } := by
  obtain ⟨hb, hc, -, -, -, -⟩ := h.control
  simp only [Counted, hpc] at hc
  have hcall := h.control.calling hpc
  have hempty : l.functors = [] := hb (by simp [hpc])
  refine ⟨⟨?_, fun p hp => Nat.le_succ_of_le (h.line.swaps p hp), fun f hf p hp => ?_,
    h.line.started⟩, ⟨nofun, hc, ?_, nofun, fun _ => hcall, nofun⟩, fun _ _ _ => nofun, by simp⟩
  · have horder := h.line.order
    rw [hempty, List.append_nil] at horder
    simpa using horder
  · exact Nat.lt_succ_of_le (h.line.swaps p (List.mem_of_getElem? hp))
  · exact iff_of_true (h.control.looping.mpr (by simp [hpc])) nofun

theorem Inv.functor (h : Inv l) (hpc : l.pc = .running) (hf : l.functors = f :: rest) :
    Inv { l with functors := rest, started := l.started ++ [⟨f, l.passes⟩] } := by
  obtain ⟨-, hc, hloop, hcall, hrun, -⟩ := h.control
  have hpass : l.passes = l.swaps := by
    simp only [Counted, hpc] at hc
    exact hc.2
  refine ⟨⟨?_, h.line.swaps, fun g hg => ?_, fun s hs p hp => ?_⟩,
    ⟨fun hne => absurd hpc hne, hc, hloop, hcall, hrun, fun ho => absurd (hpc.symm.trans ho) nofun⟩,
    h.owes.pending, h.owes.quit⟩
  · have horder := h.line.order
    rw [hf] at horder
    simpa using horder
  · refine h.line.batch g ?_
    rw [hf]
    exact List.mem_cons_of_mem f hg
  · rcases List.mem_append.mp hs with hs | hs
    · exact h.line.started s hs p hp
    · obtain rfl := List.mem_singleton.mp hs
      rw [hpass]
      refine h.line.batch f ?_ p hp
      rw [hf]
      exact List.mem_cons_self

theorem Inv.endFunctors (h : Inv l) (hpc : l.pc = .running) (hf : l.functors = []) :
    Inv { l with callingPendingFunctors := false, pc := .test } := by
  obtain ⟨-, hc, -, -, -, -⟩ := h.control
  simp only [Counted, hpc] at hc
  refine ⟨⟨h.line.order, h.line.swaps, h.line.batch, h.line.started⟩, ⟨fun _ => hf, hc, ?_, nofun,
    nofun, nofun⟩, fun _ => h.owes.pending ?_, by simp⟩
  · exact iff_of_true (h.control.looping.mpr (by simp [hpc])) nofun
  · simp only [Waiting, hpc]

-- ---------------------------------------------------------------------------
-- Calls
-- ---------------------------------------------------------------------------

theorem Control.pushBack (h : Control l) : Control l.pushBack :=
  ⟨h.batch, h.counted, h.looping, h.calling, h.running, h.told⟩

theorem Inv.queueInLoop (h : Inv l) (hu : l.InUser) :
    Inv (if l.callingPendingFunctors then l.pushBack.wakeup else l.pushBack) := by
  have hline := h.line.pushBack
  have hcon := h.control.pushBack
  split
  · exact ⟨⟨hline.order, hline.swaps, hline.batch, hline.started⟩,
      ⟨hcon.batch, hcon.counted, hcon.looping, hcon.calling, hcon.running, hcon.told⟩, nofun, nofun⟩
  · rename_i hcall
    refine ⟨hline, hcon, fun hw => ?_, fun hpc => ?_⟩
    · -- it is in a callback or outside of the loop
      have hrun : l.pc ≠ .running := fun hr => hcall (h.control.running hr)
      simp only [InUser] at hu
      have hw' : l.Waiting := hw
      cases hpc : l.pc <;> simp_all [Waiting]
    · exact h.owes.quit hpc

theorem Inv.quit (h : Inv l) (hu : l.InUser) : Inv { l with quit := true } := by
  obtain ⟨hb, hc, hloop, hcall, hrun, -⟩ := h.control
  refine ⟨⟨h.line.order, h.line.swaps, h.line.batch, h.line.started⟩,
    ⟨hb, hc, hloop, hcall, hrun, fun _ _ => rfl⟩, fun hw => h.owes.pending ?_, fun hpc => ?_⟩
  · simp only [Waiting] at hw ⊢
    cases hpc : l.pc <;> simp_all
  · simp only [InUser] at hu
    have hpc' : l.pc = .enter ∨ l.pc = .polling := hpc
    rcases hpc' with hpc | hpc <;> rw [hpc] at hu <;> cases hu

theorem Inv.push (h : Inv l) (ht : l.thread t = .idle) :
    Inv (l.pushBack.setThread t (.pushed l.queued.length)) := by
  have hline := h.line.pushBack
  have hcon := h.control.pushBack
  refine ⟨⟨hline.order, hline.swaps, hline.batch, hline.started⟩,
    ⟨hcon.batch, hcon.counted, hcon.looping, hcon.calling, hcon.running, hcon.told⟩,
    fun hw h0 hfd f hf => ?_, fun hpc hq hfd => ?_⟩
  · rcases List.mem_append.mp hf with hf | hf
    · obtain ⟨u, hu⟩ := h.owes.pending hw h0 hfd f hf
      exact ⟨u, setThread_of_ne ht hu nofun⟩
    · obtain rfl := List.mem_singleton.mp hf
      exact ⟨t, update_self ..⟩
  · obtain ⟨u, hu⟩ := h.owes.quit hpc hq hfd
    exact ⟨u, setThread_of_ne ht hu nofun⟩

theorem Inv.setQuit (h : Inv l) (ht : l.thread t = .idle) :
    Inv ({ l with quit := true }.setThread t .quitting) := by
  obtain ⟨hb, hc, hloop, hcall, hrun, -⟩ := h.control
  refine ⟨⟨h.line.order, h.line.swaps, h.line.batch, h.line.started⟩,
    ⟨hb, hc, hloop, hcall, hrun, fun _ _ => rfl⟩, fun hw h0 hfd f hf => ?_, fun _ _ _ => ?_⟩
  · have hw' : l.Waiting := by
      simp only [Waiting, setThread] at hw ⊢
      cases hpc : l.pc <;> simp_all
    obtain ⟨u, hu⟩ := h.owes.pending hw' h0 hfd f hf
    exact ⟨u, setThread_of_ne ht hu nofun⟩
  · exact ⟨t, update_self ..⟩

theorem Inv.wakeup (h : Inv l) (t : Nat) : Inv (l.wakeup.setThread t .idle) :=
  ⟨⟨h.line.order, h.line.swaps, h.line.batch, h.line.started⟩,
    ⟨h.control.batch, h.control.counted, h.control.looping, h.control.calling, h.control.running,
      h.control.told⟩,
    nofun, nofun⟩

-- ---------------------------------------------------------------------------
-- Runs
-- ---------------------------------------------------------------------------

theorem inv_safe : machine.Safe Inv := by
  intro l label h hen
  cases label with
  | loop => exact h.loop hen
  | test => exact h.test hen
  | poll => exact ⟨_, rfl, h.poll hen⟩
  | pollReturn => exact ⟨_, rfl, h.pollReturn hen _⟩
  | handleRead => exact ⟨_, rfl, h.handleRead hen⟩
  | doPendingFunctors => exact ⟨_, rfl, h.doPendingFunctors hen⟩
  | swap => exact ⟨_, rfl, h.swap hen⟩
  | functor =>
    cases hf : l.functors with
    | nil => exact absurd hf hen.2
    | cons f rest => exact ⟨_, by simp only [machine, step, hf]; rfl, h.functor hen.1 hf⟩
  | endFunctors => exact ⟨_, rfl, h.endFunctors hen.1 hen.2⟩
  | queueInLoop => exact ⟨_, rfl, h.queueInLoop hen⟩
  | quit => exact ⟨_, rfl, h.quit hen⟩
  | push t => exact ⟨_, rfl, h.push hen⟩
  | setQuit t => exact ⟨_, rfl, h.setQuit hen⟩
  | wakeup t => exact ⟨_, rfl, h.wakeup t⟩

theorem start_inv (calling : Bool) : Inv (start calling) :=
  ⟨⟨rfl, nofun, nofun, nofun⟩, ⟨fun _ => rfl, ⟨rfl, rfl⟩, by simp [start], nofun, nofun, nofun⟩,
    nofun, by simp [start]⟩

/-- In a poll that is not the first, with a functor pending or `quit_` set: the
eventfd is positive, or each functor's thread and one that set `quit_` have
their write before them. Functors start at most once, in the order of the
pushes, and each in a pass whose swap came after its push. -/
theorem pending_served (h : machine.Run (start calling) labels l) :
    (l.pc = .polling → 1 < l.polls → l.pendingFunctors ≠ [] ∨ l.quit = true →
      0 < l.wakeupFd ∨ (∀ f ∈ l.pendingFunctors, ∃ t, l.thread t = .pushed f) ∧
        (l.quit = true → ∃ t, l.thread t = .quitting)) ∧
    l.started.map Start.functor ++ l.functors ++ l.pendingFunctors =
      List.range l.queued.length ∧
    (∀ s ∈ l.started, ∃ p, l.queued[s.functor]? = some p ∧ p.swaps < s.pass) := by
  have hinv := (h.safe inv_safe (start_inv calling)).1
  refine ⟨fun hpc hpolls _ => ?_, hinv.line.order, fun s hs => ?_⟩
  · rcases Nat.eq_zero_or_pos l.wakeupFd with hfd | hfd
    · have hc := hinv.control.counted
      simp only [Counted, hpc] at hc
      refine .inr ⟨hinv.owes.pending ?_ (by omega) hfd, fun hq => hinv.owes.quit (.inr hpc) hq hfd⟩
      simp only [Waiting, hpc]
    · exact .inl hfd
  · have hlt := hinv.line.lt (List.mem_append_left _ (List.mem_map_of_mem hs))
    exact ⟨_, List.getElem?_eq_getElem hlt,
      hinv.line.started s hs _ (List.getElem?_eq_getElem hlt)⟩

/-- A thread that pushed has not written yet while the loop is in its second
poll. -/
theorem pending_served_owed : ∃ l : EventLoop,
    machine.Run (start false)
      [.loop, .test, .poll, .pollReturn, .doPendingFunctors, .swap, .endFunctors, .test, .poll,
        .push 3] l ∧
    l.pendingFunctors = [0] ∧ l.wakeupFd = 0 ∧ ∃ t, l.thread t = .pushed 0 := by
  have hrun : ∃ l, machine.Run (start false)
      [.loop, .test, .poll, .pollReturn, .doPendingFunctors, .swap, .endFunctors, .test, .poll,
        .push 3] l ∧ l.pc = .polling ∧ l.polls = 2 ∧ l.pendingFunctors = [0] ∧ l.wakeupFd = 0 :=
    Machine.exists_run (by decide +kernel)
  obtain ⟨l, hl, hpc, hpolls, hp, hfd⟩ := hrun
  refine ⟨l, hl, hp, hfd, ?_⟩
  rcases (pending_served hl).1 hpc (by omega) (.inl (by simp [hp])) with h | h
  · omega
  · exact h.1 0 (by simp [hp])

/-- A push that comes between the beginning of `doPendingFunctors` and its swap
is served in that very pass. -/
theorem pushed_before_swap : ∃ l : EventLoop,
    machine.Run (start false)
      [.loop, .test, .poll, .pollReturn, .doPendingFunctors, .push 3, .swap, .functor] l ∧
    l.queued = [⟨some 1, 0⟩] ∧ l.started = [⟨0, 1⟩] :=
  Machine.exists_run (by decide +kernel)

end Muduo.EventLoop
