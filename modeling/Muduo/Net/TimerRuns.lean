import Muduo.Net.TimerSets

/-!
# Every timer has one holder

In every run of a loop thread and of threads that make timers, a timer that was
made and is not deleted is in both sets, in the batch of `handleRead`, or on its
way to `addTimerInLoop`, and in one of the three places only.
-/

namespace Muduo.Timers

open Lib TimerQueue

variable {s s' : Timers}

/-- The batch that `handleRead` has in its hands. -/
def expired (s : Timers) : List Ptr :=
  match s.batch with
  | none => []
  | some b => b.done ++ b.rest

def InTimers (s : Timers) (p : Ptr) : Prop := ∃ e, s.queue.timers.find? e = some p

def InActive (s : Timers) (p : Ptr) : Prop := ∃ k, s.queue.activeTimers.find? k = some p

def Inv (s : Timers) : Prop := s.queue.Inv (s.expired ++ s.pending)

-- ---------------------------------------------------------------------------
-- Steps
-- ---------------------------------------------------------------------------

theorem Inv.new (h : Inv s) (hf : s.queue.Free a) :
    ∃ s', step s (.new a expiration interval repeats) = .ok s' ∧ Inv s' := by
  refine ⟨_, rfl, (TimerQueue.Inv.new h hf expiration interval repeats).perm ?_⟩
  rw [← List.append_assoc]
  exact List.perm_append_singleton _ _ |>.symm

theorem Inv.addTimerInLoop (h : Inv s) (hp : p ∈ s.pending) :
    ∃ s', step s (.addTimerInLoop p clock) = .ok s' ∧ Inv s' := by
  have hperm : (s.expired ++ s.pending).Perm (p :: (s.expired ++ s.pending.erase p)) :=
    ((List.perm_cons_erase hp).append_left s.expired).trans List.perm_middle
  obtain ⟨queue, hok, hinv⟩ := (TimerQueue.Inv.perm h hperm).addTimerInLoop clock
  refine ⟨{ s with queue, pending := s.pending.erase p }, ?_, hinv⟩
  simp only [step, hok, ok_bind]
  rfl

theorem Inv.cancelInLoop (h : Inv s) (a n : Nat) :
    ∃ s', step s (.cancelInLoop a n) = .ok s' ∧ Inv s' := by
  obtain ⟨queue, hok, hinv⟩ := TimerQueue.Inv.cancelInLoop h (toLex (a, n))
  exact ⟨{ s with queue }, by simp only [step, hok, ok_bind]; rfl, hinv⟩

theorem Inv.beginRead (h : Inv s) (hb : s.batch = none) :
    ∃ s', step s (.beginRead now readAt) = .ok s' ∧ Inv s' := by
  unfold Inv expired at h
  rw [hb] at h
  obtain ⟨expired, queue, hok, hinv⟩ := TimerQueue.Inv.beginRead h now readAt
  exact ⟨{ s with queue, batch := some ⟨[], expired, now⟩ },
    by simp only [step, hok, ok_bind]; rfl, hinv⟩

theorem Inv.callback (h : Inv s) (hb : s.batch = some b) (hr : b.rest ≠ []) :
    ∃ s', step s .callback = .ok s' ∧ Inv s' := by
  obtain ⟨done, rest, now⟩ := b
  cases rest with
  | nil => exact absurd rfl hr
  | cons p rest =>
    unfold Inv expired at h
    rw [hb] at h
    obtain ⟨t, ht⟩ := h.live p (by simp)
    refine ⟨{ s with
      batch := some ⟨done ++ [p], rest, now⟩, started := s.started ++ [t.sequence] }, ?_, ?_⟩
    · simp only [step, hb, deref_live ht, ok_bind]
      rfl
    · simpa [Inv, expired] using h

theorem Inv.endRead (h : Inv s) (hb : s.batch = some b) (hr : b.rest = []) :
    ∃ s', step s (.endRead clock) = .ok s' ∧ Inv s' := by
  unfold Inv expired at h
  simp only [hb, hr, List.append_nil] at h
  obtain ⟨queue, hok, hinv⟩ := TimerQueue.Inv.endRead h b.now clock
  exact ⟨{ s with queue, batch := none }, by simp only [step, hb, hok, ok_bind]; rfl, hinv⟩

theorem inv_safe : machine.Safe Inv := by
  intro s label h hen
  cases label with
  | new a expiration interval repeats => exact h.new hen
  | addTimerInLoop p clock => exact h.addTimerInLoop hen.2
  | cancelInLoop a n => exact h.cancelInLoop a n
  | beginRead now readAt => exact h.beginRead (Option.isNone_iff_eq_none.mp hen)
  | callback =>
    obtain ⟨b, hb, hr⟩ := hen
    exact h.callback hb hr
  | endRead clock =>
    obtain ⟨b, hb, hr⟩ := hen
    exact h.endRead hb hr

theorem Inv.step (h : Inv s) (hen : s.Enabled a) (hs : s.step a = .ok s') : Inv s' :=
  inv_safe.keeps (a := a) h hen hs

theorem start_inv : Inv {} :=
  ⟨OrdMap.Indexes.empty.congr fun _ _ => ⟨(fun ⟨_, ht, _⟩ => nomatch ht.1), nofun⟩,
    OrdMap.Indexes.empty.congr fun _ _ => ⟨(fun ⟨_, ht, _⟩ => nomatch ht.1), nofun⟩, rfl, nofun,
    List.nodup_nil, nofun, nofun, nofun, nofun,
    fun h0 hn _ => absurd (Nat.lt_of_lt_of_le h0 hn) (Nat.lt_irrefl 0), nofun, List.nodup_nil⟩

-- ---------------------------------------------------------------------------
-- Runs
-- ---------------------------------------------------------------------------

theorem Inv.inTimers (h : Inv s) (ht : s.queue.Live p t) :
    s.InTimers p ↔ p ∉ s.expired ++ s.pending := by
  constructor
  · rintro ⟨e, he⟩
    exact (((h.timers e p).mp he).live ht).1
  · intro hp
    exact ⟨_, (h.timers _ p).mpr ⟨t, ht, hp, rfl⟩⟩

theorem Inv.inActive (h : Inv s) (ht : s.queue.Live p t) :
    s.InActive p ↔ p ∉ s.expired ++ s.pending := by
  constructor
  · rintro ⟨k, hk⟩
    exact (((h.active k p).mp hk).live ht).1
  · intro hp
    exact ⟨_, (h.active _ p).mpr ⟨t, ht, hp, rfl⟩⟩

/-- What the sets, the batch and the pending timers are to the timers made. -/
structure Represents (s : Timers) : Prop where
  timers : ∀ {e p}, s.queue.timers.find? e = some p →
    s.InActive p ∧ ∃ t, s.queue.Live p t ∧ e = toLex (t.expiration, p.addr)
  active : ∀ {k p}, s.queue.activeTimers.find? k = some p →
    s.InTimers p ∧ ∃ t, s.queue.Live p t ∧ k = toLex (p.addr, t.sequence)
  held : ∀ p ∈ s.expired ++ s.pending, ∃ t, s.queue.Live p t
  nodup : (s.expired ++ s.pending).Nodup
  place : ∀ {p t}, s.queue.Live p t →
    (s.InTimers p ∧ s.InActive p ∧ p ∉ s.expired ∧ p ∉ s.pending) ∨
    (¬s.InTimers p ∧ ¬s.InActive p ∧ p ∈ s.expired ∧ p ∉ s.pending) ∨
    (¬s.InTimers p ∧ ¬s.InActive p ∧ p ∉ s.expired ∧ p ∈ s.pending)
  deleted : s.queue.deleted.Nodup
  lives : ∀ {n}, (∃ p t, p.object = n ∧ s.queue.Live p t) ↔
    0 < n ∧ n ≤ s.queue.numCreated ∧ n ∉ s.queue.deleted

theorem Inv.represents (h : Inv s) : Represents s := by
  refine ⟨fun {e p} he => ?_, fun {k p} hk => ?_, h.live, h.nodup, fun {p t} ht => ?_,
    h.memory.once, fun {n} => ⟨?_, ?_⟩⟩
  · obtain ⟨t, ht, hp, rfl⟩ := (h.timers e p).mp he
    exact ⟨(h.inActive ht).mpr hp, t, ht, rfl⟩
  · obtain ⟨t, ht, hp, rfl⟩ := (h.active k p).mp hk
    exact ⟨(h.inTimers ht).mpr hp, t, ht, rfl⟩
  · rw [h.inTimers ht, h.inActive ht, List.mem_append]
    have hdisjoint := List.disjoint_of_nodup_append h.nodup
    by_cases he : p ∈ s.expired
    · have hp : p ∉ s.pending := fun hp => hdisjoint he hp
      simp [he, hp]
    · by_cases hp : p ∈ s.pending <;> simp [he, hp]
  · rintro ⟨p, t, rfl, hh, hseq⟩
    rw [← hseq]
    exact ⟨(h.memory.born hh).1, (h.memory.born hh).2, h.memory.alive hh⟩
  · rintro ⟨h0, hn, hd⟩
    exact h.memory.kept h0 hn hd

theorem representation (h : machine.Run {} labels s) : Represents s ∧ machine.NoFault s :=
  have hinv := h.safe inv_safe start_inv
  ⟨hinv.1.represents, hinv.2⟩

/-- A timer cancels itself and another one in its callback, its address is used
again, and the new timer is cancelled with the id of the old. -/
theorem representation_reused : ∃ s, machine.Run {}
    [.new 8 5 0 true, .new 16 7 3 true, .addTimerInLoop ⟨8, 1⟩ ⟨0, 0⟩,
      .addTimerInLoop ⟨16, 2⟩ ⟨0, 0⟩, .beginRead 7 7, .callback, .cancelInLoop 8 1,
      .new 24 (-1) 0 false, .callback, .addTimerInLoop ⟨24, 3⟩ ⟨9, 9⟩, .endRead ⟨9, 9⟩,
      .new 8 2 0 false, .addTimerInLoop ⟨8, 4⟩ ⟨9, 9⟩, .cancelInLoop 8 1, .cancelInLoop 24 3] s ∧
    s.queue.deleted = [1, 3] ∧ s.started = [1, 2] ∧ Represents s ∧ machine.NoFault s := by
  have hrun : ∃ s, machine.Run {}
      [.new 8 5 0 true, .new 16 7 3 true, .addTimerInLoop ⟨8, 1⟩ ⟨0, 0⟩,
        .addTimerInLoop ⟨16, 2⟩ ⟨0, 0⟩, .beginRead 7 7, .callback, .cancelInLoop 8 1,
        .new 24 (-1) 0 false, .callback, .addTimerInLoop ⟨24, 3⟩ ⟨9, 9⟩, .endRead ⟨9, 9⟩,
        .new 8 2 0 false, .addTimerInLoop ⟨8, 4⟩ ⟨9, 9⟩, .cancelInLoop 8 1, .cancelInLoop 24 3] s ∧
      s.queue.deleted = [1, 3] ∧ s.started = [1, 2] :=
    Machine.exists_run (by decide +kernel)
  obtain ⟨s, hs, hdel, hstart⟩ := hrun
  exact ⟨s, hs, hdel, hstart, representation hs⟩

end Muduo.Timers
