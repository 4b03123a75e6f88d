import Muduo.Net.TimerRuns
import Muduo.Net.TimerSteps

/-!
# What a step does to one timer

A timer stays as it is until a cancel finds it or the `handleRead` that has it
in its batch ends.
-/

namespace Muduo.Timers

open Lib Function TimerQueue

variable {s s' : Timers} {p : Ptr} {t : Timer}

-- ---------------------------------------------------------------------------
-- The steps
-- ---------------------------------------------------------------------------

theorem inUser_outside (hb : s.batch.isNone) : s.InUser := by
  rw [InUser, Option.isNone_iff_eq_none.mp hb]
  trivial

theorem beginRead_step (hs : s.step (.beginRead now readAt) = .ok s') : ∃ active fd,
    s' = { s with
      queue := { s.queue with
        timers := s.queue.timers.dropBelow (toLex (now, UINTPTR_MAX))
        activeTimers := active
        callingExpiredTimers := true
        cancelingTimers := OrdMap.empty
        timerfd := fd }
      batch := some ⟨[], (s.queue.timers.below (toLex (now, UINTPTR_MAX))).map Prod.snd, now⟩ } := by
  obtain ⟨⟨expired, q⟩, hq, hs⟩ := bind_ok.mp hs
  cases hs
  obtain ⟨active, rfl⟩ := beginRead_ok hq
  exact ⟨active, _, by rw [beginRead_below hq]⟩

theorem callback_ok (hen : s.Enabled .callback) (hs : s.step .callback = .ok s') :
    ∃ done w rest now u, s.batch = some ⟨done, w :: rest, now⟩ ∧ s.queue.Live w u ∧
      s' = { s with batch := some ⟨done ++ [w], rest, now⟩, started := s.started ++ [w.object] } := by
  obtain ⟨⟨done, rest, now⟩, hb, hr⟩ := hen
  cases rest with
  | nil => exact absurd rfl hr
  | cons w rest =>
    have hb : s.batch = some ⟨done, w :: rest, now⟩ := hb
    simp only [step, hb] at hs
    obtain ⟨u, hu, hs⟩ := bind_ok.mp hs
    have hlive := deref_ok.mp hu
    cases hs
    exact ⟨done, w, rest, now, u, hb, hlive, by rw [hlive.2]⟩

theorem endRead_step (hen : s.Enabled (.endRead clock)) (hs : s.step (.endRead clock) = .ok s') :
    ∃ done now q, s.batch = some ⟨done, [], now⟩ ∧ s.queue.endRead done now clock = .ok q ∧
      s' = { s with queue := q, batch := none } := by
  obtain ⟨⟨done, rest, now⟩, hb, rfl⟩ := hen
  have hb : s.batch = some ⟨done, [], now⟩ := hb
  simp only [step, hb] at hs
  obtain ⟨q, hq, hs⟩ := bind_ok.mp hs
  cases hs
  exact ⟨done, now, q, hb, hq, rfl⟩

theorem later_step (hen : s.Enabled a) (hs : s.step a = .ok s') : Later s.queue s'.queue := by
  cases a with
  | new addr expiration interval repeats =>
    cases hs
    exact later_new hen
  | addTimerInLoop w clock =>
    obtain ⟨q, hq, hs⟩ := bind_ok.mp hs
    cases hs
    exact later_addTimerInLoop hq
  | cancelInLoop addr sequence =>
    obtain ⟨q, hq, hs⟩ := bind_ok.mp hs
    cases hs
    exact later_cancelInLoop hq
  | beginRead now readAt =>
    obtain ⟨active, fd, rfl⟩ := beginRead_step hs
    exact .of_eq rfl rfl
  | callback =>
    obtain ⟨_, _, _, _, _, -, -, rfl⟩ := callback_ok hen hs
    exact .rfl
  | endRead clock =>
    obtain ⟨done, now, q, -, hq, rfl⟩ := endRead_step hen hs
    exact later_endRead hq

theorem later_run (h : machine.Run s as s') : Later s.queue s'.queue := by
  induction h with
  | nil => exact .rfl
  | cons ha ht _ ih => exact (later_step ha ht).trans ih

theorem Inv.made_le (h : s.Inv) (hp : s.queue.Made p) : p.object ≤ s.queue.numCreated := by
  rcases hp with ⟨u, hu⟩ | hd
  · rw [← hu.2]
    exact (h.memory.born hu.1).2
  · exact h.memory.gone hd

theorem Inv.not_deleted (h : s.Inv) (hp : s.queue.Live p t) : p.object ∉ s.queue.deleted := by
  rw [← hp.2]
  exact h.memory.alive hp.1

-- ---------------------------------------------------------------------------
-- One timer
-- ---------------------------------------------------------------------------

/-- Outside of the end of `handleRead`, only its own cancel touches a timer. -/
theorem Inv.live_step (h : s.Inv) (hen : s.Enabled a) (hs : s.step a = .ok s')
    (ha : ∀ clock, a ≠ .endRead clock) (ht : s.queue.Live p t) :
    s'.queue.Live p t ∨
      a = .cancelInLoop p.addr p.object ∧ p ∉ s.expired ∧ p.object ∈ s'.queue.deleted := by
  cases a with
  | new addr expiration interval repeats =>
    cases hs
    have hne : p.addr ≠ addr := fun heq => not_live_free (heq ▸ hen.1) t ht
    exact .inl ⟨(update_of_ne hne ..).trans ht.1, ht.2⟩
  | addTimerInLoop w clock =>
    obtain ⟨q, hq, hs⟩ := bind_ok.mp hs
    cases hs
    obtain ⟨timers, active, fd, rfl⟩ := addTimerInLoop_rest hq
    exact .inl ht
  | cancelInLoop addr sequence =>
    obtain ⟨q, hq, hs⟩ := bind_ok.mp hs
    cases hs
    obtain ⟨w, u, hfind, hu, rfl⟩ | ⟨-, rfl⟩ := cancelInLoop_ok hq
    · by_cases hpw : p = w
      · subst hpw
        obtain ⟨v, hv, haway, hkey⟩ := (h.active _ p).mp hfind
        cases toLex.injective hkey
        rw [hv.2]
        exact .inr ⟨rfl, fun hp => haway (List.mem_append_left _ hp),
          List.mem_append_right _ (List.mem_singleton_self _)⟩
      · exact .inl ((only_live (o := none) hu (fun _ hv => by cases hv) rfl hpw).mpr ht)
    · left
      split <;> exact ht
  | beginRead now readAt =>
    obtain ⟨active, fd, rfl⟩ := beginRead_step hs
    exact .inl ht
  | callback =>
    obtain ⟨_, _, _, _, _, -, -, rfl⟩ := callback_ok hen hs
    exact .inl ht
  | endRead clock => exact absurd rfl (ha clock)

theorem Inv.live_expired (h : s.Inv) (hen : s.Enabled a) (hs : s.step a = .ok s')
    (ha : ∀ clock, a ≠ .endRead clock) (ht : s.queue.Live p t) (hp : p ∈ s.expired) :
    s'.queue.Live p t :=
  (h.live_step hen hs ha ht).resolve_right fun hcancel => hcancel.2.1 hp

theorem canceling_step (hen : s.Enabled a) (hs : s.step a = .ok s')
    (hk : k ∈ s'.queue.cancelingTimers) :
    k ∈ s.queue.cancelingTimers ∨ a = .cancelInLoop (ofLex k).1 (ofLex k).2 := by
  cases a with
  | new addr expiration interval repeats =>
    cases hs
    exact .inl hk
  | addTimerInLoop w clock =>
    obtain ⟨q, hq, hs⟩ := bind_ok.mp hs
    cases hs
    obtain ⟨timers, active, fd, rfl⟩ := addTimerInLoop_rest hq
    exact .inl hk
  | cancelInLoop addr sequence =>
    obtain ⟨q, hq, hs⟩ := bind_ok.mp hs
    cases hs
    obtain ⟨w, u, -, -, rfl⟩ | ⟨-, rfl⟩ := cancelInLoop_ok hq
    · exact .inl hk
    · simp only at hk
      split at hk
      · rcases OrdSet.mem_add.mp hk with rfl | hk
        · exact .inr rfl
        · exact .inl hk
      · exact .inl hk
  | beginRead now readAt =>
    obtain ⟨active, fd, rfl⟩ := beginRead_step hs
    exact absurd hk OrdSet.not_mem_empty
  | callback =>
    obtain ⟨_, _, _, _, _, -, -, rfl⟩ := callback_ok hen hs
    exact .inl hk
  | endRead clock =>
    obtain ⟨done, now, q, -, hq, rfl⟩ := endRead_step hen hs
    rw [(endRead_rest hq).2.2] at hk
    exact .inl hk

theorem Inv.done_nodup (h : s.Inv) (hb : s.batch = some b) : (b.done ++ b.rest).Nodup := by
  have hnodup := h.nodup
  rw [expired, hb] at hnodup
  exact (List.nodup_append.mp hnodup).1

theorem Inv.batch_away (h : s.Inv) (hb : s.batch = some ⟨done, [], now⟩) :
    s.queue.Inv (done ++ s.pending) := by
  unfold Inv expired at h
  simpa only [hb, List.append_nil] using h

/-- What the end of `handleRead` does to a timer. -/
theorem Inv.fate (h : s.Inv) (hen : s.Enabled (.endRead clock))
    (hs : s.step (.endRead clock) = .ok s') :
    ∃ b, s.batch = some b ∧ ∀ {p t}, s.queue.Live p t →
      Fate b.done b.now s.queue s'.queue p t := by
  obtain ⟨done, now, q, hb, hq, rfl⟩ := endRead_step hen hs
  have hnodup := h.done_nodup hb
  rw [List.append_nil] at hnodup
  exact ⟨_, hb, fun hlive => endRead_fate hq hnodup hlive⟩

end Muduo.Timers
