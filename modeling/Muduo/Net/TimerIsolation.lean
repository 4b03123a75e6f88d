import Muduo.Net.TimerTwins

/-!
# A cancel touches one timer

Whatever a run of a queue does, the queue does after a cancel as well, without
the callbacks of the timer that was cancelled. All other timers are the same in
the end and have run the same.
-/

namespace Muduo.Timers

open Lib TimerQueue

variable {s s' t t' : Timers} {x w : Ptr} {u : Timer}

-- ---------------------------------------------------------------------------
-- Runs of both
-- ---------------------------------------------------------------------------

/-- A call needs no callback of `x`: none runs, or that of another timer was
started. -/
def Independent (x : Ptr) (s : Timers) : Label → Prop
  | .addTimerInLoop _ _ => ∀ b ∈ s.batch, ∃ w ∈ b.done, w ≠ x
  | .cancelInLoop _ _ => ∀ b ∈ s.batch, ∃ w ∈ b.done, w ≠ x
  | _ => True

instance (x : Ptr) (s : Timers) : DecidablePred (Independent x s)
  | .addTimerInLoop _ _ => inferInstanceAs (Decidable (∀ b ∈ s.batch, _))
  | .cancelInLoop _ _ => inferInstanceAs (Decidable (∀ b ∈ s.batch, _))
  | .new _ _ _ _ => isTrue trivial
  | .beginRead _ _ => isTrue trivial
  | .callback => isTrue trivial
  | .endRead _ => isTrue trivial

theorem callable_same (hb : s'.batch = s.batch) (hen : machine.enabled s a) : Callable s' a := by
  cases a with
  | addTimerInLoop p clock =>
    have huser : s.InUser := hen.1
    rwa [Callable, InUser, hb]
  | cancelInLoop addr n =>
    have huser : s.InUser := hen
    rwa [Callable, InUser, hb]
  | _ => trivial

theorem Gone.inUser (hx : Gone x s s') (ho : ∀ b ∈ s.batch, ∃ w ∈ b.done, w ≠ x) : s'.InUser := by
  rw [InUser, hx.batch]
  cases hb : s.batch with
  | none => trivial
  | some b =>
    obtain ⟨w, hw, hne⟩ := ho b hb
    have hmem : w ∈ b.done.filter (· ≠ x) := List.mem_filter.mpr ⟨hw, decide_eq_true hne⟩
    exact List.ne_nil_of_mem hmem

theorem Without.callable (h : Without x s s') (hen : machine.enabled s a)
    (ho : Independent x s a) : Callable s' a := by
  obtain hx | hx := h.self
  · exact callable_same hx.batch hen
  · cases a with
    | addTimerInLoop p clock => exact hx.inUser ho
    | cancelInLoop addr n => exact hx.inUser ho
    | _ => trivial

/-- The run rule for two queues: `C` is a condition on both and on the labels to
come. -/
theorem Without.run {C : Timers → Timers → List Label → Prop}
    (hcall : ∀ {s s' a as}, Without x s s' → machine.enabled s a → C s s' (a :: as) →
      Callable s' a)
    (hnext : ∀ {s s' a as t t'}, machine.step s a = .ok t → (Idle x s s' → Idle x t t') →
      ((∀ now readAt, a ≠ .beginRead now readAt) → s'.batch = s.batch → t'.batch = t.batch) →
      C s s' (a :: as) → C t t' as)
    (hrun : machine.Run s as t) (h : Without x s s') (hc : C s s' as) :
    ∃ bs t', Skips as bs ∧ machine.Run s' bs t' ∧ Without x t t' ∧ C t t' [] := by
  induction hrun generalizing s' with
  | nil => exact ⟨[], s', .nil, .nil, h, hc⟩
  | cons hen hs _ ih =>
    obtain ⟨bs, m', hskips, hfirst, hm, hidle, hbatch⟩ := h.step hen hs (hcall h hen hc)
    obtain ⟨cs, t', hskips', hrest, ht, hc'⟩ := ih hm (hnext hs hidle hbatch hc)
    exact ⟨bs ++ cs, t', hskips.append hskips', Machine.run_append.mpr ⟨m', hfirst, hrest⟩, ht, hc'⟩

theorem Without.run_batch (h : Without x s s') (hrun : machine.Run s as t)
    (hb : s'.batch = s.batch) (has : ∀ now readAt, .beginRead now readAt ∉ as) :
    ∃ bs t', Skips as bs ∧ machine.Run s' bs t' ∧ Without x t t' := by
  obtain ⟨bs, t', hskips, hrun', ht, -⟩ := Without.run
    (C := fun s s' as => s'.batch = s.batch ∧ ∀ now readAt, .beginRead now readAt ∉ as)
    (fun _ hen hc => callable_same hc.1 hen)
    (fun _ _ hbatch hc => ⟨hbatch (fun now readAt heq => hc.2 now readAt (heq ▸ List.mem_cons_self))
      hc.1, fun now readAt hmem => hc.2 now readAt (List.mem_cons_of_mem _ hmem)⟩)
    hrun h ⟨hb, has⟩
  exact ⟨bs, t', hskips, hrun', ht⟩

theorem Without.run_independent (h : Without x s s') (hrun : machine.Run s as t)
    (hm : machine.Meets (Independent x) s as) :
    ∃ bs t', Skips as bs ∧ machine.Run s' bs t' ∧ Without x t t' := by
  obtain ⟨bs, t', hskips, hrun', ht, -⟩ := Without.run
    (C := fun s _ as => machine.Meets (Independent x) s as)
    (fun h hen hc => h.callable hen hc.1) (fun hs _ _ hc => hc.2 _ hs) hrun h hm
  exact ⟨bs, t', hskips, hrun', ht⟩

theorem Without.run_idle (h : Without x s s') (hrun : machine.Run s as t) (hidle : Idle x s s') :
    ∃ bs t', Skips as bs ∧ machine.Run s' bs t' ∧ Without x t t' := by
  obtain ⟨bs, t', hskips, hrun', ht, -⟩ := Without.run (C := fun s s' _ => Idle x s s')
    (fun _ hen hc => callable_same hc.1.batch hen) (fun _ hnext _ hc => hnext hc) hrun h hidle
  exact ⟨bs, t', hskips, hrun', ht⟩

-- ---------------------------------------------------------------------------
-- The cancel
-- ---------------------------------------------------------------------------

def Hit (s : Timers) (x : Ptr) : Prop := (∃ t, s.queue.Live x t) ∧ x ∉ s.pending

theorem without_same (hb : s.batch = some b) (hx : x ∉ s.expired) : Batch.without x b = b := by
  unfold expired at hx
  rw [hb] at hx
  obtain ⟨hdone, hrest⟩ := not_or.mp (mt List.mem_append.mpr hx)
  have hkeep : ∀ {l : List Ptr}, x ∉ l → l.filter (· ≠ x) = l := fun hl =>
    List.filter_eq_self.mpr fun w hw => decide_eq_true fun heq => hl (heq ▸ hw)
  rw [Batch.without, hkeep hdone, hkeep hrest]

theorem Inv.without (h : s.Inv) (huser : s.InUser)
    (hs : s.step (.cancelInLoop addr n) = .ok s') :
    Without ⟨addr, n⟩ s s' ∧ s'.batch = s.batch ∧ (¬s.Hit ⟨addr, n⟩ → Idle ⟨addr, n⟩ s s') := by
  have hinv := h.step (a := .cancelInLoop addr n) huser hs
  obtain ⟨q, hq, hs⟩ := bind_ok.mp hs
  cases hs
  have hc := TimerQueue.Inv.canceled (p := ⟨addr, n⟩) h hq
  have hstays : ¬s.queue.Found (s.expired ++ s.pending) ⟨addr, n⟩ →
      Stays ⟨addr, n⟩ s { s with queue := q } := fun hnot =>
    ⟨hc.live.trans (and_iff_left fun heq => hnot heq.2), rfl, fun hk => hc.canceling.mpr (.inl hk)⟩
  refine ⟨⟨h, hinv, hc.num, hc.calling, rfl,
    fun hw => hc.live.trans (and_iff_left fun heq => hw heq.1),
    fun hk => hc.canceling.trans (or_iff_left fun hadd => hk hadd.1), rfl, ?_⟩, rfl,
    fun hmiss => ⟨hstays fun hfound => ?_, fun hmem => ?_⟩⟩
  · by_cases hfound : s.queue.Found (s.expired ++ s.pending) ⟨addr, n⟩
    · refine .inr ⟨hc.deleted hfound, ?_⟩
      have hnot : (⟨addr, n⟩ : Ptr) ∉ s.expired := fun hmem =>
        hfound.2 (List.mem_append_left _ hmem)
      show s.batch = s.batch.map (Batch.without ⟨addr, n⟩)
      cases hb : s.batch with
      | none => rfl
      | some b => exact congrArg some (without_same hb hnot).symm
    · exact .inl (hstays hfound)
  · exact hmiss ⟨hfound.1, fun hmem => hfound.2 (List.mem_append_right _ hmem)⟩
  · have hlive := h.live _ (List.mem_append_left s.pending hmem)
    exact absurd ⟨hlive, fun hp => List.disjoint_of_nodup_append h.nodup hmem hp⟩ hmiss

structure Agree (x : Ptr) (s s' : Timers) : Prop where
  live : ∀ {w u}, w ≠ x → (s'.queue.Live w u ↔ s.queue.Live w u)
  timers : ∀ {w e}, w ≠ x →
    (s'.queue.timers.find? e = some w ↔ s.queue.timers.find? e = some w)
  active : ∀ {w k}, w ≠ x →
    (s'.queue.activeTimers.find? k = some w ↔ s.queue.activeTimers.find? k = some w)
  pending : s'.pending = s.pending
  batch : s'.batch.map (Batch.without x) = s.batch.map (Batch.without x)
  started : s'.started.filter (· ≠ x.object) = s.started.filter (· ≠ x.object)

theorem without_without : Batch.without x (Batch.without x b) = Batch.without x b := by
  simp only [Batch.without, List.filter_filter, Bool.and_self]

theorem Without.agree (h : Without x s s') : Agree x s s' := by
  refine ⟨h.live, fun {w e} hw => ?_, fun {w k} hw => ?_, h.pending, ?_, h.started⟩
  · rw [h.inv'.timers e w, h.inv.timers e w]
    exact h.keyed hw
  · rw [h.inv'.active k w, h.inv.active k w]
    exact h.keyed hw
  · obtain hx | hx := h.self
    · rw [hx.batch]
    · rw [hx.batch, Option.map_map]
      exact congrArg (Option.map · s.batch) (funext fun _ => without_without)

/-- After a cancel the queue can do what it does without, and the other timers do
not see a difference. In later calls of `handleRead`, no calls are made that only
the callback of the cancelled timer could make. -/
theorem cancel_isolated (h : machine.Run {} as s)
    (hcancel : machine.Run s [.cancelInLoop addr n] s') (hb : machine.Run s bs m)
    (hbs : ∀ now readAt, .beginRead now readAt ∉ bs) (hc : machine.Run m cs t)
    (hcs : s.Hit ⟨addr, n⟩ → machine.Meets (Independent ⟨addr, n⟩) m cs) :
    ∃ ds t', Skips (bs ++ cs) ds ∧ machine.Run s' ds t' ∧ Agree ⟨addr, n⟩ t t' := by
  have hinv := h.keeps inv_safe.keeps start_inv
  obtain ⟨hwithout, hbatch, hidle⟩ : Without ⟨addr, n⟩ s s' ∧ s'.batch = s.batch ∧
      (¬s.Hit ⟨addr, n⟩ → Idle ⟨addr, n⟩ s s') := by
    cases hcancel with
    | cons hen hs hnil =>
      cases hnil
      exact hinv.without hen hs
  by_cases hhit : s.Hit ⟨addr, n⟩
  · obtain ⟨bs', m', hskips, hrun, hm⟩ := hwithout.run_batch hb hbatch hbs
    obtain ⟨cs', t', hskips', hrun', ht⟩ := hm.run_independent hc (hcs hhit)
    exact ⟨bs' ++ cs', t', hskips.append hskips', Machine.run_append.mpr ⟨m', hrun, hrun'⟩, ht.agree⟩
  · obtain ⟨ds, t', hskips, hrun, ht⟩ :=
      hwithout.run_idle (Machine.run_append.mpr ⟨m, hb, hc⟩) (hidle hhit)
    exact ⟨ds, t', hskips, hrun, ht.agree⟩

/-- A timer cancels itself in its callback, and the others of its batch and a
later one run as they would have. -/
theorem cancel_isolated_itself : ∃ s s' m u, machine.Run {} [.new 8 5 3 true, .new 16 5 0 false,
      .addTimerInLoop ⟨8, 1⟩ ⟨0, 0⟩, .addTimerInLoop ⟨16, 2⟩ ⟨0, 0⟩, .beginRead 7 7, .callback] s ∧
    machine.Run s [.cancelInLoop 8 1] s' ∧ machine.Run s [.callback, .endRead ⟨9, 9⟩] m ∧
    machine.Run m [.new 24 12 0 false, .addTimerInLoop ⟨24, 3⟩ ⟨9, 9⟩, .beginRead 13 13, .callback,
      .callback, .endRead ⟨14, 14⟩] u ∧ u.started = [1, 2, 1, 3] ∧
    ∃ ds u', Skips ([.callback, .endRead ⟨9, 9⟩] ++ [.new 24 12 0 false,
      .addTimerInLoop ⟨24, 3⟩ ⟨9, 9⟩, .beginRead 13 13, .callback, .callback,
      .endRead ⟨14, 14⟩]) ds ∧ machine.Run s' ds u' ∧ Agree ⟨8, 1⟩ u u' := by
  have hrun : ∃ s, machine.Run {} [.new 8 5 3 true, .new 16 5 0 false,
      .addTimerInLoop ⟨8, 1⟩ ⟨0, 0⟩, .addTimerInLoop ⟨16, 2⟩ ⟨0, 0⟩, .beginRead 7 7, .callback] s ∧
      ∃ s' ∈ machine.exec s [.cancelInLoop 8 1], ∃ m ∈ machine.exec s [.callback, .endRead ⟨9, 9⟩],
      ∃ u ∈ machine.exec m [.new 24 12 0 false, .addTimerInLoop ⟨24, 3⟩ ⟨9, 9⟩, .beginRead 13 13,
        .callback, .callback, .endRead ⟨14, 14⟩], u.started = [1, 2, 1, 3] ∧
        machine.Meets (Independent ⟨8, 1⟩) m [.new 24 12 0 false, .addTimerInLoop ⟨24, 3⟩ ⟨9, 9⟩,
          .beginRead 13 13, .callback, .callback, .endRead ⟨14, 14⟩] :=
    Machine.exists_run (by decide +kernel)
  obtain ⟨s, hs, s', hs', m, hm, u, hu, hstarted, hmeets⟩ := hrun
  have hcancel := Machine.run_of_exec hs'
  have hbatch := Machine.run_of_exec hm
  have hlater := Machine.run_of_exec hu
  exact ⟨s, s', m, u, hs, hcancel, hbatch, hlater, hstarted,
    cancel_isolated hs hcancel hbatch (by simp) hlater fun _ => hmeets⟩

end Muduo.Timers
