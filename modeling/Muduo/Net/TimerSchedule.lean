import Muduo.Net.TimerMoves

/-!
# When timers run

`handleRead` runs the timers that are due when it begins, in the order of their
expirations. What callbacks add or cancel meanwhile does not change its batch,
and a repeating timer goes back into `timers_` after the batch, for a time not
before it.
-/

namespace Muduo

open Lib TimerQueue

-- ---------------------------------------------------------------------------
-- The batch
-- ---------------------------------------------------------------------------

namespace TimerQueue

variable {q q' : TimerQueue} {p : Ptr} {t : Timer} {away : List Ptr}

/-- What `handleRead` takes out of `timers_`. -/
structure Due (q : TimerQueue) (now : Timestamp) (expired : List Ptr) : Prop where
  mem : ∀ p, p ∈ expired ↔ ∃ e, q.timers.find? e = some p ∧ (ofLex e).1 ≤ now
  once : expired.Nodup
  order : expired.Pairwise fun p w => ∀ {e f}, q.timers.find? e = some p →
    q.timers.find? f = some w → (ofLex e).1 ≤ (ofLex f).1

theorem Inv.due (h : q.Inv away) (hq : q.beginRead now readAt = .ok (expired, q')) :
    q.Due now expired := by
  have hone : ∀ {e f p}, q.timers.find? e = some p → q.timers.find? f = some p → e = f :=
    fun he hf => ((h.timers _ _).mp he).one ((h.timers _ _).mp hf)
  rw [beginRead_below hq]
  refine ⟨fun p => ?_, h.timers.below_nodup fun hv hw => hv.one hw, ?_⟩
  · rw [h.timers.mem_below]
    refine exists_congr fun e => ?_
    rw [← h.timers e p]
    refine and_congr_right fun he => ?_
    obtain ⟨t, ht, -, rfl⟩ := (h.timers e p).mp he
    exact lt_sentry (h.memory.below ht.1)
  · have hs := q.timers.sorted.sublist (List.takeWhile_sublist
      (fun e => decide (e.1 < toLex (now, UINTPTR_MAX))))
    refine List.pairwise_map.mpr (hs.imp_of_mem fun {x y} hx hy hlt => ?_)
    intro e f he hf
    rw [hone he (OrdMap.mem_below.mp hx).1, hone hf (OrdMap.mem_below.mp hy).1]
    exact Prod.Lex.monotone_fst _ _ hlt.le

end TimerQueue

namespace Timers

variable {s s₁ s₂ s' : Timers} {p : Ptr} {t : Timer} {expired : List Ptr}

-- ---------------------------------------------------------------------------
-- One handleRead
-- ---------------------------------------------------------------------------

/-- `handleRead` began in `s` and makes the steps `bs`. -/
structure Reading (s : Timers) (now : Timestamp) (expired : List Ptr) (bs : List Label)
    (s₁ : Timers) : Prop where
  inv : s₁.Inv
  batch : ∃ done rest, s₁.batch = some ⟨done, rest, now⟩ ∧ done ++ rest = expired ∧
    s₁.started = s.started ++ done.map Ptr.object
  live : ∀ {p t}, p ∈ expired → s.queue.Live p t → s₁.queue.Live p t
  canceling : ∀ {k}, k ∈ s₁.queue.cancelingTimers → .cancelInLoop (ofLex k).1 (ofLex k).2 ∈ bs

theorem Reading.expired_eq (h : Reading s now expired bs s₁) : s₁.expired = expired := by
  obtain ⟨done, rest, hb, heq, -⟩ := h.batch
  rw [Timers.expired, hb]
  exact heq

theorem Inv.reading (h : s.Inv) (hen : s.Enabled (.beginRead now readAt))
    (hs : s.step (.beginRead now readAt) = .ok s₁) :
    ∃ expired, s.queue.Due now expired ∧ Reading s now expired bs s₁ := by
  have hinv := h.step hen hs
  obtain ⟨⟨expired, q⟩, hq, hs⟩ := bind_ok.mp hs
  cases hs
  have hdue := TimerQueue.Inv.due h hq
  obtain ⟨active, rfl⟩ := beginRead_ok hq
  refine ⟨expired, hdue, hinv, ⟨[], expired, rfl, rfl, (List.append_nil _).symm⟩,
    fun _ ht => ht, fun hk => absurd hk OrdSet.not_mem_empty⟩

theorem batch_step (hen : s.Enabled a) (hs : s.step a = .ok s')
    (ha : ∀ clock, a ≠ .endRead clock) :
    (s'.started = s.started ∧ ∀ b ∈ s.batch, s'.batch = some b) ∨
    ∃ b w rest u, s.batch = some b ∧ b.rest = w :: rest ∧ s.queue.Live w u ∧
      s'.started = s.started ++ [w.object] ∧ s'.batch = some ⟨b.done ++ [w], rest, b.now⟩ := by
  cases a with
  | new addr expiration interval repeats =>
    cases hs
    exact .inl ⟨rfl, fun b hb => hb⟩
  | addTimerInLoop w clock =>
    obtain ⟨q, -, hs⟩ := bind_ok.mp hs
    cases hs
    exact .inl ⟨rfl, fun b hb => hb⟩
  | cancelInLoop addr sequence =>
    obtain ⟨q, -, hs⟩ := bind_ok.mp hs
    cases hs
    exact .inl ⟨rfl, fun b hb => hb⟩
  | beginRead now readAt =>
    obtain ⟨⟨expired, q⟩, -, hs⟩ := bind_ok.mp hs
    cases hs
    refine .inl ⟨rfl, fun b hb => ?_⟩
    rw [Option.isNone_iff_eq_none.mp hen] at hb
    cases hb
  | callback =>
    obtain ⟨done, w, rest, now, u, hb, hu, rfl⟩ := callback_ok hen hs
    exact .inr ⟨_, w, rest, u, hb, rfl, hu, rfl, rfl⟩
  | endRead clock => exact absurd rfl (ha clock)

theorem reading_keeps (hbs : ∀ clock, .endRead clock ∉ bs) :
    (machine.restrict fun _ a => a ∈ bs).Keeps (Reading s now expired bs) := by
  intro s₁ a s₂ h hen hs
  obtain ⟨hen, ha⟩ := hen
  have hne : ∀ clock, a ≠ .endRead clock := by
    rintro clock rfl
    exact hbs clock ha
  obtain ⟨done, rest, hb, hexpired, hstarted⟩ := h.batch
  refine ⟨h.inv.step hen hs, ?_, fun hp ht => ?_, fun hk => ?_⟩
  · rcases batch_step hen hs hne with ⟨hstarted', hb'⟩ | ⟨b, w, rest', u, hb', hrest, -, hstarted', hb''⟩
    · exact ⟨done, rest, hb' _ hb, hexpired, hstarted'.trans hstarted⟩
    · cases hb.symm.trans hb'
      cases hrest
      refine ⟨done ++ [w], rest', hb'', ?_, ?_⟩
      · rw [List.append_assoc]
        exact hexpired
      · rw [hstarted', hstarted, List.map_append, List.append_assoc]
        rfl
  · exact h.inv.live_expired hen hs hne (h.live hp ht) (h.expired_eq.symm ▸ hp)
  · rcases canceling_step hen hs hk with hk | hk
    · exact h.canceling hk
    · exact hk ▸ ha

/-- `handleRead` from `s` to `s'` with the steps `bs` of the callbacks. -/
structure Fired (s : Timers) (now : Timestamp) (expired : List Ptr) (bs : List Label)
    (s' : Timers) : Prop where
  due : s.queue.Due now expired
  started : s'.started = s.started ++ expired.map Ptr.object
  back : ∀ {p t}, p ∈ expired → s.queue.Live p t → t.repeats →
    .cancelInLoop p.addr p.object ∉ bs →
    s'.queue.Live p { t with expiration := now + t.interval } ∧
    s'.queue.timers.find? (toLex (now + t.interval, p.addr)) = some p

theorem Reading.fired (h : Reading s now expired bs s₁) (hdue : s.queue.Due now expired)
    (hen : s₁.Enabled (.endRead clock)) (hs : s₁.step (.endRead clock) = .ok s') :
    Fired s now expired bs s' := by
  have hinv := h.inv.step hen hs
  obtain ⟨b, hb, hfate⟩ := h.inv.fate hen hs
  obtain ⟨done, now', q, hb', -, rfl⟩ := endRead_step hen hs
  cases hb.symm.trans hb'
  obtain ⟨done', rest, hb'', hexpired, hstarted⟩ := h.batch
  cases hb.symm.trans hb''
  rw [List.append_nil] at hexpired
  subst hexpired
  refine ⟨hdue, hstarted, fun {p t} hp ht hrepeats hcancel => ?_⟩
  have hlive := h.live hp ht
  have hreturns : s₁.queue.Returns p t := by
    refine ⟨hrepeats, fun hk => hcancel ?_⟩
    rw [activeTimer, hlive.2] at hk
    exact h.canceling hk
  have hback := (hfate hlive).back hp hreturns
  rw [Timer.restart, if_pos hrepeats] at hback
  refine ⟨hback, (hinv.timers _ p).mpr ⟨_, hback, fun haway => ?_, rfl⟩⟩
  -- it was in the batch, so it is not on its way to `addTimerInLoop`
  have hnodup := h.inv.nodup
  rw [h.expired_eq] at hnodup
  exact List.disjoint_of_nodup_append hnodup hp haway

theorem Inv.fired (h : s.Inv)
    (hrun : machine.Run s (.beginRead now readAt :: (bs ++ [.endRead clock])) s')
    (hbs : ∀ clock, .endRead clock ∉ bs) : ∃ expired, Fired s now expired bs s' := by
  cases hrun with
  | cons hen hs hrun =>
    obtain ⟨expired, hdue, hreading⟩ := h.reading hen hs
    obtain ⟨s₂, hcallbacks, hend⟩ := Machine.run_append.mp hrun
    cases hend with
    | cons hen' hs' hnil =>
      cases hnil
      have hkept := (hcallbacks.restrict (Machine.meets_of_mem fun a ha => ha)).keeps
        (reading_keeps hbs) hreading
      exact ⟨expired, hkept.fired hdue hen' hs'⟩

-- ---------------------------------------------------------------------------
-- A timer that does not repeat
-- ---------------------------------------------------------------------------

/-- `p` runs but once: it was not started yet, or it is in the batch or gone. -/
structure Single (s : Timers) (p : Ptr) : Prop where
  inv : s.Inv
  count : s.started.count p.object ≤ 1
  live : p.object ∈ s.queue.deleted ∨ ∃ t, s.queue.Live p t ∧ t.repeats = false ∧
    (p.object ∈ s.started → ∃ b ∈ s.batch, p ∈ b.done)

theorem Single.endRead (h : Single s p) (hen : s.Enabled (.endRead clock))
    (hs : s.step (.endRead clock) = .ok s') : Single s' p := by
  have hinv := h.inv.step hen hs
  have hlater := later_step hen hs
  obtain ⟨b, hb, hfate⟩ := h.inv.fate hen hs
  obtain ⟨done, now, q, -, -, rfl⟩ := endRead_step hen hs
  refine ⟨hinv, h.count, ?_⟩
  obtain hdel | ⟨t, ht, hrepeats, hdone⟩ := h.live
  · exact .inl (hlater.deleted hdel)
  · by_cases hp : p ∈ b.done
    · refine .inl ((hfate ht).gone hp fun hreturns => ?_)
      rw [hreturns.1] at hrepeats
      cases hrepeats
    · refine .inr ⟨t, (hfate ht).other hp, hrepeats, fun hstarted => ?_⟩
      obtain ⟨b', hb', hmem⟩ := hdone hstarted
      cases hb.symm.trans hb'
      exact absurd hmem hp

theorem Single.fresh (h : Single s p) (hb : s.batch = some b) (hrest : b.rest = w :: rest)
    (hw : s.queue.Live w u) (heq : w.object = p.object) :
    p.object ∉ s.started ∧ ∃ t, s.queue.Live p t ∧ t.repeats = false ∧ w = p := by
  obtain hdel | ⟨t, ht, hrepeats, hdone⟩ := h.live
  · exact absurd (heq ▸ hdel) (h.inv.not_deleted hw)
  · have hseq : u.sequence = t.sequence := hw.2.trans (heq.trans ht.2.symm)
    obtain ⟨rfl, -⟩ := hw.unique ht (h.inv.memory.unique hw.1 ht.1 hseq)
    refine ⟨fun hstarted => ?_, t, ht, hrepeats, rfl⟩
    obtain ⟨b', hb', hmem⟩ := hdone hstarted
    cases hb.symm.trans hb'
    have hnodup := h.inv.done_nodup hb
    rw [hrest] at hnodup
    exact List.disjoint_of_nodup_append hnodup hmem List.mem_cons_self

theorem single_keeps : machine.Keeps (Single · p) := by
  intro s a s' h hen hs
  by_cases ha : ∃ clock, a = .endRead clock
  · obtain ⟨clock, rfl⟩ := ha
    exact h.endRead hen hs
  · have ha := not_exists.mp ha
    have hinv := h.inv.step hen hs
    have hlater := later_step hen hs
    have hlive : ∀ {t}, s.queue.Live p t →
        s'.queue.Live p t ∨ p.object ∈ s'.queue.deleted := fun ht =>
      (h.inv.live_step hen hs ha ht).imp_right fun hcancel => hcancel.2.2
    rcases batch_step hen hs ha with ⟨hstarted, hb⟩ | ⟨b, w, rest, u, hb, hrest, hw, hstarted, hb'⟩
    · refine ⟨hinv, hstarted ▸ h.count, ?_⟩
      obtain hdel | ⟨t, ht, hrepeats, hdone⟩ := h.live
      · exact .inl (hlater.deleted hdel)
      · refine (hlive ht).symm.imp_right fun ht' => ⟨t, ht', hrepeats, fun hmem => ?_⟩
        rw [hstarted] at hmem
        obtain ⟨b, hbatch, hp⟩ := hdone hmem
        exact ⟨b, hb b hbatch, hp⟩
    · by_cases heq : w.object = p.object
      · obtain ⟨hnot, t, ht, hrepeats, rfl⟩ := h.fresh hb hrest hw heq
        refine ⟨hinv, ?_, (hlive ht).symm.imp_right fun ht' => ⟨t, ht', hrepeats, fun _ => ?_⟩⟩
        · rw [hstarted, List.count_append, List.count_eq_zero_of_not_mem hnot, List.count_singleton_self]
        · exact ⟨_, hb', List.mem_append_right _ (List.mem_singleton_self _)⟩
      · refine ⟨hinv, ?_, ?_⟩
        · rw [hstarted, List.count_append, List.count_eq_zero_of_not_mem (l := [w.object])]
          · exact h.count
          · exact fun hmem => heq (List.mem_singleton.mp hmem).symm
        · obtain hdel | ⟨t, ht, hrepeats, hdone⟩ := h.live
          · exact .inl (hlater.deleted hdel)
          · refine (hlive ht).symm.imp_right fun ht' => ⟨t, ht', hrepeats, fun hmem => ?_⟩
            rw [hstarted] at hmem
            rcases List.mem_append.mp hmem with hmem | hmem
            · obtain ⟨b₁, hb₁, hp⟩ := hdone hmem
              cases hb.symm.trans hb₁
              exact ⟨_, hb', List.mem_append_left _ hp⟩
            · exact absurd (List.mem_singleton.mp hmem).symm heq

def Known (s : Timers) : Prop := s.Inv ∧ ∀ n ∈ s.started, ∃ p, s.queue.Made p ∧ p.object = n

theorem known_keeps : machine.Keeps Known := by
  intro s a s' h hen hs
  have hlater := later_step hen hs
  have hold : ∀ n ∈ s.started, ∃ p, s'.queue.Made p ∧ p.object = n := fun n hn =>
    (h.2 n hn).imp fun p hp => ⟨hlater.made hp.1, hp.2⟩
  refine ⟨h.1.step hen hs, fun n hn => ?_⟩
  by_cases ha : ∃ clock, a = .endRead clock
  · obtain ⟨clock, rfl⟩ := ha
    obtain ⟨done, now, q, -, -, rfl⟩ := endRead_step hen hs
    exact hold n hn
  · rcases batch_step hen hs (not_exists.mp ha) with
      ⟨hstarted, -⟩ | ⟨b, w, rest, u, -, -, hw, hstarted, -⟩
    · rw [hstarted] at hn
      exact hold n hn
    · rw [hstarted] at hn
      rcases List.mem_append.mp hn with hn | hn
      · exact hold n hn
      · exact ⟨w, hlater.made (.inl ⟨u, hw⟩), (List.mem_singleton.mp hn).symm⟩

theorem Known.single (h : Known s) (hen : s.Enabled (.new addr expiration interval false))
    (hs : s.step (.new addr expiration interval false) = .ok s') :
    Single s' ⟨addr, s.queue.numCreated + 1⟩ := by
  have hnot : s.queue.numCreated + 1 ∉ s.started := by
    intro hmem
    obtain ⟨p, hp, hobject⟩ := h.2 _ hmem
    have hle := h.1.made_le hp
    rw [hobject] at hle
    exact Nat.not_succ_le_self _ hle
  have hinv := h.1.step hen hs
  cases hs
  refine ⟨hinv, ?_, .inr ⟨_, ⟨Function.update_self .., rfl⟩, rfl, fun hmem => absurd hmem hnot⟩⟩
  rw [List.count_eq_zero_of_not_mem hnot]
  exact Nat.zero_le 1

-- ---------------------------------------------------------------------------
-- Runs
-- ---------------------------------------------------------------------------

/-- The two halves: what `handleRead` runs, and how often a timer runs that does
not repeat. -/
theorem firing_schedule (h : machine.Run {} as s) :
    (∀ {now readAt bs clock s'},
      machine.Run s (.beginRead now readAt :: (bs ++ [.endRead clock])) s' →
      (∀ clock, .endRead clock ∉ bs) → ∃ expired, Fired s now expired bs s') ∧
    (∀ {addr expiration interval bs s'},
      machine.Run s (.new addr expiration interval false :: bs) s' →
      s'.started.count (s.queue.numCreated + 1) ≤ 1) := by
  have hknown : Known s := h.keeps known_keeps ⟨start_inv, fun n hn => absurd hn List.not_mem_nil⟩
  refine ⟨fun hrun hbs => hknown.1.fired hrun hbs, fun hrun => ?_⟩
  cases hrun with
  | cons hen hs hrun => exact (hrun.keeps single_keeps (hknown.single hen hs)).count

/-- Two timers are due at once, one with an interval of less than a microsecond,
and the callback of the first adds a timer that is due already. -/
theorem firing_schedule_tie :
    (∃ s, machine.Run {} [.new 8 5 0 true, .addTimerInLoop ⟨8, 1⟩ ⟨0, 0⟩, .new 16 5 0 false,
        .addTimerInLoop ⟨16, 2⟩ ⟨0, 0⟩] s ∧
      ∃ s', machine.Run s (.beginRead 7 7 :: ([.callback, .new 24 3 0 false,
          .addTimerInLoop ⟨24, 3⟩ ⟨8, 8⟩, .callback] ++ [.endRead ⟨9, 9⟩])) s' ∧
        s'.started = [1, 2] ∧
        ∃ expired, Fired s 7 expired [.callback, .new 24 3 0 false, .addTimerInLoop ⟨24, 3⟩ ⟨8, 8⟩,
          .callback] s') ∧
    ∃ s', machine.Run {} [.new 8 5 0 false, .addTimerInLoop ⟨8, 1⟩ ⟨0, 0⟩, .beginRead 7 7,
        .callback, .endRead ⟨9, 9⟩] s' ∧ s'.queue.deleted = [1] ∧ s'.started.count 1 ≤ 1 := by
  constructor
  · have hrun : ∃ s, machine.Run {} [.new 8 5 0 true, .addTimerInLoop ⟨8, 1⟩ ⟨0, 0⟩,
        .new 16 5 0 false, .addTimerInLoop ⟨16, 2⟩ ⟨0, 0⟩] s ∧
        ∃ s' ∈ machine.exec s (.beginRead 7 7 :: ([.callback, .new 24 3 0 false,
          .addTimerInLoop ⟨24, 3⟩ ⟨8, 8⟩, .callback] ++ [.endRead ⟨9, 9⟩])), s'.started = [1, 2] :=
      Machine.exists_run (by decide +kernel)
    obtain ⟨s, hs, s', hs', hstarted⟩ := hrun
    have hread := Machine.run_of_exec hs'
    exact ⟨s, hs, s', hread, hstarted, (firing_schedule hs).1 hread (by simp)⟩
  · have hrun : ∃ s', machine.Run {} [.new 8 5 0 false, .addTimerInLoop ⟨8, 1⟩ ⟨0, 0⟩,
        .beginRead 7 7, .callback, .endRead ⟨9, 9⟩] s' ∧ s'.queue.deleted = [1] :=
      Machine.exists_run (by decide +kernel)
    obtain ⟨s', hs', hdeleted⟩ := hrun
    exact ⟨s', hs', hdeleted, (firing_schedule .nil).2 hs'⟩

end Timers

end Muduo
