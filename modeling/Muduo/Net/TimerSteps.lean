import Muduo.Net.TimerSets

/-!
# What a call into the queue did

What the functions of a queue found and changed when they did not fault. No
invariant is needed to say it.
-/

namespace Muduo.TimerQueue

open Lib Function

variable {q q' : TimerQueue} {p : Ptr} {t : Timer}

-- ---------------------------------------------------------------------------
-- One call
-- ---------------------------------------------------------------------------

theorem deref_ok : q.deref p = .ok t ↔ q.Live p t := by
  refine ⟨fun h => ?_, deref_live⟩
  unfold deref at h
  split at h
  · rename_i u hu
    obtain ⟨_, hseq, ht⟩ := bind_ok.mp h
    cases pure_ok.mp ht
    exact ⟨hu, ensure_ok.mp hseq⟩
  · cases h

theorem delete_ok (h : q.delete p = .ok q') : ∃ t, q.Live p t ∧
    q' = { q with heap := update q.heap p.addr none, deleted := q.deleted ++ [p.object] } := by
  obtain ⟨t, ht, -⟩ := bind_ok.mp h
  have hlive := deref_ok.mp ht
  rw [delete_live hlive] at h
  cases h
  exact ⟨t, hlive, rfl⟩

theorem restart_ok (h : q.restart p now = .ok q') : ∃ t, q.Live p t ∧
    q' = { q with heap := update q.heap p.addr (some (t.restart now)) } := by
  obtain ⟨t, ht, -⟩ := bind_ok.mp h
  have hlive := deref_ok.mp ht
  rw [restart_live hlive] at h
  cases h
  exact ⟨t, hlive, rfl⟩

theorem insert_ok (h : q.insert p = .ok (b, q')) : ∃ t, q.Live p t ∧ b = q.earliestChanged t ∧
    q' = { q with
      timers := q.timers.insert (entry p t) p
      activeTimers := q.activeTimers.insert (activeTimer p t) p } := by
  obtain ⟨_, -, h⟩ := bind_ok.mp h
  obtain ⟨t, ht, h⟩ := bind_ok.mp h
  obtain ⟨_, -, h⟩ := bind_ok.mp h
  obtain ⟨_, -, h⟩ := bind_ok.mp h
  obtain ⟨_, -, h⟩ := bind_ok.mp h
  cases pure_ok.mp h
  exact ⟨t, deref_ok.mp ht, rfl, rfl⟩

theorem addTimerInLoop_ok (h : q.addTimerInLoop p clock = .ok q') : ∃ t q₁, q.Live p t ∧
    q.insert p = .ok (q.earliestChanged t, q₁) ∧
    q' = if q.earliestChanged t then q₁.resetTimerFd clock t.expiration else q₁ := by
  obtain ⟨⟨b, q₁⟩, hinsert, h⟩ := bind_ok.mp h
  obtain ⟨t, ht, rfl, hq₁⟩ := insert_ok hinsert
  refine ⟨t, q₁, ht, hinsert, ?_⟩
  have ht₁ : q₁.Live p t := by
    rw [hq₁]
    exact ht
  simp only [deref_live ht₁, ok_bind] at h
  split at h
  · rename_i hb
    cases pure_ok.mp h
    exact (if_pos hb).symm
  · rename_i hb
    cases pure_ok.mp h
    exact (if_neg hb).symm

theorem addTimerInLoop_rest (h : q.addTimerInLoop p clock = .ok q') : ∃ timers active fd,
    q' = { q with timers := timers, activeTimers := active, timerfd := fd } := by
  obtain ⟨t, q₁, -, hinsert, rfl⟩ := addTimerInLoop_ok h
  obtain ⟨_, -, -, rfl⟩ := insert_ok hinsert
  split
  · exact ⟨_, _, _, rfl⟩
  · exact ⟨_, _, _, rfl⟩

/-- A timer in the sets is deleted, and of another one it is noted while
callbacks run that it is cancelled. -/
theorem cancelInLoop_ok (h : q.cancelInLoop timer = .ok q') :
    (∃ p t, q.activeTimers.find? timer = some p ∧ q.Live p t ∧
      q' = { q with
        timers := q.timers.erase (entry p t)
        activeTimers := q.activeTimers.erase timer
        heap := update q.heap p.addr none
        deleted := q.deleted ++ [p.object] }) ∨
    (q.activeTimers.find? timer = none ∧
      q' = if q.callingExpiredTimers then
        { q with cancelingTimers := q.cancelingTimers.add timer } else q) := by
  obtain ⟨_, -, h⟩ := bind_ok.mp h
  split at h
  · rename_i p hfind
    obtain ⟨t, ht, h⟩ := bind_ok.mp h
    obtain ⟨_, -, h⟩ := bind_ok.mp h
    obtain ⟨q₁, hdelete, h⟩ := bind_ok.mp h
    obtain ⟨_, -, h⟩ := bind_ok.mp h
    obtain ⟨_, -, rfl⟩ := delete_ok hdelete
    cases pure_ok.mp h
    exact .inl ⟨p, t, hfind, deref_ok.mp ht, rfl⟩
  · rename_i hfind
    obtain ⟨_, -, h⟩ := bind_ok.mp h
    exact .inr ⟨hfind, (pure_ok.mp h).symm⟩

theorem cancelInLoop_heap (h : q.cancelInLoop timer = .ok q') :
    ∀ a, ∀ t ∈ q'.heap a, t ∈ q.heap a := by
  intro a t ht
  obtain ⟨p, u, -, -, rfl⟩ | ⟨-, rfl⟩ := cancelInLoop_ok h
  · obtain ⟨-, ht⟩ | ⟨-, ht⟩ := mem_update_heap ht
    · cases ht
    · exact ht
  · split at ht
    · exact ht
    · exact ht

theorem eraseActive_changes {q : TimerQueue} (h : eraseActive expired q = .ok q') :
    ∃ active, q' = { q with activeTimers := active } := by
  induction expired generalizing q with
  | nil =>
    cases h
    exact ⟨_, rfl⟩
  | cons p expired ih =>
    obtain ⟨t, -, h⟩ := bind_ok.mp h
    obtain ⟨_, -, h⟩ := bind_ok.mp h
    obtain ⟨active, rfl⟩ := ih h
    exact ⟨active, rfl⟩

theorem getExpired_ok (h : q.getExpired now = .ok (expired, q')) : ∃ active,
    q' = { q with
      timers := q.timers.dropBelow (toLex (now, UINTPTR_MAX)), activeTimers := active } := by
  obtain ⟨_, -, h⟩ := bind_ok.mp h
  obtain ⟨_, -, h⟩ := bind_ok.mp h
  obtain ⟨q₁, herase, h⟩ := bind_ok.mp h
  obtain ⟨_, -, h⟩ := bind_ok.mp h
  obtain ⟨active, rfl⟩ := eraseActive_changes herase
  cases pure_ok.mp h
  exact ⟨active, rfl⟩

theorem beginRead_ok (h : q.beginRead now readAt = .ok (expired, q')) : ∃ active,
    q' = { q with
      timers := q.timers.dropBelow (toLex (now, UINTPTR_MAX))
      activeTimers := active
      callingExpiredTimers := true
      cancelingTimers := OrdMap.empty
      timerfd := (q.readTimerfd readAt).timerfd } := by
  obtain ⟨⟨expired', q₁⟩, hexpired, h⟩ := bind_ok.mp h
  obtain ⟨active, rfl⟩ := getExpired_ok hexpired
  cases pure_ok.mp h
  refine ⟨active, ?_⟩
  unfold readTimerfd
  split
  · rfl
  · split <;> rfl

theorem beginRead_below (h : q.beginRead now readAt = .ok (expired, q')) :
    expired = (q.timers.below (toLex (now, UINTPTR_MAX))).map Prod.snd := by
  obtain ⟨⟨expired', q₁⟩, hexpired, h⟩ := bind_ok.mp h
  obtain ⟨_, -, hexpired⟩ := bind_ok.mp hexpired
  obtain ⟨_, -, hexpired⟩ := bind_ok.mp hexpired
  obtain ⟨q₂, -, hexpired⟩ := bind_ok.mp hexpired
  obtain ⟨_, -, hexpired⟩ := bind_ok.mp hexpired
  cases hexpired
  cases h
  have hsame : (q.readTimerfd readAt).timers = q.timers := by
    unfold readTimerfd
    split
    · rfl
    · split <;> rfl
  rw [hsame]

-- ---------------------------------------------------------------------------
-- Any number of calls
-- ---------------------------------------------------------------------------

def Made (q : TimerQueue) (p : Ptr) : Prop := (∃ t, q.Live p t) ∨ p.object ∈ q.deleted

/-- No timer is lost from `q` to `q'`, and none comes back. -/
structure Later (q q' : TimerQueue) : Prop where
  made : ∀ {p}, q.Made p → q'.Made p
  deleted : ∀ {n}, n ∈ q.deleted → n ∈ q'.deleted

theorem Later.rfl : Later q q := ⟨id, id⟩

theorem Later.trans (h : Later q q₁) (h' : Later q₁ q') : Later q q' :=
  ⟨fun hp => h'.made (h.made hp), fun hn => h'.deleted (h.deleted hn)⟩

theorem Later.of_eq (hheap : q'.heap = q.heap) (hdel : q'.deleted = q.deleted) : Later q q' := by
  refine ⟨fun {p} hp => ?_, fun {n} hn => ?_⟩
  · simpa only [Made, Live, hheap, hdel] using hp
  · rwa [hdel]

theorem Later.delete (ht : q.Live p t) (hheap : q'.heap = update q.heap p.addr none)
    (hdel : q'.deleted = q.deleted ++ [p.object]) : Later q q' := by
  have hgone : ∀ {n}, n ∈ q.deleted → n ∈ q'.deleted := fun hn => by
    rw [hdel]
    exact List.mem_append_left _ hn
  refine ⟨fun {w} hw => ?_, hgone⟩
  obtain ⟨u, hu⟩ | hw := hw
  · rcases eq_or_ne w.addr p.addr with heq | hne
    · obtain ⟨rfl, -⟩ := hu.unique ht heq
      exact .inr (by simp [hdel])
    · exact .inl ⟨u, by rw [hheap, update_of_ne hne]; exact hu.1, hu.2⟩
  · exact .inr (hgone hw)

theorem Later.restart (ht : q.Live p t)
    (hheap : q'.heap = update q.heap p.addr (some (t.restart now)))
    (hdel : q'.deleted = q.deleted) : Later q q' := by
  refine ⟨fun {w} hw => ?_, fun hn => by rwa [hdel]⟩
  obtain ⟨u, hu⟩ | hw := hw
  · rcases eq_or_ne w.addr p.addr with heq | hne
    · obtain ⟨rfl, rfl⟩ := hu.unique ht heq
      exact .inl ⟨u.restart now, by rw [hheap, update_self], ht.2⟩
    · exact .inl ⟨u, by rw [hheap, update_of_ne hne]; exact hu.1, hu.2⟩
  · exact .inr (by rwa [hdel])

theorem later_new (hf : q.Free addr) : Later q (q.new addr expiration interval repeats).2 := by
  refine ⟨fun {w} hw => ?_, id⟩
  obtain ⟨u, hu⟩ | hw := hw
  · have hne : w.addr ≠ addr := fun heq => not_live_free (heq ▸ hf.1) u hu
    exact .inl ⟨u, (update_of_ne hne ..).trans hu.1, hu.2⟩
  · exact .inr hw

theorem made_new : (q.new addr expiration interval repeats).2.Made
    (q.new addr expiration interval repeats).1 :=
  .inl ⟨_, update_self .., rfl⟩

theorem later_insert (h : q.insert p = .ok (b, q')) : Later q q' := by
  obtain ⟨t, -, -, rfl⟩ := insert_ok h
  exact .of_eq rfl rfl

theorem later_addTimerInLoop (h : q.addTimerInLoop p clock = .ok q') : Later q q' := by
  obtain ⟨timers, active, fd, rfl⟩ := addTimerInLoop_rest h
  exact .of_eq rfl rfl

theorem later_cancelInLoop (h : q.cancelInLoop timer = .ok q') : Later q q' := by
  obtain ⟨p, t, -, ht, rfl⟩ | ⟨-, rfl⟩ := cancelInLoop_ok h
  · exact .delete ht rfl rfl
  · split
    · exact .of_eq rfl rfl
    · exact .rfl

theorem resetEach_cons (h : resetEach now (p :: expired) q = .ok q') : ∃ t q₁, q.Live p t ∧
    resetEach now expired q₁ = .ok q' ∧
    ((∃ q₀ b, t.repeats ∧ activeTimer p t ∉ q.cancelingTimers ∧ q.restart p now = .ok q₀ ∧
      q₀.insert p = .ok (b, q₁)) ∨
    (¬(t.repeats ∧ activeTimer p t ∉ q.cancelingTimers) ∧ q.delete p = .ok q₁)) := by
  obtain ⟨t, ht, h⟩ := bind_ok.mp h
  split at h
  · rename_i hback
    obtain ⟨q₀, hrestart, h⟩ := bind_ok.mp h
    obtain ⟨⟨b, q₁⟩, hinsert, h⟩ := bind_ok.mp h
    exact ⟨t, q₁, deref_ok.mp ht, h, .inl ⟨q₀, b, hback.1, hback.2, hrestart, hinsert⟩⟩
  · rename_i hback
    obtain ⟨q₁, hdelete, h⟩ := bind_ok.mp h
    exact ⟨t, q₁, deref_ok.mp ht, h, .inr ⟨hback, hdelete⟩⟩

theorem later_resetEach {q : TimerQueue} (h : resetEach now expired q = .ok q') : Later q q' := by
  induction expired generalizing q with
  | nil =>
    cases h
    exact .rfl
  | cons p expired ih =>
    obtain ⟨t, q₁, ht, hrest, ⟨q₀, b, -, -, hrestart, hinsert⟩ | ⟨-, hdelete⟩⟩ := resetEach_cons h
    · obtain ⟨u, hu, hq₀⟩ := restart_ok hrestart
      have hlater : Later q q₀ := .restart hu (by rw [hq₀]) (by rw [hq₀])
      exact (hlater.trans (later_insert hinsert)).trans (ih hrest)
    · obtain ⟨u, hu, hq₁⟩ := delete_ok hdelete
      have hlater : Later q q₁ := .delete hu (by rw [hq₁]) (by rw [hq₁])
      exact hlater.trans (ih hrest)

theorem resetEach_canceled {q : TimerQueue} (h : resetEach now expired q = .ok q')
    (hp : p ∈ expired) (hc : toLex (p.addr, p.object) ∈ q.cancelingTimers) :
    p.object ∈ q'.deleted := by
  induction expired generalizing q with
  | nil => cases hp
  | cons w expired ih =>
    obtain ⟨t, q₁, ht, hrest, ⟨q₀, b, -, hnot, hrestart, hinsert⟩ | ⟨-, hdelete⟩⟩ :=
      resetEach_cons h
    · obtain ⟨u, hu, rfl⟩ := restart_ok hrestart
      obtain ⟨_, -, -, rfl⟩ := insert_ok hinsert
      rcases List.mem_cons.mp hp with rfl | hp
      · rw [activeTimer, ht.2] at hnot
        exact absurd hc hnot
      · exact ih hrest hp hc
    · obtain ⟨u, hu, rfl⟩ := delete_ok hdelete
      rcases List.mem_cons.mp hp with rfl | hp
      · exact (later_resetEach hrest).deleted (List.mem_append_right _ (List.mem_singleton_self _))
      · exact ih hrest hp hc

/-- `reset` leaves the timerfd to its end, and what it puts back expires after the
batch began. -/
theorem resetEach_timers {q : TimerQueue} (h : resetEach now expired q = .ok q') :
    q'.timerfd = q.timerfd ∧ ∀ {e w}, q'.timers.find? e = some w →
      q.timers.find? e = some w ∨ now ≤ (ofLex e).1 := by
  induction expired generalizing q with
  | nil =>
    cases h
    exact ⟨Eq.refl _, .inl⟩
  | cons p expired ih =>
    obtain ⟨t, q₁, ht, hrest, ⟨q₀, b, hrepeats, -, hrestart, hinsert⟩ | ⟨-, hdelete⟩⟩ :=
      resetEach_cons h
    · obtain ⟨u, hu, rfl⟩ := restart_ok hrestart
      obtain ⟨v, hv, -, rfl⟩ := insert_ok hinsert
      obtain ⟨-, rfl⟩ := hu.unique ht rfl
      have hv : v = u.restart now := Option.some.inj (hv.1.symm.trans (update_self ..))
      have hnow : now ≤ v.expiration := by
        rw [hv, Timer.restart]
        simp only [hrepeats, if_true]
        exact Int.le_add_of_nonneg_right (Int.natCast_nonneg _)
      obtain ⟨hfd, hold⟩ := ih hrest
      refine ⟨hfd, fun he => ?_⟩
      rcases hold he with he | he
      · rw [OrdMap.find?_insert] at he
        split at he
        · rename_i heq
          rw [heq]
          exact .inr hnow
        · exact .inl he
      · exact .inr he
    · obtain ⟨u, hu, rfl⟩ := delete_ok hdelete
      obtain ⟨hfd, hold⟩ := ih hrest
      exact ⟨hfd, hold⟩

def Returns (q : TimerQueue) (p : Ptr) (t : Timer) : Prop :=
  t.repeats ∧ activeTimer p t ∉ q.cancelingTimers

/-- What becomes of `p` when `expired` is reset. -/
structure Fate (expired : List Ptr) (now : Timestamp) (q q' : TimerQueue) (p : Ptr) (t : Timer) :
    Prop where
  other : p ∉ expired → q'.Live p t
  back : p ∈ expired → q.Returns p t → q'.Live p (t.restart now)
  gone : p ∈ expired → ¬q.Returns p t → p.object ∈ q'.deleted

theorem only_live (ht : q.Live p t) {o : Option Timer} (ho : ∀ u ∈ o, u.sequence = p.object)
    (hh : q'.heap = update q.heap p.addr o) : Only p q q' := by
  refine only_update (fun u hu => ?_) ho hh
  rw [ht.1] at hu
  cases hu
  exact ht.2

/-- One timer of the batch is put back or deleted, and no other one is touched. -/
theorem resetEach_step {w : Ptr} (h : resetEach now (w :: expired) q = .ok q') : ∃ t q₁,
    q.Live w t ∧ resetEach now expired q₁ = .ok q' ∧ Only w q q₁ ∧
    q₁.cancelingTimers = q.cancelingTimers ∧
    (q.Returns w t ∧ q₁.Live w (t.restart now) ∨ ¬q.Returns w t ∧ w.object ∈ q₁.deleted) ∧
    ∀ a, ∀ u ∈ q₁.heap a, u ∈ q.heap a ∨ q.Returns w t ∧ u = t.restart now := by
  obtain ⟨t, q₁, ht, hrest, ⟨q₀, b, hrepeats, hnot, hrestart, hinsert⟩ | ⟨hnot, hdelete⟩⟩ :=
    resetEach_cons h
  · obtain ⟨u, hu, rfl⟩ := restart_ok hrestart
    obtain ⟨-, rfl⟩ := hu.unique ht rfl
    obtain ⟨v, -, -, rfl⟩ := insert_ok hinsert
    refine ⟨u, _, ht, hrest, only_live ht (fun v hv => ?_) rfl, rfl,
      .inl ⟨⟨hrepeats, hnot⟩, update_self .., ht.2⟩, fun a v hv => ?_⟩
    · cases hv
      exact ht.2
    · obtain ⟨-, hv⟩ | ⟨-, hv⟩ := mem_update_heap hv
      · exact .inr ⟨⟨hrepeats, hnot⟩, (Option.some.inj hv).symm⟩
      · exact .inl hv
  · obtain ⟨u, hu, rfl⟩ := delete_ok hdelete
    refine ⟨t, _, ht, hrest, only_live (o := none) ht (fun u hu => by cases hu) rfl, rfl,
      .inr ⟨hnot, List.mem_append_right _ (List.mem_singleton_self _)⟩, fun a v hv => ?_⟩
    obtain ⟨-, hv⟩ | ⟨-, hv⟩ := mem_update_heap hv
    · cases hv
    · exact .inl hv

theorem resetEach_heap {q : TimerQueue} {P : Timestamp → Prop}
    (h : resetEach now expired q = .ok q') (hn : expired.Nodup)
    (hback : ∀ p ∈ expired, ∀ t, q.Live p t → q.Returns p t → P (t.restart now).expiration)
    (hq : ∀ a, ∀ t ∈ q.heap a, P t.expiration) : ∀ a, ∀ t ∈ q'.heap a, P t.expiration := by
  induction expired generalizing q with
  | nil =>
    cases h
    exact hq
  | cons w expired ih =>
    obtain ⟨hw, hrestn⟩ := List.nodup_cons.mp hn
    obtain ⟨t, q₁, ht, hrest, honly, hcancel, -, hheap⟩ := resetEach_step h
    refine ih hrest hrestn (fun p hp u hu hr => ?_) fun a u hu => ?_
    · have hpw : p ≠ w := fun heq => hw (heq ▸ hp)
      rw [Returns, hcancel] at hr
      exact hback p (List.mem_cons_of_mem _ hp) u ((honly hpw).mp hu) hr
    · rcases hheap a u hu with hold | ⟨hr, rfl⟩
      · exact hq a u hold
      · exact hback w List.mem_cons_self t ht hr

theorem resetEach_fate {q : TimerQueue} (h : resetEach now expired q = .ok q')
    (hn : expired.Nodup) (ht : q.Live p t) : Fate expired now q q' p t := by
  induction expired generalizing q t with
  | nil =>
    cases h
    exact ⟨fun _ => ht, fun hp => absurd hp List.not_mem_nil, fun hp => absurd hp List.not_mem_nil⟩
  | cons w expired ih =>
    obtain ⟨hw, hrestn⟩ := List.nodup_cons.mp hn
    obtain ⟨u, q₁, hu, hrest, honly, hcancel, hhead, -⟩ := resetEach_step h
    have hreturns : ∀ p t, q₁.Returns p t ↔ q.Returns p t := by
      intro p t
      rw [Returns, Returns, hcancel]
    by_cases hpw : p = w
    · subst hpw
      obtain ⟨-, rfl⟩ := hu.unique ht rfl
      refine ⟨fun hnot => absurd List.mem_cons_self hnot, fun _ hback => ?_, fun _ hgone => ?_⟩
      · rcases hhead with ⟨-, hlive⟩ | ⟨hnot, -⟩
        · exact (ih hrest hrestn hlive).other hw
        · exact absurd hback hnot
      · rcases hhead with ⟨hback, -⟩ | ⟨-, hdel⟩
        · exact absurd hback hgone
        · exact (later_resetEach hrest).deleted hdel
    · obtain ⟨hother, hback, hgone⟩ := ih hrest hrestn ((honly hpw).mpr ht)
      refine ⟨fun hnot => hother fun hp => hnot (List.mem_cons_of_mem _ hp), fun hp hr => ?_,
        fun hp hr => ?_⟩
      · exact hback ((List.mem_cons.mp hp).resolve_left hpw) ((hreturns p t).mpr hr)
      · exact hgone ((List.mem_cons.mp hp).resolve_left hpw) (mt (hreturns p t).mp hr)

theorem resetEach_rest {q : TimerQueue} (h : resetEach now expired q = .ok q') :
    q'.numCreated = q.numCreated ∧ q'.callingExpiredTimers = q.callingExpiredTimers ∧
      q'.cancelingTimers = q.cancelingTimers := by
  induction expired generalizing q with
  | nil =>
    cases h
    exact ⟨Eq.refl _, Eq.refl _, Eq.refl _⟩
  | cons w expired ih =>
    obtain ⟨t, q₁, -, hrest, ⟨q₀, b, -, -, hrestart, hinsert⟩ | ⟨-, hdelete⟩⟩ := resetEach_cons h
    · obtain ⟨u, -, rfl⟩ := restart_ok hrestart
      obtain ⟨v, -, -, rfl⟩ := insert_ok hinsert
      have hsame := ih hrest
      exact hsame
    · obtain ⟨u, -, rfl⟩ := delete_ok hdelete
      have hsame := ih hrest
      exact hsame

theorem endRead_ok (h : q.endRead expired now clock = .ok q') : ∃ q₁,
    resetEach now expired { q with callingExpiredTimers := false } = .ok q₁ ∧
    ((q₁.timers.first? = none ∧ q' = q₁) ∨
    (∃ it t, q₁.timers.first? = some it ∧ q₁.Live it.2 t ∧
      q' = if t.expiration.valid then q₁.resetTimerFd clock t.expiration else q₁)) := by
  obtain ⟨q₁, hreset, h⟩ := bind_ok.mp h
  refine ⟨q₁, hreset, ?_⟩
  split at h
  · rename_i hnone
    exact .inl ⟨hnone, (pure_ok.mp h).symm⟩
  · rename_i it hit
    obtain ⟨t, ht, h⟩ := bind_ok.mp h
    exact .inr ⟨it, t, hit, deref_ok.mp ht, (pure_ok.mp h).symm⟩

theorem later_endRead (h : q.endRead expired now clock = .ok q') : Later q q' := by
  obtain ⟨q₁, hreset, h⟩ := endRead_ok h
  have hcall : Later q { q with callingExpiredTimers := false } := .of_eq rfl rfl
  have hlater := hcall.trans (later_resetEach hreset)
  obtain ⟨-, rfl⟩ | ⟨it, t, -, -, rfl⟩ := h
  · exact hlater
  · refine hlater.trans ?_
    split
    · exact .of_eq rfl rfl
    · exact .rfl

/-- The end of `handleRead` does to the timers what `reset` does to its batch. -/
theorem endRead_reset (h : q.endRead expired now clock = .ok q') : ∃ q₁,
    resetEach now expired { q with callingExpiredTimers := false } = .ok q₁ ∧
    ∃ fd, q' = { q₁ with timerfd := fd } := by
  obtain ⟨q₁, hreset, h⟩ := endRead_ok h
  refine ⟨q₁, hreset, ?_⟩
  obtain ⟨-, rfl⟩ | ⟨it, t, -, -, rfl⟩ := h
  · exact ⟨_, rfl⟩
  · split <;> exact ⟨_, rfl⟩

theorem endRead_fate (h : q.endRead expired now clock = .ok q') (hn : expired.Nodup)
    (ht : q.Live p t) : Fate expired now q q' p t := by
  obtain ⟨q₁, hreset, fd, rfl⟩ := endRead_reset h
  obtain ⟨hother, hback, hgone⟩ := resetEach_fate (t := t) hreset hn ht
  exact ⟨hother, hback, hgone⟩

theorem endRead_rest (h : q.endRead expired now clock = .ok q') :
    q'.numCreated = q.numCreated ∧ q'.callingExpiredTimers = false ∧
      q'.cancelingTimers = q.cancelingTimers := by
  obtain ⟨q₁, hreset, fd, rfl⟩ := endRead_reset h
  have hsame := resetEach_rest hreset
  exact hsame

theorem endRead_canceled (h : q.endRead expired now clock = .ok q') (hp : p ∈ expired)
    (hc : toLex (p.addr, p.object) ∈ q.cancelingTimers) : p.object ∈ q'.deleted := by
  obtain ⟨q₁, hreset, h⟩ := endRead_ok h
  have hgone := resetEach_canceled hreset hp hc
  obtain ⟨-, rfl⟩ | ⟨it, t, -, -, rfl⟩ := h
  · exact hgone
  · split <;> exact hgone

/-- Neither `addTimerInLoop` nor `cancelInLoop` ends the calling of callbacks, or
takes back a cancel. -/
structure Calling (q q' : TimerQueue) : Prop where
  calling : q'.callingExpiredTimers = q.callingExpiredTimers
  canceling : ∀ {k}, k ∈ q.cancelingTimers → k ∈ q'.cancelingTimers

theorem calling_addTimerInLoop (h : q.addTimerInLoop p clock = .ok q') : Calling q q' := by
  obtain ⟨timers, active, fd, rfl⟩ := addTimerInLoop_rest h
  exact ⟨rfl, id⟩

theorem calling_cancelInLoop (h : q.cancelInLoop timer = .ok q') : Calling q q' := by
  obtain ⟨p, t, -, ht, rfl⟩ | ⟨-, rfl⟩ := cancelInLoop_ok h
  · exact ⟨rfl, id⟩
  · split
    · exact ⟨rfl, fun hk => OrdSet.mem_add.mpr (.inr hk)⟩
    · exact ⟨rfl, id⟩

end Muduo.TimerQueue
