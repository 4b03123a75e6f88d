import Muduo.Net.TimerMoves

/-!
# Two queues in the same hands

One of two queues saw a cancel that the other did not. A step is described by
the timers that live after it, so that the two can be compared timer by timer:
all but the cancelled one live, run and expire alike.
-/

namespace Muduo

open Lib Function TimerQueue

-- ---------------------------------------------------------------------------
-- Which timers live after a call
-- ---------------------------------------------------------------------------

namespace TimerQueue

variable {q q' : TimerQueue} {p w : Ptr} {t u : Timer} {away : List Ptr}

theorem live_new (hf : q.Free addr) :
    (q.new addr expiration interval repeats).2.Live w u ↔
      (w = ⟨addr, q.numCreated + 1⟩ ∧ u = ⟨expiration, interval, repeats, q.numCreated + 1⟩) ∨
      q.Live w u := by
  obtain ⟨a, o⟩ := w
  simp only [Live, TimerQueue.new, update_apply]
  by_cases ha : a = addr
  · subst ha
    rw [if_pos rfl, hf.1]
    constructor
    · rintro ⟨hu, rfl⟩
      cases hu
      exact .inl ⟨rfl, rfl⟩
    · rintro (⟨heq, rfl⟩ | ⟨hu, -⟩)
      · cases heq
        exact ⟨rfl, rfl⟩
      · cases hu
  · rw [if_neg ha]
    refine ⟨.inr, fun h => h.resolve_left ?_⟩
    rintro ⟨heq, -⟩
    cases heq
    exact ha rfl

def Found (q : TimerQueue) (away : List Ptr) (p : Ptr) : Prop := (∃ t, q.Live p t) ∧ p ∉ away

/-- The `TimerId` in the code's sets. -/
def Ptr.id (p : Ptr) : ActiveTimer := toLex (p.addr, p.object)

theorem id_inj : p.id = w.id ↔ p = w := by
  refine ⟨fun h => ?_, fun h => congrArg Ptr.id h⟩
  obtain ⟨a, o⟩ := p
  obtain ⟨a', o'⟩ := w
  cases toLex.injective h
  rfl

theorem activeTimer_id (ht : q.Live p t) : activeTimer p t = p.id := by
  rw [activeTimer, ht.2, Ptr.id]

structure Canceled (q q' : TimerQueue) (away : List Ptr) (p : Ptr) : Prop where
  live : ∀ {w u}, q'.Live w u ↔ q.Live w u ∧ ¬(w = p ∧ q.Found away p)
  canceling : ∀ {k}, k ∈ q'.cancelingTimers ↔ k ∈ q.cancelingTimers ∨
    k = p.id ∧ q.callingExpiredTimers ∧ ¬q.Found away p
  num : q'.numCreated = q.numCreated
  calling : q'.callingExpiredTimers = q.callingExpiredTimers
  deleted : q.Found away p → p.object ∈ q'.deleted

theorem Inv.canceled (h : q.Inv away) (hq : q.cancelInLoop p.id = .ok q') :
    Canceled q q' away p := by
  obtain ⟨w, t, hfind, ht, rfl⟩ | ⟨hnone, rfl⟩ := cancelInLoop_ok hq
  · obtain ⟨u, hu, haway, hkey⟩ := (h.active _ w).mp hfind
    rw [activeTimer_id hu, id_inj] at hkey
    subst hkey
    have hfound : q.Found away p := ⟨⟨t, ht⟩, haway⟩
    have honly : Only p q { q with
        timers := q.timers.erase (entry p t)
        activeTimers := q.activeTimers.erase p.id
        heap := update q.heap p.addr none
        deleted := q.deleted ++ [p.object] } :=
      only_live (o := none) ht (fun _ hv => by cases hv) rfl
    refine ⟨fun {w u} => ?_, fun {k} => ?_, rfl, rfl,
      fun _ => List.mem_append_right _ (List.mem_singleton_self _)⟩
    · by_cases hw : w = p
      · subst hw
        refine iff_of_false (fun hlive => ?_) fun hlive => hlive.2 ⟨rfl, hfound⟩
        exact not_live_free (update_self ..) u hlive
      · exact (honly hw).trans (and_iff_left fun heq => hw heq.1).symm
    · exact (or_iff_left fun hk => hk.2.2 hfound).symm
  · have hnot : ¬q.Found away p := by
      rintro ⟨⟨t, ht⟩, haway⟩
      have hfind := (h.active (activeTimer p t) p).mpr ⟨t, ht, haway, rfl⟩
      rw [activeTimer_id ht, hnone] at hfind
      cases hfind
    split
    · rename_i hcalling
      refine ⟨(and_iff_left fun heq => hnot heq.2).symm, fun {k} => ?_, rfl, rfl,
        fun hfound => absurd hfound hnot⟩
      rw [OrdSet.mem_add, or_comm]
      exact or_congr_right (and_iff_left ⟨hcalling, hnot⟩).symm
    · rename_i hcalling
      exact ⟨(and_iff_left fun heq => hnot heq.2).symm,
        (or_iff_left fun hk => hcalling hk.2.1).symm, rfl, rfl, fun hfound => absurd hfound hnot⟩

theorem Inv.live_back (h : q.Inv away) (h' : q'.Inv away') (hl : Later q q')
    (hnum : q'.numCreated = q.numCreated) (hu : q'.Live w u) : ∃ t, q.Live w t := by
  have hborn := h'.memory.born hu.1
  rw [hu.2, hnum] at hborn
  have halive := h'.memory.alive hu.1
  rw [hu.2] at halive
  obtain ⟨p, t, hobject, ht⟩ := h.memory.kept hborn.1 hborn.2 fun hd => halive (hl.deleted hd)
  obtain ⟨v, hv⟩ | hd := hl.made (.inl ⟨t, ht⟩)
  · have hseq : v.sequence = u.sequence := hv.2.trans (hobject.trans hu.2.symm)
    obtain ⟨rfl, -⟩ := hv.unique hu (h'.memory.unique hv.1 hu.1 hseq)
    exact ⟨t, ht⟩
  · rw [hobject] at hd
    exact absurd hd halive

theorem Inv.endRead_live (h : q.Inv (expired ++ away)) (h' : q'.Inv away')
    (hq : q.endRead expired now clock = .ok q') :
    q'.Live w u ↔ ∃ t, q.Live w t ∧
      (w ∉ expired ∧ u = t ∨ w ∈ expired ∧ q.Returns w t ∧ u = t.restart now) := by
  have hnodup := (List.nodup_append.mp h.nodup).1
  constructor
  · intro hu
    obtain ⟨t, ht⟩ := h.live_back h' (later_endRead hq) (endRead_rest hq).1 hu
    obtain ⟨hother, hback, hgone⟩ := endRead_fate hq hnodup ht
    refine ⟨t, ht, ?_⟩
    by_cases hw : w ∈ expired
    · by_cases hr : q.Returns w t
      · exact .inr ⟨hw, hr, (hu.unique (hback hw hr) rfl).2⟩
      · have hdel := hgone hw hr
        rw [← hu.2] at hdel
        exact absurd hdel (h'.memory.alive hu.1)
    · exact .inl ⟨hw, (hu.unique (hother hw) rfl).2⟩
  · rintro ⟨t, ht, ⟨hw, rfl⟩ | ⟨hw, hr, rfl⟩⟩
    · exact (endRead_fate hq hnodup ht).other hw
    · exact (endRead_fate hq hnodup ht).back hw hr

end TimerQueue

-- ---------------------------------------------------------------------------
-- Two queues
-- ---------------------------------------------------------------------------

def Batch.without (x : Ptr) (b : Batch) : Batch :=
  ⟨b.done.filter (· ≠ x), b.rest.filter (· ≠ x), b.now⟩

theorem without_next (hw : w ≠ x) : Batch.without x ⟨done, w :: rest, now⟩ =
    ⟨done.filter (· ≠ x), w :: rest.filter (· ≠ x), now⟩ := by
  simp [Batch.without, hw]

theorem without_done (hw : w ≠ x) : Batch.without x ⟨done ++ [w], rest, now⟩ =
    ⟨done.filter (· ≠ x) ++ [w], rest.filter (· ≠ x), now⟩ := by
  simp [Batch.without, hw]

theorem without_self : Batch.without x ⟨done ++ [x], rest, now⟩ =
    Batch.without x ⟨done, x :: rest, now⟩ := by
  simp [Batch.without]

theorem without_ne : Batch.without x b ≠ ⟨done, x :: rest, now⟩ := by
  intro h
  have hmem : x ∈ (Batch.without x b).rest := h ▸ List.mem_cons_self
  exact of_decide_eq_true (List.mem_filter.mp hmem).2 rfl

namespace Timers

variable {s s' t t' : Timers} {x w : Ptr} {u : Timer}

structure Stays (x : Ptr) (s s' : Timers) : Prop where
  live : ∀ {u}, s'.queue.Live x u ↔ s.queue.Live x u
  batch : s'.batch = s.batch
  canceling : x.id ∈ s.queue.cancelingTimers → x.id ∈ s'.queue.cancelingTimers

/-- The timer `x` was deleted in `s'`. -/
structure Gone (x : Ptr) (s s' : Timers) : Prop where
  deleted : x.object ∈ s'.queue.deleted
  batch : s'.batch = s.batch.map (Batch.without x)

/-- `s'` saw a cancel of `x` that `s` did not see. -/
structure Without (x : Ptr) (s s' : Timers) : Prop where
  inv : s.Inv
  inv' : s'.Inv
  num : s'.queue.numCreated = s.queue.numCreated
  calling : s'.queue.callingExpiredTimers = s.queue.callingExpiredTimers
  pending : s'.pending = s.pending
  live : ∀ {w u}, w ≠ x → (s'.queue.Live w u ↔ s.queue.Live w u)
  canceling : ∀ {k}, k ≠ x.id → (k ∈ s'.queue.cancelingTimers ↔ k ∈ s.queue.cancelingTimers)
  started : s'.started.filter (· ≠ x.object) = s.started.filter (· ≠ x.object)
  self : Stays x s s' ∨ Gone x s s'

/-- The cancel of `x` had no effect that lasts. -/
def Idle (x : Ptr) (s s' : Timers) : Prop :=
  Stays x s s' ∧ (x ∈ s.expired → x.id ∈ s'.queue.cancelingTimers →
    x.id ∈ s.queue.cancelingTimers)

theorem expired_map (h : s'.batch = s.batch.map (Batch.without x)) :
    s'.expired = s.expired.filter (· ≠ x) := by
  unfold expired
  rw [h]
  cases s.batch with
  | none => rfl
  | some b => exact (List.filter_append _ _).symm

theorem Stays.expired (h : Stays x s s') : s'.expired = s.expired := by
  unfold Timers.expired
  rw [h.batch]

theorem Without.mem_expired (h : Without x s s') (hw : w ≠ x) :
    w ∈ s'.expired ↔ w ∈ s.expired := by
  obtain hstays | hgone := h.self
  · rw [hstays.expired]
  · rw [expired_map hgone.batch, List.mem_filter, decide_eq_true_iff]
    exact and_iff_left hw

theorem Without.live_of (h : Without x s s') (hu : s'.queue.Live w u) : s.queue.Live w u := by
  by_cases hw : w = x
  · subst hw
    obtain hstays | hgone := h.self
    · exact hstays.live.mp hu
    · exact absurd hgone.deleted (h.inv'.not_deleted hu)
  · exact (h.live hw).mp hu

theorem Without.live_all (h : Without x s s') (hw : w ≠ x ∨ Stays x s s') :
    s'.queue.Live w u ↔ s.queue.Live w u := by
  by_cases hwx : w = x
  · subst hwx
    exact (hw.resolve_left fun hne => hne rfl).live
  · exact h.live hwx

theorem Without.found (h : Without x s s') (hw : w ≠ x) :
    s'.queue.Found (s'.expired ++ s'.pending) w ↔ s.queue.Found (s.expired ++ s.pending) w := by
  simp only [Found, h.live hw, List.mem_append, h.mem_expired hw, h.pending]

theorem Stays.found (hx : Stays x s s') (h : Without x s s') :
    s'.queue.Found (s'.expired ++ s'.pending) w ↔ s.queue.Found (s.expired ++ s.pending) w := by
  by_cases hw : w = x
  · subst hw
    simp only [Found, hx.live, hx.expired, h.pending]
  · exact h.found hw

-- ---------------------------------------------------------------------------
-- Steps of both
-- ---------------------------------------------------------------------------

inductive Skips : List Label → List Label → Prop
  | nil : Skips [] []
  | keep : Skips as bs → Skips (a :: as) (a :: bs)
  | skip : Skips as bs → Skips (.callback :: as) bs

theorem Skips.append (h : Skips as bs) (h' : Skips cs ds) : Skips (as ++ cs) (bs ++ ds) := by
  induction h with
  | nil => exact h'
  | keep _ ih => exact ih.keep
  | skip _ ih => exact ih.skip

theorem Skips.all (as : List Label) : Skips as as := by
  induction as with
  | nil => exact .nil
  | cons a as ih => exact ih.keep

/-- `s'` can do what `s` did. -/
def Follows (x : Ptr) (s s' : Timers) (a : Label) (t : Timers) : Prop :=
  ∃ as t', Skips [a] as ∧ machine.Run s' as t' ∧ Without x t t' ∧
    (Idle x s s' → Idle x t t') ∧
    ((∀ now readAt, a ≠ .beginRead now readAt) → s'.batch = s.batch → t'.batch = t.batch)

theorem Without.call (h : Without x s s') (hen : s.Enabled a) (hen' : s'.Enabled a)
    (hs : s.step a = .ok t) (hs' : s'.step a = .ok t')
    (hb : t.batch = s.batch ∧ t'.batch = s'.batch)
    (hstarted : t.started = s.started ∧ t'.started = s'.started)
    (hp : t'.pending = t.pending) (hnum : t'.queue.numCreated = t.queue.numCreated)
    (hcalling : t'.queue.callingExpiredTimers = t.queue.callingExpiredTimers)
    (hlive : ∀ {w u}, w ≠ x ∨ Stays x s s' → (t'.queue.Live w u ↔ t.queue.Live w u))
    (hcanceling : ∀ {k}, k ≠ x.id →
      (k ∈ t'.queue.cancelingTimers ↔ k ∈ t.queue.cancelingTimers))
    (hself : Stays x s s' → x.id ∈ t.queue.cancelingTimers → x.id ∈ t'.queue.cancelingTimers)
    (hback : Idle x s s' → x ∈ s.expired → x.id ∈ t'.queue.cancelingTimers →
      x.id ∈ t.queue.cancelingTimers) : Follows x s s' a t := by
  have hstays : Stays x s s' → Stays x t t' := fun hx =>
    ⟨hlive (.inr hx), by rw [hb.1, hb.2, hx.batch], hself hx⟩
  refine ⟨[a], t', .all _, .cons hen' hs' .nil, ?_, fun hx => ⟨hstays hx.1, fun hmem => ?_⟩,
    fun _ hsame => by rw [hb.1, hb.2, hsame]⟩
  · refine ⟨h.inv.step hen hs, h.inv'.step hen' hs', hnum, hcalling, hp, fun hw => hlive (.inl hw),
      hcanceling, ?_, h.self.imp hstays fun hx => ⟨(later_step hen' hs').deleted hx.deleted, ?_⟩⟩
    · rw [hstarted.1, hstarted.2, h.started]
    · rw [hb.1, hb.2, hx.batch]
  · have hexpired : t.expired = s.expired := by
      unfold expired
      rw [hb.1]
    exact hback hx (hexpired ▸ hmem)

theorem Without.new (h : Without x s s') (hen : s.Enabled (.new addr expiration interval repeats))
    (hs : s.step (.new addr expiration interval repeats) = .ok t) :
    Follows x s s' (.new addr expiration interval repeats) t := by
  have hfree : s'.queue.Free addr := by
    refine ⟨Option.eq_none_iff_forall_ne_some.mpr fun v hv => ?_, hen.2⟩
    have hlive := h.live_of (w := ⟨addr, v.sequence⟩) ⟨hv, rfl⟩
    exact not_live_free hen.1 v hlive
  cases hs
  refine h.call hen hfree rfl rfl ⟨rfl, rfl⟩ ⟨rfl, rfl⟩ ?_ ?_ h.calling (fun {w u} hw => ?_)
    h.canceling (fun hx => hx.canceling) fun hx => hx.2
  · show s'.pending ++ [⟨addr, s'.queue.numCreated + 1⟩] = _
    rw [h.pending, h.num]
  · exact congrArg (· + 1) h.num
  · refine (live_new hfree).trans (Iff.trans ?_ (live_new hen).symm)
    rw [h.num]
    exact or_congr_right (h.live_all hw)

theorem Without.addTimerInLoop (h : Without x s s') (hen : s.Enabled (.addTimerInLoop p clock))
    (huser : s'.InUser) (hs : s.step (.addTimerInLoop p clock) = .ok t) :
    Follows x s s' (.addTimerInLoop p clock) t := by
  have hen' : s'.Enabled (.addTimerInLoop p clock) := ⟨huser, h.pending ▸ hen.2⟩
  obtain ⟨t', hs', -⟩ := inv_safe (a := .addTimerInLoop p clock) h.inv' hen'
  have hfollow := h.call hen hen' hs hs'
  obtain ⟨q, hq, hs⟩ := bind_ok.mp hs
  obtain ⟨q', hq', hs'⟩ := bind_ok.mp hs'
  cases hs
  cases hs'
  obtain ⟨timers, active, fd, rfl⟩ := addTimerInLoop_rest hq
  obtain ⟨timers', active', fd', rfl⟩ := addTimerInLoop_rest hq'
  refine hfollow ⟨rfl, rfl⟩ ⟨rfl, rfl⟩ ?_ h.num h.calling h.live_all h.canceling
    (fun hx => hx.canceling) fun hx => hx.2
  show s'.pending.erase p = s.pending.erase p
  rw [h.pending]

theorem Without.cancelInLoop (h : Without x s s') (huser : s.InUser) (huser' : s'.InUser)
    (hs : s.step (.cancelInLoop addr n) = .ok t) : Follows x s s' (.cancelInLoop addr n) t := by
  obtain ⟨t', hs', -⟩ := inv_safe (a := .cancelInLoop addr n) h.inv' huser'
  have hfollow := h.call (a := .cancelInLoop addr n) huser huser' hs hs'
  obtain ⟨q, hq, hs⟩ := bind_ok.mp hs
  obtain ⟨q', hq', hs'⟩ := bind_ok.mp hs'
  cases hs
  cases hs'
  have hc := TimerQueue.Inv.canceled (p := ⟨addr, n⟩) h.inv hq
  have hc' := TimerQueue.Inv.canceled (p := ⟨addr, n⟩) h.inv' hq'
  -- a cancel of `x` may find it in one of the two only
  have hfound : (⟨addr, n⟩ : Ptr) ≠ x ∨ Stays x s s' →
      (s'.queue.Found (s'.expired ++ s'.pending) ⟨addr, n⟩ ↔
        s.queue.Found (s.expired ++ s.pending) ⟨addr, n⟩) := fun hw =>
    hw.elim h.found fun hx => hx.found h
  refine hfollow ⟨rfl, rfl⟩ ⟨rfl, rfl⟩ h.pending (hc'.num.trans (h.num.trans hc.num.symm))
    (hc'.calling.trans (h.calling.trans hc.calling.symm)) (fun {w u} hw => ?_) (fun {k} hk => ?_)
    (fun hx hk => ?_) fun hx hmem hk => ?_
  · rw [hc'.live, hc.live, h.live_all hw]
    refine and_congr_right fun _ => not_congr (and_congr_right fun heq => hfound ?_)
    exact heq ▸ hw
  · rw [hc'.canceling, hc.canceling, h.canceling hk, h.calling]
    refine or_congr_right (and_congr_right fun heq => and_congr_right fun _ => not_congr (hfound ?_))
    exact .inl fun hx => hk (heq.trans (congrArg Ptr.id hx))
  · refine hc'.canceling.mpr ((hc.canceling.mp hk).imp hx.canceling fun hadd => ?_)
    exact ⟨hadd.1, h.calling ▸ hadd.2.1, fun hf => hadd.2.2 ((hfound (.inr hx)).mp hf)⟩
  · refine hc.canceling.mpr ((hc'.canceling.mp hk).imp (hx.2 hmem) fun hadd => ?_)
    exact ⟨hadd.1, h.calling ▸ hadd.2.1, fun hf => hadd.2.2 ((hfound (.inr hx.1)).mpr hf)⟩

-- ---------------------------------------------------------------------------
-- handleRead
-- ---------------------------------------------------------------------------

theorem keyed_iff {key : Ptr → Timer → κ} (h : ∀ {u}, s'.queue.Live w u ↔ s.queue.Live w u)
    (ha : w ∈ away' ↔ w ∈ away) :
    s'.queue.Keyed away' key w k ↔ s.queue.Keyed away key w k := by
  simp only [Keyed, h, ha]

theorem Without.keyed {key : Ptr → Timer → κ} (h : Without x s s') (hw : w ≠ x) :
    s'.queue.Keyed (s'.expired ++ s'.pending) key w k ↔
      s.queue.Keyed (s.expired ++ s.pending) key w k := by
  refine keyed_iff (h.live hw) ?_
  rw [List.mem_append, List.mem_append, h.mem_expired hw, h.pending]

theorem Stays.timers (hx : Stays x s s') (h : Without x s s') :
    s'.queue.timers = s.queue.timers := by
  refine OrdMap.Indexes.unique h.inv'.timers (h.inv.timers.congr fun w e => ?_)
  refine keyed_iff (h.live_all (.inr hx)) ?_
  rw [hx.expired, h.pending]

theorem Gone.timers (hx : Gone x s s') (h : Without x s s') :
    s'.queue.timers = s.queue.timers.filter (· ≠ x) := by
  refine OrdMap.Indexes.unique h.inv'.timers ((h.inv.timers.filter (· ≠ x)).congr fun w e => ?_)
  by_cases hw : w = x
  · subst hw
    refine iff_of_false ?_ fun hkeyed => hkeyed.2 rfl
    rintro ⟨u, hu, -⟩
    exact h.inv'.not_deleted hu hx.deleted
  · exact (h.keyed hw).trans (and_iff_left hw).symm

theorem Without.batch_none (h : Without x s s') (hb : s.batch = none) : s'.batch = none := by
  obtain hx | hx := h.self
  · rw [hx.batch, hb]
  · rw [hx.batch, hb]
    rfl

theorem Without.beginRead (h : Without x s s') (hen : s.Enabled (.beginRead now readAt))
    (hs : s.step (.beginRead now readAt) = .ok t) : Follows x s s' (.beginRead now readAt) t := by
  have hb := Option.isNone_iff_eq_none.mp hen
  have hen' : s'.Enabled (.beginRead now readAt) := Option.isNone_iff_eq_none.mpr (h.batch_none hb)
  obtain ⟨t', hs', hinv'⟩ := inv_safe (a := .beginRead now readAt) h.inv' hen'
  have hinv := h.inv.step hen hs
  have hrun : machine.Run s' [.beginRead now readAt] t' := .cons hen' hs' .nil
  obtain ⟨active, fd, rfl⟩ := beginRead_step hs
  obtain ⟨active', fd', rfl⟩ := beginRead_step hs'
  refine ⟨_, _, .all _, hrun, ⟨hinv, hinv', h.num, rfl, h.pending, h.live, fun _ => .rfl,
    h.started, ?_⟩, fun hx => ⟨⟨hx.1.live, ?_, id⟩, fun _ hk => hk⟩,
    fun ha => absurd rfl (ha now readAt)⟩
  · refine h.self.imp (fun hx => ⟨hx.live, ?_, id⟩) fun hx => ⟨hx.deleted, ?_⟩
    · simp only [hx.timers h]
    · simp only [hx.timers h, OrdMap.below_filter, Option.map_some, Batch.without, List.filter_map]
      rfl
  · simp only [hx.1.timers h]

theorem Without.callback_both (h : Without x s s') (hen : s.Enabled .callback)
    (hs : s.step .callback = .ok t) (hb : s.batch = some ⟨done, w :: rest, now⟩)
    (hb' : s'.batch = some ⟨done', w :: rest', now⟩) : Follows x s s' .callback t := by
  have hen' : s'.Enabled .callback := ⟨_, hb', nofun⟩
  obtain ⟨t', hs', hinv'⟩ := inv_safe (a := .callback) h.inv' hen'
  have hinv := h.inv.step hen hs
  have hrun : machine.Run s' [.callback] t' := .cons hen' hs' .nil
  obtain ⟨_, _, _, _, _, hb₁, -, rfl⟩ := callback_ok hen hs
  cases hb.symm.trans hb₁
  obtain ⟨_, _, _, _, _, hb₁', -, rfl⟩ := callback_ok hen' hs'
  cases hb'.symm.trans hb₁'
  have hsame : s'.batch = s.batch → done' = done ∧ rest' = rest := by
    intro hbatch
    cases hb'.symm.trans (hbatch.trans hb)
    exact ⟨rfl, rfl⟩
  have hstays : Stays x s s' → Stays x
      { s with batch := some ⟨done ++ [w], rest, now⟩, started := s.started ++ [w.object] }
      { s' with batch := some ⟨done' ++ [w], rest', now⟩, started := s'.started ++ [w.object] } := by
    intro hx
    obtain ⟨rfl, rfl⟩ := hsame hx.batch
    exact ⟨hx.live, rfl, hx.canceling⟩
  refine ⟨_, _, .all _, hrun, ⟨hinv, hinv', h.num, h.calling, h.pending, h.live, h.canceling, ?_,
    h.self.imp hstays fun hx => ⟨hx.deleted, ?_⟩⟩, fun hx => ⟨hstays hx.1, fun hmem => hx.2 ?_⟩,
    fun _ hbatch => ?_⟩
  · rw [List.filter_append, List.filter_append, h.started]
  · have hmap := hx.batch
    rw [hb, hb'] at hmap
    have hw : w ≠ x := by
      rintro rfl
      exact without_ne (Option.some.inj hmap).symm
    rw [Option.map_some, without_next hw] at hmap
    cases hmap
    exact congrArg some (without_done hw).symm
  · unfold expired
    rw [hb]
    simpa [expired] using hmem
  · obtain ⟨rfl, rfl⟩ := hsame hbatch
    rfl

/-- The callback is of the timer that was cancelled. -/
theorem Without.callback_skip (h : Without x s s') (hx : Gone x s s') (hen : s.Enabled .callback)
    (hs : s.step .callback = .ok t) (hb : s.batch = some ⟨done, x :: rest, now⟩) :
    Follows x s s' .callback t := by
  have hinv := h.inv.step hen hs
  obtain ⟨_, _, _, _, u, hb₁, hu, rfl⟩ := callback_ok hen hs
  cases hb.symm.trans hb₁
  refine ⟨[], s', Skips.nil.skip, .nil, ⟨hinv, h.inv', h.num, h.calling, h.pending, h.live,
    h.canceling, ?_, .inr ⟨hx.deleted, ?_⟩⟩, fun hidle => ?_, fun _ hbatch => ?_⟩
  · rw [h.started]
    simp
  · rw [hx.batch, hb]
    exact congrArg some without_self.symm
  · exact absurd hx.deleted (h.inv'.not_deleted (hidle.1.live.mpr hu))
  · rw [hx.batch, hb] at hbatch
    exact absurd (Option.some.inj hbatch) without_ne

theorem Without.callback (h : Without x s s') (hen : s.Enabled .callback)
    (hs : s.step .callback = .ok t) : Follows x s s' .callback t := by
  obtain ⟨done, w, rest, now, u, hb, -, -⟩ := callback_ok hen hs
  obtain hx | hx := h.self
  · exact h.callback_both hen hs hb (hx.batch.trans hb)
  · by_cases hw : w = x
    · subst hw
      exact h.callback_skip hx hen hs hb
    · have hb' := hx.batch
      rw [hb, Option.map_some, without_next hw] at hb'
      exact h.callback_both hen hs hb hb'

theorem Inv.live_endRead (h : s.Inv) (hen : s.Enabled (.endRead clock))
    (hs : s.step (.endRead clock) = .ok t) (hb : s.batch = some b) :
    t.queue.Live w u ↔ ∃ v, s.queue.Live w v ∧
      (w ∉ b.done ∧ u = v ∨ w ∈ b.done ∧ s.queue.Returns w v ∧ u = v.restart b.now) := by
  have hinv := h.step hen hs
  obtain ⟨done, now, q, hb', hq, rfl⟩ := endRead_step hen hs
  cases hb.symm.trans hb'
  exact TimerQueue.Inv.endRead_live (h.batch_away hb) hinv hq

theorem Without.returns (h : Without x s s') (hw : w ≠ x) (hu : s.queue.Live w u) :
    s'.queue.Returns w u ↔ s.queue.Returns w u := by
  refine and_congr_right fun _ => not_congr (h.canceling ?_)
  rw [activeTimer_id hu]
  exact fun heq => hw (id_inj.mp heq)

theorem Stays.returns (hx : Stays x s s') (hu : s.queue.Live x u) (hr : s'.queue.Returns x u) :
    s.queue.Returns x u := by
  refine ⟨hr.1, fun hk => hr.2 ?_⟩
  rw [activeTimer_id hu] at hk ⊢
  exact hx.canceling hk

/-- The batch of `s'` is that of `s`, perhaps without `x`. -/
theorem Without.batch (h : Without x s s') (hb : s.batch = some ⟨done, [], now⟩) :
    ∃ done', s'.batch = some ⟨done', [], now⟩ ∧ ∀ {w}, w ≠ x ∨ Stays x s s' →
      (w ∈ done' ↔ w ∈ done) := by
  obtain hx | hx := h.self
  · exact ⟨done, hx.batch.trans hb, fun _ => .rfl⟩
  · have hb' := hx.batch
    rw [hb] at hb'
    refine ⟨done.filter (· ≠ x), hb', fun {w} hw => ?_⟩
    rw [List.mem_filter, decide_eq_true_iff]
    refine and_iff_left_of_imp fun hmem => hw.elim id fun hstays => ?_
    rintro rfl
    have hsame := hstays.batch
    rw [hb', hb] at hsame
    have hdone : done.filter (· ≠ w) = done := (Batch.mk.inj (Option.some.inj hsame)).1
    rw [← hdone] at hmem
    exact of_decide_eq_true (List.mem_filter.mp hmem).2 rfl

theorem Without.live_end (h : Without x s s') (hen : s.Enabled (.endRead clock))
    (hs : s.step (.endRead clock) = .ok t) (hb : s.batch = some ⟨done, [], now⟩)
    (hen' : s'.Enabled (.endRead clock)) (hs' : s'.step (.endRead clock) = .ok t')
    (hb' : s'.batch = some ⟨done', [], now⟩) (hmem : w ∈ done' ↔ w ∈ done)
    (hlive : ∀ {v}, s'.queue.Live w v ↔ s.queue.Live w v)
    (hreturns : ∀ {v}, s.queue.Live w v → w ∈ done →
      (s'.queue.Returns w v ↔ s.queue.Returns w v)) :
    t'.queue.Live w u ↔ t.queue.Live w u := by
  rw [h.inv'.live_endRead hen' hs' hb', h.inv.live_endRead hen hs hb]
  refine exists_congr fun v => ?_
  rw [hlive, hmem]
  refine and_congr_right fun hv => or_congr_right (and_congr_right fun hdone => ?_)
  exact and_congr_left fun _ => hreturns hv hdone

theorem Without.endRead (h : Without x s s') (hen : s.Enabled (.endRead clock))
    (hs : s.step (.endRead clock) = .ok t) : Follows x s s' (.endRead clock) t := by
  have hinv := h.inv.step hen hs
  obtain ⟨done, now, q, hb, hq, rfl⟩ := endRead_step hen hs
  obtain ⟨done', hb', hmem⟩ := h.batch hb
  have hen' : s'.Enabled (.endRead clock) := ⟨_, hb', rfl⟩
  obtain ⟨t', hs', hinv'⟩ := inv_safe (a := .endRead clock) h.inv' hen'
  have hrun : machine.Run s' [.endRead clock] t' := .cons hen' hs' .nil
  have hlater := later_step hen' hs'
  obtain ⟨b', hb₁', hfate⟩ := h.inv'.fate hen' hs'
  cases hb'.symm.trans hb₁'
  obtain ⟨_, _, q', hb₂', hq', rfl⟩ := endRead_step hen' hs'
  cases hb'.symm.trans hb₂'
  obtain ⟨hnum, hcalling, hcanceling⟩ := endRead_rest hq
  obtain ⟨hnum', hcalling', hcanceling'⟩ := endRead_rest hq'
  have hstays : Stays x s s' →
      (∀ {v}, s.queue.Live x v → x ∈ done → s.queue.Returns x v → s'.queue.Returns x v) →
      Stays x { s with queue := q, batch := none } { s' with queue := q', batch := none } := by
    intro hx hkeep
    refine ⟨h.live_end hen hs hb hen' hs' hb' (hmem (.inr hx)) hx.live
      fun hv hdone => ⟨hx.returns hv, hkeep hv hdone⟩, rfl, fun hk => ?_⟩
    simp only [hcanceling, hcanceling'] at hk ⊢
    exact hx.canceling hk
  refine ⟨_, _, .all _, hrun, ⟨hinv, hinv', hnum'.trans (h.num.trans hnum.symm),
    hcalling'.trans hcalling.symm, h.pending,
    fun hw => h.live_end hen hs hb hen' hs' hb' (hmem (.inl hw)) (h.live hw)
      fun hv _ => h.returns hw hv, fun hk => ?_, h.started, ?_⟩,
    fun hx => ⟨hstays hx.1 fun hv hdone hr => ⟨hr.1, fun hk => hr.2 ?_⟩,
      fun hexpired => absurd hexpired List.not_mem_nil⟩, fun _ _ => rfl⟩
  · simp only [hcanceling, hcanceling']
    exact h.canceling hk
  · obtain hx | hx := h.self
    · by_cases hlost : ∃ v, s.queue.Live x v ∧ x ∈ done ∧ ¬s'.queue.Returns x v
      · obtain ⟨v, hv, hdone, hnot⟩ := hlost
        exact .inr ⟨(hfate (hx.live.mpr hv)).gone ((hmem (.inr hx)).mpr hdone) hnot, rfl⟩
      · refine .inl (hstays hx fun hv hdone _ => ?_)
        by_contra hnot
        exact hlost ⟨_, hv, hdone, hnot⟩
    · exact .inr ⟨hlater.deleted hx.deleted, rfl⟩
  · rw [activeTimer_id hv] at hk ⊢
    refine hx.2 ?_ hk
    unfold expired
    rw [hb]
    exact List.mem_append_left _ hdone

/-- Users can call into `s'` where they call into `s`. -/
def Callable (s' : Timers) : Label → Prop
  | .addTimerInLoop _ _ => s'.InUser
  | .cancelInLoop _ _ => s'.InUser
  | _ => True

theorem Without.step (h : Without x s s') (hen : machine.enabled s a)
    (hs : machine.step s a = .ok t) (hcall : Callable s' a) : Follows x s s' a t := by
  cases a with
  | new addr expiration interval repeats => exact h.new hen hs
  | addTimerInLoop p clock => exact h.addTimerInLoop hen hcall hs
  | cancelInLoop addr n => exact h.cancelInLoop hen hcall hs
  | beginRead now readAt => exact h.beginRead hen hs
  | callback => exact h.callback hen hs
  | endRead clock => exact h.endRead hen hs

end Timers

end Muduo
