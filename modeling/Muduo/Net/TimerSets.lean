import Muduo.Net.TimerQueue
import Mathlib.Data.List.Perm.Basic

/-!
# Who holds a timer

The two sets of a queue index the same timers: the live ones that are not away.
A timer is away between `new` and `addTimerInLoop`, and while `handleRead` has it
in its batch. Every function of the queue is described by the timers it takes out
of the sets, puts back or deletes.
-/

namespace Muduo.TimerQueue

open Lib Function

variable {q q' : TimerQueue} {p : Ptr} {t : Timer} {away : List Ptr}

-- ---------------------------------------------------------------------------
-- Live timers
-- ---------------------------------------------------------------------------

theorem Live.unique (h : q.Live p t) (h' : q.Live p' t') (ha : p.addr = p'.addr) :
    p = p' ∧ t = t' := by
  obtain ⟨a, o⟩ := p
  obtain ⟨a', o'⟩ := p'
  obtain ⟨hh, rfl⟩ := h
  obtain ⟨hh', rfl⟩ := h'
  cases ha
  rw [hh] at hh'
  cases hh'
  exact ⟨rfl, rfl⟩

theorem deref_live (h : q.Live p t) : q.deref p = .ok t := by
  unfold deref
  rw [h.1]
  exact ensure_bind h.2 _

theorem delete_live (h : q.Live p t) : q.delete p =
    .ok { q with heap := update q.heap p.addr none, deleted := q.deleted ++ [p.object] } := by
  simp only [delete, deref_live h, ok_bind]
  rfl

theorem restart_live (h : q.Live p t) : q.restart p now =
    .ok { q with heap := update q.heap p.addr (some (t.restart now)) } := by
  simp only [restart, deref_live h, ok_bind]
  rfl

/-- Other timers than `p` live in `q'` as in `q`. -/
def Only (p : Ptr) (q q' : TimerQueue) : Prop := ∀ {w u}, w ≠ p → (q'.Live w u ↔ q.Live w u)

theorem mem_update_heap {heap : Nat → Option Timer} {o : Option Timer}
    (h : u ∈ update heap addr o a) : a = addr ∧ u ∈ o ∨ a ≠ addr ∧ u ∈ heap a := by
  rw [update_apply] at h
  split at h
  · exact .inl ⟨‹_›, h⟩
  · exact .inr ⟨‹_›, h⟩

theorem only_update {o : Option Timer} (hq : ∀ t, q.heap p.addr = some t → t.sequence = p.object)
    (ho : ∀ t ∈ o, t.sequence = p.object) (hh : q'.heap = update q.heap p.addr o) :
    Only p q q' := by
  intro w u hne
  simp only [Live, hh]
  rcases eq_or_ne w.addr p.addr with ha | ha
  · -- only `p` itself can live there, before and after
    have hno : u.sequence = w.object → u.sequence ≠ p.object := by
      intro hw hp
      obtain ⟨a, o⟩ := w
      obtain ⟨a', o'⟩ := p
      cases ha
      exact hne (congrArg _ (hw.symm.trans hp))
    rw [ha, update_self]
    constructor
    · rintro ⟨hu, hw⟩
      exact absurd (ho u hu) (hno hw)
    · rintro ⟨hu, hw⟩
      exact absurd (hq u hu) (hno hw)
  · rw [update_of_ne ha]

-- ---------------------------------------------------------------------------
-- Keys
-- ---------------------------------------------------------------------------

/-- A live timer that is not away, and its key. -/
def Keyed (q : TimerQueue) (away : List Ptr) (key : Ptr → Timer → κ) (p : Ptr) (k : κ) : Prop :=
  ∃ t, q.Live p t ∧ p ∉ away ∧ k = key p t

def Addressed (key : Ptr → Timer → κ) : Prop :=
  ∀ {p t p' t'}, key p t = key p' t' → p.addr = p'.addr

theorem entry_addressed : Addressed entry := fun h => congrArg (fun e => (ofLex e).2) h

theorem activeTimer_addressed : Addressed activeTimer := fun h =>
  congrArg (fun e => (ofLex e).1) h

theorem Keyed.live (h : q.Keyed away key p k) (ht : q.Live p t) : p ∉ away ∧ k = key p t := by
  obtain ⟨u, hu, haway, rfl⟩ := h
  obtain ⟨-, rfl⟩ := ht.unique hu rfl
  exact ⟨haway, rfl⟩

theorem Keyed.one (h : q.Keyed away key p k) (h' : q.Keyed away key p k') : k = k' := by
  obtain ⟨t, ht, -, rfl⟩ := h
  exact (h'.live ht).2.symm

theorem keyed_congr (hm : ∀ w, w ∈ away ↔ w ∈ away') :
    q.Keyed away key p k ↔ q.Keyed away' key p k := by
  simp only [Keyed, hm]

theorem Only.keyed (h : Only p q q') :
    q'.Keyed (p :: away) key w k ↔ q.Keyed (p :: away) key w k := by
  simp only [Keyed, List.mem_cons, not_or]
  constructor
  · rintro ⟨u, hu, ⟨hne, haway⟩, rfl⟩
    exact ⟨u, (h hne).mp hu, ⟨hne, haway⟩, rfl⟩
  · rintro ⟨u, hu, ⟨hne, haway⟩, rfl⟩
    exact ⟨u, (h hne).mpr hu, ⟨hne, haway⟩, rfl⟩

theorem keyed_dead (h : ∀ t, ¬q.Live p t) :
    q.Keyed (p :: away) key w k ↔ q.Keyed away key w k := by
  simp only [Keyed, List.mem_cons, not_or]
  constructor
  · rintro ⟨u, hu, ⟨-, haway⟩, rfl⟩
    exact ⟨u, hu, haway, rfl⟩
  · rintro ⟨u, hu, haway, rfl⟩
    refine ⟨u, hu, ⟨?_, haway⟩, rfl⟩
    rintro rfl
    exact h u hu

theorem not_keyed (hk : Addressed key) (ht : q.Live p t) (w : Ptr) :
    ¬q.Keyed (p :: away) key w (key p t) := by
  rintro ⟨u, hu, haway, heq⟩
  exact haway (List.mem_cons.mpr (.inl (hu.unique ht (hk heq.symm)).1))

section
variable {κ : Type} [LinearOrder κ] {key : Ptr → Timer → κ} {m : OrdMap κ Ptr}

theorem take (hm : m.Indexes (q.Keyed away key)) (hk : Addressed key) (ht : q.Live p t) :
    (m.erase (key p t)).Indexes (q.Keyed (p :: away) key) := by
  refine hm.erase.congr fun w k => ?_
  simp only [Keyed, List.mem_cons, not_or]
  constructor
  · rintro ⟨u, hu, ⟨hne, haway⟩, rfl⟩
    exact ⟨fun heq => hne (hu.unique ht (hk heq)).1, u, hu, haway, rfl⟩
  · rintro ⟨hne, u, hu, haway, rfl⟩
    refine ⟨u, hu, ⟨?_, haway⟩, rfl⟩
    rintro rfl
    exact hne (by rw [(hu.unique ht rfl).2])

theorem put (hm : m.Indexes (q.Keyed (p :: away) key)) (hk : Addressed key) (ht : q.Live p t)
    (haway : p ∉ away) : (m.insert (key p t) p).Indexes (q.Keyed away key) := by
  refine (hm.insert (not_keyed hk ht)).congr fun w k => ?_
  simp only [Keyed, List.mem_cons, not_or]
  constructor
  · rintro ⟨u, hu, hw, rfl⟩
    rcases eq_or_ne w p with rfl | hne
    · exact .inl ⟨rfl, by rw [(hu.unique ht rfl).2]⟩
    · exact .inr ⟨u, hu, ⟨hne, hw⟩, rfl⟩
  · rintro (⟨rfl, rfl⟩ | ⟨u, hu, ⟨-, hw⟩, rfl⟩)
    · exact ⟨t, ht, haway, rfl⟩
    · exact ⟨u, hu, hw, rfl⟩

end

-- ---------------------------------------------------------------------------
-- The invariant
-- ---------------------------------------------------------------------------

/-- Every timer made is at one address or deleted, and deleted once. -/
structure Memory (q : TimerQueue) : Prop where
  below : ∀ {a t}, q.heap a = some t → a < UINTPTR_MAX
  born : ∀ {a t}, q.heap a = some t → 0 < t.sequence ∧ t.sequence ≤ q.numCreated
  alive : ∀ {a t}, q.heap a = some t → t.sequence ∉ q.deleted
  unique : ∀ {a t b u}, q.heap a = some t → q.heap b = some u → t.sequence = u.sequence → a = b
  kept : ∀ {n}, 0 < n → n ≤ q.numCreated → n ∉ q.deleted → ∃ p t, p.object = n ∧ q.Live p t
  gone : ∀ {n}, n ∈ q.deleted → n ≤ q.numCreated
  once : q.deleted.Nodup

structure Inv (q : TimerQueue) (away : List Ptr) : Prop where
  timers : q.timers.Indexes (q.Keyed away entry)
  active : q.activeTimers.Indexes (q.Keyed away activeTimer)
  sizes : q.timers.size = q.activeTimers.size
  live : ∀ p ∈ away, ∃ t, q.Live p t
  nodup : away.Nodup
  memory : Memory q

theorem Inv.perm (h : Inv q away) (hp : away.Perm away') : Inv q away' :=
  ⟨h.timers.congr fun _ _ => keyed_congr fun _ => hp.symm.mem_iff,
    h.active.congr fun _ _ => keyed_congr fun _ => hp.symm.mem_iff,
    h.sizes, fun p hm => h.live p (hp.mem_iff.mpr hm), hp.nodup_iff.mp h.nodup, h.memory⟩

theorem Inv.of_eq (h : Inv q away) (hheap : q'.heap = q.heap) (hnum : q'.numCreated = q.numCreated)
    (hdel : q'.deleted = q.deleted) (htimers : q'.timers = q.timers)
    (hactive : q'.activeTimers = q.activeTimers) : Inv q' away := by
  obtain ⟨heap, num, del, timers, active, _, _, _⟩ := q
  obtain ⟨heap', num', del', timers', active', _, _, _⟩ := q'
  cases hheap
  cases hnum
  cases hdel
  cases htimers
  cases hactive
  exact ⟨h.timers, h.active, h.sizes, h.live, h.nodup, h.memory.below, h.memory.born,
    h.memory.alive, h.memory.unique, h.memory.kept, h.memory.gone, h.memory.once⟩

-- ---------------------------------------------------------------------------
-- Memory
-- ---------------------------------------------------------------------------

theorem not_live_free (h : q.heap p.addr = none) (t : Timer) : ¬q.Live p t := by
  rintro ⟨ht, -⟩
  rw [h] at ht
  cases ht

theorem Memory.new (h : Memory q) (hf : q.Free addr) (expiration : Timestamp) (interval : Nat)
    (repeats : Bool) : Memory (q.new addr expiration interval repeats).2 := by
  obtain ⟨hnone, -, haddr⟩ := hf
  have hlook : ∀ {a t}, (q.new addr expiration interval repeats).2.heap a = some t →
      (a = addr ∧ t.sequence = q.numCreated + 1) ∨ q.heap a = some t := by
    intro a t ha
    obtain ⟨heq, ht⟩ | ⟨-, ha⟩ := mem_update_heap ha
    · cases ht
      exact .inl ⟨heq, rfl⟩
    · exact .inr ha
  refine ⟨fun ha => ?_, fun ha => ?_, fun ha hd => ?_, fun ha hb heq => ?_, fun h0 hn hd => ?_,
    fun hd => Nat.le_succ_of_le (h.gone hd), h.once⟩
  · rcases hlook ha with ⟨rfl, -⟩ | ha
    · exact haddr
    · exact h.below ha
  · rcases hlook ha with ⟨-, hseq⟩ | ha
    · exact ⟨by omega, Nat.le_of_eq hseq⟩
    · exact ⟨(h.born ha).1, Nat.le_succ_of_le (h.born ha).2⟩
  · rcases hlook ha with ⟨-, hseq⟩ | ha
    · have hle := h.gone hd
      omega
    · exact h.alive ha hd
  · -- the new number is above every other one
    rcases hlook ha with ⟨ha, hseq⟩ | ha <;> rcases hlook hb with ⟨hb, hseq'⟩ | hb
    · rw [ha, hb]
    · have hle := (h.born hb).2
      omega
    · have hle := (h.born ha).2
      omega
    · exact h.unique ha hb heq
  · rcases Nat.lt_or_ge q.numCreated _ with hlt | hle
    · have heq : q.numCreated + 1 = _ := Nat.le_antisymm hlt hn
      exact ⟨⟨addr, q.numCreated + 1⟩, _, heq, update_self .., rfl⟩
    · obtain ⟨p, t, hp, ht⟩ := h.kept h0 hle hd
      have hne : p.addr ≠ addr := fun heq => not_live_free (heq ▸ hnone) t ht
      exact ⟨p, t, hp, (update_of_ne hne ..).trans ht.1, ht.2⟩

theorem Inv.new (h : Inv q away) (hf : q.Free addr) (expiration : Timestamp) (interval : Nat)
    (repeats : Bool) :
    Inv (q.new addr expiration interval repeats).2 (⟨addr, q.numCreated + 1⟩ :: away) := by
  have hnone : q.heap (Ptr.mk addr (q.numCreated + 1)).addr = none := hf.1
  have hdead := not_live_free hnone
  have honly : Only ⟨addr, q.numCreated + 1⟩ q (q.new addr expiration interval repeats).2 := by
    refine only_update (fun t ht => ?_) (fun t ht => ?_) rfl
    · rw [hnone] at ht
      cases ht
    · cases ht
      rfl
  have hnot : ∀ w ∈ away, w ≠ ⟨addr, q.numCreated + 1⟩ := by
    rintro w hw rfl
    obtain ⟨t, ht⟩ := h.live _ hw
    exact hdead t ht
  refine ⟨h.timers.congr fun _ _ => honly.keyed.trans (keyed_dead hdead),
    h.active.congr fun _ _ => honly.keyed.trans (keyed_dead hdead), h.sizes, fun w hw => ?_,
    List.nodup_cons.mpr ⟨fun hm => hnot _ hm rfl, h.nodup⟩, h.memory.new hf ..⟩
  rcases List.mem_cons.mp hw with rfl | hw
  · exact ⟨_, update_self .., rfl⟩
  · obtain ⟨t, ht⟩ := h.live w hw
    exact ⟨t, (honly (hnot w hw)).mpr ht⟩

theorem Memory.delete (h : Memory q) (ht : q.Live p t) : Memory
    { q with heap := update q.heap p.addr none, deleted := q.deleted ++ [p.object] } := by
  have hlook : ∀ {a u}, update q.heap p.addr none a = some u → a ≠ p.addr ∧ q.heap a = some u := by
    intro a u ha
    exact (mem_update_heap ha).resolve_left fun hu => Option.not_mem_none u hu.2
  refine ⟨fun ha => h.below (hlook ha).2, fun ha => h.born (hlook ha).2, fun ha hd => ?_,
    fun ha hb => h.unique (hlook ha).2 (hlook hb).2, fun h0 hn hd => ?_, fun hd => ?_, ?_⟩
  · obtain ⟨hne, ha⟩ := hlook ha
    rcases List.mem_append.mp hd with hd | hd
    · exact h.alive ha hd
    · exact hne (h.unique ha ht.1 ((List.mem_singleton.mp hd).trans ht.2.symm))
  · simp only [List.mem_append, List.mem_singleton, not_or] at hd
    obtain ⟨w, u, hw, hu⟩ := h.kept h0 hn hd.1
    have hne : w.addr ≠ p.addr := by
      intro heq
      obtain ⟨rfl, -⟩ := hu.unique ht heq
      exact hd.2 hw.symm
    exact ⟨w, u, hw, (update_of_ne hne ..).trans hu.1, hu.2⟩
  · rcases List.mem_append.mp hd with hd | hd
    · exact h.gone hd
    · rw [List.mem_singleton.mp hd, ← ht.2]
      exact (h.born ht.1).2
  · refine List.nodup_append.mpr ⟨h.once, List.nodup_singleton _, fun n hn m hm heq => ?_⟩
    rw [heq, List.mem_singleton.mp hm, ← ht.2] at hn
    exact h.alive ht.1 hn

theorem Inv.delete (h : Inv q (p :: away)) (ht : q.Live p t) : Inv
    { q with heap := update q.heap p.addr none, deleted := q.deleted ++ [p.object] } away := by
  have hdead := not_live_free (p := p)
    (q := { q with heap := update q.heap p.addr none, deleted := q.deleted ++ [p.object] })
    (update_self ..)
  have honly : Only p q
      { q with heap := update q.heap p.addr none, deleted := q.deleted ++ [p.object] } := by
    refine only_update (fun u hu => ?_) (by simp) rfl
    rw [ht.1] at hu
    cases hu
    exact ht.2
  obtain ⟨hp, hnodup⟩ := List.nodup_cons.mp h.nodup
  refine ⟨h.timers.congr fun _ _ => (keyed_dead hdead).symm.trans honly.keyed,
    h.active.congr fun _ _ => (keyed_dead hdead).symm.trans honly.keyed, h.sizes, fun w hw => ?_,
    hnodup, h.memory.delete ht⟩
  obtain ⟨u, hu⟩ := h.live w (List.mem_cons_of_mem p hw)
  exact ⟨u, (honly (fun heq => hp (heq ▸ hw))).mpr hu⟩

theorem Memory.restart (h : Memory q) (ht : q.Live p t) (now : Timestamp) :
    Memory { q with heap := update q.heap p.addr (some (t.restart now)) } := by
  have hlook : ∀ {a u}, update q.heap p.addr (some (t.restart now)) a = some u →
      ∃ v, q.heap a = some v ∧ v.sequence = u.sequence := by
    intro a u ha
    obtain ⟨rfl, hu⟩ | ⟨-, ha⟩ := mem_update_heap ha
    · cases hu
      exact ⟨t, ht.1, rfl⟩
    · exact ⟨u, ha, rfl⟩
  refine ⟨fun ha => ?_, fun ha => ?_, fun ha => ?_, fun ha hb heq => ?_, fun h0 hn hd => ?_, h.gone,
    h.once⟩
  · obtain ⟨v, hv, -⟩ := hlook ha
    exact h.below hv
  · obtain ⟨v, hv, hseq⟩ := hlook ha
    rw [← hseq]
    exact h.born hv
  · obtain ⟨v, hv, hseq⟩ := hlook ha
    rw [← hseq]
    exact h.alive hv
  · obtain ⟨v, hv, hseq⟩ := hlook ha
    obtain ⟨v', hv', hseq'⟩ := hlook hb
    exact h.unique hv hv' (hseq.trans (heq.trans hseq'.symm))
  · obtain ⟨w, u, hw, hu⟩ := h.kept h0 hn hd
    rcases eq_or_ne w.addr p.addr with heq | hne
    · obtain ⟨rfl, rfl⟩ := hu.unique ht heq
      exact ⟨w, _, hw, update_self .., hu.2⟩
    · exact ⟨w, u, hw, (update_of_ne hne ..).trans hu.1, hu.2⟩

theorem Inv.restart (h : Inv q (p :: away)) (ht : q.Live p t) (now : Timestamp) :
    Inv { q with heap := update q.heap p.addr (some (t.restart now)) } (p :: away) := by
  have honly : Only p q { q with heap := update q.heap p.addr (some (t.restart now)) } := by
    refine only_update (fun u hu => ?_) (fun u hu => ?_) rfl
    · rw [ht.1] at hu
      cases hu
      exact ht.2
    · cases hu
      exact ht.2
  refine ⟨h.timers.congr fun _ _ => honly.keyed, h.active.congr fun _ _ => honly.keyed, h.sizes,
    fun w hw => ?_, h.nodup, h.memory.restart ht now⟩
  rcases eq_or_ne w p with rfl | hne
  · exact ⟨_, update_self .., ht.2⟩
  · obtain ⟨u, hu⟩ := h.live w hw
    exact ⟨u, (honly hne).mpr hu⟩

-- ---------------------------------------------------------------------------
-- The sets
-- ---------------------------------------------------------------------------

theorem Inv.insert (h : Inv q (p :: away)) :
    ∃ b q', q.insert p = .ok (b, q') ∧ q'.heap = q.heap ∧ Inv q' away := by
  obtain ⟨t, ht⟩ := h.live p List.mem_cons_self
  obtain ⟨hp, hnodup⟩ := List.nodup_cons.mp h.nodup
  have hnew := h.timers.fresh (not_keyed entry_addressed ht)
  have hnew' := h.active.fresh (not_keyed activeTimer_addressed ht)
  have hsizes : (q.timers.insert (entry p t) p).size =
      (q.activeTimers.insert (activeTimer p t) p).size := by
    rw [OrdMap.size_insert_new hnew, OrdMap.size_insert_new hnew', h.sizes]
  refine ⟨q.earliestChanged t, { q with
    timers := q.timers.insert (entry p t) p
    activeTimers := q.activeTimers.insert (activeTimer p t) p }, ?_, rfl, ?_⟩
  · simp only [TimerQueue.insert, ensure_bind h.sizes, deref_live ht, ok_bind, ensure_bind hnew,
      ensure_bind hnew', ensure_bind hsizes]
    rfl
  · exact ⟨put h.timers entry_addressed ht hp, put h.active activeTimer_addressed ht hp, hsizes,
      fun w hw => h.live w (List.mem_cons_of_mem p hw), hnodup,
      ⟨h.memory.below, h.memory.born, h.memory.alive, h.memory.unique, h.memory.kept,
        h.memory.gone, h.memory.once⟩⟩

theorem Inv.erase (h : Inv q away) (ht : q.Live p t) (hp : p ∉ away) :
    Inv { q with
      timers := q.timers.erase (entry p t)
      activeTimers := q.activeTimers.erase (activeTimer p t) } (p :: away) := by
  have hsize := OrdMap.size_erase ((h.timers (entry p t) p).mpr ⟨t, ht, hp, rfl⟩)
  have hsize' := OrdMap.size_erase ((h.active (activeTimer p t) p).mpr ⟨t, ht, hp, rfl⟩)
  refine ⟨take h.timers entry_addressed ht, take h.active activeTimer_addressed ht, ?_,
    fun w hw => ?_, List.nodup_cons.mpr ⟨hp, h.nodup⟩,
    ⟨h.memory.below, h.memory.born, h.memory.alive, h.memory.unique, h.memory.kept,
      h.memory.gone, h.memory.once⟩⟩
  · have hsizes := h.sizes
    show (q.timers.erase _).size = (q.activeTimers.erase _).size
    omega
  · rcases List.mem_cons.mp hw with rfl | hw
    · exact ⟨t, ht⟩
    · exact h.live w hw

theorem Inv.resetTimerFd (h : Inv q away) (clock : Clock) (expiration : Timestamp) :
    Inv (q.resetTimerFd clock expiration) away :=
  h.of_eq rfl rfl rfl rfl rfl

theorem Inv.addTimerInLoop (h : Inv q (p :: away)) (clock : Clock) :
    ∃ q', q.addTimerInLoop p clock = .ok q' ∧ Inv q' away := by
  obtain ⟨t, ht⟩ := h.live p List.mem_cons_self
  obtain ⟨b, q', hq', hheap, hinv⟩ := h.insert
  have ht' : q'.Live p t := by
    simp only [Live, hheap]
    exact ht
  simp only [TimerQueue.addTimerInLoop, hq', ok_bind]
  split
  · simp only [deref_live ht', ok_bind]
    exact ⟨_, rfl, hinv.resetTimerFd ..⟩
  · exact ⟨_, rfl, hinv⟩

theorem Inv.cancelInLoop (h : Inv q away) (timer : ActiveTimer) :
    ∃ q', q.cancelInLoop timer = .ok q' ∧ Inv q' away := by
  simp only [TimerQueue.cancelInLoop, ensure_bind h.sizes]
  split
  · rename_i p hfind
    obtain ⟨t, ht, hp, rfl⟩ := (h.active timer p).mp hfind
    have herased := (h.erase ht hp).delete ht
    have hcount := OrdMap.count_eq_one ((h.timers (entry p t) p).mpr ⟨t, ht, hp, rfl⟩)
    have hlive : ({ q with timers := q.timers.erase (entry p t) } : TimerQueue).Live p t := ht
    simp only [deref_live ht, ok_bind, ensure_bind hcount, delete_live hlive,
      ensure_bind herased.sizes]
    exact ⟨_, rfl, herased⟩
  · refine ⟨_, by simp only [apply_ite TimerQueue.timers, apply_ite TimerQueue.activeTimers,
      ite_self, ensure_bind h.sizes]; rfl, ?_⟩
    split
    · exact h.of_eq rfl rfl rfl rfl rfl
    · exact h

-- ---------------------------------------------------------------------------
-- handleRead
-- ---------------------------------------------------------------------------

theorem eraseActive_ok {expired : List Ptr} {q : TimerQueue} {away : List Ptr}
    (h : q.activeTimers.Indexes (q.Keyed away activeTimer)) (hnodup : (expired ++ away).Nodup)
    (hlive : ∀ p ∈ expired, ∃ t, q.Live p t) :
    ∃ active, eraseActive expired q = .ok { q with activeTimers := active } ∧
      active.Indexes (q.Keyed (expired ++ away) activeTimer) ∧
      active.size + expired.length = q.activeTimers.size := by
  induction expired generalizing q away with
  | nil => exact ⟨q.activeTimers, rfl, h, rfl⟩
  | cons p expired ih =>
    obtain ⟨hp, hrest⟩ := List.nodup_cons.mp hnodup
    obtain ⟨t, ht⟩ := hlive p List.mem_cons_self
    have hfind := (h (activeTimer p t) p).mpr
      ⟨t, ht, fun hm => hp (List.mem_append_right _ hm), rfl⟩
    have hperm : (p :: (expired ++ away)).Perm (expired ++ p :: away) := List.perm_middle.symm
    obtain ⟨active, hok, hindex, hsize⟩ := ih
      (q := { q with activeTimers := q.activeTimers.erase (activeTimer p t) })
      (take h activeTimer_addressed ht) (hperm.nodup_iff.mp hnodup)
      (fun w hw => hlive w (List.mem_cons_of_mem p hw))
    refine ⟨active, ?_, hindex.congr fun _ _ => keyed_congr fun _ => hperm.mem_iff, ?_⟩
    · simp only [eraseActive, deref_live ht, ok_bind, ensure_bind (OrdMap.count_eq_one hfind), hok]
    · have herase := OrdMap.size_erase hfind
      simp only [List.length_cons]
      simp only at hsize
      omega

theorem lt_sentry {now : Timestamp} (ha : p.addr < UINTPTR_MAX) :
    entry p t < toLex (now, UINTPTR_MAX) ↔ t.expiration ≤ now := by
  rw [entry, Prod.Lex.toLex_lt_toLex]
  simp only
  constructor
  · rintro (h | ⟨h, -⟩)
    · exact le_of_lt h
    · exact le_of_eq h
  · intro h
    rcases lt_or_eq_of_le h with h | h
    · exact .inl h
    · exact .inr ⟨h, ha⟩

theorem Inv.getExpired (h : Inv q away) (now : Timestamp) :
    ∃ expired q', q.getExpired now = .ok (expired, q') ∧ Inv q' (expired ++ away) ∧
      ∀ p, p ∈ expired ↔ ∃ t, q.Live p t ∧ p ∉ away ∧ t.expiration ≤ now := by
  have hmem : ∀ p, p ∈ (q.timers.below (toLex (now, UINTPTR_MAX))).map Prod.snd ↔
      ∃ t, q.Live p t ∧ p ∉ away ∧ t.expiration ≤ now := by
    intro p
    rw [h.timers.mem_below]
    constructor
    · rintro ⟨_, ⟨t, ht, hp, rfl⟩, hlt⟩
      exact ⟨t, ht, hp, (lt_sentry (h.memory.below ht.1)).mp hlt⟩
    · rintro ⟨t, ht, hp, hle⟩
      exact ⟨_, ⟨t, ht, hp, rfl⟩, (lt_sentry (h.memory.below ht.1)).mpr hle⟩
  generalize hexp : (q.timers.below (toLex (now, UINTPTR_MAX))).map Prod.snd = expired at hmem
  have htimers : (q.timers.dropBelow (toLex (now, UINTPTR_MAX))).Indexes
      (q.Keyed (expired ++ away) entry) := by
    refine h.timers.dropBelow.congr fun p e => ?_
    simp only [Keyed, List.mem_append, not_or, hmem]
    constructor
    · rintro ⟨t, ht, ⟨hnot, hp⟩, rfl⟩
      refine ⟨fun hlt => hnot ⟨t, ht, hp, ?_⟩, t, ht, hp, rfl⟩
      exact (lt_sentry (h.memory.below ht.1)).mp hlt
    · rintro ⟨hge, t, ht, hp, rfl⟩
      refine ⟨t, ht, ⟨?_, hp⟩, rfl⟩
      rintro ⟨u, hu, -, hle⟩
      obtain ⟨-, rfl⟩ := hu.unique ht rfl
      exact hge ((lt_sentry (h.memory.below ht.1)).mpr hle)
  have hnodup : (expired ++ away).Nodup := by
    refine List.nodup_append.mpr ⟨?_, h.nodup, ?_⟩
    · rw [← hexp]
      exact h.timers.below_nodup fun hv hw => hv.one hw
    · rintro p hp _ hp' rfl
      obtain ⟨-, -, hnot, -⟩ := (hmem p).mp hp
      exact hnot hp'
  have hlive : ∀ p ∈ expired, ∃ t, q.Live p t := fun p hp =>
    ((hmem p).mp hp).imp fun _ ht => ht.1
  have hfirst : ∀ it ∈ (q.timers.dropBelow (toLex (now, UINTPTR_MAX))).first?,
      now < (ofLex it.1).1 := by
    intro it hit
    obtain ⟨t, ht, hp, heq⟩ := (htimers _ _).mp (OrdMap.find?_first? hit)
    have hge : ¬t.expiration ≤ now := fun hle =>
      hp (List.mem_append_left _ ((hmem _).mpr ⟨t, ht, fun hm => hp (List.mem_append_right _ hm), hle⟩))
    rw [heq]
    exact lt_of_not_ge hge
  obtain ⟨active, hok, hactive, hsize⟩ := eraseActive_ok
    (q := { q with timers := q.timers.dropBelow (toLex (now, UINTPTR_MAX)) }) h.active hnodup hlive
  have hsizes : (q.timers.dropBelow (toLex (now, UINTPTR_MAX))).size = active.size := by
    have hbelow := q.timers.size_below_add (toLex (now, UINTPTR_MAX))
    have hlen := congrArg List.length hexp
    rw [List.length_map] at hlen
    have hold := h.sizes
    simp only at hsize
    omega
  refine ⟨expired, { q with
    timers := q.timers.dropBelow (toLex (now, UINTPTR_MAX)), activeTimers := active }, ?_, ?_, hmem⟩
  · simp only [TimerQueue.getExpired, ensure_bind h.sizes, ensure_bind hfirst, hexp, hok, ok_bind,
      ensure_bind hsizes]
    rfl
  · refine ⟨htimers, hactive, hsizes, fun p hp => ?_, hnodup,
      ⟨h.memory.below, h.memory.born, h.memory.alive, h.memory.unique, h.memory.kept,
        h.memory.gone, h.memory.once⟩⟩
    rcases List.mem_append.mp hp with hp | hp
    · exact hlive p hp
    · exact h.live p hp

theorem Inv.beginRead (h : Inv q away) (now readAt : Timestamp) :
    ∃ expired q', q.beginRead now readAt = .ok (expired, q') ∧ Inv q' (expired ++ away) := by
  have hread : Inv (q.readTimerfd readAt) away := by
    unfold readTimerfd
    split
    · exact h
    · split
      · exact h.of_eq rfl rfl rfl rfl rfl
      · exact h
  obtain ⟨expired, q', hok, hinv, -⟩ := hread.getExpired now
  refine ⟨expired, { q' with callingExpiredTimers := true, cancelingTimers := OrdMap.empty }, ?_,
    hinv.of_eq rfl rfl rfl rfl rfl⟩
  simp only [TimerQueue.beginRead, hok, ok_bind]
  rfl

/-- Each timer of the batch goes back into the sets or is deleted. -/
theorem Inv.resetEach {expired : List Ptr} {q : TimerQueue} (h : Inv q (expired ++ away))
    (now : Timestamp) : ∃ q', TimerQueue.resetEach now expired q = .ok q' ∧ Inv q' away := by
  induction expired generalizing q with
  | nil => exact ⟨q, rfl, h⟩
  | cons p expired ih =>
    obtain ⟨t, ht⟩ := h.live p List.mem_cons_self
    simp only [TimerQueue.resetEach, deref_live ht, ok_bind]
    split
    · obtain ⟨b, q', hok, -, hinv⟩ := (h.restart ht now).insert
      simp only [restart_live ht, ok_bind, hok]
      exact ih hinv
    · simp only [delete_live ht, ok_bind]
      exact ih (h.delete ht)

theorem Inv.endRead {expired : List Ptr} (h : Inv q (expired ++ away)) (now : Timestamp)
    (clock : Clock) : ∃ q', q.endRead expired now clock = .ok q' ∧ Inv q' away := by
  have hcall : Inv { q with callingExpiredTimers := false } (expired ++ away) :=
    h.of_eq rfl rfl rfl rfl rfl
  obtain ⟨q', hok, hinv⟩ := hcall.resetEach now
  simp only [TimerQueue.endRead, TimerQueue.reset, hok, ok_bind]
  split
  · exact ⟨_, rfl, hinv⟩
  · rename_i it hit
    obtain ⟨t, ht, -, -⟩ := (hinv.timers _ _).mp (OrdMap.find?_first? hit)
    simp only [deref_live ht, ok_bind]
    split
    · exact ⟨_, rfl, hinv.resetTimerFd ..⟩
    · exact ⟨_, rfl, hinv⟩

end Muduo.TimerQueue
