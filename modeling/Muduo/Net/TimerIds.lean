import Muduo.Net.TimerHandover

/-!
# The ids that threads get

As long as the timers that threads have in their hands are not deleted, nobody
knows the sequence numbers of these timers, so that nobody can cancel them
either. Only their own runs can delete them, and then the number that is read
is wrong.
-/

namespace Muduo.Handover

open Lib Function TimerQueue

variable {h h' : Handover n}

/-- A number that may be in a `TimerId`: of a timer that was made, and that no
call still has to read. -/
structure Public (h : Handover n) (m : Nat) : Prop where
  made : m = 0 ∨ ∃ p, h.timers.queue.Made p ∧ p.object = m
  secret : ∀ c p, (h.thread c).unread = some p → p.object ≠ m

structure Inv (h : Handover n) : Prop where
  timers : h.timers.Inv
  made : ∀ c p, (h.thread c).unread = some p → h.timers.queue.Made p
  kept : ∀ c p, (h.thread c).unread = some p → p.object ∉ h.timers.queue.deleted
  apart : ∀ c d p w, (h.thread c).unread = some p → (h.thread d).unread = some w →
    p.object = w.object → c = d
  issued : ∀ id ∈ h.issued, h.Public id.2
  canceling : ∀ k ∈ h.timers.queue.cancelingTimers, h.Public (ofLex k).2
  sound : Sound h

theorem Inv.live (hi : Inv h) (hp : (h.thread c).unread = some p) :
    ∃ t, h.timers.queue.Live p t :=
  (hi.made c p hp).resolve_right (hi.kept c p hp)

theorem start_inv : Inv ({} : Handover n) where
  timers := Timers.start_inv
  made _ _ hp := by cases hp
  kept _ _ hp := by cases hp
  apart _ _ _ _ hp := by cases hp
  issued id hid := by
    rw [List.mem_singleton.mp hid]
    exact ⟨.inl rfl, fun _ _ hp => by cases hp⟩
  canceling k hk := absurd hk OrdSet.not_mem_empty
  sound _ _ _ hc := by cases hc

-- ---------------------------------------------------------------------------
-- The loop
-- ---------------------------------------------------------------------------

theorem Public.later (hp : h.Public m) (hl : Later h.timers.queue t.queue) :
    ({ h with timers := t } : Handover n).Public m := by
  refine ⟨hp.made.imp_right ?_, hp.secret⟩
  rintro ⟨p, hmade, hobject⟩
  exact ⟨p, hl.made hmade, hobject⟩

/-- Nobody who has the id cancels a timer still in the hands of a thread, and
nothing but a cancel or the end of `handleRead` deletes one. -/
theorem Inv.loop (hi : Inv h) (hen : h.timers.Enabled a) (hs : h.inLoop a = .ok h')
    (hcancel : ∀ {addr m}, a = .cancelInLoop addr m → h.Public m)
    (hk : ∀ c p, (h.thread c).unread = some p → p.object ∉ h'.timers.queue.deleted) : Inv h' := by
  obtain ⟨t, ht, hs⟩ := bind_ok.mp hs
  cases hs
  have hl := Timers.later_step hen ht
  refine ⟨hi.timers.step hen ht, fun c p hp => hl.made (hi.made c p hp), hk, hi.apart,
    fun id hid => (hi.issued id hid).later hl, fun k hk => ?_, hi.sound⟩
  refine Public.later ?_ hl
  rcases Timers.canceling_step hen ht hk with hk | hk
  · exact hi.canceling k hk
  · exact hcancel hk

theorem Inv.user (hi : Inv h) (hen : h.timers.Enabled a) (hs : h.inLoop a = .ok h')
    (hcancel : ∀ {addr m}, a = .cancelInLoop addr m → h.Public m)
    (ha : ∀ clock, a ≠ .endRead clock) : Inv h' := by
  refine hi.loop hen hs hcancel fun c p hp => ?_
  obtain ⟨t, ht, hs⟩ := bind_ok.mp hs
  cases hs
  obtain ⟨u, hu⟩ := hi.live hp
  rcases hi.timers.live_step hen ht ha hu with hlive | ⟨heq, -, -⟩
  · exact (hi.timers.step hen ht).not_deleted hlive
  · exact absurd rfl ((hcancel heq).secret c p hp)

theorem Inv.endRead (hi : Inv h) (hen : h.timers.Enabled (.endRead clock))
    (hs : h.inLoop (.endRead clock) = .ok h') (he : h.Early (.endRead clock)) : Inv h' := by
  refine hi.loop hen hs (fun heq => by cases heq) fun c p hp => ?_
  obtain ⟨t', ht', hs⟩ := bind_ok.mp hs
  cases hs
  have hinv := hi.timers.step hen ht'
  obtain ⟨b, hb, hfate⟩ := hi.timers.fate hen ht'
  obtain ⟨t, ht⟩ := hi.live hp
  obtain ⟨hother, hback, -⟩ := hfate ht
  by_cases hmem : p ∈ b.done
  · -- it repeats, and nobody has an id to cancel it with
    obtain ⟨u, hu, hrepeats⟩ := he c p hp b hb hmem
    have htu : t = u := Option.some.inj (ht.1.symm.trans hu)
    refine hinv.not_deleted (hback hmem ⟨htu ▸ hrepeats, fun hk => ?_⟩)
    refine (hi.canceling _ hk).secret c p hp ?_
    exact ht.2.symm
  · exact hinv.not_deleted (hother hmem)

-- ---------------------------------------------------------------------------
-- The threads
-- ---------------------------------------------------------------------------

theorem unread_update (call : Call) (hp : (update h.thread c call d).unread = some p) :
    (d = c ∧ call.unread = some p) ∨ (d ≠ c ∧ (h.thread d).unread = some p) := by
  by_cases hd : d = c
  · subst hd
    rw [update_self] at hp
    exact .inl ⟨rfl, hp⟩
  · rw [update_of_ne hd] at hp
    exact .inr ⟨hd, hp⟩

theorem Sound.update (hs : Sound h) {call : Call}
    (hcall : ∀ p m, call = .returned p m → m = some p.object) (d : Fin n) (p : Ptr)
    (m : Option Nat) (hd : Function.update h.thread c call d = .returned p m) :
    m = some p.object := by
  by_cases hdc : d = c
  · subst hdc
    rw [update_self] at hd
    exact hcall p m hd
  · rw [update_of_ne hdc] at hd
    exact hs d p m hd

theorem Inv.thread (hi : Inv h) (ht : h'.timers = h.timers)
    (hu : ∀ c p, (h'.thread c).unread = some p → (h.thread c).unread = some p)
    (hid : ∀ i ∈ h'.issued, i ∈ h.issued ∨ h'.Public i.2) (hs : Sound h') : Inv h' := by
  have hpublic : ∀ {m}, h.Public m → h'.Public m := by
    intro m hm
    refine ⟨?_, fun c p hp => hm.secret c p (hu c p hp)⟩
    rw [ht]
    exact hm.made
  refine ⟨ht ▸ hi.timers, fun c p hp => ?_, fun c p hp => ?_, fun c d p w hp hw => ?_,
    fun i hm => ?_, fun k hk => ?_, hs⟩
  · rw [ht]
    exact hi.made c p (hu c p hp)
  · rw [ht]
    exact hi.kept c p (hu c p hp)
  · exact hi.apart c d p w (hu c p hp) (hu d w hw)
  · exact (hid i hm).elim (fun hold => hpublic (hi.issued i hold)) id
  · rw [ht] at hk
    exact hpublic (hi.canceling k hk)

theorem Public.le (hp : h.Public m) (hi : Inv h) : m ≤ h.timers.queue.numCreated := by
  obtain hzero | ⟨p, hmade, hobject⟩ := hp.made
  · rw [hzero]
    exact Nat.zero_le _
  · rw [← hobject]
    exact hi.timers.made_le hmade

theorem Inv.fresh (hi : Inv h) (hp : (h.thread c).unread = some p) :
    p.object ≠ h.timers.queue.numCreated + 1 :=
  Nat.ne_of_lt (Nat.lt_succ_of_le (hi.timers.made_le (hi.made c p hp)))

theorem Inv.newTimer (hi : Inv h) (hen : machine.enabled h (.newTimer c addr when interval))
    (hs : h.newTimer c addr when interval = .ok h') : Inv h' := by
  obtain ⟨t, ht, hs⟩ := bind_ok.mp hs
  cases hs
  have hinv := hi.timers.step
    (a := .new addr when interval.micros.toNat interval.positive) hen.2 ht
  have hl := Timers.later_step (a := .new addr when interval.micros.toNat interval.positive) hen.2 ht
  have hmade : t.queue.Made ⟨addr, t.queue.numCreated⟩ := by
    cases ht
    exact made_new
  have hnum : t.queue.numCreated = h.timers.queue.numCreated + 1 := by
    cases ht
    rfl
  have hdel : t.queue.deleted = h.timers.queue.deleted := by
    cases ht
    rfl
  have hcanceling : t.queue.cancelingTimers = h.timers.queue.cancelingTimers := by
    cases ht
    rfl
  have hhands : ∀ {d p}, (update h.thread c (.made ⟨addr, t.queue.numCreated⟩) d).unread = some p →
      (d = c ∧ p = ⟨addr, t.queue.numCreated⟩) ∨ (d ≠ c ∧ (h.thread d).unread = some p) := by
    intro d p hp
    exact (unread_update _ hp).imp_left fun hp => ⟨hp.1, (Option.some.inj hp.2).symm⟩
  have hpublic : ∀ {m}, h.Public m → ({ h with
      timers := t
      thread := update h.thread c (.made ⟨addr, t.queue.numCreated⟩) } : Handover n).Public m := by
    intro m hm
    refine ⟨(hm.later hl).made, fun d p hp => ?_⟩
    rcases hhands hp with ⟨-, rfl⟩ | ⟨-, hp⟩
    · rw [hnum]
      exact Nat.ne_of_gt (Nat.lt_succ_of_le (hm.le hi))
    · exact hm.secret d p hp
  refine ⟨hinv, fun d p hp => ?_, fun d p hp => ?_, fun d e p w hp hw heq => ?_,
    fun i hm => hpublic (hi.issued i hm), fun k hk => ?_, hi.sound.update fun _ _ h => by cases h⟩
  · rcases hhands hp with ⟨-, rfl⟩ | ⟨-, hp⟩
    · exact hmade
    · exact hl.made (hi.made d p hp)
  · rw [hdel]
    rcases hhands hp with ⟨-, rfl⟩ | ⟨-, hp⟩
    · rw [hnum]
      exact fun hgone => absurd (hi.timers.memory.gone hgone) (Nat.not_succ_le_self _)
    · exact hi.kept d p hp
  · rcases hhands hp with ⟨hd, rfl⟩ | ⟨-, hp⟩ <;> rcases hhands hw with ⟨he, rfl⟩ | ⟨-, hw⟩
    · exact hd.trans he.symm
    · exact absurd (heq.symm.trans hnum) (hi.fresh hw)
    · exact absurd (heq.trans hnum) (hi.fresh hp)
    · exact hi.apart d e p w hp hw heq
  · rw [hcanceling] at hk
    exact hpublic (hi.canceling k hk)

theorem Inv.runInLoop (hi : Inv h) (hc : h.thread c = .made p) : Inv (h.runInLoop c) := by
  simp only [Handover.runInLoop, hc]
  refine hi.thread rfl (fun d w hw => ?_) (fun i hm => .inl hm) (hi.sound.update fun _ _ h => by cases h)
  rcases unread_update _ hw with ⟨rfl, hq⟩ | ⟨-, hq⟩
  · rw [hc]
    exact hq
  · exact hq

theorem readSequence_live (ht : q.Live p t) : readSequence q p = some p.object := by
  rw [readSequence, ht.1, Option.map_some, ht.2]

theorem Inv.sequence (hi : Inv h) (hc : h.thread c = .queued p) : Inv (h.sequence c) := by
  have hunread : (h.thread c).unread = some p := by rw [hc, Call.unread]
  obtain ⟨t, ht⟩ := hi.live hunread
  simp only [Handover.sequence, hc, readSequence_live ht]
  have hhands : ∀ d w, (update h.thread c (.returned p (some p.object)) d).unread = some w →
      d ≠ c ∧ (h.thread d).unread = some w := by
    intro d w hw
    refine (unread_update _ hw).resolve_left ?_
    rintro ⟨-, hw⟩
    cases hw
  refine hi.thread rfl (fun d w hw => (hhands d w hw).2) (fun i hm => ?_)
    (hi.sound.update fun w m heq => ?_)
  · -- nobody else has the timer in his hands
    refine (List.mem_append.mp hm).imp_right fun hm => ?_
    rw [List.mem_singleton.mp hm]
    refine ⟨.inr ⟨p, hi.made c p hunread, rfl⟩, fun d w hw heq => ?_⟩
    obtain ⟨hne, hw⟩ := hhands d w hw
    exact hne (hi.apart d c w p hw hunread heq)
  · cases heq
    rfl

theorem Inv.addTimer (hi : Inv h) (hen : machine.enabled h (.addTimer addr clock when interval))
    (hs : h.addTimer addr clock when interval = .ok h') : Inv h' := by
  obtain ⟨t₁, ht₁, hs⟩ := bind_ok.mp hs
  obtain ⟨t₂, ht₂, hs⟩ := bind_ok.mp hs
  cases hs
  have hsame : t₁.batch = h.timers.batch ∧ (⟨addr, t₁.queue.numCreated⟩ : Ptr) ∈ t₁.pending ∧
      t₁.queue.numCreated = h.timers.queue.numCreated + 1 := by
    cases ht₁
    exact ⟨rfl, List.mem_append_right _ (List.mem_singleton_self _), rfl⟩
  obtain ⟨hbatch, hpending, hnum⟩ := hsame
  have hnew : Inv { h with timers := t₁ } :=
    hi.user (a := .new addr when interval.micros.toNat interval.positive) hen.2
      (bind_ok.mpr ⟨t₁, ht₁, rfl⟩) (fun heq => by cases heq) fun _ heq => by cases heq
  have huser : t₁.InUser := by
    rw [Timers.InUser, hbatch]
    exact hen.1
  have hadd : Inv { h with timers := t₂ } :=
    hnew.user (a := .addTimerInLoop ⟨addr, t₁.queue.numCreated⟩ clock) ⟨huser, hpending⟩
      (bind_ok.mpr ⟨t₂, ht₂, rfl⟩) (fun heq => by cases heq) fun _ heq => by cases heq
  refine hadd.thread rfl (fun c p hp => hp) (fun i hm => ?_) hadd.sound
  refine (List.mem_append.mp hm).imp_right fun hm => ?_
  obtain ⟨q, hq, ht₂⟩ := bind_ok.mp ht₂
  cases ht₂
  obtain ⟨u, q₁, hu, hinsert, hqeq⟩ := addTimerInLoop_ok hq
  have hlive : q.Live ⟨addr, t₁.queue.numCreated⟩ u := by
    obtain ⟨_, -, -, rfl⟩ := insert_ok hinsert
    rw [hqeq]
    split <;> exact hu
  simp only [readSequence_live hlive] at hm
  rw [List.mem_singleton.mp hm]
  refine ⟨.inr ⟨_, .inl ⟨u, hlive⟩, rfl⟩, fun c p hp => ?_⟩
  show p.object ≠ t₁.queue.numCreated
  rw [hnum]
  exact hi.fresh hp

-- ---------------------------------------------------------------------------
-- Runs
-- ---------------------------------------------------------------------------

theorem Inv.step (hi : Inv h) (hen : machine.enabled h a) (hs : machine.step h a = .ok h')
    (he : h.Early a) : Inv h' := by
  cases a with
  | newTimer c addr when interval => exact hi.newTimer hen hs
  | runInLoop c =>
    obtain ⟨p, -, hc⟩ := hen
    cases hs
    exact hi.runInLoop hc
  | sequence c =>
    obtain ⟨p, -, hc⟩ := hen
    cases hs
    exact hi.sequence hc
  | addTimer addr clock when interval => exact hi.addTimer hen hs
  | addTimerInLoop p clock =>
    exact hi.user (a := .addTimerInLoop p clock) ⟨Timers.inUser_outside hen.1, hen.2.1⟩ hs
      (fun heq => by cases heq) fun _ heq => by cases heq
  | cancelInLoop timerId =>
    refine hi.user (a := .cancelInLoop timerId.1 timerId.2) hen.1 hs (fun heq => ?_)
      fun _ heq => by cases heq
    cases heq
    exact hi.issued timerId hen.2
  | beginRead now readAt =>
    exact hi.user (a := .beginRead now readAt) hen hs (fun heq => by cases heq)
      fun _ heq => by cases heq
  | callback =>
    exact hi.user (a := .callback) hen hs (fun heq => by cases heq) fun _ heq => by cases heq
  | endRead clock => exact hi.endRead hen hs he

def Doomed (h : Handover n) : Prop :=
  ∃ c p, (h.thread c).unread = some p ∧ p.object ∈ h.timers.queue.deleted

theorem doomed (hi : Inv h) (hen : machine.enabled h a) (hs : machine.step h a = .ok h')
    (he : ¬h.Early a) : Doomed h' := by
  cases a with
  | endRead clock =>
    simp only [Early, not_forall] at he
    obtain ⟨c, p, hp, b, hb, hmem, hrepeats⟩ := he
    obtain ⟨t', ht', hs⟩ := bind_ok.mp hs
    cases hs
    obtain ⟨b', hb', hfate⟩ := hi.timers.fate hen ht'
    rw [show h.timers.batch = some b from hb] at hb'
    cases hb'
    obtain ⟨t, ht⟩ := hi.live hp
    refine ⟨c, p, hp, (hfate ht).gone hmem fun hreturns => hrepeats ⟨t, ht.1, hreturns.1⟩⟩
  | _ => exact absurd trivial he

/-- Its call will read the number of another timer, or none. -/
theorem Doomed.step (hd : Doomed h) (hi : h.timers.Inv) (hen : machine.enabled h a)
    (hs : machine.step h a = .ok h') (hsound : Sound h') : Doomed h' := by
  obtain ⟨c, p, hp, hdel⟩ := hd
  obtain ⟨as, hrun⟩ := step_run hen hs
  have hdel' := (Timers.later_run hrun).deleted hdel
  have hinLoop : ∀ {b}, h.inLoop b = .ok h' → Doomed h' := by
    intro b hs
    obtain ⟨t, -, hs⟩ := bind_ok.mp hs
    cases hs
    exact ⟨c, p, hp, hdel'⟩
  cases a with
  | newTimer d addr when interval =>
    obtain ⟨t, -, hs⟩ := bind_ok.mp hs
    cases hs
    have hne : c ≠ d := by
      rintro rfl
      rw [hen.1] at hp
      cases hp
    refine ⟨c, p, ?_, hdel'⟩
    simpa only [update_of_ne hne] using hp
  | runInLoop d =>
    obtain ⟨w, -, hc⟩ := hen
    cases hs
    refine ⟨c, p, ?_, hdel'⟩
    simp only [Handover.runInLoop, hc]
    by_cases hcd : c = d
    · subst hcd
      simp only [update_self]
      rwa [hc] at hp
    · simpa only [update_of_ne hcd] using hp
  | sequence d =>
    obtain ⟨w, -, hc⟩ := hen
    cases hs
    refine ⟨c, p, ?_, hdel'⟩
    by_cases hcd : c = d
    · subst hcd
      rw [hc] at hp
      cases hp
      have hread := hsound c p (readSequence h.timers.queue p) (by
        simp only [Handover.sequence, hc, update_self])
      obtain ⟨t, ht, hseq⟩ := Option.map_eq_some_iff.mp hread
      exact absurd (hseq ▸ hdel) (hi.memory.alive ht)
    · simp only [Handover.sequence, hc]
      simpa only [update_of_ne hcd] using hp
  | addTimer addr clock when interval =>
    obtain ⟨t₁, -, hs⟩ := bind_ok.mp hs
    obtain ⟨t₂, -, hs⟩ := bind_ok.mp hs
    cases hs
    exact ⟨c, p, hp, hdel'⟩
  | addTimerInLoop w clock => exact hinLoop hs
  | cancelInLoop timerId => exact hinLoop hs
  | beginRead now readAt => exact hinLoop hs
  | callback => exact hinLoop hs
  | endRead clock => exact hinLoop hs

theorem Doomed.run (hrun : machine.Run h as h') (hd : Doomed h) (hi : h.timers.Inv)
    (hs : machine.Holds Sound h as) : Doomed h' := by
  induction hrun with
  | nil => exact hd
  | cons ha hstep _ ih =>
    have hs' := hs.2 _ hstep
    exact ih (hd.step hi ha hstep hs'.here) (timers_keeps hi ha hstep) hs'

theorem sound_of_early (hrun : machine.Run h as h') (hi : Inv h)
    (hm : machine.Meets Early h as) : machine.Holds Sound h as := by
  induction hrun with
  | nil => exact hi.sound
  | cons ha hstep _ ih =>
    refine ⟨hi.sound, fun t ht => ?_⟩
    cases hstep.symm.trans ht
    exact ih (hi.step ha hstep hm.1) (hm.2 _ hstep)

theorem early_of_sound (hrun : machine.Run h as h') (hi : Inv h)
    (hend : ∀ c, (h'.thread c).unread = none) (hs : machine.Holds Sound h as) :
    machine.Meets Early h as := by
  induction hrun with
  | nil => trivial
  | @cons h a h₁ as h' ha hstep hrest ih =>
    have hs₁ := hs.2 h₁ hstep
    by_cases he : h.Early a
    · exact (Machine.meets_cons hstep).mpr ⟨he, ih (hi.step ha hstep he) hend hs₁⟩
    · -- then the call of some thread is still under way in the end
      have hdoomed := doomed hi ha hstep he
      obtain ⟨c, p, hp, -⟩ := hdoomed.run hrest (timers_keeps hi.timers ha hstep) hs₁
      rw [hend c] at hp
      cases hp

/-- Every call of `addTimer` finds the timer it made when no timer is deleted too
early, and when all calls have returned, only then. -/
theorem timerId_iff {as : List (Label n)} (h : machine.Run {} as h') :
    (machine.Meets Early {} as → machine.Holds Sound {} as) ∧
    ((∀ c, (h'.thread c).unread = none) → machine.Holds Sound {} as →
      machine.Meets Early {} as) :=
  ⟨sound_of_early h start_inv, early_of_sound h start_inv⟩

/-- The number is read before the timer runs. -/
theorem timerId_once : ∃ h : Handover 1, machine.Run {}
    [.newTimer 0 8 5 .zero, .runInLoop 0, .addTimerInLoop ⟨8, 1⟩ ⟨0, 0⟩, .sequence 0,
      .beginRead 9 9, .callback, .endRead ⟨9, 9⟩] h ∧ h.thread 0 = .returned ⟨8, 1⟩ (some 1) ∧
    machine.Holds (Sound (n := 1)) {}
      [.newTimer 0 8 5 .zero, .runInLoop 0, .addTimerInLoop ⟨8, 1⟩ ⟨0, 0⟩, .sequence 0,
        .beginRead 9 9, .callback, .endRead ⟨9, 9⟩] := by
  have hrun : ∃ h : Handover 1, machine.Run {}
      [.newTimer 0 8 5 .zero, .runInLoop 0, .addTimerInLoop ⟨8, 1⟩ ⟨0, 0⟩, .sequence 0,
        .beginRead 9 9, .callback, .endRead ⟨9, 9⟩] h ∧ h.thread 0 = .returned ⟨8, 1⟩ (some 1) :=
    Machine.exists_run (by decide +kernel)
  obtain ⟨h, hrun, hthread⟩ := hrun
  exact ⟨h, hrun, hthread, (timerId_iff hrun).1 (by decide +kernel)⟩

/-- The loop runs the timer and deletes it before its maker has read the number,
and another thread makes a timer at the address. -/
theorem timerId_reused : ∃ h : Handover 2, machine.Run {}
    [.newTimer 0 8 5 .zero, .runInLoop 0, .addTimerInLoop ⟨8, 1⟩ ⟨0, 0⟩, .beginRead 9 9, .callback,
      .endRead ⟨9, 9⟩, .newTimer 1 8 20 .zero, .sequence 0] h ∧
    h.thread 0 = .returned ⟨8, 1⟩ (some 2) ∧ ¬Sound h := by
  have hrun : ∃ h : Handover 2, machine.Run {}
      [.newTimer 0 8 5 .zero, .runInLoop 0, .addTimerInLoop ⟨8, 1⟩ ⟨0, 0⟩, .beginRead 9 9,
        .callback, .endRead ⟨9, 9⟩, .newTimer 1 8 20 .zero, .sequence 0] h ∧
      h.thread 0 = .returned ⟨8, 1⟩ (some 2) :=
    Machine.exists_run (by decide +kernel)
  obtain ⟨h, hrun, hthread⟩ := hrun
  refine ⟨h, hrun, hthread, fun hsound => ?_⟩
  cases hsound 0 _ _ hthread

end Muduo.Handover
