import Muduo.Net.TimerLoop
import Muduo.Net.TimerMoves

/-!
# What a cancel stops

A cancelled timer is deleted, or it is in the batch with its callback started and
noted in `cancelingTimers_`, for `reset` to delete. That leaves out the timers a
cancel finds in neither place: those whose turn in the batch is still to come, and
those that wait in the queue of functors.
-/

namespace Muduo

open Lib TimerQueue

-- ---------------------------------------------------------------------------
-- The queue
-- ---------------------------------------------------------------------------

namespace Timers

variable {t t' : Timers} {p : Ptr}

/-- The timers of the batch whose callbacks are still to be started. -/
def due (t : Timers) : List Ptr :=
  match t.batch with
  | none => []
  | some b => b.rest

/-- No callback of `p` is to come. -/
def Void (t : Timers) (p : Ptr) : Prop :=
  p.object = 0 ∨ p.object ∈ t.queue.deleted ∨
    ∃ b ∈ t.batch, p ∈ b.done ∧ toLex (p.addr, p.object) ∈ t.queue.cancelingTimers

theorem Void.mono (h : t.Void p) (hl : Later t.queue t'.queue)
    (hb : ∀ b ∈ t.batch, p ∈ b.done → toLex (p.addr, p.object) ∈ t.queue.cancelingTimers →
      t'.Void p) : t'.Void p := by
  obtain h | h | ⟨b, hbatch, hp, hc⟩ := h
  · exact .inl h
  · exact .inr (.inl (hl.deleted h))
  · exact hb b hbatch hp hc

theorem Void.user (h : t.Void p) (hl : Later t.queue t'.queue) (hc : Calling t.queue t'.queue)
    (hb : t'.batch = t.batch) : t'.Void p :=
  h.mono hl fun b hbatch hp hk => .inr (.inr ⟨b, hb ▸ hbatch, hp, hc.canceling hk⟩)

theorem Void.not_next (h : t.Void p) (hi : t.Inv) (hb : t.batch = some ⟨done, w :: rest, now⟩)
    (hw : t.queue.Live w u) : p.object ≠ u.sequence := by
  intro heq
  obtain hzero | hdel | ⟨b, hbatch, hp, -⟩ := h
  · have hborn := (hi.memory.born hw.1).1
    omega
  · rw [heq] at hdel
    exact hi.memory.alive hw.1 hdel
  · rw [hb] at hbatch
    cases hbatch
    unfold Inv expired at hi
    rw [hb] at hi
    obtain ⟨v, hv⟩ := hi.live p (by simp [hp])
    obtain ⟨rfl, -⟩ := hv.unique hw (hi.memory.unique hv.1 hw.1 (hv.2.trans heq))
    have hnodup := hi.nodup
    simp only [List.append_assoc, List.cons_append] at hnodup
    exact List.disjoint_of_nodup_append hnodup hp List.mem_cons_self

theorem not_made_next (hi : t.Inv) (addr : Nat) :
    ¬t.queue.Made ⟨addr, t.queue.numCreated + 1⟩ := by
  rintro (⟨u, hu⟩ | hd)
  · have hborn := (hi.memory.born hu.1).2
    rw [hu.2] at hborn
    exact absurd hborn (Nat.not_succ_le_self _)
  · exact absurd (hi.memory.gone hd) (Nat.not_succ_le_self _)

/-- `cancelInLoop` finds a timer in the sets or in the batch. -/
theorem cancelInLoop_void (hi : t.Inv)
    (hcalling : t.batch.isSome → t.queue.callingExpiredTimers)
    (hmade : p.object = 0 ∨ t.queue.Made p) (hdue : p ∉ t.due) (hpending : p ∉ t.pending)
    (h : t.queue.cancelInLoop (toLex (p.addr, p.object)) = .ok q') :
    ({ t with queue := q' } : Timers).Void p := by
  obtain hzero | ⟨u, hu⟩ | hdel := hmade
  · exact .inl hzero
  · obtain ⟨w, v, hfind, hv, rfl⟩ | ⟨hnone, rfl⟩ := cancelInLoop_ok h
    · obtain ⟨v', hv', -, hkey⟩ := (hi.active _ w).mp hfind
      have hsame : activeTimer p u = activeTimer w v' := by rw [← hkey, activeTimer, hu.2]
      obtain ⟨rfl, -⟩ := hu.unique hv' (activeTimer_addressed hsame)
      exact .inr (.inl (List.mem_append_right _ (List.mem_singleton_self _)))
    · -- it is in neither set, so it is in the batch
      have haway : p ∈ t.expired ++ t.pending := by
        by_contra haway
        have hfind := (hi.active (activeTimer p u) p).mpr ⟨u, hu, haway, rfl⟩
        rw [activeTimer, hu.2, hnone] at hfind
        cases hfind
      rcases List.mem_append.mp haway with hexp | hp
      · unfold expired at hexp
        unfold due at hdue
        cases hb : t.batch with
        | none => simp [hb] at hexp
        | some b =>
          simp only [hb, List.mem_append] at hexp hdue
          have hcall := hcalling (by simp [hb])
          refine .inr (.inr ⟨b, rfl, hexp.resolve_right hdue, ?_⟩)
          simp only [hcall, if_true]
          exact OrdSet.mem_add.mpr (.inl rfl)
      · exact absurd hp hpending
  · exact .inr (.inl ((later_cancelInLoop h).deleted hdel))

end Timers

-- ---------------------------------------------------------------------------
-- The timers and the ids
-- ---------------------------------------------------------------------------

namespace TimerLoop

variable {l l' : TimerLoop} {t t' : Timers} {issued : List Ptr} {canceled : List Cancel}

/-- No callback was started after `cancelInLoop` executed for its timer. -/
def Effective (l : TimerLoop) : Prop :=
  ∀ c ∈ l.canceled, c.timerId.object ∉ l.timers.started.drop c.started

structure Sound (t : Timers) (issued : List Ptr) (canceled : List Cancel) : Prop where
  inv : t.Inv
  calling : t.batch.isSome → t.queue.callingExpiredTimers
  made : ∀ p ∈ issued, p.object = 0 ∨ t.queue.Made p
  void : ∀ c ∈ canceled, t.Void c.timerId
  past : ∀ c ∈ canceled, c.started ≤ t.started.length
  effective : ∀ c ∈ canceled, c.timerId.object ∉ t.started.drop c.started

theorem Sound.later (h : Sound t issued canceled) (hi : t'.Inv) (hl : Later t.queue t'.queue)
    (hc : t'.batch.isSome → t'.queue.callingExpiredTimers)
    (hv : ∀ p, t.Void p → t'.Void p) (hs : t'.started = t.started) : Sound t' issued canceled :=
  ⟨hi, hc, fun p hp => (h.made p hp).imp_right hl.made, fun c hc => hv _ (h.void c hc),
    fun c hc => by rw [hs]; exact h.past c hc, fun c hc => by rw [hs]; exact h.effective c hc⟩

theorem Sound.user (h : Sound t issued canceled) (hi : t'.Inv) (hl : Later t.queue t'.queue)
    (hc : Calling t.queue t'.queue) (hb : t'.batch = t.batch) (hs : t'.started = t.started) :
    Sound t' issued canceled := by
  refine h.later hi hl (fun hsome => ?_) (fun p hp => hp.user hl hc hb) hs
  rw [hc.calling]
  exact h.calling (hb ▸ hsome)

theorem Sound.new (h : Sound t issued canceled)
    (hen : t.Enabled (.new addr expiration interval repeats))
    (hstep : t.step (.new addr expiration interval repeats) = .ok t') :
    Sound t' issued canceled ∧ t'.queue.Made ⟨addr, t'.queue.numCreated⟩ ∧
      t'.queue.numCreated = t.queue.numCreated + 1 ∧
      t'.pending = t.pending ++ [⟨addr, t'.queue.numCreated⟩] ∧ t'.batch = t.batch := by
  have hi := h.inv.step hen hstep
  cases hstep
  exact ⟨h.user hi (later_new hen) ⟨rfl, id⟩ rfl rfl, made_new, rfl, rfl, rfl⟩

theorem Sound.addTimerInLoop (h : Sound t issued canceled)
    (hen : t.Enabled (.addTimerInLoop p clock))
    (hstep : t.step (.addTimerInLoop p clock) = .ok t') :
    Sound t' issued canceled ∧ t'.pending = t.pending.erase p ∧ t'.batch = t.batch ∧
      Later t.queue t'.queue := by
  have hi := h.inv.step hen hstep
  obtain ⟨q, hq, hstep⟩ := bind_ok.mp hstep
  cases pure_ok.mp hstep
  have hlater := later_addTimerInLoop hq
  exact ⟨h.user hi hlater (calling_addTimerInLoop hq) rfl rfl, rfl, rfl, hlater⟩

theorem Sound.cancelInLoop (h : Sound t issued canceled)
    (hen : t.Enabled (.cancelInLoop p.addr p.object)) (hp : p ∈ issued) (hdue : p ∉ t.due)
    (hpending : p ∉ t.pending) (hstep : t.step (.cancelInLoop p.addr p.object) = .ok t') :
    Sound t' issued (canceled ++ [⟨p, t'.started.length⟩]) ∧ t'.pending = t.pending ∧
      t'.batch = t.batch := by
  have hi := h.inv.step hen hstep
  obtain ⟨q, hq, hstep⟩ := bind_ok.mp hstep
  cases pure_ok.mp hstep
  have hvoid := Timers.cancelInLoop_void h.inv h.calling (h.made p hp) hdue hpending hq
  have hsound : Sound { t with queue := q } issued canceled :=
    h.user hi (later_cancelInLoop hq) (calling_cancelInLoop hq) rfl rfl
  refine ⟨⟨hsound.inv, hsound.calling, hsound.made, ?_, ?_, ?_⟩, rfl, rfl⟩
  · exact List.forall_mem_append.mpr ⟨hsound.void, List.forall_mem_singleton.mpr hvoid⟩
  · exact List.forall_mem_append.mpr ⟨hsound.past, List.forall_mem_singleton.mpr (le_refl _)⟩
  · refine List.forall_mem_append.mpr ⟨hsound.effective, List.forall_mem_singleton.mpr ?_⟩
    rw [List.drop_length]
    exact List.not_mem_nil

theorem Sound.beginRead (h : Sound t issued canceled) (hen : t.Enabled (.beginRead now readAt))
    (hstep : t.step (.beginRead now readAt) = .ok t') :
    Sound t' issued canceled ∧ t'.pending = t.pending := by
  have hi := h.inv.step hen hstep
  have hlater := Timers.later_step hen hstep
  obtain ⟨active, fd, rfl⟩ := Timers.beginRead_step hstep
  refine ⟨h.later hi hlater (fun _ => rfl) (fun p hp => ?_) rfl, rfl⟩
  refine hp.mono hlater fun b hb => ?_
  rw [Option.isNone_iff_eq_none.mp hen] at hb
  cases hb

theorem Sound.callback (h : Sound t issued canceled) (hen : t.Enabled .callback)
    (hstep : t.step .callback = .ok t') : Sound t' issued canceled ∧ t'.pending = t.pending := by
  have hi := h.inv.step hen hstep
  obtain ⟨done, w, rest, now, u, hb, hu, rfl⟩ := Timers.callback_ok hen hstep
  refine ⟨⟨hi, fun _ => h.calling (by simp [hb]), h.made, fun c hc => ?_, fun c hc => ?_,
    fun c hc => ?_⟩, rfl⟩
  · refine (h.void c hc).mono .rfl fun b hbatch hp hk => .inr (.inr ⟨_, rfl, ?_, hk⟩)
    rw [hb] at hbatch
    cases hbatch
    exact List.mem_append_left _ hp
  · exact (h.past c hc).trans (by simp)
  · rw [List.drop_append_of_le_length (h.past c hc), List.mem_append, not_or]
    refine ⟨h.effective c hc, fun hmem => ?_⟩
    exact (h.void c hc).not_next h.inv hb hu ((List.mem_singleton.mp hmem).trans hu.2.symm)

theorem Sound.endRead (h : Sound t issued canceled) (hen : t.Enabled (.endRead clock))
    (hstep : t.step (.endRead clock) = .ok t') :
    Sound t' issued canceled ∧ t'.pending = t.pending := by
  have hi := h.inv.step hen hstep
  have hlater := Timers.later_step hen hstep
  obtain ⟨done, now, q, hb, hq, rfl⟩ := Timers.endRead_step hen hstep
  refine ⟨h.later hi hlater (fun hsome => by cases hsome) (fun p hp => ?_) rfl, rfl⟩
  refine hp.mono hlater fun b' hb' hdone hk => ?_
  rw [hb] at hb'
  cases hb'
  exact .inr (.inl (endRead_canceled hq hdone hk))

-- ---------------------------------------------------------------------------
-- The functors
-- ---------------------------------------------------------------------------

def queued (l : TimerLoop) : List Functor := l.functors.getD [] ++ l.pendingFunctors

def adds (functors : List Functor) : List Ptr :=
  functors.filterMap fun
    | .addTimerInLoop timer => some timer
    | .cancelInLoop _ => none

theorem mem_adds {fs : List Functor} : p ∈ adds fs ↔ .addTimerInLoop p ∈ fs := by
  simp only [adds, List.mem_filterMap]
  constructor
  · rintro ⟨f, hf, hp⟩
    cases f with
    | addTimerInLoop timer =>
      cases hp
      exact hf
    | cancelInLoop _ => cases hp
  · exact fun hp => ⟨_, hp, rfl⟩

theorem adds_append (fs gs : List Functor) : adds (fs ++ gs) = adds fs ++ adds gs :=
  List.filterMap_append

/-- What is queued behind a cancel does not add its timer. -/
def InOrder (f g : Functor) : Prop := ∀ p, f = .cancelInLoop p → g ≠ .addTimerInLoop p

structure Inv (l : TimerLoop) : Prop where
  sound : Sound l.timers l.issued l.canceled
  pending : l.timers.pending = adds l.queued
  order : l.queued.Pairwise InOrder
  issued : ∀ p, .cancelInLoop p ∈ l.queued → p ∈ l.issued
  turn : l.functors.isSome → l.timers.batch = none

/-- A cancel on the loop thread finds the timer in the sets, or its callback
started. -/
def Reaches (l : TimerLoop) : Label → Prop
  | .cancel true timerId => timerId ∉ l.timers.due ∧ timerId ∉ l.timers.pending
  | _ => True

theorem Sound.issue (h : Sound t issued canceled) (hp : t.queue.Made p) :
    Sound t (issued ++ [p]) canceled :=
  ⟨h.inv, h.calling,
    List.forall_mem_append.mpr ⟨h.made, List.forall_mem_singleton.mpr (.inr hp)⟩, h.void, h.past,
    h.effective⟩

theorem Sound.fresh (h : Sound t issued canceled) (addr : Nat) :
    ⟨addr, t.queue.numCreated + 1⟩ ∉ issued :=
  fun hp => (h.made _ hp).elim (Nat.succ_ne_zero _) (Timers.not_made_next h.inv addr)

theorem inUser_congr (hb : t'.batch = t.batch) : t'.InUser ↔ t.InUser := by
  unfold Timers.InUser
  rw [hb]

theorem Inv.push (h : Inv l) (cb : Functor) (hs : Sound l'.timers l'.issued l'.canceled)
    (hadd : l'.timers.pending = l.timers.pending ++ adds [cb])
    (hb : l'.timers.batch = l.timers.batch) (hi : ∀ p ∈ l.issued, p ∈ l'.issued)
    (hcb : ∀ f ∈ l.queued, InOrder f cb) (hcancel : ∀ p, cb = .cancelInLoop p → p ∈ l'.issued)
    (hf : l'.functors = l.functors) (hp : l'.pendingFunctors = l.pendingFunctors ++ [cb]) :
    Inv l' := by
  have hqueued : l'.queued = l.queued ++ [cb] := by
    rw [queued, queued, hf, hp, List.append_assoc]
  refine ⟨hs, ?_, ?_, fun p hp => ?_, fun hsome => ?_⟩
  · rw [hadd, h.pending, hqueued, adds_append]
  · rw [hqueued]
    refine List.pairwise_append.mpr ⟨h.order, List.pairwise_singleton _ _, fun f hf g hg => ?_⟩
    rw [List.mem_singleton.mp hg]
    exact hcb f hf
  · rw [hqueued] at hp
    rcases List.mem_append.mp hp with hp | hp
    · exact hi p (h.issued p hp)
    · exact hcancel p (List.mem_singleton.mp hp).symm
  · rw [hb]
    exact h.turn (hf ▸ hsome)

theorem Inv.addTimer (h : Inv l) (hcalls : l.Calls inLoop) (hf : l.timers.queue.Free addr)
    (hstep : l.addTimer inLoop addr clock when interval = .ok l') : Inv l' := by
  obtain ⟨t, hnew, hstep⟩ := bind_ok.mp hstep
  obtain ⟨l₁, hrun, hstep⟩ := bind_ok.mp hstep
  cases pure_ok.mp hstep
  have hfresh := h.sound.fresh addr
  obtain ⟨hsound, hmade, hnum, hpending, hbatch⟩ := h.sound.new hf hnew
  rw [← hnum] at hfresh
  unfold runInLoop at hrun
  split at hrun
  · rename_i hloop
    obtain ⟨t', hadd, hrun⟩ := bind_ok.mp hrun
    cases pure_ok.mp hrun
    have hen : t.Enabled (.addTimerInLoop ⟨addr, t.queue.numCreated⟩ clock) :=
      ⟨(inUser_congr hbatch).mpr (hcalls hloop), by simp [hpending]⟩
    have hnot : (⟨addr, t.queue.numCreated⟩ : Ptr) ∉ l.timers.pending := by
      have hnodup := (List.nodup_append.mp hsound.inv.nodup).2.1
      rw [hpending] at hnodup
      exact fun hp => (List.nodup_append.mp hnodup).2.2 _ hp _ (List.mem_singleton_self _) rfl
    obtain ⟨hsound, herase, hbatch', hlater⟩ := hsound.addTimerInLoop hen hadd
    refine ⟨hsound.issue (hlater.made hmade), ?_, h.order,
      fun p hp => List.mem_append_left _ (h.issued p hp), fun hs => ?_⟩
    · show t'.pending = adds l.queued
      rw [herase, hpending, List.erase_append_right _ hnot, List.erase_cons_head, List.append_nil,
        h.pending]
    · exact (hbatch'.trans hbatch).trans (h.turn hs)
  · cases pure_ok.mp hrun
    refine h.push (.addTimerInLoop ⟨addr, t.queue.numCreated⟩) (hsound.issue hmade) hpending
      hbatch (fun p hp => List.mem_append_left _ hp) (fun f hf p hp hadd => ?_)
      (fun p hp => by cases hp) rfl rfl
    cases hadd
    exact hfresh (h.issued _ (hp ▸ hf))

theorem Inv.cancelInLoop (h : Inv l) (huser : l.timers.InUser) (hp : p ∈ l.issued)
    (hdue : p ∉ l.timers.due) (hpending : p ∉ l.timers.pending)
    (hrun : l.call clock (.cancelInLoop p) = .ok l') : Inv l' := by
  obtain ⟨t, hcancel, hrun⟩ := bind_ok.mp hrun
  cases pure_ok.mp hrun
  obtain ⟨hsound, hpend, hbatch⟩ := h.sound.cancelInLoop huser hp hdue hpending hcancel
  exact ⟨hsound, hpend.trans h.pending, h.order, h.issued, fun hs => hbatch.trans (h.turn hs)⟩

theorem Inv.cancel (h : Inv l) (hcalls : l.Calls inLoop) (hp : p ∈ l.issued)
    (hreach : l.Reaches (.cancel inLoop p)) (hstep : l.cancel inLoop p = .ok l') : Inv l' := by
  unfold TimerLoop.cancel runInLoop at hstep
  split at hstep
  · rename_i hloop
    cases hloop
    exact h.cancelInLoop (hcalls rfl) hp hreach.1 hreach.2 hstep
  · cases pure_ok.mp hstep
    refine h.push (.cancelInLoop p) h.sound (List.append_nil _).symm rfl (fun _ => id)
      (fun f _ w _ hadd => by cases hadd) (fun w hw => ?_) rfl rfl
    cases hw
    exact hp

theorem Inv.doPendingFunctors (h : Inv l) (hb : l.timers.batch.isNone) (hf : l.functors.isNone) :
    Inv { l with functors := some l.pendingFunctors, pendingFunctors := [] } := by
  have hqueued : queued { l with functors := some l.pendingFunctors, pendingFunctors := [] } =
      l.queued := by
    simp [queued, Option.isNone_iff_eq_none.mp hf]
  refine ⟨h.sound, ?_, ?_, ?_, fun _ => Option.isNone_iff_eq_none.mp hb⟩
  · rw [hqueued]
    exact h.pending
  · rw [hqueued]
    exact h.order
  · rw [hqueued]
    exact h.issued

theorem Inv.functor (h : Inv l) (hf : l.functors = some (cb :: fs))
    (hrun : call { l with functors := some fs } clock cb = .ok l') : Inv l' := by
  have hqueued : l.queued = cb :: queued { l with functors := some fs } := by
    simp [queued, hf]
  have hbatch : l.timers.batch = none := h.turn (by simp [hf])
  have huser : l.timers.InUser := Timers.inUser_outside (by simp [hbatch])
  have hpending := h.pending
  have horder := h.order
  have hissued := h.issued
  rw [hqueued] at hpending horder hissued
  obtain ⟨hhead, htail⟩ := List.pairwise_cons.mp horder
  cases cb with
  | addTimerInLoop p =>
    obtain ⟨t, hadd, hrun⟩ := bind_ok.mp hrun
    cases pure_ok.mp hrun
    have hen : l.timers.Enabled (.addTimerInLoop p clock) :=
      ⟨huser, by rw [hpending]; exact List.mem_cons_self⟩
    obtain ⟨hsound, herase, hbatch', -⟩ := h.sound.addTimerInLoop hen hadd
    refine ⟨hsound, ?_, htail, fun p hp => hissued p (List.mem_cons_of_mem _ hp),
      fun _ => hbatch'.trans hbatch⟩
    rw [herase, hpending]
    exact List.erase_cons_head ..
  | cancelInLoop p =>
    have hinv : Inv { l with functors := some fs } :=
      ⟨h.sound, hpending, htail, fun p hp => hissued p (List.mem_cons_of_mem _ hp),
        fun _ => hbatch⟩
    refine hinv.cancelInLoop huser (hissued p List.mem_cons_self) ?_ ?_ hrun
    · simp [Timers.due, hbatch]
    · -- the timer was added before the cancel was queued
      rw [hinv.pending, mem_adds]
      exact fun hp => hhead _ hp p rfl rfl

theorem Inv.endFunctors (h : Inv l) (hf : l.functors = some []) :
    Inv { l with functors := none } := by
  have hqueued : queued { l with functors := none } = l.queued := by
    simp [queued, hf]
  refine ⟨h.sound, ?_, ?_, ?_, by simp⟩
  · rw [hqueued]
    exact h.pending
  · rw [hqueued]
    exact h.order
  · rw [hqueued]
    exact h.issued

theorem Inv.read (h : Inv l) (hs : Sound t l.issued l.canceled) (hp : t.pending = l.timers.pending)
    (hf : l.functors = none) : Inv { l with timers := t } := by
  refine ⟨hs, hp.trans h.pending, h.order, h.issued, fun hsome => ?_⟩
  simp [hf] at hsome

theorem Inv.reading (h : Inv l) (hb : l.timers.batch = some b) : l.functors = none := by
  by_contra hf
  have hnone := h.turn (Option.isSome_iff_ne_none.mpr hf)
  rw [hb] at hnone
  cases hnone

theorem inv_keeps : (machine.restrict Reaches).Keeps Inv := by
  intro l label l' h hen hstep
  obtain ⟨hen, hreach⟩ := hen
  cases label with
  | runAt inLoop addr clock time => exact h.addTimer hen.1 hen.2 hstep
  | runAfter inLoop addr clock now delay => exact h.addTimer hen.1 hen.2 hstep
  | runEvery inLoop addr clock now interval => exact h.addTimer hen.1 hen.2 hstep
  | cancel inLoop timerId => exact h.cancel hen.1 hen.2 hreach hstep
  | doPendingFunctors =>
    cases hstep
    exact h.doPendingFunctors hen.1 hen.2
  | functor clock =>
    obtain ⟨functors, hf, hne⟩ := hen
    cases functors with
    | nil => exact absurd rfl hne
    | cons cb fs =>
      have hf : l.functors = some (cb :: fs) := hf
      have hstep : l.step (.functor clock) = .ok l' := hstep
      simp only [step, hf] at hstep
      exact h.functor hf hstep
  | endFunctors =>
    cases hstep
    obtain ⟨functors, hf, rfl⟩ := hen
    exact h.endFunctors hf
  | beginRead now readAt =>
    obtain ⟨t, hread, hstep⟩ := bind_ok.mp hstep
    cases pure_ok.mp hstep
    obtain ⟨hs, hp⟩ := h.sound.beginRead hen.1 hread
    exact h.read hs hp (Option.isNone_iff_eq_none.mp hen.2)
  | callback =>
    obtain ⟨t, hread, hstep⟩ := bind_ok.mp hstep
    cases pure_ok.mp hstep
    obtain ⟨hs, hp⟩ := h.sound.callback hen hread
    obtain ⟨b, hb, -⟩ := hen
    exact h.read hs hp (h.reading hb)
  | endRead clock =>
    obtain ⟨t, hread, hstep⟩ := bind_ok.mp hstep
    cases pure_ok.mp hstep
    obtain ⟨hs, hp⟩ := h.sound.endRead hen hread
    obtain ⟨b, hb, -⟩ := hen
    exact h.read hs hp (h.reading hb)

theorem start_inv : Inv {} :=
  ⟨⟨Timers.start_inv, by simp, by simp, by simp, by simp, by simp⟩, by rfl, .nil,
    fun _ hp => (List.not_mem_nil hp).elim, fun _ => rfl⟩

instance (l : TimerLoop) : Decidable l.Effective :=
  inferInstanceAs (Decidable (∀ c ∈ l.canceled, _))

instance (l : TimerLoop) (a : Label) : Decidable (l.Reaches a) :=
  match a with
  | .runAt .. => isTrue trivial
  | .runAfter .. => isTrue trivial
  | .runEvery .. => isTrue trivial
  | .cancel true _ => inferInstanceAs (Decidable (_ ∧ _))
  | .cancel false _ => isTrue trivial
  | .doPendingFunctors => isTrue trivial
  | .functor _ => isTrue trivial
  | .endFunctors => isTrue trivial
  | .beginRead _ _ => isTrue trivial
  | .callback => isTrue trivial
  | .endRead _ => isTrue trivial

theorem cancel_effective (h : machine.Run {} labels l) (hm : machine.Meets Reaches {} labels) :
    l.Effective :=
  ((h.restrict hm).keeps inv_keeps start_inv).sound.effective

/-- A timer that repeats cancels itself, one is cancelled by another thread while
it waits in the queue of functors, and one on the loop thread. -/
theorem cancel_effective_repeating : ∃ l, machine.Run {}
    [.runEvery true 8 ⟨0, 0⟩ 0 ⟨5, true, by decide⟩, .runAt false 16 ⟨0, 0⟩ 5,
      .cancel false ⟨16, 2⟩, .runAt true 24 ⟨0, 0⟩ 6, .doPendingFunctors, .functor ⟨0, 0⟩,
      .functor ⟨0, 0⟩, .endFunctors, .beginRead 5 5, .callback, .cancel true ⟨8, 1⟩, .endRead ⟨5, 5⟩, .cancel true ⟨24, 3⟩,
      .beginRead 20 20, .endRead ⟨20, 20⟩] l ∧
    l.canceled = [⟨⟨16, 2⟩, 0⟩, ⟨⟨8, 1⟩, 1⟩, ⟨⟨24, 3⟩, 1⟩] ∧ l.timers.started = [1] ∧
    l.Effective := by
  have hrun : ∃ l, machine.Run {}
      [.runEvery true 8 ⟨0, 0⟩ 0 ⟨5, true, by decide⟩, .runAt false 16 ⟨0, 0⟩ 5,
        .cancel false ⟨16, 2⟩, .runAt true 24 ⟨0, 0⟩ 6, .doPendingFunctors, .functor ⟨0, 0⟩,
        .functor ⟨0, 0⟩, .endFunctors, .beginRead 5 5, .callback, .cancel true ⟨8, 1⟩, .endRead ⟨5, 5⟩, .cancel true ⟨24, 3⟩,
        .beginRead 20 20, .endRead ⟨20, 20⟩] l ∧
      l.canceled = [⟨⟨16, 2⟩, 0⟩, ⟨⟨8, 1⟩, 1⟩, ⟨⟨24, 3⟩, 1⟩] ∧ l.timers.started = [1] :=
    Machine.exists_run (by decide +kernel)
  obtain ⟨l, hl, hcanceled, hstarted⟩ := hrun
  exact ⟨l, hl, hcanceled, hstarted, cancel_effective hl (by decide +kernel)⟩

/-- A callback cancels a timer of its own batch, and the loop thread one whose
`addTimerInLoop` is queued. -/
theorem cancel_missed :
    (∃ l, machine.Run {}
      [.runAt true 8 ⟨0, 0⟩ 5, .runAt true 16 ⟨0, 0⟩ 5, .beginRead 7 7, .callback,
        .cancel true ⟨16, 2⟩, .callback] l ∧ ¬l.Effective) ∧
    (∃ l, machine.Run {}
      [.runAt false 8 ⟨0, 0⟩ 5, .cancel true ⟨8, 1⟩, .doPendingFunctors, .functor ⟨0, 0⟩,
        .endFunctors, .beginRead 7 7, .callback] l ∧ ¬l.Effective) :=
  ⟨Machine.exists_run (by decide +kernel), Machine.exists_run (by decide +kernel)⟩

end TimerLoop

end Muduo
