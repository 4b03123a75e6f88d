import Muduo.Net.EventLoopThread
import Muduo.Net.Wakeup

/-!
# The loop pointer

The destructor of an `EventLoopThread` uses `loop_` without a look at it. It
finds the loop there if `startLoop` has returned and nobody else has called
`quit()` (`loop_valid`). When someone has, the loop may end before the
destructor comes.
-/

namespace Muduo

open Lib

-- ---------------------------------------------------------------------------
-- What a step of the loop does to its end
-- ---------------------------------------------------------------------------

namespace EventLoop

variable {l l' : EventLoop}

def Label.CallsQuit : Label → Prop
  | .quit => True
  | .setQuit _ => True
  | _ => False

instance : ∀ a : Label, Decidable a.CallsQuit
  | .quit | .setQuit _ => .isTrue trivial
  | .loop | .test | .poll | .pollReturn | .handleRead | .doPendingFunctors | .swap | .functor
  | .endFunctors | .queueInLoop | .push _ | .wakeup _ => .isFalse id

/-- Not a step of `loop()` itself. -/
def Label.IsCall : Label → Prop
  | .push _ => True
  | .setQuit _ => True
  | .wakeup _ => True
  | .queueInLoop => True
  | .quit => True
  | _ => False

theorem step_quit_iff (h : step l a = .ok l') :
    l'.quit = true ↔ l.quit = true ∨ a.CallsQuit := by
  cases a with
  | loop =>
    obtain ⟨-, -, h⟩ := bind_ok.mp h
    cases h
    simp [Label.CallsQuit]
  | test =>
    simp only [step] at h
    split at h <;> cases h <;> simp [Label.CallsQuit]
  | functor =>
    simp only [step] at h
    split at h <;> cases h <;> simp [Label.CallsQuit]
  | queueInLoop =>
    cases h
    split <;> simp [Label.CallsQuit, EventLoop.wakeup, pushBack]
  | _ =>
    cases h
    simp [Label.CallsQuit, EventLoop.wakeup, pushBack, setThread]

theorem step_out (h : step l a = .ok l') (ha : a ≠ .loop) (hpc : l'.pc = .out) :
    l.pc = .out ∨ l'.quit = true := by
  cases a with
  | loop => exact absurd rfl ha
  | test =>
    simp only [step] at h
    split at h
    · rename_i hq
      cases h
      exact .inr hq
    · cases h
      cases hpc
  | functor =>
    simp only [step] at h
    split at h <;> cases h <;> exact .inl hpc
  | queueInLoop =>
    cases h
    split at hpc <;> exact .inl hpc
  | quit => exact .inr ((step_quit_iff h).mpr (.inr trivial))
  | setQuit t => exact .inr ((step_quit_iff h).mpr (.inr trivial))
  | push t =>
    cases h
    exact .inl hpc
  | wakeup t =>
    cases h
    exact .inl hpc
  | _ =>
    cases h
    cases hpc

theorem call_pc (h : step l a = .ok l') (hcall : a.IsCall) : l'.pc = l.pc := by
  cases a with
  | queueInLoop =>
    cases h
    split <;> rfl
  | push t => cases h; rfl
  | setQuit t => cases h; rfl
  | wakeup t => cases h; rfl
  | quit => cases h; rfl
  | _ => exact hcall.elim

end EventLoop

-- ---------------------------------------------------------------------------
-- Steps
-- ---------------------------------------------------------------------------

namespace EventLoopThread

variable {s s' t : EventLoopThread}

theorem loopStep_ok {l l' : EventLoop} : loopStep l a = .ok l' ↔ l.step a = .ok l' := mapError_ok

theorem target_ok {l : EventLoop} : s.target = .ok l ↔ s.loop = .stack ∧ s.func.loop? = some l := by
  unfold target
  cases s.loop <;> cases s.func.loop? <;> simp

theorem loop?_setLoop {f : Func} (h : f.loop? = some l) (l' : EventLoop) :
    (f.setLoop l').loop? = some l' := by
  cases f <;> first | rfl | cases h

inductive Move (s : EventLoopThread) : Label → EventLoopThread → Prop
  | startLoop : s.owner = .before →
      Move s .startLoop { s with started := true, owner := .starting, func := .constructing }
  | waits : s.owner = .starting → s.loop = .null → Move s .test { s with owner := .waiting }
  | found : s.owner = .starting → s.loop = .stack → Move s .test { s with owner := .returned }
  | wake : s.owner = .waiting → Move s .wake { s with owner := .starting }
  | destructor : s.owner = .before ∨ s.owner = .returned →
      Move s .destructor { s with exiting := true, owner := .exiting }
  | quit : s.owner = .exiting → s.loop = .stack → s.func.loop? = some l →
      l.Enabled (.setQuit 0) → l.step (.setQuit 0) = .ok l' →
      Move s .quit { s with owner := .quitting, func := s.func.setLoop l' }
  | wakeup : s.owner = .quitting → s.loop = .stack → s.func.loop? = some l →
      l.Enabled (.wakeup 0) → l.step (.wakeup 0) = .ok l' →
      Move s .wakeup { s with owner := .joining, func := s.func.setLoop l' }
  | join : s.owner = .joining → Move s .join { s with owner := .joined }
  | construct : s.func = .constructing → Move s (.construct calling)
      { s with func := if s.callback then .callback (.start calling)
                       else .publishing (.start calling) }
  | endCallback : s.func = .callback l → Move s .endCallback { s with func := .publishing l }
  | publish : s.func = .publishing l → Move s .publish (s.publish l)
  | enter : s.func = .entering l → l.step .loop = .ok l' →
      Move s .enter { s with func := .looping l' }
  | destroyLoop : s.func = .looping l → l.pc = .out →
      Move s .destroyLoop { s with func := .finished }
  | loop : s.func.loop? = some l → l.Enabled a → s.MayStep a → l.step a = .ok l' →
      Move s (.loop a) { s with func := s.func.setLoop l' }

theorem Func.Next.inv {f : Func} (h : f.Next a) :
    (∃ calling, a = .construct calling ∧ f = .constructing) ∨
    (∃ l, (a = .endCallback ∧ f = .callback l) ∨ (a = .publish ∧ f = .publishing l) ∨
      (a = .enter ∧ f = .entering l) ∨ (a = .destroyLoop ∧ f = .looping l ∧ l.pc = .out)) := by
  unfold Func.Next at h
  split at h <;> simp_all

theorem enabled_of_next {f : Func} (hf : s.func = f) (h : f.Next a) : machine.enabled s a := by
  subst hf
  obtain ⟨_, rfl, -⟩ | ⟨l, ⟨rfl, -⟩ | ⟨rfl, -⟩ | ⟨rfl, -⟩ | ⟨rfl, -, -⟩⟩ := h.inv <;> exact h

theorem move_of_next (hen : s.func.Next a) (h : step s a = .ok s') : Move s a s' := by
  obtain ⟨calling, rfl, hf⟩ | ⟨l, ⟨rfl, hf⟩ | ⟨rfl, hf⟩ | ⟨rfl, hf⟩ | ⟨rfl, hf, hpc⟩⟩ := hen.inv
  · cases h
    exact .construct hf
  · simp only [step, hf] at h
    cases h
    exact .endCallback hf
  · simp only [step, hf] at h
    cases h
    exact .publish hf
  · simp only [step, hf] at h
    obtain ⟨l', hl', h⟩ := bind_ok.mp h
    cases h
    exact .enter hf (loopStep_ok.mp hl')
  · cases h
    exact .destroyLoop hf hpc

theorem move_of_step (hen : machine.enabled s a) (h : step s a = .ok s') : Move s a s' := by
  cases a with
  | startLoop =>
    obtain ⟨-, -, h⟩ := bind_ok.mp h
    cases h
    exact .startLoop hen
  | test =>
    cases h
    split
    · rename_i hnull
      exact .waits hen hnull
    · rename_i hne
      have hstack : s.loop = .stack := by
        cases hl : s.loop with
        | null => exact absurd hl hne
        | stack => rfl
      exact .found hen hstack
  | wake =>
    cases h
    exact .wake hen
  | destructor =>
    cases h
    exact .destructor hen
  | quit =>
    obtain ⟨l, htarget, h⟩ := bind_ok.mp h
    obtain ⟨l', hl', h⟩ := bind_ok.mp h
    cases h
    obtain ⟨hstack, hl⟩ := target_ok.mp htarget
    exact .quit hen.1 hstack hl (hen.2 l hl) (loopStep_ok.mp hl')
  | wakeup =>
    obtain ⟨l, htarget, h⟩ := bind_ok.mp h
    obtain ⟨l', hl', h⟩ := bind_ok.mp h
    cases h
    obtain ⟨hstack, hl⟩ := target_ok.mp htarget
    exact .wakeup hen.1 hstack hl (hen.2 l hl) (loopStep_ok.mp hl')
  | join =>
    obtain ⟨-, -, h⟩ := bind_ok.mp h
    cases h
    exact .join hen.1
  | loop b =>
    obtain ⟨⟨l, hl, hb⟩, hmay⟩ := hen
    simp only [step, show s.func.loop? = some l from hl] at h
    obtain ⟨l', hl', h⟩ := bind_ok.mp h
    cases h
    exact .loop hl hb hmay (loopStep_ok.mp hl')
  | _ => exact move_of_next hen h

def Func.Published : Func → Prop
  | .entering _ => True
  | .looping _ => True
  | .finished => True
  | _ => False

/-- The loop is out of `loop()` until the thread enters it, and comes out again
only when it was told to quit. -/
def Func.Sound : Func → Prop
  | .callback l => EventLoop.Inv l ∧ l.pc = .out
  | .publishing l => EventLoop.Inv l ∧ l.pc = .out
  | .entering l => EventLoop.Inv l ∧ l.pc = .out
  | .looping l => EventLoop.Inv l ∧ (l.pc = .out → l.quit = true)
  | _ => True

structure Inv (s : EventLoopThread) : Prop where
  pointer : s.loop = .stack ↔ s.func.Published
  before : s.owner = .before → s.func = .notStarted
  waiting : s.owner = .waiting → s.loop = .null
  returned : s.owner = .returned → s.loop = .stack
  func : s.func.Sound

theorem Func.Sound.step {f : Func} {l l' : EventLoop} (h : f.Sound) (hl : f.loop? = some l)
    (hen : l.Enabled a) (hstep : l.step a = .ok l') (ha : a ≠ .loop)
    (hcall : ¬f.InLoop → a.IsCall) : (f.setLoop l').Sound := by
  have hkeeps : EventLoop.Inv l → EventLoop.Inv l' :=
    fun hi => EventLoop.inv_safe.keeps hi hen hstep
  cases f with
  | callback =>
    cases hl
    exact ⟨hkeeps h.1, (EventLoop.call_pc hstep (hcall id)).trans h.2⟩
  | publishing =>
    cases hl
    exact ⟨hkeeps h.1, (EventLoop.call_pc hstep (hcall id)).trans h.2⟩
  | entering =>
    cases hl
    exact ⟨hkeeps h.1, (EventLoop.call_pc hstep (hcall id)).trans h.2⟩
  | looping =>
    cases hl
    refine ⟨hkeeps h.1, fun hpc => ?_⟩
    rcases EventLoop.step_out hstep ha hpc with hpc | hq
    · exact (EventLoop.step_quit_iff hstep).mpr (.inl (h.2 hpc))
    · exact hq
  | _ => cases hl

theorem MayStep.ne_loop (h : s.MayStep a) : a ≠ .loop := by
  rintro rfl
  exact h

theorem MayStep.isCall (h : s.MayStep a) (hf : ¬s.func.InLoop) : a.IsCall := by
  cases a with
  | push t => trivial
  | setQuit t => trivial
  | wakeup t => trivial
  | queueInLoop => trivial
  | quit => trivial
  | loop => exact h
  | _ => exact hf h

theorem published_setLoop (f : Func) (l : EventLoop) :
    (f.setLoop l).Published ↔ f.Published := by
  cases f <;> rfl

theorem Inv.sound {f : Func} (h : Inv s) (hf : s.func = f) : f.Sound := hf ▸ h.func

theorem Inv.published {f : Func} (h : Inv s) (hf : s.func = f) : s.loop = .stack ↔ f.Published :=
  hf ▸ h.pointer

theorem Inv.not_before {f : Func} (h : Inv s) (hf : s.func = f) (hne : f ≠ .notStarted) :
    s.owner ≠ .before := fun ho => hne (hf.symm.trans (h.before ho))

theorem Inv.owner (h : Inv s) {o : Owner} (hb : o ≠ .before)
    (hw : o = .waiting → s.loop = .null) (hr : o = .returned → s.loop = .stack) :
    Inv { s with owner := o } :=
  ⟨h.pointer, fun ho => absurd ho hb, hw, hr, h.func⟩

theorem Inv.setLoop (h : Inv s) {l l' : EventLoop} (hl : s.func.loop? = some l)
    (hf : (s.func.setLoop l').Sound) : Inv { s with func := s.func.setLoop l' } := by
  refine ⟨h.pointer.trans (published_setLoop ..).symm, fun ho => ?_, h.waiting, h.returned, hf⟩
  rw [h.before ho] at hl
  cases hl

theorem inv_keeps : machine.Keeps Inv := by
  intro s a s' h hen hstep
  cases move_of_step hen hstep with
  | startLoop ho =>
    have hnull : ¬s.loop = .stack := (h.published (h.before ho)).not.mpr id
    exact ⟨iff_of_false hnull id, nofun, nofun, nofun, trivial⟩
  | waits ho hnull => exact h.owner nofun (fun _ => hnull) nofun
  | found ho hstack => exact h.owner nofun nofun fun _ => hstack
  | wake ho => exact h.owner nofun nofun nofun
  | destructor ho => exact ⟨h.pointer, nofun, nofun, nofun, h.func⟩
  | quit ho hstack hl hcan hdo =>
    have hf := h.func.step hl hcan hdo nofun fun _ => trivial
    exact (h.setLoop hl hf).owner nofun nofun nofun
  | wakeup ho hstack hl hcan hdo =>
    have hf := h.func.step hl hcan hdo nofun fun _ => trivial
    exact (h.setLoop hl hf).owner nofun nofun nofun
  | join ho => exact h.owner nofun nofun nofun
  | @construct calling hf =>
    have hnull : ¬s.loop = .stack := (h.published hf).not.mpr id
    have hnew : EventLoop.Inv (.start calling) ∧ (EventLoop.start calling).pc = .out :=
      ⟨EventLoop.start_inv calling, rfl⟩
    refine ⟨iff_of_false hnull ?_, fun ho => ?_, h.waiting, h.returned, ?_⟩
    · simp only
      split <;> exact id
    · exact absurd ho (h.not_before hf nofun)
    · simp only
      split <;> exact hnew
  | endCallback hf =>
    have hsound := h.sound hf
    have hnull : ¬s.loop = .stack := (h.published hf).not.mpr id
    exact ⟨iff_of_false hnull id, fun ho => absurd ho (h.not_before hf nofun), h.waiting,
      h.returned, hsound⟩
  | publish hf =>
    have hsound := h.sound hf
    refine ⟨iff_of_true rfl trivial, fun ho => ?_, fun ho => ?_, fun _ => rfl, hsound⟩
    · simp only [EventLoopThread.publish] at ho
      split at ho
      · cases ho
      · exact absurd ho (h.not_before hf nofun)
    · simp only [EventLoopThread.publish] at ho
      split at ho
      · cases ho
      · contradiction
  | enter hf hdo =>
    obtain ⟨hloop, hpc⟩ := h.sound hf
    have hstack : s.loop = .stack := (h.published hf).mpr trivial
    have hloop' := EventLoop.inv_safe.keeps (a := .loop) hloop hpc hdo
    obtain ⟨-, -, hl'⟩ := bind_ok.mp hdo
    cases hl'
    exact ⟨iff_of_true hstack trivial, fun ho => absurd ho (h.not_before hf nofun), h.waiting,
      h.returned, hloop', nofun⟩
  | destroyLoop hf hpc =>
    have hstack : s.loop = .stack := (h.published hf).mpr trivial
    exact ⟨iff_of_true hstack trivial, fun ho => absurd ho (h.not_before hf nofun), h.waiting,
      h.returned, trivial⟩
  | loop hl hcan hmay hdo =>
    exact h.setLoop hl (h.func.step hl hcan hdo hmay.ne_loop hmay.isCall)

theorem start_inv (callback : Bool) : Inv (start callback) :=
  ⟨iff_of_false nofun id, fun _ => rfl, fun _ => rfl, nofun, trivial⟩

-- ---------------------------------------------------------------------------
-- Nobody else quits
-- ---------------------------------------------------------------------------

/-- The loop the destructor is about to call is there. -/
def Valid (s : EventLoopThread) : Prop :=
  s.owner = .exiting → s.loop = .stack ∧ s.func.loop?.isSome

instance (s : EventLoopThread) : Decidable s.Valid := inferInstanceAs (Decidable (_ → _))

def Owner.Called : Owner → Prop
  | .quitting => True
  | .joining => True
  | .joined => True
  | _ => False

/-- The destructor comes after `startLoop`, and nobody else has called `quit()`
when it calls it. -/
def Alone (s : EventLoopThread) : Label → Prop
  | .destructor => s.owner = .returned
  | .loop a => a.CallsQuit → s.owner.Called
  | _ => True

def Label.CallsQuit : Label → Prop
  | .quit => True
  | .loop a => a.CallsQuit
  | _ => False

def Func.Told : Func → Prop
  | .callback l => l.quit = true
  | .publishing l => l.quit = true
  | .entering l => l.quit = true
  | .looping l => l.quit = true
  | .finished => True
  | _ => False

theorem Func.told_iff {f : Func} (h : f.loop? = some l) : f.Told ↔ l.quit = true := by
  cases f <;> cases h <;> rfl

theorem told_setLoop {f : Func} {l l' : EventLoop} (hl : f.loop? = some l)
    (h : l.step a = .ok l') : (f.setLoop l').Told ↔ f.Told ∨ a.CallsQuit := by
  rw [Func.told_iff (loop?_setLoop hl l'), Func.told_iff hl, EventLoop.step_quit_iff h]

theorem Move.told_iff (hi : Inv s) (h : Move s a s') :
    s'.func.Told ↔ s.func.Told ∨ a.CallsQuit := by
  cases h with
  | startLoop ho => simp [hi.before ho, Func.Told, Label.CallsQuit]
  | quit _ _ hl _ hdo => exact told_setLoop hl hdo
  | wakeup _ _ hl _ hdo => exact told_setLoop hl hdo
  | loop hl _ _ hdo => exact told_setLoop hl hdo
  | construct hf =>
    simp only [hf]
    split <;> simp [Func.Told, Label.CallsQuit, EventLoop.start]
  | endCallback hf => simp [hf, Func.Told, Label.CallsQuit]
  | publish hf => simp [hf, Func.Told, Label.CallsQuit, EventLoopThread.publish]
  | enter hf hdo =>
    simp only [hf, Func.Told, Label.CallsQuit, or_false]
    exact (EventLoop.step_quit_iff hdo).trans (or_iff_left id)
  | destroyLoop hf hpc =>
    have hquit := (hi.sound hf).2 hpc
    exact iff_of_true trivial (.inl (hf ▸ hquit))
  | _ => exact (or_iff_left id).symm

theorem Move.called (h : Move s a s') (hc : s.owner.Called) : s'.owner.Called := by
  cases h with
  | publish hf =>
    simp only [EventLoopThread.publish]
    split
    · rename_i hw
      rw [hw] at hc
      exact hc.elim
    · exact hc
  | startLoop ho => exact (ho ▸ hc : Owner.before.Called).elim
  | waits ho => exact (ho ▸ hc : Owner.starting.Called).elim
  | found ho => exact (ho ▸ hc : Owner.starting.Called).elim
  | wake ho => exact (ho ▸ hc : Owner.waiting.Called).elim
  | destructor ho =>
    rcases ho with ho | ho <;> rw [ho] at hc <;> exact hc.elim
  | quit => trivial
  | wakeup => trivial
  | join => trivial
  | _ => exact hc

instance (o : Owner) : Decidable o.Called := by
  cases o <;> unfold Owner.Called <;> infer_instance

instance (s : EventLoopThread) : ∀ a, Decidable (s.Alone a)
  | .destructor => inferInstanceAs (Decidable (s.owner = .returned))
  | .loop a => inferInstanceAs (Decidable (a.CallsQuit → s.owner.Called))
  | .startLoop | .test | .wake | .quit | .wakeup | .join | .construct _ | .endCallback | .publish
  | .enter | .destroyLoop => .isTrue trivial

/-- As long as nobody but the destructor calls `quit()`, and it not yet, the loop
does not end. -/
def Quiet (s : EventLoopThread) : Prop :=
  ¬s.owner.Called → (s.owner = .exiting → s.loop = .stack) ∧ ¬s.func.Told

theorem Move.quiet (hi : Inv s) (hq : Quiet s) (ha : Alone s a) (h : Move s a s') : Quiet s' := by
  intro hc
  have hcs : ¬s.owner.Called := fun hcs => hc (h.called hcs)
  obtain ⟨hexit, htold⟩ := hq hcs
  refine ⟨fun ho => ?_, fun ht => ?_⟩
  · cases h with
    | destructor => exact hi.returned ha
    | publish => rfl
    | startLoop => cases ho
    | waits => cases ho
    | found => cases ho
    | wake => cases ho
    | quit => cases ho
    | wakeup => cases ho
    | join => cases ho
    | _ => exact hexit ho
  · have hquit := ((h.told_iff hi).mp ht).resolve_left htold
    cases h with
    | quit => exact hc trivial
    | loop => exact hcs (ha hquit)
    | _ => exact hquit.elim

theorem Quiet.valid (hi : Inv s) (hq : Quiet s) : Valid s := by
  intro ho
  obtain ⟨hstack, htold⟩ := hq (by rw [ho]; exact id)
  have hstack := hstack ho
  refine ⟨hstack, ?_⟩
  have hpub := hi.pointer.mp hstack
  cases hf : s.func with
  | entering => rfl
  | looping => rfl
  | finished =>
    rw [hf] at htold
    exact absurd trivial htold
  | _ =>
    rw [hf] at hpub
    exact hpub.elim

-- ---------------------------------------------------------------------------
-- Somebody else quits
-- ---------------------------------------------------------------------------

/-- The destructor came without `startLoop`, or the loop was told to end. -/
def Broken (s : EventLoopThread) : Prop :=
  s.owner.Called ∨ (s.owner = .exiting ∧ s.func = .notStarted) ∨ s.func.Told

theorem Move.broken_of_not_alone (hi : Inv s) (ha : ¬Alone s a) (h : Move s a s') :
    Broken s' := by
  cases h with
  | destructor ho =>
    have hb : s.owner = .before := ho.resolve_right ha
    exact .inr (.inl ⟨rfl, hi.before hb⟩)
  | loop hl hcan hmay hdo =>
    obtain ⟨hquit, -⟩ := Classical.not_imp.mp ha
    exact .inr (.inr ((told_setLoop hl hdo).mpr (.inr hquit)))
  | _ => exact absurd trivial ha

theorem Move.broken (hi : Inv s) (hb : Broken s) (h : Move s a s') : Broken s' := by
  rcases hb with hc | ⟨ho, hf⟩ | ht
  · exact .inl (h.called hc)
  · -- no step is left
    exfalso
    cases h <;> simp_all [Func.loop?]
  · exact .inr (.inr ((h.told_iff hi).mpr (.inl ht)))

theorem broken_of_run (h : machine.Run s as t) (hi : Inv s) :
    machine.Meets Alone s as ∨ Broken t := by
  induction h with
  | nil => exact .inl trivial
  | @cons s a m as t hen hstep hrest ih =>
    have hmove := move_of_step hen hstep
    by_cases ha : Alone s a
    · exact (ih (inv_keeps hi hen hstep)).imp_left fun hm => (Machine.meets_cons hstep).mpr ⟨ha, hm⟩
    · right
      have hkeeps : machine.Keeps fun s => Inv s ∧ Broken s := fun hs hen hstep =>
        ⟨inv_keeps hs.1 hen hstep, (move_of_step hen hstep).broken hs.1 hs.2⟩
      exact (hrest.keeps hkeeps ⟨inv_keeps hi hen hstep, hmove.broken_of_not_alone hi ha⟩).2

/-- Without another call of `quit()`, some order of the steps brings the
destructor to a loop that is not there. -/
def Fails (s : EventLoopThread) : Prop :=
  ∃ as t, (∀ a ∈ as, ¬a.CallsQuit) ∧ machine.Run s as t ∧ ¬Valid t

theorem Fails.step (hen : machine.enabled s a) (h : step s a = .ok t) (ha : ¬a.CallsQuit)
    (ht : Fails t) : Fails s := by
  obtain ⟨as, u, has, hrun, hu⟩ := ht
  exact ⟨a :: as, u, List.forall_mem_cons.mpr ⟨ha, has⟩, .cons hen h hrun, hu⟩

theorem fails_of_exiting (ho : s.owner = .exiting) (hf : s.func.loop? = none) : Fails s := by
  refine ⟨[], s, by simp, .nil, fun hv => ?_⟩
  have hsome := (hv ho).2
  rw [hf] at hsome
  cases hsome

theorem fails_of_finished (hi : Inv s) (hf : s.func = .finished) (hc : ¬s.owner.Called) :
    Fails s := by
  have hstack : s.loop = .stack := (hi.published hf).mpr trivial
  have hloop : s.func.loop? = none := by rw [hf]; rfl
  have hreturned : ∀ {s : EventLoopThread}, s.owner = .returned → s.func.loop? = none → Fails s :=
    fun ho hf => .step (a := .destructor) (.inr ho) rfl id (fails_of_exiting rfl hf)
  cases ho : s.owner with
  | before => exact absurd ho (hi.not_before hf nofun)
  | starting =>
    refine .step (a := .test) ho rfl id (hreturned ?_ hloop)
    simp only [hstack]
    rfl
  | waiting => exact absurd (hstack.symm.trans (hi.waiting ho)) nofun
  | returned => exact hreturned ho hloop
  | exiting => exact fails_of_exiting ho hloop
  | _ =>
    rw [ho] at hc
    exact absurd trivial hc

/-- So it goes when `loop()` is told to quit in a state with `P`. -/
def FailsFrom (P : EventLoop → Prop) : Prop :=
  ∀ (s : EventLoopThread) l, Inv s → ¬s.owner.Called → s.func = .looping l → l.quit = true →
    P l → Fails s

theorem FailsFrom.step {P Q : EventLoop → Prop} (h : FailsFrom Q) (a : EventLoop.Label)
    (ha : ¬a.CallsQuit) (hmay : ∀ s : EventLoopThread, s.func.InLoop → s.MayStep a)
    (hdo : ∀ l, P l → l.quit = true → l.Enabled a ∧ ∃ l', l.step a = .ok l' ∧ Q l') :
    FailsFrom P := by
  intro s l hi hc hf hq hp
  obtain ⟨hcan, l', hl', hQ⟩ := hdo l hp hq
  have hin : s.func.InLoop := by
    rw [hf]
    trivial
  have hen : machine.enabled s (.loop a) := ⟨⟨l, by rw [hf]; rfl, hcan⟩, hmay s hin⟩
  have hstep : machine.step s (.loop a) = .ok { s with func := .looping l' } := by
    simp only [machine, EventLoopThread.step, hf, Func.loop?, loopStep, hl']
    rfl
  have hq' : l'.quit = true := (EventLoop.step_quit_iff hl').mpr (.inl hq)
  exact .step hen hstep ha (h _ l' (inv_keeps hi hen hstep) hc rfl hq' hQ)

theorem fails_out : FailsFrom fun l => l.pc = .out := by
  intro s l hi hc hf _ hpc
  have hen : machine.enabled s .destroyLoop := enabled_of_next hf hpc
  exact .step (t := { s with func := .finished }) hen rfl id
    (fails_of_finished (inv_keeps hi hen rfl) rfl hc)

theorem fails_test : FailsFrom fun l => l.pc = .test :=
  fails_out.step .test id (fun _ => id) fun l hpc hq =>
    ⟨hpc, _, by simp only [EventLoop.step, hq]; rfl, rfl⟩

theorem fails_functors (fs : List Nat) :
    FailsFrom fun l => l.pc = .running ∧ l.functors = fs := by
  induction fs with
  | nil => exact fails_test.step .endFunctors id (fun _ => id) fun l hl _ => ⟨hl, _, rfl, rfl⟩
  | cons f fs ih =>
    refine ih.step .functor id (fun _ => id) fun l hl _ => ?_
    have hne : l.functors ≠ [] := by
      rw [hl.2]
      nofun
    refine ⟨⟨hl.1, hne⟩, { l with functors := fs, started := l.started ++ [⟨f, l.passes⟩] }, ?_,
      hl.1, rfl⟩
    simp only [EventLoop.step, hl.2]
    rfl

theorem fails_running : FailsFrom fun l => l.pc = .running := fun s l hi hc hf hq hpc =>
  fails_functors l.functors s l hi hc hf hq ⟨hpc, rfl⟩

theorem fails_calling : FailsFrom fun l => l.pc = .calling :=
  fails_running.step .swap id (fun _ => id) fun _ hpc _ => ⟨hpc, _, rfl, rfl⟩

theorem fails_handled : FailsFrom fun l => l.pc = .events false :=
  fails_calling.step .doPendingFunctors id (fun _ => id) fun _ hpc _ => ⟨hpc, _, rfl, rfl⟩

theorem fails_events : FailsFrom fun l => ∃ w, l.pc = .events w := by
  rintro s l hi hc hf hq ⟨w, hpc⟩
  cases w with
  | false => exact fails_handled s l hi hc hf hq hpc
  | true =>
    exact fails_handled.step (P := fun l => l.pc = .events true) .handleRead id (fun _ => id)
      (fun _ hpc _ => ⟨hpc, _, rfl, rfl⟩) s l hi hc hf hq hpc

theorem fails_polling : FailsFrom fun l => l.pc = .polling :=
  fails_events.step .pollReturn id (fun _ => id) fun _ hpc _ => ⟨hpc, _, rfl, _, rfl⟩

theorem fails_enter : FailsFrom fun l => l.pc = .enter :=
  fails_polling.step .poll id (fun _ => id) fun _ hpc _ => ⟨hpc, _, rfl, rfl⟩

theorem fails_looping : FailsFrom fun _ => True := by
  intro s l hi hc hf hq _
  cases hpc : l.pc with
  | out => exact fails_out s l hi hc hf hq hpc
  | test => exact fails_test s l hi hc hf hq hpc
  | enter => exact fails_enter s l hi hc hf hq hpc
  | polling => exact fails_polling s l hi hc hf hq hpc
  | events w => exact fails_events s l hi hc hf hq ⟨w, hpc⟩
  | calling => exact fails_calling s l hi hc hf hq hpc
  | running => exact fails_running s l hi hc hf hq hpc

theorem fails_entering (hi : Inv s) (hc : ¬s.owner.Called) (hf : s.func = .entering l)
    (hq : l.quit = true) : Fails s := by
  obtain ⟨hloop, hpc⟩ := hi.sound hf
  have hen : machine.enabled s .enter := enabled_of_next hf trivial
  obtain ⟨l', hl', -⟩ := hloop.loop hpc
  have hstep : step s .enter = .ok { s with func := .looping l' } := by
    simp only [step, hf, loopStep, hl']
    rfl
  have hq' : l'.quit = true := (EventLoop.step_quit_iff hl').mpr (.inl hq)
  exact .step hen hstep id (fails_looping _ l' (inv_keeps hi hen hstep) hc rfl hq' trivial)

theorem fails_publishing (hi : Inv s) (hc : ¬s.owner.Called) (hf : s.func = .publishing l)
    (hq : l.quit = true) : Fails s := by
  have hen : machine.enabled s .publish := enabled_of_next hf trivial
  have hstep : step s .publish = .ok (s.publish l) := by simp only [step, hf]; rfl
  have hc' : ¬(s.publish l).owner.Called := by
    simp only [publish]
    split
    · exact id
    · exact hc
  exact .step hen hstep id (fails_entering (inv_keeps hi hen hstep) hc' rfl hq)

theorem fails_callback (hi : Inv s) (hc : ¬s.owner.Called) (hf : s.func = .callback l)
    (hq : l.quit = true) : Fails s := by
  have hen : machine.enabled s .endCallback := enabled_of_next hf trivial
  have hstep : step s .endCallback = .ok { s with func := .publishing l } := by
    simp only [step, hf]
    rfl
  exact .step hen hstep id (fails_publishing (inv_keeps hi hen hstep) hc rfl hq)

theorem Broken.fails (hb : Broken s) (hi : Inv s) (hc : ¬s.owner.Called) : Fails s := by
  rcases hb with hcalled | ⟨ho, hf⟩ | ht
  · exact absurd hcalled hc
  · exact fails_of_exiting ho (by rw [hf]; rfl)
  · cases hf : s.func with
    | finished => exact fails_of_finished hi hf hc
    | callback l =>
      rw [hf] at ht
      exact fails_callback hi hc hf ht
    | publishing l =>
      rw [hf] at ht
      exact fails_publishing hi hc hf ht
    | entering l =>
      rw [hf] at ht
      exact fails_entering hi hc hf ht
    | looping l =>
      rw [hf] at ht
      exact fails_looping s l hi hc hf ht trivial
    | _ =>
      rw [hf] at ht
      exact ht.elim

-- ---------------------------------------------------------------------------
-- Runs
-- ---------------------------------------------------------------------------

/-- If the destructor comes after `startLoop`, and nobody else calls `quit()`
before it does, it finds the loop. Otherwise, as long as it has not made its
call, some order of the steps that are left makes it miss the loop, and nobody
has to call `quit()` again for that. -/
theorem loop_valid {callback : Bool} (h : machine.Run (start callback) labels s) :
    (machine.Meets Alone (start callback) labels → Valid s) ∧
    (¬machine.Meets Alone (start callback) labels → ¬s.owner.Called →
      ∃ as t, (∀ a ∈ as, ¬a.CallsQuit) ∧ machine.Run s as t ∧ ¬Valid t) := by
  have hinv := h.keeps inv_keeps (start_inv callback)
  constructor
  · intro hm
    have hkeeps : (machine.restrict Alone).Keeps fun s => Inv s ∧ Quiet s :=
      fun hs hen hstep => ⟨inv_keeps hs.1 hen.1 hstep,
        (move_of_step hen.1 hstep).quiet hs.1 hs.2 hen.2⟩
    have hquiet : Quiet (start callback) := fun _ => ⟨nofun, id⟩
    exact ((h.restrict hm).keeps hkeeps ⟨start_inv callback, hquiet⟩).2.valid hinv
  · intro hm hc
    exact ((broken_of_run h (start_inv callback)).resolve_left hm).fails hinv hc

/-- The destructor comes while the loop runs; and a loop that another thread told
to quit. -/
theorem loop_valid_running :
    (∃ s, machine.Run (start false)
        [.startLoop, .test, .construct false, .publish, .test, .enter, .loop .test, .destructor] s ∧
      s.owner = .exiting ∧ Valid s) ∧
    ∃ s, machine.Run (start true)
        [.startLoop, .construct true, .loop .queueInLoop, .endCallback, .publish,
          .loop (.setQuit 1), .test, .enter] s ∧
      ∃ as t, (∀ a ∈ as, ¬a.CallsQuit) ∧ machine.Run s as t ∧ ¬Valid t := by
  constructor
  · obtain ⟨s, hs, ho⟩ : ∃ s, machine.Run (start false)
        [.startLoop, .test, .construct false, .publish, .test, .enter, .loop .test, .destructor] s ∧
        s.owner = .exiting := Machine.exists_run (by decide +kernel)
    exact ⟨s, hs, ho, (loop_valid hs).1 (by decide +kernel)⟩
  · obtain ⟨s, hs, ho⟩ : ∃ s, machine.Run (start true)
        [.startLoop, .construct true, .loop .queueInLoop, .endCallback, .publish,
          .loop (.setQuit 1), .test, .enter] s ∧ s.owner = .returned :=
      Machine.exists_run (by decide +kernel)
    exact ⟨s, hs, (loop_valid hs).2 (by decide +kernel) (by rw [ho]; exact id)⟩

/-- An `EventLoopThread` that was never started; and one whose owner told the
loop to quit, so that the thread function has returned when the destructor
comes. -/
theorem loop_missing :
    (∃ s, machine.Run (start false) [.destructor] s ∧ s.loop = .null ∧ ¬Valid s) ∧
    ∃ s, machine.Run (start false)
        [.startLoop, .construct false, .publish, .test, .enter, .loop (.setQuit 0),
          .loop (.wakeup 0), .loop .test, .destroyLoop, .destructor] s ∧
      s.loop = .stack ∧ s.func.loop?.isSome = false ∧ ¬Valid s :=
  ⟨Machine.exists_run (by decide +kernel), Machine.exists_run (by decide +kernel)⟩

end EventLoopThread

end Muduo
