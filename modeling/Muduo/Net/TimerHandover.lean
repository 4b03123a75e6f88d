import Muduo.Net.TimerMoves

/-!
# A timer in two hands

Threads inside `addTimer` beside the loop thread. A thread makes the timer,
hands it over and reads its sequence number only then: in between the loop may
run and delete it, and the address may be used again. `timerId_iff` says when
nobody notices.
-/

namespace Muduo

open Lib Function TimerQueue

namespace Handover

inductive Call
  | idle
  | made (timer : Ptr)
  /-- `addTimerInLoop` is queued or was run. -/
  | queued (timer : Ptr)
  /-- With what was read at the address; a deleted timer that nothing came after
  has no sequence number. -/
  | returned (timer : Ptr) (sequence : Option Nat)
  deriving DecidableEq

def Call.unread : Call → Option Ptr
  | .idle => none
  | .made timer => some timer
  | .queued timer => some timer
  | .returned _ _ => none

end Handover

/-- A loop thread and `n` others. -/
structure Handover (n : Nat) where
  timers : Timers := {}
  thread : Fin n → Handover.Call := fun _ => .idle
  /-- Address and sequence number of every `TimerId` there is. -/
  issued : List (Nat × Nat) := [(0, 0)]

namespace Handover

-- ---------------------------------------------------------------------------
-- The code
-- ---------------------------------------------------------------------------

/-- `timer->sequence()`, whatever is there. -/
def readSequence (q : TimerQueue) (timer : Ptr) : Option Nat :=
  (q.heap timer.addr).map Timer.sequence

def timerIds (timer : Ptr) (sequence : Option Nat) : List (Nat × Nat) :=
  sequence.toList.map fun n => (timer.addr, n)

def newTimer (h : Handover n) (c : Fin n) (addr : Nat) (when : Timestamp) (interval : Seconds) :
    Except Fault (Handover n) := do
  let timers ← h.timers.step (.new addr when interval.micros.toNat interval.positive)
  return { h with timers, thread := update h.thread c (.made ⟨addr, timers.queue.numCreated⟩) }

def runInLoop (h : Handover n) (c : Fin n) : Handover n :=
  match h.thread c with
  | .made timer => { h with thread := update h.thread c (.queued timer) }
  | _ => h

def sequence (h : Handover n) (c : Fin n) : Handover n :=
  match h.thread c with
  | .queued timer =>
    let sequence := readSequence h.timers.queue timer
    { h with
      thread := update h.thread c (.returned timer sequence)
      issued := h.issued ++ timerIds timer sequence }
  | _ => h

def addTimer (h : Handover n) (addr : Nat) (clock : Clock) (when : Timestamp)
    (interval : Seconds) : Except Fault (Handover n) := do
  let timers ← h.timers.step (.new addr when interval.micros.toNat interval.positive)
  let timer : Ptr := ⟨addr, timers.queue.numCreated⟩
  let timers ← timers.step (.addTimerInLoop timer clock)
  return { h with timers, issued := h.issued ++ timerIds timer (readSequence timers.queue timer) }

-- ---------------------------------------------------------------------------
-- Runs
-- ---------------------------------------------------------------------------

inductive Label (n : Nat)
  /-- The parts of `addTimer` in thread `c`. -/
  | newTimer (c : Fin n) (addr : Nat) (when : Timestamp) (interval : Seconds)
  | runInLoop (c : Fin n)
  | sequence (c : Fin n)
  | addTimer (addr : Nat) (clock : Clock) (when : Timestamp) (interval : Seconds)
  | addTimerInLoop (timer : Ptr) (clock : Clock)
  | cancelInLoop (timerId : Nat × Nat)
  | beginRead (now readAt : Timestamp)
  | callback
  | endRead (clock : Clock)

def Enabled (h : Handover n) : Label n → Prop
  | .newTimer c addr _ _ => (h.thread c).unread = none ∧ h.timers.queue.Free addr
  | .runInLoop c => ∃ timer ∈ (h.thread c).unread, h.thread c = .made timer
  | .sequence c => ∃ timer ∈ (h.thread c).unread, h.thread c = .queued timer
  | .addTimer addr _ _ _ => h.timers.InUser ∧ h.timers.queue.Free addr
  | .addTimerInLoop timer _ =>
    h.timers.batch.isNone ∧ timer ∈ h.timers.pending ∧ ∀ c, h.thread c ≠ .made timer
  | .cancelInLoop timerId => h.timers.InUser ∧ timerId ∈ h.issued
  | .beginRead now readAt => Timers.machine.enabled h.timers (.beginRead now readAt)
  | .callback => Timers.machine.enabled h.timers .callback
  | .endRead clock => Timers.machine.enabled h.timers (.endRead clock)

def inLoop (h : Handover n) (a : Timers.Label) : Except Fault (Handover n) := do
  let timers ← h.timers.step a
  return { h with timers }

def step (h : Handover n) : Label n → Except Fault (Handover n)
  | .newTimer c addr when interval => h.newTimer c addr when interval
  | .runInLoop c => return h.runInLoop c
  | .sequence c => return h.sequence c
  | .addTimer addr clock when interval => h.addTimer addr clock when interval
  | .addTimerInLoop timer clock => h.inLoop (.addTimerInLoop timer clock)
  | .cancelInLoop timerId => h.inLoop (.cancelInLoop timerId.1 timerId.2)
  | .beginRead now readAt => h.inLoop (.beginRead now readAt)
  | .callback => h.inLoop .callback
  | .endRead clock => h.inLoop (.endRead clock)

def machine : Machine (Handover n) (Label n) Fault where
  enabled := Enabled
  step := step

instance (h : Handover n) (a : Label n) : Decidable (machine.enabled h a) := by
  unfold machine Enabled
  cases a <;> infer_instance

/-- Every call has read the sequence number that its timer was made with, so the
timer was still there. -/
def Sound (h : Handover n) : Prop :=
  ∀ c timer sequence, h.thread c = .returned timer sequence → sequence = some timer.object

/-- No timer that runs but once is deleted after its run while the thread that
made it has not read the sequence number. -/
def Early (h : Handover n) : Label n → Prop
  | .endRead _ => ∀ c, ∀ timer ∈ (h.thread c).unread, ∀ b ∈ h.timers.batch, timer ∈ b.done →
    ∃ t ∈ h.timers.queue.heap timer.addr, t.repeats = true
  | _ => True

instance (h : Handover n) (a : Label n) : Decidable (h.Early a) := by
  unfold Early
  cases a <;> infer_instance

-- ---------------------------------------------------------------------------
-- Steps of the queue
-- ---------------------------------------------------------------------------

variable {h h' : Handover n}

theorem inLoop_run (hen : h.timers.Enabled a) (hs : h.inLoop a = .ok h') :
    ∃ as, Timers.machine.Run h.timers as h'.timers := by
  obtain ⟨t, ht, hs⟩ := bind_ok.mp hs
  cases hs
  exact ⟨[a], .cons hen ht .nil⟩

theorem step_run (hen : machine.enabled h a) (hs : machine.step h a = .ok h') :
    ∃ as, Timers.machine.Run h.timers as h'.timers := by
  cases a with
  | newTimer c addr when interval =>
    obtain ⟨t, ht, hs⟩ := bind_ok.mp hs
    cases hs
    exact ⟨[.new addr when interval.micros.toNat interval.positive], .cons hen.2 ht .nil⟩
  | runInLoop c =>
    obtain ⟨timer, -, hc⟩ := hen
    cases hs
    simp only [runInLoop, hc]
    exact ⟨[], .nil⟩
  | sequence c =>
    obtain ⟨timer, -, hc⟩ := hen
    cases hs
    simp only [sequence, hc]
    exact ⟨[], .nil⟩
  | addTimer addr clock when interval =>
    obtain ⟨t₁, ht₁, hs⟩ := bind_ok.mp hs
    obtain ⟨t₂, ht₂, hs⟩ := bind_ok.mp hs
    cases hs
    cases ht₁
    have hpending := List.mem_append_right h.timers.pending (List.mem_singleton_self
      (⟨addr, h.timers.queue.numCreated + 1⟩ : Ptr))
    exact ⟨[.new addr when interval.micros.toNat interval.positive,
      .addTimerInLoop ⟨addr, h.timers.queue.numCreated + 1⟩ clock],
      .cons hen.2 rfl (.cons ⟨hen.1, hpending⟩ ht₂ .nil)⟩
  | addTimerInLoop timer clock =>
    exact inLoop_run (a := .addTimerInLoop timer clock)
      ⟨Timers.inUser_outside hen.1, hen.2.1⟩ hs
  | cancelInLoop timerId => exact inLoop_run (a := .cancelInLoop timerId.1 timerId.2) hen.1 hs
  | beginRead now readAt => exact inLoop_run (a := .beginRead now readAt) hen hs
  | callback => exact inLoop_run (a := .callback) hen hs
  | endRead clock => exact inLoop_run (a := .endRead clock) hen hs

theorem timers_keeps : (machine (n := n)).Keeps fun h => h.timers.Inv := by
  intro h a h' hi hen hs
  obtain ⟨as, hrun⟩ := step_run hen hs
  exact hrun.keeps Timers.inv_safe.keeps hi

end Handover

end Muduo
