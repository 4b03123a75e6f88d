import Muduo.Net.TimerQueue

/-!
# The timers of a loop and its callers

Threads that call `runAt`, `runAfter`, `runEvery` and `cancel`. On the loop
thread the queue is changed at once; another thread leaves a functor, which
`doPendingFunctors` runs in its turn.
-/

namespace Muduo

open Lib

namespace TimerLoop

open TimerQueue

/-- What `addTimer` and `cancel` hand to `runInLoop`. -/
inductive Functor
  | addTimerInLoop (timer : Ptr)
  | cancelInLoop (timerId : Ptr)
  deriving DecidableEq

/-- An execution of `cancelInLoop`, and how many callbacks were started before. -/
structure Cancel where
  timerId : Ptr
  started : Nat
  deriving DecidableEq

end TimerLoop

structure TimerLoop where
  timers : Timers := {}
  pendingFunctors : List TimerLoop.Functor := []
  functors : Option (List TimerLoop.Functor) := none
  /-- Every `TimerId` there is: the default one and those `addTimer` returned. -/
  issued : List TimerQueue.Ptr := [⟨0, 0⟩]
  canceled : List TimerLoop.Cancel := []

namespace TimerLoop

open TimerQueue

-- ---------------------------------------------------------------------------
-- The code
-- ---------------------------------------------------------------------------

def call (l : TimerLoop) (clock : Clock) : Functor → Except Fault TimerLoop
  | .addTimerInLoop timer => do
    let timers ← l.timers.step (.addTimerInLoop timer clock)
    return { l with timers }
  | .cancelInLoop timerId => do
    let timers ← l.timers.step (.cancelInLoop timerId.addr timerId.object)
    return { l with timers, canceled := l.canceled ++ [⟨timerId, timers.started.length⟩] }

def runInLoop (l : TimerLoop) (inLoop : Bool) (clock : Clock) (cb : Functor) :
    Except Fault TimerLoop :=
  if inLoop then l.call clock cb
  else return { l with pendingFunctors := l.pendingFunctors ++ [cb] }

def addTimer (l : TimerLoop) (inLoop : Bool) (addr : Nat) (clock : Clock)
    (when : Timestamp) (interval : Seconds) : Except Fault TimerLoop := do
  let timers ← l.timers.step (.new addr when interval.micros.toNat interval.positive)
  let timer : Ptr := ⟨addr, timers.queue.numCreated⟩
  let l ← { l with timers }.runInLoop inLoop clock (.addTimerInLoop timer)
  return { l with issued := l.issued ++ [timer] }

def cancel (l : TimerLoop) (inLoop : Bool) (timerId : Ptr) : Except Fault TimerLoop :=
  l.runInLoop inLoop ⟨0, 0⟩ (.cancelInLoop timerId)

def runAt (l : TimerLoop) (inLoop : Bool) (addr : Nat) (clock : Clock) (time : Timestamp) :
    Except Fault TimerLoop :=
  l.addTimer inLoop addr clock time .zero

def runAfter (l : TimerLoop) (inLoop : Bool) (addr : Nat) (clock : Clock)
    (now : Timestamp) (delay : Seconds) : Except Fault TimerLoop :=
  l.runAt inLoop addr clock (addTime now delay)

def runEvery (l : TimerLoop) (inLoop : Bool) (addr : Nat) (clock : Clock)
    (now : Timestamp) (interval : Seconds) : Except Fault TimerLoop :=
  l.addTimer inLoop addr clock (addTime now interval) interval

-- ---------------------------------------------------------------------------
-- Runs
-- ---------------------------------------------------------------------------

/-- `inLoop` is whether it is the loop thread that calls, `addr` what `new`
gives, and `clock` what is read when the timerfd is set. -/
inductive Label
  | runAt (inLoop : Bool) (addr : Nat) (clock : Clock) (time : Timestamp)
  | runAfter (inLoop : Bool) (addr : Nat) (clock : Clock) (now : Timestamp) (delay : Seconds)
  | runEvery (inLoop : Bool) (addr : Nat) (clock : Clock) (now : Timestamp) (interval : Seconds)
  | cancel (inLoop : Bool) (timerId : Ptr)
  | doPendingFunctors
  | functor (clock : Clock)
  | endFunctors
  | beginRead (now readAt : Timestamp)
  | callback
  | endRead (clock : Clock)

def Calls (l : TimerLoop) (inLoop : Bool) : Prop := inLoop → l.timers.InUser

def Enabled (l : TimerLoop) : Label → Prop
  | .runAt inLoop addr _ _ => l.Calls inLoop ∧ l.timers.queue.Free addr
  | .runAfter inLoop addr _ _ _ => l.Calls inLoop ∧ l.timers.queue.Free addr
  | .runEvery inLoop addr _ _ _ => l.Calls inLoop ∧ l.timers.queue.Free addr
  | .cancel inLoop timerId => l.Calls inLoop ∧ timerId ∈ l.issued
  | .doPendingFunctors => l.timers.batch.isNone ∧ l.functors.isNone
  | .functor _ => ∃ functors ∈ l.functors, functors ≠ []
  | .endFunctors => ∃ functors ∈ l.functors, functors = []
  | .beginRead now readAt =>
    Timers.machine.enabled l.timers (.beginRead now readAt) ∧ l.functors.isNone
  | .callback => Timers.machine.enabled l.timers .callback
  | .endRead clock => Timers.machine.enabled l.timers (.endRead clock)

def step (l : TimerLoop) : Label → Except Fault TimerLoop
  | .runAt inLoop addr clock time => l.runAt inLoop addr clock time
  | .runAfter inLoop addr clock now delay => l.runAfter inLoop addr clock now delay
  | .runEvery inLoop addr clock now interval => l.runEvery inLoop addr clock now interval
  | .cancel inLoop timerId => l.cancel inLoop timerId
  | .doPendingFunctors =>
    return { l with functors := some l.pendingFunctors, pendingFunctors := [] }
  | .functor clock =>
    match l.functors with
    | some (cb :: functors) => { l with functors := some functors }.call clock cb
    | _ => return l
  | .endFunctors => return { l with functors := none }
  | .beginRead now readAt => do
    let timers ← l.timers.step (.beginRead now readAt)
    return { l with timers }
  | .callback => do
    let timers ← l.timers.step .callback
    return { l with timers }
  | .endRead clock => do
    let timers ← l.timers.step (.endRead clock)
    return { l with timers }

def machine : Machine TimerLoop Label Fault where
  enabled := Enabled
  step := step

instance (l : TimerLoop) (inLoop : Bool) : Decidable (l.Calls inLoop) :=
  inferInstanceAs (Decidable (_ → _))

instance (l : TimerLoop) (a : Label) : Decidable (machine.enabled l a) := by
  unfold machine Enabled
  cases a <;> infer_instance

end TimerLoop

end Muduo
