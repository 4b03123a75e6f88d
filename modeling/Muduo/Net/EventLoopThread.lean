import Muduo.Net.EventLoop

/-!
# EventLoopThread

The thread that owns the object, the thread function with its `EventLoop` on its
stack, and any calls on that loop, from its own callbacks and from other
threads. The owner is thread 0 of the loop. What is done under `mutex_` is one
step.
-/

namespace Muduo

open Lib

namespace EventLoopThread

/-- Where the owner is: it calls `startLoop` at most once, then the destructor. -/
inductive Owner
  | before
  | starting
  | waiting
  | returned
  | exiting
  | quitting
  | joining
  | joined
  deriving DecidableEq

/-- Where the thread function is, and its `EventLoop` as long as it exists. -/
inductive Func
  | notStarted
  | constructing
  | callback (loop : EventLoop)
  | publishing (loop : EventLoop)
  | entering (loop : EventLoop)
  | looping (loop : EventLoop)
  | finished

inductive Pointer
  | null
  | stack
  deriving DecidableEq

inductive Fault
  | started
  | notStarted
  | null
  | destroyed
  | loop (f : EventLoop.Fault)
  deriving DecidableEq

def Func.loop? : Func → Option EventLoop
  | .callback l => some l
  | .publishing l => some l
  | .entering l => some l
  | .looping l => some l
  | _ => none

def Func.setLoop (l : EventLoop) : Func → Func
  | .callback _ => .callback l
  | .publishing _ => .publishing l
  | .entering _ => .entering l
  | .looping _ => .looping l
  | f => f

end EventLoopThread

structure EventLoopThread where
  loop : EventLoopThread.Pointer := .null
  exiting : Bool := false
  started : Bool := false
  callback : Bool
  owner : EventLoopThread.Owner := .before
  func : EventLoopThread.Func := .notStarted

namespace EventLoopThread

-- ---------------------------------------------------------------------------
-- The code
-- ---------------------------------------------------------------------------

inductive Label
  | startLoop
  | test
  | wake
  | destructor
  /-- `loop_->quit()` up to `quit_ = true`, and the rest of it. -/
  | quit
  | wakeup
  | join
  /-- The thread function; the constructor leaves one member of the loop unset. -/
  | construct (calling : Bool)
  | endCallback
  | publish
  | enter
  | destroyLoop
  | loop (a : EventLoop.Label)
  deriving DecidableEq

def target (s : EventLoopThread) : Except Fault EventLoop :=
  match s.loop, s.func.loop? with
  | .null, _ => .error .null
  | .stack, none => .error .destroyed
  | .stack, some l => .ok l

def publish (s : EventLoopThread) (l : EventLoop) : EventLoopThread :=
  { s with
    loop := .stack
    owner := if s.owner = .waiting then .starting else s.owner
    func := .entering l }

def loopStep (l : EventLoop) (a : EventLoop.Label) : Except Fault EventLoop :=
  (l.step a).mapError .loop

def step (s : EventLoopThread) : Label → Except Fault EventLoopThread
  | .startLoop => do
    ensure (¬s.started) .started
    return { s with started := true, owner := .starting, func := .constructing }
  | .test => return { s with owner := if s.loop = .null then .waiting else .returned }
  | .wake => return { s with owner := .starting }
  | .destructor => return { s with exiting := true, owner := .exiting }
  | .quit => do
    let l ← loopStep (← s.target) (.setQuit 0)
    return { s with owner := .quitting, func := s.func.setLoop l }
  | .wakeup => do
    let l ← loopStep (← s.target) (.wakeup 0)
    return { s with owner := .joining, func := s.func.setLoop l }
  | .join => do
    ensure s.started .notStarted
    return { s with owner := .joined }
  | .construct calling =>
    let l := EventLoop.start calling
    return { s with func := if s.callback then .callback l else .publishing l }
  | .endCallback =>
    match s.func with
    | .callback l => return { s with func := .publishing l }
    | _ => return s
  | .publish =>
    match s.func with
    | .publishing l => return s.publish l
    | _ => return s
  | .enter =>
    match s.func with
    | .entering l => return { s with func := .looping (← loopStep l .loop) }
    | _ => return s
  | .destroyLoop => return { s with func := .finished }
  | .loop a =>
    match s.func.loop? with
    | some l => return { s with func := s.func.setLoop (← loopStep l a) }
    | none => return s

-- ---------------------------------------------------------------------------
-- Runs
-- ---------------------------------------------------------------------------

def Func.InLoop : Func → Prop
  | .looping _ => True
  | _ => False

/-- Code of the user runs in the thread: `callback_`, or what `loop()` calls. -/
def Func.InUser : Func → Prop
  | .callback _ => True
  | .looping l => l.pc ≠ .out
  | _ => False

def Func.Finished : Func → Prop
  | .finished => True
  | _ => False

/-- Who calls the loop from another thread: it knows the loop from `callback_` or
from `startLoop`. The owner calls it between `startLoop` and the destructor. -/
def MayCall (s : EventLoopThread) (t : Nat) : Prop :=
  (s.callback ∨ s.owner ∉ [.before, .starting, .waiting]) ∧ (t = 0 → s.owner = .returned)

def MayStep (s : EventLoopThread) : EventLoop.Label → Prop
  | .loop => False
  | .push t => s.MayCall t
  | .setQuit t => s.MayCall t
  | .wakeup t => s.MayCall t
  | .queueInLoop => s.func.InUser
  | .quit => s.func.InUser
  | _ => s.func.InLoop

def Func.Next : Func → Label → Prop
  | .constructing, .construct _ => True
  | .callback _, .endCallback => True
  | .publishing _, .publish => True
  | .entering _, .enter => True
  | .looping l, .destroyLoop => l.pc = .out
  | _, _ => False

/-- No call is made on a loop that is not there, other than by the destructor. -/
def Enabled (s : EventLoopThread) : Label → Prop
  | .startLoop => s.owner = .before
  | .test => s.owner = .starting
  | .wake => s.owner = .waiting
  | .destructor => s.owner = .before ∨ s.owner = .returned
  | .quit => s.owner = .exiting ∧ ∀ l ∈ s.func.loop?, l.Enabled (.setQuit 0)
  | .wakeup => s.owner = .quitting ∧ ∀ l ∈ s.func.loop?, l.Enabled (.wakeup 0)
  | .join => s.owner = .joining ∧ s.func.Finished
  | .loop a => (∃ l ∈ s.func.loop?, l.Enabled a) ∧ s.MayStep a
  | a => s.func.Next a

def machine : Machine EventLoopThread Label Fault where
  enabled := Enabled
  step := step

instance : ∀ f : Func, Decidable f.InLoop
  | .looping _ => .isTrue trivial
  | .notStarted | .constructing | .callback _ | .publishing _ | .entering _ | .finished =>
    .isFalse id

instance : ∀ f : Func, Decidable f.Finished
  | .finished => .isTrue trivial
  | .notStarted | .constructing | .callback _ | .publishing _ | .entering _ | .looping _ =>
    .isFalse id

instance (f : Func) : Decidable f.InUser := by
  unfold Func.InUser
  split <;> infer_instance

instance (s : EventLoopThread) (t : Nat) : Decidable (s.MayCall t) :=
  inferInstanceAs (Decidable (_ ∧ (t = 0 → _)))

instance (s : EventLoopThread) : ∀ a : EventLoop.Label, Decidable (s.MayStep a)
  | .loop => .isFalse id
  | .push t => inferInstanceAs (Decidable (s.MayCall t))
  | .setQuit t => inferInstanceAs (Decidable (s.MayCall t))
  | .wakeup t => inferInstanceAs (Decidable (s.MayCall t))
  | .queueInLoop => inferInstanceAs (Decidable s.func.InUser)
  | .quit => inferInstanceAs (Decidable s.func.InUser)
  | .test | .poll | .pollReturn | .handleRead | .doPendingFunctors | .swap | .functor
  | .endFunctors => inferInstanceAs (Decidable s.func.InLoop)

instance (f : Func) (a : Label) : Decidable (f.Next a) := by
  unfold Func.Next
  split <;> infer_instance

instance (l : EventLoop) (a : EventLoop.Label) : Decidable (l.Enabled a) :=
  inferInstanceAs (Decidable (EventLoop.machine.enabled l a))

instance (s : EventLoopThread) (a : Label) : Decidable (machine.enabled s a) := by
  unfold machine Enabled
  cases a <;> infer_instance

def start (callback : Bool) : EventLoopThread := { callback }

end EventLoopThread

end Muduo
