import Muduo.Lib.Machine
import Mathlib.Logic.Function.Basic

/-!
# EventLoop

The loop thread in `loop()`, and any number of other threads that queue
functors or ask the loop to quit. A functor is named by its place in the order
of the pushes. An eventfd is its counter: a write adds one, a read sets it to
zero, and `poll` reports it while it is positive.
-/

namespace Muduo

open Lib Function

namespace EventLoop

inductive Pc
  | out
  | test
  | enter
  | polling
  /-- Handling the active channels, `wakeup` if the wakeup channel is still
  among them. -/
  | events (wakeup : Bool)
  | calling
  | running
  deriving DecidableEq

/-- Another thread, and the write it owes after what it did. -/
inductive Thread
  | idle
  | pushed (f : Nat)
  | quitting
  deriving DecidableEq

/-- When a functor was queued: during which call of `doPendingFunctors`, if any,
and after how many swaps. -/
structure Push where
  pass : Option Nat
  swaps : Nat
  deriving DecidableEq

structure Start where
  functor : Nat
  pass : Nat
  deriving DecidableEq

inductive Fault
  | looping
  deriving DecidableEq

end EventLoop

structure EventLoop where
  looping : Bool := false
  quit : Bool := false
  /-- The constructor does not set it. -/
  callingPendingFunctors : Bool
  pendingFunctors : List Nat := []
  wakeupFd : Nat := 0
  pc : EventLoop.Pc := .out
  functors : List Nat := []
  thread : Nat → EventLoop.Thread := fun _ => .idle
  polls : Nat := 0
  passes : Nat := 0
  swaps : Nat := 0
  queued : List EventLoop.Push := []
  started : List EventLoop.Start := []

namespace EventLoop

-- ---------------------------------------------------------------------------
-- The code
-- ---------------------------------------------------------------------------

inductive Label
  | loop
  | test
  | poll
  | pollReturn
  | handleRead
  | doPendingFunctors
  | swap
  | functor
  | endFunctors
  /-- Calls of the loop thread, from a callback or a functor or outside of the loop. -/
  | queueInLoop
  | quit
  /-- Calls of other threads, in two steps. -/
  | push (t : Nat)
  | setQuit (t : Nat)
  | wakeup (t : Nat)
  deriving DecidableEq

def wakeup (l : EventLoop) : EventLoop := { l with wakeupFd := l.wakeupFd + 1 }

def inPass (l : EventLoop) : Option Nat :=
  match l.pc with
  | .calling => some l.passes
  | .running => some l.passes
  | _ => none

def pushBack (l : EventLoop) : EventLoop :=
  { l with
    pendingFunctors := l.pendingFunctors ++ [l.queued.length]
    queued := l.queued ++ [⟨l.inPass, l.swaps⟩] }

def setThread (l : EventLoop) (t : Nat) (s : Thread) : EventLoop :=
  { l with thread := update l.thread t s }

def InUser (l : EventLoop) : Prop :=
  match l.pc with
  | .out => True
  | .events _ => True
  | .running => True
  | _ => False

def Enabled (l : EventLoop) : Label → Prop
  | .loop => l.pc = .out
  | .test => l.pc = .test
  | .poll => l.pc = .enter
  | .pollReturn => l.pc = .polling
  | .handleRead => l.pc = .events true
  | .doPendingFunctors => l.pc = .events false
  | .swap => l.pc = .calling
  | .functor => l.pc = .running ∧ l.functors ≠ []
  | .endFunctors => l.pc = .running ∧ l.functors = []
  | .queueInLoop => l.InUser
  | .quit => l.InUser
  | .push t => l.thread t = .idle
  | .setQuit t => l.thread t = .idle
  | .wakeup t => l.thread t ≠ .idle

def step (l : EventLoop) : Label → Except Fault EventLoop
  | .loop => do
    ensure (¬l.looping) .looping
    return { l with looping := true, pc := .test }
  | .test =>
    if l.quit then return { l with looping := false, pc := .out }
    else return { l with pc := .enter }
  | .poll => return { l with pc := .polling, polls := l.polls + 1 }
  | .pollReturn => return { l with pc := .events (0 < l.wakeupFd) }
  | .handleRead => return { l with wakeupFd := 0, pc := .events false }
  | .doPendingFunctors =>
    return { l with callingPendingFunctors := true, pc := .calling, passes := l.passes + 1 }
  | .swap => return { l with
      functors := l.pendingFunctors, pendingFunctors := [], pc := .running, swaps := l.swaps + 1 }
  | .functor =>
    match l.functors with
    | [] => return l
    | f :: functors => return { l with functors, started := l.started ++ [⟨f, l.passes⟩] }
  | .endFunctors => return { l with callingPendingFunctors := false, pc := .test }
  | .queueInLoop =>
    return if l.callingPendingFunctors then l.pushBack.wakeup else l.pushBack
  | .quit => return { l with quit := true }
  | .push t => return l.pushBack.setThread t (.pushed l.queued.length)
  | .setQuit t => return { l with quit := true }.setThread t .quitting
  | .wakeup t => return l.wakeup.setThread t .idle

def machine : Machine EventLoop Label Fault where
  enabled := Enabled
  step := step

instance (l : EventLoop) : Decidable l.InUser := by
  unfold InUser
  split <;> infer_instance

instance (l : EventLoop) (a : Label) : Decidable (machine.enabled l a) := by
  unfold machine Enabled
  cases a <;> infer_instance

/-- A loop as its constructor leaves it, with any value of the member it does
not set. -/
def start (calling : Bool) : EventLoop := { callingPendingFunctors := calling }

end EventLoop

end Muduo
