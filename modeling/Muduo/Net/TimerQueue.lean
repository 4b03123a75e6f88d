import Muduo.Base.Timestamp
import Muduo.Lib.Machine
import Muduo.Lib.OrdMap
import Mathlib.Algebra.Group.Nat.Defs
import Mathlib.Data.Prod.Lex
import Mathlib.Logic.Function.Basic

/-!
# TimerQueue

The timers of a loop and the memory they are in. `new` may give the address of
a deleted `Timer` again, so a pointer names the object it was made for beside
the address: a use through a pointer faults unless that very object is there.
Comparisons see the address only.
-/

namespace Muduo

open Lib Function

/-- A `Timer` without its callback. Its sequence number names it. -/
structure Timer where
  expiration : Timestamp
  /-- What `addTime` makes of the seconds in `interval_`. -/
  interval : Nat
  /-- `interval > 0`, which may hold of less than a microsecond. -/
  repeats : Bool
  sequence : Nat
  deriving DecidableEq

def Timer.restart (t : Timer) (now : Timestamp) : Timer :=
  { t with expiration := if t.repeats then now + t.interval else 0 }

namespace TimerQueue

/-- A `Timer*` and the object it was made for. -/
structure Ptr where
  addr : Nat
  object : Nat
  deriving DecidableEq

abbrev Entry := Timestamp ×ₗ Nat
abbrev ActiveTimer := Nat ×ₗ Nat
abbrev TimerList := OrdMap Entry Ptr
abbrev ActiveTimerSet := OrdMap ActiveTimer Ptr

structure Timespec where
  sec : Int
  nsec : Int
  deriving DecidableEq

/-- The clock in `resetTimerFd`: what `Timestamp::now()` reads, and when
`timerfd_settime` is called after that. -/
structure Clock where
  now : Timestamp
  settime : Timestamp
  deriving DecidableEq

structure Arming where
  clock : Clock
  value : Timespec
  deriving DecidableEq

def Arming.deadline (a : Arming) : Timestamp :=
  a.clock.settime + a.value.sec * Timestamp.kMicroSecondsPerSecond + a.value.nsec / 1000

inductive Fault
  | sizes
  | erase
  | insert
  | lowerBound
  /-- The object is deleted, or was never at that address. -/
  | dangling
  deriving DecidableEq

end TimerQueue

structure TimerQueue where
  heap : Nat → Option Timer := fun _ => none
  numCreated : Nat := 0
  deleted : List Nat := []
  timers : TimerQueue.TimerList := OrdMap.empty
  activeTimers : TimerQueue.ActiveTimerSet := OrdMap.empty
  callingExpiredTimers : Bool := false
  cancelingTimers : OrdSet TimerQueue.ActiveTimer := OrdMap.empty
  /-- Armed or expired, until it is read after it has expired. -/
  timerfd : Option TimerQueue.Arming := none

namespace TimerQueue

-- ---------------------------------------------------------------------------
-- Memory
-- ---------------------------------------------------------------------------

def UINTPTR_MAX : Nat := 2 ^ 64 - 1

/-- `t` is at the address in `p` and is the object `p` was made for. -/
def Live (q : TimerQueue) (p : Ptr) (t : Timer) : Prop :=
  q.heap p.addr = some t ∧ t.sequence = p.object

def deref (q : TimerQueue) (p : Ptr) : Except Fault Timer :=
  match q.heap p.addr with
  | some t => do
    ensure (t.sequence = p.object) .dangling
    return t
  | none => .error .dangling

/-- An address that `new Timer` may give: it is not in use and leaves room
below the end of memory. -/
def Free (q : TimerQueue) (addr : Nat) : Prop :=
  q.heap addr = none ∧ 0 < addr ∧ addr < UINTPTR_MAX

instance (q : TimerQueue) (addr : Nat) : Decidable (q.Free addr) :=
  inferInstanceAs (Decidable (_ ∧ _ ∧ _))

def new (q : TimerQueue) (addr : Nat) (expiration : Timestamp) (interval : Nat)
    (repeats : Bool) : Ptr × TimerQueue :=
  let sequence := q.numCreated + 1
  (⟨addr, sequence⟩, { q with
    heap := update q.heap addr (some ⟨expiration, interval, repeats, sequence⟩)
    numCreated := sequence })

def delete (q : TimerQueue) (p : Ptr) : Except Fault TimerQueue := do
  let _ ← q.deref p
  return { q with heap := update q.heap p.addr none, deleted := q.deleted ++ [p.object] }

def restart (q : TimerQueue) (p : Ptr) (now : Timestamp) : Except Fault TimerQueue := do
  let timer ← q.deref p
  return { q with heap := update q.heap p.addr (some (timer.restart now)) }

-- ---------------------------------------------------------------------------
-- The timerfd
-- ---------------------------------------------------------------------------

def howMuchTimeFromNow (when now : Timestamp) : Timespec :=
  -- an `int64_t`
  let microseconds := Int.bmod (when - now) (2 ^ 64)
  let microseconds := if microseconds < 100 then 100 else microseconds
  { sec := microseconds.tdiv Timestamp.kMicroSecondsPerSecond
    nsec := microseconds.tmod Timestamp.kMicroSecondsPerSecond * 1000 }

/-- The `read` at time `readAt`. Before the timerfd expires it gets nothing. -/
def readTimerfd (q : TimerQueue) (readAt : Timestamp) : TimerQueue :=
  match q.timerfd with
  | none => q
  | some a => if a.deadline ≤ readAt then { q with timerfd := none } else q

def resetTimerFd (q : TimerQueue) (clock : Clock) (expiration : Timestamp) : TimerQueue :=
  { q with timerfd := some ⟨clock, howMuchTimeFromNow expiration clock.now⟩ }

-- ---------------------------------------------------------------------------
-- The queue
-- ---------------------------------------------------------------------------

def entry (p : Ptr) (t : Timer) : Entry := toLex (t.expiration, p.addr)

def activeTimer (p : Ptr) (t : Timer) : ActiveTimer := toLex (p.addr, t.sequence)

def earliestChanged (q : TimerQueue) (timer : Timer) : Bool :=
  match q.timers.first? with
  | none => true
  | some it => timer.expiration < (ofLex it.1).1

def insert (q : TimerQueue) (p : Ptr) : Except Fault (Bool × TimerQueue) := do
  ensure (q.timers.size = q.activeTimers.size) .sizes
  let timer ← q.deref p
  let earliestChanged := q.earliestChanged timer
  ensure (q.timers.find? (entry p timer) = none) .insert
  ensure (q.activeTimers.find? (activeTimer p timer) = none) .insert
  let q := { q with
    timers := q.timers.insert (entry p timer) p
    activeTimers := q.activeTimers.insert (activeTimer p timer) p }
  ensure (q.timers.size = q.activeTimers.size) .sizes
  return (earliestChanged, q)

def addTimerInLoop (q : TimerQueue) (p : Ptr) (clock : Clock) : Except Fault TimerQueue := do
  let (earliestChanged, q) ← q.insert p
  if earliestChanged then
    let timer ← q.deref p
    return q.resetTimerFd clock timer.expiration
  else return q

def cancelInLoop (q : TimerQueue) (timer : ActiveTimer) : Except Fault TimerQueue := do
  ensure (q.timers.size = q.activeTimers.size) .sizes
  match q.activeTimers.find? timer with
  | some p =>
    let t ← q.deref p
    ensure (q.timers.count (entry p t) = 1) .erase
    let q ← { q with timers := q.timers.erase (entry p t) }.delete p
    let q := { q with activeTimers := q.activeTimers.erase timer }
    ensure (q.timers.size = q.activeTimers.size) .sizes
    return q
  | none =>
    let q :=
      if q.callingExpiredTimers then { q with cancelingTimers := q.cancelingTimers.add timer }
      else q
    ensure (q.timers.size = q.activeTimers.size) .sizes
    return q

def eraseActive : List Ptr → TimerQueue → Except Fault TimerQueue
  | [], q => .ok q
  | p :: expired, q => do
    let timer ← q.deref p
    ensure (q.activeTimers.count (activeTimer p timer) = 1) .erase
    eraseActive expired { q with activeTimers := q.activeTimers.erase (activeTimer p timer) }

/-- Of the entries it returns, the code uses the timers only. -/
def getExpired (q : TimerQueue) (now : Timestamp) : Except Fault (List Ptr × TimerQueue) := do
  ensure (q.timers.size = q.activeTimers.size) .sizes
  let sentry : Entry := toLex (now, UINTPTR_MAX)
  let expired := (q.timers.below sentry).map Prod.snd
  let timers := q.timers.dropBelow sentry
  ensure (∀ it ∈ timers.first?, now < (ofLex it.1).1) .lowerBound
  let q ← eraseActive expired { q with timers }
  ensure (q.timers.size = q.activeTimers.size) .sizes
  return (expired, q)

def resetEach (now : Timestamp) : List Ptr → TimerQueue → Except Fault TimerQueue
  | [], q => .ok q
  | p :: expired, q => do
    let timer ← q.deref p
    if timer.repeats ∧ activeTimer p timer ∉ q.cancelingTimers then
      let q ← q.restart p now
      let (_, q) ← q.insert p
      resetEach now expired q
    else
      let q ← q.delete p
      resetEach now expired q

def reset (q : TimerQueue) (expired : List Ptr) (now : Timestamp) (clock : Clock) :
    Except Fault TimerQueue := do
  let q ← resetEach now expired q
  match q.timers.first? with
  | none => return q
  | some it =>
    let timer ← q.deref it.2
    return if timer.expiration.valid then q.resetTimerFd clock timer.expiration else q

/-- `handleRead` up to its loop. -/
def beginRead (q : TimerQueue) (now readAt : Timestamp) : Except Fault (List Ptr × TimerQueue) := do
  let (expired, q) ← (q.readTimerfd readAt).getExpired now
  return (expired, { q with callingExpiredTimers := true, cancelingTimers := OrdMap.empty })

/-- `handleRead` after its loop. -/
def endRead (q : TimerQueue) (expired : List Ptr) (now : Timestamp) (clock : Clock) :
    Except Fault TimerQueue :=
  { q with callingExpiredTimers := false }.reset expired now clock

end TimerQueue

-- ---------------------------------------------------------------------------
-- Runs
-- ---------------------------------------------------------------------------

/-- What `handleRead` has in its hands: the expired timers whose callbacks were
started, the others, and the time it began. -/
structure Batch where
  done : List TimerQueue.Ptr
  rest : List TimerQueue.Ptr
  now : Timestamp

/-- A queue in the hands of its loop, with the timers that were made and are on
their way to `addTimerInLoop`. -/
structure Timers where
  queue : TimerQueue := {}
  pending : List TimerQueue.Ptr := []
  batch : Option Batch := none
  started : List Nat := []

namespace Timers

open TimerQueue

inductive Label
  | new (addr : Nat) (expiration : Timestamp) (interval : Nat) (repeats : Bool)
  | addTimerInLoop (p : Ptr) (clock : Clock)
  | cancelInLoop (addr sequence : Nat)
  /-- `now` is the time `handleRead` goes by, `readAt` that of its `read`. -/
  | beginRead (now readAt : Timestamp)
  | callback
  | endRead (clock : Clock)

/-- Whatever calls into the queue runs outside of `handleRead` or in one of the
callbacks. -/
def InUser (s : Timers) : Prop :=
  match s.batch with
  | none => True
  | some b => b.done ≠ []

def Enabled (s : Timers) : Label → Prop
  | .new addr _ _ _ => s.queue.Free addr
  | .addTimerInLoop p _ => s.InUser ∧ p ∈ s.pending
  | .cancelInLoop _ _ => s.InUser
  | .beginRead _ _ => s.batch.isNone
  | .callback => ∃ b ∈ s.batch, b.rest ≠ []
  | .endRead _ => ∃ b ∈ s.batch, b.rest = []

def step (s : Timers) : Label → Except Fault Timers
  | .new addr expiration interval repeats =>
    let (p, queue) := s.queue.new addr expiration interval repeats
    return { s with queue, pending := s.pending ++ [p] }
  | .addTimerInLoop p clock => do
    let queue ← s.queue.addTimerInLoop p clock
    return { s with queue, pending := s.pending.erase p }
  | .cancelInLoop addr sequence => do
    let queue ← s.queue.cancelInLoop (toLex (addr, sequence))
    return { s with queue }
  | .beginRead now readAt => do
    let (expired, queue) ← s.queue.beginRead now readAt
    return { s with queue, batch := some ⟨[], expired, now⟩ }
  | .callback =>
    match s.batch with
    | some ⟨done, p :: rest, now⟩ => do
      let timer ← s.queue.deref p
      return { s with
        batch := some ⟨done ++ [p], rest, now⟩, started := s.started ++ [timer.sequence] }
    | _ => return s
  | .endRead clock =>
    match s.batch with
    | some b => do
      let queue ← s.queue.endRead b.done b.now clock
      return { s with queue, batch := none }
    | none => return s

def machine : Machine Timers Label Fault where
  enabled := Enabled
  step := step

instance (s : Timers) : Decidable s.InUser := by
  unfold InUser
  split <;> infer_instance

instance (s : Timers) (a : Label) : Decidable (machine.enabled s a) := by
  unfold machine Enabled
  cases a <;> infer_instance

end Timers

end Muduo
