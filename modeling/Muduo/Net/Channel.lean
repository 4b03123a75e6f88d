import Muduo.Lib.Machine

/-!
# Channel

A channel is one descriptor of a loop with the events it is interested in. The
bits are those of `poll(2)`. The member functions that change the interest call
`update()` afterwards; what the poller does then is in `PollPoller`.
-/

namespace Muduo

open Lib

abbrev POLLIN : BitVec 32 := 0x001
abbrev POLLPRI : BitVec 32 := 0x002
abbrev POLLOUT : BitVec 32 := 0x004
abbrev POLLERR : BitVec 32 := 0x008
abbrev POLLHUP : BitVec 32 := 0x010
abbrev POLLNVAL : BitVec 32 := 0x020
abbrev POLLRDHUP : BitVec 32 := 0x2000

structure Channel where
  fd : Int
  events : BitVec 32 := 0
  revents : BitVec 32 := 0
  index : Int := -1
  deriving DecidableEq

namespace Channel

def kNoneEvent : BitVec 32 := 0
def kReadEvent : BitVec 32 := POLLIN ||| POLLPRI
def kWriteEvent : BitVec 32 := POLLOUT

def isNoneEvent (c : Channel) : Prop := c.events = kNoneEvent
def isWriting (c : Channel) : Prop := c.events &&& kWriteEvent ≠ 0
def isReading (c : Channel) : Prop := c.events &&& kReadEvent ≠ 0

instance (c : Channel) : Decidable c.isNoneEvent := inferInstanceAs (Decidable (_ = _))
instance (c : Channel) : Decidable c.isWriting := inferInstanceAs (Decidable (_ ≠ _))
instance (c : Channel) : Decidable c.isReading := inferInstanceAs (Decidable (_ ≠ _))

def enableReading (c : Channel) : Channel := { c with events := c.events ||| kReadEvent }
def enableWriting (c : Channel) : Channel := { c with events := c.events ||| kWriteEvent }
def disableReading (c : Channel) : Channel := { c with events := c.events &&& ~~~kReadEvent }
def disableWriting (c : Channel) : Channel := { c with events := c.events &&& ~~~kWriteEvent }
def disableAll (c : Channel) : Channel := { c with events := kNoneEvent }

/-- The calls that change a channel's interest. -/
inductive Interest
  | enableReading
  | enableWriting
  | disableReading
  | disableWriting
  | disableAll
  deriving DecidableEq

def apply (c : Channel) : Interest → Channel
  | .enableReading => c.enableReading
  | .enableWriting => c.enableWriting
  | .disableReading => c.disableReading
  | .disableWriting => c.disableWriting
  | .disableAll => c.disableAll

@[simp] theorem apply_fd (c : Channel) (f : Interest) : (c.apply f).fd = c.fd := by
  cases f <;> rfl

@[simp] theorem apply_index (c : Channel) (f : Interest) : (c.apply f).index = c.index := by
  cases f <;> rfl

/-- The interest a channel can have: reading, writing, both or none. -/
def Plain (c : Channel) : Prop :=
  c.events = 0 ∨ c.events = 3 ∨ c.events = 4 ∨ c.events = 7

theorem Plain.apply {c : Channel} (h : c.Plain) (f : Interest) : (c.apply f).Plain := by
  obtain ⟨fd, events, revents, index⟩ := c
  simp only [Plain] at h
  rcases h with rfl | rfl | rfl | rfl <;> cases f <;>
    simp only [Plain, Channel.apply, enableReading, enableWriting, disableReading,
      disableWriting, disableAll] <;> decide

theorem enableWriting_isWriting (c : Channel) : c.enableWriting.isWriting := by
  have h : (c.events ||| kWriteEvent) &&& kWriteEvent = kWriteEvent := by
    ext i hi
    by_cases hk : kWriteEvent[i] <;> simp [hk]
  simp only [isWriting, enableWriting, h]
  decide

theorem disableWriting_not_isWriting (c : Channel) : ¬c.disableWriting.isWriting := by
  simp [isWriting, disableWriting, BitVec.and_assoc]

theorem enableReading_isReading (c : Channel) : c.enableReading.isReading := by
  have h : (c.events ||| kReadEvent) &&& kReadEvent = kReadEvent := by
    ext i hi
    by_cases hk : kReadEvent[i] <;> simp [hk]
  simp only [isReading, enableReading, h]
  decide

theorem enableReading_isWriting (c : Channel) : c.enableReading.isWriting = c.isWriting := by
  simp only [isWriting, enableReading]
  rw [BitVec.and_or_distrib_right, show kReadEvent &&& kWriteEvent = 0 from by decide]
  simp

theorem enableWriting_isReading {c : Channel} (h : c.isReading) : c.enableWriting.isReading := by
  simp only [isReading, enableWriting] at h ⊢
  rw [BitVec.and_or_distrib_right, show kWriteEvent &&& kReadEvent = 0 from by decide]
  simpa using h

theorem disableWriting_isReading {c : Channel} (h : c.isReading) :
    c.disableWriting.isReading := by
  simp only [isReading, disableWriting] at h ⊢
  rw [BitVec.and_assoc, show ~~~kWriteEvent &&& kReadEvent = kReadEvent from by decide]
  exact h

theorem isReading.not_isNoneEvent {c : Channel} (h : c.isReading) : ¬c.isNoneEvent := by
  intro hn
  simp only [isNoneEvent] at hn
  simp [isReading, hn, kNoneEvent] at h

theorem isNoneEvent.not_isWriting {c : Channel} (h : c.isNoneEvent) : ¬c.isWriting := by
  simp only [isNoneEvent] at h
  simp [isWriting, h, kNoneEvent]

theorem disableAll_isNoneEvent (c : Channel) : c.disableAll.isNoneEvent := rfl

theorem Plain.enableWriting_of_isWriting {c : Channel} (h : c.Plain) (hw : c.isWriting) :
    c.enableWriting = c := by
  have he : c.events ||| kWriteEvent = c.events := by
    rcases h with h | h | h | h <;> simp only [isWriting, h] at hw ⊢ <;> revert hw <;> decide
  simp [enableWriting, he]

/-- The cast of the interest to the `short` of a `pollfd` loses nothing. -/
theorem Plain.short {c : Channel} (h : c.Plain) :
    (c.events.setWidth 16).signExtend 32 = c.events := by
  rcases h with h | h | h | h <;> rw [h] <;> decide

-- ---------------------------------------------------------------------------
-- Dispatch
-- ---------------------------------------------------------------------------

inductive Callback
  | close
  | error
  | read
  | write
  deriving DecidableEq

/-- The callbacks that may close a connection. -/
def Callback.closes : Callback → Bool
  | .close => true
  | .read => true
  | _ => false

/-- The callbacks `handleEventWithGuard` makes for the returned events, in
order, when all four are set. -/
def callbacks (revents : BitVec 32) : List Callback :=
  (if revents &&& POLLHUP ≠ 0 ∧ revents &&& POLLIN = 0 then [.close] else []) ++
  (if revents &&& (POLLNVAL ||| POLLERR) ≠ 0 then [.error] else []) ++
  (if revents &&& (POLLIN ||| POLLPRI ||| POLLRDHUP) ≠ 0 then [.read] else []) ++
  (if revents &&& POLLOUT ≠ 0 then [.write] else [])

end Channel

end Muduo
