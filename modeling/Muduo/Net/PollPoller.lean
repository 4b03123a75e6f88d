import Muduo.Lib.OrdMap
import Muduo.Net.Channel
import Mathlib.Data.Int.Order.Basic
import Mathlib.Logic.Function.Basic

/-!
# PollPoller

`pollfds` is the array given to `poll(2)` and `channels` maps a descriptor to
its channel; a channel's `index` is its place in the array. Channels are named
by the elements of `ι`, which stand for their addresses.
-/

namespace Muduo

open Lib Function

/-- `struct pollfd`: the kernel ignores an entry with a negative `fd`. -/
structure PollFd where
  fd : Int
  events : BitVec 16
  revents : BitVec 16
  deriving DecidableEq

structure PollPoller (ι : Type) where
  chan : ι → Channel
  pollfds : List PollFd
  channels : OrdMap Int ι

namespace PollPoller

/-- The assertions of `updateChannel`, of `removeChannel` and of
`Channel::remove`, and the two accesses that have none of their own. -/
inductive Fault
  | updateNew
  | updateFind
  | updateOwner
  | updateIndex
  | updateFd
  | removeFind
  | removeOwner
  | removeNone
  | removeIndex
  | removeEntry
  | removeErased
  | channelRemove
  | outOfRange
  | nullChannel
  deriving DecidableEq

variable {ι : Type} [DecidableEq ι]

-- ---------------------------------------------------------------------------
-- The code
-- ---------------------------------------------------------------------------

def entry (pollfds : List PollFd) (idx : Int) : Except Fault PollFd :=
  match pollfds[idx.toNat]? with
  | some pfd => .ok pfd
  | none => .error .outOfRange

/-- The new values of an existing entry. The descriptor is negated when no
interest is left. -/
def refresh (pfd : PollFd) (c : Channel) : PollFd :=
  { fd := if c.isNoneEvent then -c.fd - 1 else pfd.fd
    events := c.events.setWidth 16
    revents := 0 }

def updateChannel (w : PollPoller ι) (i : ι) : Except Fault (PollPoller ι) := do
  let c := w.chan i
  if c.index < 0 then
    ensure (w.channels.find? c.fd = none) .updateNew
    let pfd : PollFd := { fd := c.fd, events := c.events.setWidth 16, revents := 0 }
    let pollfds := w.pollfds ++ [pfd]
    let idx : Int := pollfds.length - 1
    return { chan := update w.chan i { c with index := idx }
             pollfds := pollfds
             channels := w.channels.insert pfd.fd i }
  else
    ensure (w.channels.find? c.fd ≠ none) .updateFind
    ensure (w.channels.find? c.fd = some i) .updateOwner
    let idx := c.index
    ensure (0 ≤ idx ∧ idx < w.pollfds.length) .updateIndex
    let pfd ← entry w.pollfds idx
    ensure (pfd.fd = c.fd ∨ pfd.fd = -c.fd - 1) .updateFd
    return { w with pollfds := w.pollfds.set idx.toNat (refresh pfd c) }

/-- Takes the last entry into the hole at `idx` and repairs the index of its
channel, whose descriptor may be stored negated. -/
def fillHole (w : PollPoller ι) (idx : Int) (pfd : PollFd) : Except Fault (PollPoller ι) := do
  let back ← entry w.pollfds (w.pollfds.length - 1)
  let pollfds := (w.pollfds.set idx.toNat back).set (w.pollfds.length - 1) pfd
  let channelAtEnd := if back.fd < 0 then -back.fd - 1 else back.fd
  match w.channels.find? channelAtEnd with
  | none => .error .nullChannel
  | some j =>
    return { w with chan := update w.chan j { w.chan j with index := idx }
                    pollfds := pollfds.dropLast }

def removeChannel (w : PollPoller ι) (i : ι) : Except Fault (PollPoller ι) := do
  let c := w.chan i
  ensure (w.channels.find? c.fd ≠ none) .removeFind
  ensure (w.channels.find? c.fd = some i) .removeOwner
  ensure c.isNoneEvent .removeNone
  let idx := c.index
  ensure (0 ≤ idx ∧ idx < w.pollfds.length) .removeIndex
  let pfd ← entry w.pollfds idx
  ensure (pfd.fd = -c.fd - 1 ∧ pfd.events.signExtend 32 = c.events) .removeEntry
  let n := w.channels.count c.fd
  let w := { w with channels := w.channels.erase c.fd }
  ensure (n = 1) .removeErased
  if idx = w.pollfds.length - 1 then
    return { w with pollfds := w.pollfds.dropLast }
  else
    w.fillHole idx pfd

/-- A call that changes the interest of channel `i`, with its `update()`. -/
def change (w : PollPoller ι) (i : ι) (f : Channel.Interest) : Except Fault (PollPoller ι) :=
  updateChannel { w with chan := update w.chan i ((w.chan i).apply f) } i

def remove (w : PollPoller ι) (i : ι) : Except Fault (PollPoller ι) := do
  ensure (w.chan i).isNoneEvent .channelRemove
  w.removeChannel i

inductive Call (ι : Type)
  | change (i : ι) (f : Channel.Interest)
  | remove (i : ι)

def step (w : PollPoller ι) : Call ι → Except Fault (PollPoller ι)
  | .change i f => w.change i f
  | .remove i => w.remove i

def start (fd : ι → Int) : PollPoller ι := ⟨fun i => { fd := fd i }, [], .empty⟩

def machine (ι : Type) [DecidableEq ι] : Machine (PollPoller ι) (Call ι) Fault where
  enabled _ _ := True
  step := step

-- ---------------------------------------------------------------------------
-- Polling
-- ---------------------------------------------------------------------------

inductive PollFault
  | call (f : Fault)
  | activeFind
  | activeFd
  deriving DecidableEq

def answer (w : PollPoller ι) (revents : List (BitVec 16)) : PollPoller ι :=
  { w with pollfds := List.zipWith (fun pfd r => { pfd with revents := r }) w.pollfds revents }

def set_revents (chan : ι → Channel) (i : ι) (revt : BitVec 32) : ι → Channel :=
  update chan i { chan i with revents := revt }

def fillLoop (channels : OrdMap Int ι) : List PollFd → Int → (ι → Channel) → List ι →
    Except PollFault ((ι → Channel) × List ι)
  | [], _, chan, activeChannels => .ok (chan, activeChannels)
  | pfd :: pfds, numEvents, chan, activeChannels =>
    if 0 < numEvents then
      if 0 < pfd.revents.toInt then
        match channels.find? pfd.fd with
        | none => .error .activeFind
        | some channel => do
          ensure ((chan channel).fd = pfd.fd) .activeFd
          fillLoop channels pfds (numEvents - 1)
            (set_revents chan channel (pfd.revents.signExtend 32)) (activeChannels ++ [channel])
      else fillLoop channels pfds numEvents chan activeChannels
    else .ok (chan, activeChannels)

def fillActiveChannels (w : PollPoller ι) (numEvents : Int) (activeChannels : List ι) :
    Except PollFault (PollPoller ι × List ι) := do
  let (chan, activeChannels) ← fillLoop w.channels w.pollfds numEvents w.chan activeChannels
  return ({ w with chan }, activeChannels)

def poll (w : PollPoller ι) (numEvents : Int) (revents : List (BitVec 16))
    (activeChannels : List ι) : Except PollFault (PollPoller ι × List ι) :=
  let w := w.answer revents
  if 0 < numEvents then w.fillActiveChannels numEvents activeChannels
  else return (w, activeChannels)

/-- The kernel ignores entries with a negative descriptor, sets no sign bit and
counts the entries it has something to say about. -/
structure Answers (pollfds : List PollFd) (numEvents : Int) (revents : List (BitVec 16)) :
    Prop where
  length : revents.length = pollfds.length
  ignored : ∀ e ∈ pollfds.zip revents, e.1.fd < 0 → e.2 = 0
  nonneg : ∀ r ∈ revents, 0 ≤ r.toInt
  count : numEvents = revents.countP (· ≠ 0)

inductive Turn (ι : Type)
  /-- A new channel, at an address that is free. -/
  | create (i : ι) (fd : Nat)
  | call (c : Call ι)
  | poll (numEvents : Int) (revents : List (BitVec 16))
  /-- `poll(2)` returns -1, whatever it left in the entries. -/
  | pollError (revents : List (BitVec 16))

def turn (w : PollPoller ι) : Turn ι → Except PollFault (PollPoller ι)
  | .create i fd => .ok { w with chan := update w.chan i { fd } }
  | .call c => (w.step c).mapError .call
  | .poll numEvents revents => return (← w.poll numEvents revents []).1
  | .pollError revents => return (← w.poll (-1) revents []).1

/-- The poller of a loop: channels come and go, and their descriptors are used
again. A channel lives as long as it is registered. -/
def polling (ι : Type) [DecidableEq ι] : Machine (PollPoller ι) (Turn ι) PollFault where
  enabled w
    | .create i _ => i ∉ w.channels.entries.map Prod.snd
    | .call _ => True
    | .poll numEvents revents => Answers w.pollfds numEvents revents
    | .pollError revents => revents.length = w.pollfds.length
  step := turn

instance (pollfds : List PollFd) (numEvents : Int) (revents : List (BitVec 16)) :
    Decidable (Answers pollfds numEvents revents) :=
  have : Decidable (∀ r ∈ revents, 0 ≤ r.toInt) := List.decidableBAll _ revents
  decidable_of_iff (revents.length = pollfds.length ∧
      (∀ e ∈ pollfds.zip revents, e.1.fd < 0 → e.2 = 0) ∧ (∀ r ∈ revents, 0 ≤ r.toInt) ∧
      numEvents = revents.countP (· ≠ 0))
    ⟨fun h => ⟨h.1, h.2.1, h.2.2.1, h.2.2.2⟩, fun h => ⟨h.length, h.ignored, h.nonneg, h.count⟩⟩

instance : ∀ (w : PollPoller ι) a, Decidable ((polling ι).enabled w a)
  | w, .create i _ => inferInstanceAs (Decidable (i ∉ w.channels.entries.map Prod.snd))
  | _, .call _ => .isTrue trivial
  | w, .poll numEvents revents => inferInstanceAs (Decidable (Answers w.pollfds numEvents revents))
  | w, .pollError revents => inferInstanceAs (Decidable (revents.length = w.pollfds.length))

end PollPoller

end Muduo
