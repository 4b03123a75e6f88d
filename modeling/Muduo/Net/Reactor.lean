import Muduo.Net.Connector
import Muduo.Net.TcpServer

/-!
# A loop and what it serves

A reactor is one `EventLoop` with the clients and servers of its thread and the
channels they have in its poller. `poll` gives a batch of channels; a handler of
the current one runs, and the callbacks of the user with it, which may call
anything. Loop 0 of a server is this loop; its other loops have threads of their
own.
-/

namespace Muduo

open Lib Function

namespace Reactor

inductive Chan
  | wakeup
  | timerfd
  | acceptor (server : Nat)
  | connection (server c : Nat)
  | connector (client : Nat) (fd : Int)
  | clientConnection (client : Nat) (fd : Int)
  | user (n : Nat)
  deriving DecidableEq

inductive Fault
  /-- `currentActiveChannel_ == channel || std::find(..) == activeChannels_.end()` -/
  | removeChannel
  | client (fault : Connector.Fault)
  | server (fault : TcpServer.Fault)
  deriving DecidableEq

end Reactor

structure Reactor where
  eventHandling : Bool := false
  activeChannels : List Reactor.Chan := []
  rest : List Reactor.Chan := []
  currentActiveChannel : Option Reactor.Chan := none
  client : Nat → ClientLoop := fun _ => {}
  server : Nat → World
  listenning : Nat → Bool := fun _ => false
  users : List Nat := []

namespace Reactor

-- ---------------------------------------------------------------------------
-- The loop
-- ---------------------------------------------------------------------------

def Removable (l : Reactor) (ch : Chan) : Prop :=
  l.eventHandling = true → l.currentActiveChannel = some ch ∨ ch ∉ l.activeChannels

instance (l : Reactor) (ch : Chan) : Decidable (l.Removable ch) :=
  inferInstanceAs (Decidable (_ → _ ∨ _))

/-- Up to the call of the poller. -/
def removeChannel (l : Reactor) (ch : Chan) : Except Fault Unit :=
  ensure (l.Removable ch) .removeChannel

def removeChannels (l : Reactor) : List Chan → Except Fault Unit
  | [] => .ok ()
  | ch :: chs => do
    l.removeChannel ch
    l.removeChannels chs

def poll (l : Reactor) (active : List Chan) : Reactor :=
  { l with eventHandling := true, activeChannels := active, rest := active }

def next (l : Reactor) : Reactor :=
  match l.rest with
  | ch :: rest => { l with currentActiveChannel := some ch, rest }
  | [] => { l with currentActiveChannel := none, eventHandling := false }

-- ---------------------------------------------------------------------------
-- The objects
-- ---------------------------------------------------------------------------

/-- A call of client `k`. The channels it takes out of the poller go through
`removeChannel`. -/
def onClient (l : Reactor) (k : Nat) (f : ClientLoop → Except Connector.Fault ClientLoop) :
    Except Fault Reactor := do
  let w ← (f (l.client k)).mapError .client
  l.removeChannels (((l.client k).registered.filter (· ∉ w.registered)).map (.connector k))
  return { l with client := update l.client k w }

/-- The connections of which `connectDestroyed` was run, with its `remove()`. -/
def destroyed (w w' : World) : List Nat :=
  (w'.log.drop w.log.length).filterMap fun e => if e.2 = .destroyed then some e.1 else none

def onServer (l : Reactor) (j : Nat) (f : World → Except TcpServer.Fault World) :
    Except Fault Reactor := do
  let w ← (f (l.server j)).mapError .server
  l.removeChannels ((destroyed (l.server j) w).map (.connection j))
  return { l with server := update l.server j w }

/-- A step of server `j` on the thread of another loop. -/
def elsewhere (l : Reactor) (j : Nat) (f : World → Except TcpServer.Fault World) :
    Except Fault Reactor := do
  let w ← (f (l.server j)).mapError .server
  return { l with server := update l.server j w }

def destroyConnection (w : World) (c : Nat) : Except TcpServer.Fault World :=
  if (w.member c).loop = 0 then w.connectDestroyed 0 c
  else .ok (w.queueInLoop (w.member c).loop (.connectDestroyed c))

def destroyConnections : List Nat → World → Except TcpServer.Fault World
  | [], w => .ok w
  | c :: cs, w => do
    let w ← destroyConnection w c
    destroyConnections cs w

def connections (w : World) : List Nat := w.server.connections.entries.map Prod.snd

def destroyServer (l : Reactor) (j : Nat) : Except Fault Reactor := do
  let l ← l.onServer j fun w => do
    let w ← destroyConnections (connections w) w
    return { w with server := { w.server with connections := .empty } }
  l.removeChannel (.acceptor j)
  return { l with listenning := update l.listenning j false }

/-- `~TcpClient`: with a connection it only sets a callback. -/
def destroyClient (l : Reactor) (k : Nat) (inLoop : Bool) : Except Fault Reactor :=
  if (l.client k).client.connection = none then l.onClient k (Connector.stop · inLoop)
  else .ok l

-- ---------------------------------------------------------------------------
-- Runs
-- ---------------------------------------------------------------------------

inductive Label
  | poll (active : List Chan)
  | next
  | client (k : Nat) (a : ClientLoop.Label)
  | destroyClient (k : Nat) (inLoop : Bool)
  | handle (j c : Nat) (rd : ReadResult) (wr : WriteResult) (cb : Channel.Callback)
  | server (j : Nat) (a : World.Label)
  | listen (j : Nat)
  | destroyServer (j : Nat)
  | enableUser (n : Nat)
  | removeUser (n : Nat)

def Pollable (l : Reactor) : Chan → Prop
  | .wakeup => True
  | .timerfd => True
  | .acceptor j => l.listenning j = true
  | .connection j c => ((l.server j).member c).loop = 0 ∧
    (c, .established) ∈ (l.server j).log ∧ (c, .destroyed) ∉ (l.server j).log
  | .connector k fd => fd ∈ (l.client k).registered
  | .clientConnection k fd => .newConnection fd ∈ (l.client k).log
  | .user n => n ∈ l.users

/-- Functors run between the batches and timers when the timerfd is read. The
other calls come from the user, on any thread. -/
def ClientEnabled (l : Reactor) (k : Nat) : ClientLoop.Label → Prop
  | .functor _ => l.eventHandling = false ∧ (l.client k).functors ≠ []
  | .timer i _ => l.currentActiveChannel = some .timerfd ∧ i < (l.client k).timers.length
  | .event fd _ _ _ => l.currentActiveChannel = some (.connector k fd)
  | .close conn _ =>
    l.currentActiveChannel = some (.clientConnection k conn) ∧ conn ∈ (l.client k).conns
  | _ => True

def onLoop : World.Label → Nat
  | .poll loop _ => loop
  | .dispatch loop _ _ => loop
  | .functor loop _ => loop
  | _ => 0

def ServerEnabled (l : Reactor) (j : Nat) : World.Label → Prop
  | .newConnection _ => l.currentActiveChannel = some (.acceptor j)
  | .poll loop active => loop ≠ 0 ∧ World.machine.enabled (l.server j) (.poll loop active)
  | .dispatch loop rd wr => loop ≠ 0 ∧ World.machine.enabled (l.server j) (.dispatch loop rd wr)
  | .functor loop wr =>
    (loop = 0 → l.eventHandling = false) ∧ World.machine.enabled (l.server j) (.functor loop wr)
  | a => World.machine.enabled (l.server j) a

def Enabled (l : Reactor) : Label → Prop
  | .poll active => l.eventHandling = false ∧ ∀ ch ∈ active, l.Pollable ch
  | .next => l.eventHandling = true
  | .client k a => l.ClientEnabled k a
  | .handle j c _ wr _ => l.currentActiveChannel = some (.connection j c) ∧
    wr.Fits ((l.server j).member c).conn.outputBuffer.readable
  | .server j a => l.ServerEnabled j a
  | _ => True

def step (l : Reactor) : Label → Except Fault Reactor
  | .poll active => .ok (l.poll active)
  | .next => .ok l.next
  | .client k a => l.onClient k (·.step a)
  | .destroyClient k inLoop => l.destroyClient k inLoop
  | .handle j c rd wr cb =>
    l.onServer j fun w => (w.note c .event).call 0 c (·.handle rd wr cb)
  | .server j a => if onLoop a = 0 then l.onServer j (·.step a) else l.elsewhere j (·.step a)
  | .listen j => .ok { l with listenning := update l.listenning j true }
  | .destroyServer j => l.destroyServer j
  | .enableUser n => .ok { l with users := l.users ++ [n] }
  | .removeUser n => do
    l.removeChannel (.user n)
    return { l with users := l.users.filter (· ≠ n) }

def machine : Machine Reactor Label Fault where
  enabled := Enabled
  step := step

instance (l : Reactor) : DecidablePred l.Pollable := fun ch => by
  unfold Pollable
  cases ch <;> infer_instance

instance (l : Reactor) (k : Nat) : DecidablePred (l.ClientEnabled k)
  | .functor _ => inferInstanceAs (Decidable (_ ∧ _))
  | .timer _ _ => inferInstanceAs (Decidable (_ ∧ _))
  | .event _ _ _ _ => inferInstanceAs (Decidable (_ = _))
  | .close _ _ => inferInstanceAs (Decidable (_ ∧ _))
  | .connect _ _ => isTrue trivial
  | .disconnect => isTrue trivial
  | .stop _ => isTrue trivial
  | .enableRetry => isTrue trivial

instance (l : Reactor) (j : Nat) : DecidablePred (l.ServerEnabled j)
  | .newConnection _ => inferInstanceAs (Decidable (_ = _))
  | .poll _ _ => inferInstanceAs (Decidable (_ ∧ _))
  | .dispatch _ _ _ => inferInstanceAs (Decidable (_ ∧ _))
  | .functor _ _ => inferInstanceAs (Decidable (_ ∧ _))
  | .send _ _ _ _ => inferInstanceAs (Decidable (World.machine.enabled _ _))
  | .shutdown _ _ => inferInstanceAs (Decidable (World.machine.enabled _ _))
  | .retrieve _ _ => inferInstanceAs (Decidable (World.machine.enabled _ _))

instance (l : Reactor) (a : Label) : Decidable (machine.enabled l a) := by
  unfold machine Enabled
  cases a <;> infer_instance

def start (name hostport : Nat → Bytes) (numLoops : Nat → Nat) (wc : Nat → Bool) : Reactor where
  server j := World.start (name j) (hostport j) (numLoops j) (wc j)

end Reactor

end Muduo
