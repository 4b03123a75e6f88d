import Muduo.Lib.OrdMap
import Muduo.Net.ConnectionState
import Mathlib.Data.List.Lex
import Mathlib.Logic.Function.Basic

/-!
# TcpServer

A server with its loops while it is alive. Loop 0 is the base loop, loop `i + 1`
is `loops_[i]` of the thread pool. A loop has a queue of functors and the
callbacks left of the events it is handling. Connections are numbered as they
are accepted; the number stands for the pointer. A call of `send` or `shutdown` is
one step: the test of `state_` and what follows it are not taken apart.
-/

namespace Muduo

open Lib Function

namespace TcpServer

inductive Task
  | connectEstablished (c : Nat)
  | removeConnectionInLoop (c : Nat)
  | connectDestroyed (c : Nat)
  | connection (c : Nat) (f : TcpConnection.Functor)
  deriving DecidableEq

def Task.conn : Task → Nat
  | .connectEstablished c => c
  | .removeConnectionInLoop c => c
  | .connectDestroyed c => c
  | .connection c _ => c

/-- The functor takes a connection from one stage of its life to the next. -/
def Task.isLifecycle : Task → Bool
  | .connection _ _ => false
  | _ => true

inductive Milestone
  | established
  | event
  | closed
  | removed
  | destroyed
  deriving DecidableEq

inductive Fault
  | connection (fault : TcpConnection.Fault)
  | removeConnection
  | outOfRange
  deriving DecidableEq

end TcpServer

structure TcpServer where
  name : Bytes
  hostport : Bytes
  numLoops : Nat
  next : Nat := 0
  writeCompleteCallback : Bool := false
  nextConnId : Nat := 1
  connections : OrdMap Bytes Nat := OrdMap.empty

structure Member where
  conn : TcpConnection
  loop : Nat
  name : Bytes

structure World where
  server : TcpServer
  accepted : Nat := 0
  member : Nat → Member
  queue : Nat → List TcpServer.Task := fun _ => []
  todo : Nat → List (Nat × Channel.Callback) := fun _ => []
  log : List (Nat × TcpServer.Milestone) := []

namespace TcpServer

-- ---------------------------------------------------------------------------
-- The server
-- ---------------------------------------------------------------------------

def decimal (n : Nat) : Bytes := (Nat.toDigits 10 n).map Char.toUInt8

/-- `snprintf` cuts what it prints to the 31 characters `buf` has room for. -/
def connName (s : TcpServer) : Bytes :=
  s.name ++ (ascii ":" ++ s.hostport ++ ascii "#" ++ decimal s.nextConnId).take 31

/-- Round robin over the loops of the pool, or the base loop if it has none. -/
def getNextLoop (s : TcpServer) : Except Fault (Nat × TcpServer) := do
  if s.numLoops = 0 then
    return (0, s)
  else
    ensure (s.next < s.numLoops) .outOfRange
    let next := s.next + 1
    return (s.next + 1, { s with next := if next ≥ s.numLoops then 0 else next })

end TcpServer

namespace World

open TcpServer

-- ---------------------------------------------------------------------------
-- The code
-- ---------------------------------------------------------------------------

def setConn (w : World) (c : Nat) (conn : TcpConnection) : World :=
  { w with member := update w.member c { w.member c with conn } }

def note (w : World) (c : Nat) (m : Milestone) : World := { w with log := w.log ++ [(c, m)] }

def queueInLoop (w : World) (loop : Nat) (t : Task) : World :=
  { w with queue := update w.queue loop (w.queue loop ++ [t]) }

def removeConnectionInLoop (w : World) (c : Nat) : Except Fault World := do
  let name := (w.member c).name
  let n := w.server.connections.count name
  let w := { w with server := { w.server with connections := w.server.connections.erase name } }
  ensure (n = 1) .removeConnection
  return (w.note c .removed).queueInLoop (w.member c).loop (.connectDestroyed c)

/-- The close callback of a connection, called on the loop `here`. -/
def removeConnection (w : World) (here c : Nat) : Except Fault World :=
  if here = 0 then w.removeConnectionInLoop c
  else .ok (w.queueInLoop 0 (.removeConnectionInLoop c))

/-- What connection `c` does outside of itself, on the loop `here`. -/
def perform (here c : Nat) : List TcpConnection.Effect → World → Except Fault World
  | [], w => .ok w
  | .queueInLoop f :: effects, w =>
    perform here c effects (w.queueInLoop (w.member c).loop (.connection c f))
  | .closeCallback :: effects, w => do
    let w ← (w.note c .closed).removeConnection here c
    perform here c effects w
  | _ :: effects, w => perform here c effects w

def onConnection : Except TcpConnection.Fault α → Except Fault α := Except.mapError .connection

def call (w : World) (here c : Nat)
    (f : TcpConnection → Except TcpConnection.Fault (TcpConnection × List TcpConnection.Effect)) :
    Except Fault World := do
  let (conn, effects) ← onConnection (f (w.member c).conn)
  perform here c effects (w.setConn c conn)

def connectEstablished (w : World) (here c : Nat) : Except Fault World :=
  (w.note c .established).call here c TcpConnection.connectEstablished

def connectDestroyed (w : World) (here c : Nat) : Except Fault World :=
  (w.note c .destroyed).call here c TcpConnection.connectDestroyed

def newConnection (w : World) (sockfd : Int) : Except Fault World := do
  let (ioLoop, server) ← w.server.getNextLoop
  let connName := server.connName
  let conn : TcpConnection :=
    { channel := { fd := sockfd }, writeCompleteCallback := server.writeCompleteCallback }
  let c := w.accepted
  let w := { w with
    server := { server with
      nextConnId := server.nextConnId + 1
      connections := server.connections.insert connName c }
    accepted := c + 1
    member := update w.member c { conn, loop := ioLoop, name := connName } }
  if ioLoop = 0 then w.connectEstablished 0 c
  else return w.queueInLoop ioLoop (.connectEstablished c)

def runTask (w : World) (here : Nat) (wr : WriteResult) : Task → Except Fault World
  | .connectEstablished c => w.connectEstablished here c
  | .removeConnectionInLoop c => w.removeConnectionInLoop c
  | .connectDestroyed c => w.connectDestroyed here c
  | .connection c f => w.call here c (·.runFunctor wr f)

-- ---------------------------------------------------------------------------
-- The loops
-- ---------------------------------------------------------------------------

inductive Label
  | newConnection (sockfd : Int)
  | poll (loop : Nat) (active : List (Nat × BitVec 32))
  | dispatch (loop : Nat) (rd : ReadResult) (wr : WriteResult)
  | functor (loop : Nat) (wr : WriteResult)
  | send (inLoop : Bool) (c : Nat) (data : Bytes) (wr : WriteResult)
  | shutdown (inLoop : Bool) (c : Nat)
  | retrieve (c : Nat) (len : Nat)

/-- No `POLLHUP` without `POLLIN` together with `POLLPRI` or `POLLRDHUP`. -/
def Plausible (revents : BitVec 32) : Prop :=
  revents &&& POLLHUP ≠ 0 → revents &&& POLLIN = 0 → revents &&& (POLLPRI ||| POLLRDHUP) = 0

/-- Names are distinct; a loop polls its channels with interest, each of them
once, and runs functors when it has no event left to handle. -/
def Enabled (w : World) : Label → Prop
  | .newConnection _ => ∀ c < w.accepted, (w.member c).name ≠ w.server.connName
  | .poll loop active => w.todo loop = [] ∧ (active.map Prod.fst).Nodup ∧
    ∀ e ∈ active, e.1 < w.accepted ∧ (w.member e.1).loop = loop ∧
      ¬(w.member e.1).conn.channel.isNoneEvent ∧ Plausible e.2
  | .dispatch loop _ wr => match w.todo loop with
    | [] => False
    | (c, _) :: _ => wr.Fits (w.member c).conn.outputBuffer.readable
  | .functor loop wr => w.todo loop = [] ∧ match w.queue loop with
    | [] => False
    | .connection _ (.sendInLoop message) :: _ => wr.Fits message
    | _ => True
  | .send _ c data wr => c < w.accepted ∧ wr.Fits data
  | .shutdown _ c => c < w.accepted
  | .retrieve c len => c < w.accepted ∧ len ≤ (w.member c).conn.inputBuffer.readableBytes

def step (w : World) : Label → Except Fault World
  | .newConnection sockfd => w.newConnection sockfd
  | .poll loop active => return { w with
      todo := update w.todo loop
        (active.flatMap fun e => (Channel.callbacks e.2).map fun cb => (e.1, cb)) }
  | .dispatch loop rd wr =>
    match w.todo loop with
    | [] => return w
    | (c, cb) :: todo =>
      ({ w with todo := update w.todo loop todo }.note c .event).call loop c (·.handle rd wr cb)
  | .functor loop wr =>
    match w.queue loop with
    | [] => return w
    | t :: queue => { w with queue := update w.queue loop queue }.runTask loop wr t
  | .send inLoop c data wr => w.call (w.member c).loop c (·.send inLoop data wr)
  | .shutdown inLoop c => w.call (w.member c).loop c fun conn => .ok (conn.shutdown inLoop)
  | .retrieve c len => w.call (w.member c).loop c fun conn => do
    let inputBuffer ← TcpConnection.onBuffer (conn.inputBuffer.retrieve len)
    return ({ conn with inputBuffer }, [])

def machine : Machine World Label Fault where
  enabled := Enabled
  step := step

instance (revents : BitVec 32) : Decidable (Plausible revents) :=
  inferInstanceAs (Decidable (_ → _ → _))

instance (w : World) (label : Label) : Decidable (machine.enabled w label) := by
  unfold machine Enabled
  cases label <;> simp only <;> (try split) <;> infer_instance

def start (name hostport : Bytes) (numLoops : Nat) (writeCompleteCallback : Bool) : World where
  server := { name, hostport, numLoops, writeCompleteCallback }
  member _ := ⟨{ channel := { fd := 0 } }, 0, []⟩

end World

end Muduo
