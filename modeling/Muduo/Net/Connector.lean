import Muduo.Net.Buffer
import Muduo.Net.Channel
import Mathlib.Data.List.Basic

/-!
# Connector and TcpClient

A client with its connector and the part of the loop they use: the queue of
functors, the retry timers and the connecting sockets the poller watches.
Descriptors are numbered as they are made. A user callback comes last in the
function that makes it, so what it does is a call made afterwards.
-/

namespace Muduo

open Lib

def EPERM : Errno := 1
def EINTR : Errno := 4
def EAGAIN : Errno := 11
def EADDRINUSE : Errno := 98
def EADDRNOTAVAIL : Errno := 99
def ENETUNREACH : Errno := 101
def EISCONN : Errno := 106
def ECONNREFUSED : Errno := 111
def EINPROGRESS : Errno := 115

namespace Connector

inductive States
  | kDisconnected
  | kConnecting
  | kConnected
  deriving DecidableEq

def kMaxRetryDelayMs : Nat := 30 * 1000
def kInitRetryDelayMs : Nat := 500

inductive Functor
  | startInLoop
  | stopInLoop
  | resetChannel
  | connectDestroyed (fd : Int)
  deriving DecidableEq

/-- What happened to the descriptors, and the restarts. -/
inductive Milestone
  | attempt (fd : Int)
  | close (fd : Int)
  | connected (fd : Int)
  | newConnection (fd : Int)
  | restart
  deriving DecidableEq

inductive Fault
  | startInLoop
  | connecting
  | handleWrite
  | handleError
  | removeConnection
  | nullChannel
  | channelRemove
  /-- The poller does not know the channel. -/
  | removeChannel
  deriving DecidableEq

end Connector

structure Connector where
  connect_ : Bool := false
  state : Connector.States := .kDisconnected
  channel : Option Channel := none
  retryDelayMs : Nat := Connector.kInitRetryDelayMs
  deriving DecidableEq

/-- A connection is named by its descriptor. -/
structure TcpClient where
  connector : Connector := {}
  retry : Bool := false
  connect_ : Bool := true
  connection : Option Int := none
  deriving DecidableEq

structure ClientLoop where
  client : TcpClient := {}
  functors : List Connector.Functor := []
  /-- The delays of the timers that will call `startInLoop`. -/
  timers : List Nat := []
  registered : List Int := []
  /-- The connections that have not seen their close. -/
  conns : List Int := []
  created : Nat := 0
  log : List Connector.Milestone := []
  deriving DecidableEq

namespace ClientLoop

open Connector

-- ---------------------------------------------------------------------------
-- The loop
-- ---------------------------------------------------------------------------

def connector (w : ClientLoop) : Connector := w.client.connector

def note (w : ClientLoop) (m : Milestone) : ClientLoop := { w with log := w.log ++ [m] }

def queueInLoop (w : ClientLoop) (f : Functor) : ClientLoop :=
  { w with functors := w.functors ++ [f] }

def runAfter (w : ClientLoop) (delay : Nat) : ClientLoop := { w with timers := w.timers ++ [delay] }

def close (w : ClientLoop) (sockfd : Int) : ClientLoop := w.note (.close sockfd)

def createNonblockingOrDie (w : ClientLoop) : Int × ClientLoop :=
  ((w.created : Int), { w with created := w.created + 1 })

end ClientLoop

-- ---------------------------------------------------------------------------
-- TcpClient, called by the connector
-- ---------------------------------------------------------------------------

def TcpClient.newConnection (w : ClientLoop) (sockfd : Int) : ClientLoop :=
  { w with
    client.connection := some sockfd
    conns := w.conns ++ [sockfd] }.note (.newConnection sockfd)

namespace Connector

-- ---------------------------------------------------------------------------
-- The code
-- ---------------------------------------------------------------------------

def setState (w : ClientLoop) (s : States) : ClientLoop :=
  { w with client.connector.state := s }

def retry (w : ClientLoop) (sockfd : Int) : ClientLoop :=
  let w := setState (w.close sockfd) .kDisconnected
  if w.connector.connect_ then
    let delay := w.connector.retryDelayMs
    { w.runAfter delay with client.connector.retryDelayMs := min (delay * 2) kMaxRetryDelayMs }
  else w

def removeAndResetChannel (w : ClientLoop) : Except Fault (Int × ClientLoop) :=
  match w.connector.channel with
  | none => .error .nullChannel
  | some c => do
    let c := c.disableAll
    ensure c.isNoneEvent .channelRemove
    ensure (c.fd ∈ w.registered) .removeChannel
    let w := { w with
      client.connector.channel := some c, registered := w.registered.erase c.fd }
    return (c.fd, w.queueInLoop .resetChannel)

def resetChannel (w : ClientLoop) : ClientLoop := { w with client.connector.channel := none }

def connecting (w : ClientLoop) (sockfd : Int) : Except Fault ClientLoop := do
  let w := setState w .kConnecting
  ensure (w.connector.channel = none) .connecting
  let c := { fd := sockfd : Channel }.enableWriting
  return { w with client.connector.channel := some c, registered := w.registered ++ [sockfd] }

/-- The connection is made or under way. -/
def inProgress (savedErrno : Errno) : Prop :=
  savedErrno = 0 ∨ savedErrno = EINPROGRESS ∨ savedErrno = EINTR ∨ savedErrno = EISCONN

def retryable (savedErrno : Errno) : Prop :=
  savedErrno = EAGAIN ∨ savedErrno = EADDRINUSE ∨ savedErrno = EADDRNOTAVAIL ∨
    savedErrno = ECONNREFUSED ∨ savedErrno = ENETUNREACH

instance : DecidablePred inProgress := fun _ => inferInstanceAs (Decidable (_ ∨ _))
instance : DecidablePred retryable := fun _ => inferInstanceAs (Decidable (_ ∨ _))

/-- `savedErrno` is what `connect(2)` left, 0 for a success. The errors that
the code names in its third group are handled like those it does not name. -/
def connect (w : ClientLoop) (savedErrno : Errno) : Except Fault ClientLoop :=
  let (sockfd, w) := w.createNonblockingOrDie
  let w := w.note (.attempt sockfd)
  if inProgress savedErrno then connecting w sockfd
  else if retryable savedErrno then .ok (retry w sockfd)
  else .ok (w.close sockfd)

def startInLoop (w : ClientLoop) (savedErrno : Errno) : Except Fault ClientLoop := do
  ensure (w.connector.state = .kDisconnected) .startInLoop
  if w.connector.connect_ then connect w savedErrno
  else return w

def start (w : ClientLoop) (inLoop : Bool) (savedErrno : Errno) : Except Fault ClientLoop :=
  let w := { w with client.connector.connect_ := true }
  if inLoop then startInLoop w savedErrno
  else .ok (w.queueInLoop .startInLoop)

def stopInLoop (w : ClientLoop) : Except Fault ClientLoop := do
  if w.connector.state = .kConnecting then
    let w := setState w .kDisconnected
    let (sockfd, w) ← removeAndResetChannel w
    return retry w sockfd
  else return w

def stop (w : ClientLoop) (inLoop : Bool) : Except Fault ClientLoop :=
  let w := { w with client.connector.connect_ := false }
  if inLoop then stopInLoop w
  else .ok (w.queueInLoop .stopInLoop)

def restart (w : ClientLoop) (savedErrno : Errno) : Except Fault ClientLoop :=
  let w := setState w .kDisconnected
  let w := { w with
    client.connector.retryDelayMs := kInitRetryDelayMs, client.connector.connect_ := true }
  startInLoop (w.note .restart) savedErrno

/-- `err` is what `getSocketError` returns. -/
def handleWrite (w : ClientLoop) (err : Errno) (isSelfConnect : Bool) :
    Except Fault ClientLoop := do
  if w.connector.state = .kConnecting then
    let (sockfd, w) ← removeAndResetChannel w
    if err ≠ 0 then return retry w sockfd
    else if isSelfConnect then return retry w sockfd
    else
      let w := (setState w .kConnected).note (.connected sockfd)
      return if w.connector.connect_ then TcpClient.newConnection w sockfd else w.close sockfd
  else
    ensure (w.connector.state = .kDisconnected) .handleWrite
    return w

def handleError (w : ClientLoop) : Except Fault ClientLoop := do
  ensure (w.connector.state = .kConnecting) .handleError
  let (sockfd, w) ← removeAndResetChannel w
  return retry w sockfd

/-- The connector sets two of the four callbacks. -/
def handleEvent (err : Errno) (isSelfConnect : Bool) :
    List Channel.Callback → ClientLoop → Except Fault ClientLoop
  | [], w => .ok w
  | .error :: callbacks, w => do
    let w ← handleError w
    handleEvent err isSelfConnect callbacks w
  | .write :: callbacks, w => do
    let w ← handleWrite w err isSelfConnect
    handleEvent err isSelfConnect callbacks w
  | _ :: callbacks, w => handleEvent err isSelfConnect callbacks w

end Connector

namespace TcpClient

open Connector

def connect (w : ClientLoop) (inLoop : Bool) (savedErrno : Errno) : Except Fault ClientLoop :=
  Connector.start { w with client.connect_ := true } inLoop savedErrno

/-- The `shutdown` of the connection shows in a later close only. -/
def disconnect (w : ClientLoop) : ClientLoop := { w with client.connect_ := false }

def stop (w : ClientLoop) (inLoop : Bool) : Except Fault ClientLoop :=
  Connector.stop { w with client.connect_ := false } inLoop

def removeConnection (w : ClientLoop) (conn : Int) (savedErrno : Errno) :
    Except Fault ClientLoop := do
  ensure (w.client.connection = some conn) .removeConnection
  let w := { w with client.connection := none }.queueInLoop (.connectDestroyed conn)
  if w.client.retry ∧ w.client.connect_ then Connector.restart w savedErrno
  else return w

end TcpClient

namespace ClientLoop

open Connector

-- ---------------------------------------------------------------------------
-- Runs
-- ---------------------------------------------------------------------------

/-- A call on another thread sets the flags and leaves a functor. Every label
that may come to `connect(2)` says how that ends. -/
inductive Label
  | connect (inLoop : Bool) (savedErrno : Errno)
  | disconnect
  | stop (inLoop : Bool)
  | enableRetry
  | functor (savedErrno : Errno)
  | timer (k : Nat) (savedErrno : Errno)
  | event (fd : Int) (revents : BitVec 32) (err : Errno) (isSelfConnect : Bool)
  | close (conn : Int) (savedErrno : Errno)
  deriving DecidableEq

def Enabled (w : ClientLoop) : Label → Prop
  | .functor _ => w.functors ≠ []
  | .timer k _ => k < w.timers.length
  | .event fd _ _ _ => fd ∈ w.registered
  | .close conn _ => conn ∈ w.conns
  | _ => True

def runFunctor (w : ClientLoop) (savedErrno : Errno) : Functor → Except Fault ClientLoop
  | .startInLoop => startInLoop w savedErrno
  | .stopInLoop => stopInLoop w
  | .resetChannel => .ok (resetChannel w)
  | .connectDestroyed _ => .ok w

def step (w : ClientLoop) : Label → Except Fault ClientLoop
  | .connect inLoop savedErrno => TcpClient.connect w inLoop savedErrno
  | .disconnect => .ok (TcpClient.disconnect w)
  | .stop inLoop => TcpClient.stop w inLoop
  | .enableRetry => .ok { w with client.retry := true }
  | .functor savedErrno =>
    match w.functors with
    | [] => .ok w
    | f :: functors => runFunctor { w with functors } savedErrno f
  | .timer k savedErrno => startInLoop { w with timers := w.timers.eraseIdx k } savedErrno
  | .event _ revents err isSelfConnect =>
    handleEvent err isSelfConnect (Channel.callbacks revents) w
  | .close conn savedErrno =>
    TcpClient.removeConnection { w with conns := w.conns.erase conn } conn savedErrno

def machine : Machine ClientLoop Label Fault where
  enabled := Enabled
  step := step

instance (w : ClientLoop) (a : Label) : Decidable (machine.enabled w a) := by
  unfold machine Enabled
  cases a <;> infer_instance

end ClientLoop

end Muduo
