import Muduo.Net.Buffer
import Muduo.Net.Channel

/-!
# TcpConnection

A member function takes the connection and what the kernel answers, and gives
the new connection with what it does outside of it, in order. A user callback is
such an effect. In every function it is the last thing that could see a change
of the connection, so what it does to the connection is a call made afterwards.
-/

namespace Muduo

open Lib

def EWOULDBLOCK : Errno := 11
def EPIPE : Errno := 32

/-- What `write` returns: how many bytes the kernel took, or the error. -/
inductive WriteResult
  | accepted (n : Nat)
  | error (errno : Errno)
  deriving DecidableEq

/-- The kernel takes no more than it is offered. -/
def WriteResult.Fits (offered : Bytes) : WriteResult → Prop
  | .accepted n => n ≤ offered.length
  | .error _ => True

instance (offered : Bytes) (r : WriteResult) : Decidable (r.Fits offered) := by
  cases r <;> unfold WriteResult.Fits <;> infer_instance

theorem WriteResult.some_or_none (r : WriteResult) :
    (∃ n, r = .accepted n ∧ 0 < n) ∨ ∀ n, r = .accepted n → n = 0 := by
  cases r with
  | error errno => exact .inr nofun
  | accepted n =>
    rcases Nat.eq_zero_or_pos n with rfl | h0
    · exact .inr fun m hm => (WriteResult.accepted.inj hm).symm
    · exact .inl ⟨n, rfl, h0⟩

namespace TcpConnection

inductive StateE
  | kDisconnected
  | kConnecting
  | kConnected
  | kDisconnecting
  deriving DecidableEq

/-- What a connection leaves to its loop for later. -/
inductive Functor
  | sendInLoop (message : Bytes)
  | shutdownInLoop
  | writeComplete
  | highWaterMark (size : Nat)
  deriving DecidableEq

inductive Effect
  | write (offered : Bytes) (result : WriteResult)
  | shutdownWrite
  | queueInLoop (f : Functor)
  | connectionCallback (connected : Bool)
  | messageCallback
  | closeCallback
  | removeChannel
  deriving DecidableEq

inductive Fault
  | buffer (fault : Buffer.Fault)
  | sendInLoopRemaining
  | connectEstablishedState
  | handleCloseState
  | channelRemoveInterest
  deriving DecidableEq

end TcpConnection

/-- The two callbacks that may be missing are here only as present or not. -/
structure TcpConnection where
  state : TcpConnection.StateE := .kConnecting
  channel : Channel
  writeCompleteCallback : Bool := false
  highWaterMarkCallback : Bool := false
  highWaterMark : Nat := 64 * 1024 * 1024
  inputBuffer : Buffer := Buffer.fresh
  outputBuffer : Buffer := Buffer.fresh
  deriving DecidableEq

namespace TcpConnection

-- ---------------------------------------------------------------------------
-- The code
-- ---------------------------------------------------------------------------

def connected (c : TcpConnection) : Bool := c.state = .kConnected

def onBuffer : Except Buffer.Fault α → Except Fault α := Except.mapError .buffer

/-- What the attempt to write at once leaves in the locals of `sendInLoop`. -/
structure Direct where
  nwrote : Nat := 0
  error : Bool := false
  effects : List Effect := []

/-- If nothing is in the output queue, try writing directly. -/
def writeDirectly (c : TcpConnection) (data : Bytes) (r : WriteResult) : Direct :=
  if ¬c.channel.isWriting ∧ c.outputBuffer.readableBytes = 0 then
    match r with
    | .accepted n =>
      let complete := data.length - n = 0 ∧ c.writeCompleteCallback
      { nwrote := n
        effects := .write data r :: if complete then [.queueInLoop .writeComplete] else [] }
    | .error errno =>
      { error := errno ≠ EWOULDBLOCK ∧ errno = EPIPE, effects := [.write data r] }
  else {}

/-- The callback is due when `remaining` more bytes take the output buffer to
the mark. -/
def crossing (c : TcpConnection) (remaining : Nat) : List Effect :=
  let oldLen := c.outputBuffer.readableBytes
  if oldLen + remaining ≥ c.highWaterMark ∧ oldLen < c.highWaterMark ∧ c.highWaterMarkCallback then
    [.queueInLoop (.highWaterMark (oldLen + remaining))]
  else []

/-- The assertion is on `remaining = len - nwrote`, which as a `size_t` exceeds
`len` exactly when `nwrote` does. -/
def sendInLoop (c : TcpConnection) (data : Bytes) (r : WriteResult) :
    Except Fault (TcpConnection × List Effect) := do
  if c.state = .kDisconnected then
    return (c, [])
  let d := c.writeDirectly data r
  ensure (d.nwrote ≤ data.length) .sendInLoopRemaining
  let remaining := data.length - d.nwrote
  if ¬d.error ∧ 0 < remaining then
    let outputBuffer ← onBuffer (c.outputBuffer.append (data.drop d.nwrote))
    let channel := if ¬c.channel.isWriting then c.channel.enableWriting else c.channel
    return ({ c with outputBuffer, channel }, d.effects ++ c.crossing remaining)
  else
    return (c, d.effects)

/-- Only a call from the loop's own thread writes before it returns. -/
def send (c : TcpConnection) (inLoop : Bool) (data : Bytes) (r : WriteResult) :
    Except Fault (TcpConnection × List Effect) :=
  if c.state = .kConnected then
    if inLoop then c.sendInLoop data r else .ok (c, [.queueInLoop (.sendInLoop data)])
  else
    .ok (c, [])

def shutdownInLoop (c : TcpConnection) : List Effect :=
  if ¬c.channel.isWriting then [.shutdownWrite] else []

def shutdown (c : TcpConnection) (inLoop : Bool) : TcpConnection × List Effect :=
  if c.state = .kConnected then
    let c := { c with state := .kDisconnecting }
    (c, if inLoop then c.shutdownInLoop else [.queueInLoop .shutdownInLoop])
  else
    (c, [])

def connectEstablished (c : TcpConnection) : Except Fault (TcpConnection × List Effect) := do
  ensure (c.state = .kConnecting) .connectEstablishedState
  let c := { c with state := .kConnected, channel := c.channel.enableReading }
  return (c, [.connectionCallback c.connected])

def connectDestroyed (c : TcpConnection) : Except Fault (TcpConnection × List Effect) := do
  let (c, down) ← if c.state = .kConnected then
      let c := { c with state := .kDisconnected, channel := c.channel.disableAll }
      .ok (c, [.connectionCallback c.connected])
    else .ok (c, [])
  ensure c.channel.isNoneEvent .channelRemoveInterest
  return (c, down ++ [.removeChannel])

def handleClose (c : TcpConnection) : Except Fault (TcpConnection × List Effect) := do
  ensure (c.state = .kConnected ∨ c.state = .kDisconnecting) .handleCloseState
  let c := { c with state := .kDisconnected, channel := c.channel.disableAll }
  return (c, [.connectionCallback c.connected, .closeCallback])

/-- It only reads the pending error of the socket and logs it. -/
def handleError (c : TcpConnection) : TcpConnection × List Effect := (c, [])

def handleRead (c : TcpConnection) (r : ReadResult) :
    Except Fault (TcpConnection × List Effect) := do
  let (inputBuffer, n, _) ← onBuffer (c.inputBuffer.readFd r)
  let c := { c with inputBuffer }
  if 0 < n then
    return (c, [.messageCallback])
  else if n = 0 then
    c.handleClose
  else
    return c.handleError

def handleWrite (c : TcpConnection) (r : WriteResult) :
    Except Fault (TcpConnection × List Effect) := do
  if c.channel.isWriting then
    let wrote : Effect := .write c.outputBuffer.readable r
    match r with
    | .accepted n =>
      if 0 < n then
        let outputBuffer ← onBuffer (c.outputBuffer.retrieve n)
        let c := { c with outputBuffer }
        if c.outputBuffer.readableBytes = 0 then
          let c := { c with channel := c.channel.disableWriting }
          let complete : List Effect :=
            if c.writeCompleteCallback then [.queueInLoop .writeComplete] else []
          let down := if c.state = .kDisconnecting then c.shutdownInLoop else []
          return (c, wrote :: complete ++ down)
        else
          return (c, [wrote])
      else
        return (c, [wrote])
    | .error _ => return (c, [wrote])
  else
    return (c, [])

def handle (c : TcpConnection) (rd : ReadResult) (wr : WriteResult) :
    Channel.Callback → Except Fault (TcpConnection × List Effect)
  | .close => c.handleClose
  | .error => .ok c.handleError
  | .read => c.handleRead rd
  | .write => c.handleWrite wr

def runFunctor (c : TcpConnection) (wr : WriteResult) :
    Functor → Except Fault (TcpConnection × List Effect)
  | .sendInLoop message => c.sendInLoop message wr
  | .shutdownInLoop => .ok (c, c.shutdownInLoop)
  | .writeComplete => .ok (c, [])
  | .highWaterMark _ => .ok (c, [])

-- ---------------------------------------------------------------------------
-- What the functions do
-- ---------------------------------------------------------------------------

structure Ok (c : TcpConnection) : Prop where
  input : c.inputBuffer.Valid
  output : c.outputBuffer.Valid
  plain : c.channel.Plain

structure New (c : TcpConnection) : Prop where
  state : c.state = .kConnecting
  events : c.channel.events = Channel.kNoneEvent
  input : c.inputBuffer = Buffer.fresh
  output : c.outputBuffer = Buffer.fresh

theorem onBuffer_ok : onBuffer (.ok a) = .ok a := rfl

def Direct.kept (d : Direct) (data : Bytes) : Bytes :=
  if d.error then [] else data.drop d.nwrote

variable {c : TcpConnection}

theorem nwrote_le (h : r.Fits data) : (c.writeDirectly data r).nwrote ≤ data.length := by
  unfold writeDirectly
  split
  · cases r with
    | accepted n => exact h
    | error errno => exact Nat.zero_le _
  · exact Nat.zero_le _

theorem New.ok (h : c.New) : c.Ok where
  input := by
    rw [h.input]
    exact Buffer.fresh_valid
  output := by
    rw [h.output]
    exact Buffer.fresh_valid
  plain := .inl h.events

theorem connectEstablished_ok (h : c.state = .kConnecting) :
    c.connectEstablished = .ok
      ({ c with state := .kConnected, channel := c.channel.enableReading },
        [.connectionCallback true]) := by
  simp only [connectEstablished, ensure_bind h]
  rfl

theorem connectDestroyed_closed (h : c.state = .kDisconnected) (hn : c.channel.isNoneEvent) :
    c.connectDestroyed = .ok (c, [.removeChannel]) := by
  simp [connectDestroyed, h, ensure_true hn, pure, Except.pure]

theorem sendInLoop_closed (h : c.state = .kDisconnected) : c.sendInLoop data r = .ok (c, []) := by
  simp [sendInLoop, h, pure, Except.pure]

theorem sendInLoop_ok (hc : c.Ok) (h : c.state ≠ .kDisconnected)
    (hn : (c.writeDirectly data r).nwrote ≤ data.length) :
    ∃ out, out.Valid ∧
      out.readable = c.outputBuffer.readable ++ (c.writeDirectly data r).kept data ∧
      c.sendInLoop data r = .ok
        ({ c with
            outputBuffer := out
            channel := if (c.writeDirectly data r).kept data = [] then c.channel
              else c.channel.enableWriting },
          (c.writeDirectly data r).effects ++
            if (c.writeDirectly data r).kept data = [] then []
            else c.crossing ((c.writeDirectly data r).kept data).length) := by
  generalize hd : c.writeDirectly data r = d at hn
  simp only [sendInLoop, if_neg h, hd, ensure_bind hn]
  by_cases hleft : ¬d.error ∧ 0 < data.length - d.nwrote
  · have hkept : d.kept data = data.drop d.nwrote := by
      simp only [Direct.kept]
      exact if_neg hleft.1
    have hne : data.drop d.nwrote ≠ [] := by
      rw [Ne, List.drop_eq_nil_iff]
      omega
    obtain ⟨out, happ, hv, hr⟩ := Buffer.append_ok hc.output (data.drop d.nwrote)
    refine ⟨out, hv, by rw [hr, hkept], ?_⟩
    rw [if_pos hleft, happ, hkept, if_neg hne, if_neg hne, List.length_drop]
    by_cases hw : c.channel.isWriting
    · simp [onBuffer_ok, hw, hc.plain.enableWriting_of_isWriting hw, pure, Except.pure]
    · simp [onBuffer_ok, hw, pure, Except.pure]
  · have hkept : d.kept data = [] := by
      simp only [Direct.kept]
      split
      · rfl
      · rename_i he
        rw [List.drop_eq_nil_iff]
        have : ¬0 < data.length - d.nwrote := fun h0 => hleft ⟨he, h0⟩
        omega
    refine ⟨c.outputBuffer, hc.output, by rw [hkept, List.append_nil], ?_⟩
    rw [if_neg hleft]
    simp [hkept, pure, Except.pure]

theorem handleWrite_idle (h : ¬c.channel.isWriting) : c.handleWrite r = .ok (c, []) := by
  simp [handleWrite, h, pure, Except.pure]

theorem handleWrite_none (h : c.channel.isWriting) (hr : ∀ n, r = .accepted n → n = 0) :
    c.handleWrite r = .ok (c, [.write c.outputBuffer.readable r]) := by
  cases r with
  | error errno => simp [handleWrite, h, pure, Except.pure]
  | accepted n =>
    obtain rfl := hr n rfl
    simp [handleWrite, h, pure, Except.pure]

theorem handleWrite_some (hc : c.Ok) (h : c.channel.isWriting) (h0 : 0 < n)
    (hn : n ≤ c.outputBuffer.readableBytes) :
    ∃ out, out.Valid ∧ out.readable = c.outputBuffer.readable.drop n ∧
      c.handleWrite (.accepted n) = .ok
        ({ c with
            outputBuffer := out
            channel := if out.readable = [] then c.channel.disableWriting else c.channel },
          .write c.outputBuffer.readable (.accepted n) ::
            if out.readable = [] then
              (if c.writeCompleteCallback then [.queueInLoop .writeComplete] else []) ++
                (if c.state = .kDisconnecting then [.shutdownWrite] else [])
            else []) := by
  obtain ⟨out, hret, hv, hr⟩ := Buffer.retrieve_ok hc.output hn
  refine ⟨out, hv, hr, ?_⟩
  simp only [handleWrite, if_pos h, if_pos h0, hret, onBuffer_ok, ok_bind, hv.readableBytes_eq_zero]
  by_cases he : out.readable = []
  · simp [he, shutdownInLoop, Channel.disableWriting_not_isWriting, pure, Except.pure]
  · simp [he, pure, Except.pure]

theorem handleWrite_rest (hs : c.handleWrite r = .ok (c', effects)) :
    ∃ out channel, c' = { c with outputBuffer := out, channel := channel } := by
  unfold handleWrite at hs
  split at hs
  · cases r with
    | error errno =>
      cases hs
      exact ⟨c.outputBuffer, c.channel, rfl⟩
    | accepted n =>
      simp only at hs
      split at hs
      · obtain ⟨out, -, hs⟩ := bind_ok.mp hs
        split at hs
        · cases hs
          exact ⟨out, _, rfl⟩
        · cases hs
          exact ⟨out, _, rfl⟩
      · cases hs
        exact ⟨c.outputBuffer, c.channel, rfl⟩
  · cases hs
    exact ⟨c.outputBuffer, c.channel, rfl⟩

theorem handleClose_ok (h : c.state = .kConnected ∨ c.state = .kDisconnecting) :
    c.handleClose = .ok
      ({ c with state := .kDisconnected, channel := c.channel.disableAll },
        [.connectionCallback false, .closeCallback]) := by
  simp only [handleClose, ensure_bind h]
  rfl

/-- A read gives the bytes to the user, closes the connection, or fails. -/
theorem handleRead_ok (hc : c.Ok) (h : c.state = .kConnected ∨ c.state = .kDisconnecting) :
    ∃ input, input.Valid ∧ c.handleRead r = .ok (match r with
      | .error _ => ({ c with inputBuffer := input }, [])
      | .data [] => ({ c with
          inputBuffer := input, state := .kDisconnected, channel := c.channel.disableAll },
          [.connectionCallback false, .closeCallback])
      | .data (_ :: _) => ({ c with inputBuffer := input }, [.messageCallback])) := by
  cases r with
  | error errno => exact ⟨c.inputBuffer, hc.input, rfl⟩
  | data bytes =>
    obtain ⟨input, hread, hv, -⟩ := Buffer.readFd_data hc.input bytes
    refine ⟨input, hv, ?_⟩
    simp only [handleRead, hread, onBuffer_ok, ok_bind]
    cases bytes with
    | nil => exact handleClose_ok h
    | cons b bs => simp [pure, Except.pure]

end TcpConnection

end Muduo
