import Muduo.Http.HttpResponse
import Muduo.Http.Pipelining
import Muduo.Net.HalfClose

/-!
# An HTTP connection in full

The callbacks of the server over a connection: what it reads is parsed, the
requests go to the HTTP callback, and the replies go to `send`. The session ends
with `handleClose`.
-/

namespace Muduo

open Lib TcpConnection OutputStream

/-- The kernel takes no more than it is offered. -/
def WriteResult.upTo (offered : Bytes) : WriteResult → WriteResult
  | .accepted n => .accepted (min n offered.length)
  | .error errno => .error errno

theorem WriteResult.upTo_fits (offered : Bytes) (r : WriteResult) :
    (r.upTo offered).Fits offered := by
  cases r with
  | accepted n => exact Nat.min_le_right ..
  | error errno => trivial

namespace HttpServer

def defaultHttpCallback (_ : HttpRequest) (resp : HttpResponse) : HttpResponse :=
  { resp.setStatus HttpResponse.k404NotFound (ascii "Not Found") with closeConnection := true }

/-- The response asks for the end of the connection as the request does. -/
def closes (req : HttpRequest) : Bool :=
  let connection := req.getHeader (ascii "Connection")
  connection = ascii "close" ∨ (req.version = .kHttp10 ∧ connection ≠ ascii "Keep-Alive")

/-- What was made of a message: a 400, or the response to a request, with its
bytes. -/
inductive Reply
  | badRequest
  | response (req : HttpRequest) (resp : HttpResponse) (bytes : Bytes)

namespace Reply

def bytes : Reply → Bytes
  | .badRequest => HttpConnection.badRequest
  | .response _ _ bytes => bytes

def closing : Reply → Bool
  | .badRequest => true
  | .response _ resp _ => resp.closeConnection

def actions : Reply → List Action
  | .badRequest => [.send HttpConnection.badRequest, .shutdown]
  | .response req _ _ => [.onRequest req]

end Reply

/-- The null pointer is the one that `any_cast` gives for an empty context. -/
inductive Fault
  | nullContext
  | http (fault : HttpFault)
  | connection (fault : TcpConnection.Fault)
  | response (fault : Buffer.Fault)

end HttpServer

open HttpServer

structure HttpSession where
  stream : OutputStream.Session
  context : Option HttpContext := none
  replies : List Reply := []

namespace HttpSession

-- ---------------------------------------------------------------------------
-- The code
-- ---------------------------------------------------------------------------

/-- What the handling of a message meets: the time, the HTTP callback, what
`printf` makes of the conversion that is cut off, and what `write` returns for a
400 and for a response. -/
structure Handling where
  receiveTime : Timestamp := 0
  httpCallback : HttpRequest → HttpResponse → HttpResponse := defaultHttpCallback
  conversion : Bytes := []
  badRequest : WriteResult := .error EWOULDBLOCK
  response : WriteResult := .error EWOULDBLOCK

def run (s : HttpSession) (call : Call) : Except HttpServer.Fault (HttpSession × List Effect) := do
  let (conn, effects) ← (call.run s.stream.conn).mapError .connection
  return ({ s with stream := s.stream.after call conn effects }, effects)

/-- From the thread of the loop. -/
def send (s : HttpSession) (data : Bytes) (r : WriteResult) :
    Except HttpServer.Fault HttpSession := do
  if s.stream.conn.state = .kConnected then
    let (s, _) ← s.run (.sendInLoop data (r.upTo data))
    return s
  else return s

def shutdown (s : HttpSession) : Except HttpServer.Fault HttpSession := do
  let (s, _) ← s.run (.shutdown true)
  return s

def onConnection (s : HttpSession) : HttpSession :=
  if s.stream.conn.connected then { s with context := some {} } else s

def onRequest (s : HttpSession) (h : Handling) (req : HttpRequest) :
    Except HttpServer.Fault HttpSession := do
  let response := h.httpCallback req { closeConnection := closes req }
  let buf ← (response.appendToBuffer h.conversion Buffer.fresh).mapError .response
  let s ← s.send buf.readable h.response
  let s := { s with replies := s.replies ++ [Reply.response req response buf.readable] }
  if response.closeConnection then s.shutdown else return s

def parsed (s : HttpSession) (p : Parse) : HttpSession :=
  { s with
    stream := { s.stream with conn := { s.stream.conn with inputBuffer := p.buf } }
    context := some p.context }

def reject (s : HttpSession) (h : Handling) : Except HttpServer.Fault HttpSession := do
  let s ← s.send HttpConnection.badRequest h.badRequest
  let s := { s with replies := s.replies ++ [Reply.badRequest] }
  s.shutdown

def onMessage (s : HttpSession) (h : Handling) : Except HttpServer.Fault HttpSession := do
  match s.context with
  | none => .error .nullContext
  | some context =>
    let p ← (parseRequest s.stream.conn.inputBuffer context h.receiveTime).mapError .http
    let s := s.parsed p
    let s ← if p.ok then .ok s else s.reject h
    if p.context.state = .kGotAll then
      let s ← s.onRequest h p.context.request
      return { s with context := some p.context.reset }
    else return s

/-- The callbacks of the connection that the HTTP server has set. -/
def perform (h : Handling) (s : HttpSession) : Effect → Except HttpServer.Fault HttpSession
  | .connectionCallback _ => .ok s.onConnection
  | .messageCallback => s.onMessage h
  | _ => .ok s

inductive Event
  | read (r : ReadResult)
  | write (r : WriteResult)
  | close
  | error

structure Turn extends Handling where
  event : Event

def handle (s : HttpSession) (h : Handling) (call : Call) :
    Except HttpServer.Fault HttpSession := do
  let (s, effects) ← s.run call
  effects.foldlM (perform h) s

def step (s : HttpSession) (t : Turn) : Except HttpServer.Fault HttpSession :=
  match t.event with
  | .read r => s.handle t.toHandling (.handleRead r)
  | .write r =>
    s.handle t.toHandling (.handleWrite (r.upTo s.stream.conn.outputBuffer.readable))
  | .close => s.handle t.toHandling .handleClose
  | .error => .ok s

def Event.answers : Event → List WriteResult
  | .write r => [r]
  | _ => []

/-- What `write` may return in the turn. -/
def Turn.answers (t : Turn) : List WriteResult := t.badRequest :: t.response :: t.event.answers

/-- The kernel goes on reporting `EPIPE`. -/
def Enabled (s : HttpSession) (t : Turn) : Prop :=
  s.stream.conn.state ≠ .kDisconnected ∧
    (Broken s.stream.log → ∀ r ∈ t.answers, r = .error EPIPE)

instance (s : HttpSession) (t : Turn) : Decidable (Enabled s t) :=
  inferInstanceAs (Decidable (_ ∧ _))

def machine : Machine HttpSession Turn HttpServer.Fault where
  enabled := Enabled
  step := step

instance (s : HttpSession) (t : Turn) : Decidable (machine.enabled s t) :=
  inferInstanceAs (Decidable (Enabled s t))

def start (new : TcpConnection) : Except HttpServer.Fault HttpSession := do
  let (conn, effects) ← new.connectEstablished.mapError .connection
  effects.foldlM (perform {}) { stream := OutputStream.start conn effects }

-- ---------------------------------------------------------------------------
-- What is seen of it elsewhere
-- ---------------------------------------------------------------------------

def http (s : HttpSession) : HttpConnection where
  buf := s.stream.conn.inputBuffer
  context := s.context.getD {}
  actions := s.replies.flatMap Reply.actions

def Turn.chunk (t : Turn) : Option HttpConnection.Chunk :=
  match t.event with
  | .read (.data (b :: bs)) => some ⟨b :: bs, t.receiveTime⟩
  | _ => none

/-- The replies that can be sent: none behind one that closes. -/
def sent : List Reply → List Reply
  | [] => []
  | r :: rs => if r.closing then [r] else r :: sent rs

end HttpSession

end Muduo
