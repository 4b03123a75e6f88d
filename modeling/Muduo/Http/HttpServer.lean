import Muduo.Http.HttpRequest

/-!
# HttpServer

What the server does with one connection: the input buffer and the context that
goes with it, and what is sent to the peer. The answer to a request is here as
the request it answers.
-/

namespace Muduo

open Lib

def HttpFault.onBuffer : Except Buffer.Fault α → Except HttpFault α := Except.mapError .buffer

-- ---------------------------------------------------------------------------
-- The parser
-- ---------------------------------------------------------------------------

def versionOf (c : UInt8) : Option HttpRequest.Version :=
  if c = 49 then some .kHttp11
  else if c = 48 then some .kHttp10
  else none

/-- What follows the second space is to be "HTTP/1." and a digit. -/
def processVersion (version : Bytes) (request : HttpRequest) : Bool × HttpRequest :=
  if version.length = 8 ∧ version.take 7 = ascii "HTTP/1." then
    match versionOf (version.getLastD 0) with
    | some v => (true, request.setVersion v)
    | none => (false, request)
  else (false, request)

def processRequestLine (line : Bytes) (context : HttpContext) :
    Except HttpFault (Bool × HttpContext) := do
  let space := line.idxOf 32
  if space ≠ line.length then
    let (known, request) ← context.request.setMethod (line.take space)
    if known then
      let rest := line.drop (space + 1)
      let space := rest.idxOf 32
      if space ≠ rest.length then
        let request := request.setPath (rest.take space)
        let (succeed, request) := processVersion (rest.drop (space + 1)) request
        return (succeed, { context with request })
      else return (false, { context with request })
    else return (false, { context with request })
  else return (false, context)

structure Parse where
  ok : Bool := true
  hasMore : Bool := true
  buf : Buffer
  context : HttpContext

def Parse.next (p : Parse) (receiveTime : Timestamp) : Except HttpFault Parse :=
  match p.context.state with
  | .kExpectRequestLine =>
    match p.buf.findCRLF with
    | some crlf => do
      let (ok, context) ← processRequestLine (slice p.buf.buffer p.buf.peek crlf) p.context
      if ok then
        let context := { context with request := context.request.setReceiveTime receiveTime }
        let buf ← HttpFault.onBuffer (p.buf.retrieveUntil (crlf + 2))
        return { p with ok, buf, context := context.receiveRequestLine }
      else return { p with ok, context, hasMore := false }
    | none => return { p with hasMore := false }
  | .kExpectHeaders =>
    match p.buf.findCRLF with
    | some crlf => do
      let line := slice p.buf.buffer p.buf.peek crlf
      let colon := line.idxOf 58
      let p :=
        if colon ≠ line.length then
          let request := p.context.request.addHeader line colon
          { p with context := { p.context with request } }
        else
          let context := p.context.receiveHeaders
          { p with context, hasMore := context.state ≠ .kGotAll }
      let buf ← HttpFault.onBuffer (p.buf.retrieveUntil (crlf + 2))
      return { p with buf }
    | none => return { p with hasMore := false }
  | .kExpectBody => return p
  | .kGotAll => return p

def parseLoop (receiveTime : Timestamp) : Nat → Parse → Except HttpFault Parse
  | fuel, p =>
    if p.hasMore then
      match fuel with
      | 0 => .error .endless
      | fuel + 1 => do
        let p ← p.next receiveTime
        parseLoop receiveTime fuel p
    else .ok p

/-- Every round but the last takes a line out of the buffer. -/
def parseRequest (buf : Buffer) (context : HttpContext) (receiveTime : Timestamp) :
    Except HttpFault Parse :=
  parseLoop receiveTime (buf.readableBytes + 1) { buf, context }

-- ---------------------------------------------------------------------------
-- A connection
-- ---------------------------------------------------------------------------

inductive Action
  | send (data : Bytes)
  | shutdown
  | onRequest (request : HttpRequest)

structure HttpConnection where
  buf : Buffer := Buffer.fresh
  context : HttpContext := {}
  actions : List Action := []

namespace HttpConnection

def act (c : HttpConnection) (actions : List Action) : HttpConnection :=
  { c with actions := c.actions ++ actions }

def badRequest : Bytes := ascii "HTTP/1.1 400 Bad Request" ++ [13, 10, 13, 10]

def onMessage (c : HttpConnection) (receiveTime : Timestamp) : Except HttpFault HttpConnection := do
  let p ← parseRequest c.buf c.context receiveTime
  let c := { c with buf := p.buf, context := p.context }
  let c := if p.ok then c else c.act [.send badRequest, .shutdown]
  if c.context.state = .kGotAll then
    return { c.act [.onRequest c.context.request] with context := c.context.reset }
  else return c

/-- A read of the connection that gets something. -/
structure Chunk where
  bytes : Bytes
  receiveTime : Timestamp

def step (c : HttpConnection) (m : Chunk) : Except HttpFault HttpConnection := do
  let (buf, _, _) ← HttpFault.onBuffer (c.buf.readFd (.data m.bytes))
  { c with buf }.onMessage m.receiveTime

def machine : Machine HttpConnection Chunk HttpFault where
  enabled _ m := m.bytes ≠ []
  step := step

instance (c : HttpConnection) (m : Chunk) : Decidable (machine.enabled c m) :=
  inferInstanceAs (Decidable (m.bytes ≠ []))

end HttpConnection

end Muduo
