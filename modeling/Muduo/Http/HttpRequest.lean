import Muduo.Base.Timestamp
import Muduo.Lib.OrdMap
import Muduo.Net.Buffer
import Mathlib.Data.List.Lex

/-!
# HttpRequest and HttpContext

A range of characters that a function gets as two pointers is the string of its
bytes.
-/

namespace Muduo

open Lib

namespace HttpRequest

inductive Method
  | kInvalid
  | kGet
  | kPost
  | kHead
  | kPut
  | kDelete
  deriving DecidableEq

inductive Version
  | kUnknow
  | kHttp10
  | kHttp11
  deriving DecidableEq

end HttpRequest

structure HttpRequest where
  method : HttpRequest.Method := .kInvalid
  version : HttpRequest.Version := .kUnknow
  path : Bytes := []
  receiveTime : Timestamp := 0
  headers : OrdMap Bytes Bytes := OrdMap.empty

/-- The assertion of `setMethod`, those of the buffer, and a loop that goes
round without end. -/
inductive HttpFault
  | setMethod
  | buffer (fault : Buffer.Fault)
  | endless
  deriving DecidableEq

namespace HttpRequest

/-- `isspace` in the C locale. -/
def isspace (c : UInt8) : Bool := c = 32 ∨ (9 ≤ c ∧ c ≤ 13)

def setVersion (r : HttpRequest) (v : Version) : HttpRequest := { r with version := v }

/-- A `PUT` becomes `kHead`. -/
def methodOf (m : Bytes) : Method :=
  if m = ascii "GET" then .kGet
  else if m = ascii "POST" then .kPost
  else if m = ascii "HEAD" then .kHead
  else if m = ascii "PUT" then .kHead
  else if m = ascii "DELETE" then .kDelete
  else .kInvalid

def setMethod (r : HttpRequest) (m : Bytes) : Except HttpFault (Bool × HttpRequest) := do
  ensure (r.method = .kInvalid) .setMethod
  let r := { r with method := methodOf m }
  return (r.method ≠ .kInvalid, r)

def methodString (r : HttpRequest) : Bytes :=
  match r.method with
  | .kGet => ascii "GET"
  | .kPost => ascii "POST"
  | .kHead => ascii "HEAD"
  | .kPut => ascii "PUT"
  | .kDelete => ascii "DELETE"
  | .kInvalid => ascii "UNKNOW"

def setPath (r : HttpRequest) (path : Bytes) : HttpRequest := { r with path }

def setReceiveTime (r : HttpRequest) (t : Timestamp) : HttpRequest := { r with receiveTime := t }

/-- `colon` is a place in `line`. -/
def addHeader (r : HttpRequest) (line : Bytes) (colon : Nat) : HttpRequest :=
  let field := line.take colon
  let value := (line.drop (colon + 1)).dropWhile isspace
  let value := (value.reverse.dropWhile isspace).reverse
  { r with headers := r.headers.insert field value }

def getHeader (r : HttpRequest) (field : Bytes) : Bytes := (r.headers.find? field).getD []

/-- The versions stay where they are. -/
def swap (r that : HttpRequest) : HttpRequest × HttpRequest :=
  ({ that with version := r.version }, { r with version := that.version })

end HttpRequest

namespace HttpContext

inductive HttpRequestParseState
  | kExpectRequestLine
  | kExpectHeaders
  | kExpectBody
  | kGotAll
  deriving DecidableEq

end HttpContext

structure HttpContext where
  state : HttpContext.HttpRequestParseState := .kExpectRequestLine
  request : HttpRequest := {}

namespace HttpContext

def receiveRequestLine (c : HttpContext) : HttpContext := { c with state := .kExpectHeaders }

def receiveHeaders (c : HttpContext) : HttpContext := { c with state := .kGotAll }

def reset (c : HttpContext) : HttpContext :=
  { state := .kExpectRequestLine, request := (c.request.swap {}).1 }

end HttpContext

end Muduo
