import Muduo.Base.LogStream
import Muduo.Lib.Calendar

/-!
# Logging

A `Logger` writes a prefix into its stream when it is made, takes what a caller
inserts, and ends the record when it goes. What `gettid`, `Timestamp::now` and
`strerror_r` give comes with each record, and so does the memory of its array.
-/

namespace Muduo

open Lib

-- ---------------------------------------------------------------------------
-- Source files
-- ---------------------------------------------------------------------------

def CString.strrchr (str : CString) (c : UInt8) : Option Nat :=
  if c ∈ str.text then some (str.strlen - 1 - str.text.reverse.idxOf c) else none

/-- What `__FILE__` leads to, from behind its last slash on. -/
structure SourceFile where
  data : Bytes
  size : Int
  read : size.toNat ≤ data.length
  int : -2 ^ 31 ≤ size ∧ size < 2 ^ 31

namespace SourceFile

def len (f : SourceFile) : Nat := (f.size % 2 ^ 64).toNat

def text (f : SourceFile) : Bytes := f.data.take f.len

def start (str : CString) : Nat := match str.strrchr 47 with
  | some slash => slash + 1
  | none => 0

theorem start_le (str : CString) : start str ≤ str.strlen := by
  unfold start CString.strrchr
  have hlength := str.length_text
  split
  · rename_i hslash
    split at hslash
    · rename_i hmem
      have hpos := List.length_pos_of_mem hmem
      have hsome := Option.some.inj hslash
      omega
    · exact absurd hslash (by simp)
  · exact Nat.zero_le _

def ofArray (arr : CString) (hN : arr.memory.length < 2 ^ 31) : SourceFile where
  data := arr.memory.drop (start arr)
  size := arr.memory.length - 1 - start arr
  read := by
    rw [List.length_drop]
    omega
  int := by
    have hstart := start_le arr
    have hlen := arr.strlen_lt
    omega

end SourceFile

-- ---------------------------------------------------------------------------
-- Records
-- ---------------------------------------------------------------------------

inductive LogLevel
  | TRACE
  | DEBUG
  | INFO
  | WARN
  | ERROR
  | FATAL
  deriving DecidableEq

def LogLevelName : LogLevel → CString
  | .TRACE => .literal "TRACE "
  | .DEBUG => .literal "DEBUG "
  | .INFO => .literal "INFO  "
  | .WARN => .literal "WARN  "
  | .ERROR => .literal "ERROR "
  | .FATAL => .literal "FATAL "

namespace Logging

/-- The assertions, and what the stream faults with. -/
inductive Fault
  | cacheTid
  | dateLength
  | fmt
  | usLength
  | T
  | stream (e : LogStream.Fault)
  deriving DecidableEq

/-- The `__thread` variables, with zeros in their memory at first. -/
structure ThreadLocal where
  cachedTid : Nat := 0
  tidString : CString := ⟨List.replicate 32 0, by simp⟩
  time : CString := ⟨List.replicate 32 0, by simp⟩
  lastSecond : Nat := 0

/-- `%5d` with a blank as `fill`, `%05d` with a zero. -/
def padded (fill : UInt8) (width n : Nat) : Bytes := (LogStream.decimal n).leftpad width fill

def tidText (tid : Nat) : Bytes := padded 32 5 tid ++ ascii " "

/-- `"%4d%02d%02d %02d:%02d:%02d"` -/
def dateText (tm : Tm) : Bytes :=
  padded 32 4 tm.year ++ padded 48 2 (tm.mon + 1) ++ padded 48 2 (tm.mday + 1) ++ ascii " " ++
    padded 48 2 tm.hour ++ ascii ":" ++ padded 48 2 tm.min ++ ascii ":" ++ padded 48 2 tm.sec

def usText (microseconds : Nat) : Bytes := ascii "." ++ padded 48 6 microseconds ++ ascii "Z "

def cacheTid (t : ThreadLocal) (gettid : Nat) : Except Fault ThreadLocal := do
  if t.cachedTid = 0 then
    ensure ((tidText gettid).length = 6) .cacheTid
    return { t with cachedTid := gettid, tidString := .snprintf 32 (tidText gettid) }
  else
    return t

def tid (t : ThreadLocal) (gettid : Nat) : Except Fault ThreadLocal :=
  if t.cachedTid = 0 then cacheTid t gettid else .ok t

def put (stream : LogStream) (x : Item) : Except Fault LogStream :=
  (stream.insert x).mapError .stream

def putT (stream : LogStream) (str : CString) (len : Nat) : Except Fault LogStream := do
  ensure (str.strlen = len) .T
  (stream.append str.memory len).mapError .stream

/-- The date is printed again when the second is another one. -/
def refreshTime (t : ThreadLocal) (seconds : Nat) : Except Fault ThreadLocal := do
  if seconds ≠ t.lastSecond then
    ensure ((dateText (gmtime seconds)).length = 17) .dateLength
    return { t with lastSecond := seconds, time := .snprintf 32 (dateText (gmtime seconds)) }
  else
    return t

/-- `microSecondsSinceEpoch` is not before the epoch. -/
def formatTime (t : ThreadLocal) (stream : LogStream) (microSecondsSinceEpoch : Nat) :
    Except Fault (ThreadLocal × LogStream) := do
  let t ← refreshTime t (microSecondsSinceEpoch / 1000000)
  let us := usText (microSecondsSinceEpoch % 1000000)
  ensure (us.length < 32) .fmt
  ensure (us.length = 9) .usLength
  let stream ← putT stream t.time 17
  let stream ← putT stream (.snprintf 32 us) 9
  return (t, stream)

end Logging

open Logging (ThreadLocal put putT)

inductive Logger.Constructor
  | plain
  | ofFunc (level : LogLevel) (func : CString)
  | ofLevel (level : LogLevel)
  | ofErrno (toAbort : Bool) (errno : Int32)

structure Logger.Record where
  constructor : Logger.Constructor
  file : SourceFile
  line : Int32
  now : Nat
  gettid : Nat
  strerror : CString
  memory : Memory LogStream.kSmallBuffer

structure Logger where
  time : Nat
  stream : LogStream
  level : LogLevel
  line : Int32
  basename : SourceFile

namespace Logger

def Constructor.level : Constructor → LogLevel
  | .plain => .INFO
  | .ofFunc level _ => level
  | .ofLevel level => level
  | .ofErrno toAbort _ => if toAbort then .FATAL else .ERROR

def Constructor.savedErrno : Constructor → Int32
  | .ofErrno _ errno => errno
  | _ => 0

def putErrno (stream : LogStream) (savedErrno : Int32) (strerror : CString) :
    Except Logging.Fault LogStream := do
  if savedErrno ≠ 0 then
    let stream ← put stream (.cString strerror)
    let stream ← put stream (.cString (.literal "(errno="))
    let stream ← put stream (.number (.int savedErrno))
    put stream (.cString (.literal ")"))
  else
    return stream

def putFunc (stream : LogStream) : Constructor → Except Logging.Fault LogStream
  | .ofFunc _ func => do
    let stream ← put stream (.cString func)
    put stream (.char 32)
  | _ => .ok stream

def make (t : ThreadLocal) (r : Record) : Except Logging.Fault (ThreadLocal × Logger) := do
  let (t, stream) ← Logging.formatTime t (.make r.memory) r.now
  let t ← Logging.tid t r.gettid
  let stream ← putT stream t.tidString 6
  let stream ← putT stream (LogLevelName r.constructor.level) 6
  let stream ← putErrno stream r.constructor.savedErrno r.strerror
  let stream ← putFunc stream r.constructor
  return (t, ⟨r.now, stream, r.constructor.level, r.line, r.file⟩)

def insertAll (l : Logger) (items : List Item) : Except Logging.Fault Logger := do
  let stream ← (l.stream.insertAll items).mapError .stream
  return { l with stream := stream }

def finish (l : Logger) : Except Logging.Fault Logger := do
  let stream ← put l.stream (.cString (.literal "-"))
  let stream ← (stream.append l.basename.data l.basename.len).mapError .stream
  let stream ← put stream (.char 58)
  let stream ← put stream (.number (.int l.line))
  let stream ← put stream (.char 10)
  return { l with stream := stream }

/-- What `g_output` is given, and whether the process is aborted then. -/
def destroy (l : Logger) : Except Logging.Fault (Bytes × Bool) := do
  let l ← l.finish
  return (l.stream.buffer.asString, l.level = .FATAL)

/-- `LOG_INFO << ..` and the like. -/
def log (t : ThreadLocal) (r : Record) (items : List Item) :
    Except Logging.Fault (ThreadLocal × Bytes × Bool) := do
  let (t, l) ← make t r
  let l ← l.insertAll items
  let (msg, aborts) ← l.destroy
  return (t, msg, aborts)

/-- The records of a thread, up to one that aborts the process. -/
def logAll (t : ThreadLocal) : List (Record × List Item) → Except Logging.Fault (List Bytes)
  | [] => .ok []
  | (r, items) :: records => do
    let (t, msg, aborts) ← log t r items
    if aborts then
      return [msg]
    else
      let msgs ← logAll t records
      return msg :: msgs

/-- The main thread and every `Thread` ask for their id before they log. -/
def logThread (early : Bool) (gettid : Nat) (records : List (Record × List Item)) :
    Except Logging.Fault (List Bytes) := do
  let t ← if early then Logging.tid {} gettid else .ok {}
  logAll t records

end Logger

end Muduo
