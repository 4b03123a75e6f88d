import Muduo.Lib.Calendar
import Muduo.Lib.Digits
import Muduo.Lib.Machine

/-!
# LogFile

A log file with the directory it writes to. What `time` gives comes with each
call of `append`, and so does how much each `fwrite_unlocked` took.
-/

namespace Muduo

open Lib

namespace LogFile

abbrev Text := List Char
abbrev Record := List UInt8

/-- The files in the order they were created. -/
abbrev Directory := List (Text × Record)

/-- A `File` is known to `stdio` by the name it was opened with. -/
structure File where
  name : Text
  writtenBytes : Nat := 0

inductive Fault
  | file
  deriving DecidableEq

end LogFile

structure LogFile where
  basename : LogFile.Text
  hostname : LogFile.Text
  pid : Nat
  rollSize : Nat
  flushInterval : Int
  count : Nat := 0
  startOfPeriod : Nat := 0
  lastRoll : Nat := 0
  lastFlush : Nat := 0
  file : Option LogFile.File := none
  directory : LogFile.Directory := []

namespace LogFile

-- ---------------------------------------------------------------------------
-- Names
-- ---------------------------------------------------------------------------

def twoDigits (n : Nat) : Text := [Nat.digitChar (n / 10), Nat.digitChar (n % 10)]

/-- `strftime(timebuf, sizeof timebuf, ".%Y%m%d-%H%M%S.", &tm)` -/
def strftime (tm : Tm) : Text :=
  ['.'] ++ Nat.toDigits 10 tm.year ++ twoDigits (tm.mon + 1) ++ twoDigits (tm.mday + 1) ++
    ['-'] ++ twoDigits tm.hour ++ twoDigits tm.min ++ twoDigits tm.sec ++ ['.']

def getLogFileName (l : LogFile) (now : Nat) : Text :=
  l.basename ++ strftime (gmtime now) ++ l.hostname ++ (['.'] ++ Nat.toDigits 10 l.pid) ++
    ['.', 'l', 'o', 'g']

-- ---------------------------------------------------------------------------
-- Files
-- ---------------------------------------------------------------------------

/-- `fopen(filename, "ae")`: a file that exists is appended to. -/
def fopen (directory : Directory) (filename : Text) : Directory :=
  if filename ∈ directory.map Prod.fst then directory else directory ++ [(filename, [])]

def fwrite (directory : Directory) (filename : Text) (bytes : Record) : Directory :=
  directory.map fun e => if e.1 = filename then (e.1, e.2 ++ bytes) else e

def appendLoop (filename : Text) (logline : Record) : Nat → List Nat → Directory → Directory
  | _, [], directory => directory
  | n, x :: results, directory =>
    let remain := logline.length - n
    if remain > 0 then
      if x = 0 then directory
      else appendLoop filename logline (n + x) results
        (fwrite directory filename ((logline.drop n).take x))
    else directory

/-- The first `write` may take nothing, as an empty record does. -/
def File.append (file : File) (logline : Record) (results : List Nat) (directory : Directory) :
    File × Directory :=
  let directory := match results with
    | [] => directory
    | n :: results => appendLoop file.name logline n results
        (fwrite directory file.name (logline.take n))
  ({ file with writtenBytes := file.writtenBytes + logline.length }, directory)

-- ---------------------------------------------------------------------------
-- The log
-- ---------------------------------------------------------------------------

def kCheckTimeRoll : Nat := 1024
def kRollPerSeconds : Nat := 60 * 60 * 24

def rollFile (l : LogFile) (now : Nat) : LogFile :=
  let filename := l.getLogFileName now
  let start := now / kRollPerSeconds * kRollPerSeconds
  if now > l.lastRoll then
    { l with
      lastRoll := now
      lastFlush := now
      startOfPeriod := start
      file := some { name := filename }
      directory := fopen l.directory filename }
  else l

/-- `time` is read for the period and once more in `getLogFileName`. -/
def append_unlocked (l : LogFile) (logline : Record) (results : List Nat) (now rollNow : Nat) :
    Except Fault LogFile :=
  match l.file with
  | none => .error .file
  | some file => do
    let (file, directory) := file.append logline results l.directory
    let l := { l with file := some file, directory }
    if file.writtenBytes > l.rollSize then return l.rollFile rollNow
    else if l.count > kCheckTimeRoll then
      let l := { l with count := 0 }
      let thisPeriod := now / kRollPerSeconds * kRollPerSeconds
      if thisPeriod ≠ l.startOfPeriod then return l.rollFile rollNow
      else if (now : Int) - l.lastFlush > l.flushInterval then return { l with lastFlush := now }
      else return l
    else return { l with count := l.count + 1 }

def new (basename hostname : Text) (pid rollSize : Nat) (flushInterval : Int) (now : Nat) :
    LogFile :=
  rollFile { basename, hostname, pid, rollSize, flushInterval } now

-- ---------------------------------------------------------------------------
-- Runs
-- ---------------------------------------------------------------------------

structure Append where
  logline : Record
  results : List Nat
  now : Nat
  rollNow : Nat

/-- Every write of the `remain` bytes left takes one of them at least. -/
def Writes : Nat → List Nat → Prop
  | remain, [] => remain = 0
  | remain, x :: results => 0 < x ∧ x ≤ remain ∧ Writes (remain - x) results

instance decidableWrites : ∀ remain results, Decidable (Writes remain results)
  | remain, [] => inferInstanceAs (Decidable (remain = 0))
  | remain, x :: results =>
    have := decidableWrites (remain - x) results
    inferInstanceAs (Decidable (_ ∧ _ ∧ _))

def machine : Machine LogFile Append Fault where
  enabled _ a := 0 < a.now ∧ 0 < a.rollNow ∧ Writes a.logline.length a.results
  step l a := l.append_unlocked a.logline a.results a.now a.rollNow

instance (l : LogFile) (a : Append) : Decidable (machine.enabled l a) :=
  inferInstanceAs (Decidable (_ ∧ _ ∧ _))

end LogFile

end Muduo
