import Muduo.Base.StringPiece
import Muduo.Lib.Machine
import Muduo.Lib.Search
import Muduo.Lib.Slice
import Mathlib.Algebra.Group.Nat.Defs

/-!
# Buffer

The byte buffer of a connection: a vector with a reader and a writer index.
Pointers into the vector are positions in it. A `size_t` is a `Nat`, since a
vector cannot grow to where one wraps; an `int` made from one is cut to 32 bits
as the code's cast does it.

Each operation has one lemma that says what it does to the readable bytes of a
valid buffer, and that none of its assertions fails.
-/

namespace Muduo

open Lib

abbrev Errno := Nat

/-- What `readv` delivers: the bytes, of which there are none at end of file. -/
inductive ReadResult
  | data (bytes : Bytes)
  | error (errno : Errno)
  deriving DecidableEq

structure Buffer where
  buffer : Bytes
  readerIndex : Nat
  writerIndex : Nat
  deriving DecidableEq

namespace Buffer

def kCheapPrepend : Nat := 8
def kInitialSize : Nat := 1024

/-- The assertions, and the exception of a vector asked for too much. -/
inductive Fault
  | constructor
  | retrieve
  | retrieveUntilPeek
  | retrieveUntilBeginWrite
  | retrieveAsString
  | ensureWritableBytes
  | prepend
  | makeSpaceReaderIndex
  | makeSpaceReadable
  | lengthError
  deriving DecidableEq

-- ---------------------------------------------------------------------------
-- The code
-- ---------------------------------------------------------------------------

def readableBytes (b : Buffer) : Nat := b.writerIndex - b.readerIndex
def writableBytes (b : Buffer) : Nat := b.buffer.length - b.writerIndex
def prependableBytes (b : Buffer) : Nat := b.readerIndex
def peek (b : Buffer) : Nat := b.readerIndex
def beginWrite (b : Buffer) : Nat := b.writerIndex

def kCRLF : Bytes := [13, 10]

def findCRLF (b : Buffer) : Option Nat :=
  (search kCRLF (slice b.buffer b.peek b.beginWrite)).map (b.peek + ·)

def fresh : Buffer :=
  ⟨List.replicate (kCheapPrepend + kInitialSize) 0, kCheapPrepend, kCheapPrepend⟩

def make : Except Fault Buffer := do
  ensure (fresh.readableBytes = 0) .constructor
  ensure (fresh.writableBytes = kInitialSize) .constructor
  ensure (fresh.prependableBytes = kCheapPrepend) .constructor
  return fresh

def retrieveAll (b : Buffer) : Buffer :=
  { b with readerIndex := kCheapPrepend, writerIndex := kCheapPrepend }

def retrieve (b : Buffer) (len : Nat) : Except Fault Buffer := do
  ensure (len ≤ b.readableBytes) .retrieve
  if len < b.readableBytes then
    return { b with readerIndex := b.readerIndex + len }
  else
    return b.retrieveAll

def retrieveUntil (b : Buffer) (end_ : Nat) : Except Fault Buffer := do
  ensure (b.peek ≤ end_) .retrieveUntilPeek
  ensure (end_ ≤ b.beginWrite) .retrieveUntilBeginWrite
  b.retrieve (end_ - b.peek)

def retrieveAsString (b : Buffer) (len : Nat) : Except Fault (Bytes × Buffer) := do
  ensure (len ≤ b.readableBytes) .retrieveAsString
  let result := slice b.buffer b.peek (b.peek + len)
  let b ← b.retrieve len
  return (result, b)

def retrieveAllAsString (b : Buffer) : Except Fault (Bytes × Buffer) :=
  b.retrieveAsString b.readableBytes

def toStringPiece (b : Buffer) : StringPiece :=
  ⟨b.buffer.drop b.peek, Int.bmod b.readableBytes (2 ^ 32)⟩

/-- Grows the vector, or slides the readable bytes down to the reserve. -/
def makeSpace (b : Buffer) (len : Nat) : Except Fault Buffer := do
  if b.writableBytes + b.prependableBytes < len + kCheapPrepend then
    return { b with buffer := resize b.buffer (b.writerIndex + len) 0 }
  else
    ensure (kCheapPrepend < b.readerIndex) .makeSpaceReaderIndex
    let readable := b.readableBytes
    let moved := slice b.buffer b.readerIndex b.writerIndex
    let b : Buffer :=
      { buffer := splice b.buffer kCheapPrepend moved
        readerIndex := kCheapPrepend
        writerIndex := kCheapPrepend + readable }
    ensure (readable = b.readableBytes) .makeSpaceReadable
    return b

def ensureWritableBytes (b : Buffer) (len : Nat) : Except Fault Buffer := do
  let b ← if b.writableBytes < len then b.makeSpace len else .ok b
  ensure (b.writableBytes ≥ len) .ensureWritableBytes
  return b

def hasWritten (b : Buffer) (len : Int) : Buffer :=
  { b with writerIndex := (b.writerIndex + len).toNat }

def append (b : Buffer) (data : Bytes) : Except Fault Buffer := do
  let b ← b.ensureWritableBytes data.length
  let b := { b with buffer := splice b.buffer b.beginWrite data }
  return b.hasWritten data.length

/-- A negative length becomes a `size_t` that no vector can be resized to. -/
def appendPiece (b : Buffer) (str : StringPiece) : Except Fault Buffer := do
  ensure (0 ≤ str.size) .lengthError
  b.append (str.data.take str.size.toNat)

def prepend (b : Buffer) (data : Bytes) : Except Fault Buffer := do
  ensure (data.length ≤ b.prependableBytes) .prepend
  let b := { b with readerIndex := b.readerIndex - data.length }
  return { b with buffer := splice b.buffer b.readerIndex data }

def swap (lhs rhs : Buffer) : Buffer × Buffer := (rhs, lhs)

def shrink (b : Buffer) (reserve : Nat) : Except Fault Buffer := do
  let other ← make
  let other ← other.ensureWritableBytes (b.readableBytes + reserve)
  let other ← other.appendPiece b.toStringPiece
  return (swap b other).1

/-- `n`, and the saved error of a failed `readv`. What does not fit behind the
writer index is read into `extrabuf` and appended. -/
def readFd (b : Buffer) : ReadResult → Except Fault (Buffer × Int × Option Errno)
  | .error errno => return (b, -1, some errno)
  | .data bytes => do
    let writable := b.writableBytes
    let n := bytes.length
    let b := { b with buffer := splice b.buffer b.writerIndex (bytes.take writable) }
    if n ≤ writable then
      return ({ b with writerIndex := b.writerIndex + n }, n, none)
    else
      let b := { b with writerIndex := b.buffer.length }
      let b ← b.append (bytes.drop writable)
      return (b, n, none)

-- ---------------------------------------------------------------------------
-- What the operations do
-- ---------------------------------------------------------------------------

def readable (b : Buffer) : Bytes := slice b.buffer b.readerIndex b.writerIndex

structure Valid (b : Buffer) : Prop where
  reader : b.readerIndex ≤ b.writerIndex
  writer : b.writerIndex ≤ b.buffer.length
  reserve : kCheapPrepend ≤ b.buffer.length

/-- The indexes are in order, whatever the size of the vector. -/
structure Ordered (b : Buffer) : Prop where
  reader : b.readerIndex ≤ b.writerIndex
  writer : b.writerIndex ≤ b.buffer.length

theorem Valid.ordered {b : Buffer} (hv : b.Valid) : b.Ordered := ⟨hv.reader, hv.writer⟩

theorem Valid.grown {b b' : Buffer} (hv : b.Valid) (ho : b'.Ordered)
    (h : b.buffer.length ≤ b'.buffer.length) : b'.Valid :=
  ⟨ho.reader, ho.writer, hv.reserve.trans h⟩

theorem fresh_valid : fresh.Valid := by
  constructor <;> simp [fresh, kCheapPrepend]

@[simp] theorem fresh_readable : fresh.readable = [] := slice_self _ _

theorem make_eq : make = .ok fresh := by
  have hr : fresh.readableBytes = 0 := by simp [readableBytes, fresh]
  have hw : fresh.writableBytes = kInitialSize := by simp [writableBytes, fresh]
  have hp : fresh.prependableBytes = kCheapPrepend := rfl
  simp only [make, ensure_bind hr, ensure_bind hw, ensure_bind hp]
  rfl

variable {b : Buffer}

theorem Valid.length_readable (hv : b.Valid) : b.readable.length = b.readableBytes :=
  length_slice hv.writer

theorem Valid.readableBytes_eq_zero (hv : b.Valid) : b.readableBytes = 0 ↔ b.readable = [] := by
  rw [← hv.length_readable, List.length_eq_zero_iff]

@[simp] theorem retrieveAll_readable : b.retrieveAll.readable = [] := slice_self _ _

theorem Valid.retrieveAll (hv : b.Valid) : b.retrieveAll.Valid :=
  ⟨Nat.le_refl _, hv.reserve, hv.reserve⟩

theorem retrieve_ok (hv : b.Valid) (h : len ≤ b.readableBytes) :
    ∃ b', b.retrieve len = .ok b' ∧ b'.Valid ∧ b'.readable = b.readable.drop len := by
  unfold retrieve
  rw [ensure_bind h]
  split
  · rename_i hlt
    refine ⟨_, rfl, ⟨?_, hv.writer, hv.reserve⟩, (drop_slice _).symm⟩
    simp only [readableBytes] at hlt ⊢
    omega
  · rename_i hge
    have hlen : b.readable.length ≤ len := by
      rw [hv.length_readable]
      omega
    exact ⟨_, rfl, hv.retrieveAll, by rw [retrieveAll_readable, List.drop_of_length_le hlen]⟩

theorem retrieveUntil_ok (hv : b.Valid) (h : b.peek ≤ end_) (h' : end_ ≤ b.beginWrite) :
    ∃ b', b.retrieveUntil end_ = .ok b' ∧ b'.Valid ∧
      b'.readable = b.readable.drop (end_ - b.peek) := by
  unfold retrieveUntil
  rw [ensure_bind h, ensure_bind h']
  refine retrieve_ok hv ?_
  simp only [peek, beginWrite, readableBytes] at *
  omega

theorem findCRLF_none (h : search kCRLF b.readable = none) : b.findCRLF = none := by
  show (search kCRLF b.readable).map (b.peek + ·) = none
  rw [h]
  rfl

theorem findCRLF_some (hv : b.Valid) (h : search kCRLF b.readable = some i) :
    b.findCRLF = some (b.peek + i) ∧ slice b.buffer b.peek (b.peek + i) = b.readable.take i ∧
      ∃ b', b.retrieveUntil (b.peek + i + 2) = .ok b' ∧ b'.Valid ∧
        b'.readable = b.readable.drop (i + 2) ∧ b'.readableBytes + 2 ≤ b.readableBytes := by
  have hle : i + 2 ≤ b.readable.length := (search_le h).resolve_right nofun
  rw [hv.length_readable, readableBytes] at hle
  have hin : b.peek + i + 2 ≤ b.beginWrite := by
    simp only [peek, beginWrite]
    omega
  refine ⟨?_, ?_, ?_⟩
  · show (search kCRLF b.readable).map (b.peek + ·) = _
    rw [h]
    rfl
  · refine (take_slice ?_).symm
    simp only [peek, beginWrite] at hin ⊢
    omega
  · obtain ⟨b', hb', hv', hr'⟩ := retrieveUntil_ok hv (by omega) hin
    have hsub : b.peek + i + 2 - b.peek = i + 2 := by omega
    rw [hsub] at hr'
    refine ⟨b', hb', hv', hr', ?_⟩
    rw [← hv'.length_readable, hr', List.length_drop, hv.length_readable, readableBytes]
    omega

theorem retrieveAsString_ok (hv : b.Valid) (h : len ≤ b.readableBytes) :
    ∃ b', b.retrieveAsString len = .ok (b.readable.take len, b') ∧ b'.Valid ∧
      b'.readable = b.readable.drop len := by
  obtain ⟨b', hb, hv', hr⟩ := retrieve_ok hv h
  refine ⟨b', ?_, hv', hr⟩
  have hle : b.readerIndex + len ≤ b.writerIndex := by
    have := hv.reader
    simp only [readableBytes] at h
    omega
  unfold retrieveAsString
  rw [ensure_bind h, hb, readable, take_slice hle]
  rfl

theorem makeSpace_ordered (ho : b.Ordered) (h : b.writableBytes < len) :
    ∃ b', b.makeSpace len = .ok b' ∧ b'.Ordered ∧ b'.readable = b.readable ∧
      len ≤ b'.writableBytes ∧ b.buffer.length ≤ b'.buffer.length := by
  have hr := ho.reader
  have hw := ho.writer
  simp only [writableBytes] at h
  unfold makeSpace
  split
  · refine ⟨_, rfl, ⟨hr, ?_⟩, slice_resize hw (by simp), ?_, ?_⟩ <;>
      simp only [writableBytes, length_resize] <;> omega
  · -- sliding down to the reserve is only chosen with the reader index above it
    rename_i hroom
    simp only [writableBytes, prependableBytes] at hroom
    have hmoved : (slice b.buffer b.readerIndex b.writerIndex).length = b.readableBytes :=
      length_slice hw
    have hfits : kCheapPrepend + (slice b.buffer b.readerIndex b.writerIndex).length ≤
        b.buffer.length := by
      rw [hmoved, readableBytes]
      omega
    have hreader : kCheapPrepend < b.readerIndex := by omega
    have hsame : b.readableBytes = kCheapPrepend + b.readableBytes - kCheapPrepend := by omega
    simp only [ensure_bind hreader]
    rw [ensure_bind (by exact hsame)]
    refine ⟨_, rfl, ⟨by simp, ?_⟩, ?_, ?_, ?_⟩
    · simp only [length_splice hfits, readableBytes]
      omega
    · have hslide := slice_splice_left (slice b.buffer b.readerIndex b.writerIndex)
        (Nat.le_refl kCheapPrepend) (Nat.le_trans (Nat.le_add_right _ _) hfits)
      rw [hmoved] at hslide
      simpa [readable] using hslide
    · simp only [writableBytes, length_splice hfits, readableBytes]
      omega
    · exact Nat.le_of_eq (length_splice hfits).symm

theorem ensureWritableBytes_ordered (ho : b.Ordered) (len : Nat) :
    ∃ b', b.ensureWritableBytes len = .ok b' ∧ b'.Ordered ∧ b'.readable = b.readable ∧
      len ≤ b'.writableBytes ∧ b.buffer.length ≤ b'.buffer.length := by
  unfold ensureWritableBytes
  split
  · rename_i h
    obtain ⟨b', hb, ho', hr, hroom, hlength⟩ := makeSpace_ordered ho h
    simp only [hb, ok_bind, ensure_bind hroom]
    exact ⟨b', rfl, ho', hr, hroom, hlength⟩
  · rename_i h
    have hroom : len ≤ b.writableBytes := by omega
    simp only [ok_bind, ensure_bind hroom]
    exact ⟨b, rfl, ho, rfl, hroom, Nat.le_refl _⟩

theorem ensureWritableBytes_ok (hv : b.Valid) (len : Nat) :
    ∃ b', b.ensureWritableBytes len = .ok b' ∧ b'.Valid ∧ b'.readable = b.readable ∧
      len ≤ b'.writableBytes := by
  obtain ⟨b', hb, ho, hr, hroom, hlength⟩ := ensureWritableBytes_ordered hv.ordered len
  exact ⟨b', hb, hv.grown ho hlength, hr, hroom⟩

theorem ensureWritableBytes_of_room (h : len ≤ b.writableBytes) :
    b.ensureWritableBytes len = .ok b := by
  unfold ensureWritableBytes
  rw [if_neg (by omega)]
  simp only [ok_bind, ensure_bind h]
  rfl

theorem append_of_room_ordered (data : Bytes) (ho : b.Ordered)
    (h : data.length ≤ b.writableBytes) :
    ∃ b', b.append data = .ok b' ∧ b'.Ordered ∧ b'.readable = b.readable ++ data ∧
      b'.writableBytes = b.writableBytes - data.length ∧ b'.buffer.length = b.buffer.length := by
  have hw := ho.writer
  have hfits : b.writerIndex + data.length ≤ b.buffer.length := by
    simp only [writableBytes] at h
    omega
  simp only [append, ensureWritableBytes_of_room h, ok_bind, hasWritten, beginWrite]
  refine ⟨_, rfl, ⟨?_, ?_⟩, ?_, ?_, length_splice hfits⟩
  · have := ho.reader
    simp only
    omega
  · simp only [length_splice hfits]
    omega
  · have hlen : ((b.writerIndex : Int) + data.length).toNat = b.writerIndex + data.length := by
      omega
    simp only [readable, hlen]
    exact slice_splice_left data ho.reader hw
  · simp only [writableBytes, length_splice hfits]
    omega

theorem append_of_room (data : Bytes) (hv : b.Valid) (h : data.length ≤ b.writableBytes) :
    ∃ b', b.append data = .ok b' ∧ b'.Valid ∧ b'.readable = b.readable ++ data ∧
      b'.writableBytes = b.writableBytes - data.length := by
  obtain ⟨b', hb, ho, hr, hroom, hlength⟩ := append_of_room_ordered data hv.ordered h
  exact ⟨b', hb, hv.grown ho hlength.ge, hr, hroom⟩

theorem append_ordered (ho : b.Ordered) (data : Bytes) :
    ∃ b', b.append data = .ok b' ∧ b'.Ordered ∧ b'.readable = b.readable ++ data ∧
      b.buffer.length ≤ b'.buffer.length := by
  obtain ⟨b₁, hb, ho₁, hr, hroom, hlength⟩ := ensureWritableBytes_ordered ho data.length
  obtain ⟨b', hb', ho', hr', -, hlength'⟩ := append_of_room_ordered data ho₁ hroom
  refine ⟨b', ?_, ho', by rw [hr', hr], hlength.trans hlength'.ge⟩
  -- the second call finds room, so making room first changes nothing
  unfold append at hb' ⊢
  rw [ensureWritableBytes_of_room hroom] at hb'
  rw [hb]
  exact hb'

theorem append_ok (hv : b.Valid) (data : Bytes) :
    ∃ b', b.append data = .ok b' ∧ b'.Valid ∧ b'.readable = b.readable ++ data := by
  obtain ⟨b', hb, ho, hr, hlength⟩ := append_ordered hv.ordered data
  exact ⟨b', hb, hv.grown ho hlength, hr⟩

theorem prepend_ok (hv : b.Valid) (h : data.length ≤ b.prependableBytes) :
    ∃ b', b.prepend data = .ok b' ∧ b'.Valid ∧ b'.readable = data ++ b.readable := by
  have hr := hv.reader
  have hw := hv.writer
  have hlen : data.length ≤ b.readerIndex := h
  have hfits : b.readerIndex - data.length + data.length ≤ b.buffer.length := by omega
  unfold prepend
  rw [ensure_bind h]
  refine ⟨_, rfl, ⟨?_, ?_, ?_⟩, ?_⟩
  · simp only
    omega
  · simpa only [length_splice hfits] using hw
  · simpa only [length_splice hfits] using hv.reserve
  · have hfront := slice_splice_right (i := b.readerIndex - data.length) (j := b.writerIndex)
      data (by omega) hw
    rw [Nat.sub_add_cancel hlen] at hfront
    exact hfront

/-- The cast to `int` keeps a length below 2^31. -/
theorem bmod_of_lt {n : Nat} (h : n < 2 ^ 31) : Int.bmod n (2 ^ 32) = n := by
  rw [show 2 ^ 31 = 2147483648 from rfl] at h
  rw [show 2 ^ 32 = 4294967296 from rfl]
  exact Int.bmod_eq_of_le (by omega) (by omega)

theorem toStringPiece_size (h : b.readableBytes < 2 ^ 31) :
    b.toStringPiece.size = b.readableBytes := by
  simp only [toStringPiece]
  exact bmod_of_lt h

theorem shrink_ok (hv : b.Valid) (h : b.readableBytes < 2 ^ 31) (reserve : Nat) :
    ∃ b', b.shrink reserve = .ok b' ∧ b'.Valid ∧ b'.readable = b.readable ∧
      reserve ≤ b'.writableBytes := by
  obtain ⟨b₁, hb₁, hv₁, hr₁, hroom⟩ :=
    ensureWritableBytes_ok fresh_valid (b.readableBytes + reserve)
  have hlen := hv.length_readable
  obtain ⟨b₂, hb₂, hv₂, hr₂, hroom₂⟩ :=
    append_of_room b.readable hv₁ (by omega)
  refine ⟨b₂, ?_, hv₂, by rw [hr₂, hr₁, fresh_readable, List.nil_append], by omega⟩
  have hsize := toStringPiece_size h
  have hpiece : b.toStringPiece.data.take b.toStringPiece.size.toNat = b.readable := by
    rw [hsize]
    rfl
  unfold shrink appendPiece
  rw [make_eq, ok_bind, hb₁, ok_bind, ensure_bind (by rw [hsize]; omega), hpiece, hb₂]
  rfl

theorem readFd_ordered (ho : b.Ordered) (bytes : Bytes) :
    ∃ b', b.readFd (.data bytes) = .ok (b', bytes.length, none) ∧ b'.Ordered ∧
      b'.readable = b.readable ++ bytes ∧ b.buffer.length ≤ b'.buffer.length := by
  have hr := ho.reader
  have hw := ho.writer
  have htake : (bytes.take b.writableBytes).length = min b.writableBytes bytes.length :=
    List.length_take
  have hfits : b.writerIndex + (bytes.take b.writableBytes).length ≤ b.buffer.length := by
    rw [htake]
    simp only [writableBytes]
    omega
  have hsplice := slice_splice_left (bytes.take b.writableBytes) hr hw
  unfold readFd
  simp only
  split
  · rename_i hn
    refine ⟨_, rfl, ⟨?_, ?_⟩, ?_, Nat.le_of_eq (length_splice hfits).symm⟩
    · simp only
      omega
    · simp only [length_splice hfits]
      simp only [writableBytes] at hn
      omega
    · rw [List.take_of_length_le hn] at hsplice ⊢
      exact hsplice
  · -- the vector is full now, and the rest comes from `extrabuf`
    rename_i hn
    have hfull : b.writerIndex + (bytes.take b.writableBytes).length = b.buffer.length := by
      rw [htake]
      simp only [writableBytes] at hn ⊢
      omega
    let full : Buffer :=
      { buffer := splice b.buffer b.writerIndex (bytes.take b.writableBytes)
        readerIndex := b.readerIndex
        writerIndex := (splice b.buffer b.writerIndex (bytes.take b.writableBytes)).length }
    have hof : full.Ordered := by
      refine ⟨?_, Nat.le_refl _⟩
      simp only [full, length_splice hfits]
      omega
    have hrf : full.readable = b.readable ++ bytes.take b.writableBytes := by
      simp only [full, readable, length_splice hfits]
      rw [← hfull]
      exact hsplice
    obtain ⟨b', hb', ho', hr', hlength⟩ := append_ordered hof (bytes.drop b.writableBytes)
    refine ⟨b', ?_, ho', ?_, (length_splice hfits).ge.trans hlength⟩
    · show (full.append (bytes.drop b.writableBytes) >>= fun b => _) = _
      rw [hb']
      rfl
    · rw [hr', hrf, List.append_assoc, List.take_append_drop]

theorem readFd_data (hv : b.Valid) (bytes : Bytes) :
    ∃ b', b.readFd (.data bytes) = .ok (b', bytes.length, none) ∧ b'.Valid ∧
      b'.readable = b.readable ++ bytes := by
  obtain ⟨b', hb, ho, hr, hlength⟩ := readFd_ordered hv.ordered bytes
  exact ⟨b', hb, hv.grown ho hlength, hr⟩

/-- Whatever `readv` returns, and wherever the indexes are: what was read comes
behind what was readable. -/
theorem readFd_exact {b : Buffer} (hr : b.readerIndex ≤ b.writerIndex)
    (hw : b.writerIndex ≤ b.buffer.length) :
    (∀ bytes, ∃ b', b.readFd (.data bytes) = .ok (b', bytes.length, none) ∧
      b'.readable = b.readable ++ bytes ∧ b'.readerIndex ≤ b'.writerIndex ∧
      b'.writerIndex ≤ b'.buffer.length) ∧
    ∀ errno, b.readFd (.error errno) = .ok (b, -1, some errno) := by
  refine ⟨fun bytes => ?_, fun errno => rfl⟩
  obtain ⟨b', hb, ho, hread, -⟩ := readFd_ordered ⟨hr, hw⟩ bytes
  exact ⟨b', hb, hread, ho.reader, ho.writer⟩

/-- One byte fits, and the readable bytes slide down for the two others. -/
theorem readFd_exact_sliding :
    ∃ b', readFd ⟨List.replicate 12 7, 10, 11⟩ (.data (ascii "abc")) = .ok (b', 3, none) ∧
      b'.readable = 7 :: ascii "abc" := by
  obtain ⟨b', hb, hread, -⟩ :=
    (readFd_exact (b := ⟨List.replicate 12 7, 10, 11⟩) (by decide) (by decide)).1 (ascii "abc")
  exact ⟨b', hb, hread⟩

end Buffer

end Muduo
