import Muduo.Lib.Places
import Muduo.Net.Buffer

/-!
# Integers in a buffer

An integer goes into a buffer in network order. What order the host keeps it in
makes no difference.
-/

namespace Muduo

open Lib

inductive ByteOrder
  | little
  | big
  deriving DecidableEq

namespace sockets

variable (order : ByteOrder)

-- ---------------------------------------------------------------------------
-- The host
-- ---------------------------------------------------------------------------

/-- The bytes from the address of `x` on. -/
def memory {k : Nat} (x : BitVec (8 * k)) : Bytes :=
  match order with
  | .little => places k x.toNat
  | .big => (places k x.toNat).reverse

/-- What `memcpy` makes of an integer of `k` bytes. -/
def ofMemory (k : Nat) (bytes : Bytes) : BitVec (8 * k) :=
  match order with
  | .little => BitVec.ofNat _ (ofPlaces bytes)
  | .big => BitVec.ofNat _ (ofPlaces bytes.reverse)

def byteSwap {k : Nat} (x : BitVec (8 * k)) : BitVec (8 * k) :=
  BitVec.ofNat _ (ofPlaces (places k x.toNat).reverse)

/-- `htobe16` and `htobe32`, and what they are undone by. -/
def hostToNetwork {k : Nat} (x : BitVec (8 * k)) : BitVec (8 * k) :=
  match order with
  | .little => byteSwap x
  | .big => x

def hostToNetwork32 (host32 : UInt32) : UInt32 := ⟨hostToNetwork order (k := 4) host32.toBitVec⟩
def hostToNetwork16 (host16 : UInt16) : UInt16 := ⟨hostToNetwork order (k := 2) host16.toBitVec⟩
def networkToHost32 (net32 : UInt32) : UInt32 := ⟨hostToNetwork order (k := 4) net32.toBitVec⟩
def networkToHost16 (net16 : UInt16) : UInt16 := ⟨hostToNetwork order (k := 2) net16.toBitVec⟩

end sockets

namespace Buffer

open sockets

variable (order : ByteOrder)

/-- The assertion of a peek at an integer of so many bytes. -/
inductive IntFault
  | peek (size : Nat)
  | buffer (fault : Buffer.Fault)
  deriving DecidableEq

def IntFault.onBuffer : Except Buffer.Fault α → Except IntFault α := Except.mapError .buffer

-- ---------------------------------------------------------------------------
-- The code
-- ---------------------------------------------------------------------------

def appendInt32 (b : Buffer) (x : Int32) : Except Fault Buffer :=
  let be32 := (hostToNetwork32 order x.toUInt32).toInt32
  b.append (memory order (k := 4) be32.toBitVec)

def appendInt16 (b : Buffer) (x : Int16) : Except Fault Buffer :=
  let be16 := (hostToNetwork16 order x.toUInt16).toInt16
  b.append (memory order (k := 2) be16.toBitVec)

def appendInt8 (b : Buffer) (x : Int8) : Except Fault Buffer :=
  b.append (memory order (k := 1) x.toBitVec)

def retrieveInt32 (b : Buffer) : Except Fault Buffer := b.retrieve 4
def retrieveInt16 (b : Buffer) : Except Fault Buffer := b.retrieve 2
def retrieveInt8 (b : Buffer) : Except Fault Buffer := b.retrieve 1

def peekInt (k : Nat) (b : Buffer) : Except IntFault (BitVec (8 * k)) := do
  ensure (b.readableBytes ≥ k) (.peek k)
  return ofMemory order k (slice b.buffer b.peek (b.peek + k))

def peekInt32 (b : Buffer) : Except IntFault Int32 := do
  let be32 ← b.peekInt order 4
  return (networkToHost32 order ⟨be32⟩).toInt32

def peekInt16 (b : Buffer) : Except IntFault Int16 := do
  let be16 ← b.peekInt order 2
  return (networkToHost16 order ⟨be16⟩).toInt16

def peekInt8 (b : Buffer) : Except IntFault Int8 := do
  let x ← b.peekInt order 1
  return UInt8.toInt8 ⟨x⟩

def readInt (result : Except IntFault α) (retrieved : Except Fault Buffer) :
    Except IntFault (α × Buffer) := do
  let result ← result
  let b ← IntFault.onBuffer retrieved
  return (result, b)

def readInt32 (b : Buffer) : Except IntFault (Int32 × Buffer) :=
  readInt (b.peekInt32 order) b.retrieveInt32

def readInt16 (b : Buffer) : Except IntFault (Int16 × Buffer) :=
  readInt (b.peekInt16 order) b.retrieveInt16

def readInt8 (b : Buffer) : Except IntFault (Int8 × Buffer) :=
  readInt (b.peekInt8 order) b.retrieveInt8

def prependInt32 (b : Buffer) (x : Int32) : Except Fault Buffer :=
  let be32 := (hostToNetwork32 order x.toUInt32).toInt32
  b.prepend (memory order (k := 4) be32.toBitVec)

def prependInt16 (b : Buffer) (x : Int16) : Except Fault Buffer :=
  let be16 := (hostToNetwork16 order x.toUInt16).toInt16
  b.prepend (memory order (k := 2) be16.toBitVec)

def prependInt8 (b : Buffer) (x : Int8) : Except Fault Buffer :=
  b.prepend (memory order (k := 1) x.toBitVec)

-- ---------------------------------------------------------------------------
-- Network order
-- ---------------------------------------------------------------------------

/-- Big-endian, in two's complement. -/
def bigEndian (k : Nat) (x : Int) : Bytes := (places k x).reverse

variable {order : ByteOrder} {b : Buffer} {k : Nat}

theorem toNat_ofPlaces {bytes : Bytes} (h : bytes.length = k) :
    (BitVec.ofNat (8 * k) (ofPlaces bytes)).toNat = ofPlaces bytes := by
  have hlt := ofPlaces_lt bytes
  rw [h] at hlt
  rw [BitVec.toNat_ofNat, Nat.pow_mul]
  exact Nat.mod_eq_of_lt hlt

theorem places_ofNat {bytes : Bytes} (h : bytes.length = k) :
    places k (BitVec.ofNat (8 * k) (ofPlaces bytes)).toNat = bytes := by
  rw [toNat_ofPlaces h, ← h]
  exact places_ofPlaces bytes

theorem ofNat_places (x : BitVec (8 * k)) : BitVec.ofNat (8 * k) (ofPlaces (places k x.toNat)) = x := by
  apply BitVec.eq_of_toNat_eq
  rw [toNat_ofPlaces (length_places ..)]
  apply Int.ofNat_inj.mp
  have hlt := x.isLt
  rw [Nat.pow_mul] at hlt
  rw [ofPlaces_places]
  exact Int.emod_eq_of_lt (by omega) (by exact_mod_cast hlt)

theorem memory_hostToNetwork (x : BitVec (8 * k)) :
    memory order (hostToNetwork order x) = (places k x.toNat).reverse := by
  cases order with
  | little => exact places_ofNat (by simp)
  | big => rfl

theorem networkToHost_ofMemory (x : BitVec (8 * k)) :
    hostToNetwork order (ofMemory order k (places k x.toNat).reverse) = x := by
  cases order with
  | little =>
    simp only [hostToNetwork, ofMemory, byteSwap]
    rw [places_ofNat (by simp), List.reverse_reverse]
    exact ofNat_places x
  | big =>
    simp only [hostToNetwork, ofMemory, List.reverse_reverse]
    exact ofNat_places x

/-- The places do not depend on whether the integer is taken as signed. -/
theorem places_toInt (x : BitVec (8 * k)) : places k x.toInt = places k x.toNat := by
  apply places_congr
  have hpow : (256 : Int) ^ k = ((2 ^ (8 * k) : Nat) : Int) := by
    rw [Nat.pow_mul]
    exact (Int.natCast_pow (2 ^ 8) k).symm
  rw [BitVec.toInt_eq_toNat_bmod, hpow, Int.bmod_emod]

theorem memory_one (x : BitVec (8 * 1)) : memory order x = places 1 x.toNat := by
  cases order <;> rfl

theorem peekInt_ok {bytes rest : Bytes} (hv : b.Valid) (hr : b.readable = bytes ++ rest)
    (hlen : bytes.length = k) : b.peekInt order k = .ok (ofMemory order k bytes) := by
  have hlength := hv.length_readable
  rw [hr, List.length_append, hlen] at hlength
  have hroom : b.readableBytes ≥ k := by omega
  have hslice : slice b.buffer b.peek (b.peek + k) = bytes := by
    have htake : (slice b.buffer b.peek b.beginWrite).take k = bytes := by
      show b.readable.take k = bytes
      rw [hr, ← hlen, List.take_left]
    rw [← htake]
    refine (take_slice ?_).symm
    have hreader := hv.reader
    simp only [peek, beginWrite, readableBytes] at hroom ⊢
    omega
  rw [peekInt, ensure_bind hroom, hslice]
  rfl

-- ---------------------------------------------------------------------------
-- Mixed integers
-- ---------------------------------------------------------------------------

inductive Width
  | int8
  | int16
  | int32
  deriving DecidableEq

inductive Typed
  | int8 (x : Int8)
  | int16 (x : Int16)
  | int32 (x : Int32)
  deriving DecidableEq

namespace Typed

def width : Typed → Width
  | .int8 _ => .int8
  | .int16 _ => .int16
  | .int32 _ => .int32

def encoding : Typed → Bytes
  | .int8 x => bigEndian 1 x.toInt
  | .int16 x => bigEndian 2 x.toInt
  | .int32 x => bigEndian 4 x.toInt

def append (order : ByteOrder) (b : Buffer) : Typed → Except Fault Buffer
  | .int8 x => b.appendInt8 order x
  | .int16 x => b.appendInt16 order x
  | .int32 x => b.appendInt32 order x

def prepend (order : ByteOrder) (b : Buffer) : Typed → Except Fault Buffer
  | .int8 x => b.prependInt8 order x
  | .int16 x => b.prependInt16 order x
  | .int32 x => b.prependInt32 order x

def appendAll (order : ByteOrder) (b : Buffer) : List Typed → Except Fault Buffer
  | [] => .ok b
  | x :: xs => do
    let b ← x.append order b
    appendAll order b xs

end Typed

namespace Width

def size : Width → Nat
  | .int8 => 1
  | .int16 => 2
  | .int32 => 4

def read (order : ByteOrder) (b : Buffer) : Width → Except IntFault (Typed × Buffer)
  | .int8 => (b.readInt8 order).map (Prod.map .int8 id)
  | .int16 => (b.readInt16 order).map (Prod.map .int16 id)
  | .int32 => (b.readInt32 order).map (Prod.map .int32 id)

def readAll (order : ByteOrder) (b : Buffer) : List Width → Except IntFault (List Typed × Buffer)
  | [] => .ok ([], b)
  | w :: ws => do
    let (x, b) ← w.read order b
    let (xs, b) ← readAll order b ws
    return (x :: xs, b)

end Width

@[simp] theorem length_encoding (x : Typed) : x.encoding.length = x.width.size := by
  cases x <;> simp [Typed.encoding, bigEndian, Typed.width, Width.size]

theorem memory_network (x : BitVec (8 * k)) :
    memory order (hostToNetwork order x) = bigEndian k x.toInt := by
  rw [memory_hostToNetwork, bigEndian, places_toInt]

theorem memory_int8 (x : Int8) : memory order (k := 1) x.toBitVec = bigEndian 1 x.toInt := by
  rw [memory_one, bigEndian]
  exact congrArg List.reverse (places_toInt (k := 1) x.toBitVec).symm

theorem Typed.append_eq (x : Typed) : x.append order b = b.append x.encoding := by
  cases x with
  | int8 x => exact congrArg b.append (memory_int8 x)
  | int16 x => exact congrArg b.append (memory_network (k := 2) x.toBitVec)
  | int32 x => exact congrArg b.append (memory_network (k := 4) x.toBitVec)

theorem Typed.prepend_eq (x : Typed) : x.prepend order b = b.prepend x.encoding := by
  cases x with
  | int8 x => exact congrArg b.prepend (memory_int8 x)
  | int16 x => exact congrArg b.prepend (memory_network (k := 2) x.toBitVec)
  | int32 x => exact congrArg b.prepend (memory_network (k := 4) x.toBitVec)

/-- What is read back in network order is what was written. -/
theorem ofMemory_bigEndian (x : BitVec (8 * k)) :
    hostToNetwork order (ofMemory order k (bigEndian k x.toInt)) = x := by
  rw [bigEndian, places_toInt, networkToHost_ofMemory]

theorem ofMemory_int8 (x : BitVec (8 * 1)) : ofMemory order 1 (bigEndian 1 x.toInt) = x := by
  rw [bigEndian, places_toInt]
  cases order <;> exact ofNat_places x

theorem length_bigEndian (k : Nat) (x : Int) : (bigEndian k x).length = k := by
  rw [bigEndian, List.length_reverse, length_places]

theorem peekInt32_ok {x : Int32} (hv : b.Valid) (hr : b.readable = bigEndian 4 x.toInt ++ rest) :
    b.peekInt32 order = .ok x := by
  rw [peekInt32, peekInt_ok hv hr (length_bigEndian ..)]
  exact congrArg (fun y => Except.ok (UInt32.toInt32 ⟨y⟩)) (ofMemory_bigEndian (k := 4) x.toBitVec)

theorem peekInt16_ok {x : Int16} (hv : b.Valid) (hr : b.readable = bigEndian 2 x.toInt ++ rest) :
    b.peekInt16 order = .ok x := by
  rw [peekInt16, peekInt_ok hv hr (length_bigEndian ..)]
  exact congrArg (fun y => Except.ok (UInt16.toInt16 ⟨y⟩)) (ofMemory_bigEndian (k := 2) x.toBitVec)

theorem peekInt8_ok {x : Int8} (hv : b.Valid) (hr : b.readable = bigEndian 1 x.toInt ++ rest) :
    b.peekInt8 order = .ok x := by
  rw [peekInt8, peekInt_ok hv hr (length_bigEndian ..)]
  exact congrArg (fun y => Except.ok (UInt8.toInt8 ⟨y⟩)) (ofMemory_int8 x.toBitVec)

theorem readInt_ok {bytes rest : Bytes} (f : α → Typed) (hresult : result = .ok x) (hv : b.Valid)
    (hr : b.readable = bytes ++ rest) (hlen : bytes.length = k) :
    ∃ b', (readInt result (b.retrieve k)).map (Prod.map f id) = .ok (f x, b') ∧ b'.Valid ∧
      b'.readable = rest := by
  have hlength := hv.length_readable
  rw [hr, List.length_append, hlen] at hlength
  have hle : k ≤ b.readableBytes := by omega
  obtain ⟨b', hb, hv', hr'⟩ := retrieve_ok hv hle
  refine ⟨b', ?_, hv', by rw [hr', hr, ← hlen, List.drop_left]⟩
  rw [readInt, hresult, hb]
  rfl

theorem Typed.read_ok (x : Typed) (order : ByteOrder) (hv : b.Valid) (hr : b.readable = x.encoding ++ rest) :
    ∃ b', x.width.read order b = .ok (x, b') ∧ b'.Valid ∧ b'.readable = rest := by
  cases x with
  | int8 x => exact readInt_ok Typed.int8 (peekInt8_ok hv hr) hv hr (length_bigEndian ..)
  | int16 x => exact readInt_ok Typed.int16 (peekInt16_ok hv hr) hv hr (length_bigEndian ..)
  | int32 x => exact readInt_ok Typed.int32 (peekInt32_ok hv hr) hv hr (length_bigEndian ..)

-- ---------------------------------------------------------------------------
-- Sequences
-- ---------------------------------------------------------------------------

theorem appendAll_ok (order : ByteOrder) (hv : b.Valid) (xs : List Typed) :
    ∃ b', Typed.appendAll order b xs = .ok b' ∧ b'.Valid ∧
      b'.readable = b.readable ++ xs.flatMap Typed.encoding := by
  induction xs generalizing b with
  | nil => exact ⟨b, rfl, hv, by simp⟩
  | cons x xs ih =>
    obtain ⟨b₁, hb₁, hv₁, hr₁⟩ := append_ok hv x.encoding
    obtain ⟨b', hb', hv', hr'⟩ := ih hv₁
    refine ⟨b', ?_, hv', by rw [hr', hr₁, List.flatMap_cons, List.append_assoc]⟩
    simp only [Typed.appendAll, x.append_eq, hb₁, ok_bind, hb']

theorem readAll_ok (order : ByteOrder) (hv : b.Valid) {xs : List Typed}
    (hr : b.readable = xs.flatMap Typed.encoding ++ rest) :
    ∃ b', Width.readAll order b (xs.map Typed.width) = .ok (xs, b') ∧ b'.Valid ∧
      b'.readable = rest := by
  induction xs generalizing b with
  | nil => exact ⟨b, rfl, hv, hr⟩
  | cons x xs ih =>
    rw [List.flatMap_cons, List.append_assoc] at hr
    obtain ⟨b₁, hb₁, hv₁, hr₁⟩ := x.read_ok order hv hr
    obtain ⟨b', hb', hv', hr'⟩ := ih hv₁ hr₁
    refine ⟨b', ?_, hv', hr'⟩
    simp only [List.map_cons, Width.readAll, hb₁, ok_bind, hb']
    rfl

/-- What is appended is read back, and nothing of what comes behind it; and so
is what is prepended. -/
theorem ints_round_trip {b : Buffer} (hv : b.Valid) (order : ByteOrder) (xs : List Typed)
    (behind : Bytes) :
    (∃ b₁ b₂ b₃ b₄, Typed.appendAll order b xs = .ok b₁ ∧
      b₁.readable = b.readable ++ xs.flatMap Typed.encoding ∧ b₁.append behind = .ok b₂ ∧
      b₂.retrieve b.readableBytes = .ok b₃ ∧
      Width.readAll order b₃ (xs.map Typed.width) = .ok (xs, b₄) ∧ b₄.readable = behind) ∧
    ∀ x : Typed, x.width.size ≤ b.prependableBytes → ∃ b₁ b₂, x.prepend order b = .ok b₁ ∧
      b₁.readable = x.encoding ++ b.readable ∧ x.width.read order b₁ = .ok (x, b₂) ∧
      b₂.readable = b.readable := by
  constructor
  · obtain ⟨b₁, hb₁, hv₁, hr₁⟩ := appendAll_ok order hv xs
    obtain ⟨b₂, hb₂, hv₂, hr₂⟩ := append_ok hv₁ behind
    have hlength := congrArg List.length hr₂
    rw [hv₂.length_readable, hr₁, List.append_assoc, List.length_append, hv.length_readable] at hlength
    have hle : b.readableBytes ≤ b₂.readableBytes := by omega
    obtain ⟨b₃, hb₃, hv₃, hr₃⟩ := retrieve_ok hv₂ hle
    rw [hr₂, hr₁, List.append_assoc, ← hv.length_readable, List.drop_left] at hr₃
    obtain ⟨b₄, hb₄, -, hr₄⟩ := readAll_ok order hv₃ hr₃
    exact ⟨b₁, b₂, b₃, b₄, hb₁, hr₁, hb₂, hb₃, hb₄, hr₄⟩
  · intro x hroom
    rw [← length_encoding] at hroom
    obtain ⟨b₁, hb₁, hv₁, hr₁⟩ := prepend_ok hv hroom
    obtain ⟨b₂, hb₂, -, hr₂⟩ := x.read_ok order hv₁ hr₁
    exact ⟨b₁, b₂, by rw [x.prepend_eq, hb₁], hr₁, hb₂, hr₂⟩

/-- A negative integer, and the least one there is. -/
theorem ints_round_trip_mixed :
    [Typed.int16 (-2), .int8 5, .int32 (-2147483648)].flatMap Typed.encoding =
      [255, 254, 5, 128, 0, 0, 0] ∧
    ∃ b₁ b₂ b₃ b₄,
      Typed.appendAll .little fresh [.int16 (-2), .int8 5, .int32 (-2147483648)] = .ok b₁ ∧
      b₁.readable = fresh.readable ++
        [Typed.int16 (-2), .int8 5, .int32 (-2147483648)].flatMap Typed.encoding ∧
      b₁.append [7] = .ok b₂ ∧ b₂.retrieve fresh.readableBytes = .ok b₃ ∧
      Width.readAll .little b₃ [.int16, .int8, .int32] =
        .ok ([.int16 (-2), .int8 5, .int32 (-2147483648)], b₄) ∧ b₄.readable = [7] :=
  ⟨by decide, (ints_round_trip fresh_valid .little _ [7]).1⟩

end Buffer

end Muduo
