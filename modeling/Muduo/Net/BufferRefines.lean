import Muduo.Net.Buffer
import Mathlib.Logic.Function.Basic

/-!
# A buffer is a byte string

Any number of buffers go through any sequence of operations; beside them a
plain byte string for each goes through the operations' meaning. The readable
bytes agree after every step, no assertion fails, and the room asked for is
there.
-/

namespace Muduo.Buffer

open Lib Function

variable {ι : Type} [DecidableEq ι]

/-- `retrieveUntil` takes its pointer as a distance from `peek()`; `hasWritten`
names the bytes already standing behind the writer index. -/
inductive Op (ι : Type)
  | append (i : ι) (data : Bytes)
  | prepend (i : ι) (data : Bytes)
  | retrieve (i : ι) (len : Nat)
  | retrieveUntil (i : ι) (distance : Nat)
  | retrieveAll (i : ι)
  | retrieveAsString (i : ι) (len : Nat)
  | ensureWritableBytes (i : ι) (len : Nat)
  | hasWritten (i : ι) (present : Bytes)
  | shrink (i : ι) (reserve : Nat)
  | swap (i j : ι)

def Op.step (s : ι → Buffer) : Op ι → Except Fault (ι → Buffer)
  | .append i data => do return update s i (← (s i).append data)
  | .prepend i data => do return update s i (← (s i).prepend data)
  | .retrieve i len => do return update s i (← (s i).retrieve len)
  | .retrieveUntil i distance => do
    return update s i (← (s i).retrieveUntil ((s i).peek + distance))
  | .retrieveAll i => return update s i (s i).retrieveAll
  | .retrieveAsString i len => do
    let (_, b) ← (s i).retrieveAsString len
    return update s i b
  | .ensureWritableBytes i len => do return update s i (← (s i).ensureWritableBytes len)
  | .hasWritten i present => return update s i ((s i).hasWritten present.length)
  | .shrink i reserve => do return update s i (← (s i).shrink reserve)
  | .swap i j =>
    let (lhs, rhs) := Buffer.swap (s i) (s j)
    return update (update s i lhs) j rhs

/-- What a caller owes each operation. -/
def Op.Allowed (s : ι → Buffer) : Op ι → Prop
  | .prepend i data => data.length ≤ (s i).prependableBytes
  | .retrieve i len | .retrieveAsString i len => len ≤ (s i).readableBytes
  | .retrieveUntil i distance => (s i).peek + distance ≤ (s i).beginWrite
  | .hasWritten i present =>
    present.length ≤ (s i).writableBytes ∧
      slice (s i).buffer (s i).beginWrite ((s i).beginWrite + present.length) = present
  | _ => True

/-- Buffers in use, with sizes that fit an `int`. -/
def machine (ι : Type) [DecidableEq ι] : Machine (ι → Buffer) (Op ι) Fault where
  enabled s op := (∀ i, (s i).buffer.length < 2 ^ 31) ∧ op.Allowed s
  step := Op.step

def Op.apply (t : ι → Bytes) : Op ι → ι → Bytes
  | .append i data | .hasWritten i data => update t i (t i ++ data)
  | .prepend i data => update t i (data ++ t i)
  | .retrieve i len | .retrieveUntil i len | .retrieveAsString i len =>
    update t i ((t i).drop len)
  | .retrieveAll i => update t i []
  | .ensureWritableBytes _ _ | .shrink _ _ => t
  | .swap i j => update (update t i (t j)) j (t i)

def text (ops : List (Op ι)) : ι → Bytes := ops.foldl Op.apply fun _ => []

theorem text_snoc (ops : List (Op ι)) (op : Op ι) : text (ops ++ [op]) = op.apply (text ops) := by
  simp [text]

def Op.Room (s : ι → Buffer) : Op ι → Prop
  | .ensureWritableBytes i len | .shrink i len => len ≤ (s i).writableBytes
  | _ => True

def Stands (s : ι → Buffer) (t : ι → Bytes) : Prop :=
  ∀ i, (s i).Valid ∧ (s i).readable = t i

theorem Stands.update {s : ι → Buffer} {t : ι → Bytes} (h : Stands s t) (hv : b.Valid)
    (hr : b.readable = bytes) : Stands (update s i b) (update t i bytes) := by
  intro j
  by_cases hj : j = i
  · subst hj
    simpa using ⟨hv, hr⟩
  · simpa [hj] using h j

theorem Stands.keep {s : ι → Buffer} {t : ι → Bytes} (h : Stands s t) (hv : b.Valid)
    (hr : b.readable = (s i).readable) : Stands (Function.update s i b) t := by
  have hu := h.update (i := i) hv (hr.trans (h i).2)
  rwa [update_eq_self] at hu

theorem hasWritten_ok {b : Buffer} (hv : b.Valid) (hlen : present.length ≤ b.writableBytes)
    (hp : slice b.buffer b.beginWrite (b.beginWrite + present.length) = present) :
    (b.hasWritten present.length).Valid ∧
      (b.hasWritten present.length).readable = b.readable ++ present := by
  have hr := hv.reader
  have hw := hv.writer
  have hto : ((b.writerIndex : Int) + present.length).toNat = b.writerIndex + present.length := by
    omega
  simp only [writableBytes] at hlen
  refine ⟨⟨?_, ?_, hv.reserve⟩, ?_⟩
  · simp only [hasWritten, hto]
    omega
  · simp only [hasWritten, hto]
    omega
  · simp only [hasWritten, readable, hto]
    rw [← slice_append_slice hr (Nat.le_add_right _ _)]
    exact congrArg _ hp

/-- One operation: no assertion fails, the byte strings follow, and the room
asked for is there. -/
theorem Stands.step {s : ι → Buffer} {t : ι → Bytes} (h : Stands s t) {op : Op ι}
    (hop : (machine ι).enabled s op) :
    ∃ s', op.step s = .ok s' ∧ Stands s' (op.apply t) ∧ op.Room s' := by
  obtain ⟨hsize, hop⟩ := hop
  cases op with
  | append i data =>
    obtain ⟨b, hb, hv, hr⟩ := append_ok (h i).1 data
    rw [(h i).2] at hr
    exact ⟨_, by simp only [Op.step, hb]; rfl, h.update hv hr, trivial⟩
  | prepend i data =>
    obtain ⟨b, hb, hv, hr⟩ := prepend_ok (h i).1 hop
    rw [(h i).2] at hr
    exact ⟨_, by simp only [Op.step, hb]; rfl, h.update hv hr, trivial⟩
  | retrieve i len =>
    obtain ⟨b, hb, hv, hr⟩ := retrieve_ok (h i).1 hop
    rw [(h i).2] at hr
    exact ⟨_, by simp only [Op.step, hb]; rfl, h.update hv hr, trivial⟩
  | retrieveUntil i distance =>
    obtain ⟨b, hb, hv, hr⟩ := retrieveUntil_ok (h i).1 (Nat.le_add_right _ _) hop
    rw [(h i).2, Nat.add_sub_cancel_left] at hr
    exact ⟨_, by simp only [Op.step, hb]; rfl, h.update hv hr, trivial⟩
  | retrieveAll i => exact ⟨_, rfl, h.update (h i).1.retrieveAll retrieveAll_readable, trivial⟩
  | retrieveAsString i len =>
    obtain ⟨b, hb, hv, hr⟩ := retrieveAsString_ok (h i).1 hop
    rw [(h i).2] at hr
    exact ⟨_, by simp only [Op.step, hb]; rfl, h.update hv hr, trivial⟩
  | ensureWritableBytes i len =>
    obtain ⟨b, hb, hv, hr, hroom⟩ := ensureWritableBytes_ok (h i).1 len
    exact ⟨_, by simp only [Op.step, hb]; rfl, h.keep hv hr, by simpa [Op.Room] using hroom⟩
  | hasWritten i present =>
    obtain ⟨hv, hr⟩ := hasWritten_ok (h i).1 hop.1 hop.2
    rw [(h i).2] at hr
    exact ⟨_, rfl, h.update hv hr, trivial⟩
  | shrink i reserve =>
    have hlen : (s i).readableBytes < 2 ^ 31 := by
      have := hsize i
      have := (h i).1.writer
      simp only [readableBytes]
      omega
    obtain ⟨b, hb, hv, hr, hroom⟩ := shrink_ok (h i).1 hlen reserve
    exact ⟨_, by simp only [Op.step, hb]; rfl, h.keep hv hr, by simpa [Op.Room] using hroom⟩
  | swap i j => exact ⟨_, rfl, (h.update (h j).1 (h j).2).update (h i).1 (h i).2, trivial⟩

theorem Stands.run {s s' : ι → Buffer} {t : ι → Bytes} (h : (machine ι).Run s ops s')
    (hs : Stands s t) : Stands s' (ops.foldl Op.apply t) := by
  refine h.follow (fun {s t op s'} hs hop hstep => ?_) hs
  obtain ⟨s₁, hs₁, hst, -⟩ := hs.step hop
  have heq : op.step s = .ok s' := hstep
  rw [heq] at hs₁
  cases hs₁
  exact hst

omit [DecidableEq ι] in
theorem fresh_stands : Stands (fun _ : ι => fresh) fun _ => [] := fun _ =>
  ⟨fresh_valid, fresh_readable⟩

/-- Buffers made by `Buffer()` and used in any order: the indexes stay ordered,
the readable bytes are the byte strings', the next operation fails no assertion
and leaves the room it was asked for, and what is retrieved is what was read. -/
theorem refines_bytes {ops : List (Op ι)} {s : ι → Buffer}
    (h : (machine ι).Run (fun _ => fresh) ops s) :
    make = .ok fresh ∧
    (∀ i, (s i).readerIndex ≤ (s i).writerIndex ∧ (s i).writerIndex ≤ (s i).buffer.length) ∧
    (∀ i, (s i).readable = text ops i) ∧
    (∀ op, (machine ι).enabled s op → ∃ s', op.step s = .ok s' ∧
      (∀ i, (s' i).readable = text (ops ++ [op]) i) ∧ op.Room s') ∧
    (∀ i len, len ≤ (s i).readableBytes →
      ∃ b, (s i).retrieveAsString len = .ok ((text ops i).take len, b)) := by
  have hs : Stands s (text ops) := fresh_stands.run h
  refine ⟨make_eq, fun i => ⟨(hs i).1.reader, (hs i).1.writer⟩, fun i => (hs i).2, ?_, ?_⟩
  · intro op hop
    obtain ⟨s', hstep, hst, hroom⟩ := hs.step hop
    refine ⟨s', hstep, fun i => ?_, hroom⟩
    rw [(hst i).2, text_snoc]
  · intro i len hlen
    obtain ⟨b, hb, -, -⟩ := retrieveAsString_ok (hs i).1 hlen
    exact ⟨b, by rw [hb, (hs i).2]⟩

/-- Two buffers: one is given "Hi" in front, loses the "H" and is swapped. -/
theorem refines_bytes_swapped :
    ∃ s : Bool → Buffer, (machine Bool).Run (fun _ => fresh)
      [.prepend false (ascii "Hi"), .retrieve false 1, .swap false true] s ∧
      (s true).readable = ascii "i" := by
  have hfresh : fresh.buffer.length = 1032 := List.length_replicate
  have hfilled : (splice fresh.buffer 6 (ascii "Hi")).length = 1032 := by
    rw [length_splice (by rw [hfresh]; decide), hfresh]
  obtain ⟨s, hrun⟩ : ∃ s, (machine Bool).Run (fun _ => fresh)
      [.prepend false (ascii "Hi"), .retrieve false 1, .swap false true] s := by
    refine ⟨_, .cons ⟨fun _ => ?_, (by decide : 2 ≤ 8)⟩ rfl
      (.cons ⟨fun i => ?_, (by decide : 1 ≤ 2)⟩ rfl (.cons ⟨fun i => ?_, trivial⟩ rfl .nil))⟩
    · exact hfresh ▸ (by decide : 1032 < 2 ^ 31)
    · cases i
      · exact hfilled ▸ (by decide : 1032 < 2 ^ 31)
      · exact hfresh ▸ (by decide : 1032 < 2 ^ 31)
    · cases i
      · exact hfilled ▸ (by decide : 1032 < 2 ^ 31)
      · exact hfresh ▸ (by decide : 1032 < 2 ^ 31)
  exact ⟨s, hrun, (refines_bytes hrun).2.2.1 true⟩

end Muduo.Buffer
