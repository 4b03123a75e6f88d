import Muduo.Net.BufferRefines

/-!
# How much memory a buffer takes

A buffer slides its bytes down before it grows, and grows when it must by what it is
asked for. So its vector never has more than about twice the bytes that the buffer
was asked to have place for at once; and as long as that fits an `int`, no call
fails.
-/

namespace Muduo.Buffer

open Lib Function

variable {ι : Type} [DecidableEq ι] {P : Nat} {b b' : Buffer} {data : Bytes} {len : Nat}

/-- All that changes buffers: the operations, and reads from a descriptor. -/
inductive Call (ι : Type)
  | op (o : Op ι)
  | readFd (i : ι) (r : ReadResult)

def Call.step (s : ι → Buffer) : Call ι → Except Fault (ι → Buffer)
  | .op o => o.step s
  | .readFd i r => do
    let (b, _) ← (s i).readFd r
    return update s i b

def Call.Allowed (s : ι → Buffer) : Call ι → Prop
  | .op o => o.Allowed s
  | .readFd _ _ => True

/-- The bytes that a buffer is asked to have place for, with those it holds. -/
def Call.needs (s : ι → Buffer) : Call ι → Nat
  | .op (.append i data) => (s i).readableBytes + data.length
  | .op (.ensureWritableBytes i len) | .op (.shrink i len) => (s i).readableBytes + len
  | .readFd i (.data bytes) => (s i).readableBytes + bytes.length
  | _ => 0

def bounded (ι : Type) [DecidableEq ι] (P : Nat) : Machine (ι → Buffer) (Call ι) Fault where
  enabled s call := call.Allowed s ∧ call.needs s ≤ P
  step := Call.step

instance (s : ι → Buffer) : DecidablePred (Op.Allowed s) := fun o => by
  unfold Op.Allowed
  cases o <;> infer_instance

instance (s : ι → Buffer) : DecidablePred (Call.Allowed s) := fun call =>
  match call with
  | .op o => inferInstanceAs (Decidable (o.Allowed s))
  | .readFd _ _ => .isTrue trivial

instance (s : ι → Buffer) : DecidablePred ((bounded ι P).enabled s) := fun call =>
  inferInstanceAs (Decidable (call.Allowed s ∧ call.needs s ≤ P))

def Call.apply (t : ι → Bytes) : Call ι → ι → Bytes
  | .op o => o.apply t
  | .readFd i (.data bytes) => update t i (t i ++ bytes)
  | .readFd _ (.error _) => t

def contents (calls : List (Call ι)) : ι → Bytes := calls.foldl Call.apply fun _ => []

-- ---------------------------------------------------------------------------
-- The size of the vector
-- ---------------------------------------------------------------------------

/-- A buffer that holds nothing has no place in front but the reserve. -/
structure Sized (P : Nat) (b : Buffer) : Prop where
  low : b.readerIndex ≤ kCheapPrepend ∨ b.readerIndex < b.writerIndex
  size : b.buffer.length ≤ max 1032 (2 * P + 6)

theorem fresh_sized (P : Nat) : Sized P fresh := by
  have hsize : fresh.buffer.length = 1032 := List.length_replicate
  exact ⟨.inl (Nat.le_refl _), hsize ▸ Nat.le_max_left ..⟩

theorem makeSpace_sized (ho : b.Ordered) (h : Sized P b) (hp : b.readableBytes + len ≤ P)
    (hs : b.makeSpace len = .ok b') : Sized P b' := by
  have hr := ho.reader
  have hw := ho.writer
  have hlow := h.low
  simp only [readableBytes, kCheapPrepend] at hp hlow
  unfold makeSpace at hs
  split at hs
  · -- what was read before is in front, and less than the request
    rename_i hroom
    simp only [writableBytes, prependableBytes, kCheapPrepend] at hroom
    cases hs
    refine ⟨h.low, ?_⟩
    simp only [length_resize]
    omega
  · rename_i hroom
    simp only [writableBytes, prependableBytes, kCheapPrepend] at hroom
    obtain ⟨_, -, hs⟩ := bind_ok.mp hs
    obtain ⟨_, -, hs⟩ := bind_ok.mp hs
    cases hs
    have hmoved : (slice b.buffer b.readerIndex b.writerIndex).length = b.readableBytes :=
      length_slice hw
    have hfits : kCheapPrepend + (slice b.buffer b.readerIndex b.writerIndex).length ≤
        b.buffer.length := by
      simp only [hmoved, readableBytes, kCheapPrepend]
      omega
    refine ⟨.inl (Nat.le_refl _), ?_⟩
    rw [length_splice hfits]
    exact h.size

theorem ensureWritableBytes_sized (ho : b.Ordered) (h : Sized P b)
    (hp : b.readableBytes + len ≤ P) (hs : b.ensureWritableBytes len = .ok b') : Sized P b' := by
  unfold ensureWritableBytes at hs
  split at hs
  · obtain ⟨b₁, hb, hs⟩ := bind_ok.mp hs
    obtain ⟨_, -, hs⟩ := bind_ok.mp hs
    cases hs
    exact makeSpace_sized ho h hp hb
  · rw [ok_bind] at hs
    obtain ⟨_, -, hs⟩ := bind_ok.mp hs
    cases hs
    exact h

theorem Sized.grown (h : Sized P b) (hb : b'.buffer.length = b.buffer.length)
    (hr : b'.readerIndex = b.readerIndex) (hw : b.writerIndex ≤ b'.writerIndex) : Sized P b' := by
  refine ⟨h.low.imp (fun hlow => hr ▸ hlow) fun hlow => ?_, hb ▸ h.size⟩
  rw [hr]
  exact Nat.lt_of_lt_of_le hlow hw

theorem append_sized (ho : b.Ordered) (h : Sized P b) (hp : b.readableBytes + data.length ≤ P)
    (hs : b.append data = .ok b') : Sized P b' := by
  obtain ⟨b₁, hb, ho₁, -, hroom, -⟩ := ensureWritableBytes_ordered ho data.length
  have hsized := ensureWritableBytes_sized ho h hp hb
  have hw := ho₁.writer
  have hfits : b₁.writerIndex + data.length ≤ b₁.buffer.length := by
    simp only [writableBytes] at hroom
    omega
  simp only [append, hb, ok_bind] at hs
  cases hs
  refine hsized.grown (length_splice hfits) rfl ?_
  simp only [hasWritten]
  omega

theorem readFd_sized {bytes : Bytes} (ho : b.Ordered) (h : Sized P b)
    (hp : b.readableBytes + bytes.length ≤ P) (hs : b.readFd (.data bytes) = .ok (b', r)) :
    Sized P b' := by
  have hr := ho.reader
  have hw := ho.writer
  have hfits : b.writerIndex + (bytes.take b.writableBytes).length ≤ b.buffer.length := by
    rw [List.length_take]
    simp only [writableBytes]
    omega
  unfold readFd at hs
  simp only at hs
  split at hs
  · cases hs
    exact h.grown (length_splice hfits) rfl (Nat.le_add_right _ _)
  · -- the vector is full now, and the rest is appended
    rename_i hn
    obtain ⟨b₁, hb, hs⟩ := bind_ok.mp hs
    cases hs
    let full : Buffer :=
      { buffer := splice b.buffer b.writerIndex (bytes.take b.writableBytes)
        readerIndex := b.readerIndex
        writerIndex := (splice b.buffer b.writerIndex (bytes.take b.writableBytes)).length }
    have hlength : full.buffer.length = b.buffer.length := length_splice hfits
    have hwriter : full.writerIndex = b.buffer.length := hlength
    have hfull : Sized P full := h.grown hlength rfl (hwriter ▸ hw)
    refine append_sized (b := full) ⟨?_, Nat.le_refl _⟩ hfull ?_ hb
    · exact hwriter ▸ Nat.le_trans hr hw
    · simp only [readableBytes, writableBytes, hwriter, List.length_drop] at hp hn ⊢
      show b.buffer.length - b.readerIndex + _ ≤ P
      omega

theorem retrieve_sized (h : Sized P b) (hs : b.retrieve len = .ok b') : Sized P b' := by
  obtain ⟨_, -, hs⟩ := bind_ok.mp hs
  split at hs
  · rename_i hlt
    cases hs
    refine ⟨.inr ?_, h.size⟩
    simp only [readableBytes] at hlt ⊢
    omega
  · cases hs
    exact ⟨.inl (Nat.le_refl _), h.size⟩

theorem prepend_sized (ho : b.Ordered) (h : Sized P b) (hs : b.prepend data = .ok b') :
    Sized P b' := by
  obtain ⟨_, hlen, hs⟩ := bind_ok.mp hs
  have hr := ho.reader
  have hw := ho.writer
  have hlen : data.length ≤ b.readerIndex := ensure_ok.mp hlen
  have hfits : b.readerIndex - data.length + data.length ≤ b.buffer.length := by omega
  cases hs
  refine ⟨?_, ?_⟩
  · rcases h.low with hlow | hlow
    · exact .inl (Nat.le_trans (Nat.sub_le _ _) hlow)
    · exact .inr (Nat.lt_of_le_of_lt (Nat.sub_le _ _) hlow)
  · simp only [length_splice hfits]
    exact h.size

theorem shrink_sized (hv : b.Valid) (hp : b.readableBytes + len ≤ P)
    (hint : b.readableBytes < 2 ^ 31) (hs : b.shrink len = .ok b') : Sized P b' := by
  obtain ⟨b₁, hb₁, hv₁, hr₁, -⟩ := ensureWritableBytes_ok fresh_valid (b.readableBytes + len)
  have hnone : fresh.readableBytes = 0 := (fresh_valid.readableBytes_eq_zero).mpr fresh_readable
  have hsized : Sized P b₁ :=
    ensureWritableBytes_sized fresh_valid.ordered (fresh_sized P) (by omega) hb₁
  have hnone₁ : b₁.readableBytes = 0 := by
    rw [hv₁.readableBytes_eq_zero, hr₁, fresh_readable]
  have hsize := toStringPiece_size hint
  have hpiece : b.toStringPiece.data.take b.toStringPiece.size.toNat = b.readable := by
    rw [hsize]
    rfl
  unfold shrink appendPiece at hs
  rw [make_eq, ok_bind, hb₁, ok_bind, ensure_bind (by rw [hsize]; omega), hpiece] at hs
  obtain ⟨b₂, hb₂, hs⟩ := bind_ok.mp hs
  cases hs
  refine append_sized hv₁.ordered hsized ?_ hb₂
  rw [hnone₁, hv.length_readable]
  omega

-- ---------------------------------------------------------------------------
-- Runs
-- ---------------------------------------------------------------------------

theorem sized_update {s : ι → Buffer} {i : ι} (h : ∀ i, Sized P (s i)) (hb : Sized P b) :
    ∀ j, Sized P (update s i b j) := by
  intro j
  by_cases hj : j = i
  · subst hj
    simpa using hb
  · simpa [hj] using h j

theorem Op.sized {s s' : ι → Buffer} {t : ι → Bytes} {op : Op ι} (hst : Stands s t)
    (h : ∀ i, Sized P (s i)) (hsize : ∀ i, (s i).buffer.length < 2 ^ 31)
    (hp : (Call.op op).needs s ≤ P) (hs : op.step s = .ok s') : ∀ i, Sized P (s' i) := by
  cases op with
  | append i data =>
    obtain ⟨b, hb, hs⟩ := bind_ok.mp hs
    cases hs
    exact sized_update h (append_sized (hst i).1.ordered (h i) hp hb)
  | prepend i data =>
    obtain ⟨b, hb, hs⟩ := bind_ok.mp hs
    cases hs
    exact sized_update h (prepend_sized (hst i).1.ordered (h i) hb)
  | retrieve i len =>
    obtain ⟨b, hb, hs⟩ := bind_ok.mp hs
    cases hs
    exact sized_update h (retrieve_sized (h i) hb)
  | retrieveUntil i distance =>
    obtain ⟨b, hb, hs⟩ := bind_ok.mp hs
    cases hs
    obtain ⟨_, -, hb⟩ := bind_ok.mp hb
    obtain ⟨_, -, hb⟩ := bind_ok.mp hb
    exact sized_update h (retrieve_sized (h i) hb)
  | retrieveAll i =>
    cases hs
    exact sized_update h ⟨.inl (Nat.le_refl _), (h i).size⟩
  | retrieveAsString i len =>
    obtain ⟨⟨_, b⟩, hb, hs⟩ := bind_ok.mp hs
    cases hs
    obtain ⟨_, -, hb⟩ := bind_ok.mp hb
    obtain ⟨b₁, hb₁, hb⟩ := bind_ok.mp hb
    cases hb
    exact sized_update h (retrieve_sized (h i) hb₁)
  | ensureWritableBytes i len =>
    obtain ⟨b, hb, hs⟩ := bind_ok.mp hs
    cases hs
    exact sized_update h (ensureWritableBytes_sized (hst i).1.ordered (h i) hp hb)
  | hasWritten i present =>
    cases hs
    refine sized_update h ((h i).grown rfl rfl ?_)
    show (s i).writerIndex ≤ ((s i).writerIndex + (present.length : Int)).toNat
    omega
  | shrink i reserve =>
    obtain ⟨b, hb, hs⟩ := bind_ok.mp hs
    cases hs
    have hint : (s i).readableBytes < 2 ^ 31 := by
      refine Nat.lt_of_le_of_lt ?_ (hsize i)
      exact Nat.le_trans (Nat.sub_le _ _) (hst i).1.writer
    exact sized_update h (shrink_sized (hst i).1 hp hint hb)
  | swap i j =>
    cases hs
    exact sized_update (sized_update h (h j)) (h i)

def Roomy (P : Nat) (s : ι → Buffer) (t : ι → Bytes) : Prop :=
  Stands s t ∧ ∀ i, Sized P (s i)

omit [DecidableEq ι] in
theorem Roomy.int {s : ι → Buffer} {t : ι → Bytes} (hP : 2 * P + 6 < 2 ^ 31) (h : Roomy P s t)
    (i : ι) : (s i).buffer.length < 2 ^ 31 := by
  have hsize := (h.2 i).size
  omega

theorem Roomy.step {s : ι → Buffer} {t : ι → Bytes} (hP : 2 * P + 6 < 2 ^ 31)
    (h : Roomy P s t) {call : Call ι} (hc : (bounded ι P).enabled s call) :
    ∃ s', call.step s = .ok s' ∧ Roomy P s' (call.apply t) := by
  obtain ⟨hc, hp⟩ := hc
  cases call with
  | op o =>
    obtain ⟨s', hs, hst, -⟩ := h.1.step ⟨h.int hP, hc⟩
    exact ⟨s', hs, hst, o.sized h.1 h.2 (h.int hP) hp hs⟩
  | readFd i r =>
    cases r with
    | data bytes =>
      obtain ⟨b, hb, hv, hr⟩ := readFd_data (h.1 i).1 bytes
      rw [(h.1 i).2] at hr
      exact ⟨_, by simp only [Call.step, hb]; rfl, h.1.update hv hr,
        sized_update h.2 (readFd_sized (h.1 i).1.ordered (h.2 i) hp hb)⟩
    | error errno =>
      refine ⟨s, ?_, h⟩
      show Except.ok (update s i (s i)) = _
      rw [update_eq_self]

theorem Roomy.run {s s' : ι → Buffer} {t : ι → Bytes} (hP : 2 * P + 6 < 2 ^ 31)
    (h : (bounded ι P).Run s calls s') (hs : Roomy P s t) :
    Roomy P s' (calls.foldl Call.apply t) := by
  refine h.follow (fun {s t call s'} hs hc hstep => ?_) hs
  obtain ⟨s₁, hs₁, hroomy⟩ := hs.step hP hc
  have heq : call.step s = .ok s' := hstep
  rw [heq] at hs₁
  cases hs₁
  exact hroomy

/-- Buffers made by `Buffer()` and used in any order, with reads from descriptors
among the calls: if none needs more than `P` bytes, and that fits an `int` twice,
then no vector ever takes more than `2 * P + 6` bytes, or the 1032 it has at first;
no call fails; and the buffers hold what they should. -/
theorem memory_bounded {calls : List (Call ι)} {s : ι → Buffer} (hP : 2 * P + 6 < 2 ^ 31)
    (h : (bounded ι P).Run (fun _ => fresh) calls s) :
    (∀ i, (s i).buffer.length ≤ max 1032 (2 * P + 6)) ∧ (bounded ι P).NoFault s ∧
    ∀ i, (s i).readable = contents calls i := by
  have hs : Roomy P s (contents calls) := Roomy.run hP h ⟨fresh_stands, fun _ => fresh_sized P⟩
  refine ⟨fun i => (hs.2 i).size, fun call hc => ?_, fun i => (hs.1 i).2⟩
  obtain ⟨s', hstep, -⟩ := hs.step hP hc
  exact ⟨s', hstep⟩

/-- Full, read but for one byte, and full again: the bound is reached. -/
theorem memory_bounded_reached :
    ∃ s : Unit → Buffer, (bounded Unit 1025).Run (fun _ => fresh)
      [.op (.append () (List.replicate 1024 7)), .op (.retrieve () 1023),
        .op (.append () (List.replicate 1024 7))] s ∧
      (s ()).buffer.length = 2 * 1025 + 6 ∧ (bounded Unit 1025).NoFault s := by
  have hrun : ∃ s : Unit → Buffer, (bounded Unit 1025).Run (fun _ => fresh)
      [.op (.append () (List.replicate 1024 7)), .op (.retrieve () 1023),
        .op (.append () (List.replicate 1024 7))] s ∧
      (s ()).buffer.length = 2 * 1025 + 6 := Machine.exists_run (by decide +kernel)
  obtain ⟨s, hs, hlength⟩ := hrun
  exact ⟨s, hs, hlength, (memory_bounded (by decide) hs).2.1⟩

end Muduo.Buffer
