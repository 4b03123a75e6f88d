import Muduo.Lib.OrdMap
import Muduo.Net.Buffer
import Mathlib.Data.List.Lex

/-!
# HttpResponse

What `appendToBuffer` writes, and the grammar it is written for.
-/

namespace Muduo

open Lib

structure HttpResponse where
  headers : OrdMap Bytes Bytes := OrdMap.empty
  statusCode : Nat := 0
  statusMessage : Bytes := []
  closeConnection : Bool
  body : Bytes := []

def StringPiece.ofString (str : Bytes) : StringPiece := ⟨str, Int.bmod str.length (2 ^ 32)⟩

def decimal (n : Nat) : Bytes := ascii n.repr

namespace HttpResponse

-- ---------------------------------------------------------------------------
-- The code
-- ---------------------------------------------------------------------------

def addHeader (r : HttpResponse) (key value : Bytes) : HttpResponse :=
  { r with headers := r.headers.insert key value }

def setContentType (r : HttpResponse) (contentType : Bytes) : HttpResponse :=
  r.addHeader (ascii "Content-Type") contentType

def setStatus (r : HttpResponse) (code : Nat) (message : Bytes) : HttpResponse :=
  { r with statusCode := code, statusMessage := message }

def setBody (r : HttpResponse) (body : Bytes) : HttpResponse := { r with body := body }

def k200Ok : Nat := 200
def k404NotFound : Nat := 404

/-- The string that is in a buffer of so many bytes afterwards. -/
def snprintf (size : Nat) (text : Bytes) : Bytes := text.take (size - 1)

/-- `sizeof 32` -/
def sizeofInt : Nat := 4

def appendHeaders : List (Bytes × Bytes) → Buffer → Except Buffer.Fault Buffer
  | [], output => .ok output
  | (field, value) :: headers, output => do
    let output ← output.appendPiece (.ofString field)
    let output ← output.appendPiece (.ofString (ascii ": "))
    let output ← output.appendPiece (.ofString value)
    let output ← output.appendPiece (.ofString (ascii "\r\n"))
    appendHeaders headers output

/-- The format ends in the middle of a conversion, of which `printf` may make
anything. -/
def appendToBuffer (r : HttpResponse) (conversion : Bytes) (output : Buffer) :
    Except Buffer.Fault Buffer := do
  let buf := snprintf sizeofInt (ascii "HTTP/1.1 " ++ conversion)
  let output ← output.appendPiece (.ofString buf)
  let output ← output.appendPiece (.ofString r.statusMessage)
  let output ← output.appendPiece (.ofString (ascii "\r\n"))
  let output ←
    if r.closeConnection then output.appendPiece (.ofString (ascii "Connection:close\r\n"))
    else do
      let buf := snprintf 32 (ascii "Content-Length: " ++ decimal r.body.length ++ ascii "\r\n")
      let output ← output.appendPiece (.ofString buf)
      output.appendPiece (.ofString (ascii "Connection: Keep-Alive\r\n"))
  let output ← appendHeaders r.headers.entries output
  let output ← output.appendPiece (.ofString (ascii "\r\n"))
  output.appendPiece (.ofString r.body)

-- ---------------------------------------------------------------------------
-- The grammar
-- ---------------------------------------------------------------------------

/-- A header line. Blanks before the value do not belong to it. -/
structure Field where
  name : Bytes
  blanks : Bytes
  value : Bytes

def Field.text (f : Field) : Bytes := f.name ++ ascii ":" ++ f.blanks ++ f.value ++ ascii "\r\n"

structure Field.Proper (f : Field) : Prop where
  name : ∀ b ∈ f.name, b ≠ 58 ∧ b ≠ 13 ∧ b ≠ 10
  blanks : ∀ b ∈ f.blanks, b = 32 ∨ b = 9
  value : ∀ b ∈ f.value, b ≠ 13 ∧ b ≠ 10

def statusLine (r : HttpResponse) : Bytes :=
  ascii "HTTP/1.1 " ++ decimal r.statusCode ++ ascii " " ++ r.statusMessage ++ ascii "\r\n"

/-- The fields the server sets itself. -/
def Own (name : Bytes) : Prop := name = ascii "Connection" ∨ name = ascii "Content-Length"

instance (name : Bytes) : Decidable (Own name) := inferInstanceAs (Decidable (_ ∨ _))

def Reads (bytes : Bytes) (r : HttpResponse) : Prop :=
  ∃ fields : List Field, (∀ f ∈ fields, f.Proper) ∧
    bytes = r.statusLine ++ fields.flatMap Field.text ++ ascii "\r\n" ++ r.body ∧
    (fields.filter (¬Own ·.name)).map (fun f => (f.name, f.value)) = r.headers.entries ∧
    (r.closeConnection ↔ ∃ f ∈ fields, f.name = ascii "Connection" ∧ f.value = ascii "close") ∧
    (r.closeConnection = false →
      ∃ f ∈ fields, f.name = ascii "Content-Length" ∧ f.value = decimal r.body.length)

/-- What the round trip is asked of. -/
structure Plain (r : HttpResponse) : Prop where
  statusCode : 100 ≤ r.statusCode ∧ r.statusCode ≤ 999
  statusMessage : ∀ b ∈ r.statusMessage, b ≠ 13 ∧ b ≠ 10
  names : ∀ h ∈ r.headers.entries, (∀ b ∈ h.1, b ≠ 58 ∧ b ≠ 13 ∧ b ≠ 10) ∧ ¬Own h.1
  values : ∀ h ∈ r.headers.entries, ∀ b ∈ h.2, b ≠ 13 ∧ b ≠ 10

-- ---------------------------------------------------------------------------
-- What is appended
-- ---------------------------------------------------------------------------

variable {output output' : Buffer} {r : HttpResponse}

theorem decimal_digits (n : Nat) : ∀ b ∈ decimal n, 48 ≤ b := by
  intro b hb
  obtain ⟨c, hc, rfl⟩ := List.mem_map.mp hb
  rw [Nat.toList_repr] at hc
  have hdigit := Nat.isDigit_of_mem_toDigits (by decide) (by decide) hc
  simp only [Char.isDigit, Bool.and_eq_true, decide_eq_true_eq] at hdigit
  obtain ⟨hlo, hhi⟩ := hdigit
  rw [UInt8.le_iff_toNat_le, Char.toUInt8, UInt32.toNat_toUInt8]
  have hlo' : 48 ≤ c.val.toNat := UInt32.le_iff_toNat_le.mp hlo
  have hhi' : c.val.toNat ≤ 57 := UInt32.le_iff_toNat_le.mp hhi
  simp only [UInt8.toNat_ofNat]
  omega

theorem forall_bytes {p : UInt8 → Prop} [DecidablePred p] {bytes : Bytes}
    (h : bytes.all fun b => p b) : ∀ b ∈ bytes, p b := by
  simpa using h

theorem appendPiece_ok {str : Bytes} (hv : output.Valid)
    (h : output.appendPiece (.ofString str) = .ok output') :
    output'.Valid ∧ ∃ n, output'.readable = output.readable ++ str.take n := by
  obtain ⟨_, -, h⟩ := bind_ok.mp h
  obtain ⟨b, hb, hv', hr⟩ := Buffer.append_ok hv
    ((StringPiece.ofString str).data.take (StringPiece.ofString str).size.toNat)
  rw [h] at hb
  cases hb
  exact ⟨hv', _, hr⟩

theorem appendPiece_short (str : Bytes) (hv : output.Valid) (hs : str.length < 2 ^ 31) :
    ∃ b, output.appendPiece (.ofString str) = .ok b ∧ b.Valid ∧
      b.readable = output.readable ++ str := by
  have hsize : (StringPiece.ofString str).size = str.length := by
    simp only [StringPiece.ofString, Buffer.bmod_of_lt hs]
  obtain ⟨b, hb, hv', hr⟩ := Buffer.append_ok hv str
  refine ⟨b, ?_, hv', hr⟩
  unfold Buffer.appendPiece
  rw [hsize, ensure_bind (Int.natCast_nonneg _), Int.toNat_natCast]
  simp only [StringPiece.ofString, List.take_length]
  exact hb

def Adds (output output' : Buffer) : Prop :=
  output'.Valid ∧ ∃ more, output'.readable = output.readable ++ more

theorem appendPiece_adds {str : Bytes} (hv : output.Valid)
    (h : output.appendPiece (.ofString str) = .ok output') : Adds output output' := by
  obtain ⟨hv', n, hr⟩ := appendPiece_ok hv h
  exact ⟨hv', _, hr⟩

theorem Adds.trans {output'' : Buffer} (h : Adds output output') (h' : Adds output' output'') :
    Adds output output'' := by
  obtain ⟨-, more, hr⟩ := h
  obtain ⟨hv, more', hr'⟩ := h'
  exact ⟨hv, more ++ more', by rw [hr', hr, List.append_assoc]⟩

theorem appendHeaders_adds {headers : List (Bytes × Bytes)} (hv : output.Valid)
    (h : appendHeaders headers output = .ok output') : Adds output output' := by
  induction headers generalizing output with
  | nil =>
    cases h
    exact ⟨hv, [], (List.append_nil _).symm⟩
  | cons header headers ih =>
    obtain ⟨_, h₁, h⟩ := bind_ok.mp h
    obtain ⟨_, h₂, h⟩ := bind_ok.mp h
    obtain ⟨_, h₃, h⟩ := bind_ok.mp h
    obtain ⟨_, h₄, h⟩ := bind_ok.mp h
    have a₁ := appendPiece_adds hv h₁
    have a₂ := a₁.trans (appendPiece_adds a₁.1 h₂)
    have a₃ := a₂.trans (appendPiece_adds a₂.1 h₃)
    have a₄ := a₃.trans (appendPiece_adds a₃.1 h₄)
    exact a₄.trans (ih a₄.1 h)

theorem appendTail_adds (hv : output.Valid)
    (h : (do
      let output ← appendHeaders r.headers.entries output
      let output ← output.appendPiece (.ofString (ascii "\r\n"))
      output.appendPiece (.ofString r.body)) = .ok output') : Adds output output' := by
  obtain ⟨_, h₁, h⟩ := bind_ok.mp h
  obtain ⟨_, h₂, h₃⟩ := bind_ok.mp h
  have a₁ := appendHeaders_adds hv h₁
  have a₂ := a₁.trans (appendPiece_adds a₁.1 h₂)
  exact a₂.trans (appendPiece_adds a₂.1 h₃)

/-- The size is that of an `int`, so three bytes are left of the status line. -/
theorem appendToBuffer_ok {conversion : Bytes} (hv : output.Valid)
    (h : r.appendToBuffer conversion output = .ok output') :
    ∃ n rest, output'.readable =
      output.readable ++ (ascii "HTT" ++ r.statusMessage.take n ++ ascii "\r\n" ++ rest) := by
  obtain ⟨b₁, h₁, h⟩ := bind_ok.mp h
  obtain ⟨b₂, h₂, h⟩ := bind_ok.mp h
  obtain ⟨b₃, h₃, h⟩ := bind_ok.mp h
  obtain ⟨_, hb₁, hv₁, hr₁⟩ := appendPiece_short (ascii "HTT") hv (by decide)
  obtain rfl := Except.ok.inj (h₁.symm.trans hb₁)
  obtain ⟨hv₂, n, hr₂⟩ := appendPiece_ok hv₁ h₂
  obtain ⟨_, hb₃, hv₃, hr₃⟩ := appendPiece_short (ascii "\r\n") hv₂ (by decide)
  obtain rfl := Except.ok.inj (h₃.symm.trans hb₃)
  have hadds : Adds b₃ output' := by
    simp only at h
    split at h
    · obtain ⟨_, h₄, h⟩ := bind_ok.mp h
      have a := appendPiece_adds hv₃ h₄
      exact a.trans (appendTail_adds a.1 h)
    · obtain ⟨_, h₄, h⟩ := bind_ok.mp h
      obtain ⟨_, h₅, h⟩ := bind_ok.mp h
      have a := appendPiece_adds hv₃ h₄
      have a' := a.trans (appendPiece_adds a.1 h₅)
      exact a'.trans (appendTail_adds a'.1 h)
  obtain ⟨-, rest, hr⟩ := hadds
  exact ⟨n, rest, by rw [hr, hr₃, hr₂, hr₁]; simp only [List.append_assoc]⟩

-- ---------------------------------------------------------------------------
-- Reading it back
-- ---------------------------------------------------------------------------

theorem not_reads (hm : ∀ b ∈ r.statusMessage, b ≠ 13) (n : Nat) (rest : Bytes) :
    ¬Reads (ascii "HTT" ++ r.statusMessage.take n ++ ascii "\r\n" ++ rest) r := by
  rintro ⟨fields, -, hbytes, -⟩
  have hm' : (13 : UInt8) ∉ r.statusMessage := fun h => hm 13 h rfl
  have hd : (13 : UInt8) ∉ decimal r.statusCode := fun h => absurd (decimal_digits _ 13 h) (by decide)
  have hleft : (13 : UInt8) ∉ ascii "HTT" ++ r.statusMessage.take n := by
    rw [List.mem_append, not_or]
    exact ⟨by decide, fun h => hm' (List.mem_of_mem_take h)⟩
  have hright : (13 : UInt8) ∉
      ascii "HTTP/1.1 " ++ decimal r.statusCode ++ ascii " " ++ r.statusMessage := by
    simp only [List.mem_append, not_or]
    exact ⟨⟨⟨by decide, hd⟩, by decide⟩, hm'⟩
  have hidx := congrArg (List.idxOf 13) hbytes
  have hcrlf : ascii "\r\n" = [13, 10] := by decide
  unfold statusLine at hidx
  rw [hcrlf, List.append_assoc, List.cons_append, idxOf_append_cons hleft, List.append_assoc,
    List.append_assoc, List.append_assoc, List.cons_append, idxOf_append_cons hright] at hidx
  simp only [List.length_append, List.length_take, show (ascii "HTT").length = 3 from rfl,
    show (ascii "HTTP/1.1 ").length = 9 from rfl] at hidx
  omega

def fields (r : HttpResponse) : List Field :=
  (if r.closeConnection then [⟨ascii "Connection", [], ascii "close"⟩]
    else [⟨ascii "Content-Length", ascii " ", decimal r.body.length⟩,
      ⟨ascii "Connection", ascii " ", ascii "Keep-Alive"⟩]) ++
    r.headers.entries.map fun header => ⟨header.1, ascii " ", header.2⟩

theorem fields_proper (hp : r.Plain) : ∀ f ∈ r.fields, f.Proper := by
  have hspace : ∀ b ∈ ascii " ", b = 32 ∨ b = 9 := forall_bytes (by decide)
  have hlength : ∀ b ∈ ascii "Content-Length", b ≠ 58 ∧ b ≠ 13 ∧ b ≠ 10 :=
    forall_bytes (by decide)
  have hconnection : ∀ b ∈ ascii "Connection", b ≠ 58 ∧ b ≠ 13 ∧ b ≠ 10 :=
    forall_bytes (by decide)
  intro f hf
  rcases List.mem_append.mp hf with hf | hf
  · split at hf
    · obtain rfl := List.mem_singleton.mp hf
      exact ⟨hconnection, by simp, forall_bytes (by decide)⟩
    · rcases List.mem_pair.mp hf with rfl | rfl
      · refine ⟨hlength, hspace, fun b hb => ?_⟩
        have hb := decimal_digits _ b hb
        exact ⟨by rintro rfl; exact absurd hb (by decide), by rintro rfl; exact absurd hb (by decide)⟩
      · exact ⟨hconnection, hspace, forall_bytes (by decide)⟩
  · obtain ⟨header, hheader, rfl⟩ := List.mem_map.mp hf
    exact ⟨(hp.names _ hheader).1, hspace, hp.values _ hheader⟩

theorem filter_fields (hp : r.Plain) :
    (r.fields.filter (¬Own ·.name)).map (fun f => (f.name, f.value)) = r.headers.entries := by
  have hheaders : (r.headers.entries.map fun header =>
      (⟨header.1, ascii " ", header.2⟩ : Field)).filter (¬Own ·.name) =
        r.headers.entries.map fun header => ⟨header.1, ascii " ", header.2⟩ := by
    refine List.filter_eq_self.mpr fun f hf => ?_
    obtain ⟨header, hheader, rfl⟩ := List.mem_map.mp hf
    simpa using (hp.names _ hheader).2
  unfold fields
  rw [List.filter_append, hheaders, List.map_append, List.map_map]
  split <;> simp [Own, Function.comp_def]

theorem reads_fields (hp : r.Plain) :
    Reads (r.statusLine ++ r.fields.flatMap Field.text ++ ascii "\r\n" ++ r.body) r := by
  refine ⟨r.fields, fields_proper hp, rfl, filter_fields hp, ⟨fun hclose => ?_, ?_⟩,
    fun hclose => ?_⟩
  · exact ⟨⟨ascii "Connection", [], ascii "close"⟩, by simp [fields, hclose], rfl, rfl⟩
  · rintro ⟨f, hf, hname, hvalue⟩
    rcases List.mem_append.mp hf with hf | hf
    · split at hf
      · assumption
      · rcases List.mem_pair.mp hf with rfl | rfl
        · exact absurd hname (show ascii "Content-Length" ≠ ascii "Connection" by decide)
        · exact absurd hvalue (by decide)
    · obtain ⟨header, hheader, rfl⟩ := List.mem_map.mp hf
      exact absurd (.inl hname) (hp.names _ hheader).2
  · exact ⟨⟨ascii "Content-Length", ascii " ", decimal r.body.length⟩, by simp [fields, hclose],
      rfl, rfl⟩

structure Short (r : HttpResponse) : Prop where
  statusMessage : r.statusMessage.length < 2 ^ 31
  headers : ∀ h ∈ r.headers.entries, h.1.length < 2 ^ 31 ∧ h.2.length < 2 ^ 31
  body : r.body.length < 2 ^ 31

theorem appendHeaders_short {headers : List (Bytes × Bytes)} (hv : output.Valid)
    (hs : ∀ h ∈ headers, h.1.length < 2 ^ 31 ∧ h.2.length < 2 ^ 31) :
    ∃ b, appendHeaders headers output = .ok b ∧ b.Valid ∧ b.readable = output.readable ++
      (headers.map fun h => (⟨h.1, ascii " ", h.2⟩ : Field)).flatMap Field.text := by
  induction headers generalizing output with
  | nil => exact ⟨output, rfl, hv, (List.append_nil _).symm⟩
  | cons header headers ih =>
    obtain ⟨hheader, hheaders⟩ := List.forall_mem_cons.mp hs
    obtain ⟨b₁, h₁, hv₁, hr₁⟩ := appendPiece_short _ hv hheader.1
    obtain ⟨b₂, h₂, hv₂, hr₂⟩ := appendPiece_short (ascii ": ") hv₁ (by decide)
    obtain ⟨b₃, h₃, hv₃, hr₃⟩ := appendPiece_short _ hv₂ hheader.2
    obtain ⟨b₄, h₄, hv₄, hr₄⟩ := appendPiece_short (ascii "\r\n") hv₃ (by decide)
    obtain ⟨b, h, hv', hr⟩ := ih hv₄ hheaders
    refine ⟨b, ?_, hv', ?_⟩
    · rw [appendHeaders, h₁, ok_bind, h₂, ok_bind, h₃, ok_bind, h₄, ok_bind, h]
    · have hcolon : ascii ": " = ascii ":" ++ ascii " " := by decide
      rw [hr, hr₄, hr₃, hr₂, hr₁, List.map_cons, List.flatMap_cons, Field.text, hcolon]
      simp only [List.append_assoc]

theorem appendTail_short (hv : output.Valid) (hs : r.Short) :
    ∃ b, (do
      let output ← appendHeaders r.headers.entries output
      let output ← output.appendPiece (.ofString (ascii "\r\n"))
      output.appendPiece (.ofString r.body)) = .ok b ∧ b.readable = output.readable ++
        ((r.headers.entries.map fun h => (⟨h.1, ascii " ", h.2⟩ : Field)).flatMap Field.text ++
          ascii "\r\n" ++ r.body) := by
  obtain ⟨b₁, h₁, hv₁, hr₁⟩ := appendHeaders_short hv hs.headers
  obtain ⟨b₂, h₂, hv₂, hr₂⟩ := appendPiece_short (ascii "\r\n") hv₁ (by decide)
  obtain ⟨b₃, h₃, -, hr₃⟩ := appendPiece_short _ hv₂ hs.body
  refine ⟨b₃, by rw [h₁, ok_bind, h₂, ok_bind, h₃], ?_⟩
  rw [hr₃, hr₂, hr₁]
  simp only [List.append_assoc]

theorem contentLength_short {n : Nat} (h : n < 2 ^ 31) :
    (ascii "Content-Length: " ++ decimal n ++ ascii "\r\n").length < 32 := by
  have hdecimal : (decimal n).length ≤ 10 := by
    rw [decimal, ascii, List.length_map, String.length_toList, Nat.length_repr_le_iff (by decide)]
    exact h.trans (by decide)
  have hname : (ascii "Content-Length: ").length = 16 := by decide
  have hcrlf : (ascii "\r\n").length = 2 := by decide
  rw [List.length_append, List.length_append, hname, hcrlf]
  omega

theorem appendToBuffer_short (conversion : Bytes) (hv : output.Valid) (hs : r.Short) :
    ∃ output', r.appendToBuffer conversion output = .ok output' ∧ output'.readable =
      output.readable ++ (ascii "HTT" ++ r.statusMessage ++ ascii "\r\n" ++
        r.fields.flatMap Field.text ++ ascii "\r\n" ++ r.body) := by
  obtain ⟨b₁, h₁, hv₁, hr₁⟩ := appendPiece_short (ascii "HTT") hv (by decide)
  obtain ⟨b₂, h₂, hv₂, hr₂⟩ := appendPiece_short _ hv₁ hs.statusMessage
  obtain ⟨b₃, h₃, hv₃, hr₃⟩ := appendPiece_short (ascii "\r\n") hv₂ (by decide)
  have hbuf : snprintf sizeofInt (ascii "HTTP/1.1 " ++ conversion) = ascii "HTT" := by
    rw [snprintf, List.take_append_of_le_length (by decide)]
    decide
  unfold appendToBuffer
  simp only [hbuf]
  rw [h₁, ok_bind, h₂, ok_bind, h₃, ok_bind]
  by_cases hclose : r.closeConnection
  · obtain ⟨b₄, h₄, hv₄, hr₄⟩ :=
      appendPiece_short (ascii "Connection:close\r\n") hv₃ (by decide)
    obtain ⟨b, h, hr⟩ := appendTail_short hv₄ hs
    refine ⟨b, by rw [if_pos hclose, h₄, ok_bind, h], ?_⟩
    have htext : Field.text ⟨ascii "Connection", [], ascii "close"⟩ =
        ascii "Connection:close\r\n" := by decide
    rw [hr, hr₄, hr₃, hr₂, hr₁, fields, if_pos hclose, List.flatMap_append, List.flatMap_singleton,
      htext]
    simp only [List.append_assoc]
  · have hshort := contentLength_short hs.body
    have hbuf := List.take_of_length_le (Nat.le_of_lt_succ hshort)
    obtain ⟨b₄, h₄, hv₄, hr₄⟩ := appendPiece_short _ hv₃ (hshort.trans (by decide))
    obtain ⟨b₅, h₅, hv₅, hr₅⟩ :=
      appendPiece_short (ascii "Connection: Keep-Alive\r\n") hv₄ (by decide)
    obtain ⟨b, h, hr⟩ := appendTail_short hv₅ hs
    refine ⟨b, by rw [if_neg hclose, snprintf, hbuf, h₄, ok_bind, h₅, ok_bind, h], ?_⟩
    have hlength : Field.text ⟨ascii "Content-Length", ascii " ", decimal r.body.length⟩ =
        ascii "Content-Length: " ++ decimal r.body.length ++ ascii "\r\n" := by
      have hname : ascii "Content-Length: " = ascii "Content-Length" ++ ascii ":" ++ ascii " " := by
        decide
      rw [Field.text, hname]
    have hkeep : Field.text ⟨ascii "Connection", ascii " ", ascii "Keep-Alive"⟩ =
        ascii "Connection: Keep-Alive\r\n" := by decide
    rw [hr, hr₅, hr₄, hr₃, hr₂, hr₁, fields, if_neg hclose, List.flatMap_append, List.flatMap_cons,
      List.flatMap_singleton, hlength, hkeep]
    simp only [List.append_assoc]

-- ---------------------------------------------------------------------------
-- The round trip
-- ---------------------------------------------------------------------------

/-- What the code appends is the response. -/
def ReadsBack (r : HttpResponse) (conversion : Bytes) (output : Buffer) : Prop :=
  ∃ output' appended, r.appendToBuffer conversion output = .ok output' ∧
    output'.readable = output.readable ++ appended ∧ Reads appended r

theorem not_readsBack {conversion : Bytes} (hm : ∀ b ∈ r.statusMessage, b ≠ 13)
    (hv : output.Valid) : ¬ReadsBack r conversion output := by
  rintro ⟨output', appended, h, hr, hreads⟩
  obtain ⟨n, rest, hr'⟩ := appendToBuffer_ok hv h
  rw [hr] at hr'
  rw [List.append_cancel_left hr'] at hreads
  exact not_reads hm n rest hreads

/-- No response reads back. -/
theorem never_readsBack (hp : r.Plain) (hv : output.Valid) (conversion : Bytes) :
    ¬ReadsBack r conversion output :=
  not_readsBack (fun b hb => (hp.statusMessage b hb).1) hv

def okResponse : HttpResponse :=
  { closeConnection := true, statusCode := 200, statusMessage := ascii "OK" }

theorem okResponse_plain : okResponse.Plain :=
  ⟨by decide, forall_bytes (by decide), by decide, by decide⟩

theorem never_readsBack_ok : okResponse.Plain ∧ ¬ReadsBack okResponse [] Buffer.fresh :=
  ⟨okResponse_plain, never_readsBack okResponse_plain Buffer.fresh_valid []⟩

/-- What a client of the server gets. -/
theorem readsBack_ok : ∃ output', okResponse.Plain ∧
    okResponse.appendToBuffer [] Buffer.fresh = .ok output' ∧
    output'.readable = ascii "HTTOK\r\nConnection:close\r\n\r\n" ∧
    ¬ReadsBack okResponse [] Buffer.fresh := by
  obtain ⟨output', h, hr⟩ := appendToBuffer_short (r := okResponse) [] Buffer.fresh_valid
    ⟨by decide, by decide, by decide⟩
  refine ⟨output', okResponse_plain, h, ?_, not_readsBack (forall_bytes (by decide)) Buffer.fresh_valid⟩
  rw [hr, Buffer.fresh_readable]
  decide

end HttpResponse

end Muduo
