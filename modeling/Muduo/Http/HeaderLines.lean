import Muduo.Http.Chunking
import Muduo.Http.RequestGrammar

/-!
# Headers

What is written as the lines of a request's headers is read back from them: the
last value of each name, without the white space around it.
-/

namespace Muduo

open Lib
open HttpConnection (Chunk text)
open HttpRequest (isspace)

structure Header where
  name : Bytes
  value : Bytes

structure Header.Proper (h : Header) : Prop where
  colon : 58 ∉ h.name
  name : ¬Buffer.kCRLF <:+: h.name
  value : ¬Buffer.kCRLF <:+: h.value

def Header.line (h : Header) : Bytes := h.name ++ [58] ++ h.value

/-- The lines of a request, the empty one included. -/
def requestLines (line : Bytes) (headers : List Header) : List Bytes :=
  line :: headers.map Header.line ++ [[]]

/-- `s` is what is left of the value without the white space around it. -/
def Strips (value s : Bytes) : Prop :=
  ∃ lead trail, value = lead ++ s ++ trail ∧ (∀ b ∈ lead, isspace b) ∧ (∀ b ∈ trail, isspace b) ∧
    (∀ b ∈ s.head?, ¬isspace b) ∧ ∀ b ∈ s.getLast?, ¬isspace b

-- ---------------------------------------------------------------------------
-- White space
-- ---------------------------------------------------------------------------

theorem dropWhile_cut (p : UInt8 → Bool) (bytes : Bytes) :
    ∃ lead, bytes = lead ++ bytes.dropWhile p ∧ (∀ b ∈ lead, p b) ∧
      ∀ b ∈ (bytes.dropWhile p).head?, ¬p b := by
  refine ⟨bytes.takeWhile p, List.takeWhile_append_dropWhile.symm,
    fun b hb => List.mem_takeWhile_imp hb, fun b hb => ?_⟩
  have hhead := List.head?_dropWhile_not p bytes
  rw [Option.mem_def.mp hb] at hhead
  simpa using hhead

theorem strips_trimmed (value : Bytes) :
    Strips value ((value.dropWhile isspace).reverse.dropWhile isspace).reverse := by
  obtain ⟨lead, hlead, hspace, hhead⟩ := dropWhile_cut isspace value
  obtain ⟨trail, htrail, hspace', hlast⟩ := dropWhile_cut isspace (value.dropWhile isspace).reverse
  have hmid : value.dropWhile isspace =
      ((value.dropWhile isspace).reverse.dropWhile isspace).reverse ++ trail.reverse := by
    have hrev := congrArg List.reverse htrail
    rwa [List.reverse_reverse, List.reverse_append] at hrev
  refine ⟨lead, trail.reverse, ?_, hspace, fun b hb => hspace' b (List.mem_reverse.mp hb), ?_, ?_⟩
  · rw [List.append_assoc, ← hmid]
    exact hlead
  · intro b hb
    refine hhead b ?_
    rw [hmid, List.head?_append, Option.mem_def.mp hb]
    rfl
  · intro b hb
    rw [List.getLast?_reverse] at hb
    exact hlast b hb

-- ---------------------------------------------------------------------------
-- The headers of a request
-- ---------------------------------------------------------------------------

def addHeaders (r : HttpRequest) (headers : List Header) : HttpRequest :=
  headers.foldl (fun r h => r.addHeader h.line h.name.length) r

theorem addHeader_line (r : HttpRequest) (h : Header) :
    ∃ s, Strips h.value s ∧
      (r.addHeader h.line h.name.length).headers = r.headers.insert h.name s := by
  have hname : h.line.take h.name.length = h.name := by
    rw [Header.line, List.append_assoc, List.take_left]
  have hvalue : h.line.drop (h.name.length + 1) = h.value := by
    rw [Header.line, ← List.drop_drop, List.append_assoc, List.drop_left]
    rfl
  refine ⟨_, strips_trimmed h.value, ?_⟩
  simp only [HttpRequest.addHeader, hname, hvalue]

theorem find?_addHeaders_other {r : HttpRequest} {headers : List Header} {name : Bytes}
    (hn : name ∉ headers.map Header.name) :
    (addHeaders r headers).headers.find? name = r.headers.find? name := by
  induction headers generalizing r with
  | nil => rfl
  | cons h headers ih =>
    rw [List.map_cons, List.mem_cons, not_or] at hn
    obtain ⟨s, -, hinsert⟩ := addHeader_line r h
    rw [addHeaders, List.foldl_cons, ← addHeaders, ih hn.2, hinsert, OrdMap.find?_insert,
      if_neg hn.1]

theorem find?_addHeaders_last (r : HttpRequest) (before : List Header) {after : List Header}
    {h : Header} (hn : h.name ∉ after.map Header.name) :
    ∃ s, Strips h.value s ∧
      (addHeaders r (before ++ h :: after)).headers.find? h.name = some s := by
  obtain ⟨s, hs, hinsert⟩ := addHeader_line (addHeaders r before) h
  refine ⟨s, hs, ?_⟩
  rw [addHeaders, List.foldl_append, List.foldl_cons, ← addHeaders, ← addHeaders,
    find?_addHeaders_other hn, hinsert, OrdMap.find?_insert_self]

-- ---------------------------------------------------------------------------
-- The lines
-- ---------------------------------------------------------------------------

theorem Header.Proper.isLine {h : Header} (hp : h.Proper) : IsLine Buffer.kCRLF h.line :=
  isLine_pair (by decide)
    (not_infix_pair_append hp.name hp.value (by decide) (by decide))

theorem isLine_requestLines {line : Bytes} {headers : List Header}
    (hline : ¬Buffer.kCRLF <:+: line) (hp : ∀ h ∈ headers, h.Proper) :
    ∀ l ∈ requestLines line headers, IsLine Buffer.kCRLF l := by
  intro l hl
  simp only [requestLines, List.cons_append, List.mem_cons, List.mem_append, List.mem_map,
    List.not_mem_nil, or_false] at hl
  obtain rfl | ⟨h, hh, rfl⟩ | rfl := hl
  · exact isLine_pair (by decide) hline
  · exact (hp h hh).isLine
  · exact isLine_pair (by decide) (by simp)

theorem readLines_addHeaders (r : HttpRequest) {headers : List Header}
    (hp : ∀ h ∈ headers, h.Proper) (rest : List Bytes) :
    readLines { state := .kExpectHeaders, request := r } (headers.map Header.line ++ [] :: rest) =
      .ok ⟨true, { state := .kGotAll, request := addHeaders r headers },
        headers.map Header.line ++ [[]]⟩ := by
  induction headers generalizing r with
  | nil => rfl
  | cons h headers ih =>
    obtain ⟨hh, hp⟩ := List.forall_mem_cons.mp hp
    have hcolon : h.line.idxOf 58 = h.name.length := by
      rw [Header.line, List.append_assoc]
      exact idxOf_append_cons hh.colon _
    have hbare : ¬bare h.line = true := by
      rw [bare_iff, hcolon, Header.line]
      simp
    rw [List.map_cons, List.cons_append, readLines]
    simp only [if_neg hbare, hcolon, ih _ hp, ok_bind]
    rfl

-- ---------------------------------------------------------------------------
-- Requests
-- ---------------------------------------------------------------------------

/-- The request has these headers, and for each name the last value. -/
structure HasHeaders (r : HttpRequest) (headers : List Header) : Prop where
  last : ∀ {before after h}, headers = before ++ h :: after → h.name ∉ after.map Header.name →
    r.headers.find? h.name = some (r.getHeader h.name) ∧ Strips h.value (r.getHeader h.name)
  absent : ∀ {name}, name ∉ headers.map Header.name →
    r.headers.find? name = none ∧ r.getHeader name = []

theorem has_addHeaders {r : HttpRequest} (hr : r.headers = OrdMap.empty) (headers : List Header) :
    HasHeaders (addHeaders r headers) headers := by
  refine ⟨fun {before after h} heq hn => ?_, fun {name} hn => ?_⟩
  · obtain ⟨s, hs, hfind⟩ := find?_addHeaders_last r before hn
    rw [← heq] at hfind
    have hget : (addHeaders r headers).getHeader h.name = s := by
      rw [HttpRequest.getHeader, hfind]
      rfl
    rw [hget]
    exact ⟨hfind, hs⟩
  · have hfind : (addHeaders r headers).headers.find? name = none := by
      rw [find?_addHeaders_other hn, hr]
      rfl
    refine ⟨hfind, ?_⟩
    rw [HttpRequest.getHeader, hfind]
    rfl

/-- What the lines of a request read as. -/
theorem readLines_request {line method path version : Bytes} {headers : List Header}
    {c : HttpContext} (hg : RequestLine line method path version)
    (hp : ∀ h ∈ headers, h.Proper) (hs : c.state = .kExpectRequestLine)
    (hm : c.request.method = .kInvalid) (rest : List Bytes) :
    ∃ r : HttpRequest, r.headers = c.request.headers ∧
      readLines c (requestLines line headers ++ rest) = .ok ⟨true,
        { state := .kGotAll, request := addHeaders r headers }, requestLines line headers⟩ := by
  obtain ⟨d, hd, -, -, -, hheaders⟩ := processRequestLine_ok hg hm
  have hrest := readLines_addHeaders d.request hp rest
  have hreceive : d.receiveRequestLine = { state := .kExpectHeaders, request := d.request } := rfl
  refine ⟨d.request, hheaders, ?_⟩
  have hlines : requestLines line headers ++ rest =
      line :: (headers.map Header.line ++ [] :: rest) := by simp [requestLines]
  rw [hlines, readLines]
  simp only [hs, hd, ok_bind, if_true, hreceive, hrest]
  rfl

/-- However they are cut: the bytes written for a request are read as one that is
complete, with the headers that were written, and no byte more is taken. -/
theorem headers_invert {p : Parse} {line method path version behind : Bytes}
    {headers : List Header} {ms : List Chunk} (hbegin : p.Begins)
    (hg : RequestLine line method path version) (hline : ¬Buffer.kCRLF <:+: line)
    (hp : ∀ h ∈ headers, h.Proper)
    (hms : joined ms = unlines Buffer.kCRLF (requestLines line headers) ++ behind) :
    ∃ p', p.receiveAll ms = .ok p' ∧ p'.ok = true ∧ p'.context.state = .kGotAll ∧
      p'.buf.readable = behind ∧ HasHeaders p'.context.request headers := by
  obtain ⟨p', o, hp', hmatch⟩ := hbegin.receiveAll ms
  have hlines : linesOf (joined ms) = requestLines line headers ++ linesOf behind := by
    rw [hms]
    exact lines_unlines kCRLF_ne_nil (isLine_requestLines hline hp) behind
  obtain ⟨r, hr, hread⟩ := readLines_request (c := p.context.timeless) hg hp
    (by rw [hbegin.timeless]) (by rw [hbegin.timeless]) (linesOf behind)
  have ho := hmatch.reads
  rw [hlines, hread] at ho
  cases ho
  have htaken := hmatch.taken
  rw [hms] at htaken
  have hrequest : p'.context.timeless.request = addHeaders r headers :=
    congrArg HttpContext.request hmatch.ends
  have hempty : r.headers = OrdMap.empty := by
    rw [hr, hbegin.timeless]
  have hhas := has_addHeaders hempty headers
  rw [← hrequest] at hhas
  exact ⟨p', hp', hmatch.ok, congrArg HttpContext.state hmatch.ends,
    (List.append_cancel_left htaken).symm, ⟨hhas.last, hhas.absent⟩⟩

/-- A name given twice, a value with a colon and one that ends with a bare CR. -/
theorem headers_invert_twice : ∃ p',
    Parse.receiveAll { buf := Buffer.fresh, context := {} }
      [⟨text "GET / HTTP/1.1" ++ text "a: b:c " ++ ascii "d:x", 1⟩,
        ⟨[13] ++ text "" ++ text "a: \t" ++ text "" ++ ascii "P", 2⟩] = .ok p' ∧
    p'.context.state = .kGotAll ∧ p'.buf.readable = ascii "P" ∧
    HasHeaders p'.context.request [⟨ascii "a", ascii " b:c "⟩, ⟨ascii "d", ascii "x" ++ [13]⟩,
      ⟨ascii "a", ascii " \t"⟩] := by
  have hbegin : Parse.Begins { buf := Buffer.fresh, context := {} } :=
    ⟨Buffer.fresh_valid, Buffer.fresh_readable, rfl, .inl rfl⟩
  have hg : RequestLine (ascii "GET / HTTP/1.1") (ascii "GET") (ascii "/") (ascii "HTTP/1.1") :=
    ⟨rfl, by decide, by decide, .inr rfl⟩
  have hp : ∀ h ∈ [Header.mk (ascii "a") (ascii " b:c "), ⟨ascii "d", ascii "x" ++ [13]⟩,
      ⟨ascii "a", ascii " \t"⟩], h.Proper := by
    intro h hh
    simp only [List.mem_cons, List.not_mem_nil, or_false] at hh
    obtain rfl | rfl | rfl := hh <;> exact ⟨by decide, by decide, by decide⟩
  have hms : joined [⟨text "GET / HTTP/1.1" ++ text "a: b:c " ++ ascii "d:x", 1⟩,
      ⟨[13] ++ text "" ++ text "a: \t" ++ text "" ++ ascii "P", 2⟩] =
      unlines Buffer.kCRLF (requestLines (ascii "GET / HTTP/1.1")
        [⟨ascii "a", ascii " b:c "⟩, ⟨ascii "d", ascii "x" ++ [13]⟩, ⟨ascii "a", ascii " \t"⟩]) ++
      ascii "P" := by decide +kernel
  obtain ⟨p', hp', -, hgot, hbehind, hhas⟩ :=
    headers_invert hbegin hg (by decide +kernel) hp hms
  exact ⟨p', hp', hgot, hbehind, hhas⟩

end Muduo
