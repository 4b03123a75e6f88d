import Muduo.Http.RequestLines
import Muduo.Lib.Lines

/-!
# The parser on lines

`readLines` says what `parseRequest` makes of the lines in its buffer, without a
buffer and without the receive time.
-/

namespace Muduo

open Lib

abbrev linesOf (bytes : Bytes) : List Bytes := lines Buffer.kCRLF bytes

theorem kCRLF_ne_nil : Buffer.kCRLF ≠ [] := by decide

def HttpContext.timeless (c : HttpContext) : HttpContext :=
  { c with request := c.request.setReceiveTime 0 }

/-- What a parse gives, and the lines it takes out of the buffer. -/
structure Parsed where
  ok : Bool
  context : HttpContext
  consumed : List Bytes

def Parsed.behind (line : Bytes) (o : Parsed) : Parsed :=
  { o with consumed := line :: o.consumed }

/-- A line without a colon ends the headers. -/
def bare (line : Bytes) : Bool := 58 ∉ line

def readLines (context : HttpContext) : List Bytes → Except HttpFault Parsed
  | [] => .ok ⟨true, context, []⟩
  | line :: rest =>
    match context.state with
    | .kExpectRequestLine => do
      let (ok, context) ← processRequestLine line context
      if ok then
        let o ← readLines context.receiveRequestLine rest
        return o.behind line
      else return ⟨false, context, []⟩
    | .kExpectHeaders =>
      if bare line then .ok ⟨true, context.receiveHeaders, [line]⟩
      else do
        let request := context.request.addHeader line (line.idxOf 58)
        let o ← readLines { context with request } rest
        return o.behind line
    | _ => .ok ⟨true, context, []⟩

-- ---------------------------------------------------------------------------
-- The receive time
-- ---------------------------------------------------------------------------

theorem processVersion_timeless (version : Bytes) (r : HttpRequest) :
    processVersion version (r.setReceiveTime 0) =
      ((processVersion version r).1, (processVersion version r).2.setReceiveTime 0) := by
  unfold processVersion
  split
  · split <;> rfl
  · rfl

theorem processRequestLine_timeless {context : HttpContext} (line : Bytes)
    (hm : context.request.method = .kInvalid) :
    processRequestLine line context.timeless =
      (processRequestLine line context).map fun r => (r.1, r.2.timeless) := by
  have hm' : context.timeless.request.method = .kInvalid := hm
  unfold processRequestLine
  dsimp only
  split
  · simp only [HttpRequest.setMethod, ensure_bind hm, ensure_bind hm', pure_bind]
    split
    · split
      · have hv := processVersion_timeless
          (((line.drop (line.idxOf 32 + 1))).drop ((line.drop (line.idxOf 32 + 1)).idxOf 32 + 1))
          ({ context.request with method := HttpRequest.methodOf (line.take (line.idxOf 32)) }.setPath
            ((line.drop (line.idxOf 32 + 1)).take ((line.drop (line.idxOf 32 + 1)).idxOf 32)))
        exact congrArg (fun r => Except.ok (r.1, { context with request := r.2 })) hv
      · rfl
    · rfl
  · rfl

-- ---------------------------------------------------------------------------
-- One parse
-- ---------------------------------------------------------------------------

theorem bare_iff {line : Bytes} : bare line = true ↔ line.idxOf 58 = line.length := by
  rw [bare, decide_eq_true_eq]
  exact List.idxOf_eq_length_iff.symm

/-- `p` is what the parser makes of the bytes. -/
structure Matches (context : HttpContext) (bytes : Bytes) (p : Parse) (o : Parsed) : Prop where
  reads : readLines context.timeless (linesOf bytes) = .ok o
  ok : p.ok = o.ok
  ends : p.context.timeless = o.context
  taken : bytes = unlines Buffer.kCRLF o.consumed ++ p.buf.readable
  lines : linesOf bytes = o.consumed ++ linesOf p.buf.readable

variable {p p' : Parse}

theorem Matches.stop (hl : linesOf p.buf.readable = []) (hok : p'.ok = true)
    (hc : p'.context = p.context) (hb : p'.buf = p.buf) :
    Matches p.context p.buf.readable p' ⟨true, p.context.timeless, []⟩ :=
  ⟨by rw [hl]; rfl, hok, by rw [hc], by rw [hb]; rfl, by rw [hb]; rfl⟩

theorem Matches.line {q : Parse} (h : Matches q.context q.buf.readable p' o)
    (hs : search Buffer.kCRLF p.buf.readable = some i)
    (hb : q.buf.readable = p.buf.readable.drop (i + 2))
    (hr : ∀ rest, readLines q.context.timeless rest = .ok o →
      readLines p.context.timeless (p.buf.readable.take i :: rest) =
        .ok (o.behind (p.buf.readable.take i))) :
    Matches p.context p.buf.readable p' (o.behind (p.buf.readable.take i)) := by
  have hlines : linesOf p.buf.readable = p.buf.readable.take i :: linesOf q.buf.readable := by
    rw [hb]
    exact lines_some kCRLF_ne_nil hs
  refine ⟨?_, h.ok, h.ends, ?_, ?_⟩
  · rw [hlines]
    exact hr _ h.reads
  · rw [Parsed.behind, unlines_cons, List.append_assoc, ← h.taken, hb]
    exact take_search hs
  · rw [hlines, h.lines]
    rfl

theorem Matches.isLine (h : Matches context bytes p o) :
    ∀ l ∈ o.consumed, IsLine Buffer.kCRLF l := by
  obtain ⟨_, -, -, hls⟩ := lines_split kCRLF_ne_nil h.lines
  exact hls

/-- The parse from `p` on when a round has led to `q`: the round was the last, or the
rest of the loop goes on from `q` with one line less. -/
def Parse.Round (p q : Parse) : Prop :=
  (q.hasMore = false ∧ ∃ o, Matches p.context p.buf.readable q o) ∨
  (q.hasMore = true ∧ ∀ p' o, Matches q.context q.buf.readable p' o →
    ∃ o, Matches p.context p.buf.readable p' o)

theorem Parse.Good.requestLine_round (h : p.Good) (hmore : p.hasMore = true)
    (hs : p.context.state = .kExpectRequestLine) (receiveTime : Timestamp) :
    ∃ q, p.next receiveTime = .ok q ∧ p.Round q := by
  have hok := h.ok hmore
  have hs' : p.context.timeless.state = .kExpectRequestLine := hs
  unfold Parse.next
  simp only [hs]
  cases hsearch : search Buffer.kCRLF p.buf.readable with
  | none =>
    simp only [Buffer.findCRLF_none hsearch]
    exact ⟨_, rfl, .inl ⟨rfl, _, .stop (lines_none hsearch) hok rfl rfl⟩⟩
  | some i =>
    obtain ⟨hfind, hline, buf, hbuf, -, hread, -⟩ := Buffer.findCRLF_some h.valid hsearch
    have hm := h.fresh hok hs
    obtain ⟨ok, context, hproc, -⟩ := processRequestLine_fresh (p.buf.readable.take i) hm
    have htime := processRequestLine_timeless (p.buf.readable.take i) hm
    rw [hproc] at htime
    simp only [hfind, hline, hproc, ok_bind, hbuf, HttpFault.onBuffer_ok]
    cases ok with
    | true =>
      refine ⟨_, rfl, .inr ⟨hmore, fun p' o ho => ⟨_, ho.line hsearch hread fun rest hr => ?_⟩⟩⟩
      have hr : readLines context.timeless.receiveRequestLine rest = .ok o := hr
      simp only [readLines, hs', htime, Except.map, ok_bind, if_true, hr]
      rfl
    | false =>
      refine ⟨_, rfl, .inl ⟨rfl, ⟨false, context.timeless, []⟩, ?_, rfl, rfl, rfl, rfl⟩⟩
      rw [linesOf, lines_some kCRLF_ne_nil hsearch]
      simp only [readLines, hs', htime, Except.map, ok_bind]
      rfl

theorem Parse.Good.headers_round (h : p.Good) (hmore : p.hasMore = true)
    (hs : p.context.state = .kExpectHeaders) (receiveTime : Timestamp) :
    ∃ q, p.next receiveTime = .ok q ∧ p.Round q := by
  have hok := h.ok hmore
  have hs' : p.context.timeless.state = .kExpectHeaders := hs
  unfold Parse.next
  simp only [hs]
  cases hsearch : search Buffer.kCRLF p.buf.readable with
  | none =>
    simp only [Buffer.findCRLF_none hsearch]
    exact ⟨_, rfl, .inl ⟨rfl, _, .stop (lines_none hsearch) hok rfl rfl⟩⟩
  | some i =>
    obtain ⟨hfind, hline, buf, hbuf, -, hread, -⟩ := Buffer.findCRLF_some h.valid hsearch
    simp only [hfind, hline]
    split
    · rename_i hcolon
      simp only [hbuf, HttpFault.onBuffer_ok, ok_bind]
      have hbare : ¬bare (p.buf.readable.take i) = true := fun hb => hcolon (bare_iff.mp hb)
      refine ⟨_, rfl, .inr ⟨hmore, fun p' o ho => ⟨_, ho.line hsearch hread fun rest hr => ?_⟩⟩⟩
      have hr : readLines
          { state := .kExpectHeaders
            request := p.context.timeless.request.addHeader (p.buf.readable.take i)
              ((p.buf.readable.take i).idxOf 58) } rest = .ok o := hr
      simp only [readLines, hs', if_neg hbare, hr]
      rfl
    · rename_i hcolon
      simp only [hbuf, HttpFault.onBuffer_ok, ok_bind]
      have hbare : bare (p.buf.readable.take i) = true := bare_iff.mpr (not_not.mp hcolon)
      refine ⟨_, rfl, .inl ⟨rfl, ⟨true, p.context.timeless.receiveHeaders, [p.buf.readable.take i]⟩,
        ?_, hok, rfl, ?_, ?_⟩⟩
      · rw [linesOf, lines_some kCRLF_ne_nil hsearch]
        simp only [readLines, hs', if_pos hbare]
      · simp only [hread, unlines_cons, unlines_nil, List.append_nil]
        exact take_search hsearch
      · simp only [hread]
        exact lines_some kCRLF_ne_nil hsearch

theorem Parse.Good.round (h : p.Good) (hmore : p.hasMore = true) (receiveTime : Timestamp) :
    ∃ q, p.next receiveTime = .ok q ∧ p.Round q := by
  rcases h.reading hmore with hs | hs
  · exact h.requestLine_round hmore hs receiveTime
  · exact h.headers_round hmore hs receiveTime

theorem parseLoop_matches {fuel : Nat} {p : Parse} (h : p.Good) (hmore : p.hasMore = true)
    (hfuel : p.buf.readableBytes < fuel) (receiveTime : Timestamp) :
    ∃ p' o, parseLoop receiveTime fuel p = .ok p' ∧ p'.Good ∧
      Matches p.context p.buf.readable p' o := by
  induction fuel generalizing p with
  | zero => exact absurd hfuel (Nat.not_lt_zero _)
  | succ fuel ih =>
    obtain ⟨q, hnext, hgood, hlt⟩ := h.next hmore receiveTime
    obtain ⟨q', hnext', hround⟩ := h.round hmore receiveTime
    rw [hnext] at hnext'
    cases hnext'
    unfold parseLoop
    simp only [hmore, if_true, hnext, ok_bind]
    obtain ⟨hdone, o, ho⟩ | ⟨hmore', hrest⟩ := hround
    · exact ⟨q, o, parseLoop_done hdone .., hgood, ho⟩
    · have hless := hlt hmore'
      obtain ⟨p', o, hp', hgood', ho⟩ := ih hgood hmore' (by omega)
      obtain ⟨o', ho'⟩ := hrest p' o ho
      exact ⟨p', o', hp', hgood', ho'⟩

theorem parseRequest_matches {buf : Buffer} {context : HttpContext} (hv : buf.Valid)
    (hr : context.Ready) (receiveTime : Timestamp) :
    ∃ p o, parseRequest buf context receiveTime = .ok p ∧ p.Good ∧
      Matches context buf.readable p o :=
  parseLoop_matches (hr.good hv) rfl (Nat.lt_succ_self _) receiveTime

-- ---------------------------------------------------------------------------
-- Requests in lines
-- ---------------------------------------------------------------------------

def accepts (line : Bytes) : Bool :=
  match processRequestLine line {} with
  | .ok (ok, _) => ok
  | .error _ => false

/-- Those of the lines that are looked at as header lines. -/
def headerLines : HttpContext.HttpRequestParseState → List Bytes → List Bytes
  | .kExpectRequestLine, line :: rest => if accepts line then rest else []
  | .kExpectHeaders, ls => ls
  | _, _ => []

def Completes (state : HttpContext.HttpRequestParseState) (ls : List Bytes) : Prop :=
  ∃ line ∈ headerLines state ls, bare line = true

/-- The lines behind the request that they complete. -/
def behind (state : HttpContext.HttpRequestParseState) (ls : List Bytes) : List Bytes :=
  ((headerLines state ls).dropWhile (! bare ·)).tail

instance (state : HttpContext.HttpRequestParseState) (ls : List Bytes) :
    Decidable (Completes state ls) :=
  inferInstanceAs (Decidable (∃ line ∈ headerLines state ls, bare line = true))

theorem processVersion_fst (version : Bytes) (r r' : HttpRequest) :
    (processVersion version r).1 = (processVersion version r').1 := by
  unfold processVersion
  split
  · split <;> rfl
  · rfl

theorem processRequestLine_congr {c d : HttpContext} (line : Bytes)
    (hc : c.request.method = .kInvalid) (hd : d.request.method = .kInvalid) :
    (processRequestLine line c).map Prod.fst = (processRequestLine line d).map Prod.fst := by
  unfold processRequestLine
  dsimp only
  split
  · simp only [HttpRequest.setMethod, ensure_bind hc, ensure_bind hd, pure_bind]
    split
    · split
      · exact congrArg Except.ok (processVersion_fst ..)
      · rfl
    · rfl
  · rfl

theorem processRequestLine_accepts {c : HttpContext} (line : Bytes)
    (hm : c.request.method = .kInvalid) :
    ∃ c', processRequestLine line c = .ok (accepts line, c') ∧ c'.state = c.state := by
  obtain ⟨ok, c', hc', hstate, -⟩ := processRequestLine_fresh line hm
  have hfresh : ({} : HttpContext).request.method = .kInvalid := rfl
  obtain ⟨ok', d, hd, -⟩ := processRequestLine_fresh line hfresh
  have hcongr := processRequestLine_congr line hm hfresh
  rw [hc', hd] at hcongr
  have haccepts : accepts line = ok' := by
    rw [accepts, hd]
  cases hcongr
  exact ⟨c', by rw [hc', haccepts], hstate⟩

theorem readLines_headers {c : HttpContext} (hs : c.state = .kExpectHeaders) (ls : List Bytes) :
    ∃ o, readLines c ls = .ok o ∧ o.ok = true ∧
      ((∀ l ∈ ls, bare l = false) ∧ o.context.state = .kExpectHeaders ∧ o.consumed = ls ∨
      ∃ pre line rest, ls = pre ++ line :: rest ∧ (∀ l ∈ pre, bare l = false) ∧
        bare line = true ∧ o.context.state = .kGotAll ∧ o.consumed = pre ++ [line]) := by
  induction ls generalizing c with
  | nil => exact ⟨_, rfl, rfl, .inl ⟨by simp, hs, rfl⟩⟩
  | cons l ls ih =>
    cases hb : bare l with
    | true =>
      refine ⟨⟨true, c.receiveHeaders, [l]⟩, ?_, rfl, .inr ⟨[], l, ls, rfl, by simp, hb, rfl, rfl⟩⟩
      simp only [readLines, hs, hb, if_true]
    | false =>
      obtain ⟨o, ho, hok, hcases⟩ := ih
        (c := { state := .kExpectHeaders, request := c.request.addHeader l (l.idxOf 58) }) rfl
      refine ⟨o.behind l, ?_, hok, ?_⟩
      · simp only [readLines, hs, hb, Bool.false_eq_true, if_false, ho, ok_bind]
        rfl
      · obtain ⟨hall, hstate, hcons⟩ | ⟨pre, line, rest, rfl, hpre, hline, hstate, hcons⟩ := hcases
        · exact .inl ⟨List.forall_mem_cons.mpr ⟨hb, hall⟩, hstate, congrArg (l :: ·) hcons⟩
        · exact .inr ⟨l :: pre, line, rest, rfl, List.forall_mem_cons.mpr ⟨hb, hpre⟩, hline, hstate,
            congrArg (l :: ·) hcons⟩

/-- How a parse of the lines ends: it rejects the request line, it waits for more
lines, or it has got all and leaves `rest`. -/
inductive Reading (state : HttpContext.HttpRequestParseState) (ls : List Bytes) (o : Parsed)
    (rest : List Bytes) : Prop
  | rejected : o.ok = false → o.context.state = .kExpectRequestLine → ¬Completes state ls →
      Reading state ls o rest
  | waiting : o.ok = true → o.context.Ready → rest = [] → ¬Completes state ls →
      Reading state ls o rest
  | complete (pre : List Bytes) (line : Bytes) : o.ok = true → o.context.state = .kGotAll →
      (headerLines state ls).find? bare = some line → o.consumed = pre ++ [line] → [] ∉ pre →
      rest = behind state ls → Reading state ls o rest

theorem not_bare_nil (h : bare l = false) : l ≠ [] := by
  rintro rfl
  cases h

theorem find?_bare (hpre : ∀ l ∈ pre, bare l = false) (hline : bare line = true)
    (rest : List Bytes) : (pre ++ line :: rest).find? bare = some line := by
  rw [List.find?_append, List.find?_eq_none.mpr (fun l hl => by simp [hpre l hl])]
  simp [hline]

theorem behind_bare {state : HttpContext.HttpRequestParseState} {ls : List Bytes}
    (hheaders : headerLines state ls = pre ++ line :: rest) (hpre : ∀ l ∈ pre, bare l = false)
    (hline : bare line = true) : behind state ls = rest := by
  rw [behind, hheaders, List.dropWhile_append_of_pos (fun l hl => by simp [hpre l hl])]
  simp [hline]

theorem readLines_ready {c : HttpContext} (hr : c.Ready) (ls : List Bytes) :
    ∃ o rest, readLines c ls = .ok o ∧ ls = o.consumed ++ rest ∧ Reading c.state ls o rest := by
  rcases hr with ⟨hs, hm⟩ | hs
  · cases ls with
    | nil => exact ⟨_, [], rfl, rfl, .waiting rfl (.inl ⟨hs, hm⟩) rfl (by simp [Completes, hs, headerLines])⟩
    | cons line rest =>
      obtain ⟨c', hproc, hstate⟩ := processRequestLine_accepts line hm
      cases ha : accepts line with
      | false =>
        rw [ha] at hproc
        refine ⟨⟨false, c', []⟩, line :: rest, ?_, rfl,
          .rejected rfl (hstate.trans hs) (by simp [Completes, hs, headerLines, ha])⟩
        simp only [readLines, hs, hproc, ok_bind, Bool.false_eq_true, if_false]
        rfl
      | true =>
        rw [ha] at hproc
        have hheaders : headerLines c.state (line :: rest) = rest := by simp [hs, headerLines, ha]
        obtain ⟨o, ho, hok, hcases⟩ := readLines_headers (c := c'.receiveRequestLine) rfl rest
        have hread : readLines c (line :: rest) = .ok (o.behind line) := by
          simp only [readLines, hs, hproc, ok_bind, if_true, ho]
          rfl
        obtain ⟨hall, hst, hcons⟩ | ⟨pre, l, more, rfl, hpre, hl, hst, hcons⟩ := hcases
        · refine ⟨o.behind line, [], hread, ?_, .waiting hok (.inr hst) rfl ?_⟩
          · simp [Parsed.behind, hcons]
          · simpa [Completes, hheaders] using hall
        · refine ⟨o.behind line, more, hread, ?_, .complete (line :: pre) l hok hst ?_ ?_ ?_ ?_⟩
          · simp [Parsed.behind, hcons]
          · rw [hheaders]
            exact find?_bare hpre hl more
          · simp [Parsed.behind, hcons]
          · rw [List.mem_cons, not_or]
            refine ⟨?_, fun hnil => not_bare_nil (hpre _ hnil) rfl⟩
            rintro rfl
            exact absurd ha (by decide)
          · exact (behind_bare hheaders hpre hl).symm
  · have hheaders : headerLines c.state ls = ls := by simp [hs, headerLines]
    obtain ⟨o, ho, hok, ⟨hall, hst, hcons⟩ | ⟨pre, l, more, rfl, hpre, hl, hst, hcons⟩⟩ :=
      readLines_headers hs ls
    · refine ⟨o, [], ho, by simp [hcons], .waiting hok (.inr hst) rfl ?_⟩
      simpa [Completes, hheaders] using hall
    · refine ⟨o, more, ho, by simp [hcons], .complete pre l hok hst ?_ hcons ?_ ?_⟩
      · rw [hheaders]
        exact find?_bare hpre hl more
      · exact fun hnil => not_bare_nil (hpre _ hnil) rfl
      · exact (behind_bare hheaders hpre hl).symm

end Muduo
