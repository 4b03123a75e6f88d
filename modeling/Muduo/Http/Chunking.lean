import Muduo.Http.ParseLines

/-!
# How the bytes are cut does not matter

A parse that waits goes on with what comes behind as one that had it all at once,
and a context that was reset parses as a new one.
-/

namespace Muduo

open Lib
open HttpConnection (Chunk text)

-- ---------------------------------------------------------------------------
-- Chunks
-- ---------------------------------------------------------------------------

def Parse.Stopped (p : Parse) : Prop := p.ok = false ∨ p.context.state = .kGotAll

instance (p : Parse) : Decidable p.Stopped := inferInstanceAs (Decidable (_ ∨ _))

def Parse.receive (p : Parse) (m : Chunk) : Except HttpFault Parse := do
  let buf ← HttpFault.onBuffer (p.buf.append m.bytes)
  if p.Stopped then return { p with buf } else parseRequest buf p.context m.receiveTime

def Parse.receiveAll (p : Parse) : List Chunk → Except HttpFault Parse
  | [] => .ok p
  | m :: ms => do
    let p ← p.receive m
    p.receiveAll ms

def joined (ms : List Chunk) : Bytes := ms.flatMap Chunk.bytes

variable {p p' q q' : Parse} {o o' : Parsed}

theorem readLines_cons {c : HttpContext} (h : readLines c (line :: ls) = .ok o) :
    ((∀ ms, readLines c (line :: ms) = .ok o) ∧ (o.ok = true → ¬o.context.Ready)) ∨
    ∃ d o', readLines d ls = .ok o' ∧ o = o'.behind line ∧
      ∀ ms o', readLines d ms = .ok o' → readLines c (line :: ms) = .ok (o'.behind line) := by
  unfold readLines at h
  cases hs : c.state with
  | kExpectRequestLine =>
    simp only [hs] at h
    obtain ⟨⟨ok, c'⟩, hproc, h⟩ := bind_ok.mp h
    cases ok with
    | true =>
      obtain ⟨o', ho', h⟩ := bind_ok.mp h
      cases pure_ok.mp h
      refine .inr ⟨_, o', ho', rfl, fun ms o'' ho'' => ?_⟩
      simp only [readLines, hs, hproc, ok_bind, if_true, ho'']
      rfl
    | false =>
      cases pure_ok.mp h
      refine .inl ⟨fun ms => ?_, by simp⟩
      simp only [readLines, hs, hproc, ok_bind]
      rfl
  | kExpectHeaders =>
    simp only [hs] at h
    split at h
    · rename_i hb
      cases h
      refine .inl ⟨fun ms => ?_, fun _ => by simp [HttpContext.Ready, HttpContext.receiveHeaders]⟩
      simp only [readLines, hs, if_pos hb]
    · rename_i hb
      obtain ⟨o', ho', h⟩ := bind_ok.mp h
      cases pure_ok.mp h
      refine .inr ⟨_, o', ho', rfl, fun ms o'' ho'' => ?_⟩
      simp only [readLines, hs, if_neg hb, ho'', ok_bind]
      rfl
  | kExpectBody =>
    simp only [hs] at h
    cases h
    exact .inl ⟨fun ms => by simp only [readLines, hs], fun _ => by simp [HttpContext.Ready, hs]⟩
  | kGotAll =>
    simp only [hs] at h
    cases h
    exact .inl ⟨fun ms => by simp only [readLines, hs], fun _ => by simp [HttpContext.Ready, hs]⟩

theorem readLines_stopped {c : HttpContext} {ls : List Bytes} (h : readLines c ls = .ok o)
    (hs : o.ok = false ∨ o.context.state = .kGotAll) (ms : List Bytes) :
    readLines c (ls ++ ms) = .ok o := by
  induction ls generalizing c o with
  | nil =>
    cases h
    have hgot : c.state = .kGotAll := hs.resolve_left (by simp)
    cases ms with
    | nil => rfl
    | cons m ms => simp only [List.nil_append, readLines, hgot]
  | cons line ls ih =>
    obtain ⟨hall, -⟩ | ⟨d, o', ho', rfl, hrest⟩ := readLines_cons h
    · exact hall _
    · exact hrest _ _ (ih ho' hs)

def Parsed.followed (o o' : Parsed) : Parsed :=
  { o' with consumed := o.consumed ++ o'.consumed }

theorem readLines_waiting {c : HttpContext} {ls : List Bytes} (h : readLines c ls = .ok o)
    (hok : o.ok = true) (hr : o.context.Ready) (ho' : readLines o.context ms = .ok o') :
    readLines c (ls ++ ms) = .ok (o.followed o') := by
  induction ls generalizing c o with
  | nil =>
    cases h
    exact ho'
  | cons line ls ih =>
    obtain ⟨-, hnot⟩ | ⟨d, o₁, ho₁, rfl, hrest⟩ := readLines_cons h
    · exact absurd hr (hnot hok)
    · exact hrest _ _ (ih ho₁ hok hr ho')

-- ---------------------------------------------------------------------------
-- What the chunks give
-- ---------------------------------------------------------------------------

theorem HttpContext.timeless_ready {c : HttpContext} : c.timeless.Ready ↔ c.Ready := Iff.rfl

theorem Matches.linesOf_append (h : Matches c bytes p o) (x : Bytes) :
    linesOf (bytes ++ x) = o.consumed ++ linesOf (p.buf.readable ++ x) := by
  conv_lhs => rw [h.taken]
  rw [List.append_assoc]
  exact lines_unlines kCRLF_ne_nil h.isLine _

/-- What comes after a parse has stopped is only kept. -/
theorem Matches.stopped (h : Matches c bytes p o) (hs : p.Stopped)
    (hb : buf.readable = p.buf.readable ++ x) : Matches c (bytes ++ x) { p with buf } o := by
  have hs' : o.ok = false ∨ o.context.state = .kGotAll := by
    rw [← h.ok, ← h.ends]
    exact hs
  refine ⟨?_, h.ok, h.ends, ?_, ?_⟩
  · have hlines := h.linesOf_append x
    obtain ⟨ms, hms⟩ : ∃ ms, linesOf (bytes ++ x) = linesOf bytes ++ ms := by
      obtain ⟨rest, hrest, -, hls⟩ := lines_split kCRLF_ne_nil (List.append_nil (linesOf bytes)).symm
      exact ⟨_, lines_append kCRLF_ne_nil hrest hls x⟩
    rw [hms]
    exact readLines_stopped h.reads hs' ms
  · rw [hb, ← List.append_assoc, ← h.taken]
  · rw [hb]
    exact h.linesOf_append x

theorem Matches.goOn (h : Matches c bytes p o) (hw : linesOf p.buf.readable = [])
    (hok : o.ok = true) (hr : o.context.Ready)
    (h' : Matches p.context (p.buf.readable ++ x) p' o') :
    Matches c (bytes ++ x) p' (o.followed o') := by
  have hall : linesOf bytes = o.consumed := by
    rw [h.lines, hw, List.append_nil]
  refine ⟨?_, h'.ok, h'.ends, ?_, ?_⟩
  · rw [h.linesOf_append, ← hall]
    exact readLines_waiting h.reads hok hr (h.ends ▸ h'.reads)
  · conv_lhs => rw [h.taken]
    rw [List.append_assoc, h'.taken, Parsed.followed, unlines_append, List.append_assoc]
  · rw [h.linesOf_append, h'.lines]
    exact (List.append_assoc ..).symm

theorem receive_matches (hc : c.Ready) (h : Matches c bytes p o) (hv : p.buf.Valid) (m : Chunk) :
    ∃ p' o', p.receive m = .ok p' ∧ p'.buf.Valid ∧ Matches c (bytes ++ m.bytes) p' o' := by
  obtain ⟨buf, happend, hv', hb⟩ := Buffer.append_ok hv m.bytes
  unfold Parse.receive
  simp only [happend, HttpFault.onBuffer_ok, ok_bind]
  split
  · rename_i hs
    exact ⟨_, o, rfl, hv', h.stopped hs hb⟩
  · rename_i hs
    obtain ⟨o₁, rest, hread, hrest, hreading⟩ := readLines_ready (c := c.timeless) hc (linesOf bytes)
    rw [h.reads] at hread
    cases hread
    have hleft : linesOf p.buf.readable = rest :=
      List.append_cancel_left (h.lines.symm.trans hrest)
    have hs' : ¬(o.ok = false ∨ o.context.state = .kGotAll) := by
      rw [← h.ok, ← h.ends]
      exact hs
    cases hreading with
    | rejected hok => exact absurd (.inl hok) hs'
    | complete _ _ _ hgot => exact absurd (.inr hgot) hs'
    | waiting hok hr hnil _ =>
      have hready : p.context.Ready := HttpContext.timeless_ready.mp (h.ends ▸ hr)
      obtain ⟨p', o', hp', hgood, hmatch⟩ := parseRequest_matches hv' hready m.receiveTime
      rw [hb] at hmatch
      exact ⟨p', _, hp', hgood.valid, h.goOn (hleft.trans hnil) hok hr hmatch⟩

theorem receiveAll_matches (hc : c.Ready) {p : Parse} (h : Matches c bytes p o)
    (hv : p.buf.Valid) (ms : List Chunk) :
    ∃ p' o', p.receiveAll ms = .ok p' ∧ Matches c (bytes ++ joined ms) p' o' := by
  induction ms generalizing bytes p o with
  | nil => exact ⟨p, o, rfl, by rw [joined, List.flatMap_nil, List.append_nil]; exact h⟩
  | cons m ms ih =>
    obtain ⟨p₁, o₁, hp₁, hv₁, h₁⟩ := receive_matches hc h hv m
    obtain ⟨p', o', hp', h'⟩ := ih h₁ hv₁
    refine ⟨p', o', ?_, ?_⟩
    · simp only [Parse.receiveAll, hp₁, ok_bind, hp']
    · rw [joined, List.flatMap_cons, ← List.append_assoc]
      exact h'

-- ---------------------------------------------------------------------------
-- A context that was reset
-- ---------------------------------------------------------------------------

/-- `reset` leaves the version of the request before. -/
theorem processVersion_setVersion (version : Bytes) (r : HttpRequest) (v : HttpRequest.Version) :
    processVersion version (r.setVersion v) =
      ((processVersion version r).1,
        if (processVersion version r).1 then (processVersion version r).2
        else (processVersion version r).2.setVersion v) := by
  unfold processVersion
  split
  · split <;> rfl
  · rfl

theorem processRequestLine_setVersion {c : HttpContext} (line : Bytes)
    (hm : c.request.method = .kInvalid) :
    ∃ ok c', processRequestLine line c = .ok (ok, c') ∧
      ∀ v, processRequestLine line { c with request := c.request.setVersion v } =
        .ok (ok, if ok then c' else { c' with request := c'.request.setVersion v }) := by
  have hm' : ∀ v, (c.request.setVersion v).method = .kInvalid := fun _ => hm
  unfold processRequestLine
  dsimp only
  split
  · simp only [HttpRequest.setMethod, ensure_bind hm, ensure_bind (hm' _), pure_bind]
    split
    · split
      · refine ⟨_, _, rfl, fun v => ?_⟩
        have hv := processVersion_setVersion
          ((line.drop (line.idxOf 32 + 1)).drop ((line.drop (line.idxOf 32 + 1)).idxOf 32 + 1))
          ({ c.request with method := HttpRequest.methodOf (line.take (line.idxOf 32)) }.setPath
            ((line.drop (line.idxOf 32 + 1)).take ((line.drop (line.idxOf 32 + 1)).idxOf 32))) v
        refine (congrArg (fun r => Except.ok (r.1, { c with request := r.2 })) hv).trans ?_
        dsimp only
        split <;> rfl
      · exact ⟨_, _, rfl, fun _ => rfl⟩
    · exact ⟨_, _, rfl, fun _ => rfl⟩
  · exact ⟨_, _, rfl, fun _ => rfl⟩

/-- Two parses agree, the receive time and the version aside. -/
structure Parse.Agrees (p q : Parse) : Prop where
  ok : p.ok = q.ok
  state : p.context.state = q.context.state
  method : p.context.request.method = q.context.request.method
  path : p.context.request.path = q.context.request.path
  headers : p.context.request.headers = q.context.request.headers
  readable : p.buf.readable = q.buf.readable

def HttpContext.Unused (c : HttpContext) : Prop := c = {} ∨ ∃ earlier : HttpContext, c = earlier.reset

theorem HttpContext.Unused.eq {c : HttpContext} (h : c.Unused) :
    c = { request := { version := c.request.version } } := by
  obtain rfl | ⟨earlier, rfl⟩ := h <;> rfl

/-- The version a context was left with is overwritten by the request line. -/
theorem readLines_version (v v' : HttpRequest.Version) (ls : List Bytes)
    (h : readLines { request := { version := v } } ls = .ok o) :
    ∃ o', readLines { request := { version := v' } } ls = .ok o' ∧ o'.ok = o.ok ∧
      o'.consumed = o.consumed ∧ (o.context.state ≠ .kExpectRequestLine → o' = o) ∧
      ∃ u, o'.context = { o.context with request := o.context.request.setVersion u } := by
  cases ls with
  | nil =>
    cases h
    exact ⟨_, rfl, rfl, rfl, fun hs => absurd rfl hs, v', rfl⟩
  | cons line rest =>
    obtain ⟨ok, c', hproc, hother⟩ :=
      processRequestLine_setVersion (c := { request := { version := v } }) line rfl
    have hother := hother v'
    unfold readLines at h ⊢
    simp only [hproc, ok_bind] at h
    have hproc' : processRequestLine line { request := { version := v' } } = _ := hother
    simp only [hproc', ok_bind]
    cases ok with
    | true =>
      refine ⟨o, h, rfl, rfl, fun _ => rfl, o.context.request.version, rfl⟩
    | false =>
      cases pure_ok.mp h
      refine ⟨_, rfl, rfl, rfl, fun hs => absurd ?_ hs, v', rfl⟩
      have hm : ({ request := { version := v } } : HttpContext).request.method = .kInvalid := rfl
      obtain ⟨ok, d, hd, hstate, -⟩ := processRequestLine_fresh line hm
      rw [hproc] at hd
      cases hd
      exact hstate

-- ---------------------------------------------------------------------------
-- Runs
-- ---------------------------------------------------------------------------

structure Parse.Begins (p : Parse) : Prop where
  valid : p.buf.Valid
  readable : p.buf.readable = []
  ok : p.ok = true
  unused : p.context.Unused

theorem Parse.Begins.ready (h : p.Begins) : p.context.Ready := by
  rw [h.unused.eq]
  exact .inl ⟨rfl, rfl⟩

theorem Parse.Begins.timeless (h : p.Begins) :
    p.context.timeless = { request := { version := p.context.request.version } } := by
  conv_lhs => rw [h.unused.eq]
  rfl

theorem Parse.Begins.receiveAll (h : p.Begins) (ms : List Chunk) :
    ∃ p' o, p.receiveAll ms = .ok p' ∧ Matches p.context (joined ms) p' o := by
  have hstart : Matches p.context [] p ⟨true, p.context.timeless, []⟩ :=
    ⟨rfl, h.ok, rfl, h.readable.symm, by rw [h.readable]; rfl⟩
  obtain ⟨p', o, hp', hmatch⟩ := receiveAll_matches h.ready hstart h.valid ms
  exact ⟨p', o, hp', by simpa using hmatch⟩

/-- Two ways to cut the same bytes, from contexts that are new or were reset. -/
theorem bytes_only (hp : p.Begins) (hq : q.Begins) (ms ms' : List Chunk)
    (hj : joined ms = joined ms') :
    ∃ p' q', p.receiveAll ms = .ok p' ∧ q.receiveAll ms' = .ok q' ∧ p'.Agrees q' ∧
      (p.context = q.context ∨ p'.context.state = .kGotAll →
        p'.context.request.version = q'.context.request.version) := by
  obtain ⟨p', o, hp', hmatch⟩ := hp.receiveAll ms
  obtain ⟨q', o', hq', hmatch'⟩ := hq.receiveAll ms'
  rw [← hj] at hmatch'
  have hreads := hmatch.reads
  have hreads' := hmatch'.reads
  rw [hp.timeless] at hreads
  rw [hq.timeless] at hreads'
  obtain ⟨o₁, ho₁, hok, hcons, hsame, u, hu⟩ := readLines_version _ q.context.request.version _ hreads
  rw [hreads'] at ho₁
  cases ho₁
  have hpo := hmatch.ends
  have hqo := hmatch'.ends
  rw [hu, ← hpo] at hqo
  have hfields : q'.context.timeless = { p'.context.timeless with
      request := p'.context.timeless.request.setVersion u } := hqo
  have hrequest := congrArg HttpContext.request hfields
  refine ⟨p', q', hp', hq', ⟨?_, ?_, ?_, ?_, ?_, ?_⟩, fun h => ?_⟩
  · rw [hmatch.ok, hmatch'.ok, hok]
  · exact (congrArg HttpContext.state hfields).symm
  · exact (congrArg HttpRequest.method hrequest).symm
  · exact (congrArg HttpRequest.path hrequest).symm
  · exact (congrArg HttpRequest.headers hrequest).symm
  · have htaken := hmatch'.taken
    rw [hcons] at htaken
    exact List.append_cancel_left (hmatch.taken.symm.trans htaken)
  · have ho : o' = o := by
      rcases h with heq | hgot
      · rw [heq] at hreads
        rw [hreads] at hreads'
        exact (Except.ok.inj hreads').symm
      · refine hsame ?_
        rw [← hpo]
        show p'.context.state ≠ _
        rw [hgot]
        simp
    have hversion : ∀ c : HttpContext, c.timeless.request.version = c.request.version := fun _ => rfl
    rw [← hversion p'.context, ← hversion q'.context, hpo, hmatch'.ends, ho]

/-- Cut in a CRLF and in the request line, from the context of a request of HTTP/1.1. -/
theorem bytes_only_cut : ∃ p' q',
    Parse.receiveAll { buf := Buffer.fresh, context := {} }
      [⟨text "PUT /a HTTP/1.0" ++ text "Host: b" ++ text "" ++ ascii "GET", 1⟩] = .ok p' ∧
    Parse.receiveAll
      { buf := Buffer.fresh, context := HttpContext.reset { request := { version := .kHttp11 } } }
      [⟨ascii "PUT /a HT", 2⟩, ⟨ascii "TP/1.0" ++ [13], 3⟩, ⟨[10], 4⟩,
        ⟨text "Host: b" ++ [13], 5⟩, ⟨[10] ++ ascii "G", 6⟩, ⟨ascii "ET", 7⟩] = .ok q' ∧
    p'.Agrees q' := by
  obtain ⟨p', q', hp', hq', hagrees, -⟩ := bytes_only
    (p := { buf := Buffer.fresh, context := {} })
    (q := { buf := Buffer.fresh, context := HttpContext.reset { request := { version := .kHttp11 } } })
    ⟨Buffer.fresh_valid, Buffer.fresh_readable, rfl, .inl rfl⟩
    ⟨Buffer.fresh_valid, Buffer.fresh_readable, rfl, .inr ⟨_, rfl⟩⟩
    [⟨text "PUT /a HTTP/1.0" ++ text "Host: b" ++ text "" ++ ascii "GET", 1⟩]
    [⟨ascii "PUT /a HT", 2⟩, ⟨ascii "TP/1.0" ++ [13], 3⟩, ⟨[10], 4⟩,
      ⟨text "Host: b" ++ [13], 5⟩, ⟨[10] ++ ascii "G", 6⟩, ⟨ascii "ET", 7⟩] (by decide +kernel)
  exact ⟨p', q', hp', hq', hagrees⟩

end Muduo
