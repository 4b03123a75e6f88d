import Muduo.Http.ParseLines

/-!
# Where the headers end

The headers end at the first line without a colon, whatever else is in it.
-/

namespace Muduo

open Lib

/-- Made of lines, of which the last one is empty and no other. -/
def EndsHeaders (bytes : Bytes) : Prop :=
  ∃ pre, [] ∉ pre ∧ linesOf bytes = pre ++ [[]] ∧ bytes = unlines Buffer.kCRLF (pre ++ [[]])

theorem Matches.linesOf_consumed (h : Matches context bytes p o) :
    linesOf (unlines Buffer.kCRLF o.consumed) = o.consumed := by
  have hlines := lines_unlines kCRLF_ne_nil h.isLine []
  rwa [List.append_nil, lines_none (search_nil kCRLF_ne_nil), List.append_nil] at hlines

/-- A parse that has got all has consumed an empty line last, exactly if the
first header line without a colon is empty. -/
theorem framing_iff {buf : Buffer} {context : HttpContext} (hv : buf.Valid)
    (hr : context.Ready) (receiveTime : Timestamp) :
    (∀ p, parseRequest buf context receiveTime = .ok p → p.context.state = .kGotAll →
      ∃ consumed, buf.readable = consumed ++ p.buf.readable ∧ EndsHeaders consumed) ↔
    ∀ line, (headerLines context.state (linesOf buf.readable)).find? bare = some line →
      line = [] := by
  obtain ⟨p, o, hp, -, hmatch⟩ := parseRequest_matches hv hr receiveTime
  obtain ⟨o', rest, hread, -, hreading⟩ := readLines_ready (c := context.timeless) hr
    (linesOf buf.readable)
  rw [hmatch.reads] at hread
  cases hread
  have hstate : p.context.state = o.context.state := by
    rw [← hmatch.ends]
    rfl
  constructor
  · intro hall line hline
    have hcompletes : Completes context.state (linesOf buf.readable) :=
      ⟨line, List.mem_of_find?_eq_some hline, List.find?_some hline⟩
    cases hreading with
    | rejected _ _ hnot => exact absurd hcompletes hnot
    | waiting _ _ _ hnot => exact absurd hcompletes hnot
    | complete pre line' _ hs hfind hcons _ _ =>
      obtain rfl := Option.some.inj (hline.symm.trans hfind)
      obtain ⟨consumed, hbytes, pre', -, hlines, -⟩ := hall p hp (hstate.trans hs)
      have hconsumed : unlines Buffer.kCRLF o.consumed = consumed :=
        List.append_cancel_right (hmatch.taken.symm.trans hbytes)
      rw [← hconsumed, hmatch.linesOf_consumed, hcons] at hlines
      exact (List.append_inj_right' hlines rfl |> List.singleton_inj.mp)
  · intro hempty q hq hgot
    rw [hp] at hq
    cases hq
    cases hreading with
    | rejected _ hs _ =>
      rw [hstate, hs] at hgot
      cases hgot
    | waiting _ hready _ _ =>
      rw [hstate] at hgot
      rcases hready with ⟨hs, -⟩ | hs
      · rw [hs] at hgot
        cases hgot
      · rw [hs] at hgot
        cases hgot
    | complete pre line _ _ hfind hcons hpre _ =>
      obtain rfl := hempty line hfind
      have hlines := hmatch.linesOf_consumed
      rw [hcons] at hlines
      exact ⟨_, hcons ▸ hmatch.taken, pre, hpre, hlines, rfl⟩

open HttpConnection (text)

/-- A request and the beginning of the next one. -/
theorem framing_iff_host : ∃ buf, buf.readable =
      text "GET / HTTP/1.1" ++ text "Host: a" ++ text "" ++ ascii "GET /b" ∧
    ∀ p, parseRequest buf {} 1 = .ok p → p.context.state = .kGotAll →
      ∃ consumed, buf.readable = consumed ++ p.buf.readable ∧ EndsHeaders consumed := by
  obtain ⟨buf, -, hv, hr⟩ := Buffer.append_ok Buffer.fresh_valid
    (text "GET / HTTP/1.1" ++ text "Host: a" ++ text "" ++ ascii "GET /b")
  refine ⟨buf, by rw [hr, Buffer.fresh_readable]; rfl,
    (framing_iff hv (.inl ⟨rfl, rfl⟩) 1).mpr fun line hline => ?_⟩
  have hfind : (headerLines .kExpectRequestLine (linesOf (Buffer.fresh.readable ++
      (text "GET / HTTP/1.1" ++ text "Host: a" ++ text "" ++ ascii "GET /b")))).find? bare =
        some [] := by decide +kernel
  rw [hr] at hline
  exact Option.some.inj (hline.symm.trans hfind)

/-- A header line without a colon. -/
theorem framing_bare : ∃ buf p, Buffer.fresh.append
      (text "GET / HTTP/1.1" ++ text "Hidden" ++ text "PUT /x HTTP/1.1" ++ text "") = .ok buf ∧
    parseRequest buf {} 1 = .ok p ∧ p.context.state = .kGotAll ∧
    ¬∃ consumed, buf.readable = consumed ++ p.buf.readable ∧ EndsHeaders consumed := by
  have hrun : ∃ buf, Buffer.fresh.append
        (text "GET / HTTP/1.1" ++ text "Hidden" ++ text "PUT /x HTTP/1.1" ++ text "") = .ok buf ∧
      ∃ p, parseRequest buf {} 1 = .ok p ∧ p.context.state = .kGotAll ∧
        buf.readable = (text "GET / HTTP/1.1" ++ text "Hidden") ++ p.buf.readable := by
    decide +kernel
  obtain ⟨buf, hbuf, p, hp, hgot, hbytes⟩ := hrun
  refine ⟨buf, p, hbuf, hp, hgot, ?_⟩
  rintro ⟨consumed, hconsumed, pre, -, hlines, -⟩
  obtain rfl := List.append_cancel_right (hbytes.symm.trans hconsumed)
  have hlast : (linesOf (text "GET / HTTP/1.1" ++ text "Hidden")).getLast? =
      some (ascii "Hidden") := by decide +kernel
  rw [hlines, List.getLast?_append] at hlast
  cases hlast

end Muduo
