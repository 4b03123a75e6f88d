import Muduo.Http.RequestLines

/-!
# The grammar of request lines

A line is taken if it has the form that the code looks for, and only then. The
method comes out as it went in unless it is `PUT`.
-/

namespace Muduo

open Lib

def HttpRequest.Version.text : HttpRequest.Version → Bytes
  | .kUnknow => []
  | .kHttp10 => ascii "HTTP/1.0"
  | .kHttp11 => ascii "HTTP/1.1"

structure RequestLine (line method path version : Bytes) : Prop where
  line : line = method ++ [32] ++ (path ++ [32] ++ version)
  method : method ∈ methods
  path : 32 ∉ path
  version : version = ascii "HTTP/1.0" ∨ version = ascii "HTTP/1.1"

variable {line method path version : Bytes} {context : HttpContext}

-- ---------------------------------------------------------------------------
-- Methods and versions
-- ---------------------------------------------------------------------------

theorem methodOf_ne_kInvalid (h : method ∈ methods) : HttpRequest.methodOf method ≠ .kInvalid :=
  fun hk => methodOf_eq_kInvalid.mp hk h

/-- A `PUT` reads as `HEAD`. -/
theorem methodString_methodOf {r : HttpRequest} (h : method ∈ methods)
    (hr : r.method = HttpRequest.methodOf method) :
    r.methodString = method ↔ method ≠ ascii "PUT" := by
  rw [HttpRequest.methodString, hr]
  simp only [methods, List.mem_cons, List.not_mem_nil, or_false] at h
  obtain rfl | rfl | rfl | rfl | rfl := h <;> decide

theorem processVersion_known (r : HttpRequest)
    (h : version = ascii "HTTP/1.0" ∨ version = ascii "HTTP/1.1") :
    ∃ v : HttpRequest.Version, v.text = version ∧ processVersion version r = (true, r.setVersion v) := by
  rcases h with rfl | rfl
  · exact ⟨.kHttp10, rfl, rfl⟩
  · exact ⟨.kHttp11, rfl, rfl⟩

theorem processVersion_true {r : HttpRequest} (h : (processVersion version r).1 = true) :
    version = ascii "HTTP/1.0" ∨ version = ascii "HTTP/1.1" := by
  unfold processVersion at h
  split at h
  · rename_i hform
    obtain ⟨hlength, hstart⟩ := hform
    have hlast : version = version.take 7 ++ [version.getLastD 0] := by
      have hne : version ≠ [] := List.ne_nil_of_length_pos (by omega)
      have hdrop := List.dropLast_concat_getLast hne
      rw [List.dropLast_eq_take, hlength] at hdrop
      rw [List.getLastD_eq_getLast?, List.getLast?_eq_some_getLast hne]
      exact hdrop.symm
    rw [hstart] at hlast
    split at h
    · rename_i v hv
      unfold versionOf at hv
      split at hv
      · rename_i hone
        rw [hone] at hlast
        exact .inr hlast
      · split at hv
        · rename_i hzero
          rw [hzero] at hlast
          exact .inl hlast
        · cases hv
    · cases h
  · cases h

-- ---------------------------------------------------------------------------
-- Lines
-- ---------------------------------------------------------------------------

theorem processRequestLine_ok (h : RequestLine line method path version)
    (hm : context.request.method = .kInvalid) :
    ∃ c, processRequestLine line context = .ok (true, c) ∧
      c.request.method = HttpRequest.methodOf method ∧ c.request.path = path ∧
      c.request.version.text = version ∧ c.request.headers = context.request.headers := by
  have hspace := space_not_mem method h.method
  have hfirst : line.idxOf 32 = method.length := by
    rw [h.line, List.append_assoc]
    exact idxOf_append_cons hspace _
  have hrest : line.drop (method.length + 1) = path ++ [32] ++ version := by
    rw [h.line, ← List.drop_drop, List.append_assoc, List.drop_left]
    rfl
  have hsecond : (path ++ [32] ++ version).idxOf 32 = path.length := by
    rw [List.append_assoc]
    exact idxOf_append_cons h.path _
  have htake : line.take method.length = method := by
    rw [h.line, List.append_assoc, List.take_left]
  have hpath : (path ++ [32] ++ version).take path.length = path := by
    rw [List.append_assoc, List.take_left]
  have hversion : (path ++ [32] ++ version).drop (path.length + 1) = version := by
    rw [← List.drop_drop, List.append_assoc, List.drop_left]
    rfl
  have hlong : method.length ≠ line.length := by
    rw [h.line]
    simp
  have hlong' : path.length ≠ (path ++ [32] ++ version).length := by simp
  obtain ⟨v, hv, hprocess⟩ := processVersion_known
    ({ context.request with method := HttpRequest.methodOf method }.setPath path) h.version
  refine ⟨{ context with request := ({ context.request with
    method := HttpRequest.methodOf method }.setPath path).setVersion v }, ?_, rfl, rfl, hv, rfl⟩
  unfold processRequestLine
  simp only [hfirst, htake, hrest, hsecond, hpath, hversion, if_pos hlong, if_pos hlong',
    HttpRequest.setMethod, ensure_bind hm, pure_bind, decide_eq_true (methodOf_ne_kInvalid h.method),
    if_true, hprocess]
  rfl

theorem requestLine_of_ok (h : processRequestLine line context = .ok (true, c)) :
    ∃ method path version, RequestLine line method path version := by
  unfold processRequestLine at h
  dsimp only at h
  split at h
  · rename_i hspace
    obtain ⟨⟨known, request⟩, hset, h⟩ := bind_ok.mp h
    obtain ⟨_, -, hset⟩ := bind_ok.mp hset
    cases hset
    split at h
    · rename_i hknown
      have hmethod : line.take (line.idxOf 32) ∈ methods :=
        not_not.mp fun hn => of_decide_eq_true hknown (methodOf_eq_kInvalid.mpr hn)
      split at h
      · rename_i hspace'
        have hversion := congrArg (fun r => (Except.toOption r).map Prod.fst) h
        let rest := line.drop (line.idxOf 32 + 1)
        refine ⟨_, rest.take (rest.idxOf 32), _, ?_, hmethod, fun hmem => ?_,
          processVersion_true (Option.some.inj hversion)⟩
        · rw [List.append_assoc, List.append_assoc, List.singleton_append, List.singleton_append,
            take_idxOf hspace', take_idxOf hspace]
        · have hlt := (List.mem_take_iff_idxOf_lt (List.mem_of_mem_take hmem)).mp hmem
          exact Nat.lt_irrefl _ hlt
      · cases h
    · cases h
  · cases h

/-- The line is taken if it is of the grammar, and the request then has what it
says. -/
structure Inverts (line : Bytes) (context : HttpContext) : Prop where
  taken : ∃ ok c, processRequestLine line context = .ok (ok, c) ∧
    (ok = true ↔ ∃ method path version, RequestLine line method path version)
  request : ∀ {ok c method path version}, processRequestLine line context = .ok (ok, c) →
    RequestLine line method path version → c.request.methodString = method ∧
      c.request.path = path ∧ c.request.version.text = version

/-- The grammar is met on every line, and what it says comes out of the request,
exactly if the line is no `PUT`. -/
theorem grammar_iff (hm : context.request.method = .kInvalid) : Inverts line context ↔
    ¬∃ path version, RequestLine line (ascii "PUT") path version := by
  constructor
  · rintro h ⟨path, version, hline⟩
    obtain ⟨c, hc, hmethod, -⟩ := processRequestLine_ok hline hm
    exact (methodString_methodOf hline.method hmethod).mp (h.request hc hline).1 rfl
  · intro hput
    refine ⟨?_, fun {ok c method path version} hc hline => ?_⟩
    · obtain ⟨ok, c, hc, -⟩ := processRequestLine_fresh line hm
      refine ⟨ok, c, hc, fun htrue => requestLine_of_ok (htrue ▸ hc), ?_⟩
      rintro ⟨method, path, version, hline⟩
      obtain ⟨c', hc', -⟩ := processRequestLine_ok hline hm
      rw [hc] at hc'
      cases hc'
      rfl
    · obtain ⟨c', hc', hmethod, hpath, hversion, -⟩ := processRequestLine_ok hline hm
      rw [hc] at hc'
      cases hc'
      refine ⟨(methodString_methodOf hline.method hmethod).mpr ?_, hpath, hversion⟩
      rintro rfl
      exact hput ⟨path, version, hline⟩

/-- An empty path. -/
theorem grammar_iff_get : Inverts (ascii "GET  HTTP/1.1") {} :=
  (grammar_iff rfl).mpr (by
    rintro ⟨path, version, hline⟩
    have hhead : some (71 : UInt8) = some 80 := congrArg List.head? hline.line
    exact absurd hhead (by decide))

/-- A `PUT` comes out as a `HEAD`. -/
theorem grammar_put : ¬Inverts (ascii "PUT /a HTTP/1.0") {} := by
  intro h
  have hline : RequestLine (ascii "PUT /a HTTP/1.0") (ascii "PUT") (ascii "/a")
      (ascii "HTTP/1.0") := ⟨rfl, by decide, by decide, .inl rfl⟩
  obtain ⟨c, hc, hmethod⟩ : ∃ c, processRequestLine (ascii "PUT /a HTTP/1.0") {} = .ok (true, c) ∧
      c.request.methodString = ascii "HEAD" := ⟨_, rfl, rfl⟩
  have hput := (h.request hc hline).1
  rw [hmethod] at hput
  exact absurd hput (by decide)

end Muduo
