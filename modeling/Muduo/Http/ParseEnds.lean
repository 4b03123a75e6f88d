import Muduo.Http.Pipelining

/-!
# The parse loop ends

The loop goes round without end in two states of the context, and neither is
ever handed to it. In the two others every round takes a line or is the last.
-/

namespace Muduo

open Lib

/-- The loop has something to look for. -/
def HttpContext.Expects (c : HttpContext) : Prop :=
  c.state = .kExpectRequestLine ∨ c.state = .kExpectHeaders

structure Parse.Going (p : Parse) : Prop where
  valid : p.buf.Valid
  expects : p.hasMore = true → p.context.Expects

/-- An assertion stops the loop, or the next round is the last or takes bytes. -/
def Parse.Shrinks (p : Parse) (r : Except HttpFault Parse) : Prop :=
  r = .error .setMethod ∨ ∃ p', r = .ok p' ∧ p'.Going ∧
    (p'.hasMore = true → p'.buf.readableBytes < p.buf.readableBytes)

variable {p : Parse}

-- ---------------------------------------------------------------------------
-- One round
-- ---------------------------------------------------------------------------

theorem processRequestLine_cases (line : Bytes) (context : HttpContext) :
    processRequestLine line context = .error .setMethod ∨
      ∃ ok c, processRequestLine line context = .ok (ok, c) ∧ c.state = context.state := by
  by_cases hm : context.request.method = .kInvalid
  · obtain ⟨ok, c, hc, hstate, -⟩ := processRequestLine_fresh line hm
    exact .inr ⟨ok, c, hc, hstate⟩
  · unfold processRequestLine
    dsimp only
    split
    · left
      simp only [HttpRequest.setMethod, ensure_false hm, error_bind]
    · exact .inr ⟨_, _, rfl, rfl⟩

theorem Parse.Going.requestLine (h : p.Going) (hs : p.context.state = .kExpectRequestLine)
    (receiveTime : Timestamp) : p.Shrinks (p.next receiveTime) := by
  unfold Parse.next
  simp only [hs]
  cases hsearch : search Buffer.kCRLF p.buf.readable with
  | none =>
    simp only [Buffer.findCRLF_none hsearch]
    exact .inr ⟨_, rfl, ⟨h.valid, nofun⟩, nofun⟩
  | some i =>
    obtain ⟨hfind, hline, buf, hbuf, hv, -, hlt⟩ := Buffer.findCRLF_some h.valid hsearch
    simp only [hfind, hline]
    obtain hfault | ⟨ok, c, hc, -⟩ := processRequestLine_cases (p.buf.readable.take i) p.context
    · left
      rw [hfault, error_bind]
    · right
      simp only [hc, ok_bind, hbuf, HttpFault.onBuffer_ok]
      cases ok with
      | true => exact ⟨_, rfl, ⟨hv, fun _ => .inr rfl⟩, fun _ => Nat.lt_of_succ_lt hlt⟩
      | false => exact ⟨_, rfl, ⟨h.valid, nofun⟩, nofun⟩

theorem Parse.Going.headers (h : p.Going) (hs : p.context.state = .kExpectHeaders)
    (receiveTime : Timestamp) : p.Shrinks (p.next receiveTime) := by
  unfold Parse.next
  simp only [hs]
  right
  cases hsearch : search Buffer.kCRLF p.buf.readable with
  | none =>
    simp only [Buffer.findCRLF_none hsearch]
    exact ⟨_, rfl, ⟨h.valid, nofun⟩, nofun⟩
  | some i =>
    obtain ⟨hfind, hline, buf, hbuf, hv, -, hlt⟩ := Buffer.findCRLF_some h.valid hsearch
    simp only [hfind, hline]
    split
    · simp only [hbuf, HttpFault.onBuffer_ok, ok_bind]
      exact ⟨_, rfl, ⟨hv, fun _ => .inr rfl⟩, fun _ => Nat.lt_of_succ_lt hlt⟩
    · simp only [hbuf, HttpFault.onBuffer_ok, ok_bind]
      exact ⟨_, rfl, ⟨hv, by simp [HttpContext.receiveHeaders]⟩, fun _ => Nat.lt_of_succ_lt hlt⟩

theorem Parse.Going.next (h : p.Going) (hmore : p.hasMore = true) (receiveTime : Timestamp) :
    p.Shrinks (p.next receiveTime) := by
  rcases h.expects hmore with hs | hs
  · exact h.requestLine hs receiveTime
  · exact h.headers hs receiveTime

-- ---------------------------------------------------------------------------
-- The loop
-- ---------------------------------------------------------------------------

/-- By induction on the rounds allowed, of which the bytes need no more than one
each. -/
theorem parseLoop_ends {fuel fuel' : Nat} {p : Parse} (h : p.Going)
    (hfuel : p.buf.readableBytes < fuel) (hfuel' : p.buf.readableBytes < fuel')
    (receiveTime : Timestamp) :
    parseLoop receiveTime fuel p = parseLoop receiveTime fuel' p ∧
      parseLoop receiveTime fuel p ≠ .error .endless := by
  induction fuel generalizing p fuel' with
  | zero => exact absurd hfuel (Nat.not_lt_zero _)
  | succ fuel ih =>
    cases fuel' with
    | zero => exact absurd hfuel' (Nat.not_lt_zero _)
    | succ fuel' =>
      cases hmore : p.hasMore with
      | false =>
        rw [parseLoop_done hmore, parseLoop_done hmore]
        exact ⟨rfl, by simp⟩
      | true =>
        unfold parseLoop
        simp only [hmore, if_true]
        obtain hfault | ⟨p', hp', hgoing, hlt⟩ := h.next hmore receiveTime
        · rw [hfault, error_bind, error_bind]
          exact ⟨rfl, by simp⟩
        · rw [hp', ok_bind, ok_bind]
          cases hmore' : p'.hasMore with
          | false =>
            rw [parseLoop_done hmore', parseLoop_done hmore']
            exact ⟨rfl, by simp⟩
          | true =>
            have hless := hlt hmore'
            exact ih hgoing (by omega) (by omega)

-- ---------------------------------------------------------------------------
-- Runs
-- ---------------------------------------------------------------------------

namespace HttpConnection

variable {c : HttpConnection}

theorem Inv.expects (h : Inv c) : c.context.Expects := by
  by_cases hrep : c.Replied400
  · exact .inl (h.held hrep).1
  · exact (h.clean hrep).imp_left And.left

/-- Whatever came before, `parseRequest` is called in one of the two states, and in
these it ends: more rounds than there are bytes make no difference. -/
theorem parse_ends (h : machine.Run {} chunks c) :
    c.context.Expects ∧
    ∀ {buf : Buffer} {context : HttpContext} (receiveTime : Timestamp), buf.Valid →
      context.Expects → parseRequest buf context receiveTime ≠ .error .endless ∧
        ∀ fuel, buf.readableBytes < fuel →
          parseLoop receiveTime fuel { buf, context } = parseRequest buf context receiveTime := by
  refine ⟨(h.keeps inv_keeps start_inv).expects, fun receiveTime hv he => ?_⟩
  have hgoing : Parse.Going { buf := _, context := _ } := ⟨hv, fun _ => he⟩
  refine ⟨(parseLoop_ends hgoing (Nat.lt_succ_self _) (Nat.lt_succ_self _) receiveTime).2,
    fun fuel hfuel => ?_⟩
  exact (parseLoop_ends hgoing hfuel (Nat.lt_succ_self _) receiveTime).1

/-- A request and a half, and a line that is rejected. -/
theorem parse_ends_rejected : ∃ c, machine.Run {}
    [⟨text "GET / HTTP/1.1" ++ text "Host: a" ++ text "" ++ text "PUT /x HTTP/1.0", 1⟩,
      ⟨text "a: b", 2⟩, ⟨text "" ++ text "GRAB", 3⟩, ⟨text "", 4⟩] c ∧ c.context.Expects ∧
    parseRequest Buffer.fresh c.context 5 ≠ .error .endless := by
  obtain ⟨c, h, -⟩ : ∃ c, machine.Run {}
      [⟨text "GET / HTTP/1.1" ++ text "Host: a" ++ text "" ++ text "PUT /x HTTP/1.0", 1⟩,
        ⟨text "a: b", 2⟩, ⟨text "" ++ text "GRAB", 3⟩, ⟨text "", 4⟩] c ∧ c.Replied400 :=
    Machine.exists_run (by decide +kernel)
  obtain ⟨hexpects, hends⟩ := parse_ends h
  exact ⟨c, h, hexpects, (hends 5 Buffer.fresh_valid hexpects).1⟩

end HttpConnection

end Muduo
