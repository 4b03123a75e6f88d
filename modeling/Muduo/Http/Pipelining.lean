import Muduo.Http.Chunking

/-!
# Requests that wait

`onMessage` answers one request for each chunk. A second request that is complete
in the same chunk stays in the buffer until something else comes.
-/

namespace Muduo

open Lib

-- ---------------------------------------------------------------------------
-- The requests of a stream
-- ---------------------------------------------------------------------------

/-- The requests that the lines complete, one after the other, as far as the
request lines are accepted. -/
def requests (c : HttpContext) : List Bytes → List HttpRequest
  | [] => []
  | line :: rest =>
    match c.state with
    | .kExpectRequestLine =>
      match processRequestLine line c with
      | .ok (true, c) => requests c.receiveRequestLine rest
      | _ => []
    | .kExpectHeaders =>
      if bare line then c.request :: requests c.receiveHeaders.reset rest
      else requests { c with request := c.request.addHeader line (line.idxOf 58) } rest
    | _ => []

variable {p : Parse} {o : Parsed}

theorem requests_reads {c : HttpContext} {ls : List Bytes} (h : readLines c ls = .ok o)
    (ms : List Bytes) :
    (o.ok = false → requests c (ls ++ ms) = []) ∧
    (o.ok = true → o.context.state = .kGotAll → c.state ≠ .kGotAll →
      requests c (o.consumed ++ ms) = o.context.request :: requests o.context.reset ms) ∧
    (o.ok = true → o.context.Ready → requests c (ls ++ ms) = requests o.context ms) := by
  induction ls generalizing c o with
  | nil =>
    cases h
    exact ⟨by simp, fun _ hgot hc => absurd hgot hc, fun _ _ => rfl⟩
  | cons line ls ih =>
    unfold readLines at h
    cases hs : c.state with
    | kExpectRequestLine =>
      simp only [hs] at h
      obtain ⟨⟨ok, c'⟩, hproc, h⟩ := bind_ok.mp h
      cases ok with
      | true =>
        obtain ⟨o', ho', h⟩ := bind_ok.mp h
        cases pure_ok.mp h
        obtain ⟨hrejected, hcomplete, hwaiting⟩ := ih ho'
        simp only [Parsed.behind, List.cons_append, requests, hs, hproc]
        exact ⟨hrejected, fun hok hgot _ => hcomplete hok hgot (by simp [HttpContext.receiveRequestLine]),
          hwaiting⟩
      | false =>
        cases pure_ok.mp h
        simp only [List.cons_append, requests, hs, hproc]
        exact ⟨by simp, by simp, by simp⟩
    | kExpectHeaders =>
      simp only [hs] at h
      split at h
      · rename_i hb
        cases h
        refine ⟨by simp, fun _ _ _ => ?_, by simp [HttpContext.Ready, HttpContext.receiveHeaders]⟩
        simp only [List.singleton_append, requests, hs, if_pos hb]
        rfl
      · rename_i hb
        obtain ⟨o', ho', h⟩ := bind_ok.mp h
        cases pure_ok.mp h
        obtain ⟨hrejected, hcomplete, hwaiting⟩ := ih ho'
        simp only [Parsed.behind, List.cons_append, requests, hs, if_neg hb]
        exact ⟨hrejected, fun hok hgot _ => hcomplete hok hgot (by simp), hwaiting⟩
    | kExpectBody =>
      simp only [hs] at h
      cases h
      refine ⟨by simp, ?_, ?_⟩
      · rw [hs]
        exact fun _ hgot => by cases hgot
      · simp [HttpContext.Ready, hs]
    | kGotAll =>
      simp only [hs] at h
      cases h
      exact ⟨by simp, fun _ _ hc => absurd rfl hc, by simp [HttpContext.Ready, hs]⟩

theorem requests_incomplete {c : HttpContext} {ls : List Bytes} (hr : c.Ready)
    (hn : ¬Completes c.state ls) : requests c ls = [] := by
  obtain ⟨o, rest, hread, -, hreading⟩ := readLines_ready hr ls
  obtain ⟨hrejected, -, hwaiting⟩ := requests_reads hread []
  rw [List.append_nil] at hrejected hwaiting
  cases hreading with
  | rejected hok => exact hrejected hok
  | waiting hok hready => exact hwaiting hok hready
  | complete _ line _ _ hfind =>
    exact absurd ⟨line, List.mem_of_find?_eq_some hfind, List.find?_some hfind⟩ hn

theorem namesMethod_of_accepts {line : Bytes} (h : accepts line = true) : NamesMethod line := by
  have hm : ({} : HttpContext).request.method = .kInvalid := rfl
  obtain ⟨ok, d, hd, -, hnamed, -⟩ := processRequestLine_fresh line hm
  rw [accepts, hd] at h
  exact hnamed h

theorem behind_incomplete {state : HttpContext.HttpRequestParseState} {ls : List Bytes}
    (h : ¬Completes state ls) : behind state ls = [] := by
  have hall : (headerLines state ls).dropWhile (! bare ·) = [] := by
    rw [List.dropWhile_eq_nil_iff]
    intro l hl
    cases hb : bare l with
    | true => exact absurd ⟨l, hl, hb⟩ h
    | false => rfl
  rw [behind, hall]
  rfl

-- ---------------------------------------------------------------------------
-- Runs
-- ---------------------------------------------------------------------------

namespace HttpConnection

variable {c c' : HttpConnection}

def Action.request : Action → Option HttpRequest
  | .onRequest request => some (request.setReceiveTime 0)
  | _ => none

/-- The requests that were answered, the receive time left out. -/
def answered (c : HttpConnection) : List HttpRequest := c.actions.filterMap Action.request

/-- After a chunk without an error, no complete request is in the buffer. -/
def NoneWaiting (c : HttpConnection) : Prop :=
  ¬c.Replied400 → ¬Completes c.context.state (linesOf c.buf.readable)

/-- Behind the request that the chunk completes there is no other that is complete. -/
def OneAtATime (c : HttpConnection) (m : Chunk) : Prop :=
  ¬Completes .kExpectRequestLine (behind c.context.state (linesOf (c.buf.readable ++ m.bytes)))

instance (c : HttpConnection) (m : Chunk) : Decidable (c.OneAtATime m) :=
  inferInstanceAs (Decidable (¬_))

theorem oneAtATime_incomplete {m : Chunk}
    (h : ¬Completes c.context.state (linesOf (c.buf.readable ++ m.bytes))) : c.OneAtATime m := by
  unfold OneAtATime
  rw [behind_incomplete h]
  simp [Completes, headerLines]

theorem step_ok {m : Chunk} (h : Inv c) (hstep : machine.step c m = .ok c') :
    ∃ buf p, buf.Valid ∧ buf.readable = c.buf.readable ++ m.bytes ∧
      parseRequest buf c.context m.receiveTime = .ok p ∧
      { c with buf }.onMessage m.receiveTime = .ok c' := by
  obtain ⟨buf, hbuf, hv, hr⟩ := Buffer.readFd_data h.valid m.bytes
  have hstep' : machine.step c m = { c with buf }.onMessage m.receiveTime := by
    simp only [machine, step, hbuf]
    rfl
  rw [hstep'] at hstep
  obtain ⟨p, hp, -⟩ := bind_ok.mp hstep
  exact ⟨buf, p, hv, hr, hp, hstep⟩

theorem onMessage_failed {p : Parse} (hp : parseRequest c.buf c.context t = .ok p)
    (hok : p.ok = false) (h : c.onMessage t = .ok c') : c'.Replied400 := by
  simp only [onMessage, hp, ok_bind, hok, Bool.false_eq_true, if_false] at h
  split at h
  · cases pure_ok.mp h
    exact ⟨.send badRequest, by simp [act], by simp [Action.isBadRequest]⟩
  · cases pure_ok.mp h
    exact ⟨.send badRequest, by simp [act], by simp [Action.isBadRequest]⟩

theorem onMessage_complete {p : Parse} (hp : parseRequest c.buf c.context t = .ok p)
    (hok : p.ok = true) (hgot : p.context.state = .kGotAll) (h : c.onMessage t = .ok c') :
    c' = ⟨p.buf, p.context.reset, c.actions ++ [.onRequest p.context.request]⟩ := by
  simp only [onMessage, hp, ok_bind, hok, if_true, hgot] at h
  exact (pure_ok.mp h).symm

theorem onMessage_waiting {p : Parse} (hp : parseRequest c.buf c.context t = .ok p)
    (hok : p.ok = true) (hgot : p.context.state ≠ .kGotAll) (h : c.onMessage t = .ok c') :
    c' = ⟨p.buf, p.context, c.actions⟩ := by
  simp only [onMessage, hp, ok_bind, hok, if_true, if_neg hgot] at h
  exact (pure_ok.mp h).symm

theorem replied400_append {a : Action} (ha : Action.isBadRequest a = false)
    (hc : c'.actions = c.actions ++ [a]) : c'.Replied400 ↔ c.Replied400 := by
  simp only [Replied400, hc, List.mem_append, List.mem_singleton]
  constructor
  · rintro ⟨b, hb | rfl, hbad⟩
    · exact ⟨b, hb, hbad⟩
    · rw [ha] at hbad
      cases hbad
  · rintro ⟨b, hb, hbad⟩
    exact ⟨b, .inl hb, hbad⟩

/-- What is left when a chunk was taken in without an error before it. -/
inductive Step (c : HttpConnection) (m : Chunk) (c' : HttpConnection) : Prop
  | failed : c'.Replied400 →
      ¬Completes c.context.state (linesOf (c.buf.readable ++ m.bytes)) → Step c m c'
  | waiting (o : Parsed) : ¬c'.Replied400 → answered c' = answered c → o.ok = true →
      readLines c.context.timeless (linesOf (c.buf.readable ++ m.bytes)) = .ok o →
      o.context = c'.context.timeless → o.context.Ready →
      (∀ x, linesOf (c.buf.readable ++ m.bytes ++ x) =
        o.consumed ++ linesOf (c'.buf.readable ++ x)) → linesOf c'.buf.readable = [] →
      ¬Completes c.context.state (linesOf (c.buf.readable ++ m.bytes)) → Step c m c'
  | complete (o : Parsed) : ¬c'.Replied400 →
      answered c' = answered c ++ [o.context.request] → o.ok = true →
      readLines c.context.timeless (linesOf (c.buf.readable ++ m.bytes)) = .ok o →
      o.context.state = .kGotAll → c'.context.timeless = o.context.reset →
      (∀ x, linesOf (c.buf.readable ++ m.bytes ++ x) =
        o.consumed ++ linesOf (c'.buf.readable ++ x)) →
      linesOf c'.buf.readable =
        behind c.context.state (linesOf (c.buf.readable ++ m.bytes)) → Step c m c'

theorem step_cases {m : Chunk} (h : Inv c) (hn : ¬c.Replied400)
    (hstep : machine.step c m = .ok c') : Step c m c' := by
  obtain ⟨buf, p, hv, hr, hp, hmsg⟩ := step_ok h hstep
  have hready : c.context.Ready := h.clean hn
  obtain ⟨p', o, hp', -, hmatch⟩ := parseRequest_matches hv hready m.receiveTime
  rw [hp] at hp'
  cases hp'
  rw [hr] at hmatch
  obtain ⟨o', rest, hread, hrest, hreading⟩ := readLines_ready (c := c.context.timeless) hready
    (linesOf (c.buf.readable ++ m.bytes))
  rw [hmatch.reads] at hread
  cases hread
  have hleft : linesOf p.buf.readable = rest := List.append_cancel_left (hmatch.lines.symm.trans hrest)
  have hstate : p.context.state = o.context.state := by
    rw [← hmatch.ends]
    rfl
  cases hreading with
  | rejected hok hs hnot =>
    exact .failed (onMessage_failed (c := { c with buf }) hp (hmatch.ok.trans hok) hmsg) hnot
  | waiting hok hr' hnil hnot =>
    have hgot : p.context.state ≠ .kGotAll := by
      rw [hstate]
      rcases hr' with ⟨hs, -⟩ | hs
      · simp [hs]
      · simp [hs]
    obtain rfl := onMessage_waiting (c := { c with buf }) hp (hmatch.ok.trans hok) hgot hmsg
    exact .waiting o hn rfl hok hmatch.reads hmatch.ends.symm hr' hmatch.linesOf_append
      (hleft.trans hnil) hnot
  | complete pre line hok hs _ _ _ hbehind =>
    obtain rfl := onMessage_complete (c := { c with buf }) hp (hmatch.ok.trans hok)
      (hstate.trans hs) hmsg
    refine .complete o ?_ ?_ hok hmatch.reads hs ?_ hmatch.linesOf_append (hleft.trans hbehind)
    · rw [replied400_append (c := c) (a := .onRequest p.context.request) rfl rfl]
      exact hn
    · rw [answered, List.filterMap_append, ← hmatch.ends]
      rfl
    · rw [← hmatch.ends]
      rfl

theorem step_replied400 {m : Chunk} (h : Inv c) (hn : c.Replied400)
    (hstep : machine.step c m = .ok c') :
    c'.Replied400 ∧ ¬Completes c.context.state (linesOf (c.buf.readable ++ m.bytes)) := by
  obtain ⟨buf, p, hv, hr, hp, hmsg⟩ := step_ok h hstep
  obtain ⟨hs, i, hi, -, htake, hm⟩ := held_append (h.held hn) hr
  by_cases hnamed : NamesMethod (c.buf.readable.take i)
  · have hfault := parseRequest_named hv hs (fun hk => hm.mp hk hnamed) hi (htake ▸ hnamed)
      m.receiveTime
    rw [hp] at hfault
    cases hfault
  · obtain ⟨p', hp', -, hok⟩ :=
      parseRequest_unnamed hv hs (hm.mpr hnamed) hi (htake ▸ hnamed) m.receiveTime
    rw [hp] at hp'
    cases hp'
    refine ⟨onMessage_failed (c := { c with buf }) hp hok hmsg, ?_⟩
    have hnot : accepts (c.buf.readable.take i) = false :=
      Bool.eq_false_iff.mpr fun ha => hnamed (namesMethod_of_accepts ha)
    rw [hr] at hi htake
    rw [linesOf, lines_some kCRLF_ne_nil hi, htake, hs]
    simp [Completes, headerLines, hnot]

theorem inv_keeps : machine.Keeps Inv := by
  intro c m c' h ha hstep
  have hdec := step_decides h ha
  by_cases hc : c.Rejected
  · exact absurd hstep (hdec.fault (not_not.mpr hc) c')
  · obtain ⟨t, ht, hi⟩ := hdec.ok hc
    rw [hstep] at ht
    cases ht
    exact hi

theorem noneWaiting_iff {m : Chunk} (h : Inv c) (hstep : machine.step c m = .ok c') :
    NoneWaiting c' ↔ c.OneAtATime m := by
  by_cases hn : c.Replied400
  · obtain ⟨hn', hnot⟩ := step_replied400 h hn hstep
    exact iff_of_true (fun hc => absurd hn' hc) (oneAtATime_incomplete hnot)
  · cases step_cases h hn hstep with
    | failed hn' hnot => exact iff_of_true (fun hc => absurd hn' hc) (oneAtATime_incomplete hnot)
    | waiting o _ _ _ _ _ _ _ hnil hnot =>
      refine iff_of_true (fun _ => ?_) (oneAtATime_incomplete hnot)
      rw [hnil]
      cases c'.context.state <;> simp [Completes, headerLines]
    | complete o hn' _ _ _ _ hreset _ hbehind =>
      have hstate : c'.context.state = .kExpectRequestLine := congrArg HttpContext.state hreset
      unfold NoneWaiting OneAtATime
      rw [hstate, hbehind]
      exact forall_prop_of_true hn'

theorem run_replied400 (h : machine.Run c chunks c') (hi : Inv c) (hn : c.Replied400) :
    c'.Replied400 := by
  induction h with
  | nil => exact hn
  | cons ha hstep _ ih => exact ih (inv_keeps hi ha hstep) (step_replied400 hi hn hstep).1

def Accounts (c : HttpConnection) (received : Bytes) : Prop :=
  ∀ x, requests {} (linesOf (received ++ x)) =
    answered c ++ requests c.context.timeless (linesOf (c.buf.readable ++ x))

theorem Accounts.step {m : Chunk} (h : c.Accounts received) (hi : Inv c)
    (hn : ¬c.Replied400) (hn' : ¬c'.Replied400) (hstep : machine.step c m = .ok c') :
    c'.Accounts (received ++ m.bytes) := by
  intro x
  rw [List.append_assoc, h, ← List.append_assoc]
  cases step_cases hi hn hstep with
  | failed hbad => exact absurd hbad hn'
  | waiting o _ hans hok hread hends hready hlines hnil _ =>
    -- what was read so far is all there is
    have hall : linesOf (c.buf.readable ++ m.bytes) = o.consumed := by
      have hnone := hlines []
      rwa [List.append_nil, List.append_nil, hnil, List.append_nil] at hnone
    rw [hlines, ← hall, (requests_reads hread _).2.2 hok hready, hans, hends]
  | complete o _ hans hok hread hgot hreset hlines _ =>
    have hstart : c.context.timeless.state ≠ .kGotAll := by
      rcases hi.clean hn with ⟨hs, -⟩ | hs
      · exact fun h => by cases hs.symm.trans h
      · exact fun h => by cases hs.symm.trans h
    rw [hlines, (requests_reads hread _).2.1 hok hgot hstart, hans, hreset, List.append_assoc,
      List.singleton_append]

/-- Until a 400 reply, the requests answered and those still to be read are the
requests of all the bytes received, and of those to come. -/
theorem run_accounts (h : machine.Run c chunks c') (hi : Inv c) (ha : c.Accounts received)
    (hn' : ¬c'.Replied400) : c'.Accounts (received ++ joined chunks) := by
  induction h generalizing received with
  | nil => rwa [joined, List.flatMap_nil, List.append_nil]
  | cons hen hstep hrest ih =>
    have hi₁ := inv_keeps hi hen hstep
    have hn₁ := fun hn => hn' (run_replied400 hrest hi₁ hn)
    have hn := fun hn => hn₁ (step_replied400 hi hn hstep).1
    rw [joined, List.flatMap_cons, ← List.append_assoc]
    exact ih hi₁ (ha.step hi hn hn₁ hstep) hn'

theorem start_accounts : Accounts {} [] := fun x => by
  rw [Buffer.fresh_readable]
  rfl

/-- No chunk leaves a complete request in the buffer, exactly if each brings them
one at a time; and when none is left, all that were received are answered. -/
theorem promptly_iff (h : machine.Run {} chunks c) :
    (machine.Holds NoneWaiting {} chunks ↔ machine.Meets OneAtATime {} chunks) ∧
      (¬c.Replied400 → NoneWaiting c → answered c = requests {} (linesOf (joined chunks))) := by
  constructor
  · refine h.holds_iff_meets inv_keeps (fun hi _ _ hstep => noneWaiting_iff hi hstep) start_inv ?_
    rintro -
    rw [Buffer.fresh_readable]
    simp [Completes, headerLines, lines_none (search_nil kCRLF_ne_nil)]
  · intro hn hw
    have hi := h.keeps inv_keeps start_inv
    have haccounts := run_accounts h start_inv start_accounts hn []
    have hready : c.context.timeless.Ready := hi.clean hn
    rw [List.append_nil, List.append_nil, requests_incomplete hready (hw hn), List.append_nil,
      List.nil_append] at haccounts
    exact haccounts.symm

instance (c : HttpConnection) : Decidable c.Replied400 :=
  inferInstanceAs (Decidable (∃ a ∈ c.actions, Action.isBadRequest a = true))

instance (c : HttpConnection) : Decidable c.NoneWaiting :=
  inferInstanceAs (Decidable (_ → _))

/-- The end of a request and the beginning of the next one in a chunk. -/
theorem promptly_iff_joined : ∃ c, machine.Run {}
    [⟨ascii "GET / HT", 1⟩, ⟨text "TP/1.1" ++ text "" ++ ascii "HEAD /b", 2⟩,
      ⟨text " HTTP/1.0" ++ text "" ++ text "GET / HTTP/1.1", 3⟩] c ∧ (answered c).length = 2 ∧
    machine.Holds NoneWaiting {}
      [⟨ascii "GET / HT", 1⟩, ⟨text "TP/1.1" ++ text "" ++ ascii "HEAD /b", 2⟩,
        ⟨text " HTTP/1.0" ++ text "" ++ text "GET / HTTP/1.1", 3⟩] := by
  have hrun : ∃ c, machine.Run {}
      [⟨ascii "GET / HT", 1⟩, ⟨text "TP/1.1" ++ text "" ++ ascii "HEAD /b", 2⟩,
        ⟨text " HTTP/1.0" ++ text "" ++ text "GET / HTTP/1.1", 3⟩] c ∧ (answered c).length = 2 :=
    Machine.exists_run (by decide +kernel)
  obtain ⟨c, hc, hlen⟩ := hrun
  exact ⟨c, hc, hlen, (promptly_iff hc).1.mpr (by decide +kernel)⟩

/-- Two requests in one chunk, the second of which waits. -/
theorem promptly_pipelined : ∃ c, machine.Run {}
    [⟨text "GET / HTTP/1.1" ++ text "" ++ text "GET /b HTTP/1.1" ++ text "", 1⟩] c ∧
    (answered c).length = 1 ∧ ¬c.NoneWaiting :=
  Machine.exists_run (by decide +kernel)

end HttpConnection

end Muduo
