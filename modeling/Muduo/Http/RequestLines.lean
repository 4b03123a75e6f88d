import Muduo.Http.HttpServer

/-!
# Rejected request lines

A request line that is answered with 400 stays in the input buffer, and every
later chunk makes the server look at it again. The context keeps the method of a
line that names one, whatever is wrong with the rest of the line.
-/

namespace Muduo

open Lib

-- ---------------------------------------------------------------------------
-- One line
-- ---------------------------------------------------------------------------

def methods : List Bytes :=
  [ascii "GET", ascii "POST", ascii "HEAD", ascii "PUT", ascii "DELETE"]

/-- The line begins with a method and a space. -/
def NamesMethod (line : Bytes) : Prop := ∃ m ∈ methods, m ++ [32] <+: line

instance (line : Bytes) : Decidable (NamesMethod line) :=
  inferInstanceAs (Decidable (∃ m ∈ methods, m ++ [32] <+: line))

theorem methodOf_eq_kInvalid : HttpRequest.methodOf m = .kInvalid ↔ m ∉ methods := by
  simp only [HttpRequest.methodOf, methods, List.mem_cons, List.not_mem_nil, or_false, not_or]
  split_ifs <;> simp_all

theorem space_not_mem : ∀ m ∈ methods, (32 : UInt8) ∉ m := by decide

theorem namesMethod_iff {line : Bytes} : NamesMethod line ↔
    line.idxOf 32 ≠ line.length ∧ line.take (line.idxOf 32) ∈ methods := by
  constructor
  · rintro ⟨m, hm, rest, rfl⟩
    rw [List.append_assoc, List.singleton_append, idxOf_append_cons (space_not_mem m hm),
      List.take_left]
    exact ⟨by simp, hm⟩
  · rintro ⟨hspace, hm⟩
    refine ⟨_, hm, line.drop (line.idxOf 32 + 1), ?_⟩
    rw [List.append_assoc, List.singleton_append, take_idxOf hspace]

theorem processRequestLine_named {context : HttpContext} (hn : NamesMethod line)
    (hm : context.request.method ≠ .kInvalid) :
    processRequestLine line context = .error .setMethod := by
  unfold processRequestLine
  rw [if_pos (namesMethod_iff.mp hn).1]
  simp only [HttpRequest.setMethod, ensure_false hm, error_bind]

theorem processVersion_method (version : Bytes) (r : HttpRequest) :
    (processVersion version r).2.method = r.method := by
  unfold processVersion
  split
  · split <;> rfl
  · rfl

theorem processRequestLine_fresh {context : HttpContext} (line : Bytes)
    (hm : context.request.method = .kInvalid) :
    ∃ ok context', processRequestLine line context = .ok (ok, context') ∧
      context'.state = context.state ∧ (ok = true → NamesMethod line) ∧
      (context'.request.method = .kInvalid ↔ ¬NamesMethod line) := by
  rw [namesMethod_iff]
  unfold processRequestLine
  dsimp only
  split
  · rename_i hspace
    simp only [HttpRequest.setMethod, ensure_bind hm, pure_bind]
    rcases Classical.em (HttpRequest.methodOf (line.take (line.idxOf 32)) = .kInvalid) with hk | hk
    · have hnot := methodOf_eq_kInvalid.mp hk
      simp only [hk, ne_eq, not_true_eq_false, decide_false, Bool.false_eq_true, if_false]
      exact ⟨_, _, rfl, rfl, by simp, iff_of_true rfl fun hn => hnot hn.2⟩
    · have hin : line.take (line.idxOf 32) ∈ methods :=
        not_not.mp fun hn => hk (methodOf_eq_kInvalid.mpr hn)
      have hnamed : line.idxOf 32 ≠ line.length ∧ line.take (line.idxOf 32) ∈ methods :=
        ⟨hspace, hin⟩
      simp only [ne_eq, hk, not_false_eq_true, decide_true, if_true]
      split
      · refine ⟨_, _, rfl, rfl, fun _ => hnamed, iff_of_false ?_ fun hn => hn hnamed⟩
        simp only [processVersion_method]
        exact hk
      · exact ⟨_, _, rfl, rfl, by simp, iff_of_false hk fun hn => hn hnamed⟩
  · rename_i hspace
    exact ⟨_, _, rfl, rfl, by simp, iff_of_true hm fun hn => hspace hn.1⟩

-- ---------------------------------------------------------------------------
-- One parse
-- ---------------------------------------------------------------------------

/-- The first line in the buffer was looked at and is no good: the method is
that of the line. -/
def Held (buf : Buffer) (context : HttpContext) : Prop :=
  context.state = .kExpectRequestLine ∧ ∃ i, search Buffer.kCRLF buf.readable = some i ∧
    (context.request.method = .kInvalid ↔ ¬NamesMethod (buf.readable.take i))

structure Parse.Good (p : Parse) : Prop where
  valid : p.buf.Valid
  body : p.context.state ≠ .kExpectBody
  all : p.context.state = .kGotAll → p.hasMore = false
  fresh : p.ok = true → p.context.state = .kExpectRequestLine → p.context.request.method = .kInvalid
  held : p.ok = false → p.hasMore = false ∧ Held p.buf p.context

variable {p : Parse}

theorem HttpFault.onBuffer_ok : HttpFault.onBuffer (.ok a) = .ok a := rfl

theorem Parse.Good.requestLine (h : p.Good) (hok : p.ok = true)
    (hs : p.context.state = .kExpectRequestLine) (receiveTime : Timestamp) :
    ∃ p', p.next receiveTime = .ok p' ∧ p'.Good ∧
      (p'.hasMore = true → p'.buf.readableBytes < p.buf.readableBytes) ∧
      ∀ i, search Buffer.kCRLF p.buf.readable = some i → ¬NamesMethod (p.buf.readable.take i) →
        p'.ok = false := by
  have hm := h.fresh hok hs
  unfold Parse.next
  simp only [hs]
  cases hsearch : search Buffer.kCRLF p.buf.readable with
  | none =>
    simp only [Buffer.findCRLF_none hsearch]
    refine ⟨_, rfl, ⟨h.valid, h.body, fun _ => rfl, h.fresh, ?_⟩, by simp, by simp⟩
    intro hf
    rw [hok] at hf
    cases hf
  | some i =>
    obtain ⟨hfind, hline, buf, hbuf, hv, -, hlt⟩ := Buffer.findCRLF_some h.valid hsearch
    obtain ⟨ok, context, hproc, hstate, hknown, hmethod⟩ :=
      processRequestLine_fresh (p.buf.readable.take i) hm
    simp only [hfind, hline, hproc, ok_bind, hbuf, HttpFault.onBuffer_ok]
    cases ok with
    | true =>
      refine ⟨_, rfl, ⟨hv, by simp [HttpContext.receiveRequestLine],
        by simp [HttpContext.receiveRequestLine], by simp [HttpContext.receiveRequestLine], by simp⟩,
        fun _ => Nat.lt_of_succ_lt hlt, fun j hj hnot => ?_⟩
      cases hj
      exact absurd (hknown rfl) hnot
    | false =>
      refine ⟨_, rfl, ⟨h.valid, ?_, fun _ => rfl, by simp, fun _ => ⟨rfl, ?_⟩⟩,
        by simp, fun _ _ _ => rfl⟩
      · simp [hstate, hs]
      · exact ⟨hstate.trans hs, i, hsearch, hmethod⟩

theorem Parse.Good.headers (h : p.Good) (hok : p.ok = true)
    (hs : p.context.state = .kExpectHeaders) (receiveTime : Timestamp) :
    ∃ p', p.next receiveTime = .ok p' ∧ p'.Good ∧
      (p'.hasMore = true → p'.buf.readableBytes < p.buf.readableBytes) := by
  unfold Parse.next
  simp only [hs]
  have hnot : p.ok ≠ false := by simp [hok]
  cases hsearch : search Buffer.kCRLF p.buf.readable with
  | none =>
    simp only [Buffer.findCRLF_none hsearch]
    exact ⟨_, rfl, ⟨h.valid, h.body, fun _ => rfl, h.fresh, fun hf => absurd hf hnot⟩, nofun⟩
  | some i =>
    obtain ⟨hfind, hline, buf, hbuf, hv, -, hlt⟩ := Buffer.findCRLF_some h.valid hsearch
    simp only [hfind, hline]
    split
    · simp only [hbuf, HttpFault.onBuffer_ok, ok_bind]
      exact ⟨_, rfl, ⟨hv, nofun, nofun, nofun, fun hf => absurd hf hnot⟩,
        fun _ => Nat.lt_of_succ_lt hlt⟩
    · simp only [hbuf, HttpFault.onBuffer_ok, ok_bind]
      exact ⟨_, rfl, ⟨hv, nofun, fun _ => by simp [HttpContext.receiveHeaders],
        fun _ hst => absurd hst nofun, fun hf => absurd hf hnot⟩, fun _ => Nat.lt_of_succ_lt hlt⟩

theorem Parse.Good.ok (h : p.Good) (hmore : p.hasMore = true) : p.ok = true := by
  by_contra hn
  have hf := (h.held (Bool.eq_false_iff.mpr hn)).1
  rw [hmore] at hf
  cases hf

theorem Parse.Good.reading (h : p.Good) (hmore : p.hasMore = true) :
    p.context.state = .kExpectRequestLine ∨ p.context.state = .kExpectHeaders := by
  cases hs : p.context.state with
  | kExpectRequestLine => exact .inl rfl
  | kExpectHeaders => exact .inr rfl
  | kExpectBody => exact absurd hs h.body
  | kGotAll =>
    have hf := h.all hs
    rw [hmore] at hf
    cases hf

theorem Parse.Good.next (h : p.Good) (hmore : p.hasMore = true) (receiveTime : Timestamp) :
    ∃ p', p.next receiveTime = .ok p' ∧ p'.Good ∧
      (p'.hasMore = true → p'.buf.readableBytes < p.buf.readableBytes) := by
  rcases h.reading hmore with hs | hs
  · obtain ⟨p', hp', hgood, hlt, -⟩ := h.requestLine (h.ok hmore) hs receiveTime
    exact ⟨p', hp', hgood, hlt⟩
  · exact h.headers (h.ok hmore) hs receiveTime

theorem parseLoop_done (h : p.hasMore = false) (receiveTime : Timestamp) (fuel : Nat) :
    parseLoop receiveTime fuel p = .ok p := by
  cases fuel <;> simp [parseLoop, h]

theorem parseLoop_ok {fuel : Nat} {p : Parse} (h : p.Good) (hfuel : p.buf.readableBytes < fuel)
    (receiveTime : Timestamp) :
    ∃ p', parseLoop receiveTime fuel p = .ok p' ∧ p'.Good ∧ p'.hasMore = false := by
  induction fuel generalizing p with
  | zero => exact absurd hfuel (Nat.not_lt_zero _)
  | succ fuel ih =>
    unfold parseLoop
    split
    · rename_i hmore
      obtain ⟨p', hp', hgood, hlt⟩ := h.next hmore receiveTime
      simp only [hp', ok_bind]
      cases hmore' : p'.hasMore with
      | true =>
        have hless := hlt hmore'
        exact ih hgood (by omega)
      | false =>
        exact ⟨p', parseLoop_done hmore' .., hgood, hmore'⟩
    · rename_i hmore
      exact ⟨p, rfl, h, Bool.eq_false_iff.mpr hmore⟩

/-- A context that `parseRequest` may be called with. -/
def HttpContext.Ready (c : HttpContext) : Prop :=
  c.state = .kExpectRequestLine ∧ c.request.method = .kInvalid ∨ c.state = .kExpectHeaders

theorem HttpContext.Ready.good {buf : Buffer} {context : HttpContext} (hr : context.Ready)
    (hv : buf.Valid) : Parse.Good { buf, context } := by
  rcases hr with ⟨hs, hm⟩ | hs
  · exact ⟨hv, by simp [hs], by simp [hs], fun _ _ => hm, nofun⟩
  · exact ⟨hv, by simp [hs], by simp [hs], by simp [hs], nofun⟩

theorem parseRequest_ok {buf : Buffer} {context : HttpContext} (hv : buf.Valid)
    (hr : context.Ready) (receiveTime : Timestamp) :
    ∃ p, parseRequest buf context receiveTime = .ok p ∧ p.Good := by
  obtain ⟨p, hp, hgood, -⟩ := parseLoop_ok (hr.good hv) (Nat.lt_succ_self _) receiveTime
  exact ⟨p, hp, hgood⟩

/-- A first line without a method is looked at once more, to no effect. -/
theorem parseRequest_unnamed {buf : Buffer} {context : HttpContext} (hv : buf.Valid)
    (hs : context.state = .kExpectRequestLine) (hm : context.request.method = .kInvalid)
    (hi : search Buffer.kCRLF buf.readable = some i) (hn : ¬NamesMethod (buf.readable.take i))
    (receiveTime : Timestamp) :
    ∃ p, parseRequest buf context receiveTime = .ok p ∧ p.Good ∧ p.ok = false := by
  have hr : context.Ready := .inl ⟨hs, hm⟩
  obtain ⟨p, hp, hgood, -, hall⟩ := (hr.good hv).requestLine rfl hs receiveTime
  have hok := hall i hi hn
  refine ⟨p, ?_, hgood, hok⟩
  unfold parseRequest parseLoop
  simp only [if_true, hp, ok_bind]
  exact parseLoop_done (hgood.held hok).1 ..

theorem parseRequest_named {buf : Buffer} {context : HttpContext} (hv : buf.Valid)
    (hs : context.state = .kExpectRequestLine) (hm : context.request.method ≠ .kInvalid)
    (hi : search Buffer.kCRLF buf.readable = some i) (hn : NamesMethod (buf.readable.take i))
    (receiveTime : Timestamp) : parseRequest buf context receiveTime = .error .setMethod := by
  obtain ⟨hfind, hline, -⟩ := Buffer.findCRLF_some hv hi
  unfold parseRequest parseLoop
  simp only [if_true, Parse.next, hs, hfind, hline, processRequestLine_named hn hm, error_bind]

-- ---------------------------------------------------------------------------
-- Runs
-- ---------------------------------------------------------------------------

namespace HttpConnection

variable {c : HttpConnection}

def Action.isBadRequest : Action → Bool
  | .send data => data = badRequest
  | _ => false

def Replied400 (c : HttpConnection) : Prop := ∃ a ∈ c.actions, Action.isBadRequest a = true

/-- A 400 reply has been sent, and the first line in the input buffer begins with
a method and a space. -/
def Rejected (c : HttpConnection) : Prop :=
  c.Replied400 ∧ ∃ i ∈ search Buffer.kCRLF c.buf.readable, NamesMethod (c.buf.readable.take i)

instance (c : HttpConnection) : Decidable c.Rejected := by
  unfold Rejected Replied400
  infer_instance

structure Inv (c : HttpConnection) : Prop where
  valid : c.buf.Valid
  clean : ¬c.Replied400 →
    c.context.state = .kExpectRequestLine ∧ c.context.request.method = .kInvalid ∨
      c.context.state = .kExpectHeaders
  held : c.Replied400 → Held c.buf c.context

theorem held_append {buf buf' : Buffer} {context : HttpContext} {bytes : Bytes}
    (h : Held buf context) (hr : buf'.readable = buf.readable ++ bytes) :
    context.state = .kExpectRequestLine ∧ ∃ i, search Buffer.kCRLF buf'.readable = some i ∧
      search Buffer.kCRLF buf.readable = some i ∧
      buf'.readable.take i = buf.readable.take i ∧
      (context.request.method = .kInvalid ↔ ¬NamesMethod (buf.readable.take i)) := by
  obtain ⟨hs, i, hi, hm⟩ := h
  have hle : i + 2 ≤ buf.readable.length := (search_le hi).resolve_right nofun
  refine ⟨hs, i, ?_, hi, ?_, hm⟩
  · rw [hr]
    exact search_append hi bytes
  · rw [hr, List.take_append_of_le_length (by omega)]

theorem onMessage_ok {receiveTime : Timestamp} {p : Parse}
    (hp : parseRequest c.buf c.context receiveTime = .ok p)
    (hg : p.Good) (hr : c.Replied400 → p.ok = false) :
    ∃ c', c.onMessage receiveTime = .ok c' ∧ Inv c' := by
  simp only [onMessage, hp, ok_bind]
  cases hok : p.ok with
  | false =>
    obtain ⟨-, hheld⟩ := hg.held hok
    simp only [act, hheld.1, reduceCtorEq, if_false, Bool.false_eq_true]
    refine ⟨_, rfl, hg.valid, fun hn => absurd ?_ hn, fun _ => hheld⟩
    exact ⟨.send badRequest, by simp, by simp [Action.isBadRequest]⟩
  | true =>
    have hnot : ¬c.Replied400 := fun hn => absurd (hr hn) (by simp [hok])
    simp only [if_true]
    split
    · refine ⟨_, rfl, hg.valid, fun _ => .inl ⟨rfl, rfl⟩, fun hn => absurd ?_ hnot⟩
      obtain ⟨a, ha, hbad⟩ := hn
      rcases List.mem_append.mp ha with ha | ha
      · exact ⟨a, ha, hbad⟩
      · obtain rfl := List.mem_singleton.mp ha
        cases hbad
    · rename_i hall
      refine ⟨_, rfl, hg.valid, fun _ => ?_, fun hn => absurd hn hnot⟩
      cases hs : p.context.state with
      | kExpectRequestLine => exact .inl ⟨rfl, hg.fresh hok hs⟩
      | kExpectHeaders => exact .inr rfl
      | kExpectBody => exact absurd hs hg.body
      | kGotAll => exact absurd hs hall

theorem step_decides (h : Inv c) (_ : machine.enabled c m) :
    Decides (machine.step c m) (¬c.Rejected) Inv := by
  obtain ⟨buf, hbuf, hv, hr⟩ := Buffer.readFd_data h.valid m.bytes
  have hstep : machine.step c m = { c with buf }.onMessage m.receiveTime := by
    simp only [machine, step, hbuf]
    rfl
  rw [hstep]
  by_cases hrep : c.Replied400
  · obtain ⟨hs, i, hi, hi', htake, hm⟩ := held_append (h.held hrep) hr
    by_cases hn : NamesMethod (c.buf.readable.take i)
    · -- the line is there still, and its method is set
      have hfault := parseRequest_named hv hs (fun hk => hm.mp hk hn) hi (htake ▸ hn) m.receiveTime
      refine ⟨fun hc => absurd ⟨hrep, i, hi', hn⟩ hc, fun _ t ht => ?_⟩
      simp only [onMessage, hfault, error_bind] at ht
      cases ht
    · obtain ⟨p, hp, hg, hok⟩ :=
        parseRequest_unnamed hv hs (hm.mpr hn) hi (htake ▸ hn) m.receiveTime
      obtain ⟨c', hc', hinv⟩ := onMessage_ok (c := { c with buf }) hp hg fun _ => hok
      refine .of_ok hc' ?_ hinv
      rintro ⟨-, j, hj, hnj⟩
      rw [hi'] at hj
      cases hj
      exact hn hnj
  · obtain ⟨p, hp, hg⟩ := parseRequest_ok hv (h.clean hrep) m.receiveTime
    obtain ⟨c', hc', hinv⟩ := onMessage_ok (c := { c with buf }) hp hg fun hn => absurd hn hrep
    exact .of_ok hc' (fun hrej => hrep hrej.1) hinv

theorem start_inv : Inv {} :=
  ⟨Buffer.fresh_valid, fun _ => .inl ⟨rfl, rfl⟩, fun ⟨_, ha, _⟩ => absurd ha List.not_mem_nil⟩

/-- However a client cuts what it sends: no assertion fails, exactly if nothing
comes after a 400 reply to a line that names a method. -/
theorem setMethod_iff (ho : machine.Meets machine.enabled {} chunks) :
    (∃ c, machine.Run {} chunks c) ↔ machine.Meets (fun c _ => ¬c.Rejected) {} chunks :=
  (Machine.run_iff_meets step_decides ho start_inv).1

def text (s : String) : Bytes := ascii s ++ Buffer.kCRLF

/-- A request in two chunks and one more behind it, then a line without a
method and what comes after it. -/
theorem setMethod_iff_unnamed : ∃ c, machine.Run {}
    [⟨ascii "GET / HT", 1⟩, ⟨text "TP/1.1" ++ text "Host: a " ++ text "" ++ text "PUT /x HTTP/1.0", 2⟩,
      ⟨text "", 3⟩, ⟨text "GRAB / HTTP/1.1", 4⟩, ⟨text "GET / HTTP/1.1", 5⟩] c :=
  (setMethod_iff (by decide +kernel)).mpr (by decide +kernel)

/-- A version that is not known, and one more byte. -/
theorem setMethod_again : ∃ c, machine.Run {} [⟨text "GET / HTTP/9.9", 1⟩] c ∧
    machine.enabled c ⟨ascii "x", 2⟩ ∧ machine.step c ⟨ascii "x", 2⟩ = .error .setMethod :=
  Machine.exists_run (by decide +kernel)

end HttpConnection

end Muduo
