import Muduo.Http.HttpSession

/-!
# The stream of replies

What the peer gets is the replies one after the other, up to the first that
closes, and then the end of the stream.
-/

namespace Muduo

open Lib TcpConnection OutputStream HttpServer

namespace HttpSession

-- ---------------------------------------------------------------------------
-- Replies
-- ---------------------------------------------------------------------------

def Closing (replies : List Reply) : Prop := ∃ r ∈ replies, r.closing = true

instance (replies : List Reply) : Decidable (Closing replies) :=
  inferInstanceAs (Decidable (∃ r ∈ replies, _))

def sentBytes (replies : List Reply) : Bytes := (sent replies).flatMap Reply.bytes

variable {c : TcpConnection} {effects : List Effect} {rs : List Reply}

theorem sent_open (h : ¬Closing rs) (r : Reply) : sent (rs ++ [r]) = sent rs ++ [r] := by
  induction rs with
  | nil =>
    simp only [List.nil_append, sent]
    split <;> rfl
  | cons r' rest ih =>
    have hr : ¬r'.closing = true := fun hr => h ⟨r', by simp, hr⟩
    have hrest : ¬Closing rest := fun ⟨r'', hm, hr'⟩ => h ⟨r'', List.mem_cons_of_mem _ hm, hr'⟩
    simp only [List.cons_append, sent, if_neg hr, ih hrest]

theorem sent_closing (h : Closing rs) (r : Reply) : sent (rs ++ [r]) = sent rs := by
  induction rs with
  | nil =>
    obtain ⟨_, hm, -⟩ := h
    cases hm
  | cons r' rest ih =>
    simp only [List.cons_append, sent]
    split
    · rfl
    · rename_i hr
      obtain ⟨r'', hm, hr''⟩ := h
      rcases List.mem_cons.mp hm with rfl | hm
      · exact absurd hr'' hr
      · rw [ih ⟨r'', hm, hr''⟩]

theorem sentBytes_open (h : ¬Closing rs) (r : Reply) :
    sentBytes (rs ++ [r]) = sentBytes rs ++ r.bytes := by
  simp [sentBytes, sent_open h]

theorem closing_append {r : Reply} :
    Closing (rs ++ [r]) ↔ Closing rs ∨ r.closing = true := by
  simp [Closing, or_and_right, exists_or]

/-- Everything given to `send` is the replies as far as they can be sent, and the
first that closes is what ends the sending. -/
structure Sound (s : HttpSession) : Prop where
  stream : Stream s.stream
  half : HalfClose s.stream
  given : s.stream.given = sentBytes s.replies
  connected : s.stream.conn.state = .kConnected → ¬Closing s.replies
  disconnecting : s.stream.conn.state = .kDisconnecting → Closing s.replies
  closed : .shutdownWrite ∈ s.stream.log → Closing s.replies

variable {s s' : HttpSession} {h : Handling}

theorem run_ok (call : Call) (hr : call.run s.stream.conn = .ok (c, effects)) :
    s.run call = .ok ({ s with stream := s.stream.after call c effects }, effects) := by
  simp only [run, hr]
  rfl

/-- The bytes of a reply are sent, and the connection is shut down behind one
that closes. -/
def reply (s : HttpSession) (r : Reply) (w : WriteResult) :
    Except HttpServer.Fault HttpSession := do
  let s ← s.send r.bytes w
  let s := { s with replies := s.replies ++ [r] }
  if r.closing then s.shutdown else return s

theorem send_ok (data : Bytes) (h : Sound s) (hs : s.stream.conn.state = .kConnected)
    (hr : Broken s.stream.log → r = .error EPIPE) :
    ∃ o, s.send data r = .ok { s with stream := o } ∧ Stream o ∧ HalfClose o ∧
      o.given = s.stream.given ++ data ∧ o.conn.state = .kConnected ∧
      o.conn.inputBuffer = s.stream.conn.inputBuffer := by
  have hopen : s.stream.conn.state ≠ .kDisconnected := by rw [hs]; nofun
  have hfit := r.upTo_fits data
  obtain ⟨c, effects, hsend, hst⟩ := h.stream.sendInLoop hopen hfit fun hb => by rw [hr hb]; rfl
  obtain ⟨hstate, hinput, hq⟩ := sendInLoop_rest h.stream.ok hopen hfit hsend
  refine ⟨_, ?_, hst, h.half.writing hs (hstate.trans hs) hq, rfl, hstate.trans hs, hinput⟩
  rw [send, if_pos hs, run_ok (.sendInLoop data (r.upTo data)) hsend]
  rfl

theorem send_closed (hs : s.stream.conn.state ≠ .kConnected) : s.send data r = .ok s := by
  rw [send, if_neg hs]
  rfl

theorem shutdown_connected (hs : c.state = .kConnected) :
    (c.shutdown true).1 = { c with state := .kDisconnecting } := by
  simp [TcpConnection.shutdown, hs]

/-- A reply is sent exactly while no reply before it closes. -/
theorem reply_ok (h : Sound s) (hs : s.stream.conn.state ≠ .kDisconnected)
    (hw : Broken s.stream.log → w = .error EPIPE) :
    ∃ o, s.reply r w = .ok { s with stream := o, replies := s.replies ++ [r] } ∧
      Sound { s with stream := o, replies := s.replies ++ [r] } ∧
      o.conn.inputBuffer = s.stream.conn.inputBuffer := by
  rcases open_cases h.stream.state hs with hs | hs
  · obtain ⟨o, hsend, hst, hhalf, hgiven, hstate, hinput⟩ := send_ok r.bytes h hs hw
    have hnot := h.connected hs
    have hbytes : o.given = sentBytes (s.replies ++ [r]) := by
      rw [hgiven, h.given, sentBytes_open hnot]
    by_cases hr : r.closing
    · refine ⟨o.after (.shutdown true) (o.conn.shutdown true).1 (o.conn.shutdown true).2, ?_,
        ⟨hst.shutdown true, hhalf.shutdown hst, ?_, ?_, fun _ => ?_, fun _ => ?_⟩, ?_⟩
      · rw [reply, hsend, ok_bind, if_pos hr, shutdown, run_ok (.shutdown true) rfl]
        rfl
      · simpa [Session.after, Call.data] using hbytes
      · rw [Session.after, shutdown_connected hstate]
        rintro ⟨⟩
      · exact closing_append.mpr (.inr hr)
      · exact closing_append.mpr (.inr hr)
      · rw [Session.after, shutdown_connected hstate]
        exact hinput
    · refine ⟨o, ?_, ⟨hst, hhalf, hbytes, fun _ => ?_, fun hd => ?_, fun hm => ?_⟩, hinput⟩
      · rw [reply, hsend, ok_bind, if_neg hr]
        rfl
      · rw [closing_append]
        exact not_or.mpr ⟨hnot, hr⟩
      · cases hstate.symm.trans hd
      · exact absurd hm (hhalf.connected hstate)
  · have hne : s.stream.conn.state ≠ .kConnected := by
      rw [hs]
      rintro ⟨⟩
    have hclosing := h.disconnecting hs
    have hdown : s.stream.conn.shutdown true = (s.stream.conn, []) := by
      rw [TcpConnection.shutdown, if_neg hne]
    have hsound : ∀ o : OutputStream.Session, o = s.stream →
        Sound { s with stream := o, replies := s.replies ++ [r] } := by
      rintro o rfl
      have hclosing' := closing_append (r := r).mpr (.inl hclosing)
      refine ⟨h.stream, h.half, ?_, fun hc => absurd hc hne, fun _ => hclosing', fun _ => hclosing'⟩
      rw [h.given, sentBytes, sentBytes, sent_closing hclosing]
    have hafter : s.stream.after (.shutdown true) s.stream.conn [] = s.stream := by
      simp [Session.after, Call.data, Call.isSend]
    refine ⟨s.stream, ?_, hsound _ rfl, rfl⟩
    rw [reply, send_closed hne, ok_bind]
    split
    · have hcall : (Call.shutdown true).run s.stream.conn = .ok (s.stream.conn, []) := by
        rw [Call.run, hdown]
      rw [shutdown, run_ok (s := { s with replies := s.replies ++ [r] }) _ hcall, ok_bind, hafter]
      rfl
    · rfl

theorem reject_eq (s : HttpSession) (h : Handling) :
    s.reject h = s.reply .badRequest h.badRequest := rfl

theorem onRequest_eq (s : HttpSession) (h : Handling) (req : HttpRequest) :
    s.onRequest h req = (do
      let resp := h.httpCallback req { closeConnection := closes req }
      let buf ← (resp.appendToBuffer h.conversion Buffer.fresh).mapError .response
      s.reply (.response req resp buf.readable) h.response) := rfl

-- ---------------------------------------------------------------------------
-- Messages
-- ---------------------------------------------------------------------------

def MadeBy (h : Handling) : Reply → Prop
  | .badRequest => True
  | .response req resp bytes =>
    resp = h.httpCallback req { closeConnection := closes req } ∧
      ∃ buf, resp.appendToBuffer h.conversion Buffer.fresh = .ok buf ∧ bytes = buf.readable

/-- What a turn leaves: the HTTP side took its own step, and the new replies are
of the turn's making. -/
structure Turned (s : HttpSession) (h : Handling) (s' : HttpSession) : Prop where
  sound : Sound s'
  context : s'.context.isSome
  replies : ∃ rs, s'.replies = s.replies ++ rs ∧ ∀ r ∈ rs, MadeBy h r

/-- The faults that a client or the HTTP callback can bring about. -/
inductive Fails (s : HttpSession) (h : Handling) (x : Except HttpServer.Fault α) : Prop
  | http : x = .error (.http .setMethod) → s.http.Rejected → Fails s h x
  | response (resp : HttpResponse) (e : Buffer.Fault) : x = .error (.response e) →
      resp.appendToBuffer h.conversion Buffer.fresh = .error e → Fails s h x

theorem Sound.parsed {p : Parse} (h : Sound s) (hv : p.buf.Valid) : Sound (s.parsed p) :=
  ⟨⟨⟨hv, h.stream.ok.output, h.stream.ok.plain⟩, h.stream.state, h.stream.interest, h.stream.whole,
    h.stream.gone⟩, ⟨h.half.connected, h.half.drained, h.half.finished⟩, h.given, h.connected,
    h.disconnecting, h.closed⟩

theorem onMessage_ok (hs : Sound s) (hopen : s.stream.conn.state ≠ .kDisconnected)
    {ctx : HttpContext} (hc : s.context = some ctx) (he : Broken s.stream.log →
      h.badRequest = .error EPIPE ∧ h.response = .error EPIPE)
    (hp : parseRequest s.stream.conn.inputBuffer ctx h.receiveTime = .ok p)
    (hv : p.buf.Valid) (hgot : p.ok = false → p.context.state ≠ .kGotAll) :
    (∃ s', s.onMessage h = .ok s' ∧ Turned s h s' ∧
      s.http.onMessage h.receiveTime = .ok s'.http) ∨
    ∃ resp e, s.onMessage h = .error (.response e) ∧
      HttpResponse.appendToBuffer resp h.conversion Buffer.fresh = .error e := by
  have hsound := hs.parsed hv
  have hhttp : s.http.buf = s.stream.conn.inputBuffer ∧ s.http.context = ctx :=
    ⟨rfl, by simp [http, hc]⟩
  simp only [onMessage, hc, hp, HttpConnection.onMessage, hhttp.1, hhttp.2, ok_mapError, ok_bind]
  cases hok : p.ok with
  | false =>
    obtain ⟨o, hreply, hsound', hinput⟩ :=
      reply_ok (r := .badRequest) hsound hopen fun hb => (he hb).1
    refine .inl ⟨_, ?_, ⟨hsound', rfl, [.badRequest], rfl, by simp [MadeBy]⟩, ?_⟩
    · simp [reject_eq, hreply, hgot hok, pure, Except.pure]
    · simp [hgot hok, http, hinput, parsed, HttpConnection.act, Reply.actions, pure, Except.pure]
  | true =>
    by_cases hall : p.context.state = .kGotAll
    · simp only [if_true, hall, onRequest_eq]
      generalize hresp : h.httpCallback p.context.request
        { closeConnection := closes p.context.request } = resp
      cases hbuf : resp.appendToBuffer h.conversion Buffer.fresh with
      | error e => exact .inr ⟨resp, e, by simp [Except.mapError], hbuf⟩
      | ok buf =>
        obtain ⟨o, hreply, hsound', hinput⟩ :=
          reply_ok (r := .response p.context.request resp buf.readable) hsound hopen
            fun hb => (he hb).2
        refine .inl ⟨⟨o, some p.context.reset,
          s.replies ++ [.response p.context.request resp buf.readable]⟩, ?_,
          ⟨?_, rfl, _, rfl, ?_⟩, ?_⟩
        · simp only [ok_mapError, ok_bind, hreply]
          rfl
        · exact ⟨hsound'.stream, hsound'.half, hsound'.given, hsound'.connected,
            hsound'.disconnecting, hsound'.closed⟩
        · simp [MadeBy, hresp, hbuf]
        · simp [http, hinput, parsed, HttpConnection.act, Reply.actions, pure, Except.pure]
    · simp only [if_true, hall, if_false]
      exact .inl ⟨s.parsed p, rfl, ⟨hsound, rfl, [], by simp [parsed], by rintro _ ⟨⟩⟩, rfl⟩

-- ---------------------------------------------------------------------------
-- Turns
-- ---------------------------------------------------------------------------

/-- A turn of the session is a turn of the HTTP side, if it brings anything. -/
def Follows (s : HttpSession) (t : Turn) (s' : HttpSession) : Prop :=
  match t.chunk with
  | none => s'.http = s.http
  | some m => HttpConnection.machine.step s.http m = .ok s'.http

structure Inv (s : HttpSession) : Prop where
  sound : Sound s
  context : s.context.isSome
  http : s.http.Inv

theorem Turned.silent (h : Inv s) (hst : Stream o) (hhalf : HalfClose o)
    (hgiven : o.given = s.stream.given)
    (hstate : o.conn.state = s.stream.conn.state ∨ o.conn.state = .kDisconnected)
    (hclosed : .shutdownWrite ∈ o.log → Closing s.replies) :
    Turned s d { s with stream := o } := by
  refine ⟨⟨hst, hhalf, hgiven.trans h.sound.given, fun hc => ?_, fun hd => ?_, hclosed⟩, h.context,
    [], by simp, nofun⟩
  · rcases hstate with hs | hs
    · exact h.sound.connected (hs.symm.trans hc)
    · exact absurd (hs.symm.trans hc) nofun
  · rcases hstate with hs | hs
    · exact h.sound.disconnecting (hs.symm.trans hd)
    · exact absurd (hs.symm.trans hd) nofun

def calls : Effect → Bool
  | .connectionCallback _ => true
  | .messageCallback => true
  | _ => false

def chunks (turns : List Turn) : List HttpConnection.Chunk := turns.filterMap Turn.chunk

theorem start_inv {new : TcpConnection} (hnew : new.New) (hs : start new = .ok s) :
    Inv s ∧ s.http = {} ∧ s.replies = [] := by
  obtain ⟨⟨conn, effects⟩, hest, hs⟩ := bind_ok.mp hs
  have hest := mapError_ok.mp hest
  have hst := start_stream hnew hest
  rw [connectEstablished_ok hnew.state] at hest
  cases hest
  cases hs
  have hhttp : ({ buf := new.inputBuffer } : HttpConnection) = {} := by rw [hnew.input]
  have hlog : Effect.shutdownWrite ∉ [Effect.connectionCallback true] := by simp
  have hnone : ¬Closing [] := fun ⟨_, hm, _⟩ => nomatch hm
  exact ⟨⟨⟨hst, ⟨fun _ => hlog, nofun, fun hm => absurd hm hlog⟩, rfl, fun _ => hnone, nofun,
    fun hm => absurd hm hlog⟩, rfl,
    (congrArg HttpConnection.Inv hhttp).mpr HttpConnection.start_inv⟩,
    hhttp, rfl⟩

end HttpSession

-- ---------------------------------------------------------------------------
-- The requests that are answered
-- ---------------------------------------------------------------------------

namespace HttpConnection

variable {c c' : HttpConnection}

end HttpConnection

-- ---------------------------------------------------------------------------
-- What the peer gets
-- ---------------------------------------------------------------------------

namespace HttpSession

def head : Turn where
  event := .read (.data (HttpConnection.text "HEAD / HTTP/1.0" ++ HttpConnection.text ""))

end HttpSession

end Muduo
