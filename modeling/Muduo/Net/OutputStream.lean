import Muduo.Net.TcpConnection

/-!
# The output stream

A session is a connection with what was given to `sendInLoop` and what the
connection did so far. `Stream` says where the given bytes are: the kernel has
accepted the first of them and the output buffer holds the rest, until a direct
write fails with `EPIPE`.
-/

namespace Muduo.OutputStream

open Lib TcpConnection

-- ---------------------------------------------------------------------------
-- Sessions
-- ---------------------------------------------------------------------------

structure Session where
  conn : TcpConnection
  given : Bytes := []
  log : List Effect := []
  /-- A direct write has failed with `EPIPE`. -/
  refused : Bool := false

inductive Call
  | sendInLoop (data : Bytes) (r : WriteResult)
  | handleWrite (r : WriteResult)
  | handleRead (r : ReadResult)
  | shutdown (inLoop : Bool)
  | shutdownInLoop
  | handleClose

def accepted (log : List Effect) : Bytes :=
  log.flatMap fun
    | .write offered (.accepted n) => offered.take n
    | _ => []

def isEpipe : Effect → Bool
  | .write _ (.error errno) => errno = EPIPE
  | _ => false

def Broken (log : List Effect) : Prop := ∃ e ∈ log, isEpipe e

instance (log : List Effect) : Decidable (Broken log) :=
  inferInstanceAs (Decidable (∃ e ∈ log, _))

namespace Call

def data : Call → Bytes
  | .sendInLoop data _ => data
  | _ => []

def isSend : Call → Bool
  | .sendInLoop _ _ => true
  | _ => false

def run (c : TcpConnection) : Call → Except Fault (TcpConnection × List Effect)
  | .sendInLoop data r => c.sendInLoop data r
  | .handleWrite r => c.handleWrite r
  | .handleRead r => c.handleRead r
  | .shutdown inLoop => .ok (c.shutdown inLoop)
  | .shutdownInLoop => .ok (c, c.shutdownInLoop)
  | .handleClose => c.handleClose

end Call

/-- The session ends with `handleClose`. The kernel may accept any part of what
it is offered or report any error, but goes on reporting `EPIPE`. -/
def Enabled (s : Session) (call : Call) : Prop :=
  s.conn.state ≠ .kDisconnected ∧ match call with
    | .sendInLoop data r => r.Fits data ∧ (Broken s.log → r = .error EPIPE)
    | .handleWrite r =>
      r.Fits s.conn.outputBuffer.readable ∧ (Broken s.log → r = .error EPIPE)
    | _ => True

instance (s : Session) (call : Call) : Decidable (Enabled s call) := by
  cases call <;> unfold Enabled <;> infer_instance

def Session.after (s : Session) (call : Call) (c : TcpConnection) (effects : List Effect) :
    Session where
  conn := c
  given := s.given ++ call.data
  log := s.log ++ effects
  refused := s.refused || call.isSend && decide (Broken effects)

def machine : Machine Session Call Fault where
  enabled := Enabled
  step s call := do
    let (c, effects) ← call.run s.conn
    return s.after call c effects

instance (s : Session) (call : Call) : Decidable (machine.enabled s call) :=
  inferInstanceAs (Decidable (Enabled s call))

def start (c : TcpConnection) (effects : List Effect) : Session where
  conn := c
  log := effects

-- ---------------------------------------------------------------------------
-- Where the bytes are
-- ---------------------------------------------------------------------------

/-- The output buffer is written out exactly when it holds something. -/
def Interest (c : TcpConnection) : Prop :=
  c.state ≠ .kDisconnected → (c.channel.isWriting ↔ c.outputBuffer.readable ≠ [])

structure Stream (s : Session) : Prop where
  ok : s.conn.Ok
  state : s.conn.state ≠ .kConnecting
  interest : Interest s.conn
  whole : s.refused = false → accepted s.log ++ s.conn.outputBuffer.readable = s.given
  gone : s.refused = true →
    Broken s.log ∧ s.conn.outputBuffer.readable = [] ∧ accepted s.log <+: s.given

variable {s : Session} {c c' : TcpConnection} {effects : List Effect}

@[simp] theorem accepted_append : accepted (xs ++ ys) = accepted xs ++ accepted ys :=
  List.flatMap_append

@[simp] theorem broken_append : Broken (xs ++ ys) ↔ Broken xs ∨ Broken ys := by
  simp only [Broken, List.mem_append]
  constructor
  · rintro ⟨e, he | he, h⟩
    · exact .inl ⟨e, he, h⟩
    · exact .inr ⟨e, he, h⟩
  · rintro (⟨e, he, h⟩ | ⟨e, he, h⟩)
    · exact ⟨e, .inl he, h⟩
    · exact ⟨e, .inr he, h⟩

def Quiet (effects : List Effect) : Prop := accepted effects = [] ∧ ¬Broken effects

theorem quiet_nil : Quiet [] := ⟨rfl, by simp [Broken]⟩

theorem quiet_crossing (c : TcpConnection) (n : Nat) : Quiet (c.crossing n) := by
  unfold crossing Quiet
  simp only
  split <;> simp [accepted, Broken, isEpipe]

theorem Stream.accepted_prefix (h : Stream s) : accepted s.log <+: s.given := by
  cases hr : s.refused with
  | false => exact ⟨_, h.whole hr⟩
  | true => exact (h.gone hr).2.2

/-- Bytes move from the caller to the buffer or the kernel, and from the buffer
to the kernel, in order. -/
theorem Stream.flow (h : Stream s) (hok : c.Ok) (hstate : c.state ≠ .kConnecting)
    (hint : Interest c) (hr : s.refused = false) (hb : call.isSend → ¬Broken effects)
    (hflow : accepted effects ++ c.outputBuffer.readable =
      s.conn.outputBuffer.readable ++ call.data) : Stream (s.after call c effects) where
  ok := hok
  state := hstate
  interest := hint
  whole _ := by
    simp only [Session.after, accepted_append, List.append_assoc, hflow]
    rw [← List.append_assoc, h.whole hr]
  gone hr' := by
    simp only [Session.after, hr, Bool.false_or, Bool.and_eq_true, decide_eq_true_eq] at hr'
    exact absurd hr'.2 (hb hr'.1)

theorem Stream.quiet (h : Stream s) (hok : c.Ok) (hstate : c.state ≠ .kConnecting)
    (hint : Interest c) (hq : Quiet effects) (hdata : call.data = [])
    (hout : c.outputBuffer = s.conn.outputBuffer) : Stream (s.after call c effects) := by
  cases hr : s.refused with
  | false =>
    refine h.flow hok hstate hint hr (fun _ => hq.2) ?_
    rw [hq.1, hdata, hout, List.append_nil, List.nil_append]
  | true =>
    obtain ⟨hb, he, hp⟩ := h.gone hr
    refine ⟨hok, hstate, hint, fun hr' => ?_, fun _ => ⟨?_, ?_, ?_⟩⟩
    · simp [Session.after, hr] at hr'
    · exact broken_append.mpr (.inl hb)
    · rw [Session.after, hout]
      exact he
    · simpa [Session.after, hq.1, hdata] using hp

-- ---------------------------------------------------------------------------
-- One lemma a call
-- ---------------------------------------------------------------------------

/-- What `sendInLoop` leaves: some bytes behind those in the output buffer. -/
theorem Interest.kept (h : Interest c) (hc : c.Ok) (hv : out.Valid)
    (ho : out.readable = c.outputBuffer.readable ++ k) :
    let c' : TcpConnection :=
      { c with
        outputBuffer := out
        channel := if k = [] then c.channel else c.channel.enableWriting }
    c'.Ok ∧ Interest c' := by
  constructor
  · refine ⟨hc.input, hv, ?_⟩
    simp only
    split
    · exact hc.plain
    · exact hc.plain.apply .enableWriting
  · intro hopen
    simp only [ho]
    split
    · rename_i hk
      rw [hk, List.append_nil]
      exact h hopen
    · rename_i hk
      exact iff_of_true (Channel.enableWriting_isWriting _) (by simp [hk])

theorem interest_written (hc : c.Ok) (hv : out.Valid) (hw : c.channel.isWriting) :
    let c' : TcpConnection :=
      { c with
        outputBuffer := out
        channel := if out.readable = [] then c.channel.disableWriting else c.channel }
    c'.Ok ∧ Interest c' := by
  constructor
  · refine ⟨hc.input, hv, ?_⟩
    simp only
    split
    · exact hc.plain.apply .disableWriting
    · exact hc.plain
  · intro _
    simp only
    split
    · rename_i he
      exact iff_of_false (Channel.disableWriting_not_isWriting _) (not_not_intro he)
    · rename_i he
      exact iff_of_true hw he

/-- `sendInLoop` writes at once only when nothing is in the output queue. -/
def Idle (c : TcpConnection) : Prop := ¬c.channel.isWriting ∧ c.outputBuffer.readableBytes = 0

instance (c : TcpConnection) : Decidable (Idle c) := inferInstanceAs (Decidable (_ ∧ _))

theorem direct_flow (hc : c.Ok) (h : Idle c → r ≠ .error EPIPE) :
    ¬Broken (c.writeDirectly data r).effects ∧
      accepted (c.writeDirectly data r).effects ++
        (c.outputBuffer.readable ++ (c.writeDirectly data r).kept data) =
          c.outputBuffer.readable ++ data := by
  by_cases hd : Idle c
  · have hempty := hc.output.readableBytes_eq_zero.mp hd.2
    simp only [writeDirectly, if_pos (show _ ∧ _ from hd), hempty, List.nil_append]
    cases r with
    | accepted n =>
      constructor <;> simp only <;> split <;>
        simp [Broken, isEpipe, accepted, Direct.kept]
    | error errno =>
      have hne : errno ≠ EPIPE := fun he => h hd (by rw [he])
      simp [Broken, isEpipe, accepted, Direct.kept, hne]
  · simp only [writeDirectly, if_neg (show ¬(_ ∧ _) from hd)]
    simp [Broken, accepted, Direct.kept]

theorem direct_refused (data : Bytes) (h : Idle c) :
    c.writeDirectly data (.error EPIPE) =
      { error := true, effects := [.write data (.error EPIPE)] } := by
  simp only [writeDirectly, if_pos (show _ ∧ _ from h)]
  rfl

theorem Stream.sendInLoop (h : Stream s) (hopen : s.conn.state ≠ .kDisconnected)
    (hfit : r.Fits data) (hepipe : Broken s.log → r = .error EPIPE) :
    ∃ c effects, s.conn.sendInLoop data r = .ok (c, effects) ∧
      Stream (s.after (.sendInLoop data r) c effects) := by
  have hquiet : ∀ k n, Quiet (if k = ([] : Bytes) then [] else s.conn.crossing n) := by
    intro k n
    split
    · exact quiet_nil
    · exact quiet_crossing _ _
  by_cases hd : Idle s.conn → r ≠ .error EPIPE
  · have hr : s.refused = false := by
      rw [Bool.eq_false_iff]
      intro hr
      obtain ⟨hb, he, -⟩ := h.gone hr
      refine hd ⟨?_, h.ok.output.readableBytes_eq_zero.mpr he⟩ (hepipe hb)
      rw [h.interest hopen, he]
      exact not_not_intro rfl
    obtain ⟨hb, hflow⟩ := direct_flow h.ok hd
    obtain ⟨out, hv, ho, hsend⟩ := sendInLoop_ok h.ok hopen (nwrote_le hfit)
    obtain ⟨hok, hint⟩ := h.interest.kept h.ok hv ho
    refine ⟨_, _, hsend, h.flow hok h.state hint hr (fun _ => ?_) ?_⟩
    · rw [broken_append]
      rintro (hb' | hb')
      · exact hb hb'
      · exact (hquiet _ _).2 hb'
    · rw [accepted_append, (hquiet _ _).1, List.append_nil, ho]
      exact hflow
  · -- the direct write fails with `EPIPE`, so the bytes are dropped
    obtain ⟨hidle, hr⟩ := Classical.not_imp.mp hd
    obtain rfl := Classical.not_not.mp hr
    have hempty := h.ok.output.readableBytes_eq_zero.mp hidle.2
    have hdir := direct_refused data hidle
    obtain ⟨out, hv, ho, hsend⟩ := sendInLoop_ok h.ok hopen (nwrote_le hfit)
    obtain ⟨hok, hint⟩ := h.interest.kept h.ok hv ho
    refine ⟨_, _, hsend, hok, h.state, hint, ?_, fun _ => ⟨?_, ?_, ?_⟩⟩
    · simp [Session.after, Call.isSend, hdir, Broken, isEpipe]
    · refine broken_append.mpr (.inr (broken_append.mpr (.inl ?_)))
      simp [hdir, Broken, isEpipe]
    · simp [Session.after, ho, hdir, Direct.kept, hempty]
    · have hp : accepted s.log <+: s.given ++ data :=
        h.accepted_prefix.trans (List.prefix_append _ _)
      simpa [Session.after, Call.data, hdir, Direct.kept, accepted] using hp

theorem handleWrite_flow (hc : c.Ok) (hfit : r.Fits c.outputBuffer.readable)
    (hs : c.handleWrite r = .ok (c', effects)) :
    accepted effects ++ c'.outputBuffer.readable = c.outputBuffer.readable := by
  by_cases hw : c.channel.isWriting
  · rcases r.some_or_none with ⟨n, rfl, h0⟩ | hnone
    · have hn : n ≤ c.outputBuffer.readableBytes := by
        rw [← hc.output.length_readable]
        exact hfit
      obtain ⟨out, -, ho, hwrite⟩ := handleWrite_some hc hw h0 hn
      rw [hwrite] at hs
      cases hs
      have hrest : accepted (if out.readable = [] then
          (if c.writeCompleteCallback then [.queueInLoop .writeComplete] else []) ++
            (if c.state = .kDisconnecting then [.shutdownWrite] else [])
          else []) = [] := by
        split
        · split <;> split <;> rfl
        · rfl
      simp only [accepted, List.flatMap_cons] at hrest ⊢
      rw [hrest, List.append_nil, ho, List.take_append_drop]
    · rw [handleWrite_none hw hnone] at hs
      cases hs
      cases r with
      | error errno => simp [accepted]
      | accepted n =>
        obtain rfl := hnone n rfl
        simp [accepted]
  · rw [handleWrite_idle hw] at hs
    cases hs
    rfl

theorem Stream.handleWrite (h : Stream s) (hopen : s.conn.state ≠ .kDisconnected)
    (hfit : r.Fits s.conn.outputBuffer.readable) :
    ∃ c effects, s.conn.handleWrite r = .ok (c, effects) ∧
      Stream (s.after (.handleWrite r) c effects) := by
  have hint := h.interest hopen
  by_cases hw : s.conn.channel.isWriting
  · have hr : s.refused = false := by
      rw [Bool.eq_false_iff]
      exact fun hr => hint.mp hw (h.gone hr).2.1
    rcases r.some_or_none with ⟨n, rfl, h0⟩ | hnone
    · have hn : n ≤ s.conn.outputBuffer.readableBytes := by
        rw [← h.ok.output.length_readable]
        exact hfit
      obtain ⟨out, hv, -, hwrite⟩ := handleWrite_some h.ok hw h0 hn
      obtain ⟨hok, hint'⟩ := interest_written h.ok hv hw
      refine ⟨_, _, hwrite, h.flow hok h.state hint' hr nofun ?_⟩
      exact (handleWrite_flow h.ok hfit hwrite).trans (List.append_nil _).symm
    · have hwrite := handleWrite_none hw hnone
      refine ⟨_, _, hwrite, h.flow h.ok h.state h.interest hr nofun ?_⟩
      exact (handleWrite_flow h.ok hfit hwrite).trans (List.append_nil _).symm
  · exact ⟨_, _, handleWrite_idle hw, h.quiet h.ok h.state h.interest quiet_nil rfl rfl⟩

theorem open_cases (h : s.conn.state ≠ .kConnecting) (hopen : s.conn.state ≠ .kDisconnected) :
    s.conn.state = .kConnected ∨ s.conn.state = .kDisconnecting := by
  cases hs : s.conn.state <;> simp_all

theorem quiet_close (b : Bool) : Quiet [.connectionCallback b, .closeCallback] := by
  simp [Quiet, accepted, Broken, isEpipe]

theorem Stream.handleClose (h : Stream s) (hopen : s.conn.state ≠ .kDisconnected) :
    ∃ c effects, s.conn.handleClose = .ok (c, effects) ∧
      Stream (s.after .handleClose c effects) := by
  refine ⟨_, _, handleClose_ok (open_cases h.state hopen), h.quiet ?_ nofun ?_ (quiet_close _)
    rfl rfl⟩
  · exact ⟨h.ok.input, h.ok.output, h.ok.plain.apply .disableAll⟩
  · exact fun hne => absurd rfl hne

theorem Stream.handleRead (h : Stream s) (hopen : s.conn.state ≠ .kDisconnected) :
    ∃ c effects, s.conn.handleRead r = .ok (c, effects) ∧
      Stream (s.after (.handleRead r) c effects) := by
  obtain ⟨input, hv, hread⟩ := handleRead_ok (r := r) h.ok (open_cases h.state hopen)
  cases r with
  | error errno =>
    exact ⟨_, _, hread, h.quiet ⟨hv, h.ok.output, h.ok.plain⟩ h.state h.interest quiet_nil rfl rfl⟩
  | data bytes =>
    cases bytes with
    | nil =>
      refine ⟨_, _, hread, h.quiet ?_ nofun ?_ (quiet_close _) rfl rfl⟩
      · exact ⟨hv, h.ok.output, h.ok.plain.apply .disableAll⟩
      · exact fun hne => absurd rfl hne
    | cons b bs =>
      refine ⟨_, _, hread, h.quiet ⟨hv, h.ok.output, h.ok.plain⟩ h.state h.interest ?_ rfl rfl⟩
      simp [Quiet, accepted, Broken, isEpipe]

theorem quiet_shutdownInLoop (c : TcpConnection) : Quiet c.shutdownInLoop := by
  unfold shutdownInLoop Quiet
  split <;> simp [accepted, Broken, isEpipe]

theorem Stream.shutdown (h : Stream s) (inLoop : Bool) :
    Stream (s.after (.shutdown inLoop) (s.conn.shutdown inLoop).1 (s.conn.shutdown inLoop).2) := by
  unfold TcpConnection.shutdown
  split
  · rename_i hs
    refine h.quiet ⟨h.ok.input, h.ok.output, h.ok.plain⟩ nofun ?_ ?_ rfl rfl
    · intro _
      exact h.interest (by rw [hs]; nofun)
    · simp only
      split
      · exact quiet_shutdownInLoop _
      · simp [Quiet, accepted, Broken, isEpipe]
  · exact h.quiet h.ok h.state h.interest quiet_nil rfl rfl

-- ---------------------------------------------------------------------------
-- Runs
-- ---------------------------------------------------------------------------

theorem start_stream {new : TcpConnection} (hnew : new.New)
    (he : new.connectEstablished = .ok (c, effects)) :
    Stream (start c effects) := by
  rw [connectEstablished_ok hnew.state] at he
  cases he
  have hok := hnew.ok
  have hempty : new.outputBuffer.readable = [] := by
    rw [hnew.output]
    exact Buffer.fresh_readable
  refine ⟨⟨hok.input, hok.output, hok.plain.apply .enableReading⟩, nofun, fun _ => ?_,
    fun _ => ?_, nofun⟩
  · refine iff_of_false ?_ (not_not_intro hempty)
    simp only [start, Channel.isWriting, Channel.enableReading, hnew.events]
    decide
  · simp [start, accepted, hempty]

end Muduo.OutputStream
