import Muduo.Net.HalfClose
import Mathlib.Data.Bool.Basic

/-!
# Two connections and the network

A connection on each side of a TCP stream, used from the thread of its loop only.
The network keeps what one side has written, in order, until the other reads it; it
says that the stream has ended when nothing is left of it and the writer has shut
its end down or closed it.
-/

namespace Muduo

open Lib TcpConnection OutputStream

structure Endpoint where
  session : Session
  /-- What the user has taken out of the input buffer. -/
  taken : Bytes := []
  /-- What the network has for this side. -/
  arriving : Bytes := []
  ended : Bool := false

abbrev Link := Bool → Endpoint

namespace Endpoint

def Open (e : Endpoint) : Prop := e.session.conn.state ≠ .kDisconnected

instance (e : Endpoint) : Decidable e.Open := inferInstanceAs (Decidable (¬_))

def got (e : Endpoint) : Bytes := e.taken ++ e.session.conn.inputBuffer.readable

def unsent (e : Endpoint) : Bytes := e.session.conn.outputBuffer.readable

def halfClosed (e : Endpoint) : Prop := .shutdownWrite ∈ e.session.log

instance (e : Endpoint) : Decidable e.halfClosed := inferInstanceAs (Decidable (_ ∈ _))

end Endpoint

namespace Link

-- ---------------------------------------------------------------------------
-- Steps
-- ---------------------------------------------------------------------------

inductive Action
  /-- Calls of the user, from the thread of the loop. -/
  | send (data : Bytes) (r : WriteResult)
  | shutdown
  | retrieve (len : Nat)
  | read (r : ReadResult)
  | write (r : WriteResult)
  | close

structure Label where
  side : Bool
  action : Action

def pair (i : Bool) (me you : Endpoint) : Link := fun j => if j = i then me else you

/-- What is written goes to the other side. -/
def run (l : Link) (i : Bool) (call : Call) : Except Fault Link := do
  let (c, effects) ← call.run (l i).session.conn
  return pair i { l i with session := (l i).session.after call c effects }
    { l (!i) with arriving := (l (!i)).arriving ++ accepted effects }

def consume (l : Link) (i : Bool) (bytes : Bytes) : Link :=
  pair i { l i with
    arriving := (l i).arriving.drop bytes.length
    ended := (l i).ended || decide (bytes = []) } (l (!i))

def act (l : Link) (i : Bool) : Action → Except Fault Link
  | .send data r =>
    if (l i).session.conn.state = .kConnected then l.run i (.sendInLoop data r) else return l
  | .shutdown => l.run i (.shutdown true)
  | .retrieve len => do
    let conn := (l i).session.conn
    let inputBuffer ← onBuffer (conn.inputBuffer.retrieve len)
    return pair i { l i with
      session := { (l i).session with conn := { conn with inputBuffer } }
      taken := (l i).taken ++ conn.inputBuffer.readable.take len } (l (!i))
  | .read (.data bytes) => return (← l.run i (.handleRead (.data bytes))).consume i bytes
  | .read (.error errno) => l.run i (.handleRead (.error errno))
  | .write r => l.run i (.handleWrite r)
  | .close => l.run i .handleClose

/-- `write` fails with `EPIPE` only when the other side is closed, and then goes
on doing so. -/
def Answers (l : Link) (i : Bool) (offered : Bytes) (r : WriteResult) : Prop :=
  r.Fits offered ∧ (Broken (l i).session.log → r = .error EPIPE) ∧
    (r = .error EPIPE → ¬(l (!i)).Open)

def Enabled (l : Link) (i : Bool) : Action → Prop
  | .send data r => l.Answers i data r
  | .shutdown => True
  | .retrieve len => len ≤ (l i).session.conn.inputBuffer.readableBytes
  | .read (.data bytes) => (l i).Open ∧ bytes <+: (l i).arriving ∧
    (bytes = [] → (l i).arriving = [] ∧ ((l (!i)).halfClosed ∨ ¬(l (!i)).Open))
  | .read (.error _) => (l i).Open
  | .write r => (l i).Open ∧ l.Answers i (l i).unsent r
  | .close => (l i).Open

def machine : Machine Link Label Fault where
  enabled l a := Enabled l a.side a.action
  step l a := l.act a.side a.action

instance (l : Link) (i : Bool) (offered : Bytes) (r : WriteResult) :
    Decidable (l.Answers i offered r) :=
  inferInstanceAs (Decidable (_ ∧ _ ∧ _))

instance (l : Link) (a : Label) : Decidable (machine.enabled l a) := by
  obtain ⟨i, a⟩ := a
  cases a with
  | read r => cases r <;> simp only [machine, Enabled] <;> infer_instance
  | _ =>
    simp only [machine, Enabled]
    infer_instance

-- ---------------------------------------------------------------------------
-- Where the bytes are
-- ---------------------------------------------------------------------------

structure Good (e : Endpoint) : Prop where
  stream : Stream e.session
  half : HalfClose e.session

structure Carried (me you : Endpoint) : Prop where
  whole : me.got ++ me.arriving = accepted you.session.log
  unrefused : me.Open → you.session.refused = false
  closed : me.ended = true → ¬me.Open
  ending : me.ended = true → you.halfClosed ∨ ¬you.Open
  complete : me.ended = true → you.halfClosed → me.got = you.session.given

def Inv (l : Link) : Prop := ∀ i, Good (l i) ∧ Carried (l i) (l (!i))

variable {l : Link} {me you me' you' : Endpoint} {c c' : TcpConnection} {effects : List Effect}

theorem inv_pair (i : Bool) (hme : Good me) (hyou : Good you) (h : Carried me you)
    (h' : Carried you me) : Inv (pair i me you) := by
  intro j
  cases i <;> cases j <;> simp [pair] <;> constructor <;> assumption

theorem Carried.keep (h : Carried me you) (hgot : me'.got = me.got)
    (harriving : me'.arriving = me.arriving) (hended : me'.ended = me.ended)
    (hopen : me'.Open → me.Open) (hsession : you'.session = you.session) : Carried me' you' where
  whole := by rw [hgot, harriving, hsession, h.whole]
  unrefused ho := by rw [hsession, h.unrefused (hopen ho)]
  closed he ho := h.closed (hended ▸ he) (hopen ho)
  ending he := by
    simp only [Endpoint.halfClosed, Endpoint.Open, hsession]
    exact h.ending (hended ▸ he)
  complete he hh := by
    rw [hgot, hsession]
    exact h.complete (hended ▸ he) (by simpa only [Endpoint.halfClosed, hsession] using hh)

theorem Carried.speak (h : Carried you me) (hopen : me.Open ∨ c = me.session.conn ∧ effects = [])
    (hdata : me.halfClosed ∨ ¬me.Open → call.data = [])
    (hbroken : you.Open → call.isSend = true → ¬Broken effects) :
    Carried { you with arriving := you.arriving ++ accepted effects }
      { me with session := me.session.after call c effects } where
  whole := by
    simp only [Session.after, accepted_append, ← h.whole, List.append_assoc]
    rfl
  unrefused ho := by
    have hno : (call.isSend && decide (Broken effects)) = false := by
      cases hs : call.isSend with
      | false => rfl
      | true => simpa using hbroken ho hs
    simp only [Session.after, h.unrefused ho, hno, Bool.or_false]
  closed he := h.closed he
  ending he := by
    rcases h.ending he with hh | hc
    · exact .inl (List.mem_append_left _ hh)
    · rcases hopen with ho | ⟨hconn, -⟩
      · exact absurd ho hc
      · right
        simpa only [Endpoint.Open, Session.after, hconn] using hc
  complete he hh := by
    have hold : me.halfClosed := by
      rcases h.ending he with hold | hc
      · exact hold
      · rcases hopen with ho | ⟨-, rfl⟩
        · exact absurd ho hc
        · simpa [Endpoint.halfClosed, Session.after] using hh
    have hgot := h.complete he hold
    simpa [Endpoint.got, Session.after, hdata (.inl hold)] using hgot

theorem Inv.run (h : Inv l) (i : Bool) (call : Call)
    (hrun : call.run (l i).session.conn = .ok (c, effects))
    (hgood : Good { l i with session := (l i).session.after call c effects })
    (hinput : c.inputBuffer = (l i).session.conn.inputBuffer)
    (hopen : (l i).Open ∨ c = (l i).session.conn ∧ effects = [])
    (hdata : (l i).halfClosed ∨ ¬(l i).Open → call.data = [])
    (hbroken : (l (!i)).Open → call.isSend = true → ¬Broken effects) :
    ∃ l', l.run i call = .ok l' ∧ Inv l' := by
  refine ⟨_, by simp only [Link.run, hrun, ok_bind]; rfl, ?_⟩
  obtain ⟨hyou, hback⟩ := h (!i)
  rw [Bool.not_not] at hback
  refine inv_pair i hgood ⟨hyou.stream, hyou.half⟩ ?_ (hback.speak hopen hdata hbroken)
  refine (h i).2.keep ?_ rfl rfl (fun ho => ?_) rfl
  · simp only [Endpoint.got, Session.after, hinput]
  · rcases hopen with hopen | ⟨hconn, -⟩
    · exact hopen
    · simpa only [Endpoint.Open, Session.after, hconn] using ho

-- ---------------------------------------------------------------------------
-- Calls
-- ---------------------------------------------------------------------------

variable {e : Endpoint}

/-- Where a direct write fails with `EPIPE`, it was told so. -/
theorem sendInLoop_broken (hc : c.Ok) (hopen : c.state ≠ .kDisconnected) (hfit : r.Fits data)
    (hs : c.sendInLoop data r = .ok (c', effects)) (hb : Broken effects) : r = .error EPIPE := by
  obtain ⟨out, -, -, hsend⟩ := sendInLoop_ok hc hopen (nwrote_le hfit)
  rw [hsend] at hs
  cases hs
  obtain ⟨e, hm, he⟩ := hb
  rcases List.mem_append.mp hm with hm | hm
  · unfold writeDirectly at hm
    split at hm
    · cases r with
      | accepted n =>
        simp only [List.mem_cons] at hm
        rcases hm with rfl | hm
        · cases he
        · split at hm
          · cases List.mem_singleton.mp hm
            cases he
          · cases hm
      | error errno =>
        cases List.mem_singleton.mp hm
        simpa [isEpipe] using he
    · cases hm
  · exact absurd ⟨e, by split at hm <;> [cases hm; exact hm], he⟩ (quiet_crossing _ _).2

theorem Good.send (h : Good e) (hs : e.session.conn.state = .kConnected) (hfit : r.Fits data)
    (hb : Broken e.session.log → r = .error EPIPE) :
    ∃ c effects, e.session.conn.sendInLoop data r = .ok (c, effects) ∧
      Good { e with session := e.session.after (.sendInLoop data r) c effects } ∧
      c.inputBuffer = e.session.conn.inputBuffer := by
  have hopen : e.session.conn.state ≠ .kDisconnected := by simp [hs]
  obtain ⟨c, effects, hsend, hst⟩ := h.stream.sendInLoop hopen hfit hb
  obtain ⟨hstate, hinput, hq⟩ := sendInLoop_rest h.stream.ok hopen hfit hsend
  exact ⟨c, effects, hsend, ⟨hst, h.half.writing hs (hstate.trans hs) hq⟩, hinput⟩

theorem Good.write (h : Good e) (ho : e.Open) (hfit : r.Fits e.unsent) :
    ∃ c effects, e.session.conn.handleWrite r = .ok (c, effects) ∧
      Good { e with session := e.session.after (.handleWrite r) c effects } ∧
      c.inputBuffer = e.session.conn.inputBuffer := by
  obtain ⟨c, effects, hwrite, hst⟩ := h.stream.handleWrite ho hfit
  obtain ⟨out, channel, rfl⟩ := handleWrite_rest hwrite
  exact ⟨_, effects, hwrite, ⟨hst, h.half.handleWrite h.stream ho hfit hwrite⟩, rfl⟩

theorem Good.close (h : Good e) (ho : e.Open) :
    ∃ c effects, e.session.conn.handleClose = .ok (c, effects) ∧
      Good { e with session := e.session.after .handleClose c effects } ∧
      c.inputBuffer = e.session.conn.inputBuffer := by
  obtain ⟨c, effects, hclose, hst⟩ := h.stream.handleClose ho
  have hclosed := hclose
  rw [handleClose_ok (open_cases h.stream.state ho)] at hclosed
  cases hclosed
  exact ⟨_, _, hclose, ⟨hst, h.half.silent (by simp [speaks]) (.inr rfl) rfl⟩, rfl⟩

theorem shutdown_rest (c : TcpConnection) : (c.shutdown true).1.inputBuffer = c.inputBuffer ∧
    (c.state ≠ .kDisconnected ∨ (c.shutdown true).1 = c ∧ (c.shutdown true).2 = []) := by
  unfold TcpConnection.shutdown
  split
  · rename_i hs
    exact ⟨rfl, .inl (by simp [hs])⟩
  · exact ⟨rfl, .inr ⟨rfl, rfl⟩⟩

theorem Good.read (h : Good e) (ho : e.Open) (bytes : Bytes) :
    ∃ c effects, e.session.conn.handleRead (.data bytes) = .ok (c, effects) ∧
      Good { e with session := e.session.after (.handleRead (.data bytes)) c effects } ∧
      c.inputBuffer.readable = e.session.conn.inputBuffer.readable ++ bytes ∧
      accepted effects = [] ∧ (bytes = [] → c.state = .kDisconnected) := by
  obtain ⟨c, effects, hread, hst⟩ := h.stream.handleRead (r := .data bytes) ho
  obtain ⟨input, hbuf, -, hinput⟩ := Buffer.readFd_data h.stream.ok.input bytes
  have hread' := hread
  unfold TcpConnection.handleRead at hread'
  rw [hbuf, onBuffer_ok, ok_bind] at hread'
  cases bytes with
  | nil =>
    have hclose := handleClose_ok (c := { e.session.conn with inputBuffer := input })
      (open_cases h.stream.state ho)
    cases hclose.symm.trans hread'
    exact ⟨_, _, hread, ⟨hst, h.half.silent (by simp [speaks]) (.inr rfl) rfl⟩, hinput,
      by simp [accepted], fun _ => rfl⟩
  | cons b bs =>
    have hpos : (0 : Int) < ((b :: bs).length : Int) := by simp
    simp only [if_pos hpos] at hread'
    cases hread'
    exact ⟨_, _, hread, ⟨hst, h.half.silent (by simp [speaks]) (.inl rfl) rfl⟩, hinput,
      by simp [accepted], by rintro ⟨⟩⟩

theorem Good.readError (h : Good e) (ho : e.Open) (errno : Errno) :
    e.session.conn.handleRead (.error errno) = .ok (e.session.conn, []) ∧
      Good { e with
        session := e.session.after (.handleRead (.error errno)) e.session.conn [] } := by
  have hread : e.session.conn.handleRead (.error errno) = .ok (e.session.conn, []) := rfl
  obtain ⟨c, effects, hread', hst⟩ := h.stream.handleRead (r := .error errno) ho
  cases hread.symm.trans hread'
  exact ⟨hread, hst, h.half.silent (by simp) (.inl rfl) rfl⟩

-- ---------------------------------------------------------------------------
-- Runs
-- ---------------------------------------------------------------------------

/-- The stream ends behind the last byte that was given. -/
theorem Carried.last (h : Carried me you) (hyou : Good you) (ho : me.Open) (hnil : me.arriving = [])
    (hh : you.halfClosed) : me.got = you.session.given := by
  have hwhole := hyou.stream.whole (h.unrefused ho)
  rw [(hyou.half.finished hh).2, List.append_nil, ← h.whole, hnil, List.append_nil] at hwhole
  exact hwhole

theorem Inv.read (h : Inv l) {bytes : Bytes} (hen : Enabled l i (.read (.data bytes))) :
    ∃ l', l.act i (.read (.data bytes)) = .ok l' ∧ Inv l' := by
  obtain ⟨ho, ⟨rest, harriving⟩, hend⟩ := hen
  obtain ⟨hme, hin⟩ := h i
  obtain ⟨hyou, hback⟩ := h (!i)
  rw [Bool.not_not] at hback
  obtain ⟨c, effects, hread, hgood, hinput, hsaid, hclosed⟩ := hme.read ho bytes
  refine ⟨_, by simp only [act, Link.run, Call.run, hread, ok_bind]; rfl, ?_⟩
  have hself : ∀ me you, pair i me you i = me := fun me you => by simp [pair]
  have hother : ∀ me you, pair i me you (!i) = you := fun me you => by cases i <;> simp [pair]
  rw [consume, hself, hother]
  refine inv_pair i ⟨hgood.stream, hgood.half⟩ ⟨hyou.stream, hyou.half⟩ ?_ ?_
  · have hgot : (l i).got ++ bytes = (l i).taken ++ c.inputBuffer.readable := by
      rw [hinput, Endpoint.got, List.append_assoc]
    have hopen : (l i).ended = true → False := fun he => hin.closed he ho
    refine ⟨?_, fun _ => hin.unrefused ho, fun he => ?_, fun he => ?_, fun he hh => ?_⟩
    · show (l i).taken ++ c.inputBuffer.readable ++ (l i).arriving.drop bytes.length = _
      rw [← hgot, ← harriving, List.drop_left, List.append_assoc, harriving]
      exact hin.whole
    · rcases Bool.or_eq_true_iff.mp he with he | he
      · exact absurd he hopen
      · simpa [Endpoint.Open, Session.after] using hclosed (of_decide_eq_true he)
    · rcases Bool.or_eq_true_iff.mp he with he | he
      · exact absurd he hopen
      · exact (hend (of_decide_eq_true he)).2
    · rcases Bool.or_eq_true_iff.mp he with he | he
      · exact absurd he hopen
      · have hnil := of_decide_eq_true he
        show (l i).taken ++ c.inputBuffer.readable = (l (!i)).session.given
        rw [← hgot, hnil, List.append_nil]
        exact hin.last hyou ho (hend hnil).1 hh
  · have hspeak : Carried { l (!i) with arriving := (l (!i)).arriving ++ accepted effects }
        { l i with session := (l i).session.after (.handleRead (.data bytes)) c effects } :=
      hback.speak (.inl ho) (fun _ => rfl) (by rintro _ ⟨⟩)
    exact hspeak.keep rfl rfl rfl id rfl

theorem Inv.retrieve (h : Inv l) (hen : Enabled l i (.retrieve len)) :
    ∃ l', l.act i (.retrieve len) = .ok l' ∧ Inv l' := by
  obtain ⟨hme, hin⟩ := h i
  obtain ⟨hyou, hback⟩ := h (!i)
  rw [Bool.not_not] at hback
  obtain ⟨input, hret, hv, hinput⟩ := Buffer.retrieve_ok hme.stream.ok.input hen
  refine ⟨_, by simp only [act, hret, onBuffer_ok, ok_bind]; rfl, inv_pair i ⟨?_, ?_⟩ hyou ?_ ?_⟩
  · have hst := hme.stream
    exact ⟨⟨hv, hst.ok.output, hst.ok.plain⟩, hst.state, hst.interest, hst.whole, hst.gone⟩
  · exact ⟨hme.half.connected, hme.half.drained, hme.half.finished⟩
  · refine hin.keep ?_ rfl rfl id rfl
    simp [Endpoint.got, hinput]
  · exact ⟨hback.whole, hback.unrefused, hback.closed, hback.ending, hback.complete⟩

theorem inv_safe : machine.Safe Inv := by
  rintro l ⟨i, a⟩ h hen
  obtain ⟨hme, hin⟩ := h i
  have hshut : (l i).halfClosed → (l i).session.conn.state ≠ .kConnected :=
    fun hh hs => hme.half.connected hs hh
  cases a with
  | send data r =>
    obtain ⟨hfit, hb, hrefused⟩ := hen
    simp only [machine, act]
    split
    · rename_i hs
      obtain ⟨c, effects, hsend, hgood, hinput⟩ := hme.send hs hfit hb
      have ho : (l i).Open := by simp [Endpoint.Open, hs]
      refine h.run i _ hsend hgood hinput (.inl ho) (fun hn => ?_) fun hyou _ hbroken => ?_
      · rcases hn with hh | hc
        · exact absurd hs (hshut hh)
        · exact absurd ho hc
      · exact hrefused (sendInLoop_broken hme.stream.ok ho hfit hsend hbroken) hyou
    · exact ⟨l, rfl, h⟩
  | shutdown =>
    obtain ⟨hinput, hrest⟩ := shutdown_rest (l i).session.conn
    exact h.run i (.shutdown true) rfl ⟨hme.stream.shutdown true, hme.half.shutdown hme.stream⟩
      hinput hrest (fun _ => rfl) fun _ => nofun
  | retrieve len => exact h.retrieve hen
  | read r =>
    cases r with
    | data bytes => exact h.read hen
    | error errno =>
      obtain ⟨hread, hgood⟩ := hme.readError hen errno
      exact h.run i (.handleRead (.error errno)) hread hgood rfl (.inl hen) (fun _ => rfl)
        fun _ => nofun
  | write r =>
    obtain ⟨ho, hfit, -, -⟩ := hen
    obtain ⟨c, effects, hwrite, hgood, hinput⟩ := hme.write ho hfit
    exact h.run i (.handleWrite r) hwrite hgood hinput (.inl ho) (fun _ => rfl) fun _ => nofun
  | close =>
    obtain ⟨c, effects, hclose, hgood, hinput⟩ := hme.close hen
    exact h.run i .handleClose hclose hgood hinput (.inl hen) (fun _ => rfl) fun _ => nofun

def start (c : Bool → TcpConnection) (effects : Bool → List Effect) : Link :=
  fun i => { session := OutputStream.start (c i) (effects i) }

theorem start_inv {new c : Bool → TcpConnection} {effects : Bool → List Effect}
    (hnew : ∀ i, (new i).New) (he : ∀ i, (new i).connectEstablished = .ok (c i, effects i)) :
    Inv (start c effects) := by
  intro i
  have hlog (j : Bool) : effects j = [.connectionCallback true] ∧ (c j).state = .kConnected ∧
      (c j).inputBuffer = Buffer.fresh := by
    have hj := he j
    rw [connectEstablished_ok (hnew j).state, Except.ok.injEq, Prod.mk.injEq] at hj
    obtain ⟨hc, heff⟩ := hj
    exact ⟨heff.symm, by rw [← hc], by rw [← hc]; exact (hnew j).input⟩
  refine ⟨⟨start_stream (hnew i) (he i), ?_⟩, ?_, fun _ => rfl, nofun, nofun, nofun⟩
  · obtain ⟨heff, hstate, -⟩ := hlog i
    refine ⟨fun _ => ?_, fun hd => ?_, fun hm => ?_⟩ <;>
      simp_all [start, OutputStream.start]
  · obtain ⟨heff, -, -⟩ := hlog (!i)
    simp [Endpoint.got, start, OutputStream.start, (hlog i).2.2, Buffer.fresh_readable, heff,
      accepted]

end Link

end Muduo
