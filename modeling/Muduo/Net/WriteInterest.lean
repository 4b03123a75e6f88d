import Muduo.Net.ConnectionLife
import Muduo.Net.OutputStream

/-!
# Write interest

The member functions of a connection in any order, with any results of the
system calls. The channel asks for writable events exactly as long as the output
buffer holds something.
-/

namespace Muduo.WriteInterest

open Lib TcpConnection
open OutputStream (Interest)

/-- A functor may be run at any time, and with any message. -/
inductive Label
  | connectEstablished
  | send (inLoop : Bool) (data : Bytes) (wr : WriteResult)
  | handle (cb : Channel.Callback) (rd : ReadResult) (wr : WriteResult)
  | runFunctor (f : Functor) (wr : WriteResult)
  | shutdown (inLoop : Bool)
  /-- The user takes bytes from the input buffer. -/
  | retrieve (len : Nat)
  | connectDestroyed
  deriving DecidableEq

def Enabled (c : TcpConnection) : Label → Prop
  | .send _ data wr => wr.Fits data
  | .handle _ _ wr => wr.Fits c.outputBuffer.readable
  | .runFunctor (.sendInLoop message) wr => wr.Fits message
  | .retrieve len => len ≤ c.inputBuffer.readableBytes
  | _ => True

def step (c : TcpConnection) : Label → Except Fault TcpConnection
  | .connectEstablished => return (← c.connectEstablished).1
  | .send inLoop data wr => return (← c.send inLoop data wr).1
  | .handle cb rd wr => return (← c.handle rd wr cb).1
  | .runFunctor f wr => return (← c.runFunctor wr f).1
  | .shutdown inLoop => return (c.shutdown inLoop).1
  | .retrieve len => return { c with inputBuffer := ← onBuffer (c.inputBuffer.retrieve len) }
  | .connectDestroyed => return (← c.connectDestroyed).1

def machine : Machine TcpConnection Label Fault where
  enabled := Enabled
  step := step

instance (c : TcpConnection) (a : Label) : Decidable (machine.enabled c a) := by
  unfold machine Enabled
  simp only
  split <;> infer_instance

-- ---------------------------------------------------------------------------
-- One lemma a function
-- ---------------------------------------------------------------------------

structure Tracks (c : TcpConnection) : Prop where
  ok : c.Ok
  interest : Interest c

variable {c c' : TcpConnection} {effects : List Effect}

theorem New.tracks (h : c.New) : Tracks c := by
  refine ⟨h.ok, fun _ => iff_of_false ?_ ?_⟩
  · exact Channel.isNoneEvent.not_isWriting h.events
  · rw [h.output, Buffer.fresh_readable]
    exact not_not_intro rfl

theorem Tracks.sendInLoop (h : Tracks c) (hfit : r.Fits data)
    (hs : c.sendInLoop data r = .ok (c', effects)) : Tracks c' := by
  by_cases hopen : c.state = .kDisconnected
  · rw [sendInLoop_closed hopen] at hs
    cases hs
    exact h
  · obtain ⟨out, hv, ho, hsend⟩ := sendInLoop_ok h.ok hopen (nwrote_le hfit)
    rw [hsend] at hs
    cases hs
    obtain ⟨hok, hint⟩ := h.interest.kept h.ok hv ho
    exact ⟨hok, hint⟩

theorem Tracks.handleWrite (h : Tracks c) (hfit : r.Fits c.outputBuffer.readable)
    (hs : c.handleWrite r = .ok (c', effects)) : Tracks c' := by
  by_cases hw : c.channel.isWriting
  · rcases r.some_or_none with ⟨n, rfl, h0⟩ | hnone
    · obtain ⟨out, hv, -, hwrite⟩ := handleWrite_some h.ok hw h0
        (by rw [← h.ok.output.length_readable]; exact hfit)
      rw [hwrite] at hs
      cases hs
      obtain ⟨hok, hint⟩ := OutputStream.interest_written h.ok hv hw
      exact ⟨hok, hint⟩
    · rw [handleWrite_none hw hnone] at hs
      cases hs
      exact h
  · rw [handleWrite_idle hw] at hs
    cases hs
    exact h

theorem Tracks.close (h : Tracks c) :
    Tracks { c with state := .kDisconnected, channel := c.channel.disableAll } :=
  ⟨⟨h.ok.input, h.ok.output, h.ok.plain.apply .disableAll⟩, fun hne => absurd rfl hne⟩

theorem Tracks.handleClose (h : Tracks c) (hs : c.handleClose = .ok (c', effects)) :
    Tracks c' := by
  obtain ⟨_, -, hs⟩ := bind_ok.mp hs
  cases hs
  exact h.close

theorem Tracks.setInput {input : Buffer} (h : Tracks c) (hv : input.Valid) :
    Tracks { c with inputBuffer := input } :=
  ⟨⟨hv, h.ok.output, h.ok.plain⟩, h.interest⟩

theorem Tracks.handleRead (h : Tracks c) (hs : c.handleRead r = .ok (c', effects)) :
    Tracks c' := by
  cases r with
  | error errno =>
    cases hs
    exact h
  | data bytes =>
    obtain ⟨input, hread, hv, -⟩ := Buffer.readFd_data h.ok.input bytes
    simp only [TcpConnection.handleRead, hread, onBuffer_ok, ok_bind] at hs
    split at hs
    · cases hs
      exact h.setInput hv
    · split at hs
      · exact (h.setInput hv).handleClose hs
      · cases hs
        exact h.setInput hv

theorem Tracks.handle (h : Tracks c) (hfit : wr.Fits c.outputBuffer.readable)
    (hs : c.handle rd wr cb = .ok (c', effects)) : Tracks c' := by
  cases cb with
  | close => exact h.handleClose hs
  | error =>
    cases hs
    exact h
  | read => exact h.handleRead hs
  | write => exact h.handleWrite hfit hs

theorem Tracks.runFunctor (h : Tracks c) (hfit : ∀ m, f = .sendInLoop m → wr.Fits m)
    (hs : c.runFunctor wr f = .ok (c', effects)) : Tracks c' := by
  cases f with
  | sendInLoop message => exact h.sendInLoop (hfit message rfl) hs
  | shutdownInLoop | writeComplete | highWaterMark _ =>
    cases hs
    exact h

theorem Tracks.send (h : Tracks c) (hfit : wr.Fits data)
    (hs : c.send inLoop data wr = .ok (c', effects)) : Tracks c' := by
  unfold TcpConnection.send at hs
  split at hs
  · split at hs
    · exact h.sendInLoop hfit hs
    · cases hs
      exact h
  · cases hs
    exact h

theorem Tracks.shutdown (h : Tracks c) (inLoop : Bool) : Tracks (c.shutdown inLoop).1 := by
  unfold TcpConnection.shutdown
  split
  · rename_i hs
    exact ⟨⟨h.ok.input, h.ok.output, h.ok.plain⟩, fun _ => h.interest (by simp [hs])⟩
  · exact h

theorem Tracks.connectEstablished (h : Tracks c)
    (hs : c.connectEstablished = .ok (c', effects)) : Tracks c' := by
  obtain ⟨_, hstate, hs⟩ := bind_ok.mp hs
  cases hs
  refine ⟨⟨h.ok.input, h.ok.output, h.ok.plain.apply .enableReading⟩, fun _ => ?_⟩
  have hint := h.interest (by simp [ensure_ok.mp hstate])
  simp only [Channel.enableReading_isWriting]
  exact hint

theorem Tracks.connectDestroyed (h : Tracks c)
    (hs : c.connectDestroyed = .ok (c', effects)) : Tracks c' := by
  unfold TcpConnection.connectDestroyed at hs
  split at hs
  · simp only [ok_bind] at hs
    obtain ⟨_, -, hs⟩ := bind_ok.mp hs
    cases hs
    exact h.close
  · simp only [ok_bind] at hs
    obtain ⟨_, -, hs⟩ := bind_ok.mp hs
    cases hs
    exact h

theorem Tracks.retrieve (h : Tracks c) (hlen : len ≤ c.inputBuffer.readableBytes)
    (hs : onBuffer (c.inputBuffer.retrieve len) = .ok input) :
    Tracks { c with inputBuffer := input } := by
  obtain ⟨input', hret, hv, -⟩ := Buffer.retrieve_ok h.ok.input hlen
  rw [hret, onBuffer_ok] at hs
  cases hs
  exact h.setInput hv

-- ---------------------------------------------------------------------------
-- Runs
-- ---------------------------------------------------------------------------

theorem tracks_keeps : machine.Keeps Tracks := by
  intro c a t h ha hs
  cases a with
  | connectEstablished =>
    obtain ⟨⟨_, _⟩, hr, hs⟩ := bind_ok.mp hs
    cases hs
    exact h.connectEstablished hr
  | send inLoop data wr =>
    obtain ⟨⟨_, _⟩, hr, hs⟩ := bind_ok.mp hs
    cases hs
    exact h.send ha hr
  | handle cb rd wr =>
    obtain ⟨⟨_, _⟩, hr, hs⟩ := bind_ok.mp hs
    cases hs
    exact h.handle ha hr
  | runFunctor f wr =>
    obtain ⟨⟨_, _⟩, hr, hs⟩ := bind_ok.mp hs
    cases hs
    refine h.runFunctor ?_ hr
    rintro m rfl
    exact ha
  | shutdown inLoop =>
    cases hs
    exact h.shutdown inLoop
  | retrieve len =>
    obtain ⟨_, hr, hs⟩ := bind_ok.mp hs
    cases hs
    exact h.retrieve ha hr
  | connectDestroyed =>
    obtain ⟨⟨_, _⟩, hr, hs⟩ := bind_ok.mp hs
    cases hs
    exact h.connectDestroyed hr

open ConnectionLife (Life) in
/-- Every step of a life is one of these, or leaves the connection. -/
theorem life_step {s t : Life} (ha : ConnectionLife.machine.enabled s a)
    (hs : ConnectionLife.machine.step s a = .ok t) :
    t.conn = s.conn ∨ ∃ b, machine.enabled s.conn b ∧ machine.step s.conn b = .ok t.conn := by
  cases a with
  | connectEstablished =>
    obtain ⟨⟨_, _⟩, hr, hs⟩ := bind_ok.mp hs
    cases hs
    exact .inr ⟨.connectEstablished, trivial, bind_ok.mpr ⟨_, hr, rfl⟩⟩
  | event revents =>
    cases hs
    exact .inl rfl
  | dispatch rd wr =>
    simp only [ConnectionLife.machine, ConnectionLife.step] at hs
    split at hs
    · cases hs
      exact .inl rfl
    · rename_i cb todo htodo
      obtain ⟨⟨_, _⟩, hr, hs⟩ := bind_ok.mp hs
      cases hs
      exact .inr ⟨.handle cb rd wr, ha.2, bind_ok.mpr ⟨_, hr, rfl⟩⟩
  | functor wr =>
    simp only [ConnectionLife.machine, ConnectionLife.step] at hs
    split at hs
    · cases hs
      exact .inl rfl
    · rename_i f pending hp
      obtain ⟨⟨_, _⟩, hr, hs⟩ := bind_ok.mp hs
      cases hs
      refine .inr ⟨.runFunctor f wr, ?_, bind_ok.mpr ⟨_, hr, rfl⟩⟩
      have hfit := ha.2
      rw [hp] at hfit
      cases f <;> exact hfit
  | send inLoop data wr =>
    obtain ⟨⟨_, _⟩, hr, hs⟩ := bind_ok.mp hs
    cases hs
    exact .inr ⟨.send inLoop data wr, ha, bind_ok.mpr ⟨_, hr, rfl⟩⟩
  | shutdown inLoop =>
    cases hs
    exact .inr ⟨.shutdown inLoop, trivial, rfl⟩
  | retrieve len =>
    obtain ⟨_, hr, hs⟩ := bind_ok.mp hs
    cases hs
    exact .inr ⟨.retrieve len, ha, bind_ok.mpr ⟨_, hr, rfl⟩⟩
  | connectDestroyed =>
    obtain ⟨⟨_, _⟩, hr, hs⟩ := bind_ok.mp hs
    cases hs
    exact .inr ⟨.connectDestroyed, trivial, bind_ok.mpr ⟨_, hr, rfl⟩⟩

theorem life_tracks (hnew : c.New) (h : ConnectionLife.machine.Run { conn := c } as s) :
    Tracks s.conn := by
  refine h.keeps (P := fun s => Tracks s.conn) ?_ (New.tracks hnew)
  intro s a t hs ha ht
  rcases life_step ha ht with heq | ⟨b, hb, hstep⟩
  · rw [heq]
    exact hs
  · exact tracks_keeps hs hb hstep

/-- An open connection is written out exactly as long as something is left. -/
theorem interest_tracks (hnew : c.New) (h : machine.Run c as t)
    (hopen : t.state = .kConnected ∨ t.state = .kDisconnecting) :
    t.channel.isWriting ↔ t.outputBuffer.readable ≠ [] := by
  refine (h.keeps tracks_keeps (New.tracks hnew)).interest ?_
  rcases hopen with hs | hs <;> simp [hs]

def newConnection : TcpConnection := { channel := { fd := 5 } }

theorem newConnection_new : newConnection.New := ⟨rfl, rfl, rfl, rfl⟩

/-- Half of what is sent stays in the buffer, and the connection is shut down. -/
theorem interest_tracks_half : ∃ t, machine.Run newConnection
    [.connectEstablished, .send true (ascii "hi") (.accepted 1), .shutdown false] t ∧
    (t.state = .kDisconnecting ∧ (t.channel.isWriting ↔ t.outputBuffer.readable ≠ [])) := by
  obtain ⟨t, h, hs⟩ : ∃ t, machine.Run newConnection
      [.connectEstablished, .send true (ascii "hi") (.accepted 1), .shutdown false] t ∧
      t.state = .kDisconnecting :=
    Machine.exists_run (by decide +kernel)
  exact ⟨t, h, hs, interest_tracks newConnection_new h (.inr hs)⟩

end Muduo.WriteInterest
