import Muduo.Net.TcpConnection

/-!
# Open and closed connections

A connection that is alive is open and reads, or is closed and has no interest
left. `Outcome` lists what a call can do to it: nothing the user sees, passing a
message on, or closing it. There is one lemma a function.
-/

namespace Muduo.TcpConnection

open Lib

variable {c : TcpConnection}

/-- From `connectEstablished` on. -/
structure Alive (c : TcpConnection) : Prop where
  ok : c.Ok
  state : c.state ≠ .kConnecting
  reading : c.state ≠ .kDisconnected → c.channel.isReading
  closed : c.state = .kDisconnected → c.channel.isNoneEvent

def Effect.isSilent : Effect → Bool
  | .write _ _ => true
  | .shutdownWrite => true
  | .queueInLoop _ => true
  | _ => false

structure Silent (c c' : TcpConnection) (effects : List Effect) : Prop where
  closed : c'.state = .kDisconnected ↔ c.state = .kDisconnected
  effects : ∀ e ∈ effects, e.isSilent

/-- What a call does to a connection that is alive. -/
inductive Outcome (c c' : TcpConnection) (effects : List Effect) : Prop
  | silent : Silent c c' effects → Outcome c c' effects
  | message : c'.state = c.state → effects = [.messageCallback] → Outcome c c' effects
  | closed : c.state ≠ .kDisconnected → c'.state = .kDisconnected →
      effects = [.connectionCallback false, .closeCallback] → Outcome c c' effects

theorem Silent.ne_message {effects : List Effect} (h : Silent c c' effects) : effects ≠ [.messageCallback] := by
  rintro rfl
  cases h.effects .messageCallback (List.mem_singleton_self _)

theorem Alive.isOpen (h : c.Alive) (ho : c.state ≠ .kDisconnected) :
    c.state = .kConnected ∨ c.state = .kDisconnecting := by
  have hk := h.state
  cases hs : c.state <;> simp_all

theorem connectEstablished_alive (hok : c.Ok)
    (h : c.connectEstablished = .ok (c', effects)) :
    c'.Alive ∧ c'.state = .kConnected ∧ effects = [.connectionCallback true] := by
  simp only [connectEstablished, bind_ok, ensure_ok] at h
  obtain ⟨-, -, h⟩ := h
  cases h
  refine ⟨⟨⟨hok.input, hok.output, hok.plain.apply .enableReading⟩, by simp, fun _ => ?_, by simp⟩,
    rfl, rfl⟩
  exact Channel.enableReading_isReading _

theorem crossing_silent (c : TcpConnection) (n : Nat) : ∀ e ∈ c.crossing n, e.isSilent := by
  unfold crossing
  simp only
  split <;> simp [Effect.isSilent]

theorem writeDirectly_silent (c : TcpConnection) (data : Bytes) (r : WriteResult) :
    ∀ e ∈ (c.writeDirectly data r).effects, e.isSilent := by
  unfold writeDirectly
  split
  · cases r with
    | accepted n =>
      simp only
      split <;> simp [Effect.isSilent]
    | error errno => simp [Effect.isSilent]
  · simp

theorem sendInLoop_silent (ha : c.Alive) (hfit : r.Fits data)
    (h : c.sendInLoop data r = .ok (c', effects)) : c'.Alive ∧ Silent c c' effects := by
  by_cases hs : c.state = .kDisconnected
  · rw [sendInLoop_closed hs] at h
    cases h
    exact ⟨ha, Iff.rfl, nofun⟩
  · obtain ⟨out, hv, -, hsend⟩ := sendInLoop_ok ha.ok hs (nwrote_le hfit)
    rw [hsend] at h
    cases h
    refine ⟨⟨⟨ha.ok.input, hv, ?_⟩, ha.state, fun ho => ?_, fun hc => absurd hc hs⟩,
      Iff.rfl, ?_⟩
    · simp only
      split
      · exact ha.ok.plain
      · exact ha.ok.plain.apply .enableWriting
    · simp only
      split
      · exact ha.reading hs
      · exact Channel.enableWriting_isReading (ha.reading hs)
    · intro e he
      rcases List.mem_append.mp he with he | he
      · exact writeDirectly_silent _ _ _ e he
      · split at he
        · cases he
        · exact crossing_silent _ _ e he

theorem handleWrite_silent (ha : c.Alive) (hfit : r.Fits c.outputBuffer.readable)
    (h : c.handleWrite r = .ok (c', effects)) : c'.Alive ∧ Silent c c' effects := by
  by_cases hw : c.channel.isWriting
  · have hs : c.state ≠ .kDisconnected := fun hs => (ha.closed hs).not_isWriting hw
    rcases r.some_or_none with ⟨n, rfl, h0⟩ | hnone
    · obtain ⟨out, hv, -, hwrite⟩ := handleWrite_some ha.ok hw h0
        (by rw [← ha.ok.output.length_readable]; exact hfit)
      rw [hwrite] at h
      cases h
      refine ⟨⟨⟨ha.ok.input, hv, ?_⟩, ha.state, fun _ => ?_, fun hc => absurd hc hs⟩,
        Iff.rfl, ?_⟩
      · simp only
        split
        · exact ha.ok.plain.apply .disableWriting
        · exact ha.ok.plain
      · simp only
        split
        · exact Channel.disableWriting_isReading (ha.reading hs)
        · exact ha.reading hs
      · split <;> (try split) <;> (try split) <;> simp [Effect.isSilent]
    · rw [handleWrite_none hw hnone] at h
      cases h
      exact ⟨ha, Iff.rfl, by simp [Effect.isSilent]⟩
  · rw [handleWrite_idle hw] at h
    cases h
    exact ⟨ha, Iff.rfl, nofun⟩

theorem handleClose_outcome (ha : c.Alive) (h : c.handleClose = .ok (c', effects)) :
    c'.Alive ∧ c.state ≠ .kDisconnected ∧ c'.state = .kDisconnected ∧
      effects = [.connectionCallback false, .closeCallback] := by
  simp only [handleClose, bind_ok, ensure_ok] at h
  obtain ⟨-, hs, h⟩ := h
  cases h
  refine ⟨⟨⟨ha.ok.input, ha.ok.output, ha.ok.plain.apply .disableAll⟩, by simp,
    fun hne => absurd rfl hne, fun _ => rfl⟩, ?_, rfl, rfl⟩
  rcases hs with hs | hs <;> simp [hs]

theorem handleRead_outcome (ha : c.Alive) (h : c.handleRead r = .ok (c', effects)) :
    c'.Alive ∧ Outcome c c' effects ∧
      (effects = [.messageCallback] ↔ ∃ b bs, r = .data (b :: bs)) := by
  cases r with
  | error errno =>
    cases h
    exact ⟨ha, .silent ⟨Iff.rfl, nofun⟩, by simp⟩
  | data bytes =>
    obtain ⟨input, hread, hv, -⟩ := Buffer.readFd_data ha.ok.input bytes
    simp only [handleRead, hread, onBuffer_ok, ok_bind] at h
    have ha' : ({ c with inputBuffer := input } : TcpConnection).Alive :=
      ⟨⟨hv, ha.ok.output, ha.ok.plain⟩, ha.state, ha.reading, ha.closed⟩
    cases bytes with
    | nil =>
      obtain ⟨hc', ho, hs, he⟩ := handleClose_outcome ha' h
      exact ⟨hc', .closed ho hs he, by simp [he]⟩
    | cons b bs =>
      have h0 : (0 : Int) < (b :: bs).length := Int.natCast_pos.mpr (Nat.succ_pos _)
      rw [if_pos h0] at h
      cases h
      exact ⟨ha', .message rfl rfl, by simp⟩

theorem shutdownInLoop_silent (c : TcpConnection) : ∀ e ∈ c.shutdownInLoop, e.isSilent := by
  unfold shutdownInLoop
  split <;> simp [Effect.isSilent]

theorem shutdown_silent (ha : c.Alive) (inLoop : Bool) :
    (c.shutdown inLoop).1.Alive ∧ Silent c (c.shutdown inLoop).1 (c.shutdown inLoop).2 := by
  unfold shutdown
  split
  · rename_i hs
    have ho : c.state ≠ .kDisconnected := by
      rw [hs]
      nofun
    refine ⟨⟨⟨ha.ok.input, ha.ok.output, ha.ok.plain⟩, nofun, fun _ => ha.reading ho, nofun⟩,
      iff_of_false nofun ho, ?_⟩
    simp only
    split
    · exact shutdownInLoop_silent _
    · simp [Effect.isSilent]
  · exact ⟨ha, Iff.rfl, nofun⟩

theorem send_silent (ha : c.Alive) (hfit : r.Fits data)
    (h : c.send inLoop data r = .ok (c', effects)) : c'.Alive ∧ Silent c c' effects := by
  unfold send at h
  split at h
  · split at h
    · exact sendInLoop_silent ha hfit h
    · cases h
      exact ⟨ha, Iff.rfl, by simp [Effect.isSilent]⟩
  · cases h
    exact ⟨ha, Iff.rfl, nofun⟩

theorem runFunctor_silent (ha : c.Alive) (hfit : ∀ m, f = .sendInLoop m → r.Fits m)
    (h : c.runFunctor r f = .ok (c', effects)) : c'.Alive ∧ Silent c c' effects := by
  cases f with
  | sendInLoop message => exact sendInLoop_silent ha (hfit _ rfl) h
  | shutdownInLoop =>
    cases h
    exact ⟨ha, Iff.rfl, shutdownInLoop_silent _⟩
  | writeComplete =>
    cases h
    exact ⟨ha, Iff.rfl, nofun⟩
  | highWaterMark size =>
    cases h
    exact ⟨ha, Iff.rfl, nofun⟩

/-- Only the close and the read callback pass on anything. -/
theorem handle_silent (ha : c.Alive) (hfit : wr.Fits c.outputBuffer.readable)
    (hcb : cb.closes = false) (h : c.handle rd wr cb = .ok (c', effects)) :
    c'.Alive ∧ Silent c c' effects := by
  cases cb with
  | close => cases hcb
  | read => cases hcb
  | error =>
    cases h
    exact ⟨ha, Iff.rfl, nofun⟩
  | write => exact handleWrite_silent ha hfit h

theorem handle_outcome (ha : c.Alive) (hfit : wr.Fits c.outputBuffer.readable)
    (h : c.handle rd wr cb = .ok (c', effects)) :
    c'.Alive ∧ Outcome c c' effects ∧
      (effects = [.messageCallback] ↔ cb = .read ∧ ∃ b bs, rd = .data (b :: bs)) := by
  cases cb with
  | close =>
    obtain ⟨ha', ho, hs, he⟩ := handleClose_outcome ha h
    exact ⟨ha', .closed ho hs he, by simp [he]⟩
  | error =>
    cases h
    exact ⟨ha, .silent ⟨Iff.rfl, nofun⟩, by simp⟩
  | read =>
    obtain ⟨ha', ho, hm⟩ := handleRead_outcome ha h
    exact ⟨ha', ho, by rw [hm, eq_self, true_and]⟩
  | write =>
    obtain ⟨ha', hs⟩ := handleWrite_silent ha hfit h
    exact ⟨ha', .silent hs, iff_of_false hs.ne_message nofun⟩

-- ---------------------------------------------------------------------------
-- No assertion fails
-- ---------------------------------------------------------------------------

theorem sendInLoop_total (hok : c.Ok) (hfit : r.Fits data) :
    ∃ x, c.sendInLoop data r = .ok x := by
  by_cases hs : c.state = .kDisconnected
  · exact ⟨_, sendInLoop_closed hs⟩
  · obtain ⟨out, -, -, hsend⟩ := sendInLoop_ok hok hs (nwrote_le hfit)
    exact ⟨_, hsend⟩

theorem send_total (inLoop : Bool) (hok : c.Ok) (hfit : r.Fits data) : ∃ x, c.send inLoop data r = .ok x := by
  unfold send
  split
  · split
    · exact sendInLoop_total hok hfit
    · exact ⟨_, rfl⟩
  · exact ⟨_, rfl⟩

theorem runFunctor_total (hok : c.Ok) (hfit : ∀ m, f = .sendInLoop m → r.Fits m) :
    ∃ x, c.runFunctor r f = .ok x := by
  cases f with
  | sendInLoop message => exact sendInLoop_total hok (hfit _ rfl)
  | shutdownInLoop => exact ⟨_, rfl⟩
  | writeComplete => exact ⟨_, rfl⟩
  | highWaterMark size => exact ⟨_, rfl⟩

theorem handleWrite_total (hok : c.Ok) (hfit : r.Fits c.outputBuffer.readable) :
    ∃ x, c.handleWrite r = .ok x := by
  by_cases hw : c.channel.isWriting
  · rcases r.some_or_none with ⟨n, rfl, h0⟩ | hnone
    · obtain ⟨out, -, -, hwrite⟩ := handleWrite_some hok hw h0
        (by rw [← hok.output.length_readable]; exact hfit)
      exact ⟨_, hwrite⟩
    · exact ⟨_, handleWrite_none hw hnone⟩
  · exact ⟨_, handleWrite_idle hw⟩

theorem handle_total (rd : ReadResult) (ha : c.Alive) (hfit : wr.Fits c.outputBuffer.readable)
    (ho : cb.closes → c.state ≠ .kDisconnected) : ∃ x, c.handle rd wr cb = .ok x := by
  cases cb with
  | close => exact ⟨_, handleClose_ok (ha.isOpen (ho rfl))⟩
  | error => exact ⟨_, rfl⟩
  | read =>
    obtain ⟨input, -, hread⟩ := handleRead_ok (r := rd) ha.ok (ha.isOpen (ho rfl))
    exact ⟨_, hread⟩
  | write => exact handleWrite_total ha.ok hfit

end Muduo.TcpConnection
