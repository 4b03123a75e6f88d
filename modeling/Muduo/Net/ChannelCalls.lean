import Muduo.Net.ConnectionState
import Muduo.Net.PollMirror

/-!
# The calls of a connection on its channel

Each member function with the calls that change the interest of the channel, which
go on to the poller. A call is made at most once, on a channel that has interest.
-/

namespace Muduo.TcpConnection

open Lib

variable {c c' : TcpConnection} {effects : List Effect}

-- ---------------------------------------------------------------------------
-- The code
-- ---------------------------------------------------------------------------

def sendInLoopCalls (c : TcpConnection) (data : Bytes) (r : WriteResult) :
    List Channel.Interest :=
  if c.state = .kDisconnected then []
  else
    let d := c.writeDirectly data r
    if ¬d.error ∧ 0 < data.length - d.nwrote then
      if ¬c.channel.isWriting then [.enableWriting] else []
    else []

def sendCalls (c : TcpConnection) (inLoop : Bool) (data : Bytes) (r : WriteResult) :
    List Channel.Interest :=
  if c.state = .kConnected then
    if inLoop then c.sendInLoopCalls data r else []
  else []

def handleReadCalls (c : TcpConnection) (r : ReadResult) : List Channel.Interest :=
  match c.inputBuffer.readFd r with
  | .ok (_, n, _) => if n = 0 then [.disableAll] else []
  | .error _ => []

def handleWriteCalls (c : TcpConnection) (r : WriteResult) : List Channel.Interest :=
  if c.channel.isWriting then
    match r with
    | .accepted n =>
      if 0 < n then
        match c.outputBuffer.retrieve n with
        | .ok outputBuffer => if outputBuffer.readableBytes = 0 then [.disableWriting] else []
        | .error _ => []
      else []
    | .error _ => []
  else []

def handleCalls (c : TcpConnection) (rd : ReadResult) (wr : WriteResult) :
    Channel.Callback → List Channel.Interest
  | .close => [.disableAll]
  | .error => []
  | .read => c.handleReadCalls rd
  | .write => c.handleWriteCalls wr

def runFunctorCalls (c : TcpConnection) (wr : WriteResult) : Functor → List Channel.Interest
  | .sendInLoop message => c.sendInLoopCalls message wr
  | .shutdownInLoop => []
  | .writeComplete => []
  | .highWaterMark _ => []

/-- `remove()` comes after these. -/
def connectDestroyedCalls (c : TcpConnection) : List Channel.Interest :=
  if c.state = .kConnected then [.disableAll] else []

-- ---------------------------------------------------------------------------
-- What they do to the channel
-- ---------------------------------------------------------------------------

/-- Nothing, or one change of a channel that has interest. -/
inductive Moves (c : Channel) : List Channel.Interest → Channel → Prop
  | idle : Moves c [] c
  | one (f : Channel.Interest) : ¬c.isNoneEvent → Moves c [f] (c.apply f)

theorem Moves.fd {ch ch' : Channel} (h : Moves ch fs ch') : ch'.fd = ch.fd := by
  cases h with
  | idle => rfl
  | one f => exact Channel.apply_fd ch f

theorem sendInLoop_moves (ha : c.Alive) (hs : c.sendInLoop data r = .ok (c', effects)) :
    Moves c.channel (c.sendInLoopCalls data r) c'.channel := by
  unfold sendInLoop at hs
  unfold sendInLoopCalls
  split at hs
  · cases hs
    rw [if_pos ‹_›]
    exact .idle
  · rename_i hopen
    simp only [bind_ok, ensure_ok] at hs
    obtain ⟨-, -, hs⟩ := hs
    rw [if_neg hopen]
    simp only
    split at hs
    · obtain ⟨out, -, hs⟩ := bind_ok.mp hs
      cases hs
      rw [if_pos ‹_›]
      simp only
      split
      · exact .one .enableWriting (ha.reading hopen).not_isNoneEvent
      · exact .idle
    · cases hs
      rw [if_neg ‹_›]
      exact .idle

theorem send_moves (ha : c.state = .kConnected → c.Alive)
    (hs : c.send inLoop data r = .ok (c', effects)) :
    Moves c.channel (c.sendCalls inLoop data r) c'.channel := by
  unfold send at hs
  unfold sendCalls
  split at hs
  · rename_i hopen
    rw [if_pos hopen]
    cases inLoop with
    | true => exact sendInLoop_moves (ha hopen) hs
    | false =>
      cases hs
      exact .idle
  · cases hs
    rw [if_neg ‹_›]
    exact .idle

theorem handleClose_moves (ha : c.Alive) (hs : c.handleClose = .ok (c', effects)) :
    Moves c.channel [.disableAll] c'.channel := by
  obtain ⟨_, hopen, hs⟩ := bind_ok.mp hs
  cases hs
  refine .one .disableAll (ha.reading ?_).not_isNoneEvent
  rcases ensure_ok.mp hopen with h | h <;> simp [h]

theorem handleRead_moves (ha : c.Alive) (hs : c.handleRead r = .ok (c', effects)) :
    Moves c.channel (c.handleReadCalls r) c'.channel := by
  obtain ⟨⟨input, n, saved⟩, hread, hs⟩ := bind_ok.mp hs
  have hread' : c.inputBuffer.readFd r = .ok (input, n, saved) := mapError_ok.mp hread
  simp only at hs
  simp only [handleReadCalls, hread']
  split at hs
  · rename_i hpos
    cases hs
    rw [if_neg (Int.ne_of_gt hpos)]
    exact .idle
  · split at hs
    · rename_i h0
      rw [if_pos h0]
      obtain ⟨_, hopen, hs⟩ := bind_ok.mp hs
      cases hs
      refine .one .disableAll (ha.reading ?_).not_isNoneEvent
      rcases ensure_ok.mp hopen with h | h <;> simp_all
    · cases hs
      rw [if_neg ‹_›]
      exact .idle

theorem handleWrite_moves (hs : c.handleWrite r = .ok (c', effects)) :
    Moves c.channel (c.handleWriteCalls r) c'.channel := by
  unfold handleWrite at hs
  unfold handleWriteCalls
  split at hs
  · rename_i hw
    rw [if_pos hw]
    cases r with
    | error errno =>
      cases hs
      exact .idle
    | accepted n =>
      simp only at hs ⊢
      split at hs
      · obtain ⟨out, hret, hs⟩ := bind_ok.mp hs
        rw [if_pos ‹_›, mapError_ok.mp hret]
        simp only
        split at hs
        · cases hs
          rw [if_pos ‹_›]
          exact .one .disableWriting fun hn => hn.not_isWriting hw
        · cases hs
          rw [if_neg ‹_›]
          exact .idle
      · cases hs
        rw [if_neg ‹_›]
        exact .idle
  · cases hs
    rw [if_neg ‹_›]
    exact .idle

theorem handle_moves (ha : c.Alive) (hs : c.handle rd wr cb = .ok (c', effects)) :
    Moves c.channel (c.handleCalls rd wr cb) c'.channel := by
  cases cb with
  | close => exact handleClose_moves ha hs
  | error =>
    cases hs
    exact .idle
  | read => exact handleRead_moves ha hs
  | write => exact handleWrite_moves hs

theorem runFunctor_moves (ha : c.Alive) (hs : c.runFunctor wr f = .ok (c', effects)) :
    Moves c.channel (c.runFunctorCalls wr f) c'.channel := by
  cases f with
  | sendInLoop message => exact sendInLoop_moves ha hs
  | shutdownInLoop | writeComplete | highWaterMark _ =>
    cases hs
    exact .idle

theorem shutdown_channel (c : TcpConnection) (inLoop : Bool) :
    (c.shutdown inLoop).1.channel = c.channel := by
  unfold shutdown
  split <;> rfl

theorem connectDestroyed_moves (ha : c.Alive) (hs : c.connectDestroyed = .ok (c', effects)) :
    Moves c.channel c.connectDestroyedCalls c'.channel ∧ c'.channel.isNoneEvent := by
  unfold connectDestroyed at hs
  unfold connectDestroyedCalls
  split at hs
  · rename_i hopen
    simp only [ok_bind, bind_ok, ensure_ok] at hs
    obtain ⟨_, hnone, hs⟩ := hs
    cases hs
    rw [if_pos hopen]
    exact ⟨.one .disableAll (ha.reading (by simp [hopen])).not_isNoneEvent, hnone⟩
  · simp only [ok_bind, bind_ok, ensure_ok] at hs
    obtain ⟨_, hnone, hs⟩ := hs
    cases hs
    rw [if_neg ‹_›]
    exact ⟨.idle, hnone⟩

end Muduo.TcpConnection

namespace Muduo.PollPoller

open Lib

variable {ι : Type} [DecidableEq ι] {w : PollPoller ι} {i : ι}

/-- The calls on a channel, for its poller. -/
def changes (i : ι) (fs : List Channel.Interest) : List (Turn ι) :=
  fs.map fun f => .call (.change i f)

/-- The poller has the interest of the channel. -/
structure Synced (w : PollPoller ι) (i : ι) (c : Channel) : Prop where
  fd : (w.chan i).fd = c.fd
  events : (w.chan i).events = c.events

omit [DecidableEq ι] in
theorem Synced.isNoneEvent (h : Synced w i c) : (w.chan i).isNoneEvent ↔ c.isNoneEvent := by
  simp only [Channel.isNoneEvent, h.events]

omit [DecidableEq ι] in
theorem Synced.apply (h : Synced w i c) (f : Channel.Interest) :
    ((w.chan i).apply f).events = (c.apply f).events := by
  cases f <;> simp [Channel.apply, Channel.enableReading, Channel.enableWriting,
    Channel.disableReading, Channel.disableWriting, Channel.disableAll, h.events]

/-- The calls of a member function reach the poller. -/
theorem Mirror.moves (h : Mirror w) (hm : TcpConnection.Moves c fs c') (hs : Synced w i c)
    (hi : ¬c.isNoneEvent → w.Registered i) :
    ∃ w', (changes i fs).foldlM turn w = .ok w' ∧ Mirror w' ∧ Apart i w w' ∧
      (w'.Registered i ↔ w.Registered i) ∧ Synced w' i c' ∧
      ((w'.chan i).index = (w.chan i).index) := by
  cases hm with
  | idle => exact ⟨w, rfl, h, .refl i w, Iff.rfl, hs, rfl⟩
  | one f hsome =>
    obtain ⟨w', hw', hmirror, hapart, hreg, hchan⟩ :=
      h.set (hi hsome) (mt hs.isNoneEvent.mp hsome) f
    refine ⟨w', ?_, hmirror, hapart, iff_of_true hreg (hi hsome), ⟨?_, ?_⟩, ?_⟩
    · simp only [changes, List.map_cons, List.map_nil, List.foldlM_cons, List.foldlM_nil, turn,
        step,
        hw']
      rfl
    · rw [hchan, Channel.apply_fd, Channel.apply_fd, hs.fd]
    · rw [hchan, hs.apply]
    · rw [hchan, Channel.apply_index]

end Muduo.PollPoller
