import Muduo.Net.WriteInterest

/-!
# Flow control

`sendInLoop` and `handleWrite` tell the user when the output buffer grows to the
high-water mark and when everything was sent. `Flow` counts both apart from the
code: by the sizes of the buffer around a step, and by the bytes that were taken
from the user and by the kernel.
-/

namespace Muduo.FlowControl

open Lib TcpConnection
open OutputStream
open WriteInterest (Tracks)

-- ---------------------------------------------------------------------------
-- Runs
-- ---------------------------------------------------------------------------

/-- A connection and what became of the bytes. -/
structure Flow where
  conn : TcpConnection
  /-- The bytes that were given to the connection and not dropped. -/
  taken : Bytes
  sent : Bytes := []
  queued : List Functor := []
  /-- The sizes of the output buffer after the steps that took it to the mark. -/
  crossings : List Nat := []
  /-- How many steps wrote and left nothing to be sent. -/
  completions : Nat := 0

inductive Label
  | sendInLoop (data : Bytes) (r : WriteResult)
  | handleWrite (r : WriteResult)

def run (c : TcpConnection) : Label → Except Fault (TcpConnection × List Effect)
  | .sendInLoop data r => c.sendInLoop data r
  | .handleWrite r => c.handleWrite r

/-- What a direct write fails for with `EPIPE` is dropped. -/
def Label.taken (effects : List Effect) : Label → Bytes
  | .sendInLoop data _ => if Broken effects then [] else data
  | .handleWrite _ => []

def functors (effects : List Effect) : List Functor :=
  effects.filterMap fun
    | .queueInLoop f => some f
    | _ => none

def isWrite : Effect → Bool
  | .write _ (.accepted _) => true
  | _ => false

def Wrote (effects : List Effect) : Prop := ∃ e ∈ effects, isWrite e

instance (effects : List Effect) : Decidable (Wrote effects) :=
  inferInstanceAs (Decidable (∃ e ∈ effects, _))

def crossed (c c' : TcpConnection) : List Nat :=
  if c.outputBuffer.readableBytes < c.highWaterMark ∧
      c.highWaterMark ≤ c'.outputBuffer.readableBytes then
    [c'.outputBuffer.readableBytes]
  else []

def Flow.after (f : Flow) (a : Label) (c : TcpConnection) (effects : List Effect) : Flow :=
  let taken := f.taken ++ a.taken effects
  let sent := f.sent ++ accepted effects
  { conn := c
    taken
    sent
    queued := f.queued ++ functors effects
    crossings := f.crossings ++ crossed f.conn c
    completions := f.completions + if Wrote effects ∧ sent = taken then 1 else 0 }

def Enabled (f : Flow) : Label → Prop
  | .sendInLoop data r => r.Fits data
  | .handleWrite r => r.Fits f.conn.outputBuffer.readable

def machine : Machine Flow Label Fault where
  enabled := Enabled
  step f a := do
    let (c, effects) ← run f.conn a
    return f.after a c effects

instance (f : Flow) (a : Label) : Decidable (machine.enabled f a) := by
  unfold machine Enabled
  cases a <;> infer_instance

def start (c : TcpConnection) : Flow where
  conn := c
  taken := c.outputBuffer.readable

def highWater (fs : List Functor) : List Nat :=
  fs.filterMap fun
    | .highWaterMark size => some size
    | _ => none

-- ---------------------------------------------------------------------------
-- What a step tells
-- ---------------------------------------------------------------------------

variable {c c' : TcpConnection} {f f' : Flow} {effects xs ys : List Effect}

@[simp] theorem functors_append : functors (xs ++ ys) = functors xs ++ functors ys :=
  List.filterMap_append

@[simp] theorem highWater_append : highWater (fs ++ gs) = highWater fs ++ highWater gs :=
  List.filterMap_append

@[simp] theorem wrote_append : Wrote (xs ++ ys) ↔ Wrote xs ∨ Wrote ys := by
  simp only [Wrote, List.mem_append, or_and_right, exists_or]

/-- The two notifications of a step are those that are due. -/
structure Told (c c' : TcpConnection) (effects : List Effect) : Prop where
  crossing : highWater (functors effects) = crossed c c'
  complete : (functors effects).count .writeComplete =
    if Wrote effects ∧ c'.outputBuffer.readable = [] then 1 else 0

theorem crossed_le (h : c'.outputBuffer.readableBytes ≤ c.outputBuffer.readableBytes) :
    crossed c c' = [] := by
  refine if_neg ?_
  rintro ⟨hlt, hle⟩
  exact absurd (hle.trans h) (Nat.not_le_of_lt hlt)

theorem told_nil : Told c c [] := by
  refine ⟨(crossed_le le_rfl).symm, (if_neg ?_).symm⟩
  rintro ⟨⟨e, he, -⟩, -⟩
  cases he

theorem crossing_told (hcb : c.highWaterMarkCallback) (n : Nat) :
    highWater (functors (c.crossing n)) =
      (if c.outputBuffer.readableBytes < c.highWaterMark ∧
          c.highWaterMark ≤ c.outputBuffer.readableBytes + n then
        [c.outputBuffer.readableBytes + n]
      else []) ∧
    (functors (c.crossing n)).count .writeComplete = 0 ∧ ¬Wrote (c.crossing n) := by
  unfold crossing
  by_cases hn : c.outputBuffer.readableBytes < c.highWaterMark ∧
      c.highWaterMark ≤ c.outputBuffer.readableBytes + n
  · simp only [ge_iff_le, hn, hcb, and_self, if_true]
    refine ⟨rfl, rfl, ?_⟩
    simp [Wrote, isWrite]
  · have hnot : ¬(c.outputBuffer.readableBytes + n ≥ c.highWaterMark ∧
        c.outputBuffer.readableBytes < c.highWaterMark ∧ c.highWaterMarkCallback) :=
      fun h => hn ⟨h.2.1, h.1⟩
    simp only [if_neg hn, if_neg hnot]
    refine ⟨rfl, rfl, ?_⟩
    simp [Wrote]

theorem direct_told (data : Bytes) (r : WriteResult) (hc : c.Ok) (hcb : c.writeCompleteCallback) :
    highWater (functors (c.writeDirectly data r).effects) = [] ∧
    (functors (c.writeDirectly data r).effects).count .writeComplete =
      if Wrote (c.writeDirectly data r).effects ∧
        c.outputBuffer.readable ++ (c.writeDirectly data r).kept data = [] then 1 else 0 := by
  by_cases hd : Idle c
  · have hempty := hc.output.readableBytes_eq_zero.mp hd.2
    simp only [writeDirectly, if_pos (show _ ∧ _ from hd), hempty, List.nil_append]
    cases r with
    | accepted n =>
      by_cases hn : data.length - n = 0
      · have hall : data.drop n = [] := List.drop_eq_nil_iff.mpr (Nat.sub_eq_zero_iff_le.mp hn)
        simp [hn, hcb, functors, highWater, Wrote, isWrite, Direct.kept, hall]
      · have hsome : data.drop n ≠ [] := fun h =>
          hn (Nat.sub_eq_zero_iff_le.mpr (List.drop_eq_nil_iff.mp h))
        simp [hn, functors, highWater, Wrote, isWrite, Direct.kept, hsome]
    | error errno => simp [functors, highWater, Wrote, isWrite]
  · simp only [writeDirectly, if_neg (show ¬(_ ∧ _) from hd)]
    simp [functors, highWater, Wrote]

theorem sendInLoop_told (hc : c.Ok) (hopen : c.state ≠ .kDisconnected)
    (hhigh : c.highWaterMarkCallback) (hcomplete : c.writeCompleteCallback) (hfit : r.Fits data)
    (hs : c.sendInLoop data r = .ok (c', effects)) : Told c c' effects := by
  obtain ⟨out, hv, ho, hsend⟩ := sendInLoop_ok hc hopen (nwrote_le hfit)
  rw [hsend] at hs
  cases hs
  obtain ⟨hnone, hcount⟩ := direct_told data r hc hcomplete
  have hlen : out.readableBytes =
      c.outputBuffer.readableBytes + ((c.writeDirectly data r).kept data).length := by
    rw [← hv.length_readable, ho, List.length_append, hc.output.length_readable]
  by_cases hk : (c.writeDirectly data r).kept data = []
  · simp only [if_pos hk, List.append_nil]
    refine ⟨hnone.trans (crossed_le ?_).symm, ?_⟩
    · rw [hlen, hk]
      exact le_rfl
    · rw [hcount, ho]
  · obtain ⟨hcross, hzero, hnot⟩ := crossing_told hhigh ((c.writeDirectly data r).kept data).length
    simp only [if_neg hk]
    refine ⟨?_, ?_⟩
    · rw [functors_append, highWater_append, hnone, List.nil_append, hcross, crossed, hlen]
    · rw [functors_append, List.count_append, hzero, Nat.add_zero, hcount, ho]
      simp only [wrote_append, hnot, or_false]

theorem handleWrite_told (h : Tracks c) (hopen : c.state ≠ .kDisconnected)
    (hcomplete : c.writeCompleteCallback) (hfit : r.Fits c.outputBuffer.readable)
    (hs : c.handleWrite r = .ok (c', effects)) : Told c c' effects := by
  by_cases hw : c.channel.isWriting
  · rcases r.some_or_none with ⟨n, rfl, h0⟩ | hnone
    · have hn : n ≤ c.outputBuffer.readableBytes := by
        rw [← h.ok.output.length_readable]
        exact hfit
      obtain ⟨out, hv, ho, hwrite⟩ := handleWrite_some h.ok hw h0 hn
      rw [hwrite] at hs
      cases hs
      refine ⟨?_, ?_⟩
      · rw [crossed_le]
        · by_cases he : out.readable = []
          · by_cases hd : c.state = .kDisconnecting <;>
              simp [he, hcomplete, hd, functors, highWater]
          · simp [he, functors, highWater]
        · show out.readableBytes ≤ c.outputBuffer.readableBytes
          rw [← hv.length_readable, ho, List.length_drop, h.ok.output.length_readable]
          exact Nat.sub_le _ _
      · by_cases he : out.readable = []
        · by_cases hd : c.state = .kDisconnecting <;>
            simp [he, hcomplete, hd, functors, Wrote, isWrite]
        · simp [he, functors]
    · -- the buffer holds something, so that nothing is complete
      have hleft := (h.interest hopen).mp hw
      rw [handleWrite_none hw hnone] at hs
      cases hs
      exact ⟨(crossed_le le_rfl).symm, (if_neg fun hdone => hleft hdone.2).symm⟩
  · rw [handleWrite_idle hw] at hs
    cases hs
    exact told_nil

-- ---------------------------------------------------------------------------
-- The bytes
-- ---------------------------------------------------------------------------

/-- Bytes move from the caller to the buffer or the kernel, and from the buffer
to the kernel. -/
def Moves (c c' : TcpConnection) (a : Label) (effects : List Effect) : Prop :=
  accepted effects ++ c'.outputBuffer.readable = c.outputBuffer.readable ++ a.taken effects

theorem handleWrite_moves (hc : c.Ok) (hfit : r.Fits c.outputBuffer.readable)
    (hs : c.handleWrite r = .ok (c', effects)) : Moves c c' (.handleWrite r) effects :=
  (handleWrite_flow hc hfit hs).trans (List.append_nil _).symm

theorem sendInLoop_moves (hc : c.Ok) (hopen : c.state ≠ .kDisconnected) (hfit : r.Fits data)
    (hs : c.sendInLoop data r = .ok (c', effects)) :
    Moves c c' (.sendInLoop data r) effects := by
  obtain ⟨out, hv, ho, hsend⟩ := sendInLoop_ok hc hopen (nwrote_le hfit)
  rw [hsend] at hs
  cases hs
  have hquiet : Quiet (if (c.writeDirectly data r).kept data = [] then []
      else c.crossing ((c.writeDirectly data r).kept data).length) := by
    split
    · exact quiet_nil
    · exact quiet_crossing _ _
  rw [Moves, Label.taken, accepted_append, hquiet.1, List.append_nil, ho]
  by_cases hd : Idle c → r ≠ .error EPIPE
  · obtain ⟨hb, hflow⟩ := direct_flow hc hd
    rw [hflow, if_neg]
    exact fun hbroken => (broken_append.mp hbroken).elim hb hquiet.2
  · obtain ⟨hidle, hr⟩ := Classical.not_imp.mp hd
    obtain rfl := Classical.not_not.mp hr
    have hdir := direct_refused data hidle
    have hb : Broken (c.writeDirectly data (.error EPIPE)).effects := by
      simp [hdir, Broken, isEpipe]
    rw [if_pos (broken_append.mpr (.inl hb)), hdir]
    simp [Direct.kept, accepted]

-- ---------------------------------------------------------------------------
-- Runs
-- ---------------------------------------------------------------------------

structure Notifies (c : TcpConnection) : Prop where
  tracks : Tracks c
  notDisconnected : c.state ≠ .kDisconnected
  high : c.highWaterMarkCallback
  complete : c.writeCompleteCallback

structure Exact (f : Flow) : Prop where
  conn : Notifies f.conn
  bytes : f.sent ++ f.conn.outputBuffer.readable = f.taken
  crossings : highWater f.queued = f.crossings
  completions : f.queued.count .writeComplete = f.completions

theorem start_exact (h : Notifies c) : Exact (start c) := ⟨h, rfl, rfl, rfl⟩

theorem Exact.after (h : Exact f) (hc : Notifies c) (hm : Moves f.conn c a effects)
    (ht : Told f.conn c effects) : Exact (f.after a c effects) := by
  have hbytes : f.sent ++ accepted effects ++ c.outputBuffer.readable =
      f.taken ++ a.taken effects := by
    rw [List.append_assoc, hm, ← List.append_assoc, h.bytes]
  have hsent : f.sent ++ accepted effects = f.taken ++ a.taken effects ↔
      c.outputBuffer.readable = [] := by
    rw [← hbytes]
    exact List.self_eq_append_right
  refine ⟨hc, hbytes, ?_, ?_⟩
  · simp only [Flow.after, highWater_append, h.crossings, ht.crossing]
  · simp only [Flow.after, List.count_append, h.completions, ht.complete, hsent]

theorem Notifies.step (h : Notifies c) (ht : Tracks c') (hs : c'.state = c.state)
    (hhigh : c'.highWaterMarkCallback = c.highWaterMarkCallback)
    (hcomplete : c'.writeCompleteCallback = c.writeCompleteCallback) : Notifies c' := by
  refine ⟨ht, hs ▸ h.notDisconnected, ?_, ?_⟩
  · rw [hhigh]
    exact h.high
  · rw [hcomplete]
    exact h.complete

theorem Exact.sendInLoop (h : Exact f) (hfit : r.Fits data)
    (hs : f.conn.sendInLoop data r = .ok (c, effects)) :
    Exact (f.after (.sendInLoop data r) c effects) := by
  have hopen := h.conn.notDisconnected
  have hok := h.conn.tracks.ok
  refine h.after ?_ (sendInLoop_moves hok hopen hfit hs)
    (sendInLoop_told hok hopen h.conn.high h.conn.complete hfit hs)
  have htracks := h.conn.tracks.sendInLoop hfit hs
  obtain ⟨out, -, -, hsend⟩ := sendInLoop_ok hok hopen (nwrote_le hfit)
  rw [hsend] at hs
  cases hs
  exact h.conn.step htracks rfl rfl rfl

theorem Exact.handleWrite (h : Exact f) (hfit : r.Fits f.conn.outputBuffer.readable)
    (hs : f.conn.handleWrite r = .ok (c, effects)) :
    Exact (f.after (.handleWrite r) c effects) := by
  have hopen := h.conn.notDisconnected
  have hok := h.conn.tracks.ok
  refine h.after ?_ (handleWrite_moves hok hfit hs)
    (handleWrite_told h.conn.tracks hopen h.conn.complete hfit hs)
  have htracks := h.conn.tracks.handleWrite hfit hs
  obtain ⟨out, channel, rfl⟩ := handleWrite_rest hs
  exact h.conn.step htracks rfl rfl rfl

theorem exact_keeps : machine.Keeps Exact := by
  intro f a f' h hen hs
  obtain ⟨⟨c, effects⟩, hrun, hs⟩ := bind_ok.mp hs
  cases hs
  cases a with
  | sendInLoop data r => exact h.sendInLoop hen hrun
  | handleWrite r => exact h.handleWrite hen hrun

/-- The notifications of an open connection are exact. -/
theorem notifications_exact (hnew : c₀.New) (hreach : WriteInterest.machine.Run c₀ as c)
    (hopen : c.state ≠ .kDisconnected) (hhigh : c.highWaterMarkCallback)
    (hcomplete : c.writeCompleteCallback) (h : machine.Run (start c) bs f) :
    highWater f.queued = f.crossings ∧ f.queued.count .writeComplete = f.completions := by
  have htracks := hreach.keeps WriteInterest.tracks_keeps (WriteInterest.New.tracks hnew)
  have hexact := h.keeps exact_keeps (start_exact ⟨htracks, hopen, hhigh, hcomplete⟩)
  exact ⟨hexact.crossings, hexact.completions⟩

def marked : TcpConnection where
  channel := { fd := 5 }
  writeCompleteCallback := true
  highWaterMarkCallback := true
  highWaterMark := 3

/-- The mark is hit exactly, then all is written, and then nothing is sent. -/
theorem notifications_exact_marked : ∃ c, WriteInterest.machine.Run marked [.connectEstablished] c ∧
    ∃ f, machine.Run (start c) [.sendInLoop (ascii "hello") (.accepted 2),
        .sendInLoop (ascii "!") (.error EWOULDBLOCK), .handleWrite (.accepted 4),
        .sendInLoop [] (.accepted 0), .sendInLoop (ascii "x") (.error EPIPE)] f ∧
      f.queued = [.highWaterMark 3, .writeComplete, .writeComplete] ∧
      highWater f.queued = f.crossings ∧ f.queued.count .writeComplete = f.completions := by
  have hrun : ∃ c, WriteInterest.machine.Run marked [.connectEstablished] c ∧
      c.state ≠ .kDisconnected ∧ c.highWaterMarkCallback ∧ c.writeCompleteCallback ∧
      ∃ f ∈ machine.exec (start c) [.sendInLoop (ascii "hello") (.accepted 2),
        .sendInLoop (ascii "!") (.error EWOULDBLOCK), .handleWrite (.accepted 4),
        .sendInLoop [] (.accepted 0), .sendInLoop (ascii "x") (.error EPIPE)],
        f.queued = [.highWaterMark 3, .writeComplete, .writeComplete] :=
    Machine.exists_run (by decide +kernel)
  obtain ⟨c, hc, hopen, hhigh, hcomplete, f, hf, hqueued⟩ := hrun
  have hflow := Machine.run_of_exec hf
  exact ⟨c, hc, f, hflow, hqueued,
    notifications_exact ⟨rfl, rfl, rfl, rfl⟩ hc hopen hhigh hcomplete hflow⟩

end Muduo.FlowControl
