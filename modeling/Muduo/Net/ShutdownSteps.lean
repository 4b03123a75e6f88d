import Muduo.Net.WriteInterest

/-!
# Calls of send and shutdown

Threads that call `send` and `shutdown`, and the loop that handles events and
runs what they left to it, in order. The peer does not close the connection, and
before it is half-closed no write fails but for want of room. `Went` says what a
step can do.
-/

namespace Muduo.GracefulShutdown

open Lib TcpConnection
open ConnectionLife (queued)
open OutputStream (Interest accepted)
open WriteInterest (Tracks)

structure Session where
  conn : TcpConnection
  pending : List Functor := []
  log : List Effect := []
  /-- The messages of the calls of `send` that found the connection up. -/
  sent : List Bytes := []
  deriving DecidableEq

inductive Label
  | send (inLoop : Bool) (data : Bytes) (wr : WriteResult)
  | shutdown (inLoop : Bool)
  | handle (cb : Channel.Callback) (rd : ReadResult) (wr : WriteResult)
  | functor (wr : WriteResult)
  deriving DecidableEq

/-- A write fails only when there is no room, until the connection is
half-closed. -/
def Healthy (s : Session) (wr : WriteResult) : Prop :=
  .shutdownWrite ∉ s.log → ∀ errno, wr = .error errno → errno = EWOULDBLOCK

instance decidableHealthy (s : Session) : ∀ wr, Decidable (Healthy s wr)
  | .accepted _ => isTrue fun _ _ => nofun
  | .error errno =>
    decidable_of_iff (.shutdownWrite ∉ s.log → errno = EWOULDBLOCK) (by simp [Healthy])

def Enabled (s : Session) : Label → Prop
  | .send _ data wr => wr.Fits data ∧ Healthy s wr
  | .shutdown _ => True
  | .handle cb rd wr =>
    cb ≠ .close ∧ rd ≠ .data [] ∧ wr.Fits s.conn.outputBuffer.readable ∧ Healthy s wr
  | .functor wr => match s.pending with
    | [] => False
    | .sendInLoop message :: _ => wr.Fits message ∧ Healthy s wr
    | _ => True

def Session.after (s : Session) (c : TcpConnection) (effects : List Effect) : Session :=
  { s with conn := c, pending := s.pending ++ queued effects, log := s.log ++ effects }

def step (s : Session) : Label → Except Fault Session
  | .send inLoop data wr => do
    let (c, effects) ← s.conn.send inLoop data wr
    let sent := if s.conn.state = .kConnected then s.sent ++ [data] else s.sent
    return { s with sent }.after c effects
  | .shutdown inLoop => return s.after (s.conn.shutdown inLoop).1 (s.conn.shutdown inLoop).2
  | .handle cb rd wr => do
    let (c, effects) ← s.conn.handle rd wr cb
    return s.after c effects
  | .functor wr =>
    match s.pending with
    | [] => return s
    | f :: pending => do
      let (c, effects) ← s.conn.runFunctor wr f
      return { s with pending }.after c effects

def machine : Machine Session Label Fault where
  enabled := Enabled
  step := step

instance (s : Session) (a : Label) : Decidable (machine.enabled s a) := by
  unfold machine Enabled
  cases a <;> simp only <;> (try split) <;> infer_instance

-- ---------------------------------------------------------------------------
-- Half-closing steps
-- ---------------------------------------------------------------------------

def messages (pending : List Functor) : List Bytes :=
  pending.filterMap fun
    | .sendInLoop message => some message
    | _ => none

theorem messages_append (fs gs : List Functor) :
    messages (fs ++ gs) = messages fs ++ messages gs :=
  List.filterMap_append

def Clear (s : Session) : Prop :=
  (messages s.pending).flatten = [] ∧ .shutdownInLoop ∉ s.pending

instance (s : Session) : Decidable (Clear s) := inferInstanceAs (Decidable (_ ∧ _))

/-- The output buffer does not put it off, so `shutdown` half-closes at once;
or the last of the output buffer is written after `shutdown`, which half-closes
too. -/
def Closing (s : Session) : Label → Prop
  | .shutdown true => s.conn.state = .kConnected ∧ ¬s.conn.channel.isWriting
  | .handle .write _ (.accepted n) => s.conn.state = .kDisconnecting ∧
    s.conn.channel.isWriting ∧ n = s.conn.outputBuffer.readable.length
  | _ => False

instance (s : Session) (a : Label) : Decidable (Closing s a) := by
  unfold Closing
  split <;> infer_instance

def Orderly (s : Session) (a : Label) : Prop := Closing s a → Clear s

instance (s : Session) (a : Label) : Decidable (Orderly s a) :=
  inferInstanceAs (Decidable (_ → _))

-- ---------------------------------------------------------------------------
-- What a call does
-- ---------------------------------------------------------------------------

/-- A user callback, which is neither to send nor to half-close. -/
def Callback : Functor → Prop
  | .writeComplete => True
  | .highWaterMark _ => True
  | _ => False

/-- Not the half-close, and nothing left to the loop but user callbacks. -/
structure Minor (effects : List Effect) : Prop where
  unfinished : .shutdownWrite ∉ effects
  callbacks : ∀ f ∈ queued effects, Callback f

variable {c c' : TcpConnection} {effects : List Effect}

theorem queued_append (xs ys : List Effect) : queued (xs ++ ys) = queued xs ++ queued ys :=
  List.filterMap_append

theorem queued_half (pre : List Effect) : queued (pre ++ [.shutdownWrite]) = queued pre := by
  rw [queued_append]
  exact List.append_nil _

theorem minor_nil : Minor [] := ⟨by simp, by simp [queued]⟩

theorem Minor.append (h : Minor xs) (h' : Minor ys) : Minor (xs ++ ys) := by
  refine ⟨?_, fun f hf => ?_⟩
  · rw [List.mem_append, not_or]
    exact ⟨h.unfinished, h'.unfinished⟩
  · rw [queued_append, List.mem_append] at hf
    rcases hf with hf | hf
    · exact h.callbacks f hf
    · exact h'.callbacks f hf

theorem minor_write (data : Bytes) (r : WriteResult) : Minor [.write data r] :=
  ⟨by simp, by simp [queued]⟩

theorem minor_complete (p : Prop) [Decidable p] :
    Minor (if p then [.queueInLoop .writeComplete] else []) := by
  split
  · exact ⟨by simp, by simp [queued, Callback]⟩
  · exact minor_nil

theorem accepted_complete (p : Prop) [Decidable p] :
    accepted (if p then [.queueInLoop .writeComplete] else []) = [] := by
  split <;> rfl

theorem minor_crossing (c : TcpConnection) (n : Nat) : Minor (c.crossing n) := by
  unfold crossing
  simp only
  split
  · exact ⟨by simp, by simp [queued, Callback]⟩
  · exact minor_nil

theorem minor_direct (c : TcpConnection) (data : Bytes) (r : WriteResult) :
    Minor (c.writeDirectly data r).effects := by
  unfold writeDirectly
  split
  · cases r with
    | accepted n => exact (minor_write data _).append (minor_complete _)
    | error errno => exact minor_write data _
  · exact minor_nil

/-- `data` is handed over, behind what the output buffer holds. -/
structure Takes (c c' : TcpConnection) (data : Bytes) (effects : List Effect) : Prop where
  minor : Minor effects
  flow : accepted effects ++ c'.outputBuffer.readable = c.outputBuffer.readable ++ data

theorem sendInLoop_minor (h : Tracks c) (hopen : c.state ≠ .kDisconnected) (hfit : r.Fits data)
    (hs : c.sendInLoop data r = .ok (c', effects)) :
    c'.state = c.state ∧ Minor effects ∧
      (data = [] → c'.outputBuffer.readable = c.outputBuffer.readable) := by
  obtain ⟨out, hv, ho, hsend⟩ := sendInLoop_ok h.ok hopen (nwrote_le hfit)
  rw [hsend] at hs
  cases hs
  refine ⟨rfl, (minor_direct c data r).append ?_, ?_⟩
  · split
    · exact minor_nil
    · exact minor_crossing _ _
  · rintro rfl
    simp [ho, Direct.kept]

theorem sendInLoop_takes (h : Tracks c) (hopen : c.state ≠ .kDisconnected) (hfit : r.Fits data)
    (hr : r ≠ .error EPIPE) (hs : c.sendInLoop data r = .ok (c', effects)) :
    Takes c c' data effects := by
  obtain ⟨-, hminor, -⟩ := sendInLoop_minor h hopen hfit hs
  refine ⟨hminor, ?_⟩
  obtain ⟨out, hv, ho, hsend⟩ := sendInLoop_ok h.ok hopen (nwrote_le hfit)
  rw [hsend] at hs
  cases hs
  have hquiet : accepted (if (c.writeDirectly data r).kept data = [] then []
      else c.crossing ((c.writeDirectly data r).kept data).length) = [] := by
    split
    · rfl
    · exact (OutputStream.quiet_crossing _ _).1
  rw [OutputStream.accepted_append, hquiet, List.append_nil, ho]
  exact (OutputStream.direct_flow h.ok fun _ => hr).2

structure Closes (c c' : TcpConnection) (pre : List Effect) : Prop where
  takes : Takes c c' [] pre
  drained : c'.outputBuffer.readable = []

theorem takes_same (hminor : Minor effects) (haccepted : accepted effects = [])
    (hout : c'.outputBuffer = c.outputBuffer) : Takes c c' [] effects :=
  ⟨hminor, by rw [haccepted, hout, List.nil_append, List.append_nil]⟩

theorem handleWrite_takes (h : Tracks c) (hfit : r.Fits c.outputBuffer.readable)
    (hnot : ¬(c.state = .kDisconnecting ∧ c.channel.isWriting ∧
      r = .accepted c.outputBuffer.readable.length))
    (hs : c.handleWrite r = .ok (c', effects)) : c'.state = c.state ∧ Takes c c' [] effects := by
  by_cases hw : c.channel.isWriting
  · rcases r.some_or_none with ⟨n, rfl, h0⟩ | hnone
    · obtain ⟨out, hv, ho, hwrite⟩ := handleWrite_some h.ok hw h0
        (by rw [← h.ok.output.length_readable]; exact hfit)
      have hrest : Minor (if out.readable = [] then
          (if c.writeCompleteCallback then [.queueInLoop .writeComplete] else []) ++
            (if c.state = .kDisconnecting then [.shutdownWrite] else []) else []) ∧
          accepted (if out.readable = [] then
            (if c.writeCompleteCallback then [.queueInLoop .writeComplete] else []) ++
              (if c.state = .kDisconnecting then [.shutdownWrite] else []) else []) = [] := by
        split
        · rename_i he
          have hup : c.state ≠ .kDisconnecting := by
            intro hd
            refine hnot ⟨hd, hw, ?_⟩
            rw [ho, List.drop_eq_nil_iff] at he
            rw [Nat.le_antisymm he hfit]
          rw [if_neg hup, List.append_nil]
          exact ⟨minor_complete _, accepted_complete _⟩
        · exact ⟨minor_nil, rfl⟩
      rw [hwrite] at hs
      cases hs
      refine ⟨rfl, (minor_write _ _).append hrest.1, ?_⟩
      rw [← List.singleton_append, OutputStream.accepted_append, hrest.2, ho]
      simp [accepted]
    · rw [handleWrite_none hw hnone] at hs
      cases hs
      refine ⟨rfl, takes_same (minor_write _ _) ?_ rfl⟩
      cases r with
      | error errno => rfl
      | accepted n =>
        obtain rfl := hnone n rfl
        rfl
  · rw [handleWrite_idle hw] at hs
    cases hs
    exact ⟨rfl, takes_same minor_nil rfl rfl⟩

theorem handleWrite_closes (h : Tracks c) (hd : c.state = .kDisconnecting)
    (hw : c.channel.isWriting)
    (hs : c.handleWrite (.accepted c.outputBuffer.readable.length) = .ok (c', effects)) :
    c'.state = c.state ∧ ∃ pre, effects = pre ++ [.shutdownWrite] ∧ Closes c c' pre := by
  have hne := (h.interest (by simp [hd])).mp hw
  obtain ⟨out, hv, ho, hwrite⟩ := handleWrite_some h.ok hw (List.length_pos_of_ne_nil hne)
    (by rw [← h.ok.output.length_readable])
  rw [List.drop_length] at ho
  simp only [hwrite, ho, hd, if_true] at hs
  cases hs
  refine ⟨hd.symm, .write c.outputBuffer.readable (.accepted c.outputBuffer.readable.length) ::
    if c.writeCompleteCallback then [.queueInLoop .writeComplete] else [], rfl, ⟨?_, ?_⟩, ho⟩
  · exact (minor_write _ _).append (minor_complete _)
  · rw [← List.singleton_append, OutputStream.accepted_append, accepted_complete, ho]
    simp [accepted]

-- ---------------------------------------------------------------------------
-- What a step does
-- ---------------------------------------------------------------------------

/-- The accepted bytes and those in the output buffer are the messages handed
over so far, and the queue has the other ones. -/
def Flowing (s : Session) : Prop :=
  ∃ handed : List Bytes, accepted s.log ++ s.conn.outputBuffer.readable = handed.flatten ∧
    (handed ++ messages s.pending).Perm s.sent

def Ordered (fs : List Functor) : Prop :=
  fs.Pairwise fun f g => f = .shutdownInLoop → Callback g

structure Flow (s : Session) : Prop where
  tracks : Tracks s.conn
  isOpen : s.conn.state = .kConnected ∨ s.conn.state = .kDisconnecting
  up : s.conn.state = .kConnected → .shutdownInLoop ∉ s.pending ∧ .shutdownWrite ∉ s.log
  order : Ordered s.pending
  flowing : .shutdownWrite ∉ s.log → Flowing s

/-- A step that is neither to half-close nor to leave that, or a message, to the
loop. It hands `data` over, which comes from the call or from the queue. -/
structure Passes (s : Session) (c : TcpConnection) (fs : List Functor) (data calls : List Bytes)
    (effects : List Effect) : Prop where
  tracks : Tracks c
  state : c.state = s.conn.state
  minor : Minor effects
  flow : .shutdownWrite ∉ s.log → Takes s.conn c data.flatten effects
  idle : ¬s.conn.channel.isWriting → data.flatten = [] →
    c.outputBuffer.readable = s.conn.outputBuffer.readable
  queue : fs.Sublist s.pending
  order : (data ++ messages fs).Perm (messages s.pending ++ calls)
  calls : calls ≠ [] → s.conn.state = .kConnected
  left : ¬s.conn.channel.isWriting → .shutdownInLoop ∈ s.pending → .shutdownInLoop ∈ fs

inductive Went (s : Session) (a : Label) : Session → Prop
  | passes {c : TcpConnection} {effects : List Effect} :
      Passes s c fs data calls effects → ¬Closing s a → Went s a
      ⟨c, fs ++ queued effects, s.log ++ effects, s.sent ++ calls⟩
  | posted (data : Bytes) : s.conn.state = .kConnected → ¬Closing s a → Went s a
      ⟨s.conn, s.pending ++ [.sendInLoop data], s.log ++ [.queueInLoop (.sendInLoop data)],
        s.sent ++ [data]⟩
  /-- The half-close is left to the loop, or put off until the output buffer is
  written. -/
  | putOff (fs : List Functor) : s.conn.state = .kConnected → fs = [] ∨ fs = [.shutdownInLoop] →
      ¬Closing s a → Went s a
      ⟨{ s.conn with state := .kDisconnecting }, s.pending ++ fs, s.log ++ fs.map .queueInLoop,
        s.sent⟩
  | closes {c : TcpConnection} : Closes s.conn c pre → Tracks c → c.state = .kDisconnecting →
      fs = s.pending ∧ Closing s a ∨
        s.pending = .shutdownInLoop :: fs ∧ ¬Closing s a ∧ s.conn.state = .kDisconnecting →
      Went s a ⟨c, fs ++ queued pre, s.log ++ (pre ++ [.shutdownWrite]), s.sent⟩

variable {s t : Session}

theorem Healthy.ne_epipe (h : Healthy s wr) (hlog : .shutdownWrite ∉ s.log) :
    wr ≠ .error EPIPE := by
  rintro rfl
  exact absurd (h hlog EPIPE rfl) (by decide)

theorem passes_same (htracks : Tracks c) (hstate : c.state = s.conn.state)
    (hminor : Minor effects) (haccepted : accepted effects = [])
    (hout : c.outputBuffer = s.conn.outputBuffer) : Passes s c s.pending [] [] effects where
  tracks := htracks
  state := hstate
  minor := hminor
  flow _ := takes_same hminor haccepted hout
  idle _ _ := by rw [hout]
  queue := List.Sublist.refl _
  order := by simp
  calls h := absurd rfl h
  left _ h := h

theorem went_passes (hpasses : Passes s c fs data [] effects) (hnot : ¬Closing s a) :
    Went s a ⟨c, fs ++ queued effects, s.log ++ effects, s.sent⟩ := by
  have hwent := Went.passes hpasses hnot
  rwa [List.append_nil s.sent] at hwent

theorem went_same (htracks : Tracks c) (hstate : c.state = s.conn.state)
    (hminor : Minor effects) (haccepted : accepted effects = [])
    (hout : c.outputBuffer = s.conn.outputBuffer) (hnot : ¬Closing s a) :
    Went s a (s.after c effects) :=
  went_passes (passes_same htracks hstate hminor haccepted hout) hnot

theorem Flow.ne_closed (h : Flow s) : s.conn.state ≠ .kDisconnected := by
  rcases h.isOpen with hs | hs <;> simp [hs]

theorem Flow.drained (h : Flow s) (hw : ¬s.conn.channel.isWriting) :
    s.conn.outputBuffer.readable = [] :=
  Classical.not_not.mp fun hne => hw ((h.tracks.interest h.ne_closed).mpr hne)

theorem Flow.send (h : Flow s) (hfit : wr.Fits data) (hr : Healthy s wr)
    (hs : step s (.send inLoop data wr) = .ok t) : Went s (.send inLoop data wr) t := by
  obtain ⟨⟨c, effects⟩, hsend, hs⟩ := bind_ok.mp hs
  cases hs
  unfold TcpConnection.send at hsend
  split at hsend
  · rename_i hup
    simp only [if_pos hup]
    split at hsend
    · obtain ⟨hstate, hminor, hempty⟩ := sendInLoop_minor h.tracks h.ne_closed hfit hsend
      have hpasses : Passes s c s.pending [data] [data] effects := by
        refine ⟨h.tracks.sendInLoop hfit hsend, hstate, hminor, fun hlog => ?_,
          fun _ he => hempty (by simpa using he), List.Sublist.refl _, List.perm_append_comm,
          fun _ => hup, fun _ hmem => hmem⟩
        rw [List.flatten_singleton]
        exact sendInLoop_takes h.tracks h.ne_closed hfit (hr.ne_epipe hlog) hsend
      exact .passes hpasses id
    · cases hsend
      exact .posted data hup id
  · rename_i hdown
    cases hsend
    simp only [if_neg hdown]
    exact went_same h.tracks rfl minor_nil rfl rfl id

theorem Flow.shutdown (h : Flow s) (hs : step s (.shutdown inLoop) = .ok t) :
    Went s (.shutdown inLoop) t := by
  cases hs
  unfold TcpConnection.shutdown
  split
  · rename_i hup
    have htracks : Tracks { s.conn with state := .kDisconnecting } := by
      have htracks := h.tracks.shutdown inLoop
      unfold TcpConnection.shutdown at htracks
      rwa [if_pos hup] at htracks
    cases inLoop with
    | false => exact .putOff [.shutdownInLoop] hup (.inr rfl) id
    | true =>
      simp only [if_true, shutdownInLoop]
      split
      · rename_i hw
        have hcloses : Closes s.conn { s.conn with state := .kDisconnecting } [] :=
          ⟨takes_same minor_nil rfl rfl, h.drained hw⟩
        exact .closes hcloses htracks rfl (.inl ⟨rfl, hup, hw⟩)
      · rename_i hw
        exact .putOff [] hup (.inl rfl) fun hc => hw hc.2
  · rename_i hdown
    refine went_same h.tracks rfl minor_nil rfl rfl ?_
    cases inLoop with
    | false => exact id
    | true => exact fun hc => hdown hc.1

theorem Flow.handle (h : Flow s) (hclose : cb ≠ .close) (heof : rd ≠ .data [])
    (hfit : wr.Fits s.conn.outputBuffer.readable) (hs : step s (.handle cb rd wr) = .ok t) :
    Went s (.handle cb rd wr) t := by
  obtain ⟨⟨c, effects⟩, hh, hs⟩ := bind_ok.mp hs
  cases hs
  have htracks := h.tracks.handle hfit hh
  cases cb with
  | close => exact absurd rfl hclose
  | error =>
    cases hh
    exact went_same htracks rfl minor_nil rfl rfl id
  | read =>
    obtain ⟨input, -, hread⟩ := handleRead_ok (r := rd) h.tracks.ok h.isOpen
    rw [TcpConnection.handle, hread] at hh
    cases rd with
    | error errno =>
      cases hh
      exact went_same htracks rfl minor_nil rfl rfl id
    | data bytes =>
      cases bytes with
      | nil => exact absurd rfl heof
      | cons b bs =>
        cases hh
        exact went_same htracks rfl ⟨by simp, by simp [queued]⟩ rfl rfl id
  | write =>
    by_cases hc : Closing s (.handle .write rd wr)
    · cases wr with
      | error errno => exact hc.elim
      | accepted n =>
        obtain ⟨hd, hw, rfl⟩ := hc
        obtain ⟨hstate, pre, rfl, hcloses⟩ := handleWrite_closes h.tracks hd hw hh
        rw [Session.after, queued_half]
        exact .closes hcloses htracks (hstate.trans hd) (.inl ⟨rfl, hd, hw, rfl⟩)
    · have hnot : ¬(s.conn.state = .kDisconnecting ∧ s.conn.channel.isWriting ∧
          wr = .accepted s.conn.outputBuffer.readable.length) := by
        rintro ⟨hd, hw, rfl⟩
        exact hc ⟨hd, hw, rfl⟩
      obtain ⟨hstate, htakes⟩ := handleWrite_takes h.tracks hfit hnot hh
      have hpasses : Passes s c s.pending [] [] effects := by
        refine ⟨htracks, hstate, htakes.minor, fun _ => htakes, fun hw _ => ?_,
          List.Sublist.refl _, by simp, fun he => absurd rfl he, fun _ hmem => hmem⟩
        rw [TcpConnection.handle, handleWrite_idle hw] at hh
        cases hh
        rfl
      exact went_passes hpasses hc

theorem passes_head (hp : s.pending = f :: fs) (htracks : Tracks c)
    (hstate : c.state = s.conn.state) (hminor : Minor effects)
    (hflow : .shutdownWrite ∉ s.log → Takes s.conn c (messages [f]).flatten effects)
    (hidle : ¬s.conn.channel.isWriting → (messages [f]).flatten = [] →
      c.outputBuffer.readable = s.conn.outputBuffer.readable)
    (hf : f = .shutdownInLoop → s.conn.channel.isWriting) :
    Passes s c fs (messages [f]) [] effects where
  tracks := htracks
  state := hstate
  minor := hminor
  flow := hflow
  idle := hidle
  queue := by
    rw [hp]
    exact List.sublist_cons_self f fs
  order := by
    rw [hp, List.append_nil, ← messages_append, List.singleton_append]
  calls he := absurd rfl he
  left hw hmem := by
    rw [hp] at hmem
    rcases List.mem_cons.mp hmem with rfl | hmem
    · exact absurd (hf rfl) hw
    · exact hmem

theorem Flow.functor (h : Flow s) (ha : Enabled s (.functor wr))
    (hs : step s (.functor wr) = .ok t) : Went s (.functor wr) t := by
  cases hp : s.pending with
  | nil =>
    simp only [Enabled, hp] at ha
  | cons f fs =>
    simp only [step, hp] at hs
    obtain ⟨⟨c, effects⟩, hf, hs⟩ := bind_ok.mp hs
    cases hs
    cases f with
    | sendInLoop message =>
      simp only [Enabled, hp] at ha
      obtain ⟨hfit, hr⟩ := ha
      obtain ⟨hstate, hminor, hempty⟩ := sendInLoop_minor h.tracks h.ne_closed hfit hf
      have hmessage : (messages [.sendInLoop message]).flatten = message := by simp [messages]
      refine went_passes (passes_head hp (h.tracks.sendInLoop hfit hf) hstate hminor
        (fun hlog => ?_) (fun _ he => ?_) nofun) id
      · rw [hmessage]
        exact sendInLoop_takes h.tracks h.ne_closed hfit (hr.ne_epipe hlog) hf
      · rw [hmessage] at he
        exact hempty he
    | shutdownInLoop =>
      cases hf
      have hd : s.conn.state = .kDisconnecting := by
        refine h.isOpen.resolve_left fun hup => (h.up hup).1 ?_
        rw [hp]
        exact List.mem_cons_self
      unfold shutdownInLoop
      split
      · rename_i hw
        have hcloses : Closes s.conn s.conn [] := ⟨takes_same minor_nil rfl rfl, h.drained hw⟩
        exact .closes hcloses h.tracks hd (.inr ⟨hp, id, hd⟩)
      · rename_i hw
        exact went_passes (passes_head hp h.tracks rfl minor_nil
          (fun _ => takes_same minor_nil rfl rfl) (fun _ _ => rfl)
          fun _ => Classical.not_not.mp hw) id
    | writeComplete | highWaterMark _ =>
      cases hf
      exact went_passes (passes_head hp h.tracks rfl minor_nil
        (fun _ => takes_same minor_nil rfl rfl) (fun _ _ => rfl) nofun) id

theorem Flow.went (h : Flow s) (ha : Enabled s a) (hs : step s a = .ok t) : Went s a t := by
  cases a with
  | send inLoop data wr => exact h.send ha.1 ha.2 hs
  | shutdown inLoop => exact h.shutdown hs
  | handle cb rd wr => exact h.handle ha.1 ha.2.1 ha.2.2.1 hs
  | functor wr => exact h.functor ha hs

end Muduo.GracefulShutdown
