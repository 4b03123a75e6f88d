import Muduo.Net.ConnectionState

/-!
# The life of a connection

One connection with the callbacks of the event being handled and the functors
it left to its loop. A life starts with `connectEstablished` and ends with
`connectDestroyed`, which the server calls when the connection was closed or
when the server itself is destroyed.
-/

namespace Muduo.ConnectionLife

open Lib TcpConnection

structure Life where
  conn : TcpConnection
  todo : List Channel.Callback := []
  pending : List Functor := []
  log : List Effect := []
  deriving DecidableEq

inductive Label
  | connectEstablished
  | event (revents : BitVec 32)
  | dispatch (rd : ReadResult) (wr : WriteResult)
  | functor (wr : WriteResult)
  | send (inLoop : Bool) (data : Bytes) (wr : WriteResult)
  | shutdown (inLoop : Bool)
  | retrieve (len : Nat)
  | connectDestroyed
  deriving DecidableEq

def queued (effects : List Effect) : List Functor :=
  effects.filterMap fun
    | .queueInLoop f => some f
    | _ => none

def Life.after (s : Life) (c : TcpConnection) (effects : List Effect) : Life :=
  { s with conn := c, pending := s.pending ++ queued effects, log := s.log ++ effects }

/-- The poller reports a channel with interest; functors run between events. -/
def Enabled (s : Life) : Label → Prop
  | .event _ => s.todo = [] ∧ ¬s.conn.channel.isNoneEvent
  | .dispatch _ wr => s.todo ≠ [] ∧ wr.Fits s.conn.outputBuffer.readable
  | .functor wr => s.todo = [] ∧ match s.pending with
    | [] => False
    | .sendInLoop message :: _ => wr.Fits message
    | _ => True
  | .send _ data wr => wr.Fits data
  | .retrieve len => len ≤ s.conn.inputBuffer.readableBytes
  | _ => True

def step (s : Life) : Label → Except Fault Life
  | .connectEstablished => do
    let (c, effects) ← s.conn.connectEstablished
    return s.after c effects
  | .event revents => return { s with todo := Channel.callbacks revents }
  | .dispatch rd wr =>
    match s.todo with
    | [] => return s
    | cb :: todo => do
      let (c, effects) ← s.conn.handle rd wr cb
      return { s with todo }.after c effects
  | .functor wr =>
    match s.pending with
    | [] => return s
    | f :: pending => do
      let (c, effects) ← s.conn.runFunctor wr f
      return { s with pending }.after c effects
  | .send inLoop data wr => do
    let (c, effects) ← s.conn.send inLoop data wr
    return s.after c effects
  | .shutdown inLoop => return s.after (s.conn.shutdown inLoop).1 (s.conn.shutdown inLoop).2
  | .retrieve len => do
    let inputBuffer ← onBuffer (s.conn.inputBuffer.retrieve len)
    return { s with conn := { s.conn with inputBuffer } }
  | .connectDestroyed => do
    let (c, effects) ← s.conn.connectDestroyed
    return s.after c effects

def machine : Machine Life Label Fault where
  enabled := Enabled
  step := step

instance (s : Life) (a : Label) : Decidable (machine.enabled s a) := by
  unfold machine Enabled
  cases a <;> simp only <;> (try split) <;> infer_instance

def Label.Mid : Label → Prop
  | .connectEstablished => False
  | .connectDestroyed => False
  | _ => True

-- ---------------------------------------------------------------------------
-- Steps between
-- ---------------------------------------------------------------------------

variable {s t : Life}

def Reads (s : Life) : Label → Prop
  | .dispatch (.data (_ :: _)) _ => s.todo.head? = some .read
  | _ => False

instance (s : Life) (a : Label) : Decidable (Reads s a) := by
  unfold Reads
  split <;> infer_instance

theorem step_outcome (ha : s.conn.Alive) (hm : a.Mid) (hen : Enabled s a)
    (h : step s a = .ok t) :
    ∃ effects, t.log = s.log ++ effects ∧ t.conn.Alive ∧ Outcome s.conn t.conn effects ∧
      (effects = [.messageCallback] ↔ Reads s a) := by
  have hsilent : ∀ {effects}, Silent s.conn t.conn effects →
      Outcome s.conn t.conn effects ∧ (effects = [.messageCallback] ↔ False) :=
    fun hs => ⟨.silent hs, iff_of_false hs.ne_message id⟩
  cases a with
  | connectEstablished => cases hm
  | connectDestroyed => cases hm
  | event revents =>
    cases h
    exact ⟨[], (List.append_nil _).symm, ha, hsilent ⟨Iff.rfl, nofun⟩⟩
  | dispatch rd wr =>
    obtain ⟨hne, hfit⟩ := hen
    cases hd : s.todo with
    | nil => exact absurd hd hne
    | cons cb todo =>
      simp only [step, hd, bind_ok, Prod.exists, pure_ok] at h
      obtain ⟨c, effects, hh, rfl⟩ := h
      obtain ⟨ha', ho, hread⟩ := handle_outcome ha hfit hh
      refine ⟨effects, rfl, ha', ho, hread.trans ?_⟩
      cases rd with
      | error errno => simp [Reads]
      | data bytes => cases bytes <;> simp [Reads, hd]
  | functor wr =>
    obtain ⟨-, hfit⟩ := hen
    cases hp : s.pending with
    | nil =>
      rw [hp] at hfit
      cases hfit
    | cons f pending =>
      rw [hp] at hfit
      simp only [step, hp, bind_ok, Prod.exists, pure_ok] at h
      obtain ⟨c, effects, hh, rfl⟩ := h
      obtain ⟨ha', hs⟩ := runFunctor_silent ha (fun m hf => by rwa [hf] at hfit) hh
      exact ⟨effects, rfl, ha', hsilent hs⟩
  | send inLoop data wr =>
    simp only [step, bind_ok, Prod.exists, pure_ok] at h
    obtain ⟨c, effects, hh, rfl⟩ := h
    obtain ⟨ha', hs⟩ := send_silent ha hen hh
    exact ⟨effects, rfl, ha', hsilent hs⟩
  | shutdown inLoop =>
    cases h
    obtain ⟨ha', hs⟩ := shutdown_silent ha inLoop
    exact ⟨_, rfl, ha', hsilent hs⟩
  | retrieve len =>
    obtain ⟨input, hret, hv, -⟩ := Buffer.retrieve_ok ha.ok.input hen
    simp only [step, hret, onBuffer_ok, ok_bind, pure_ok] at h
    subst h
    exact ⟨[], (List.append_nil _).symm,
      ⟨⟨hv, ha.ok.output, ha.ok.plain⟩, ha.state, ha.reading, ha.closed⟩,
      hsilent ⟨Iff.rfl, nofun⟩⟩

-- ---------------------------------------------------------------------------
-- The callbacks of a life
-- ---------------------------------------------------------------------------

def callbacks (log : List Effect) : List Effect :=
  log.filter fun
    | .connectionCallback _ => true
    | .messageCallback => true
    | _ => false

/-- Up, messages, down. -/
def Protocol (log : List Effect) : Prop :=
  ∃ n, callbacks log = .connectionCallback true ::
    (List.replicate n .messageCallback ++ [.connectionCallback false])

/-- `n` messages while the connection was up, `m` after it went down. -/
structure Shape (s : Life) (n m : Nat) : Prop where
  alive : s.conn.Alive
  isOpen : s.conn.state ≠ .kDisconnected → m = 0
  heard : callbacks s.log = .connectionCallback true ::
    (List.replicate n .messageCallback ++
      if s.conn.state = .kDisconnected then
        .connectionCallback false :: List.replicate m .messageCallback
      else [])

/-- Nothing is read from a connection that is down, and a half-closed connection
is not destroyed. -/
def Orderly (s : Life) : Label → Prop
  | .connectDestroyed => s.conn.state ≠ .kDisconnecting
  | a => Reads s a → s.conn.state ≠ .kDisconnected

instance (s : Life) (a : Label) : Decidable (Orderly s a) := by
  unfold Orderly
  split <;> infer_instance

theorem Orderly.mid (hm : a.Mid) : Orderly s a ↔ (Reads s a → s.conn.state ≠ .kDisconnected) := by
  cases a <;> first | exact hm.elim | exact Iff.rfl

theorem callbacks_append : callbacks (xs ++ ys) = callbacks xs ++ callbacks ys :=
  List.filter_append _ _

theorem callbacks_silent (h : ∀ e ∈ effects, e.isSilent) : callbacks effects = [] := by
  rw [callbacks, List.filter_eq_nil_iff]
  intro e he
  have := h e he
  cases e <;> simp_all [Effect.isSilent]

theorem Shape.mid (hs : Shape s n m) (hm : a.Mid) (hen : Enabled s a)
    (h : step s a = .ok t) :
    ∃ n' m', Shape t n' m' ∧ (Orderly s a ∧ m' = m ∨ ¬Orderly s a ∧ m' = m + 1) := by
  obtain ⟨effects, hlog, ha, ho, hread⟩ := step_outcome hs.alive hm hen h
  rw [Orderly.mid hm, ← hread]
  cases ho with
  | silent hsil =>
    refine ⟨n, m, ⟨ha, fun hne => hs.isOpen (mt hsil.closed.mpr hne), ?_⟩,
      .inl ⟨fun hm => absurd hm hsil.ne_message, rfl⟩⟩
    rw [hlog, callbacks_append, callbacks_silent hsil.effects, List.append_nil, hs.heard]
    simp only [hsil.closed]
  | message hst he =>
    by_cases hc : s.conn.state = .kDisconnected
    · refine ⟨n, m + 1, ⟨ha, fun hne => absurd (hst.trans hc) hne, ?_⟩,
        .inr ⟨fun hor => hor he hc, rfl⟩⟩
      rw [hlog, callbacks_append, hs.heard, he, hst, if_pos hc, List.replicate_succ']
      simp [callbacks, hc]
    · refine ⟨n + 1, m, ⟨ha, fun _ => hs.isOpen hc, ?_⟩, .inl ⟨fun _ => hc, rfl⟩⟩
      rw [hlog, callbacks_append, hs.heard, he, hst, if_neg hc, List.replicate_succ']
      simp [callbacks]
  | closed hopen hst he =>
    obtain rfl := hs.isOpen hopen
    refine ⟨n, 0, ⟨ha, fun _ => rfl, ?_⟩, .inl ⟨fun hm => ?_, rfl⟩⟩
    · rw [hlog, callbacks_append, hs.heard, he, if_neg hopen, if_pos hst]
      simp [callbacks]
    · rw [he] at hm
      cases hm

theorem Shape.run (hs : Shape s n m) (hm : ∀ a ∈ as, a.Mid) (h : machine.Run s as t) :
    ∃ n' m', Shape t n' m' ∧ m ≤ m' ∧ (m' = m ↔ machine.Meets Orderly s as) := by
  induction h generalizing n m with
  | nil => exact ⟨n, m, hs, Nat.le_refl m, iff_of_true rfl trivial⟩
  | @cons s a u as t hen hstep _ ih =>
    obtain ⟨n₁, m₁, hu, hstep'⟩ := hs.mid (hm a List.mem_cons_self) hen hstep
    obtain ⟨n', m', ht, hle, hiff⟩ := ih hu fun b hb => hm b (List.mem_cons_of_mem _ hb)
    refine ⟨n', m', ht, ?_, ?_⟩
    · rcases hstep' with ⟨-, rfl⟩ | ⟨-, rfl⟩
      · exact hle
      · omega
    · rw [Machine.meets_cons hstep, ← hiff]
      rcases hstep' with ⟨hor, rfl⟩ | ⟨hor, rfl⟩
      · exact ⟨fun he => ⟨hor, he⟩, And.right⟩
      · exact iff_of_false (by omega) fun hand => hor hand.1

-- ---------------------------------------------------------------------------
-- Whole lives
-- ---------------------------------------------------------------------------

theorem established_shape (hok : s.conn.Ok) (hlog : s.log = [])
    (h : step s .connectEstablished = .ok t) : Shape t 0 0 := by
  simp only [step, bind_ok, Prod.exists, pure_ok] at h
  obtain ⟨c, effects, he, rfl⟩ := h
  obtain ⟨ha, hs, rfl⟩ := connectEstablished_alive hok he
  refine ⟨ha, fun _ => rfl, ?_⟩
  simp [Life.after, hlog, hs, callbacks]

/-- The down callback is due only for a connection that is up, and the channel
of a half-closed one still has interest. -/
theorem Shape.destroyed (hs : Shape s n m) :
    (∃ t, step s .connectDestroyed = .ok t ∧ Protocol t.log) ↔
      m = 0 ∧ s.conn.state ≠ .kDisconnecting := by
  cases hst : s.conn.state with
  | kConnecting => exact absurd hst hs.alive.state
  | kDisconnecting =>
    refine iff_of_false ?_ fun h => h.2 rfl
    rintro ⟨t, ht, -⟩
    simp only [step, connectDestroyed, hst, bind_ok, ensure_ok, reduceCtorEq, if_false, ok_bind]
      at ht
    obtain ⟨_, ⟨_, hnone, -⟩, -⟩ := ht
    exact (hs.alive.reading (by simp [hst])).not_isNoneEvent hnone
  | kConnected =>
    obtain rfl := hs.isOpen (by simp [hst])
    refine iff_of_true ?_ ⟨rfl, by simp⟩
    simp only [step, connectDestroyed, hst, if_true, ok_bind,
      ensure_bind (Channel.disableAll_isNoneEvent s.conn.channel)]
    refine ⟨_, rfl, n, ?_⟩
    simp only [Life.after, callbacks_append, hs.heard, hst]
    simp [callbacks, connected]
  | kDisconnected =>
    simp only [step, connectDestroyed, hst, reduceCtorEq, if_false, ok_bind,
      ensure_bind (hs.alive.closed hst)]
    have hcb : callbacks (s.log ++ ([] ++ [.removeChannel])) = .connectionCallback true ::
        (List.replicate n .messageCallback ++
          .connectionCallback false :: List.replicate m .messageCallback) := by
      rw [callbacks_append, hs.heard, if_pos hst]
      simp [callbacks]
    constructor
    · rintro ⟨t, ht, k, hk⟩
      cases ht
      refine ⟨?_, by simp⟩
      have htail := (List.cons_inj_right _).mp (hcb.symm.trans hk)
      cases m with
      | zero => rfl
      | succ m =>
        rw [List.replicate_succ', ← List.cons_append, ← List.append_assoc] at htail
        have hlast := List.append_inj_right' htail rfl
        cases hlast
    · rintro ⟨rfl, -⟩
      exact ⟨_, rfl, n, hcb⟩

/-- From `connectEstablished` to `connectDestroyed` the user gets up, messages
and down, and the channel is removed without interest, exactly if no step is
out of order. -/
theorem teardown_iff {c : TcpConnection} (hnew : c.New) (hm : ∀ a ∈ as, a.Mid)
    (h : machine.Run { conn := c } (.connectEstablished :: as) s) :
    (∃ t, machine.step s .connectDestroyed = .ok t ∧ Protocol t.log) ↔
      machine.Meets Orderly { conn := c } (.connectEstablished :: (as ++ [.connectDestroyed])) := by
  cases h with
  | @cons _ _ u _ _ _ hu hrun =>
    have hshape := established_shape hnew.ok rfl hu
    obtain ⟨n, m, hs, -, hiff⟩ := hshape.run hm hrun
    rw [Machine.meets_cons hu, hrun.meets_snoc, ← hiff]
    exact hs.destroyed.trans (and_iff_right nofun).symm

/-- A message, the end of the file, and a server that then removes the
connection. -/
theorem teardown_iff_closed : ∃ (c : TcpConnection) (s t : Life),
    machine.Run { conn := c } [.connectEstablished, .event POLLIN,
      .dispatch (.data (ascii "hi")) (.accepted 0), .event POLLIN,
      .dispatch (.data []) (.accepted 0)] s ∧
    machine.step s .connectDestroyed = .ok t ∧ Protocol t.log := by
  let c : TcpConnection := { channel := { fd := 7 } }
  have hnew : c.New := ⟨rfl, rfl, rfl, rfl⟩
  have hrun : ∃ s, machine.Run { conn := c } [.connectEstablished, .event POLLIN,
      .dispatch (.data (ascii "hi")) (.accepted 0), .event POLLIN,
      .dispatch (.data []) (.accepted 0)] s ∧ True :=
    Machine.exists_run (by decide +kernel)
  obtain ⟨s, hs, -⟩ := hrun
  have hm : ∀ a ∈ [.event POLLIN, .dispatch (.data (ascii "hi")) (.accepted 0), .event POLLIN,
      .dispatch (.data []) (.accepted 0)], Label.Mid a := by
    simp [Label.Mid]
  obtain ⟨t, ht, hp⟩ := (teardown_iff hnew hm hs).mpr (by decide +kernel)
  exact ⟨c, s, t, hs, ht, hp⟩

/-- A connection half-closed by `shutdown()` is destroyed: its channel still
reads, and the user never hears that it is down. -/
theorem teardown_halfClosed : ∃ (c : TcpConnection) (s : Life),
    c.New ∧ machine.Run { conn := c } [.connectEstablished, .shutdown true] s ∧
    callbacks s.log = [.connectionCallback true] ∧
    machine.step s .connectDestroyed = .error .channelRemoveInterest := by
  let c : TcpConnection := { channel := { fd := 7 } }
  have hrun : ∃ s, machine.Run { conn := c } [.connectEstablished, .shutdown true] s ∧
      callbacks s.log = [.connectionCallback true] ∧
      step s .connectDestroyed = .error .channelRemoveInterest :=
    Machine.exists_run (by decide +kernel)
  obtain ⟨s, hs⟩ := hrun
  exact ⟨c, s, ⟨rfl, rfl, rfl, rfl⟩, hs⟩

end Muduo.ConnectionLife
