import Muduo.Net.ConnectorSteps

/-!
# One attempt at a time

Whether an assertion of the connector holds in a step can be told from the order
of the calls and events: from the socket that is being connected, from whether an
attempt has succeeded since the last restart, and from the functors in the queue.
-/

namespace Muduo.ClientLoop

open Lib Connector

variable {w w' : ClientLoop}

-- ---------------------------------------------------------------------------
-- What went before
-- ---------------------------------------------------------------------------

def Milestone.follow (succeeded : Bool) : Milestone → Bool
  | .connected _ => true
  | .restart => false
  | _ => succeeded

/-- An attempt has succeeded since the last restart. -/
def Succeeded (w : ClientLoop) : Prop := w.log.foldl Milestone.follow false = true

instance (w : ClientLoop) : Decidable w.Succeeded := inferInstanceAs (Decidable (_ = true))

theorem note_succeeded (w : ClientLoop) (m : Milestone) :
    (w.note m).Succeeded ↔
      Milestone.follow (w.log.foldl Milestone.follow false) m = true := by
  simp only [Succeeded, note, List.foldl_append, List.foldl_cons, List.foldl_nil]

/-- The step calls `startInLoop` other than through a restart. -/
def Starts (w : ClientLoop) : Label → Prop
  | .connect inLoop _ => inLoop = true
  | .functor _ => w.functors.head? = some .startInLoop
  | .timer _ _ => True
  | _ => False

def Opens (w : ClientLoop) : Label → Prop
  | .connect inLoop savedErrno => inLoop = true ∧ inProgress savedErrno
  | .functor savedErrno =>
    w.functors.head? = some .startInLoop ∧ w.connector.connect_ = true ∧ inProgress savedErrno
  | .timer _ savedErrno => w.connector.connect_ = true ∧ inProgress savedErrno
  | .close _ savedErrno => (w.client.retry ∧ w.client.connect_) ∧ inProgress savedErrno
  | _ => False

instance (w : ClientLoop) : DecidablePred w.Starts
  | .connect inLoop _ => inferInstanceAs (Decidable (inLoop = true))
  | .functor _ => inferInstanceAs (Decidable (w.functors.head? = some .startInLoop))
  | .timer _ _ => isTrue trivial
  | .disconnect => isFalse id
  | .stop _ => isFalse id
  | .enableRetry => isFalse id
  | .event _ _ _ _ => isFalse id
  | .close _ _ => isFalse id

instance (w : ClientLoop) : DecidablePred w.Opens
  | .connect inLoop e => inferInstanceAs (Decidable (inLoop = true ∧ inProgress e))
  | .functor _ => inferInstanceAs (Decidable (_ ∧ _ ∧ _))
  | .timer _ _ => inferInstanceAs (Decidable (_ ∧ _))
  | .close _ _ => inferInstanceAs (Decidable ((_ ∧ _) ∧ _))
  | .disconnect => isFalse id
  | .stop _ => isFalse id
  | .enableRetry => isFalse id
  | .event _ _ _ _ => isFalse id

/-- A start finds no socket connecting and no success behind it, and an attempt
that stays open no `resetChannel` in the queue. -/
def Clear (w : ClientLoop) (a : Label) : Prop :=
  (w.Starts a → w.registered = [] ∧ ¬w.Succeeded) ∧
  (w.Opens a → Functor.resetChannel ∉ w.functors)

instance (w : ClientLoop) (a : Label) : Decidable (Clear w a) :=
  inferInstanceAs (Decidable ((_ → _ ∧ _) ∧ (_ → _)))

-- ---------------------------------------------------------------------------
-- The invariant
-- ---------------------------------------------------------------------------

/-- No socket is connecting, and the channel is there until it is reset. -/
structure Between (w : ClientLoop) : Prop where
  registered : w.registered = []
  channel : w.connector.channel = none ↔ Functor.resetChannel ∉ w.functors
  once : w.functors.count .resetChannel ≤ 1

structure Watching (w : ClientLoop) (c : Channel) : Prop where
  channel : w.connector.channel = some c
  registered : w.registered = [c.fd]
  reset : Functor.resetChannel ∉ w.functors

structure Alone (w : ClientLoop) : Prop where
  connection : w.client.connection = none
  conns : w.conns = []
  succeeded : ¬w.Succeeded

inductive Inv (w : ClientLoop) : Prop
  | idle : w.connector.state = .kDisconnected → Between w → Alone w → Inv w
  | trying : w.connector.state = .kConnecting → Watching w c → Alone w → Inv w
  | connected : w.connector.state = .kConnected → Between w → w.Succeeded →
      w.conns = w.client.connection.toList → Inv w

theorem Inv.registered (h : Inv w) : w.registered.length ≤ 1 := by
  cases h with
  | idle _ hb _ => simp [hb.registered]
  | trying _ hw _ => simp [hw.registered]
  | connected _ hb _ _ => simp [hb.registered]

theorem Inv.idle_iff (h : Inv w) :
    w.connector.state = .kDisconnected ↔ w.registered = [] ∧ ¬w.Succeeded := by
  cases h with
  | idle hs hb ha => exact iff_of_true hs ⟨hb.registered, ha.succeeded⟩
  | trying hs hw _ =>
    refine iff_of_false (by simp [hs]) fun hn => ?_
    have hr := hn.1
    simp [hw.registered] at hr
  | connected hs _ hsucc _ => exact iff_of_false (by simp [hs]) fun hn => hn.2 hsucc

theorem Inv.of_idle (h : Inv w) (hs : w.connector.state = .kDisconnected) :
    Between w ∧ Alone w := by
  cases h with
  | idle _ hb ha => exact ⟨hb, ha⟩
  | trying hs' _ _ => simp [hs] at hs'
  | connected hs' _ _ _ => simp [hs] at hs'

theorem Inv.of_conn (h : Inv w) (hc : fd ∈ w.conns) :
    Between w ∧ w.conns = [fd] ∧ w.client.connection = some fd := by
  cases h with
  | idle _ _ ha => simp [ha.conns] at hc
  | trying _ _ ha => simp [ha.conns] at hc
  | connected _ hb _ hconns =>
    cases hcon : w.client.connection with
    | none => simp [hconns, hcon] at hc
    | some fd' =>
      simp only [hconns, hcon, Option.toList_some, List.mem_singleton] at hc ⊢
      exact ⟨hb, by rw [hc], by rw [hc]⟩

theorem Inv.of_registered (h : Inv w) (hr : fd ∈ w.registered) :
    w.connector.state = .kConnecting ∧ (∃ c, Watching w c) ∧ Alone w := by
  cases h with
  | idle _ hb _ => simp [hb.registered] at hr
  | trying hs hw ha => exact ⟨hs, ⟨_, hw⟩, ha⟩
  | connected _ hb _ _ => simp [hb.registered] at hr

/-- What no assertion looks at may change, and functors other than
`resetChannel` may come and go. -/
theorem Inv.frame (h : Inv w) (hs : w'.connector.state = w.connector.state)
    (hc : w'.connector.channel = w.connector.channel) (hr : w'.registered = w.registered)
    (hf : w'.functors.count .resetChannel = w.functors.count .resetChannel)
    (hcon : w'.client.connection = w.client.connection) (hconns : w'.conns = w.conns)
    (hlog : w'.log = w.log) : Inv w' := by
  have hmem : Functor.resetChannel ∉ w'.functors ↔ Functor.resetChannel ∉ w.functors := by
    rw [← List.count_eq_zero, ← List.count_eq_zero, hf]
  have hbetween : Between w → Between w' := fun hb =>
    ⟨hr.trans hb.registered, by rw [hc, hb.channel, hmem], hf ▸ hb.once⟩
  have hsucc : w'.Succeeded ↔ w.Succeeded := by simp only [Succeeded, hlog]
  have halone : Alone w → Alone w' := fun ha =>
    ⟨hcon.trans ha.connection, hconns.trans ha.conns, fun hn => ha.succeeded (hsucc.mp hn)⟩
  cases h with
  | idle hst hb ha => exact .idle (hs.trans hst) (hbetween hb) (halone ha)
  | trying hst hw ha =>
    exact .trying (hs.trans hst)
      ⟨hc.trans hw.channel, hr.trans hw.registered, hmem.mpr hw.reset⟩ (halone ha)
  | connected hst hb hsu hcs =>
    exact .connected (hs.trans hst) (hbetween hb) (hsucc.mpr hsu) (by rw [hconns, hcon, hcs])

-- ---------------------------------------------------------------------------
-- The functions
-- ---------------------------------------------------------------------------

theorem close_alone (h : Alone w) (fd : Int) : Alone (w.close fd) :=
  ⟨h.connection, h.conns, fun hn => h.succeeded ((note_succeeded ..).mp hn)⟩

theorem retry_inv (hb : Between w) (ha : Alone w) (fd : Int) : Inv (Connector.retry w fd) := by
  have ha' := close_alone ha fd
  obtain ⟨timers, delay, heq⟩ := retry_rest w fd
  rw [heq]
  exact .idle rfl ⟨hb.registered, hb.channel, hb.once⟩ ⟨ha'.connection, ha'.conns, ha'.succeeded⟩

theorem removeAndResetChannel_ok (h : Watching w c) :
    ∃ w', removeAndResetChannel w = .ok (c.fd, w') ∧ Between w' ∧
      w'.connector.connect_ = w.connector.connect_ ∧
      w'.client.connection = w.client.connection ∧ w'.conns = w.conns ∧ w'.log = w.log := by
  have hin : c.disableAll.fd ∈ w.registered := by simp [h.registered, Channel.disableAll]
  refine ⟨{ w with
    client.connector.channel := some c.disableAll
    registered := w.registered.erase c.disableAll.fd
    functors := w.functors ++ [.resetChannel] }, ?_, ⟨?_, ?_, ?_⟩, rfl, rfl, rfl, rfl⟩
  · simp only [removeAndResetChannel, h.channel,
      ensure_bind (Channel.disableAll_isNoneEvent c), ensure_bind hin]
    rfl
  · simp [h.registered, Channel.disableAll]
  · simp [connector]
  · simp [List.count_eq_zero.mpr h.reset]

theorem Alone.of_eq (h : Alone w) (hcon : w'.client.connection = w.client.connection)
    (hconns : w'.conns = w.conns) (hlog : w'.log = w.log) : Alone w' :=
  ⟨hcon.trans h.connection, hconns.trans h.conns, fun hn => h.succeeded (by
    simpa only [Succeeded, hlog] using hn)⟩

/-- An attempt fails only when its channel would be there before the last one
is reset. -/
theorem connect_decides (hs : w.connector.state = .kDisconnected) (hb : Between w) (ha : Alone w) :
    Decides (Connector.connect w savedErrno)
      (inProgress savedErrno → Functor.resetChannel ∉ w.functors) Inv := by
  have ha' : Alone ({ w with created := w.created + 1 }.note (.attempt w.created)) :=
    ⟨ha.connection, ha.conns, fun hn => ha.succeeded ((note_succeeded ..).mp hn)⟩
  have hb' : Between ({ w with created := w.created + 1 }.note (.attempt w.created)) :=
    ⟨hb.registered, hb.channel, hb.once⟩
  simp only [Connector.connect, createNonblockingOrDie]
  split
  · rename_i hp
    refine (Decides.ensure (C := True) fun hnone => ?_).congr ?_
    · refine Decides.of_ok rfl trivial (.trying (c := ({ fd := w.created } : Channel).enableWriting)
        rfl ⟨rfl, ?_, hb.channel.mp hnone⟩ ⟨ha'.connection, ha'.conns, ha'.succeeded⟩)
      exact congrArg (· ++ [(w.created : Int)]) hb.registered
    · simp only [hp, true_implies, and_true]
      exact hb.channel.symm
  · rename_i hp
    split
    · exact .of_ok rfl (fun h => absurd h hp) (retry_inv hb' ha' _)
    · exact .of_ok rfl (fun h => absurd h hp)
        (.idle hs ⟨hb.registered, hb.channel, hb.once⟩ (close_alone ha' _))

theorem startInLoop_decides (h : Inv w) : Decides (startInLoop w savedErrno)
    ((w.registered = [] ∧ ¬w.Succeeded) ∧
      (w.connector.connect_ = true ∧ inProgress savedErrno → Functor.resetChannel ∉ w.functors))
    Inv := by
  refine (Decides.ensure fun hs => ?_).congr (and_congr_left' h.idle_iff.symm)
  obtain ⟨hb, ha⟩ := h.of_idle hs
  split
  · rename_i hc
    exact (connect_decides hs hb ha).congr (by simp [hc])
  · rename_i hc
    exact .of_ok rfl (fun hn => absurd hn.1 hc) h

theorem stopInLoop_ok (h : Inv w) : ∃ t, stopInLoop w = .ok t ∧ Inv t := by
  unfold stopInLoop
  split
  · rename_i hs
    cases h with
    | idle hs' _ _ => simp [hs] at hs'
    | connected hs' _ _ _ => simp [hs] at hs'
    | trying _ hw ha =>
      have hw' : Watching (setState w .kDisconnected) _ := ⟨hw.channel, hw.registered, hw.reset⟩
      obtain ⟨t, hok, hb, -, hcon, hconns, hlog⟩ := removeAndResetChannel_ok hw'
      simp only [hok, ok_bind]
      exact ⟨_, rfl, retry_inv hb (ha.of_eq hcon hconns hlog) _⟩
  · exact ⟨w, rfl, h⟩

theorem handleError_ok (h : Inv w) (hs : w.connector.state = .kConnecting) :
    ∃ t, handleError w = .ok t ∧ Inv t ∧ t.connector.state = .kDisconnected := by
  cases h with
  | idle hs' _ _ => simp [hs] at hs'
  | connected hs' _ _ _ => simp [hs] at hs'
  | trying _ hw ha =>
    obtain ⟨t, hok, hb, -, hcon, hconns, hlog⟩ := removeAndResetChannel_ok hw
    simp only [handleError, ensure_bind hs, hok, ok_bind]
    exact ⟨_, rfl, retry_inv hb (ha.of_eq hcon hconns hlog) _, retry_state ..⟩

theorem handleWrite_ok (h : Inv w) (hs : w.connector.state ≠ .kConnected) :
    ∃ t, handleWrite w err isSelfConnect = .ok t ∧ Inv t := by
  unfold handleWrite
  cases h with
  | idle hs' hb ha =>
    rw [if_neg (by simp [hs'])]
    exact ⟨w, by simp only [ensure_bind hs']; rfl, .idle hs' hb ha⟩
  | connected hs' _ _ _ => exact absurd hs' hs
  | trying hs' hw ha =>
    obtain ⟨t, hok, hb, -, hcon, hconns, hlog⟩ := removeAndResetChannel_ok hw
    have hat := ha.of_eq hcon hconns hlog
    simp only [hs', hok, ok_bind, if_true]
    split
    · exact ⟨_, rfl, retry_inv hb hat _⟩
    · split
      · exact ⟨_, rfl, retry_inv hb hat _⟩
      · refine ⟨_, rfl, ?_⟩
        have hnote (w : ClientLoop) (m : Milestone) (hm : ∀ b, Milestone.follow b m = b) :
            (w.note m).Succeeded ↔ w.Succeeded := by rw [note_succeeded, hm]; rfl
        have hsucc (fd : Int) : ((setState t .kConnected).note (.connected fd)).Succeeded :=
          (note_succeeded ..).mpr rfl
        split
        · refine .connected rfl ⟨hb.registered, hb.channel, hb.once⟩
            ((hnote _ _ fun _ => rfl).mpr (hsucc _)) ?_
          exact congrArg (· ++ _) hat.conns
        · refine .connected rfl ⟨hb.registered, hb.channel, hb.once⟩
            ((hnote _ _ fun _ => rfl).mpr (hsucc _)) ?_
          exact hat.conns.trans (congrArg Option.toList hat.connection).symm

/-- The error callback comes before the write callback. -/
theorem handleEvent_callbacks (revents : BitVec 32) :
    handleEvent err isSelfConnect (Channel.callbacks revents) w =
      (if revents &&& (POLLNVAL ||| POLLERR) ≠ 0 then handleError w else .ok w) >>= fun w =>
        if revents &&& POLLOUT ≠ 0 then handleWrite w err isSelfConnect else .ok w := by
  have hlast (x : Except Fault ClientLoop) : (x >>= fun w => .ok w) = x := by cases x <;> rfl
  unfold Channel.callbacks
  split_ifs <;> simp [handleEvent, hlast]

theorem handleEvent_ok (h : Inv w) (hs : w.connector.state = .kConnecting) :
    ∃ t, handleEvent err isSelfConnect (Channel.callbacks revents) w = .ok t ∧ Inv t := by
  rw [handleEvent_callbacks]
  split
  · obtain ⟨t, hok, ht, hst⟩ := handleError_ok h hs
    rw [hok, ok_bind]
    split
    · exact handleWrite_ok ht (by simp [hst])
    · exact ⟨t, rfl, ht⟩
  · rw [ok_bind]
    split
    · exact handleWrite_ok h (by simp [hs])
    · exact ⟨w, rfl, h⟩

theorem resetChannel_inv {rest : List Functor} (h : Inv w) (hf : w.functors = .resetChannel :: rest) :
    Inv (resetChannel { w with functors := rest }) := by
  have hbetween : Between w → Between (resetChannel { w with functors := rest }) := by
    intro hb
    have hcount := hb.once
    rw [hf, List.count_cons_self] at hcount
    have hzero : rest.count .resetChannel = 0 := by omega
    exact ⟨hb.registered, iff_of_true rfl (List.count_eq_zero.mp hzero),
      Nat.le_trans (Nat.le_of_eq hzero) (Nat.zero_le 1)⟩
  cases h with
  | idle hs hb ha =>
    exact .idle hs (hbetween hb) ⟨ha.connection, ha.conns, ha.succeeded⟩
  | trying _ hw _ => exact absurd (by simp [hf]) hw.reset
  | connected hs hb hsucc hconns => exact .connected hs (hbetween hb) hsucc hconns

-- ---------------------------------------------------------------------------
-- Steps
-- ---------------------------------------------------------------------------

theorem connect_step (h : Inv w) (inLoop : Bool) (savedErrno : Errno) :
    Decides (step w (.connect inLoop savedErrno)) (Clear w (.connect inLoop savedErrno)) Inv := by
  cases inLoop with
  | true =>
    have hw : Inv { w with client.connect_ := true, client.connector.connect_ := true } :=
      h.frame rfl rfl rfl rfl rfl rfl rfl
    refine (startInLoop_decides hw).congr ?_
    simp [Clear, Starts, Opens, Succeeded, connector]
  | false =>
    refine .of_ok rfl ⟨nofun, fun ho => absurd ho.1 nofun⟩ (h.frame rfl rfl rfl ?_ rfl rfl rfl)
    simp [queueInLoop]

theorem stop_step (h : Inv w) (inLoop : Bool) : ∃ t, step w (.stop inLoop) = .ok t ∧ Inv t := by
  cases inLoop with
  | true =>
    have hw : Inv { w with client.connect_ := false, client.connector.connect_ := false } :=
      h.frame rfl rfl rfl rfl rfl rfl rfl
    exact stopInLoop_ok hw
  | false =>
    refine ⟨_, rfl, h.frame rfl rfl rfl ?_ rfl rfl rfl⟩
    simp [queueInLoop]

theorem functor_step {rest : List Functor} (h : Inv w) (hf : w.functors = f :: rest)
    (savedErrno : Errno) :
    Decides (step w (.functor savedErrno)) (Clear w (.functor savedErrno)) Inv := by
  simp only [step, hf]
  have hrest (hne : f ≠ .resetChannel) : Inv { w with functors := rest } := by
    refine h.frame rfl rfl rfl ?_ rfl rfl rfl
    rw [hf, List.count_cons_of_ne hne]
  have hclear (hne : f ≠ .startInLoop) : Clear w (.functor savedErrno) := by
    simp [Clear, Starts, Opens, hf, hne]
  cases f with
  | startInLoop =>
    refine (startInLoop_decides (hrest (by simp))).congr ?_
    simp [Clear, Starts, Opens, Succeeded, hf, connector]
  | stopInLoop =>
    obtain ⟨t, hok, ht⟩ := stopInLoop_ok (hrest (by simp))
    exact .of_ok hok (hclear (by simp)) ht
  | resetChannel => exact .of_ok rfl (hclear (by simp)) (resetChannel_inv h hf)
  | connectDestroyed fd => exact .of_ok rfl (hclear (by simp)) (hrest (by simp))

theorem timer_step (h : Inv w) (k : Nat) (savedErrno : Errno) :
    Decides (step w (.timer k savedErrno)) (Clear w (.timer k savedErrno)) Inv := by
  have hw : Inv { w with timers := w.timers.eraseIdx k } := h.frame rfl rfl rfl rfl rfl rfl rfl
  refine (startInLoop_decides hw).congr ?_
  simp [Clear, Starts, Opens, Succeeded, connector]

theorem close_step (h : Inv w) (hc : conn ∈ w.conns) (savedErrno : Errno) :
    Decides (step w (.close conn savedErrno)) (Clear w (.close conn savedErrno)) Inv := by
  obtain ⟨hb, hconns, hcon⟩ := h.of_conn hc
  have hcount : (w.functors ++ [Functor.connectDestroyed conn]).count .resetChannel =
      w.functors.count .resetChannel := by simp
  have hmem : Functor.resetChannel ∉ w.functors ++ [.connectDestroyed conn] ↔
      Functor.resetChannel ∉ w.functors := by simp
  simp only [step, TcpClient.removeConnection, ensure_bind hcon]
  split
  · rename_i hre
    have hw : Inv (({ w with
        client.connection := none
        client.connector.state := .kDisconnected
        client.connector.retryDelayMs := kInitRetryDelayMs
        client.connector.connect_ := true
        functors := w.functors ++ [.connectDestroyed conn]
        conns := w.conns.erase conn } : ClientLoop).note .restart) := by
      refine .idle rfl ⟨hb.registered, hb.channel.trans hmem.symm, hcount ▸ hb.once⟩ ⟨rfl, ?_, ?_⟩
      · simp [note, hconns]
      · simp [note_succeeded, Milestone.follow]
    have halone := (hw.of_idle rfl).2.succeeded
    refine (startInLoop_decides hw).congr ?_
    have hre' : w.client.retry = true ∧ w.client.connect_ = true := hre
    simp only [Clear, Starts, Opens, hre', and_self, true_and, false_implies]
    rw [← hmem]
    exact ⟨fun hp => ⟨⟨hb.registered, halone⟩, fun hi => hp hi.2⟩, fun hp hi => hp.2 ⟨rfl, hi⟩⟩
  · rename_i hre
    refine .of_ok rfl ⟨by simp [Starts], fun ho => absurd ho.1 hre⟩ ?_
    cases h with
    | idle _ _ ha => simp [ha.conns] at hc
    | trying _ _ ha => simp [ha.conns] at hc
    | connected hs _ hsucc _ =>
      refine .connected hs ⟨hb.registered, hb.channel.trans hmem.symm, hcount ▸ hb.once⟩ hsucc ?_
      simp [queueInLoop, hconns]

theorem step_decides (h : Inv w) (ha : machine.enabled w a) :
    Decides (machine.step w a) (Clear w a) Inv := by
  cases a with
  | connect inLoop savedErrno => exact connect_step h inLoop savedErrno
  | disconnect => exact .of_ok rfl ⟨nofun, nofun⟩ (h.frame rfl rfl rfl rfl rfl rfl rfl)
  | stop inLoop =>
    obtain ⟨t, hok, ht⟩ := stop_step h inLoop
    exact .of_ok hok ⟨nofun, nofun⟩ ht
  | enableRetry => exact .of_ok rfl ⟨nofun, nofun⟩ (h.frame rfl rfl rfl rfl rfl rfl rfl)
  | functor savedErrno =>
    obtain ⟨f, rest, hf⟩ := List.exists_cons_of_ne_nil ha
    exact functor_step h hf savedErrno
  | timer k savedErrno => exact timer_step h k savedErrno
  | event fd revents err isSelfConnect =>
    obtain ⟨hs, -, -⟩ := h.of_registered ha
    obtain ⟨t, hok, ht⟩ := handleEvent_ok h hs
    exact .of_ok hok ⟨nofun, nofun⟩ ht
  | close conn savedErrno => exact close_step h ha savedErrno

theorem start_inv : Inv {} := .idle rfl ⟨rfl, by decide, by decide⟩ ⟨rfl, rfl, by decide⟩

-- ---------------------------------------------------------------------------
-- Runs
-- ---------------------------------------------------------------------------

/-- Whatever calls and events are offered: no assertion fails and never more
than one connecting socket is in the poller, exactly if every step is clear. -/
theorem attempts_iff (ho : machine.Meets machine.enabled {} labels) :
    ((∃ w, machine.Run {} labels w) ∧
      machine.Holds (fun w => w.registered.length ≤ 1) {} labels) ↔
    machine.Meets Clear {} labels := by
  obtain ⟨hiff, hholds⟩ := Machine.run_iff_meets step_decides ho start_inv
  rw [← hiff]
  exact and_iff_left (hholds.imp Inv.registered)

/-- Refused at first, then connected from a retry timer, closed, and connected
once more by a restart. -/
theorem attempts_iff_reconnected :
    (∃ w, machine.Run {}
      [.enableRetry, .connect true ECONNREFUSED, .timer 0 EINPROGRESS, .event 1 POLLOUT 0 false,
        .functor 0, .close 1 EINPROGRESS, .functor 0, .event 2 (POLLOUT ||| POLLERR) 111 false,
        .functor 0, .timer 0 0] w) ∧
    machine.Holds (fun w => w.registered.length ≤ 1) {}
      [.enableRetry, .connect true ECONNREFUSED, .timer 0 EINPROGRESS, .event 1 POLLOUT 0 false,
        .functor 0, .close 1 EINPROGRESS, .functor 0, .event 2 (POLLOUT ||| POLLERR) 111 false,
        .functor 0, .timer 0 0] :=
  (attempts_iff (by decide +kernel)).mpr (by decide +kernel)

/-- The timer of an attempt that was stopped fires while the next attempt is
under way. -/
theorem attempts_overlap :
    ∃ w, machine.Run {} [.connect true ECONNREFUSED, .stop true, .connect true EINPROGRESS] w ∧
      machine.enabled w (.timer 0 0) ∧ machine.step w (.timer 0 0) = .error .startInLoop :=
  Machine.exists_run (by decide +kernel)

end Muduo.ClientLoop
