import Muduo.Net.Descriptors
import Muduo.Net.Frames
import Muduo.Net.Reactor

/-!
# Channels removed during dispatch

The handlers of a loop take no channel out of the poller but the current one,
and what its functors take out they take out between the batches. Only
calls that tear an object down at once can meet a channel of the batch:
`removal_iff` says which.
-/

namespace Muduo.ClientLoop

open Lib Connector

variable {w w' : ClientLoop}

-- ---------------------------------------------------------------------------
-- The channel of a connector
-- ---------------------------------------------------------------------------

/-- The channel of `fd` is in the poller, or was taken out in this batch: until
the functor that resets it has run there is no other. -/
structure Pinned (fd : Int) (w : ClientLoop) : Prop where
  channel : w.connector.channel ≠ none
  place : w.registered = [fd] ∨ .resetChannel ∈ w.functors

theorem Pinned.frame (h : Pinned fd w) (hc : w'.connector.channel = w.connector.channel)
    (hr : w'.registered = w.registered) (hf : ∃ fs, w'.functors = w.functors ++ fs) :
    Pinned fd w' := by
  obtain ⟨fs, hf⟩ := hf
  refine ⟨hc ▸ h.channel, ?_⟩
  rw [hr, hf]
  exact h.place.imp_right (List.mem_append_left _)

theorem Inv.pinned (h : Inv w) (hr : fd ∈ w.registered) : Pinned fd w := by
  obtain ⟨-, ⟨c, hw⟩, -⟩ := h.of_registered hr
  refine ⟨by simp [hw.channel], .inl ?_⟩
  rw [hw.registered, List.mem_singleton] at hr
  rw [hr, hw.registered]

theorem Pinned.registered (h : Pinned fd w) (hi : Inv w) (hr : fd' ∈ w.registered) : fd' = fd := by
  obtain ⟨-, ⟨c, hw⟩, -⟩ := hi.of_registered hr
  rcases h.place with hp | hp
  · rw [hp] at hr
    exact List.mem_singleton.mp hr
  · exact absurd hp hw.reset

theorem Pinned.frame_same (h : Pinned fd w) (hc : w'.connector.channel = w.connector.channel)
    (hr : w'.registered = w.registered) (hf : w'.functors = w.functors) : Pinned fd w' :=
  h.frame hc hr ⟨[], hf.trans (List.append_nil _).symm⟩

theorem Pinned.retry (h : Pinned fd w) (sockfd : Int) : Pinned fd (Connector.retry w sockfd) := by
  obtain ⟨timers, delay, heq⟩ := retry_rest w sockfd
  rw [heq]
  exact h.frame_same rfl rfl rfl

theorem pinned_remove (h : removeAndResetChannel w = .ok (sockfd, w')) (fd : Int) :
    Pinned fd w' := by
  obtain ⟨-, c, rfl⟩ := removeAndResetChannel_cases h
  exact ⟨nofun, .inr (List.mem_append_right _ (List.mem_singleton_self _))⟩

theorem Pinned.startInLoop (h : Pinned fd w) (hs : startInLoop w savedErrno = .ok w') :
    Pinned fd w' := by
  obtain ⟨-, hconnect⟩ | rfl := startInLoop_cases hs
  · have hnew : Pinned fd (attempted w) := h.frame_same rfl rfl rfl
    obtain hconnecting | rfl | rfl := connect_cases hconnect
    · exact absurd (connecting_ok hconnecting).1 hnew.channel
    · exact hnew.retry _
    · exact hnew.frame_same rfl rfl rfl
  · exact h

theorem Pinned.start (h : Pinned fd w) (hs : Connector.start w inLoop savedErrno = .ok w') :
    Pinned fd w' := by
  cases inLoop with
  | true =>
    refine Pinned.startInLoop ?_ hs
    exact h.frame_same rfl rfl rfl
  | false =>
    cases hs
    exact h.frame rfl rfl ⟨_, rfl⟩

theorem Pinned.stop (h : Pinned fd w) (hs : Connector.stop w inLoop = .ok w') :
    Pinned fd w' := by
  cases inLoop with
  | true =>
    obtain ⟨-, sockfd, w₁, hremove, rfl⟩ | ⟨-, rfl⟩ := stopInLoop_cases hs
    · exact (pinned_remove hremove fd).retry sockfd
    · exact h.frame_same rfl rfl rfl
  | false =>
    cases hs
    exact h.frame rfl rfl ⟨_, rfl⟩

theorem Pinned.handleWrite (h : Pinned fd w) (hs : handleWrite w err isSelfConnect = .ok w') :
    Pinned fd w' := by
  obtain ⟨-, sockfd, w₁, hremove, hend⟩ | ⟨-, rfl⟩ := handleWrite_cases hs
  · have hw₁ := pinned_remove hremove fd
    obtain rfl | ⟨-, rfl⟩ | ⟨-, rfl⟩ := hend
    · exact hw₁.retry sockfd
    · exact hw₁.frame_same rfl rfl rfl
    · exact hw₁.frame_same rfl rfl rfl
  · exact h

theorem pinned_handleError (hs : handleError w = .ok w') (fd : Int) : Pinned fd w' := by
  obtain ⟨-, sockfd, w₁, hremove, rfl⟩ := handleError_cases hs
  exact (pinned_remove hremove fd).retry sockfd

theorem Pinned.removeConnection (h : Pinned fd w)
    (hs : TcpClient.removeConnection w conn savedErrno = .ok w') : Pinned fd w' := by
  obtain ⟨-, hrestart⟩ | rfl := removeConnection_cases hs
  · refine Pinned.startInLoop ?_ hrestart
    exact h.frame rfl rfl ⟨_, rfl⟩
  · exact h.frame rfl rfl ⟨_, rfl⟩

def Label.IsFunctor : Label → Prop
  | .functor _ => True
  | _ => False

theorem Pinned.step (h : Pinned fd w) (ha : ¬Label.IsFunctor a) (hs : step w a = .ok w') :
    Pinned fd w' := by
  cases a with
  | connect inLoop savedErrno =>
    refine Pinned.start ?_ hs
    exact h.frame_same rfl rfl rfl
  | disconnect | enableRetry =>
    cases hs
    exact h.frame_same rfl rfl rfl
  | stop inLoop =>
    refine Pinned.stop ?_ hs
    exact h.frame_same rfl rfl rfl
  | functor savedErrno => exact absurd trivial ha
  | timer k savedErrno =>
    refine Pinned.startInLoop ?_ hs
    exact h.frame_same rfl rfl rfl
  | event _ revents err isSelfConnect =>
    exact handleEvent_keeps (fun _ hhandle => pinned_handleError hhandle fd) Pinned.handleWrite h hs
  | close conn savedErrno =>
    refine Pinned.removeConnection ?_ hs
    exact h.frame_same rfl rfl rfl

-- ---------------------------------------------------------------------------
-- What leaves the poller
-- ---------------------------------------------------------------------------

def Grows (w w' : ClientLoop) : Prop := ∀ fd ∈ w.registered, fd ∈ w'.registered

theorem Grows.of_eq (h : w'.registered = w.registered) : Grows w w' := fun _ hr => h ▸ hr

theorem grows_retry (w : ClientLoop) (fd : Int) : Grows w (Connector.retry w fd) := by
  obtain ⟨timers, delay, heq⟩ := retry_rest w fd
  rw [heq]
  exact .of_eq rfl

theorem grows_startInLoop (hs : startInLoop w savedErrno = .ok w') : Grows w w' := by
  obtain ⟨-, hconnect⟩ | rfl := startInLoop_cases hs
  · obtain hconnecting | rfl | rfl := connect_cases hconnect
    · obtain ⟨-, c, rfl⟩ := connecting_ok hconnecting
      exact fun fd hr => List.mem_append_left _ hr
    · exact grows_retry (attempted w) _
    · exact .of_eq rfl
  · exact .of_eq rfl

/-- The step calls `stopInLoop`, runs a functor or handles an event of the connector. -/
def Label.MayRemove : Label → Prop
  | .stop inLoop => inLoop = true
  | .functor _ => True
  | .event _ _ _ _ => True
  | _ => False

theorem grows_step (ha : ¬Label.MayRemove a) (hs : step w a = .ok w') : Grows w w' := by
  cases a with
  | connect inLoop savedErrno =>
    cases inLoop with
    | true => exact grows_startInLoop (w := { w with
        client.connect_ := true, client.connector.connect_ := true }) hs
    | false =>
      cases hs
      exact .of_eq rfl
  | disconnect | enableRetry =>
    cases hs
    exact .of_eq rfl
  | stop inLoop =>
    cases inLoop with
    | true => exact absurd rfl ha
    | false =>
      cases hs
      exact .of_eq rfl
  | functor savedErrno => exact absurd trivial ha
  | timer k savedErrno => exact grows_startInLoop (w := { w with timers := w.timers.eraseIdx k }) hs
  | event _ revents err isSelfConnect => exact absurd trivial ha
  | close conn savedErrno =>
    obtain ⟨-, hrestart⟩ | rfl := removeConnection_cases hs
    · exact fun fd hr => grows_startInLoop hrestart fd hr
    · exact .of_eq rfl

/-- What `stop()` takes out of the poller on the loop's own thread. -/
def stopping (w : ClientLoop) : List Int :=
  if w.connector.state = .kConnecting then w.registered else []

theorem stop_registered (h : Inv w) (hs : Connector.stop w true = .ok w') :
    ∀ fd ∈ w.registered, fd ∈ w'.registered ↔ fd ∉ stopping w := by
  intro fd hr
  have hinv : Inv w' := Descriptors.stop_inv h hs
  obtain ⟨hstate, -, -⟩ := h.of_registered hr
  have hgone : w'.registered = [] := by
    obtain ⟨-, sockfd, w₁, -, rfl⟩ | ⟨hnot, -⟩ := stopInLoop_cases hs
    · exact (hinv.of_idle (retry_state w₁ sockfd)).1.registered
    · exact absurd hstate hnot
  simp [stopping, hstate, hr, hgone]

theorem event_inv (h : Inv w)
    (hs : handleEvent err isSelfConnect (Channel.callbacks revents) w = .ok w') : Inv w' := by
  by_cases hstate : w.connector.state = .kConnecting
  · obtain ⟨t, hok, ht⟩ : ∃ t,
        handleEvent err isSelfConnect (Channel.callbacks revents) w = .ok t ∧ Inv t :=
      handleEvent_ok h hstate
    rw [hok] at hs
    cases hs
    exact ht
  · refine (handleEvent_keeps (P := fun w => w.connector.state ≠ .kConnecting ∧ Inv w)
      (fun hw herror => ?_) (fun hw hwrite => ?_) ⟨hstate, h⟩ hs).2
    · exact absurd (handleError_cases herror).1 hw.1
    · obtain ⟨hconnecting, -⟩ | ⟨-, rfl⟩ := handleWrite_cases hwrite
      · exact absurd hconnecting hw.1
      · exact hw

end Muduo.ClientLoop

namespace Muduo.World

open Lib TcpServer

variable {w w' w'' : World}

-- ---------------------------------------------------------------------------
-- Connections that stay
-- ---------------------------------------------------------------------------

structure Spares (w w' : World) : Prop where
  log : ∃ ms, w'.log = w.log ++ ms ∧ ∀ e ∈ ms, e.2 ≠ .destroyed
  loop : ∀ c, (w'.member c).loop = (w.member c).loop

theorem Spares.of_eq (hlog : w'.log = w.log) (hloop : ∀ c, (w'.member c).loop = (w.member c).loop) :
    Spares w w' :=
  ⟨⟨[], by simp [hlog], by simp⟩, hloop⟩

theorem Spares.trans (h : Spares w w') (h' : Spares w' w'') : Spares w w'' := by
  obtain ⟨ms, hms, hall⟩ := h.log
  obtain ⟨ms', hms', hall'⟩ := h'.log
  refine ⟨⟨ms ++ ms', by rw [hms', hms, List.append_assoc], fun e he => ?_⟩,
    fun c => (h'.loop c).trans (h.loop c)⟩
  rcases List.mem_append.mp he with he | he
  · exact hall e he
  · exact hall' e he

theorem spares_frame : Frame (· ≠ .destroyed) Spares where
  trans := Spares.trans
  setConn w c conn := by
    refine .of_eq rfl fun d => ?_
    by_cases hd : d = c
    · subst hd
      simp [setConn]
    · simp [setConn, hd]
  note w c m hm := by
    refine ⟨⟨[(c, m)], rfl, fun e he => ?_⟩, fun _ => rfl⟩
    rw [List.mem_singleton.mp he]
    exact hm
  loops _ _ _ := .of_eq rfl fun _ => rfl
  erase _ _ := .of_eq rfl fun _ => rfl

theorem spares_call (hs : w.call here c f = .ok w') : Spares w w' :=
  spares_frame.call nofun nofun hs

end Muduo.World

namespace Muduo.Reactor

open Lib Function TcpServer

variable {l l' : Reactor} {w w' : World}

-- ---------------------------------------------------------------------------
-- Calls into the objects
-- ---------------------------------------------------------------------------

theorem removeChannels_eq (l : Reactor) (chs : List Chan) :
    l.removeChannels chs = ensure (∀ ch ∈ chs, l.Removable ch) .removeChannel := by
  induction chs with
  | nil => exact (ensure_true (by simp)).symm
  | cons ch chs ih =>
    unfold removeChannels removeChannel
    by_cases hch : l.Removable ch
    · rw [ensure_bind hch, ih]
      simp [ensure, hch]
    · rw [ensure_false hch, error_bind]
      exact (ensure_false fun hall => hch (hall ch (List.mem_cons_self ..))).symm

theorem onClient_ok {f : ClientLoop → Except Connector.Fault ClientLoop} :
    l.onClient k f = .ok l' ↔ ∃ w, f (l.client k) = .ok w ∧
      (∀ fd ∈ (l.client k).registered, fd ∉ w.registered → l.Removable (.connector k fd)) ∧
      l' = { l with client := update l.client k w } := by
  unfold onClient
  cases hf : f (l.client k) with
  | error e => simp [Except.mapError]
  | ok w =>
    simp only [Except.mapError, ok_bind, removeChannels_eq, bind_ok, ensure_ok, pure_ok,
      List.forall_mem_map, List.mem_filter, decide_eq_true_eq, and_imp]
    constructor
    · rintro ⟨_, hall, rfl⟩
      exact ⟨w, rfl, hall, rfl⟩
    · rintro ⟨_, ⟨⟩, hall, rfl⟩
      exact ⟨(), hall, rfl⟩

theorem onServer_ok {f : World → Except TcpServer.Fault World} :
    l.onServer j f = .ok l' ↔ ∃ w, f (l.server j) = .ok w ∧
      (∀ c ∈ destroyed (l.server j) w, l.Removable (.connection j c)) ∧
      l' = { l with server := update l.server j w } := by
  unfold onServer
  cases hf : f (l.server j) with
  | error e => simp [Except.mapError]
  | ok w =>
    simp only [Except.mapError, ok_bind, removeChannels_eq, bind_ok, ensure_ok, pure_ok,
      List.forall_mem_map]
    constructor
    · rintro ⟨_, hall, rfl⟩
      exact ⟨w, rfl, hall, rfl⟩
    · rintro ⟨_, ⟨⟩, hall, rfl⟩
      exact ⟨(), hall, rfl⟩

theorem mem_destroyed (h : w'.log = w.log ++ ms) :
    c ∈ destroyed w w' ↔ (c, .destroyed) ∈ ms := by
  simp only [destroyed, h, List.drop_left, List.mem_filterMap]
  constructor
  · rintro ⟨⟨d, m⟩, he, hm⟩
    split at hm
    · rename_i hd
      cases hm
      have hd : m = .destroyed := hd
      rwa [hd] at he
    · cases hm
  · exact fun he => ⟨_, he, if_pos rfl⟩

/-- The connections of this loop are destroyed, the others later on their own. -/
theorem destroyConnections_log {cs : List Nat} (h : destroyConnections cs w = .ok w') :
    ∃ ms, w'.log = w.log ++ ms ∧ (∀ c, (w'.member c).loop = (w.member c).loop) ∧
      ∀ c, (c, .destroyed) ∈ ms ↔ c ∈ cs ∧ (w.member c).loop = 0 := by
  induction cs generalizing w with
  | nil =>
    cases h
    exact ⟨[], (List.append_nil _).symm, fun _ => rfl, by simp⟩
  | cons d cs ih =>
    obtain ⟨w₁, hd, hs⟩ := bind_ok.mp h
    obtain ⟨ms, hlog, hloop, hmem⟩ := ih hs
    unfold destroyConnection at hd
    split at hd
    · rename_i hhere
      have hspare := World.spares_call hd
      obtain ⟨ms₁, hlog₁, hall⟩ := hspare.log
      refine ⟨(d, .destroyed) :: (ms₁ ++ ms), ?_, fun c => (hloop c).trans (hspare.loop c),
        fun c => ?_⟩
      · rw [hlog, hlog₁]
        simp [World.note]
      · have hnot : (c, Milestone.destroyed) ∉ ms₁ := fun hm => hall _ hm rfl
        have hsame : (w₁.member c).loop = (w.member c).loop := hspare.loop c
        simp only [List.mem_cons, Prod.mk.injEq, and_true, List.mem_append, hnot, false_or, hmem,
          hsame]
        constructor
        · rintro (rfl | ⟨hc, h0⟩)
          · exact ⟨.inl rfl, hhere⟩
          · exact ⟨.inr hc, h0⟩
        · rintro ⟨rfl | hc, h0⟩
          · exact .inl rfl
          · exact .inr ⟨hc, h0⟩
    · rename_i hthere
      cases hd
      refine ⟨ms, hlog, hloop, fun c => (hmem c).trans ?_⟩
      rw [List.mem_cons]
      constructor
      · rintro ⟨hc, h0⟩
        exact ⟨.inr hc, h0⟩
      · rintro ⟨rfl | hc, h0⟩
        · exact absurd h0 hthere
        · exact ⟨hc, h0⟩

-- ---------------------------------------------------------------------------
-- The invariant
-- ---------------------------------------------------------------------------

structure Inv (l : Reactor) : Prop where
  clients : ∀ k, (l.client k).Inv
  handling : l.currentActiveChannel ≠ none → l.eventHandling = true
  current : ∀ ch, l.currentActiveChannel = some ch → ch ∈ l.activeChannels
  rest : ∀ ch ∈ l.rest, ch ∈ l.activeChannels
  pinned : l.eventHandling = true → ∀ k fd, .connector k fd ∈ l.activeChannels →
    (l.client k).Pinned fd

theorem Inv.setClient {w : ClientLoop} (h : Inv l) (hw : w.Inv)
    (hp : l.eventHandling = true → ∀ fd, (l.client k).Pinned fd → w.Pinned fd) :
    Inv { l with client := update l.client k w } := by
  refine ⟨fun i => ?_, h.handling, h.current, h.rest, fun he i fd hm => ?_⟩
  · by_cases hi : i = k
    · subst hi
      simpa using hw
    · simpa [hi] using h.clients i
  · have hi := h.pinned he i fd hm
    by_cases hk : i = k
    · subst hk
      simpa using hp he fd hi
    · simpa [hk] using hi

theorem Inv.setServer (h : Inv l) (servers : Nat → World) : Inv { l with server := servers } :=
  ⟨h.clients, h.handling, h.current, h.rest, h.pinned⟩

theorem Inv.onServer {f : World → Except TcpServer.Fault World} (h : Inv l)
    (hs : l.onServer j f = .ok l') : Inv l' := by
  obtain ⟨w, -, -, rfl⟩ := onServer_ok.mp hs
  exact h.setServer _

theorem Inv.poll (h : Inv l) (hidle : l.eventHandling = false)
    (hactive : ∀ ch ∈ active, l.Pollable ch) : Inv (l.poll active) := by
  have hnone : l.currentActiveChannel = none := by
    by_contra hsome
    rw [h.handling hsome] at hidle
    cases hidle
  refine ⟨h.clients, fun _ => rfl, fun ch hch => ?_, fun ch hch => hch, fun _ k fd hm => ?_⟩
  · have hch : l.currentActiveChannel = some ch := hch
    rw [hnone] at hch
    cases hch
  · exact (h.clients k).pinned (hactive _ hm)

theorem Inv.next (h : Inv l) (he : l.eventHandling = true) : Inv l.next := by
  unfold Reactor.next
  cases hrest : l.rest with
  | nil =>
    exact ⟨h.clients, fun hn => absurd rfl hn, nofun, fun ch hch => h.rest ch (hrest ▸ hch), nofun⟩
  | cons ch rest =>
    have hall : ∀ d ∈ ch :: rest, d ∈ l.activeChannels := hrest ▸ h.rest
    refine ⟨h.clients, fun _ => he, fun d hd => ?_, fun d hd => ?_, h.pinned⟩
    · cases hd
      exact hall _ (List.mem_cons_self ..)
    · exact hall _ (List.mem_cons_of_mem _ hd)

theorem ClientEnabled.machine {a : ClientLoop.Label} (h : l.ClientEnabled k a)
    (hne : ∀ fd revents err isSelfConnect, a ≠ .event fd revents err isSelfConnect) :
    ClientLoop.machine.enabled (l.client k) a := by
  cases a with
  | functor savedErrno => exact h.2
  | timer i savedErrno => exact h.2
  | event fd revents err isSelfConnect => exact (hne fd revents err isSelfConnect rfl).elim
  | close conn savedErrno => exact h.2
  | _ => trivial

theorem Inv.client {a : ClientLoop.Label} (h : Inv l) (ha : l.ClientEnabled k a)
    (hs : l.onClient k (·.step a) = .ok l') : Inv l' := by
  obtain ⟨w, hw, -, rfl⟩ := onClient_ok.mp hs
  refine h.setClient ?_ fun he fd hp => hp.step ?_ hw
  · cases a with
    | event fd revents err isSelfConnect => exact ClientLoop.event_inv (h.clients k) hw
    | _ => exact (ClientLoop.step_decides (h.clients k) (ha.machine (by simp))).result hw
  · cases a with
    | functor savedErrno =>
      have hidle := ha.1
      rw [he] at hidle
      cases hidle
    | _ => exact id

theorem Inv.destroyClient (h : Inv l) (hs : l.destroyClient k inLoop = .ok l') : Inv l' := by
  unfold Reactor.destroyClient at hs
  split at hs
  · obtain ⟨w, hw, -, rfl⟩ := onClient_ok.mp hs
    exact h.setClient (Descriptors.stop_inv (h.clients k) hw) fun _ _ hp => hp.stop hw
  · cases hs
    exact h

theorem inv_keeps : machine.Keeps Inv := by
  intro l a l' h ha hs
  cases a with
  | poll active =>
    cases hs
    exact h.poll ha.1 ha.2
  | next =>
    cases hs
    exact h.next ha
  | client k a => exact h.client ha hs
  | destroyClient k inLoop => exact h.destroyClient hs
  | handle j c rd wr cb =>
    have hs : l.onServer j (fun w => (w.note c .event).call 0 c (·.handle rd wr cb)) = .ok l' := hs
    exact h.onServer hs
  | server j a =>
    have hs : l.step (.server j a) = .ok l' := hs
    simp only [Reactor.step] at hs
    split at hs
    · exact h.onServer hs
    · obtain ⟨w, -, hs⟩ := bind_ok.mp hs
      cases hs
      exact h.setServer _
  | listen j =>
    cases hs
    exact ⟨h.clients, h.handling, h.current, h.rest, h.pinned⟩
  | destroyServer j =>
    obtain ⟨l₁, hl₁, hs⟩ := bind_ok.mp hs
    obtain ⟨_, -, hs⟩ := bind_ok.mp hs
    cases hs
    have h₁ := h.onServer hl₁
    exact ⟨h₁.clients, h₁.handling, h₁.current, h₁.rest, h₁.pinned⟩
  | enableUser n =>
    cases hs
    exact ⟨h.clients, h.handling, h.current, h.rest, h.pinned⟩
  | removeUser n =>
    obtain ⟨_, -, hs⟩ := bind_ok.mp hs
    cases hs
    exact ⟨h.clients, h.handling, h.current, h.rest, h.pinned⟩

theorem start_inv (name hostport : Nat → Bytes) (numLoops : Nat → Nat) (wc : Nat → Bool) :
    Inv (start name hostport numLoops wc) :=
  ⟨fun _ => ClientLoop.start_inv, fun hn => absurd rfl hn, nofun, nofun, nofun⟩

-- ---------------------------------------------------------------------------
-- Calls that tear down
-- ---------------------------------------------------------------------------

/-- The channels that a call takes out of the poller before it returns: that of
a client that connects, those of a server with its connections on this loop, and
one of the user's. -/
def tornDown (l : Reactor) : Label → List Chan
  | .client k (.stop true) => (l.client k).stopping.map (.connector k)
  | .destroyClient k true =>
    if (l.client k).client.connection = none then (l.client k).stopping.map (.connector k) else []
  | .destroyServer j => .acceptor j ::
    ((connections (l.server j)).filter fun c => ((l.server j).member c).loop = 0).map (.connection j)
  | .removeUser n => [.user n]
  | _ => []

/-- Nothing that is torn down during a batch is in the batch, but for the current
channel. -/
def Clear (l : Reactor) (a : Label) : Prop := ∀ ch ∈ l.tornDown a, l.Removable ch

instance (l : Reactor) (a : Label) : Decidable (l.Clear a) :=
  inferInstanceAs (Decidable (∀ ch ∈ l.tornDown a, l.Removable ch))

theorem Inv.gone {a : ClientLoop.Label} {w : ClientLoop} (h : Inv l) (ha : l.ClientEnabled k a)
    (hw : (l.client k).step a = .ok w) (hr : fd ∈ (l.client k).registered)
    (hgone : fd ∉ w.registered) :
    l.Removable (.connector k fd) ∨ a = .stop true ∧ fd ∈ (l.client k).stopping := by
  by_cases hm : ClientLoop.Label.MayRemove a
  · cases a with
    | stop inLoop =>
      obtain rfl : inLoop = true := hm
      have hflag : ClientLoop.Inv { l.client k with client.connect_ := false } :=
        (h.clients k).frame rfl rfl rfl rfl rfl rfl rfl
      have hiff := ClientLoop.stop_registered hflag hw fd hr
      exact .inr ⟨rfl, not_not.mp fun hn => hgone (hiff.mpr hn)⟩
    | functor savedErrno =>
      refine .inl fun he => ?_
      rw [ha.1] at he
      cases he
    | event fd' revents err isSelfConnect =>
      refine .inl fun he => .inl ?_
      have hcurrent : l.currentActiveChannel = some (.connector k fd') := ha
      have hpin := h.pinned he k fd' (h.current _ hcurrent)
      rw [hcurrent, hpin.registered (h.clients k) hr]
    | connect _ _ | disconnect | enableRetry | timer _ _ | close _ _ => exact hm.elim
  · exact absurd (ClientLoop.grows_step hm hw fd hr) hgone

theorem stop_returns {w w' : ClientLoop} (h : w.Inv) (hw : Connector.stop w true = .ok w')
    (hall : ∀ fd ∈ w.registered, fd ∉ w'.registered → l.Removable (.connector k fd)) :
    ∀ ch ∈ w.stopping.map (Chan.connector k), l.Removable ch := by
  intro ch hch
  obtain ⟨fd, hfd, rfl⟩ := List.mem_map.mp hch
  have hr : fd ∈ w.registered := by
    unfold ClientLoop.stopping at hfd
    split at hfd
    · exact hfd
    · cases hfd
  exact hall fd hr fun hin => (ClientLoop.stop_registered h hw fd hr).mp hin hfd

theorem destroyServer_destroyed {w w' : World}
    (h : (do
      let w ← destroyConnections (connections w) w
      return { w with server := { w.server with connections := .empty } }) = .ok w') :
    ∀ c, c ∈ destroyed w w' ↔ c ∈ connections w ∧ (w.member c).loop = 0 := by
  obtain ⟨w₁, hw₁, h⟩ := bind_ok.mp h
  cases pure_ok.mp h
  obtain ⟨ms, hlog, -, hmem⟩ := destroyConnections_log hw₁
  exact fun c => (mem_destroyed hlog).trans (hmem c)

theorem destroyServer_returns (hs : l.destroyServer j = .ok l') : l.Clear (.destroyServer j) := by
  obtain ⟨l₁, hserver, hs⟩ := bind_ok.mp hs
  obtain ⟨_, hacceptor, -⟩ := bind_ok.mp hs
  obtain ⟨w, hw, hall, rfl⟩ := onServer_ok.mp hserver
  intro ch hch
  rcases List.mem_cons.mp hch with rfl | hch
  · exact ensure_ok.mp hacceptor
  · obtain ⟨c, hc, rfl⟩ := List.mem_map.mp hch
    refine hall c ((destroyServer_destroyed hw c).mpr ?_)
    simpa using hc

/-- No call that returns has torn down a channel of the batch. -/
theorem Inv.returns (h : Inv l) (hs : l.step a = .ok l') : l.Clear a := by
  cases a with
  | client k a =>
    cases a with
    | stop inLoop =>
      cases inLoop with
      | true =>
        have hs : l.onClient k (·.step (.stop true)) = .ok l' := hs
        obtain ⟨w, hw, hall, -⟩ := onClient_ok.mp hs
        have hflag : ClientLoop.Inv { l.client k with client.connect_ := false } :=
          (h.clients k).frame rfl rfl rfl rfl rfl rfl rfl
        exact stop_returns (w := { l.client k with client.connect_ := false }) hflag hw hall
      | false => nofun
    | _ => nofun
  | destroyClient k inLoop =>
    cases inLoop with
    | true =>
      have hs : l.destroyClient k true = .ok l' := hs
      intro ch hch
      by_cases hnone : (l.client k).client.connection = none
      · simp only [tornDown, if_pos hnone] at hch
        simp only [Reactor.destroyClient, if_pos hnone] at hs
        obtain ⟨w, hw, hall, -⟩ := onClient_ok.mp hs
        exact stop_returns (h.clients k) hw hall ch hch
      · simp only [tornDown, if_neg hnone] at hch
        cases hch
    | false => nofun
  | destroyServer j => exact destroyServer_returns hs
  | removeUser n =>
    obtain ⟨_, hremove, -⟩ := bind_ok.mp hs
    intro ch hch
    rw [List.mem_singleton.mp hch]
    exact ensure_ok.mp hremove
  | poll _ | next | handle _ _ _ _ _ | server _ _ | listen _ | enableUser _ => nofun

end Muduo.Reactor
