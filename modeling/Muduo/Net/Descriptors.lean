import Muduo.Net.Attempts

/-!
# The descriptors of a connector

Every socket that `connect` makes is at any time in the poller, or closed, or
handed over. The connector is used by a client, and by callers of its own that
restart it when the connection it made was closed.
-/

namespace Muduo.Descriptors

open Lib Connector

inductive Label
  | client (a : ClientLoop.Label)
  | start (inLoop : Bool) (savedErrno : Errno)
  | stop (inLoop : Bool)
  | restart (savedErrno : Errno)
  deriving DecidableEq

def Enabled (w : ClientLoop) : Label → Prop
  | .client a => ClientLoop.machine.enabled w a
  | .restart _ => w.Succeeded ∧ w.conns = []
  | _ => True

def step (w : ClientLoop) : Label → Except Fault ClientLoop
  | .client a => ClientLoop.machine.step w a
  | .start inLoop savedErrno => Connector.start w inLoop savedErrno
  | .stop inLoop => Connector.stop w inLoop
  | .restart savedErrno => Connector.restart w savedErrno

def machine : Machine ClientLoop Label Fault where
  enabled := Enabled
  step := step

instance (w : ClientLoop) (a : Label) : Decidable (machine.enabled w a) := by
  unfold machine Enabled
  cases a <;> infer_instance

-- ---------------------------------------------------------------------------
-- Accounts
-- ---------------------------------------------------------------------------

/-- How often a descriptor was closed or handed over, or is in the poller. -/
def places (w : ClientLoop) (fd : Int) : Nat :=
  w.log.count (.close fd) + w.log.count (.newConnection fd) + w.registered.count fd

def Accounted (w : ClientLoop) : Prop :=
  ∀ k : Nat, places w k = if k < w.created then 1 else 0

/-- Every descriptor but the one a function has in hand. -/
def Holding (fd : Int) (w : ClientLoop) : Prop :=
  ∀ k : Nat, places w k + (if fd = k then 1 else 0) = if k < w.created then 1 else 0

variable {w w' : ClientLoop}

theorem Accounted.frame (h : Accounted w) (hlog : w'.log = w.log)
    (hregistered : w'.registered = w.registered) (hcreated : w'.created = w.created) :
    Accounted w' := by
  intro k
  unfold places
  rw [hlog, hregistered, hcreated]
  exact h k

theorem Holding.frame (h : Holding fd w) (hlog : w'.log = w.log)
    (hregistered : w'.registered = w.registered) (hcreated : w'.created = w.created) :
    Holding fd w' := by
  intro k
  unfold places
  rw [hlog, hregistered, hcreated]
  exact h k

def Milestone.Idle : Milestone → Prop
  | .close _ => False
  | .newConnection _ => False
  | _ => True

theorem places_note {m : Milestone} (hm : Milestone.Idle m) (w : ClientLoop) (fd : Int) :
    places (w.note m) fd = places w fd := by
  cases m with
  | close _ | newConnection _ => exact hm.elim
  | _ => simp [places, ClientLoop.note]

theorem Accounted.note {m : Milestone} (h : Accounted w) (hm : Milestone.Idle m) :
    Accounted (w.note m) := fun k => (places_note hm w k).trans (h k)

theorem Holding.note {m : Milestone} (h : Holding fd w) (hm : Milestone.Idle m) :
    Holding fd (w.note m) := by
  intro k
  rw [places_note hm]
  exact h k

theorem count_milestone {f : Int → Milestone} (hf : f.Injective) (log : List Milestone)
    (fd fd' : Int) :
    (log ++ [f fd]).count (f fd') = log.count (f fd') + if fd = fd' then 1 else 0 := by
  rw [List.count_append, List.count_singleton]
  congr 1
  simp [hf.eq_iff]

theorem Holding.close (h : Holding fd w) : Accounted (w.close fd) := by
  intro k
  refine Eq.trans ?_ (h k)
  have hclose := count_milestone (f := .close) (fun _ _ heq => by cases heq; rfl) w.log fd k
  have hhanded : (w.log ++ [Milestone.close fd]).count (.newConnection k) =
      w.log.count (.newConnection k) := by simp
  simp only [places, ClientLoop.close, ClientLoop.note, hclose, hhanded]
  omega

theorem Holding.newConnection (h : Holding fd w) : Accounted (TcpClient.newConnection w fd) := by
  intro k
  refine Eq.trans ?_ (h k)
  have hhanded := count_milestone (f := .newConnection) (fun _ _ heq => by cases heq; rfl) w.log fd k
  have hclose : (w.log ++ [Milestone.newConnection fd]).count (.close k) =
      w.log.count (.close k) := by simp
  simp only [places, TcpClient.newConnection, ClientLoop.note, hclose, hhanded]
  omega

-- ---------------------------------------------------------------------------
-- One lemma a function
-- ---------------------------------------------------------------------------

theorem create_holding (h : Accounted w) :
    Holding w.created { w with created := w.created + 1 } := by
  intro k
  have hk := h k
  show places w k + _ = if k < w.created + 1 then 1 else 0
  rw [hk]
  split_ifs <;> omega

theorem retry_accounted (h : Holding fd w) : Accounted (retry w fd) := by
  obtain ⟨timers, delay, heq⟩ := ClientLoop.retry_rest w fd
  rw [heq]
  exact h.close.frame rfl rfl rfl

theorem removeAndResetChannel_holding (h : Accounted w)
    (hs : removeAndResetChannel w = .ok (fd, w')) : Holding fd w' := by
  obtain ⟨hmem, c, rfl⟩ := ClientLoop.removeAndResetChannel_cases hs
  intro k
  refine Eq.trans ?_ (h k)
  have hpos := List.count_pos_iff.mpr hmem
  simp only [places, List.count_erase, beq_iff_eq]
  split_ifs with heq
  · rw [heq] at hpos
    omega
  · omega

theorem connecting_accounted (h : Holding fd w) (hs : connecting w fd = .ok w') :
    Accounted w' := by
  obtain ⟨-, c, rfl⟩ := ClientLoop.connecting_ok hs
  intro k
  refine Eq.trans ?_ (h k)
  show w.log.count (.close k) + w.log.count (.newConnection k) +
    (w.registered ++ [fd]).count (k : Int) = _
  rw [List.count_append, List.count_singleton, places]
  simp only [beq_iff_eq]
  omega

theorem connect_accounted (h : Accounted w) (hs : Connector.connect w savedErrno = .ok w') :
    Accounted w' := by
  have hhold : Holding w.created w.attempted := Holding.note (create_holding h) trivial
  obtain hconnecting | rfl | rfl := ClientLoop.connect_cases hs
  · exact connecting_accounted hhold hconnecting
  · exact retry_accounted hhold
  · exact hhold.close

theorem startInLoop_accounted (h : Accounted w) (hs : startInLoop w savedErrno = .ok w') :
    Accounted w' := by
  obtain ⟨-, hconnect⟩ | rfl := ClientLoop.startInLoop_cases hs
  · exact connect_accounted h hconnect
  · exact h

theorem start_accounted (h : Accounted w) (hs : Connector.start w inLoop savedErrno = .ok w') :
    Accounted w' := by
  cases inLoop with
  | true =>
    refine startInLoop_accounted ?_ hs
    exact h.frame rfl rfl rfl
  | false =>
    cases hs
    exact h.frame rfl rfl rfl

theorem stopInLoop_accounted (h : Accounted w) (hs : stopInLoop w = .ok w') : Accounted w' := by
  obtain ⟨-, fd, w₁, hremove, rfl⟩ | ⟨-, rfl⟩ := ClientLoop.stopInLoop_cases hs
  · refine retry_accounted (removeAndResetChannel_holding ?_ hremove)
    exact h.frame rfl rfl rfl
  · exact h

theorem stop_accounted (h : Accounted w) (hs : Connector.stop w inLoop = .ok w') :
    Accounted w' := by
  cases inLoop with
  | true =>
    refine stopInLoop_accounted ?_ hs
    exact h.frame rfl rfl rfl
  | false =>
    cases hs
    exact h.frame rfl rfl rfl

theorem restart_accounted (h : Accounted w) (hs : Connector.restart w savedErrno = .ok w') :
    Accounted w' := by
  refine startInLoop_accounted (Accounted.note ?_ ?_) hs
  · exact h.frame rfl rfl rfl
  · trivial

theorem handleWrite_accounted (h : Accounted w)
    (hs : handleWrite w err isSelfConnect = .ok w') : Accounted w' := by
  obtain ⟨-, fd, w₁, hremove, hend⟩ | ⟨-, rfl⟩ := ClientLoop.handleWrite_cases hs
  · have hhold := removeAndResetChannel_holding h hremove
    have hconnected : Holding fd (w₁.connectedTo fd) :=
      Holding.note (hhold.frame rfl rfl rfl) trivial
    obtain rfl | ⟨-, rfl⟩ | ⟨-, rfl⟩ := hend
    · exact retry_accounted hhold
    · exact hconnected.newConnection
    · exact hconnected.close
  · exact h

theorem handleError_accounted (h : Accounted w) (hs : handleError w = .ok w') :
    Accounted w' := by
  obtain ⟨-, fd, w₁, hremove, rfl⟩ := ClientLoop.handleError_cases hs
  exact retry_accounted (removeAndResetChannel_holding h hremove)

theorem removeConnection_accounted (h : Accounted w)
    (hs : TcpClient.removeConnection w conn savedErrno = .ok w') : Accounted w' := by
  obtain ⟨-, hrestart⟩ | rfl := ClientLoop.removeConnection_cases hs
  · refine restart_accounted ?_ hrestart
    exact h.frame rfl rfl rfl
  · exact h.frame rfl rfl rfl

theorem client_accounted (h : Accounted w) (hs : ClientLoop.step w a = .ok w') :
    Accounted w' := by
  cases a with
  | connect inLoop savedErrno =>
    refine start_accounted ?_ hs
    exact h.frame rfl rfl rfl
  | disconnect | enableRetry =>
    cases hs
    exact h.frame rfl rfl rfl
  | stop inLoop =>
    refine stop_accounted ?_ hs
    exact h.frame rfl rfl rfl
  | functor savedErrno =>
    obtain rfl | ⟨f, functors, -, hrun⟩ := ClientLoop.functor_cases hs
    · exact h
    · have hw : Accounted { w with functors } := h.frame rfl rfl rfl
      cases f with
      | startInLoop => exact startInLoop_accounted hw hrun
      | stopInLoop => exact stopInLoop_accounted hw hrun
      | resetChannel | connectDestroyed _ =>
        cases hrun
        exact h.frame rfl rfl rfl
  | timer k savedErrno =>
    refine startInLoop_accounted ?_ hs
    exact h.frame rfl rfl rfl
  | event fd revents err isSelfConnect =>
    exact ClientLoop.handleEvent_keeps handleError_accounted handleWrite_accounted h hs
  | close conn savedErrno =>
    refine removeConnection_accounted ?_ hs
    exact h.frame rfl rfl rfl

theorem accounted_keeps : machine.Keeps Accounted := by
  intro w a t h _ hs
  cases a with
  | client a => exact client_accounted h hs
  | start inLoop savedErrno => exact start_accounted h hs
  | stop inLoop => exact stop_accounted h hs
  | restart savedErrno => exact restart_accounted h hs

-- ---------------------------------------------------------------------------
-- One attempt at a time
-- ---------------------------------------------------------------------------

theorem start_inv (h : ClientLoop.Inv w) (hs : Connector.start w inLoop savedErrno = .ok w') :
    ClientLoop.Inv w' := by
  cases inLoop with
  | true =>
    have hw : ClientLoop.Inv { w with client.connector.connect_ := true } :=
      h.frame rfl rfl rfl rfl rfl rfl rfl
    exact (ClientLoop.startInLoop_decides hw).result hs
  | false =>
    cases hs
    refine h.frame rfl rfl rfl ?_ rfl rfl rfl
    simp [ClientLoop.queueInLoop]

theorem stop_inv (h : ClientLoop.Inv w) (hs : Connector.stop w inLoop = .ok w') :
    ClientLoop.Inv w' := by
  cases inLoop with
  | true =>
    have hw : ClientLoop.Inv { w with client.connector.connect_ := false } :=
      h.frame rfl rfl rfl rfl rfl rfl rfl
    obtain ⟨t, hok, ht⟩ := ClientLoop.stopInLoop_ok hw
    obtain rfl := Except.ok.inj (hok.symm.trans hs)
    exact ht
  | false =>
    cases hs
    refine h.frame rfl rfl rfl ?_ rfl rfl rfl
    simp [ClientLoop.queueInLoop]

/-- After a success nothing is connecting, so a restart begins anew. -/
theorem restart_inv (h : ClientLoop.Inv w) (hsucc : w.Succeeded) (hconns : w.conns = [])
    (hs : Connector.restart w savedErrno = .ok w') : ClientLoop.Inv w' := by
  cases h with
  | idle _ _ ha => exact absurd hsucc ha.succeeded
  | trying _ _ ha => exact absurd hsucc ha.succeeded
  | connected _ hb _ hconnection =>
    have hnone : w.client.connection = none := by
      rw [hconns] at hconnection
      exact Option.toList_eq_nil_iff.mp hconnection.symm
    have hw : ClientLoop.Inv (({ w with
        client.connector.state := .kDisconnected
        client.connector.retryDelayMs := kInitRetryDelayMs
        client.connector.connect_ := true } : ClientLoop).note .restart) := by
      refine .idle rfl ⟨hb.registered, hb.channel, hb.once⟩ ⟨hnone, hconns, ?_⟩
      simp [ClientLoop.note_succeeded, ClientLoop.Milestone.follow]
    exact (ClientLoop.startInLoop_decides hw).result hs

theorem inv_keeps : machine.Keeps ClientLoop.Inv := by
  intro w a t h ha hs
  cases a with
  | client a => exact (ClientLoop.step_decides h ha).result hs
  | start inLoop savedErrno => exact start_inv h hs
  | stop inLoop => exact stop_inv h hs
  | restart savedErrno => exact restart_inv h ha.1 ha.2 hs

-- ---------------------------------------------------------------------------
-- Runs
-- ---------------------------------------------------------------------------

/-- It is the socket of the channel that is in the poller. -/
def Owned (w : ClientLoop) (fd : Int) : Prop :=
  w.connector.state = .kConnecting ∧ w.registered = [fd] ∧ ∃ c ∈ w.connector.channel, c.fd = fd

theorem owned_iff (h : ClientLoop.Inv w) (fd : Int) : Owned w fd ↔ fd ∈ w.registered := by
  constructor
  · rintro ⟨-, hregistered, -⟩
    rw [hregistered]
    exact List.mem_singleton_self fd
  · intro hmem
    obtain ⟨hstate, ⟨c, hw⟩, -⟩ := h.of_registered hmem
    rw [hw.registered, List.mem_singleton] at hmem
    exact ⟨hstate, by rw [hmem, hw.registered], c, hw.channel, hmem.symm⟩

theorem start_accounts : Accounted {} := fun k => by simp [places]

/-- Every descriptor is owned by the connecting channel, closed once or handed
over once, and only one of these. -/
theorem descriptors_owned (h : machine.Run {} as w) {k : Nat} (hk : k < w.created) :
    (Owned w k ∧ w.log.count (.close k) = 0 ∧ w.log.count (.newConnection k) = 0) ∨
    (¬Owned w k ∧ w.log.count (.close k) = 1 ∧ w.log.count (.newConnection k) = 0) ∨
    (¬Owned w k ∧ w.log.count (.close k) = 0 ∧ w.log.count (.newConnection k) = 1) := by
  have hinv := h.keeps inv_keeps ClientLoop.start_inv
  have haccount := h.keeps accounted_keeps start_accounts k
  rw [if_pos hk, places] at haccount
  rw [owned_iff hinv, ← List.count_pos_iff]
  omega

/-- Refused at first, then connected, closed by the peer and connecting anew. -/
theorem descriptors_owned_reconnecting : ∃ w, machine.Run {}
      [.start true ECONNREFUSED, .client (.timer 0 EINPROGRESS),
        .client (.event 1 POLLOUT 0 false), .client (.functor 0), .client (.close 1 0),
        .restart EINPROGRESS] w ∧ w.created = 3 ∧
    ((Owned w (2 : Nat) ∧ w.log.count (.close (2 : Nat)) = 0 ∧
        w.log.count (.newConnection (2 : Nat)) = 0) ∨
      (¬Owned w (2 : Nat) ∧ w.log.count (.close (2 : Nat)) = 1 ∧
        w.log.count (.newConnection (2 : Nat)) = 0) ∨
      (¬Owned w (2 : Nat) ∧ w.log.count (.close (2 : Nat)) = 0 ∧
        w.log.count (.newConnection (2 : Nat)) = 1)) := by
  obtain ⟨w, h, hcreated⟩ : ∃ w, machine.Run {}
      [.start true ECONNREFUSED, .client (.timer 0 EINPROGRESS),
        .client (.event 1 POLLOUT 0 false), .client (.functor 0), .client (.close 1 0),
        .restart EINPROGRESS] w ∧ w.created = 3 :=
    Machine.exists_run (by decide +kernel)
  exact ⟨w, h, hcreated, descriptors_owned h (by rw [hcreated]; decide)⟩

end Muduo.Descriptors
