import Muduo.Net.ConnectorSteps

/-!
# Stop means stop

After `TcpClient::stop()` both `connect_` flags are false, and only `connect()`
sets them again: the automatic restart asks the flag of the client, and the
retry timers, the queued functors and a late success ask the one of the
connector.
-/

namespace Muduo.ClientLoop

open Lib Connector

variable {u w w' : ClientLoop}

/-- An attempt is started, or a connection handed to the client. -/
def Milestone.Renews : Milestone → Prop
  | .attempt _ => True
  | .newConnection _ => True
  | _ => False

structure Stopped (w : ClientLoop) : Prop where
  client : w.client.connect_ = false
  connector : w.connector.connect_ = false

/-- What led from `w` to `w'` leaves the client stopped and renews nothing. -/
structure Still (w w' : ClientLoop) : Prop where
  stopped : Stopped w'
  log : ∃ ms, w'.log = w.log ++ ms ∧ ∀ m ∈ ms, ¬Milestone.Renews m

theorem Still.trans (h : Still u w) (h' : Still w w') : Still u w' := by
  obtain ⟨ms, hms, hall⟩ := h.log
  obtain ⟨ms', hms', hall'⟩ := h'.log
  refine ⟨h'.stopped, ms ++ ms', by rw [hms', hms, List.append_assoc], fun m hm => ?_⟩
  rcases List.mem_append.mp hm with hm | hm
  · exact hall m hm
  · exact hall' m hm

theorem Stopped.of_eq (h : Stopped w) (hlog : w'.log = w.log)
    (hclient : w'.client.connect_ = w.client.connect_)
    (hconnector : w'.connector.connect_ = w.connector.connect_) : Still w w' :=
  ⟨⟨hclient.trans h.client, hconnector.trans h.connector⟩, [], by simp [hlog], by simp⟩

theorem Still.note (h : Still u w) {m : Milestone} (hm : ¬Milestone.Renews m) :
    Still u (w.note m) := by
  refine h.trans ⟨⟨h.stopped.client, h.stopped.connector⟩, [m], rfl, fun m' hm' => ?_⟩
  rw [List.mem_singleton.mp hm']
  exact hm

theorem Still.frame (h : Still u w) (hlog : w'.log = w.log)
    (hclient : w'.client.connect_ = w.client.connect_)
    (hconnector : w'.connector.connect_ = w.connector.connect_) : Still u w' :=
  h.trans (h.stopped.of_eq hlog hclient hconnector)

-- ---------------------------------------------------------------------------
-- The functions
-- ---------------------------------------------------------------------------

theorem Still.close (h : Still u w) (fd : Int) : Still u (w.close fd) := h.note id

theorem Still.retry (h : Still u w) (fd : Int) : Still u (Connector.retry w fd) := by
  obtain ⟨timers, delay, heq⟩ := retry_rest w fd
  rw [heq]
  exact (h.close fd).frame rfl rfl rfl

theorem Still.removeAndResetChannel (h : Still u w)
    (hs : removeAndResetChannel w = .ok (fd, w')) : Still u w' := by
  obtain ⟨-, c, rfl⟩ := removeAndResetChannel_cases hs
  exact h.frame rfl rfl rfl

theorem Still.startInLoop (h : Still u w) (hs : startInLoop w savedErrno = .ok w') :
    Still u w' := by
  obtain ⟨hconnect, -⟩ | rfl := startInLoop_cases hs
  · exact absurd hconnect (Bool.eq_false_iff.mp h.stopped.connector)
  · exact h

theorem Still.stopInLoop (h : Still u w) (hs : stopInLoop w = .ok w') : Still u w' := by
  obtain ⟨-, fd, w₁, hremove, rfl⟩ | ⟨-, rfl⟩ := stopInLoop_cases hs
  · have hstate : Still u (setState w .kDisconnected) := h.frame rfl rfl rfl
    exact (hstate.removeAndResetChannel hremove).retry fd
  · exact h

theorem Still.handleWrite (h : Still u w) (hs : handleWrite w err isSelfConnect = .ok w') :
    Still u w' := by
  obtain ⟨-, fd, w₁, hremove, hend⟩ | ⟨-, rfl⟩ := handleWrite_cases hs
  · have hw₁ := h.removeAndResetChannel hremove
    obtain rfl | ⟨hconnect, -⟩ | ⟨-, rfl⟩ := hend
    · exact hw₁.retry fd
    · exact absurd hconnect (Bool.eq_false_iff.mp hw₁.stopped.connector)
    · have hstate : Still u (setState w₁ .kConnected) := hw₁.frame rfl rfl rfl
      have hconnected : Still u (connectedTo w₁ fd) := hstate.note id
      exact hconnected.close fd
  · exact h

theorem Still.handleError (h : Still u w) (hs : handleError w = .ok w') : Still u w' := by
  obtain ⟨-, fd, w₁, hremove, rfl⟩ := handleError_cases hs
  exact (h.removeAndResetChannel hremove).retry fd

/-- A lost connection is not made anew, whatever `retry_` is. -/
theorem Still.removeConnection (h : Still u w)
    (hs : TcpClient.removeConnection w conn savedErrno = .ok w') : Still u w' := by
  obtain ⟨hconnect, -⟩ | rfl := removeConnection_cases hs
  · exact absurd hconnect (Bool.eq_false_iff.mp h.stopped.client)
  · exact h.frame rfl rfl rfl

theorem Still.runFunctor {f : Functor} (h : Still u w)
    (hs : runFunctor w savedErrno f = .ok w') : Still u w' := by
  cases f with
  | startInLoop => exact h.startInLoop hs
  | stopInLoop => exact h.stopInLoop hs
  | resetChannel =>
    cases hs
    exact h.frame rfl rfl rfl
  | connectDestroyed fd =>
    cases hs
    exact h

theorem stop_still (hs : step w (.stop inLoop) = .ok w') : Still w w' := by
  have hflags : Still w { w with client.connect_ := false, client.connector.connect_ := false } :=
    ⟨⟨rfl, rfl⟩, [], (List.append_nil _).symm, by simp⟩
  cases inLoop with
  | true => exact hflags.stopInLoop hs
  | false =>
    cases hs
    exact hflags.frame rfl rfl rfl

-- ---------------------------------------------------------------------------
-- Runs
-- ---------------------------------------------------------------------------

/-- Any call but `connect()`, any functor and any event. -/
def Label.Idle : Label → Prop
  | .connect _ _ => False
  | _ => True

theorem still_keeps (u : ClientLoop) :
    (machine.restrict fun _ => Label.Idle).Keeps (Still u) := by
  intro w a w' h ha hs
  cases a with
  | connect inLoop savedErrno => exact ha.2.elim
  | disconnect =>
    cases hs
    exact h.trans ⟨⟨rfl, h.stopped.connector⟩, [], (List.append_nil _).symm, by simp⟩
  | stop inLoop => exact h.trans (stop_still hs)
  | enableRetry =>
    cases hs
    exact h.frame rfl rfl rfl
  | functor savedErrno =>
    obtain rfl | ⟨f, functors, -, hrun⟩ := functor_cases hs
    · exact h
    · have hw : Still u { w with functors } := h.frame rfl rfl rfl
      exact hw.runFunctor hrun
  | timer k savedErrno =>
    have hw : Still u { w with timers := w.timers.eraseIdx k } := h.frame rfl rfl rfl
    exact hw.startInLoop hs
  | event fd revents err isSelfConnect =>
    exact handleEvent_keeps Still.handleError Still.handleWrite h hs
  | close conn savedErrno =>
    have hw : Still u { w with conns := w.conns.erase conn } := h.frame rfl rfl rfl
    exact hw.removeConnection hs

/-- From the call of `stop()` on, wherever it is made and whatever was under way,
no attempt is started and no connection handed over, as long as `connect()` is
not called. -/
theorem stop_stops (h : machine.Run u (.stop inLoop :: after) w)
    (hidle : ∀ a ∈ after, Label.Idle a) :
    ∃ ms, w.log = u.log ++ ms ∧ (∀ fd, .attempt fd ∉ ms) ∧ ∀ fd, .newConnection fd ∉ ms := by
  have hstill : Still u w := by
    cases h with
    | cons _ hstop hrest =>
      exact (hrest.restrict (Machine.meets_of_mem hidle)).keeps (still_keeps u) (stop_still hstop)
  obtain ⟨ms, hms, hall⟩ := hstill.log
  exact ⟨ms, hms, fun fd hm => hall _ hm trivial, fun fd hm => hall _ hm trivial⟩

/-- Another thread calls `stop()` while a socket connects and a retry timer is set. -/
theorem stop_stops_connecting : ∃ u, machine.Run {}
      [.enableRetry, .connect true ECONNREFUSED, .connect true EINPROGRESS] u ∧
    ∃ w, machine.Run u [.stop false, .event 1 (POLLOUT ||| POLLERR) ECONNREFUSED false, .functor 0,
      .functor 0, .timer 0 EINPROGRESS] w ∧
    ∃ ms, w.log = u.log ++ ms ∧ (∀ fd, .attempt fd ∉ ms) ∧ ∀ fd, .newConnection fd ∉ ms := by
  obtain ⟨u, hu, w, hw, -⟩ : ∃ u, machine.Run {}
        [.enableRetry, .connect true ECONNREFUSED, .connect true EINPROGRESS] u ∧
      ∃ w ∈ machine.exec u [.stop false, .event 1 (POLLOUT ||| POLLERR) ECONNREFUSED false,
        .functor 0, .functor 0, .timer 0 EINPROGRESS], True :=
    Machine.exists_run (by decide +kernel)
  have hw := Machine.run_of_exec hw
  exact ⟨u, hu, w, hw, stop_stops hw (by simp [Label.Idle])⟩

end Muduo.ClientLoop
