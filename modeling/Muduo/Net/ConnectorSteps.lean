import Muduo.Net.Connector

/-!
# What a connector can do

One lemma a function: the states it can return in, and what it found before.
-/

namespace Muduo.ClientLoop

open Lib Connector

variable {w w' : ClientLoop} {fd : Int}

-- ---------------------------------------------------------------------------
-- The attempts
-- ---------------------------------------------------------------------------

theorem retry_rest (w : ClientLoop) (fd : Int) : ∃ timers retryDelayMs,
    retry w fd = { setState (w.close fd) .kDisconnected with
      timers, client.connector.retryDelayMs := retryDelayMs } := by
  unfold retry
  simp only
  split
  · exact ⟨_, _, rfl⟩
  · exact ⟨_, _, rfl⟩

theorem retry_state (w : ClientLoop) (fd : Int) :
    (retry w fd).connector.state = .kDisconnected := by
  obtain ⟨timers, delay, heq⟩ := retry_rest w fd
  rw [heq]
  rfl

theorem connecting_ok (hs : connecting w fd = .ok w') : w.connector.channel = none ∧ ∃ c,
    w' = { setState w .kConnecting with
      client.connector.channel := some c, registered := w.registered ++ [fd] } := by
  obtain ⟨_, hnone, hs⟩ := bind_ok.mp hs
  cases hs
  exact ⟨ensure_ok.mp hnone, _, rfl⟩

def attempted (w : ClientLoop) : ClientLoop :=
  { w with created := w.created + 1 }.note (.attempt w.created)

theorem connect_cases (hs : Connector.connect w savedErrno = .ok w') :
    connecting (attempted w) w.created = .ok w' ∨ w' = retry (attempted w) w.created ∨
      w' = (attempted w).close w.created := by
  simp only [Connector.connect, createNonblockingOrDie] at hs
  split at hs
  · exact .inl hs
  · split at hs
    · cases hs
      exact .inr (.inl rfl)
    · cases hs
      exact .inr (.inr rfl)

theorem startInLoop_cases (hs : startInLoop w savedErrno = .ok w') :
    w.connector.connect_ = true ∧ Connector.connect w savedErrno = .ok w' ∨ w' = w := by
  obtain ⟨_, -, hs⟩ := bind_ok.mp hs
  split at hs
  · rename_i hconnect
    exact .inl ⟨hconnect, hs⟩
  · cases hs
    exact .inr rfl

-- ---------------------------------------------------------------------------
-- The ends of an attempt
-- ---------------------------------------------------------------------------

/-- The channel stays until the functor has run. -/
theorem removeAndResetChannel_cases (hs : removeAndResetChannel w = .ok (fd, w')) :
    fd ∈ w.registered ∧ ∃ c, w' = { w with
      client.connector.channel := some c
      registered := w.registered.erase fd
      functors := w.functors ++ [.resetChannel] } := by
  unfold removeAndResetChannel at hs
  split at hs
  · cases hs
  · obtain ⟨_, -, hs⟩ := bind_ok.mp hs
    obtain ⟨_, hin, hs⟩ := bind_ok.mp hs
    cases hs
    exact ⟨ensure_ok.mp hin, _, rfl⟩

theorem stopInLoop_cases (hs : stopInLoop w = .ok w') :
    w.connector.state = .kConnecting ∧ (∃ fd w₁,
      removeAndResetChannel (setState w .kDisconnected) = .ok (fd, w₁) ∧ w' = retry w₁ fd) ∨
    w.connector.state ≠ .kConnecting ∧ w' = w := by
  unfold stopInLoop at hs
  split at hs
  · rename_i hstate
    obtain ⟨⟨fd, w₁⟩, hremove, hs⟩ := bind_ok.mp hs
    cases hs
    exact .inl ⟨hstate, fd, w₁, hremove, rfl⟩
  · rename_i hstate
    cases hs
    exact .inr ⟨hstate, rfl⟩

theorem handleError_cases (hs : handleError w = .ok w') :
    w.connector.state = .kConnecting ∧
      ∃ fd w₁, removeAndResetChannel w = .ok (fd, w₁) ∧ w' = retry w₁ fd := by
  obtain ⟨_, hstate, hs⟩ := bind_ok.mp hs
  obtain ⟨⟨fd, w₁⟩, hremove, hs⟩ := bind_ok.mp hs
  cases hs
  exact ⟨ensure_ok.mp hstate, fd, w₁, hremove, rfl⟩

def connectedTo (w : ClientLoop) (fd : Int) : ClientLoop :=
  (setState w .kConnected).note (.connected fd)

theorem handleWrite_cases (hs : handleWrite w err isSelfConnect = .ok w') :
    w.connector.state = .kConnecting ∧ (∃ fd w₁,
      removeAndResetChannel w = .ok (fd, w₁) ∧
        (w' = retry w₁ fd ∨
          w₁.connector.connect_ = true ∧ w' = TcpClient.newConnection (connectedTo w₁ fd) fd ∨
          w₁.connector.connect_ = false ∧ w' = (connectedTo w₁ fd).close fd)) ∨
    w.connector.state ≠ .kConnecting ∧ w' = w := by
  unfold handleWrite at hs
  split at hs
  · rename_i hstate
    obtain ⟨⟨fd, w₁⟩, hremove, hs⟩ := bind_ok.mp hs
    refine .inl ⟨hstate, fd, w₁, hremove, ?_⟩
    simp only at hs
    split at hs
    · cases hs
      exact .inl rfl
    · split at hs
      · cases hs
        exact .inl rfl
      · cases hs
        right
        by_cases hconnect : w₁.connector.connect_ = true
        · exact .inl ⟨hconnect, if_pos hconnect⟩
        · exact .inr ⟨Bool.eq_false_iff.mpr hconnect, if_neg hconnect⟩
  · rename_i hstate
    obtain ⟨_, -, hs⟩ := bind_ok.mp hs
    cases hs
    exact .inr ⟨hstate, rfl⟩

/-- What the two callbacks of the connector keep, an event keeps. -/
theorem handleEvent_keeps {P : ClientLoop → Prop} {callbacks : List Channel.Callback}
    (herror : ∀ {w w'}, P w → handleError w = .ok w' → P w')
    (hwrite : ∀ {w w'}, P w → handleWrite w err isSelfConnect = .ok w' → P w')
    (h : P w) (hs : handleEvent err isSelfConnect callbacks w = .ok w') : P w' := by
  induction callbacks generalizing w with
  | nil =>
    cases hs
    exact h
  | cons cb callbacks ih =>
    cases cb with
    | error =>
      obtain ⟨_, hhandle, hs⟩ := bind_ok.mp hs
      exact ih (herror h hhandle) hs
    | write =>
      obtain ⟨_, hhandle, hs⟩ := bind_ok.mp hs
      exact ih (hwrite h hhandle) hs
    | close | read => exact ih h hs

-- ---------------------------------------------------------------------------
-- The client
-- ---------------------------------------------------------------------------

theorem removeConnection_cases (hs : TcpClient.removeConnection w conn savedErrno = .ok w') :
    (w.client.connect_ = true ∧ Connector.restart ({ w with client.connection := none }.queueInLoop
      (.connectDestroyed conn)) savedErrno = .ok w') ∨
    w' = { w with client.connection := none }.queueInLoop (.connectDestroyed conn) := by
  obtain ⟨_, -, hs⟩ := bind_ok.mp hs
  simp only at hs
  split at hs
  · rename_i hflags
    exact .inl ⟨hflags.2, hs⟩
  · cases hs
    exact .inr rfl

theorem functor_cases (hs : step w (.functor savedErrno) = .ok w') : w' = w ∨
    ∃ f functors, w.functors = f :: functors ∧
      runFunctor { w with functors } savedErrno f = .ok w' := by
  simp only [step] at hs
  split at hs
  · cases hs
    exact .inl rfl
  · rename_i f functors hf
    exact .inr ⟨f, functors, hf, hs⟩

end Muduo.ClientLoop
