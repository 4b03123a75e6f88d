import Muduo.Net.Attempts

/-!
# A client that does not give up

With `retry_` set, whenever both `connect_` flags are there is a start in the
queue, a retry timer, a socket that is connecting or a connection. The delays of
the retries double from a restart on, up to the longest.
-/

namespace Muduo.ClientLoop

open Lib Connector

variable {w w' : ClientLoop} {savedErrno : Errno} {functors : List Functor}

-- ---------------------------------------------------------------------------
-- What is to come
-- ---------------------------------------------------------------------------

/-- Something is under way that makes a connection, or one is there. -/
inductive Pending (w : ClientLoop) : Prop
  | start : .startInLoop ∈ w.functors → Pending w
  | timer : w.timers ≠ [] → Pending w
  | connecting : w.connector.state = .kConnecting → Pending w
  | connected : w.client.connection.isSome → Pending w

/-- An error of `connect(2)` is one that the connector retries. -/
def Retried (savedErrno : Errno) : Prop := inProgress savedErrno ∨ retryable savedErrno

def Label.Retried : Label → Prop
  | .connect _ savedErrno | .functor savedErrno | .timer _ savedErrno | .close _ savedErrno =>
    ClientLoop.Retried savedErrno
  | _ => True

instance : DecidablePred ClientLoop.Retried := fun _ => inferInstanceAs (Decidable (_ ∨ _))

instance : DecidablePred Label.Retried
  | .connect _ savedErrno | .functor savedErrno | .timer _ savedErrno | .close _ savedErrno =>
    inferInstanceAs (Decidable (ClientLoop.Retried savedErrno))
  | .disconnect | .stop _ | .enableRetry | .event _ _ _ _ => .isTrue trivial

/-- The client wants a connection. -/
def Wants (w : ClientLoop) : Prop :=
  w.client.connect_ = true ∧ w.connector.connect_ = true

structure Persists (w : ClientLoop) : Prop where
  retry : w.client.retry = true
  pending : Wants w → Pending w

-- ---------------------------------------------------------------------------
-- The functions
-- ---------------------------------------------------------------------------

theorem retry_pending (hc : w.connector.connect_ = true) (fd : Int) :
    Pending (Connector.retry w fd) := by
  have hc' : (setState (w.close fd) .kDisconnected).connector.connect_ = true := hc
  refine .timer ?_
  simp [Connector.retry, hc', runAfter]

theorem retry_flags (w : ClientLoop) (fd : Int) :
    (Connector.retry w fd).client.retry = w.client.retry ∧
      (Connector.retry w fd).connector.connect_ = w.connector.connect_ := by
  obtain ⟨timers, delay, heq⟩ := retry_rest w fd
  rw [heq]
  exact ⟨rfl, rfl⟩

theorem retry_persists (hr : w.client.retry = true) (fd : Int) :
    Persists (Connector.retry w fd) := by
  obtain ⟨hretry, hconnect⟩ := retry_flags w fd
  exact ⟨hretry.trans hr, fun hw => retry_pending (hconnect.symm.trans hw.2) fd⟩

theorem connect_persists (hr : w.client.retry = true) (he : ClientLoop.Retried savedErrno)
    (hs : Connector.connect w savedErrno = .ok w') : Persists w' := by
  simp only [Connector.connect, createNonblockingOrDie] at hs
  split at hs
  · obtain ⟨-, c, rfl⟩ := connecting_ok hs
    exact ⟨hr, fun _ => .connecting rfl⟩
  · rename_i hp
    rw [if_pos (he.resolve_left hp)] at hs
    cases hs
    exact retry_persists (w := attempted w) hr _

theorem startInLoop_persists (hr : w.client.retry = true) (he : ClientLoop.Retried savedErrno)
    (hs : startInLoop w savedErrno = .ok w') : Persists w' := by
  obtain ⟨_, -, hs⟩ := bind_ok.mp hs
  split at hs
  · exact connect_persists hr he hs
  · rename_i hc
    cases hs
    exact ⟨hr, fun hw => absurd hw.2 hc⟩

theorem removeAndResetChannel_retry (hs : removeAndResetChannel w = .ok (fd, w')) :
    w'.client.retry = w.client.retry := by
  obtain ⟨-, c, rfl⟩ := removeAndResetChannel_cases hs
  rfl

theorem Persists.stopInLoop (h : Persists w) (hs : stopInLoop w = .ok w') : Persists w' := by
  obtain ⟨-, fd, w₁, hremove, rfl⟩ | ⟨-, rfl⟩ := stopInLoop_cases hs
  · exact retry_persists ((removeAndResetChannel_retry hremove).trans h.retry) fd
  · exact h

theorem Persists.handleError (h : Persists w) (hs : handleError w = .ok w') : Persists w' := by
  obtain ⟨-, fd, w₁, hremove, rfl⟩ := handleError_cases hs
  exact retry_persists ((removeAndResetChannel_retry hremove).trans h.retry) fd

theorem Persists.handleWrite (h : Persists w) (hs : handleWrite w err isSelfConnect = .ok w') :
    Persists w' := by
  obtain ⟨-, fd, w₁, hremove, hend⟩ | ⟨-, rfl⟩ := handleWrite_cases hs
  · have hr : w₁.client.retry = true := (removeAndResetChannel_retry hremove).trans h.retry
    obtain rfl | ⟨-, rfl⟩ | ⟨hconnect, rfl⟩ := hend
    · exact retry_persists hr fd
    · exact ⟨hr, fun _ => .connected rfl⟩
    · exact ⟨hr, fun hw => absurd hw.2 (Bool.eq_false_iff.mp hconnect)⟩
  · exact h

theorem Persists.removeConnection (h : Persists w) (he : ClientLoop.Retried savedErrno)
    (hs : TcpClient.removeConnection w conn savedErrno = .ok w') : Persists w' := by
  obtain ⟨_, -, hs⟩ := bind_ok.mp hs
  simp only at hs
  split at hs
  · unfold restart at hs
    exact startInLoop_persists (by exact h.retry) he hs
  · rename_i hflags
    cases hs
    exact ⟨h.retry, fun hw => absurd ⟨h.retry, hw.1⟩ hflags⟩

theorem Pending.of_eq (h : Pending w)
    (hf : .startInLoop ∈ w.functors → .startInLoop ∈ w'.functors) (ht : w'.timers = w.timers)
    (hs : w'.connector.state = w.connector.state)
    (hc : w'.client.connection = w.client.connection) : Pending w' := by
  cases h with
  | start hm => exact .start (hf hm)
  | timer hne => exact .timer (ht ▸ hne)
  | connecting hst => exact .connecting (hs.trans hst)
  | connected hcon => exact .connected (hc ▸ hcon)

theorem Persists.functor (h : Persists w) (he : ClientLoop.Retried savedErrno)
    (hs : step w (.functor savedErrno) = .ok w') : Persists w' := by
  obtain rfl | ⟨f, functors, hf, hs⟩ := functor_cases hs
  · exact h
  · have hpop : f ≠ .startInLoop → Persists { w with functors } := by
      intro hne
      refine ⟨h.retry, fun hw => (h.pending hw).of_eq (fun hm => ?_) rfl rfl rfl⟩
      rw [hf] at hm
      exact (List.mem_cons.mp hm).resolve_left (Ne.symm hne)
    cases f with
    | startInLoop => exact startInLoop_persists (w := { w with functors }) h.retry he hs
    | stopInLoop => exact (hpop nofun).stopInLoop hs
    | resetChannel =>
      cases hs
      have hp := hpop nofun
      exact ⟨hp.retry, fun hw => (hp.pending hw).of_eq id rfl rfl rfl⟩
    | connectDestroyed fd =>
      cases hs
      exact hpop nofun

-- ---------------------------------------------------------------------------
-- Runs
-- ---------------------------------------------------------------------------

theorem Persists.step (h : Persists w) (he : a.Retried) (hs : step w a = .ok w') : Persists w' := by
  cases a with
  | connect inLoop savedErrno =>
    cases inLoop with
    | true =>
      exact startInLoop_persists
        (w := { w with client.connect_ := true, client.connector.connect_ := true }) h.retry he hs
    | false =>
      cases hs
      exact ⟨h.retry, fun _ => .start (by simp [queueInLoop])⟩
  | disconnect =>
    cases hs
    exact ⟨h.retry, by rintro ⟨⟨⟩, -⟩⟩
  | stop inLoop =>
    cases inLoop with
    | true =>
      have hflags :
          Persists { w with client.connect_ := false, client.connector.connect_ := false } :=
        ⟨h.retry, by rintro ⟨⟨⟩, -⟩⟩
      exact hflags.stopInLoop hs
    | false =>
      cases hs
      exact ⟨h.retry, by rintro ⟨⟨⟩, -⟩⟩
  | enableRetry =>
    cases hs
    exact ⟨rfl, fun hw => (h.pending hw).of_eq id rfl rfl rfl⟩
  | functor savedErrno => exact h.functor he hs
  | timer k savedErrno =>
    exact startInLoop_persists (w := { w with timers := w.timers.eraseIdx k }) h.retry he hs
  | event fd revents err isSelfConnect =>
    exact handleEvent_keeps (fun h hs => h.handleError hs) (fun h hs => h.handleWrite hs) h hs
  | close conn savedErrno =>
    have hless : Persists { w with conns := w.conns.erase conn } :=
      ⟨h.retry, fun hw => (h.pending hw).of_eq id rfl rfl rfl⟩
    exact hless.removeConnection he hs

theorem persists_keeps :
    (machine.restrict fun _ => Label.Retried).Keeps fun w => Inv w ∧ Persists w :=
  fun h ha hs => ⟨(step_decides h.1 ha.1).result hs, h.2.step ha.2 hs⟩

theorem start_persists :
    Inv { client := { retry := true } } ∧ Persists { client := { retry := true } } :=
  ⟨start_inv.frame rfl rfl rfl rfl rfl rfl rfl, rfl, fun hw => nomatch hw.2⟩

inductive Proceeds (w : ClientLoop) : Prop
  | start : .startInLoop ∈ w.functors → Proceeds w
  | timer : w.timers ≠ [] → Proceeds w
  | connecting : w.registered ≠ [] → Proceeds w
  | connected (conn : Int) : w.client.connection = some conn → conn ∈ w.conns → Proceeds w

theorem Pending.proceeds (h : Pending w) (hi : Inv w) : Proceeds w := by
  cases h with
  | start hm => exact .start hm
  | timer ht => exact .timer ht
  | connecting hs =>
    cases hi with
    | idle hs' _ _ => exact absurd (hs.symm.trans hs') nofun
    | trying _ hw _ => exact .connecting (by simp [hw.registered])
    | connected hs' _ _ _ => exact absurd (hs.symm.trans hs') nofun
  | connected hc =>
    obtain ⟨conn, hconn⟩ := Option.isSome_iff_exists.mp hc
    cases hi with
    | idle _ _ ha => simp [ha.connection] at hconn
    | trying _ _ ha => simp [ha.connection] at hconn
    | connected _ _ _ hconns => exact .connected conn hconn (by simp [hconns, hconn])

/-- Whatever is called and happens: as long as `connect(2)` fails with errors only
that the connector retries, a client with `retry_` that was told to connect, and not
to stop or to disconnect after that, has a connection or goes on to make one. -/
theorem persistence (h : machine.Run { client := { retry := true } } labels w)
    (hr : ∀ a ∈ labels, a.Retried) (hw : Wants w) : Proceeds w := by
  have hrun := h.restrict (C := fun _ => Label.Retried) (Machine.meets_of_mem hr)
  obtain ⟨hi, hp⟩ := hrun.keeps persists_keeps start_persists
  exact (hp.pending hw).proceeds hi

/-- The connection is lost, the restart is refused, and a retry timer is set. -/
theorem persistence_refused : ∃ w, machine.Run { client := { retry := true } }
    [.connect true EINPROGRESS, .event 0 POLLOUT 0 false, .functor 0, .close 0 ECONNREFUSED] w ∧
      w.client.connection = none ∧ Proceeds w := by
  have hrun : ∃ w, machine.Run { client := { retry := true } }
      [.connect true EINPROGRESS, .event 0 POLLOUT 0 false, .functor 0, .close 0 ECONNREFUSED] w ∧
        w.client.connection = none ∧ w.client.connect_ = true ∧ w.connector.connect_ = true :=
    Machine.exists_run (by decide +kernel)
  obtain ⟨w, hw, hnone, hclient, hconnector⟩ := hrun
  exact ⟨w, hw, hnone, persistence hw (by decide +kernel) ⟨hclient, hconnector⟩⟩

-- ---------------------------------------------------------------------------
-- The delays
-- ---------------------------------------------------------------------------

/-- The delay of the retry after `k` others. -/
def delayOf (k : Nat) : Nat := min (kInitRetryDelayMs * 2 ^ k) kMaxRetryDelayMs

theorem delayOf_succ (k : Nat) : min (delayOf k * 2) kMaxRetryDelayMs = delayOf (k + 1) := by
  rw [delayOf, delayOf, pow_succ, ← Nat.mul_assoc]
  omega

def delays (k n : Nat) : List Nat := (List.range' k n).map delayOf

@[simp] theorem length_delays (k n : Nat) : (delays k n).length = n := by simp [delays]

theorem delays_append (k n m : Nat) : delays k n ++ delays (k + n) m = delays k (n + m) := by
  rw [delays, delays, delays, ← List.map_append, List.range'_append_1]

/-- From `w` to `w'` some retries were made, at the delays that are due. -/
def Paces (w w' : ClientLoop) : Prop :=
  ∀ k, w.connector.retryDelayMs = delayOf k →
    ∃ n, w'.connector.retryDelayMs = delayOf (k + n) ∧ w'.timers = w.timers ++ delays k n

theorem Paces.of_eq (hd : w'.connector.retryDelayMs = w.connector.retryDelayMs)
    (ht : w'.timers = w.timers) : Paces w w' :=
  fun k hk => ⟨0, hd.trans hk, by simp [ht, delays]⟩

theorem Paces.trans (h : Paces w w') (h' : Paces w' w'') : Paces w w'' := by
  intro k hk
  obtain ⟨n, hn, ht⟩ := h k hk
  obtain ⟨m, hm, ht'⟩ := h' (k + n) hn
  refine ⟨n + m, by rw [hm, Nat.add_assoc], ?_⟩
  rw [ht', ht, List.append_assoc, delays_append]

theorem retry_paces (w : ClientLoop) (fd : Int) : Paces w (Connector.retry w fd) := by
  intro k hk
  have hk' : (setState (w.close fd) .kDisconnected).connector.retryDelayMs = delayOf k := hk
  unfold Connector.retry
  simp only
  split
  · exact ⟨1, by rw [← delayOf_succ, ← hk']; rfl, by rw [hk']; rfl⟩
  · exact ⟨0, hk, (List.append_nil _).symm⟩

theorem removeAndResetChannel_paces (hs : removeAndResetChannel w = .ok (fd, w')) : Paces w w' := by
  obtain ⟨-, c, rfl⟩ := removeAndResetChannel_cases hs
  exact .of_eq rfl rfl

theorem connect_paces (hs : Connector.connect w savedErrno = .ok w') : Paces w w' := by
  have hfirst : Paces w (attempted w) := .of_eq rfl rfl
  obtain hs | rfl | rfl := connect_cases hs
  · obtain ⟨-, c, rfl⟩ := connecting_ok hs
    exact .of_eq rfl rfl
  · exact hfirst.trans (retry_paces _ _)
  · exact .of_eq rfl rfl

theorem startInLoop_paces (hs : startInLoop w savedErrno = .ok w') : Paces w w' := by
  obtain ⟨-, hs⟩ | rfl := startInLoop_cases hs
  · exact connect_paces hs
  · exact .of_eq rfl rfl

theorem stopInLoop_paces (hs : stopInLoop w = .ok w') : Paces w w' := by
  obtain ⟨-, fd, w₁, hremove, rfl⟩ | ⟨-, rfl⟩ := stopInLoop_cases hs
  · have hset : Paces w (setState w .kDisconnected) := .of_eq rfl rfl
    exact (hset.trans (removeAndResetChannel_paces hremove)).trans (retry_paces _ _)
  · exact .of_eq rfl rfl

theorem handleError_paces (hs : handleError w = .ok w') : Paces w w' := by
  obtain ⟨-, fd, w₁, hremove, rfl⟩ := handleError_cases hs
  exact (removeAndResetChannel_paces hremove).trans (retry_paces _ _)

theorem handleWrite_paces (hs : handleWrite w err isSelfConnect = .ok w') : Paces w w' := by
  obtain ⟨-, fd, w₁, hremove, hend⟩ | ⟨-, rfl⟩ := handleWrite_cases hs
  · refine (removeAndResetChannel_paces hremove).trans ?_
    obtain rfl | ⟨-, rfl⟩ | ⟨-, rfl⟩ := hend
    · exact retry_paces _ _
    · exact .of_eq rfl rfl
    · exact .of_eq rfl rfl
  · exact .of_eq rfl rfl

def kept (w : ClientLoop) : Label → List Nat
  | .timer k _ => w.timers.eraseIdx k
  | _ => w.timers

/-- The step loses the connection, and the connector starts anew. -/
def Restarts (w : ClientLoop) : Label → Prop
  | .close _ _ => w.client.retry ∧ w.client.connect_
  | _ => False

instance (w : ClientLoop) : DecidablePred w.Restarts
  | .close _ _ => inferInstanceAs (Decidable (_ ∧ _))
  | .connect _ _ | .disconnect | .stop _ | .enableRetry | .functor _ | .timer _ _
  | .event _ _ _ _ => .isFalse id

/-- Where the delays of the step go on from. -/
def resumed (w : ClientLoop) (a : Label) : ClientLoop :=
  { w with
    timers := w.kept a
    client.connector.retryDelayMs :=
      if w.Restarts a then kInitRetryDelayMs else w.connector.retryDelayMs }

theorem functor_paces (hs : step w (.functor savedErrno) = .ok w') : Paces w w' := by
  obtain rfl | ⟨f, functors, -, hs⟩ := functor_cases hs
  · exact .of_eq rfl rfl
  · have hpop : Paces w { w with functors } := .of_eq rfl rfl
    refine hpop.trans ?_
    cases f with
    | startInLoop => exact startInLoop_paces hs
    | stopInLoop => exact stopInLoop_paces hs
    | resetChannel | connectDestroyed fd =>
      cases hs
      exact .of_eq rfl rfl

theorem step_paces (hs : step w a = .ok w') : Paces (w.resumed a) w' := by
  cases a with
  | connect inLoop savedErrno =>
    have hset : Paces (w.resumed (.connect inLoop savedErrno))
        { w with client.connect_ := true, client.connector.connect_ := true } := .of_eq rfl rfl
    refine hset.trans ?_
    cases inLoop with
    | true => exact startInLoop_paces hs
    | false =>
      cases hs
      exact .of_eq rfl rfl
  | disconnect =>
    cases hs
    exact .of_eq rfl rfl
  | stop inLoop =>
    have hset : Paces (w.resumed (.stop inLoop))
        { w with client.connect_ := false, client.connector.connect_ := false } := .of_eq rfl rfl
    refine hset.trans ?_
    cases inLoop with
    | true => exact stopInLoop_paces hs
    | false =>
      cases hs
      exact .of_eq rfl rfl
  | enableRetry =>
    cases hs
    exact .of_eq rfl rfl
  | functor savedErrno => exact functor_paces hs
  | timer k savedErrno => exact startInLoop_paces hs
  | event fd revents err isSelfConnect =>
    have hstart : Paces (w.resumed (.event fd revents err isSelfConnect)) w := .of_eq rfl rfl
    exact handleEvent_keeps (P := Paces (w.resumed (.event fd revents err isSelfConnect)))
      (fun h hs => h.trans (handleError_paces hs)) (fun h hs => h.trans (handleWrite_paces hs))
      hstart hs
  | close conn savedErrno =>
    obtain ⟨_, -, hs⟩ := bind_ok.mp hs
    simp only at hs
    split at hs
    · rename_i hflags
      unfold restart at hs
      refine Paces.trans ?_ (startInLoop_paces hs)
      exact .of_eq (if_pos hflags).symm rfl
    · rename_i hflags
      cases hs
      exact .of_eq (if_neg hflags).symm rfl

/-- A client with the delays of the retries since the last restart. -/
structure Paced where
  loop : ClientLoop := {}
  delays : List Nat := []

namespace Paced

def machine : Machine Paced Label Fault where
  enabled s := ClientLoop.machine.enabled s.loop
  step s a := do
    let w ← ClientLoop.step s.loop a
    let added := w.timers.drop (s.loop.kept a).length
    return ⟨w, if s.loop.Restarts a then added else s.delays ++ added⟩

instance (s : Paced) (a : Label) : Decidable (machine.enabled s a) :=
  inferInstanceAs (Decidable (ClientLoop.machine.enabled s.loop a))

/-- The next delay is the one that is due. -/
structure Due (s : Paced) : Prop where
  delays : s.delays = ClientLoop.delays 0 s.delays.length
  next : s.loop.connector.retryDelayMs = delayOf s.delays.length

theorem due_keeps : machine.Keeps Due := by
  intro s a s' h _ hs
  obtain ⟨w, hstep, hs⟩ := bind_ok.mp hs
  cases hs
  -- the retries so far, of which a restart begins the count anew
  let k := if s.loop.Restarts a then 0 else s.delays.length
  have hdelay : (s.loop.resumed a).connector.retryDelayMs = delayOf k := by
    simp only [resumed, connector, k]
    split
    · rfl
    · exact h.next
  obtain ⟨n, hn, ht⟩ := step_paces hstep k hdelay
  have hadded : w.timers.drop (s.loop.kept a).length = ClientLoop.delays k n := by
    rw [ht]
    exact List.drop_left
  simp only [hadded]
  by_cases hr : s.loop.Restarts a
  · have hk : k = 0 := if_pos hr
    rw [hk, Nat.zero_add] at hn
    refine ⟨?_, ?_⟩
    · simp only [if_pos hr, hk, length_delays]
    · simp only [if_pos hr, length_delays]
      exact hn
  · have hk : k = s.delays.length := if_neg hr
    refine ⟨?_, ?_⟩
    · simp only [if_neg hr, List.length_append, length_delays]
      rw [← delays_append, Nat.zero_add, ← h.delays, hk]
    · simp only [if_neg hr, List.length_append, length_delays]
      rw [hn, hk]

/-- From a restart on, the retry after `k` others waits for half a second times
two to the power of `k`, up to half a minute. -/
theorem backoff (h : machine.Run {} labels s) (k : Nat) (hk : k < s.delays.length) :
    s.delays[k] = min (500 * 2 ^ k) 30000 ∧ s.loop.connector.retryDelayMs ≤ 30000 := by
  have hd := h.keeps due_keeps ⟨rfl, rfl⟩
  refine ⟨?_, ?_⟩
  · have hget : s.delays[k]? = (ClientLoop.delays 0 s.delays.length)[k]? := by rw [← hd.delays]
    rw [List.getElem?_eq_getElem hk, List.getElem?_eq_getElem (by simpa using hk)] at hget
    rw [Option.some.inj hget]
    simp [ClientLoop.delays, delayOf, kInitRetryDelayMs, kMaxRetryDelayMs]
  · rw [hd.next]
    exact Nat.min_le_right ..

/-- Refused seven times, the last of which waits for half a minute. -/
theorem backoff_capped : ∃ s, machine.Run {}
    [.enableRetry, .connect true ECONNREFUSED, .timer 0 ECONNREFUSED, .timer 0 ECONNREFUSED,
      .timer 0 ECONNREFUSED, .timer 0 ECONNREFUSED, .timer 0 ECONNREFUSED,
      .timer 0 ECONNREFUSED] s ∧
    s.delays.length = 7 ∧ ∃ hk : 6 < s.delays.length, s.delays[6] = 30000 := by
  have hrun : ∃ s, machine.Run {}
      [.enableRetry, .connect true ECONNREFUSED, .timer 0 ECONNREFUSED, .timer 0 ECONNREFUSED,
        .timer 0 ECONNREFUSED, .timer 0 ECONNREFUSED, .timer 0 ECONNREFUSED,
        .timer 0 ECONNREFUSED] s ∧
      s.delays.length = 7 := Machine.exists_run (by decide +kernel)
  obtain ⟨s, hs, hlen⟩ := hrun
  exact ⟨s, hs, hlen, by omega, (backoff hs 6 (by omega)).1⟩

end Paced

end Muduo.ClientLoop
