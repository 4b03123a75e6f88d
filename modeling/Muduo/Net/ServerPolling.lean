import Muduo.Net.ChannelCalls
import Muduo.Net.RoundRobin
import Muduo.Net.WriteInterest

/-!
# A server and its pollers

Every loop has a poller with its own two channels, the acceptor's on the base loop,
and those of its connections. What a loop gets from `poll(2)` is what
`fillActiveChannels` finds. So far a server was taken to poll the channels with
interest; here it does.
-/

namespace Muduo

open Lib Function TcpServer

namespace PolledServer

inductive Chan
  | timerfd
  | wakeup
  | acceptor
  | connection (c : Nat)
  deriving DecidableEq

inductive Fault
  | server (fault : TcpServer.Fault)
  | poller (fault : PollPoller.PollFault)
  deriving DecidableEq

end PolledServer

structure PolledServer where
  world : World
  poller : Nat → PollPoller PolledServer.Chan

namespace PolledServer

open PollPoller (Turn changes)

-- ---------------------------------------------------------------------------
-- The code
-- ---------------------------------------------------------------------------

/-- The connection that a step is about, and what happens to its channel. -/
def channelTurns (w : World) : World.Label → Nat × List (Turn Chan)
  | .newConnection sockfd =>
    (w.accepted, .create (.connection w.accepted) sockfd.toNat ::
      match w.server.getNextLoop with
      | .ok (0, _) => changes (.connection w.accepted) [.enableReading]
      | _ => [])
  | .poll _ _ => (0, [])
  | .dispatch loop rd wr =>
    match w.todo loop with
    | [] => (0, [])
    | (c, cb) :: _ => (c, changes (.connection c) ((w.member c).conn.handleCalls rd wr cb))
  | .functor loop wr =>
    match w.queue loop with
    | .connectEstablished c :: _ => (c, changes (.connection c) [.enableReading])
    | .connectDestroyed c :: _ =>
      (c, changes (.connection c) (w.member c).conn.connectDestroyedCalls ++
        [.call (.remove (.connection c))])
    | .connection c f :: _ => (c, changes (.connection c) ((w.member c).conn.runFunctorCalls wr f))
    | _ => (0, [])
  | .send inLoop c data wr =>
    (c, changes (.connection c) ((w.member c).conn.sendCalls inLoop data wr))
  | .shutdown _ c => (c, [])
  | .retrieve c _ => (c, [])

/-- The connections among the active channels, with their `revents`. -/
def events (p : PollPoller Chan) (active : List Chan) : List (Nat × BitVec 32) :=
  active.filterMap fun
    | .connection c => some (c, (p.chan (.connection c)).revents)
    | _ => none

/-- The channels of a loop itself. The acceptor listens on the base loop. -/
def own : Nat → List Chan
  | 0 => [.timerfd, .wakeup, .acceptor]
  | _ + 1 => [.timerfd, .wakeup]

inductive Label
  | poll (loop : Nat) (numEvents : Int) (revents : List (BitVec 16))
  /-- `poll(2)` returns -1, whatever it left in the entries. -/
  | pollError (loop : Nat) (revents : List (BitVec 16))
  | server (a : World.Label)

def Unused (s : PolledServer) (fd : Int) : Prop :=
  0 ≤ fd ∧
  (∀ c < s.world.accepted, .destroyed ∉ s.world.happened c →
    (s.world.member c).conn.channel.fd ≠ fd) ∧
  ∀ l < s.world.server.numLoops + 1, ∀ ch ∈ own l, ((s.poller l).chan ch).fd ≠ fd

def Enabled (s : PolledServer) : Label → Prop
  | .poll loop numEvents revents => s.world.todo loop = [] ∧
    PollPoller.Answers (s.poller loop).pollfds numEvents revents ∧
    ∀ r ∈ revents, World.Plausible (r.signExtend 32)
  | .pollError loop revents =>
    s.world.todo loop = [] ∧ revents.length = (s.poller loop).pollfds.length
  | .server (.newConnection sockfd) =>
    World.machine.enabled s.world (.newConnection sockfd) ∧ s.Unused sockfd
  | .server (.poll _ _) => False
  | .server a => World.machine.enabled s.world a

def pollLoop (s : PolledServer) (loop : Nat) (numEvents : Int) (revents : List (BitVec 16)) :
    Except Fault PolledServer := do
  let (p, active) ← ((s.poller loop).poll numEvents revents []).mapError .poller
  let world ← (s.world.step (.poll loop (events p active))).mapError .server
  return { world, poller := update s.poller loop p }

def step (s : PolledServer) : Label → Except Fault PolledServer
  | .poll loop numEvents revents => s.pollLoop loop numEvents revents
  | .pollError loop revents => s.pollLoop loop (-1) revents
  | .server a => do
    let world ← (s.world.step a).mapError .server
    let (c, turns) := channelTurns s.world a
    let loop := (world.member c).loop
    let p ← (turns.foldlM PollPoller.turn (s.poller loop)).mapError .poller
    return { world, poller := update s.poller loop p }

def machine : Machine PolledServer Label Fault where
  enabled := Enabled
  step := step

def setup (l : Nat) : List (Turn Chan) := (own l).map fun ch => .call (.change ch .enableReading)

instance (s : PolledServer) (fd : Int) : Decidable (s.Unused fd) :=
  inferInstanceAs (Decidable (_ ∧ _ ∧ _))

instance (s : PolledServer) : (a : Label) → Decidable (machine.enabled s a)
  | .poll _ _ revents =>
    have : Decidable (∀ r ∈ revents, World.Plausible (r.signExtend 32)) :=
      List.decidableBAll _ revents
    inferInstanceAs (Decidable (_ ∧ _ ∧ _))
  | .pollError _ _ => inferInstanceAs (Decidable (_ ∧ _))
  | .server (.newConnection sockfd) =>
    inferInstanceAs (Decidable (World.machine.enabled s.world (.newConnection sockfd) ∧ _))
  | .server (.poll _ _) => .isFalse id
  | .server (.dispatch loop rd wr) =>
    inferInstanceAs (Decidable (World.machine.enabled s.world (.dispatch loop rd wr)))
  | .server (.functor loop wr) =>
    inferInstanceAs (Decidable (World.machine.enabled s.world (.functor loop wr)))
  | .server (.send inLoop c data wr) =>
    inferInstanceAs (Decidable (World.machine.enabled s.world (.send inLoop c data wr)))
  | .server (.shutdown inLoop c) =>
    inferInstanceAs (Decidable (World.machine.enabled s.world (.shutdown inLoop c)))
  | .server (.retrieve c len) =>
    inferInstanceAs (Decidable (World.machine.enabled s.world (.retrieve c len)))

/-- A server after `start()`, its loops running. -/
structure Started (s : PolledServer) (name hostport : Bytes) (numLoops : Nat) (wc : Bool) :
    Prop where
  world : s.world = World.start name hostport numLoops wc
  poller : ∀ l, ∃ fd : Chan → Nat,
    (setup l).foldlM PollPoller.turn (PollPoller.start fun ch => fd ch) = .ok (s.poller l)

end PolledServer

-- ---------------------------------------------------------------------------
-- What a step of the server does
-- ---------------------------------------------------------------------------

namespace World

variable {w w' : World}

/-- The poller of its loop has the channel of the connection. -/
def Polling (w : World) (c : Nat) : Prop :=
  .established ∈ w.happened c ∧ .destroyed ∉ w.happened c

structure Unmarked (w w' : World) : Prop where
  established : ∀ d, .established ∈ w'.happened d ↔ .established ∈ w.happened d
  destroyed : ∀ d, .destroyed ∈ w'.happened d ↔ .destroyed ∈ w.happened d

theorem mem_note (w : World) (c d : Nat) (m m' : Milestone) :
    m' ∈ (w.note c m).happened d ↔ m' ∈ w.happened d ∨ c = d ∧ m' = m := by
  rw [happened_note]
  split <;> simp_all

theorem unmarked_note (w : World) (c : Nat) (hm : m ≠ .established ∧ m ≠ .destroyed) :
    Unmarked w (w.note c m) :=
  ⟨fun _ => (mem_note ..).trans (or_iff_left fun h => hm.1 h.2.symm),
    fun _ => (mem_note ..).trans (or_iff_left fun h => hm.2 h.2.symm)⟩

theorem unmarked_frame : Frame (fun m => m ≠ .established ∧ m ≠ .destroyed) Unmarked where
  trans h h' := ⟨fun d => (h'.established d).trans (h.established d),
    fun d => (h'.destroyed d).trans (h.destroyed d)⟩
  setConn _ _ _ := ⟨fun _ => Iff.rfl, fun _ => Iff.rfl⟩
  note w c _ hm := unmarked_note w c hm
  loops _ _ _ := ⟨fun _ => Iff.rfl, fun _ => Iff.rfl⟩
  erase _ _ := ⟨fun _ => Iff.rfl, fun _ => Iff.rfl⟩

/-- Going from `w` to `w'` touches no connection but `c`. -/
structure Touches (c : Nat) (w w' : World) : Prop where
  accepted : w'.accepted = w.accepted
  loop : ∀ d, (w'.member d).loop = (w.member d).loop
  conn : ∀ d, d ≠ c → (w'.member d).conn = (w.member d).conn
  established : ∀ d, d ≠ c → (.established ∈ w'.happened d ↔ .established ∈ w.happened d)
  destroyed : ∀ d, d ≠ c → (.destroyed ∈ w'.happened d ↔ .destroyed ∈ w.happened d)

theorem Touches.trans (h : Touches c w w') (h' : Touches c w' w'') : Touches c w w'' where
  accepted := h'.accepted.trans h.accepted
  loop d := (h'.loop d).trans (h.loop d)
  conn d hd := (h'.conn d hd).trans (h.conn d hd)
  established d hd := (h'.established d hd).trans (h.established d hd)
  destroyed d hd := (h'.destroyed d hd).trans (h.destroyed d hd)

theorem Touches.of_eq (hm : w'.member = w.member) (ha : w'.accepted = w.accepted)
    (hu : Unmarked w w') (c : Nat) : Touches c w w' where
  accepted := ha
  loop _ := by rw [hm]
  conn _ _ := by rw [hm]
  established d _ := hu.established d
  destroyed d _ := hu.destroyed d

theorem touches_note (w : World) (c : Nat) (m : Milestone) : Touches c w (w.note c m) where
  accepted := rfl
  loop _ := rfl
  conn _ _ := rfl
  established _ hd := (mem_note ..).trans (or_iff_left fun h => hd h.1.symm)
  destroyed _ hd := (mem_note ..).trans (or_iff_left fun h => hd h.1.symm)

theorem perform_member {effects : List TcpConnection.Effect}
    (hs : perform here c effects w = .ok w') : w'.member = w.member := by
  induction effects generalizing w with
  | nil =>
    cases hs
    rfl
  | cons e effects ih =>
    cases e with
    | closeCallback =>
      obtain ⟨w₁, hremove, hs⟩ := bind_ok.mp hs
      refine (ih hs).trans ?_
      unfold removeConnection at hremove
      split at hremove
      · obtain ⟨_, -, hremove⟩ := bind_ok.mp hremove
        cases hremove
        rfl
      · cases hremove
        rfl
    | queueInLoop f => exact ih (w := w.queueInLoop (w.member c).loop (.connection c f)) hs
    | write _ _ | shutdownWrite | connectionCallback _ | messageCallback | removeChannel =>
      exact ih hs

theorem call_touches (hs : w.call here c f = .ok w') :
    ∃ conn effects, f (w.member c).conn = .ok (conn, effects) ∧ (w'.member c).conn = conn ∧
      Touches c w w' ∧ Unmarked w w' := by
  have hu := unmarked_frame.call (by decide) (by decide) hs
  have hd := undealt_frame.call trivial trivial hs
  obtain ⟨⟨conn, effects⟩, hcall, hs⟩ := bind_ok.mp hs
  have hm := perform_member hs
  refine ⟨conn, effects, mapError_ok.mp hcall, ?_, ⟨hd.accepted, hd.loop, fun d hne => ?_,
    fun d _ => hu.established d, fun d _ => hu.destroyed d⟩, hu⟩
  · simp [hm, setConn]
  · simp [hm, setConn, hne]

theorem mem_take_established : ∀ k ≤ 4, .established ∈ lifecycle.take k ↔ k ≠ 0 := by
  decide

theorem Stage.established_mem (h : Phase v k) : .established ∈ v.happened ↔ k ≠ 0 := by
  rw [← mem_take_established k h.bound, ← h.passed]
  simp

theorem Inv.polling (h : Inv w) (hc : c < w.accepted)
    (hn : ¬(w.member c).conn.channel.isNoneEvent) : Polling w c := by
  obtain ⟨k, hk⟩ := h.stage hc
  have h0 : k ≠ 0 := fun h0 => hn (hk.unborn h0).2.2.1
  refine ⟨(Stage.established_mem hk.toPhase).mpr h0, fun hd => ?_⟩
  obtain ⟨ha, hclosed⟩ := hk.alive h0
  have h4 := (Stage.destroyed_mem hk.toPhase).mp hd
  exact hn (ha.closed (hclosed.mpr (by simp [h4])))

end World

-- ---------------------------------------------------------------------------
-- What the pollers know
-- ---------------------------------------------------------------------------

namespace PolledServer

open World
open PollPoller (Turn changes)

variable {w w' : World} {p p' : PollPoller Chan} {s : PolledServer}

/-- What poller `l` has of connection `c`. -/
structure Sees (w : World) (l : Nat) (p : PollPoller Chan) (c : Nat) : Prop where
  registered : p.Registered (.connection c) ↔
    c < w.accepted ∧ (w.member c).loop = l ∧ w.Polling c
  synced : c < w.accepted → (w.member c).loop = l →
    p.Synced (.connection c) (w.member c).conn.channel
  fresh : c < w.accepted → (w.member c).loop = l → .established ∉ w.happened c →
    (p.chan (.connection c)).index < 0

theorem Sees.other (h : Sees w l p d) (ht : Touches c w w')
    (ha : p.Apart (.connection c) p') (hd : d ≠ c) : Sees w' l p' d := by
  have hne : Chan.connection d ≠ .connection c := fun he => hd (Chan.connection.inj he)
  refine ⟨?_, fun hacc hl => ?_, fun hacc hl he => ?_⟩
  · rw [ha.registered _ hne, h.registered, ht.accepted, ht.loop, Polling, Polling,
      ht.established d hd, ht.destroyed d hd]
  · rw [ht.accepted] at hacc
    rw [ht.loop] at hl
    obtain ⟨hfd, hev⟩ := h.synced hacc hl
    rw [ht.conn d hd]
    exact ⟨(ha.fd _ hne).trans hfd, (ha.events _ hne).trans hev⟩
  · rw [ht.accepted] at hacc
    rw [ht.loop] at hl
    rw [ht.established d hd] at he
    exact (ha.fresh _ hne).mpr (h.fresh hacc hl he)

theorem Sees.away (h : Sees w l p c) (hl : (w.member c).loop ≠ l) (hl' : (w'.member c).loop ≠ l) :
    Sees w' l p c where
  registered := (iff_of_false (fun hr => hl (h.registered.mp hr).2.1) fun hr => hl' hr.2.1)
  synced _ hl := absurd hl hl'
  fresh _ hl := absurd hl hl'

/-- Poller `l` has only channels of its loop. -/
structure Mirrors (l : Nat) (p : PollPoller Chan) : Prop extends p.Mirror where
  mine : ∀ ch, p.Registered ch → ch ∈ own l ∨ ∃ c, ch = .connection c

theorem Mirrors.apart (h : Mirrors l p) (ha : p.Apart (.connection c) p') (hm : p'.Mirror) :
    Mirrors l p' := by
  refine ⟨hm, fun ch hch => ?_⟩
  by_cases hc : ch = .connection c
  · exact .inr ⟨c, hc⟩
  · exact h.mine ch ((ha.registered ch hc).mp hch)

theorem Mirrors.still (h : Mirrors l p) (hs : p.Still p') (hm : p'.Mirror) : Mirrors l p' :=
  ⟨hm, fun ch hch => h.mine ch ((hs.registered ch).mp hch)⟩

theorem ne_connection (h : ch ∈ own l) : ch ≠ .connection c := by
  rintro rfl
  cases l <;> simp [own] at h

theorem fd_update {poller : Nat → PollPoller Chan}
    (h : ∀ ch ∈ own l, (p'.chan ch).fd = ((poller l).chan ch).fd) :
    ∀ k, ∀ ch ∈ own k, ((update poller l p' k).chan ch).fd = ((poller k).chan ch).fd :=
  (forall_update_iff poller fun k p => ∀ ch ∈ own k, (p.chan ch).fd = ((poller k).chan ch).fd).mpr
    ⟨h, fun _ _ _ _ => rfl⟩

/-- The descriptors of open files differ, and the poller of each loop has the
channels of its connections. -/
structure Base (n : Nat) (s : PolledServer) : Prop where
  tracks : ∀ c < s.world.accepted, WriteInterest.Tracks (s.world.member c).conn
  nonneg : ∀ c < s.world.accepted, 0 ≤ (s.world.member c).conn.channel.fd
  apart : ∀ c < s.world.accepted, ∀ d < s.world.accepted, c ≠ d →
    .destroyed ∉ s.world.happened c → .destroyed ∉ s.world.happened d →
    (s.world.member c).conn.channel.fd ≠ (s.world.member d).conn.channel.fd
  loops : ∀ c < s.world.accepted, (s.world.member c).loop ≤ n
  system : ∀ c < s.world.accepted, .destroyed ∉ s.world.happened c → ∀ l ≤ n, ∀ ch ∈ own l,
    ((s.poller l).chan ch).fd ≠ (s.world.member c).conn.channel.fd
  mirror : ∀ l, Mirrors l (s.poller l)
  sees : ∀ l c, Sees s.world l (s.poller l) c

theorem Base.touch (h : Base n s) (ht : Touches c s.world w') (hc : c < s.world.accepted)
    (htracks : WriteInterest.Tracks (w'.member c).conn)
    (hfd : (w'.member c).conn.channel.fd = (s.world.member c).conn.channel.fd)
    (hgone : .destroyed ∈ s.world.happened c → .destroyed ∈ w'.happened c)
    (ha : (s.poller (s.world.member c).loop).Apart (.connection c) p') (hm : p'.Mirror)
    (hs : Sees w' (s.world.member c).loop p' c) :
    Base n { world := w', poller := update s.poller (s.world.member c).loop p' } := by
  have hfds : ∀ d, (w'.member d).conn.channel.fd = (s.world.member d).conn.channel.fd := by
    intro d
    by_cases hd : d = c
    · rw [hd, hfd]
    · rw [ht.conn d hd]
  have hopen : ∀ d, .destroyed ∉ w'.happened d → .destroyed ∉ s.world.happened d := by
    intro d hd
    by_cases hdc : d = c
    · subst hdc
      exact mt hgone hd
    · rwa [← ht.destroyed d hdc]
  refine ⟨fun d hd => ?_, fun d hd => ?_, fun d hd e he hne hd' he' => ?_, fun d hd => ?_,
    fun d hd hd' l hl ch hch => ?_, (forall_update_iff s.poller Mirrors).mpr
      ⟨(h.mirror _).apart ha hm, fun l _ => h.mirror l⟩, fun l d => ?_⟩
  · by_cases hdc : d = c
    · subst hdc
      exact htracks
    · simp only [ht.conn d hdc]
      exact h.tracks d (ht.accepted ▸ hd)
  · simp only [hfds]
    exact h.nonneg d (ht.accepted ▸ hd)
  · simp only [hfds]
    exact h.apart d (ht.accepted ▸ hd) e (ht.accepted ▸ he) hne (hopen d hd') (hopen e he')
  · simp only [ht.loop]
    exact h.loops d (ht.accepted ▸ hd)
  · rw [hfds, fd_update (fun ch hch => ha.fd ch (ne_connection hch)) l ch hch]
    exact h.system d (ht.accepted ▸ hd) (hopen d hd') l hl ch hch
  · by_cases hl' : l = (s.world.member c).loop
    · subst hl'
      simp only [update_self]
      by_cases hd : d = c
      · rw [hd]
        exact hs
      · exact (h.sees _ d).other ht ha hd
    · simp only [update_of_ne hl']
      by_cases hd : d = c
      · subst hd
        refine (h.sees l d).away (Ne.symm hl') ?_
        rw [ht.loop]
        exact Ne.symm hl'
      · exact (h.sees l d).other ht (.refl _ _) hd

/-- No channel in the poller has the descriptor of an open connection that is not
there yet. -/
theorem Base.foreign (h : Base n s) (hc : c < s.world.accepted)
    (hopen : .destroyed ∉ s.world.happened c) (hnot : .established ∉ s.world.happened c)
    (hr : (s.poller (s.world.member c).loop).Registered ch) :
    ((s.poller (s.world.member c).loop).chan ch).fd ≠ (s.world.member c).conn.channel.fd := by
  rcases (h.mirror _).mine ch hr with hch | ⟨d, rfl⟩
  · exact h.system c hc hopen _ (h.loops c hc) ch hch
  · obtain ⟨hd, hl, hest, hopen'⟩ := (h.sees _ d).registered.mp hr
    have hne : d ≠ c := by
      rintro rfl
      exact hnot hest
    rw [((h.sees _ d).synced hd hl).fd]
    exact h.apart d hd c hc hne hopen' hopen

-- ---------------------------------------------------------------------------
-- Steps about one connection
-- ---------------------------------------------------------------------------

/-- The turns of a connection's channel are taken without a fault. -/
def Takes (n : Nat) (s : PolledServer) (w' : World) (c : Nat) (turns : List (Turn Chan)) : Prop :=
  ∃ p', turns.foldlM PollPoller.turn (s.poller (s.world.member c).loop) = .ok p' ∧
    Base n { world := w', poller := update s.poller (s.world.member c).loop p' }

theorem Base.call (h : Base n s) (hi : Inv s.world) (hc : c < s.world.accepted)
    (hm : w.member = s.world.member) (hacc : w.accepted = s.world.accepted)
    (hu : Unmarked s.world w) (hs : w.call here c f = .ok w')
    (hf : ∀ conn effects, f (s.world.member c).conn = .ok (conn, effects) →
      TcpConnection.Moves (s.world.member c).conn.channel fs conn.channel ∧
        WriteInterest.Tracks conn) :
    Takes n s w' c (changes (.connection c) fs) := by
  obtain ⟨conn, effects, hcall, hconn, ht, hu'⟩ := call_touches hs
  have ht := (Touches.of_eq hm hacc hu c).trans ht
  have hu := unmarked_frame.trans hu hu'
  rw [hm] at hcall
  obtain ⟨hmoves, htracks⟩ := hf conn effects hcall
  rw [← hconn] at hmoves htracks
  have hsees := h.sees (s.world.member c).loop c
  have hsynced := hsees.synced hc rfl
  obtain ⟨p', hp', hmirror, ha, hreg, hsynced', hindex⟩ := (h.mirror _).moves hmoves hsynced
    fun hn => hsees.registered.mpr ⟨hc, rfl, hi.polling hc hn⟩
  refine ⟨p', hp', h.touch ht hc htracks hmoves.fd (hu.destroyed c).mpr ha hmirror
    ⟨?_, fun _ _ => hsynced', fun _ _ he => ?_⟩⟩
  · rw [hreg, hsees.registered, ht.accepted, ht.loop, Polling, Polling, hu.established,
      hu.destroyed]
  · rw [hindex]
    exact hsees.fresh hc rfl (mt (hu.established c).mpr he)

theorem Base.connectEstablished (h : Base n s) (hc : c < s.world.accepted)
    (hm : w.member = s.world.member) (hacc : w.accepted = s.world.accepted)
    (hu : Unmarked s.world w) (hnew : .established ∉ s.world.happened c)
    (hopen : .destroyed ∉ s.world.happened c)
    (hnone : (s.world.member c).conn.channel.isNoneEvent)
    (hs : w.connectEstablished here c = .ok w') :
    Takes n s w' c (changes (.connection c) [.enableReading]) := by
  obtain ⟨conn, effects, hcall, hconn, ht, hu'⟩ := call_touches hs
  have hmark := (mem_note w c c .established .established).mpr (.inr ⟨rfl, rfl⟩)
  have hkeep : .destroyed ∉ (w.note c .established).happened c := by
    rw [mem_note, hu.destroyed]
    rintro (hd | ⟨-, ⟨⟩⟩)
    exact hopen hd
  have ht := (Touches.of_eq hm hacc hu c).trans ((touches_note w c .established).trans ht)
  have hcall : (s.world.member c).conn.connectEstablished = .ok (conn, effects) := by
    rw [← hm]
    exact hcall
  have htracks := (h.tracks c hc).connectEstablished hcall
  have hchannel : conn.channel = (s.world.member c).conn.channel.apply .enableReading := by
    obtain ⟨_, -, hcall⟩ := bind_ok.mp hcall
    cases hcall
    rfl
  have hsees := h.sees (s.world.member c).loop c
  obtain ⟨hfd, hev⟩ := hsees.synced hc rfl
  have hsome : ¬(((s.poller (s.world.member c).loop).chan (.connection c)).apply
      .enableReading).isNoneEvent :=
    (Channel.enableReading_isReading _).not_isNoneEvent
  have hplain : ((s.poller (s.world.member c).loop).chan (.connection c)).Plain :=
    .inl (hev.trans hnone)
  obtain ⟨p', hp', hmirror, ha, hreg, hfd', hev'⟩ := (h.mirror _).add
    (hsees.fresh hc rfl hnew) hplain hsome <| (h.mirror _).find?_none fun ch hch => by
      rw [hfd]
      exact h.foreign hc hopen hnew hch
  have hfoldl : (changes (.connection c) [.enableReading]).foldlM PollPoller.turn
      (s.poller (s.world.member c).loop) = .ok p' := by
    simp only [changes, List.map_cons, List.map_nil, List.foldlM_cons, List.foldlM_nil,
      PollPoller.turn, PollPoller.step, hp']
    rfl
  have hpoll : w'.Polling c :=
    ⟨(hu'.established c).mpr hmark, fun hd => hkeep ((hu'.destroyed c).mp hd)⟩
  refine ⟨p', hfoldl, h.touch ht hc (hconn ▸ htracks) ?_ (fun hd => absurd hd hopen) ha hmirror
    ⟨iff_of_true hreg ⟨ht.accepted ▸ hc, ht.loop c, hpoll⟩, fun _ _ => ⟨?_, ?_⟩,
      fun _ _ he => absurd hpoll.1 he⟩⟩
  · rw [hconn, hchannel, Channel.apply_fd]
  · rw [hfd', hfd, hconn, hchannel, Channel.apply_fd]
  · rw [hev', hconn, hchannel]
    exact PollPoller.Synced.apply ⟨hfd, hev⟩ .enableReading

theorem Base.connectDestroyed (h : Base n s) (hc : c < s.world.accepted)
    (hm : w.member = s.world.member) (hacc : w.accepted = s.world.accepted)
    (hu : Unmarked s.world w) (hp : s.world.Polling c) (halive : (s.world.member c).conn.Alive)
    (hs : w.connectDestroyed here c = .ok w') :
    Takes n s w' c (changes (.connection c) (s.world.member c).conn.connectDestroyedCalls ++
      [.call (.remove (.connection c))]) := by
  obtain ⟨conn, effects, hcall, hconn, ht, hu'⟩ := call_touches hs
  have hmark := (mem_note w c c .destroyed .destroyed).mpr (.inr ⟨rfl, rfl⟩)
  have hkeep : .established ∈ (w.note c .destroyed).happened c := by
    rw [mem_note, hu.established]
    exact .inl hp.1
  have ht := (Touches.of_eq hm hacc hu c).trans ((touches_note w c .destroyed).trans ht)
  have hcall : (s.world.member c).conn.connectDestroyed = .ok (conn, effects) := by
    rw [← hm]
    exact hcall
  have htracks := (h.tracks c hc).connectDestroyed hcall
  obtain ⟨hmoves, hnone⟩ := TcpConnection.connectDestroyed_moves halive hcall
  have hsees := h.sees (s.world.member c).loop c
  have hreg := hsees.registered.mpr ⟨hc, rfl, hp⟩
  obtain ⟨p₁, hp₁, hmirror₁, ha₁, hreg₁, hsynced₁, -⟩ :=
    (h.mirror _).moves hmoves (hsees.synced hc rfl) fun _ => hreg
  obtain ⟨p', hp', hmirror, ha, hgone, hfd', hev'⟩ :=
    hmirror₁.remove (hreg₁.mpr hreg) (hsynced₁.isNoneEvent.mpr hnone)
  have hfoldl : (changes (Chan.connection c) (s.world.member c).conn.connectDestroyedCalls ++
      [Turn.call (.remove (Chan.connection c))]).foldlM PollPoller.turn
        (s.poller (s.world.member c).loop) = .ok p' := by
    rw [List.foldlM_append, hp₁, ok_bind]
    simp only [List.foldlM_cons, List.foldlM_nil, PollPoller.turn, PollPoller.step, hp']
    rfl
  have hd := (hu'.destroyed c).mpr hmark
  refine ⟨p', hfoldl, h.touch ht hc (hconn ▸ htracks) (hconn ▸ hmoves.fd) (fun _ => hd)
    (ha₁.trans ha) hmirror ⟨iff_of_false hgone fun hr => hr.2.2.2 hd, fun _ _ => ⟨?_, ?_⟩,
      fun _ _ he => absurd ((hu'.established c).mpr hkeep) he⟩⟩
  · rw [hfd', hsynced₁.fd, hconn]
  · rw [hev', hsynced₁.events, hconn]

-- ---------------------------------------------------------------------------
-- Steps that reach no poller
-- ---------------------------------------------------------------------------

theorem Sees.still (h : Sees w l p c) (hp : p.Still p') (hm : w'.member = w.member)
    (ha : w'.accepted = w.accepted) (hu : Unmarked w w') : Sees w' l p' c := by
  refine ⟨?_, fun hc hl => ?_, fun hc hl he => ?_⟩
  · rw [hp.registered, h.registered, hm, ha, Polling, Polling, hu.established, hu.destroyed]
  · rw [ha] at hc
    rw [hm] at hl ⊢
    obtain ⟨hfd, hev⟩ := h.synced hc hl
    exact ⟨(hp.fd _).trans hfd, (hp.events _).trans hev⟩
  · rw [ha] at hc
    rw [hm] at hl
    rw [hp.index]
    exact h.fresh hc hl (mt (hu.established c).mpr he)

theorem Base.still (h : Base n s) (hp : (s.poller l).Still p') (hmirror : p'.Mirror)
    (hm : w'.member = s.world.member) (ha : w'.accepted = s.world.accepted)
    (hu : Unmarked s.world w') : Base n { world := w', poller := update s.poller l p' } := by
  have hopen : ∀ d, .destroyed ∉ w'.happened d → .destroyed ∉ s.world.happened d :=
    fun d => mt (hu.destroyed d).mpr
  refine ⟨?_, ?_, ?_, ?_, ?_, (forall_update_iff s.poller Mirrors).mpr
    ⟨(h.mirror l).still hp hmirror, fun k _ => h.mirror k⟩, fun l' d => ?_⟩
  · simp only [hm, ha]
    exact h.tracks
  · simp only [hm, ha]
    exact h.nonneg
  · simp only [hm, ha]
    exact fun c hc d hd hne hc' hd' => h.apart c hc d hd hne (hopen c hc') (hopen d hd')
  · simp only [hm, ha]
    exact h.loops
  · simp only [hm, ha]
    intro c hc hc' l' hl ch hch
    rw [fd_update (fun ch _ => hp.fd ch) l' ch hch]
    exact h.system c hc (hopen c hc') l' hl ch hch
  · by_cases hl' : l' = l
    · subst hl'
      simp only [update_self]
      exact (h.sees l' d).still hp hm ha hu
    · simp only [update_of_ne hl']
      exact (h.sees l' d).still ⟨fun _ => rfl, fun _ => rfl, fun _ => rfl, rfl⟩ hm ha hu

theorem Base.quiet (h : Base n s) (hm : w'.member = s.world.member)
    (ha : w'.accepted = s.world.accepted) (hu : Unmarked s.world w') :
    Takes n s w' c [] :=
  ⟨_, rfl, h.still ⟨fun _ => rfl, fun _ => rfl, fun _ => rfl, rfl⟩ (h.mirror _).toMirror hm ha hu⟩

-- ---------------------------------------------------------------------------
-- New connections
-- ---------------------------------------------------------------------------

theorem happened_accepted (hi : Inv w) : w.happened w.accepted = [] :=
  (hi.absent w.accepted (Nat.le_refl _)).happened

theorem Sees.accept (h : Sees w l p d) (ha : p.Apart (.connection w.accepted) p')
    (hd : d ≠ w.accepted) (sockfd : Int) (loop next : Nat) :
    Sees (w.accept sockfd loop next) l p' d := by
  have hne : Chan.connection d ≠ .connection w.accepted := fun he => hd (Chan.connection.inj he)
  have hm : (w.accept sockfd loop next).member d = w.member d := update_of_ne hd ..
  have hlt : d < w.accepted + 1 ↔ d < w.accepted :=
    ⟨fun hlt => Nat.lt_of_le_of_ne (Nat.lt_succ_iff.mp hlt) hd, Nat.lt_succ_of_lt⟩
  refine ⟨?_, fun hc hl => ?_, fun hc hl he => ?_⟩
  · rw [ha.registered _ hne, h.registered, hm, World.accept, hlt]
    rfl
  · rw [hm] at hl ⊢
    obtain ⟨hfd, hev⟩ := h.synced (hlt.mp hc) hl
    exact ⟨(ha.fd _ hne).trans hfd, (ha.events _ hne).trans hev⟩
  · rw [hm] at hl
    exact (ha.fresh _ hne).mpr (h.fresh (hlt.mp hc) hl he)

theorem sees_accepted (hi : Inv w) (hnot : ¬p.Registered (.connection w.accepted))
    (hnonneg : 0 ≤ sockfd)
    (hp : loop = l → p.chan (.connection w.accepted) = { fd := sockfd.toNat }) (next : Nat) :
    Sees (w.accept sockfd loop next) l p w.accepted := by
  have hself := member_accept w sockfd loop next
  have hnil : (w.accept sockfd loop next).happened w.accepted = [] := happened_accepted hi
  have hunborn : .established ∉ (w.accept sockfd loop next).happened w.accepted := by simp [hnil]
  refine ⟨iff_of_false hnot fun hr => hunborn hr.2.2.1, fun _ hl => ?_, fun _ hl _ => ?_⟩
  · rw [hself] at hl ⊢
    have hchan := hp hl
    exact ⟨by rw [hchan, Int.toNat_of_nonneg hnonneg], by rw [hchan]⟩
  · rw [hself] at hl
    simp [hp hl]

theorem forall_member_accept (P : Nat → Member → Prop) {sockfd : Int} {loop next : Nat}
    (hnew : P w.accepted ((w.accept sockfd loop next).member w.accepted))
    (hold : ∀ d < w.accepted, P d (w.member d)) :
    ∀ d < (w.accept sockfd loop next).accepted, P d ((w.accept sockfd loop next).member d) := by
  intro d hd
  by_cases hda : d = w.accepted
  · exact hda ▸ hnew
  · have hm : (w.accept sockfd loop next).member d = w.member d := update_of_ne hda ..
    rw [hm]
    exact hold d (Nat.lt_of_le_of_ne (Nat.lt_succ_iff.mp hd) hda)

theorem Base.apart_accept {loop next : Nat} (h : Base n s)
    (hfds : ∀ c < s.world.accepted, .destroyed ∉ s.world.happened c →
      (s.world.member c).conn.channel.fd ≠ sockfd) :
    ∀ c < (s.world.accept sockfd loop next).accepted,
      ∀ d < (s.world.accept sockfd loop next).accepted, c ≠ d →
      .destroyed ∉ s.world.happened c → .destroyed ∉ s.world.happened d →
      ((s.world.accept sockfd loop next).member c).conn.channel.fd ≠
        ((s.world.accept sockfd loop next).member d).conn.channel.fd := by
  refine forall_member_accept (fun c m => ∀ d < (s.world.accept sockfd loop next).accepted,
    c ≠ d → .destroyed ∉ s.world.happened c → .destroyed ∉ s.world.happened d →
    m.conn.channel.fd ≠ ((s.world.accept sockfd loop next).member d).conn.channel.fd) ?_ ?_
  · refine forall_member_accept (fun d m => s.world.accepted ≠ d →
      .destroyed ∉ s.world.happened s.world.accepted → .destroyed ∉ s.world.happened d →
      ((s.world.accept sockfd loop next).member s.world.accepted).conn.channel.fd ≠
        m.conn.channel.fd) (fun hne => absurd rfl hne) fun d hd _ _ hd' => ?_
    rw [member_accept]
    exact (hfds d hd hd').symm
  · intro c hc
    refine forall_member_accept (fun d m => c ≠ d → .destroyed ∉ s.world.happened c →
      .destroyed ∉ s.world.happened d → (s.world.member c).conn.channel.fd ≠ m.conn.channel.fd)
      (fun _ hc' _ => ?_) (h.apart c hc)
    rw [member_accept]
    exact hfds c hc hc'

theorem Base.accept (h : Base n s) (hi : Inv s.world) (hu : s.Unused sockfd)
    (hn : s.world.server.numLoops = n) (hl : loop ≤ n) (next : Nat) :
    ∃ p₁, PollPoller.turn (s.poller loop)
        (.create (.connection s.world.accepted) sockfd.toNat) = .ok p₁ ∧
      Base n { world := s.world.accept sockfd loop next, poller := update s.poller loop p₁ } := by
  obtain ⟨hnonneg, hfds, hsystem⟩ := hu
  have hnot (l : Nat) : ¬(s.poller l).Registered (.connection s.world.accepted) :=
    fun hr => Nat.lt_irrefl _ ((h.sees l _).registered.mp hr).1
  obtain ⟨p₁, hp₁, hmirror, ha, hnot₁, hchan⟩ := (h.mirror loop).create (hnot loop) sockfd.toNat
  have hself := member_accept s.world sockfd loop next
  have hfd : ∀ l, ∀ ch ∈ own l,
      ((update s.poller loop p₁ l).chan ch).fd = ((s.poller l).chan ch).fd :=
    fd_update fun ch hch => ha.fd ch (ne_connection hch)
  refine ⟨p₁, hp₁, ⟨forall_member_accept (fun _ m => WriteInterest.Tracks m.conn) ?_ h.tracks,
    forall_member_accept (fun _ m => 0 ≤ m.conn.channel.fd) ?_ h.nonneg, h.apart_accept hfds,
    forall_member_accept (fun _ m => m.loop ≤ n) ?_ h.loops,
    forall_member_accept (fun d m => .destroyed ∉ s.world.happened d → ∀ l ≤ n, ∀ ch ∈ own l,
      ((update s.poller loop p₁ l).chan ch).fd ≠ m.conn.channel.fd)
      (fun _ l hl ch hch => ?_) (fun d hd hd' l hl ch hch => ?_),
    (forall_update_iff s.poller Mirrors).mpr ⟨(h.mirror loop).apart ha hmirror,
      fun l _ => h.mirror l⟩, fun l d => ?_⟩⟩
  · rw [hself]
    exact WriteInterest.New.tracks ⟨rfl, rfl, rfl, rfl⟩
  · rw [hself]
    exact hnonneg
  · rw [hself]
    exact hl
  · rw [hself, hfd l ch hch]
    exact hsystem l (by omega) ch hch
  · rw [hfd l ch hch]
    exact h.system d hd hd' l hl ch hch
  · by_cases hda : d = s.world.accepted
    · subst hda
      refine sees_accepted hi ?_ hnonneg (fun hl => ?_) next
      · exact (forall_update_iff s.poller fun _ p =>
          ¬p.Registered (.connection s.world.accepted)).mpr ⟨hnot₁, fun l _ => hnot l⟩ l
      · subst hl
        simp only [update_self]
        exact hchan
    · exact (forall_update_iff s.poller fun l p => Sees (s.world.accept sockfd loop next) l p d).mpr
        ⟨(h.sees loop d).accept ha hda sockfd loop next,
          fun l _ => (h.sees l d).accept (.refl _ _) hda sockfd loop next⟩ l

-- ---------------------------------------------------------------------------
-- Steps of the server
-- ---------------------------------------------------------------------------

theorem dueAt_established (h : .connectEstablished c ∈ dueAt c loop k l) : k = 0 := by
  unfold dueAt at h
  split at h <;> (try split at h) <;> simp_all

theorem Base.dispatch (h : Base n s) (hi : Inv s.world)
    (hen : World.Enabled s.world (.dispatch loop rd wr))
    (hs : s.world.step (.dispatch loop rd wr) = .ok w') :
    Takes n s w' (channelTurns s.world (.dispatch loop rd wr)).1
      (channelTurns s.world (.dispatch loop rd wr)).2 := by
  cases ht : s.world.todo loop with
  | nil => simp only [World.Enabled, ht] at hen
  | cons e rest =>
    obtain ⟨c, cb⟩ := e
    simp only [World.Enabled, ht] at hen
    simp only [World.step, ht] at hs
    simp only [channelTurns, ht]
    obtain ⟨hc, -, hst⟩ := hi.todo loop (c, cb) (by simp [ht])
    obtain ⟨k, hk⟩ := hi.stage hc
    have ha := (hk.alive fun h0 => hst (hk.unborn h0).1).1
    have hmark : Unmarked s.world (s.world.popEvent loop c rest) :=
      unmarked_frame.trans (unmarked_frame.loops s.world _ _) (unmarked_frame.note _ c (by decide))
    exact h.call hi hc (w := s.world.popEvent loop c rest) rfl rfl hmark
      (f := (·.handle rd wr cb)) hs
      fun conn effects hf => ⟨TcpConnection.handle_moves ha hf, (h.tracks c hc).handle hen hf⟩

theorem Base.functor (h : Base n s) (hi : Inv s.world)
    (hen : World.Enabled s.world (.functor loop wr))
    (hs : s.world.step (.functor loop wr) = .ok w') :
    Takes n s w' (channelTurns s.world (.functor loop wr)).1
      (channelTurns s.world (.functor loop wr)).2 := by
  cases hq : s.world.queue loop with
  | nil => simp only [World.Enabled, hq, and_false] at hen
  | cons t rest =>
    simp only [World.step, hq] at hs
    have hrun : (s.world.popTask loop rest).runTask loop wr t = .ok w' := hs
    have hmark : Unmarked s.world (s.world.popTask loop rest) :=
      ⟨fun _ => Iff.rfl, fun _ => Iff.rfl⟩
    have hmem : t ∈ s.world.queue loop := by simp [hq]
    have hc := hi.mem_queue hmem
    obtain ⟨k, hk⟩ := hi.stage hc
    cases t with
    | connectEstablished c =>
      simp only [channelTurns, hq]
      obtain rfl := dueAt_established (hk.mem_due hmem rfl rfl)
      have hnew := mt (Stage.established_mem hk.toPhase).mp (not_not_intro rfl)
      have hopen := mt (Stage.destroyed_mem hk.toPhase).mp (by decide)
      exact h.connectEstablished hc (w := s.world.popTask loop rest) rfl rfl hmark hnew hopen
        (hk.unborn rfl).2.2.1 hrun
    | removeConnectionInLoop c =>
      simp only [channelTurns, hq]
      have hremoved := unmarked_frame.removeConnectionInLoop (by decide) hrun
      obtain ⟨_, -, hrun⟩ := bind_ok.mp hrun
      cases hrun
      exact h.quiet rfl rfl (unmarked_frame.trans hmark hremoved)
    | connectDestroyed c =>
      simp only [channelTurns, hq]
      obtain ⟨rfl, -⟩ := dueAt_destroyed (hk.mem_due hmem rfl rfl)
      have hp : s.world.Polling c := ⟨(Stage.established_mem hk.toPhase).mpr (by decide),
        mt (Stage.destroyed_mem hk.toPhase).mp (by decide)⟩
      exact h.connectDestroyed hc (w := s.world.popTask loop rest) rfl rfl hmark hp
        (hk.alive (by decide)).1 hrun
    | connection c f =>
      simp only [channelTurns, hq]
      simp only [World.Enabled, hq] at hen
      have h0 : k ≠ 0 := fun h0 => (hk.unborn h0).2.2.2 ⟨loop, f, hmem⟩
      have ha := (hk.alive h0).1
      refine h.call hi hc (w := s.world.popTask loop rest) rfl rfl hmark
        (f := (·.runFunctor wr f)) hrun fun conn effects hf =>
        ⟨TcpConnection.runFunctor_moves ha hf, (h.tracks c hc).runFunctor (fun m hm => ?_) hf⟩
      subst hm
      exact hen.2

theorem Base.send (h : Base n s) (hi : Inv s.world)
    (hen : World.Enabled s.world (.send inLoop c data wr))
    (hs : s.world.step (.send inLoop c data wr) = .ok w') :
    Takes n s w' c (channelTurns s.world (.send inLoop c data wr)).2 := by
  obtain ⟨hc, hfit⟩ := hen
  obtain ⟨k, hk⟩ := hi.stage hc
  have halive : (s.world.member c).conn.state = .kConnected → (s.world.member c).conn.Alive := by
    intro hst
    refine (hk.alive fun h0 => ?_).1
    have hconnecting : (s.world.member c).conn.state = .kConnecting := (hk.unborn h0).1
    simp [hconnecting] at hst
  exact h.call hi hc rfl rfl ⟨fun _ => Iff.rfl, fun _ => Iff.rfl⟩
    (f := (·.send inLoop data wr)) hs fun conn effects hf =>
      ⟨TcpConnection.send_moves halive hf, (h.tracks c hc).send hfit hf⟩

theorem Base.shutdown (h : Base n s) (hi : Inv s.world) (hc : c < s.world.accepted)
    (hs : s.world.step (.shutdown inLoop c) = .ok w') : Takes n s w' c [] := by
  show Takes n s w' c (changes (.connection c) [])
  refine h.call hi hc rfl rfl ⟨fun _ => Iff.rfl, fun _ => Iff.rfl⟩
    (f := fun conn => .ok (conn.shutdown inLoop)) hs fun conn effects hf => ?_
  obtain ⟨rfl, -⟩ := Prod.ext_iff.mp (Except.ok.inj hf)
  refine ⟨?_, (h.tracks c hc).shutdown inLoop⟩
  rw [TcpConnection.shutdown_channel]
  exact .idle

theorem Base.retrieve (h : Base n s) (hi : Inv s.world)
    (hen : World.Enabled s.world (.retrieve c len))
    (hs : s.world.step (.retrieve c len) = .ok w') : Takes n s w' c [] := by
  obtain ⟨hc, hlen⟩ := hen
  simp only [World.step] at hs
  show Takes n s w' c (changes (.connection c) [])
  refine h.call hi hc rfl rfl ⟨fun _ => Iff.rfl, fun _ => Iff.rfl⟩ hs
    fun conn effects hf => ?_
  obtain ⟨input, hinput, hf⟩ := bind_ok.mp hf
  cases hf
  exact ⟨.idle, (h.tracks c hc).retrieve hlen hinput⟩

theorem step_ok (hs : s.world.step a = .ok w')
    (ht : (channelTurns s.world a).2.foldlM PollPoller.turn (s.poller l) = .ok p')
    (hl : (w'.member (channelTurns s.world a).1).loop = l) :
    step s (.server a) = .ok { world := w', poller := update s.poller l p' } := by
  simp only [step, hs, ok_mapError, ok_bind, hl, ht]
  rfl

structure Inv (n : Nat) (s : PolledServer) : Prop where
  world : World.Inv s.world
  dealt : World.Dealt n s.world
  base : Base n s

theorem Base.newConnection (h : Base n s) (hi : World.Inv s.world) (hd : World.Dealt n s.world)
    (hu : s.Unused sockfd) (hs : s.world.step (.newConnection sockfd) = .ok w') :
    ∃ s', step s (.server (.newConnection sockfd)) = .ok s' ∧ s'.world = w' ∧ Base n s' := by
  have hs' := hs
  obtain ⟨⟨loop, server⟩, hloop, hs'⟩ := bind_ok.mp hs'
  obtain ⟨hdeal, next, rfl, -⟩ := hd.getNextLoop hloop
  have hle : loop ≤ n := by
    rw [hdeal, deal]
    split
    · exact Nat.zero_le n
    · exact Nat.mod_lt _ (Nat.pos_of_ne_zero ‹_›)
  obtain ⟨p₁, hp₁, hb⟩ := h.accept hi hu hd.numLoops hle next
  have hself : ((s.world.accept sockfd loop next).member s.world.accepted).loop = loop := by
    rw [member_accept]
  have hturns : channelTurns s.world (.newConnection sockfd) = (s.world.accepted,
      .create (.connection s.world.accepted) sockfd.toNat ::
        if loop = 0 then changes (.connection s.world.accepted) [.enableReading] else []) := by
    simp only [channelTurns, hloop]
    split
    · rename_i he
      cases he
      rfl
    · rename_i hne
      rw [if_neg]
      rintro rfl
      exact hne _ rfl
  simp only at hs'
  split at hs'
  · rename_i h0
    subst h0
    have hnil : (s.world.accept sockfd 0 next).happened s.world.accepted = [] :=
      happened_accepted hi
    obtain ⟨p', hp', hb'⟩ := hb.connectEstablished (Nat.lt_succ_self _)
      (w := s.world.accept sockfd 0 next) rfl rfl ⟨fun _ => Iff.rfl, fun _ => Iff.rfl⟩
      (by simp [hnil]) (by simp [hnil]) (by simp only [member_accept]; rfl) hs'
    have hloop' : (w'.member s.world.accepted).loop = 0 :=
      ((undealt_frame.connectEstablished trivial trivial trivial hs').loop _).trans hself
    simp only [hself, update_self, update_idem] at hp' hb'
    refine ⟨_, step_ok (l := 0) hs ?_ (by rw [hturns, hloop']), rfl, hb'⟩
    simp only [hturns, if_true, List.foldlM_cons, hp₁, ok_bind, hp']
  · rename_i h0
    cases hs'
    have hquiet : Takes n
        { world := s.world.accept sockfd loop next, poller := update s.poller loop p₁ }
        ((s.world.accept sockfd loop next).queueInLoop loop (.connectEstablished s.world.accepted))
        s.world.accepted [] :=
      hb.quiet rfl rfl ⟨fun _ => Iff.rfl, fun _ => Iff.rfl⟩
    obtain ⟨p', hp', hb'⟩ := hquiet
    simp only [hself, update_self, update_idem] at hp' hb'
    cases hp'
    refine ⟨_, step_ok hs ?_ hself, rfl, hb'⟩
    simp only [hturns, if_neg h0, List.foldlM_cons, hp₁, ok_bind, List.foldlM_nil]
    rfl

theorem Takes.step (ht : Takes n s w' (channelTurns s.world a).1 (channelTurns s.world a).2)
    (ha : ¬a.IsNew) (hs : s.world.step a = .ok w') :
    ∃ s', PolledServer.step s (.server a) = .ok s' ∧ s'.world = w' ∧ Base n s' := by
  obtain ⟨p', hp', hb⟩ := ht
  exact ⟨_, step_ok hs hp' ((undealt_frame.step ha hs).loop _), rfl, hb⟩

theorem Base.step (h : Base n s) (hi : World.Inv s.world) (hd : World.Dealt n s.world)
    (hen : s.Enabled (.server a)) (hs : s.world.step a = .ok w') :
    ∃ s', PolledServer.step s (.server a) = .ok s' ∧ s'.world = w' ∧ Base n s' := by
  cases a with
  | newConnection sockfd => exact h.newConnection hi hd hen.2 hs
  | poll loop active => exact hen.elim
  | dispatch loop rd wr => exact (h.dispatch hi hen hs).step id hs
  | functor loop wr => exact (h.functor hi hen hs).step id hs
  | send inLoop c data wr => exact (h.send hi hen hs).step id hs
  | shutdown inLoop c => exact Takes.step (h.shutdown hi hen hs) id hs
  | retrieve c len => exact Takes.step (h.retrieve hi hen hs) id hs

-- ---------------------------------------------------------------------------
-- Polling
-- ---------------------------------------------------------------------------

theorem mem_events : e ∈ events p active ↔
    .connection e.1 ∈ active ∧ e.2 = (p.chan (.connection e.1)).revents := by
  obtain ⟨c, revents⟩ := e
  simp only [events, List.mem_filterMap]
  constructor
  · rintro ⟨ch, hch, he⟩
    cases ch with
    | connection d =>
      cases he
      exact ⟨hch, rfl⟩
    | timerfd | wakeup | acceptor => cases he
  · rintro ⟨hc, rfl⟩
    exact ⟨_, hc, rfl⟩

theorem events_nodup (h : active.Nodup) : ((events p active).map Prod.fst).Nodup := by
  induction active with
  | nil => exact .nil
  | cons ch active ih =>
    obtain ⟨hch, hactive⟩ := List.nodup_cons.mp h
    cases ch with
    | connection c =>
      refine List.nodup_cons.mpr ⟨fun hc => ?_, ih hactive⟩
      obtain ⟨e, he, rfl⟩ := List.mem_map.mp hc
      exact hch (mem_events.mp he).1
    | timerfd | wakeup | acceptor => exact ih hactive

theorem Base.pollLoop (h : Base n s) (htodo : s.world.todo loop = [])
    (hpoll : (s.poller loop).poll numEvents revents [] = .ok (p', active)) (hmirror : p'.Mirror)
    (hstill : (s.poller loop).Still p') (hnodup : active.Nodup)
    (hactive : ∀ i ∈ active, (s.poller loop).Registered i ∧
      ¬((s.poller loop).chan i).isNoneEvent ∧ World.Plausible (p'.chan i).revents) :
    ∃ s', s.pollLoop loop numEvents revents = .ok s' ∧
      World.Enabled s.world (.poll loop (events p' active)) ∧
      s.world.step (.poll loop (events p' active)) = .ok s'.world ∧ Base n s' := by
  obtain ⟨w', hw⟩ : ∃ w', s.world.step (.poll loop (events p' active)) = .ok w' := ⟨_, rfl⟩
  have hquiet : w'.member = s.world.member ∧ w'.accepted = s.world.accepted ∧
      Unmarked s.world w' := by
    cases hw
    exact ⟨rfl, rfl, fun _ => Iff.rfl, fun _ => Iff.rfl⟩
  obtain ⟨hm, hacc, hu⟩ := hquiet
  refine ⟨{ world := w', poller := update s.poller loop p' }, ?_,
    ⟨htodo, events_nodup hnodup, ?_⟩, hw, h.still hstill hmirror hm hacc hu⟩
  · simp only [PolledServer.pollLoop, hpoll, ok_mapError, ok_bind, hw]
    rfl
  · intro e he
    obtain ⟨hmem, hown⟩ := mem_events.mp he
    obtain ⟨hreg, hsome, hplausible⟩ := hactive _ hmem
    obtain ⟨hc, hloop, -⟩ := (h.sees loop e.1).registered.mp hreg
    exact ⟨hc, hloop, mt ((h.sees loop e.1).synced hc hloop).isNoneEvent.mpr hsome,
      hown ▸ hplausible⟩

theorem Base.poll (h : Base n s) (hen : s.Enabled (.poll loop numEvents revents)) :
    ∃ s' active, s.pollLoop loop numEvents revents = .ok s' ∧
      World.Enabled s.world (.poll loop active) ∧
      s.world.step (.poll loop active) = .ok s'.world ∧ Base n s' := by
  obtain ⟨htodo, ha, hplausible⟩ := hen
  obtain ⟨p', active, hpoll, hmirror, hstill, hnodup, hactive⟩ := (h.mirror loop).poll ha
  obtain ⟨s', hs, hen', hw, hb⟩ := h.pollLoop htodo hpoll hmirror hstill hnodup fun i hi => by
    obtain ⟨hreg, hsome, r, hr, hrev⟩ := hactive i hi
    exact ⟨hreg, hsome, hrev ▸ hplausible r hr⟩
  exact ⟨s', events p' active, hs, hen', hw, hb⟩

theorem Base.pollError (h : Base n s) (hen : s.Enabled (.pollError loop revents)) :
    ∃ s', s.pollLoop loop (-1) revents = .ok s' ∧ World.Enabled s.world (.poll loop []) ∧
      s.world.step (.poll loop []) = .ok s'.world ∧ Base n s' :=
  h.pollLoop hen.1 (if_neg (by decide)) ((h.mirror loop).answer hen.2)
    ⟨fun _ => rfl, fun _ => rfl, fun _ => rfl, rfl⟩ .nil nofun

-- ---------------------------------------------------------------------------
-- Runs
-- ---------------------------------------------------------------------------

theorem server_enabled (h : s.Enabled (.server a)) : World.machine.enabled s.world a := by
  cases a with
  | newConnection sockfd => exact h.1
  | poll loop active => exact h.elim
  | _ => exact h

/-- The server with pollers takes each of its steps, as a server does. -/
theorem Inv.step (h : Inv n s) (hen : s.Enabled a) :
    ∃ s' b, PolledServer.step s a = .ok s' ∧ World.machine.enabled s.world b ∧
      World.machine.step s.world b = .ok s'.world ∧ Inv n s' := by
  have hkeep : ∀ {b} {s' : PolledServer}, World.machine.enabled s.world b →
      World.machine.step s.world b = .ok s'.world → Base n s' → Inv n s' :=
    fun hen hw hb => ⟨inv_safe.keeps h.world hen hw, dealt_keeps n h.dealt hen hw, hb⟩
  cases a with
  | poll loop numEvents revents =>
    obtain ⟨s', active, hs, hen', hw, hb⟩ := h.base.poll hen
    exact ⟨s', .poll loop active, hs, hen', hw, hkeep (b := .poll loop active) hen' hw hb⟩
  | pollError loop revents =>
    obtain ⟨s', hs, hen', hw, hb⟩ := h.base.pollError hen
    exact ⟨s', .poll loop [], hs, hen', hw, hkeep (b := .poll loop []) hen' hw hb⟩
  | server a =>
    have hen' := server_enabled hen
    obtain ⟨w', hw, -⟩ := inv_safe h.world hen'
    obtain ⟨s', hs, rfl, hb⟩ := h.base.step h.world h.dealt hen hw
    exact ⟨s', a, hs, hen', hw, hkeep hen' hw hb⟩

theorem setup_ok {chs : List Chan} (hch : ∀ ch ∈ chs, ch ∈ own l) (hone : chs.Nodup)
    (h : Mirrors l p)
    (hnone : ∀ c, ¬p.Registered (.connection c))
    (hnew : ∀ ch ∈ chs, (p.chan ch).index < 0 ∧ (p.chan ch).events = 0)
    (hs : (chs.map fun ch => Turn.call (.change ch .enableReading)).foldlM PollPoller.turn p =
      .ok p') : Mirrors l p' ∧ ∀ c, ¬p'.Registered (.connection c) := by
  induction chs generalizing p with
  | nil =>
    cases hs
    exact ⟨h, hnone⟩
  | cons ch chs ih =>
    obtain ⟨p₁, hp₁, hs⟩ := bind_ok.mp hs
    obtain ⟨hown, hchs⟩ := List.forall_mem_cons.mp hch
    obtain ⟨⟨hlt, hev⟩, hrest⟩ := List.forall_mem_cons.mp hnew
    obtain ⟨hnot, hone⟩ := List.nodup_cons.mp hone
    have hchange : p.change ch .enableReading = .ok p₁ := mapError_ok.mp hp₁
    have hfree : p.channels.find? (p.chan ch).fd = none := by
      rcases PollPoller.change_inv hchange with ⟨-, hfree, -⟩ | ⟨-, n, -, hn, -⟩
      · exact hfree
      · rw [hn] at hlt
        exact absurd hlt (Int.not_lt.mpr (Int.natCast_nonneg n))
    have hsome : ¬((p.chan ch).apply .enableReading).isNoneEvent :=
      (Channel.enableReading_isReading _).not_isNoneEvent
    obtain ⟨p₂, hp₂, hmirror, ha, -, -, -⟩ := h.add hlt (.inl hev) hsome hfree
    obtain rfl := Except.ok.inj (hchange.symm.trans hp₂)
    refine ih hchs hone ⟨hmirror, fun j hj => ?_⟩ (fun c => ?_) (fun j hj => ?_) hs
    · by_cases hjc : j = ch
      · exact .inl (hjc ▸ hown)
      · exact h.mine j ((ha.registered j hjc).mp hj)
    · rw [ha.registered _ (ne_connection hown).symm]
      exact hnone c
    · have hjc : j ≠ ch := fun he => hnot (he ▸ hj)
      rw [ha.fresh j hjc, ha.events j hjc]
      exact hrest j hj

theorem start_inv {name hostport : Bytes} (h : Started s name hostport n wc) : Inv n s := by
  have hpoller : ∀ l, Mirrors l (s.poller l) ∧ ∀ c, ¬(s.poller l).Registered (.connection c) := by
    intro l
    obtain ⟨fd, hs⟩ := h.poller l
    refine setup_ok (fun _ => id) ?_ ⟨PollPoller.start_mirror fd, nofun⟩ nofun ?_ hs
    · cases l <;> simp [own]
    · intro ch _
      exact ⟨Int.negSucc_lt_zero 0, rfl⟩
  have haccepted : s.world.accepted = 0 := by
    rw [h.world]
    rfl
  have habsent (c : Nat) : ¬c < s.world.accepted := haccepted ▸ Nat.not_lt_zero c
  refine ⟨?_, ?_, ⟨fun c hc => absurd hc (habsent c), fun c hc => absurd hc (habsent c),
    fun c hc => absurd hc (habsent c), fun c hc => absurd hc (habsent c),
    fun c hc => absurd hc (habsent c), fun l => (hpoller l).1, fun l c =>
    ⟨iff_of_false ((hpoller l).2 c) fun hr => habsent c hr.1, fun hc => absurd hc (habsent c),
      fun hc => absurd hc (habsent c)⟩⟩⟩
  · rw [h.world]
    exact World.start_inv name hostport n wc
  · rw [h.world]
    exact ⟨rfl, fun _ => (Nat.zero_mod n).symm, nofun⟩

theorem events_of_reading {c : Channel} (hp : c.Plain) (hr : c.isReading) :
    c.events = Channel.kReadEvent ||| if c.isWriting then Channel.kWriteEvent else 0 := by
  rcases hp with h | h | h | h <;> simp only [Channel.isReading, Channel.isWriting, h] at hr ⊢ <;>
    revert hr <;> decide

/-- What the poller of a polled connection asks the kernel for. -/
theorem Inv.entry (h : Inv n s) (hc : c < s.world.accepted) (hp : s.world.Polling c) :
    ∃ pfd, PollPoller.At (s.poller (s.world.member c).loop) (.connection c) pfd ∧
      ((s.world.member c).conn.state = .kDisconnected → pfd.fd < 0) ∧
      ((s.world.member c).conn.state ≠ .kDisconnected →
        pfd.fd = (s.world.member c).conn.channel.fd ∧
        pfd.events.signExtend 32 = Channel.kReadEvent |||
          if (s.world.member c).conn.outputBuffer.readable = [] then 0
          else Channel.kWriteEvent) := by
  have hsees := h.base.sees (s.world.member c).loop c
  have hreg := hsees.registered.mpr ⟨hc, rfl, hp⟩
  have hsynced := hsees.synced hc rfl
  obtain ⟨pfd, hat, hs⟩ := (h.base.mirror _).shows _ hreg
  have hplain := (h.base.mirror _).plain _ hreg
  obtain ⟨k, hk⟩ := h.world.stage hc
  have ha : (s.world.member c).conn.Alive :=
    (hk.alive ((Stage.established_mem hk.toPhase).mp hp.1)).1
  have htracks := h.base.tracks c hc
  have hfd : pfd.fd = if (s.world.member c).conn.channel.isNoneEvent then
      -(s.world.member c).conn.channel.fd - 1 else (s.world.member c).conn.channel.fd := by
    rw [hs.fd, hsynced.fd]
    simp only [hsynced.isNoneEvent]
  refine ⟨pfd, hat, fun hclosed => ?_, fun hopen => ?_⟩
  · rw [hfd, if_pos (ha.closed hclosed)]
    have hnonneg := h.base.nonneg c hc
    omega
  · have hreading := ha.reading hopen
    have hplain' : (s.world.member c).conn.channel.Plain := by
      rwa [Channel.Plain, ← hsynced.events]
    rw [hfd, if_neg hreading.not_isNoneEvent, hs.events, hsynced.events,
      events_of_reading hplain' hreading]
    simp only [htracks.interest hopen, ne_eq, ite_not, and_self]

/-- In every run of a live server with its pollers, distinct names, atomic calls and
descriptors from `accept` that are not in use: the server goes through a run of its own;
a poller has the connections of its loop that are established and not destroyed; the
kernel is asked to look at those that are not disconnected, to read, and to write while
there is output; and no assertion fails. -/
theorem polled {name hostport : Bytes} (hs : Started s₀ name hostport n wc)
    (h : machine.Run s₀ labels s) :
    (∃ as, World.machine.Run (World.start name hostport n wc) as s.world) ∧
    (∀ l c, (s.poller l).Registered (.connection c) ↔
      c < s.world.accepted ∧ (s.world.member c).loop = l ∧ s.world.Polling c) ∧
    (∀ c < s.world.accepted, s.world.Polling c →
      ∃ pfd, PollPoller.At (s.poller (s.world.member c).loop) (.connection c) pfd ∧
        ((s.world.member c).conn.state = .kDisconnected → pfd.fd < 0) ∧
        ((s.world.member c).conn.state ≠ .kDisconnected →
          pfd.fd = (s.world.member c).conn.channel.fd ∧
          pfd.events.signExtend 32 = Channel.kReadEvent |||
            if (s.world.member c).conn.outputBuffer.readable = [] then 0
            else Channel.kWriteEvent)) ∧
    machine.NoFault s := by
  have hinv := start_inv hs
  obtain ⟨as, w, hw, hinv, rfl⟩ := h.simulates (N := World.machine)
    (R := fun s w => Inv n s ∧ s.world = w) (by
      rintro s w a s' ⟨hi, rfl⟩ hen hs
      obtain ⟨t, b, ht, hen', hw, hi'⟩ := hi.step hen
      obtain rfl := Except.ok.inj (hs.symm.trans ht)
      exact ⟨[b], _, .cons hen' hw .nil, hi', rfl⟩) ⟨hinv, hs.world⟩
  refine ⟨⟨as, hw⟩, fun l c => (hinv.base.sees l c).registered, fun c hc hp => hinv.entry hc hp,
    fun a hen => ?_⟩
  obtain ⟨t, -, ht, -⟩ := hinv.step hen
  exact ⟨t, ht⟩

def echoFds : Nat → Chan → Nat
  | 0, .acceptor => 3
  | 0, .timerfd => 4
  | 0, .wakeup => 5
  | _ + 1, .timerfd => 6
  | _ + 1, .wakeup => 7
  | _, _ => 0

/-- A server with one loop in its pool. -/
def echo : PolledServer where
  world := World.start (ascii "echo") (ascii "127.0.0.1:2000") 1 false
  poller l :=
    let p := PollPoller.start fun ch => echoFds l ch
    ((setup l).foldlM PollPoller.turn p).toOption.getD p

theorem echo_started : Started echo (ascii "echo") (ascii "127.0.0.1:2000") 1 false :=
  ⟨rfl, fun l => ⟨echoFds l, by cases l <;> rfl⟩⟩

/-- A connection comes and half of a reply stays in its output buffer. -/
theorem polled_halfSent : ∃ s, machine.Run echo
      [.server (.newConnection 8), .server (.functor 1 (.accepted 0)), .poll 1 1 [0, 0, 1],
        .server (.dispatch 1 (.data (ascii "hi")) (.accepted 0)),
        .server (.send true 0 (ascii "hi") (.accepted 1))] s ∧
    ∃ pfd, PollPoller.At (s.poller 1) (.connection 0) pfd ∧ pfd.fd = 8 ∧
      pfd.events.signExtend 32 = Channel.kReadEvent ||| Channel.kWriteEvent := by
  have hrun : ∃ s, machine.Run echo
      [.server (.newConnection 8), .server (.functor 1 (.accepted 0)), .poll 1 1 [0, 0, 1],
        .server (.dispatch 1 (.data (ascii "hi")) (.accepted 0)),
        .server (.send true 0 (ascii "hi") (.accepted 1))] s ∧
      (0 < s.world.accepted ∧ .established ∈ s.world.happened 0 ∧
        .destroyed ∉ s.world.happened 0) ∧
      (s.world.member 0).loop = 1 ∧ (s.world.member 0).conn.state = .kConnected ∧
      (s.world.member 0).conn.channel.fd = 8 ∧
      (s.world.member 0).conn.outputBuffer.readable = ascii "i" :=
    Machine.exists_run (by decide +kernel)
  obtain ⟨s, hs, ⟨hacc, hest, hopen⟩, hloop, hstate, hfd, hout⟩ := hrun
  obtain ⟨pfd, hat, -, hopen⟩ := (polled echo_started hs).2.2.1 0 hacc ⟨hest, hopen⟩
  obtain ⟨hpfd, hev⟩ := hopen (by simp [hstate])
  rw [hloop] at hat
  rw [hout] at hev
  exact ⟨s, hs, pfd, hat, hpfd.trans hfd, hev⟩

end PolledServer

end Muduo
