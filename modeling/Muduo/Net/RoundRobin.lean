import Muduo.Net.Frames
import Muduo.Net.Lifetimes
import Mathlib.Data.Int.CardIntervalMod

/-!
# Connections and their loops

`getNextLoop` deals the connections out to the loops of the pool in turn. All
that is done with a connection afterwards is done on its loop, apart from taking
it out of the registry.
-/

namespace Muduo.World

open Lib Function TcpServer

variable {w w' : World}

-- ---------------------------------------------------------------------------
-- Dealing
-- ---------------------------------------------------------------------------

/-- The loop of the `c`-th connection when there are `n` loops in the pool. -/
def deal (n c : Nat) : Nat := if n = 0 then 0 else c % n + 1

structure Dealt (n : Nat) (w : World) : Prop where
  numLoops : w.server.numLoops = n
  next : n ≠ 0 → w.server.next = w.accepted % n
  loop : ∀ c < w.accepted, (w.member c).loop = deal n c

structure Undealt (w w' : World) : Prop where
  numLoops : w'.server.numLoops = w.server.numLoops
  next : w'.server.next = w.server.next
  accepted : w'.accepted = w.accepted
  loop : ∀ c, (w'.member c).loop = (w.member c).loop

theorem undealt_frame : Frame (fun _ => True) Undealt where
  trans h h' := ⟨h'.numLoops.trans h.numLoops, h'.next.trans h.next,
    h'.accepted.trans h.accepted, fun c => (h'.loop c).trans (h.loop c)⟩
  setConn w c conn := ⟨rfl, rfl, rfl, (grown_setConn (P := fun _ _ => True) w c conn).loop⟩
  note _ _ _ _ := ⟨rfl, rfl, rfl, fun _ => rfl⟩
  loops _ _ _ := ⟨rfl, rfl, rfl, fun _ => rfl⟩
  erase _ _ := ⟨rfl, rfl, rfl, fun _ => rfl⟩

theorem Dealt.undealt (h : Dealt n w) (hu : Undealt w w') : Dealt n w' := by
  refine ⟨hu.numLoops.trans h.numLoops, fun hn => ?_, fun c hc => ?_⟩
  · rw [hu.next, hu.accepted]
    exact h.next hn
  · rw [hu.loop]
    exact h.loop c (hu.accepted ▸ hc)

theorem succ_mod (a : Nat) (hn : n ≠ 0) :
    (if a % n + 1 ≥ n then 0 else a % n + 1) = (a + 1) % n := by
  have hlt : a % n < n := Nat.mod_lt a (Nat.pos_of_ne_zero hn)
  rw [← Nat.mod_add_mod]
  split
  · have heq : a % n + 1 = n := by omega
    rw [heq, Nat.mod_self]
  · exact (Nat.mod_eq_of_lt (by omega)).symm

theorem Dealt.getNextLoop {loop : Nat} (h : Dealt n w) (hs : w.server.getNextLoop = .ok (loop, s)) :
    loop = deal n w.accepted ∧
      ∃ next, s = { w.server with next } ∧ (n ≠ 0 → next = (w.accepted + 1) % n) := by
  unfold TcpServer.getNextLoop at hs
  split at hs
  · rename_i h0
    rw [h.numLoops] at h0
    cases hs
    exact ⟨(if_pos h0).symm, _, rfl, fun hn => absurd h0 hn⟩
  · rename_i h0
    rw [h.numLoops] at h0
    obtain ⟨_, -, hs⟩ := bind_ok.mp hs
    cases hs
    refine ⟨?_, _, rfl, fun hn => ?_⟩
    · rw [deal, if_neg h0, h.next h0]
    · rw [h.numLoops, h.next hn]
      exact succ_mod w.accepted hn

theorem Dealt.accept {next : Nat} (h : Dealt n w) (sockfd : Int)
    (hnext : n ≠ 0 → next = (w.accepted + 1) % n) :
    Dealt n (w.accept sockfd (deal n w.accepted) next) := by
  refine ⟨h.numLoops, hnext, fun c hc => ?_⟩
  rcases Nat.lt_succ_iff_lt_or_eq.mp hc with hlt | rfl
  · have hm : (w.accept sockfd (deal n w.accepted) next).member c = w.member c :=
      update_of_ne (Nat.ne_of_lt hlt) ..
    rw [hm]
    exact h.loop c hlt
  · rw [member_accept]

theorem Dealt.newConnection (h : Dealt n w) (hs : w.newConnection sockfd = .ok w') :
    Dealt n w' := by
  obtain ⟨⟨loop, s⟩, hloop, hs⟩ := bind_ok.mp hs
  obtain ⟨rfl, next, rfl, hnext⟩ := h.getNextLoop hloop
  have hacc := h.accept sockfd hnext
  simp only at hs
  split at hs
  · exact hacc.undealt (undealt_frame.connectEstablished trivial trivial trivial hs)
  · cases hs
    exact hacc.undealt (undealt_frame.queueInLoop _ _ _)

theorem dealt_keeps (n : Nat) : machine.Keeps (Dealt n) := by
  intro w a w' h _ hs
  by_cases ha : a.IsNew
  · cases a with
    | newConnection sockfd => exact h.newConnection hs
    | _ => exact absurd ha id
  · exact h.undealt (undealt_frame.step ha hs)

-- ---------------------------------------------------------------------------
-- Functors
-- ---------------------------------------------------------------------------

/-- A functor that a connection has queued may stand in the queue of `l`. -/
def Homely (w : World) (l : Nat) (t : Task) : Prop :=
  ∀ c f, t = .connection c f → l = (w.member c).loop

/-- What the connections have queued is in the queues of their loops. -/
def Settled (w : World) : Prop := ∀ l, ∀ t ∈ w.queue l, w.Homely l t

theorem Settled.grown (h : Settled w) (hg : Grown w.Homely w w') : Settled w' := by
  intro l t ht c f heq
  rw [hg.loop]
  obtain ⟨added, hq, hadded⟩ := hg.queue l
  rw [hq] at ht
  rcases List.mem_append.mp ht with ht | ht
  · exact h l t ht c f heq
  · exact hadded t ht c f heq

theorem Settled.call (h : Settled w) (hs : w.call here c f = .ok w') : Settled w' := by
  refine h.grown (call_grown hs fun conn effects _ => ⟨fun g _ d f heq => ?_, fun _ => ?_⟩)
  · cases heq
    rfl
  · exact ⟨nofun, fun _ => nofun⟩

theorem Settled.popTask (h : Settled w) (hq : w.queue loop = t :: rest) :
    Settled (w.popTask loop rest) := fun l t' ht => h l t' (mem_popTask hq ht)

theorem Settled.note (h : Settled w) (c : Nat) (m : Milestone) : Settled (w.note c m) := h

theorem Settled.accept (h : Settled w) (hi : Inv w) (sockfd : Int) (loop n : Nat) :
    Settled (w.accept sockfd loop n) := by
  rintro l t ht c f rfl
  have hc : c < w.accepted := hi.mem_queue ht
  rw [h l _ ht c f rfl]
  simp [World.accept, Nat.ne_of_lt hc]

theorem Settled.step (h : Settled w) (hi : Inv w) (hs : World.step w a = .ok w') : Settled w' := by
  cases a with
  | newConnection sockfd =>
    obtain ⟨⟨loop, s⟩, hloop, hs⟩ := bind_ok.mp hs
    obtain ⟨loop', n, hloop', -⟩ := getNextLoop_ok hi.next
    rw [hloop'] at hloop
    cases hloop
    have hacc := h.accept hi sockfd loop n
    simp only at hs
    split at hs
    · exact (hacc.note w.accepted .established).call (f := TcpConnection.connectEstablished) hs
    · cases hs
      exact hacc.grown (grown_queueInLoop _ (by rintro _ _ ⟨⟩))
  | poll loop active =>
    cases hs
    exact h
  | dispatch loop rd wr =>
    cases ht : w.todo loop with
    | nil =>
      simp only [World.step, ht] at hs
      cases hs
      exact h
    | cons e rest =>
      obtain ⟨c, cb⟩ := e
      simp only [World.step, ht] at hs
      have hpop : Settled (w.popEvent loop c rest) := h
      exact hpop.call (f := (·.handle rd wr cb)) hs
  | functor loop wr =>
    cases hq : w.queue loop with
    | nil =>
      simp only [World.step, hq] at hs
      cases hs
      exact h
    | cons t rest =>
      simp only [World.step, hq] at hs
      have hpop := h.popTask hq
      cases t with
      | connectEstablished c =>
        exact (hpop.note c .established).call (f := TcpConnection.connectEstablished) hs
      | removeConnectionInLoop c =>
        exact hpop.grown (removeConnectionInLoop_grown hs (by rintro _ _ _ ⟨⟩))
      | connectDestroyed c =>
        exact (hpop.note c .destroyed).call (f := TcpConnection.connectDestroyed) hs
      | connection c f => exact hpop.call (f := (·.runFunctor wr f)) hs
  | send inLoop c data wr => exact h.call (f := (·.send inLoop data wr)) hs
  | shutdown inLoop c => exact h.call (f := fun conn => .ok (conn.shutdown inLoop)) hs
  | retrieve c len =>
    unfold World.step at hs
    exact h.call hs

theorem settled_keeps : machine.Keeps fun w => Inv w ∧ Settled w :=
  fun h hen hs => ⟨inv_safe.keeps h.1 hen hs, h.2.step h.1 hs⟩

def home (n : Nat) : Task → Nat
  | .removeConnectionInLoop _ => 0
  | t => deal n t.conn

theorem mem_dueAt (h : t ∈ dueAt c loop k l) :
    l = match t with
      | .removeConnectionInLoop _ => 0
      | _ => loop := by
  unfold dueAt at h
  split at h
  case h_4 => cases h
  all_goals
    split at h
    · cases List.mem_singleton.mp h
      assumption
    · cases h

theorem home_of_mem (hi : Inv w) (hd : Dealt n w) (h : Settled w) (ht : t ∈ w.queue l) :
    l = home n t := by
  have hc := hi.mem_queue ht
  obtain ⟨k, hk⟩ := hi.stage hc
  have hloop := hd.loop t.conn hc
  cases t with
  | connection c f => exact (h l _ ht c f rfl).trans hloop
  | removeConnectionInLoop c => exact mem_dueAt (hk.mem_due ht rfl rfl)
  | connectEstablished c | connectDestroyed c =>
    exact (mem_dueAt (hk.mem_due ht rfl rfl)).trans hloop

-- ---------------------------------------------------------------------------
-- Runs
-- ---------------------------------------------------------------------------

/-- In every run of a live server with `n` loops in its pool, distinct names and atomic
calls: the connections go to the loops in turn, so any two loops have had the same
number of them or one more; every functor of a connection is in the queue of its loop,
or of the base loop if it takes the connection out of the registry; and so are its
events. -/
theorem dealt {name hostport : Bytes} {wc : Bool}
    (h : machine.Run (start name hostport n wc) labels w) :
    (∀ c < w.accepted, (w.member c).loop = deal n c) ∧
    (∀ i < n, Nat.count (fun c => (w.member c).loop = i + 1) w.accepted =
      w.accepted / n + if i < w.accepted % n then 1 else 0) ∧
    (∀ l, ∀ t ∈ w.queue l, l = home n t) ∧ ∀ l, ∀ e ∈ w.todo l, l = deal n e.1 := by
  have hdealt := h.keeps (dealt_keeps n) ⟨rfl, fun _ => (Nat.zero_mod n).symm, nofun⟩
  obtain ⟨hinv, hsettled⟩ := h.keeps settled_keeps ⟨start_inv .., nofun⟩
  refine ⟨hdealt.loop, fun i hi => ?_, fun l t ht => home_of_mem hinv hdealt hsettled ht,
    fun l e he => ?_⟩
  · have hpos : 0 < n := Nat.zero_lt_of_lt hi
    have hiff (c : Nat) (hc : c < w.accepted) : (w.member c).loop = i + 1 ↔ c ≡ i [MOD n] := by
      rw [hdealt.loop c hc, deal, if_neg (Nat.ne_of_gt hpos), Nat.succ_inj, Nat.ModEq,
        Nat.mod_eq_of_lt hi]
    calc
      Nat.count (fun c => (w.member c).loop = i + 1) w.accepted
      _ = Nat.count (· ≡ i [MOD n]) w.accepted :=
        Nat.le_antisymm (Nat.count_mono_left fun c hc => (hiff c hc).mp)
          (Nat.count_mono_left fun c hc => (hiff c hc).mpr)
      _ = w.accepted / n + if i % n < w.accepted % n then 1 else 0 :=
        Nat.count_modEq_card _ hpos i
      _ = _ := by rw [Nat.mod_eq_of_lt hi]
  · obtain ⟨hc, hloop, -⟩ := hinv.todo l e he
    rw [← hloop]
    exact hdealt.loop e.1 hc

/-- Three connections for two loops; the last one is in the queue of the first
loop. -/
theorem dealt_three : ∃ w : World,
    machine.Run (start (ascii "echo") (ascii "127.0.0.1:2000") 2 false)
      [.newConnection 7, .newConnection 8, .functor 1 (.accepted 0), .newConnection 9] w ∧
    w.queue 1 = [.connectEstablished 2] ∧
    Nat.count (fun c => (w.member c).loop = 1) 3 = 2 ∧
    Nat.count (fun c => (w.member c).loop = 2) 3 = 1 := by
  have hrun : ∃ w, machine.Run (start (ascii "echo") (ascii "127.0.0.1:2000") 2 false)
      [.newConnection 7, .newConnection 8, .functor 1 (.accepted 0), .newConnection 9] w ∧
      w.accepted = 3 ∧ w.queue 1 = [.connectEstablished 2] :=
    Machine.exists_run (by decide +kernel)
  obtain ⟨w, hw, hacc, hq⟩ := hrun
  have hcount := (dealt hw).2.1
  rw [hacc] at hcount
  exact ⟨w, hw, hq, hcount 0 (by decide), hcount 1 (by decide)⟩

end Muduo.World
