import Muduo.Net.RoundRobin
import Mathlib.Algebra.BigOperators.Group.Finset.Piecewise

/-!
# Coming to rest

What the loops have to do gives them little more to do, and that soon ends: with
nothing new from `poll` or the user they are at rest after a number of steps that is
known beforehand, whatever the kernel answers. Then no connection is halfway out.
-/

namespace Muduo

open Lib Function TcpServer

-- ---------------------------------------------------------------------------
-- Loads
-- ---------------------------------------------------------------------------

/-- How many steps a functor may lead to, with its own. -/
def TcpConnection.Functor.load : Functor → Nat
  | .sendInLoop _ => 3
  | .shutdownInLoop => 1
  | .writeComplete => 1
  | .highWaterMark _ => 1

def TcpConnection.Effect.load : Effect → Nat
  | .queueInLoop f => f.load
  | .closeCallback => 2
  | _ => 0

def TcpServer.Task.load : Task → Nat
  | .connectEstablished _ => 1
  | .removeConnectionInLoop _ => 2
  | .connectDestroyed _ => 1
  | .connection _ f => f.load

namespace TcpConnection

variable {c c' : TcpConnection} {effects : List Effect}

def loadOf (effects : List Effect) : Nat := (effects.map Effect.load).sum

@[simp] theorem loadOf_nil : loadOf [] = 0 := rfl

@[simp] theorem loadOf_cons (e : Effect) (effects : List Effect) :
    loadOf (e :: effects) = e.load + loadOf effects := by
  simp [loadOf]

@[simp] theorem loadOf_append (effects more : List Effect) :
    loadOf (effects ++ more) = loadOf effects + loadOf more := by
  simp [loadOf]

theorem crossing_load (c : TcpConnection) (remaining : Nat) :
    loadOf (c.crossing remaining) ≤ 1 := by
  unfold crossing
  simp only
  split <;> simp [Effect.load, Functor.load]

theorem writeDirectly_load (c : TcpConnection) (data : Bytes) (r : WriteResult) :
    loadOf (c.writeDirectly data r).effects ≤ 1 := by
  unfold writeDirectly
  split
  · cases r with
    | accepted n =>
      simp only
      split <;> simp [Effect.load, Functor.load]
    | error errno => simp [Effect.load]
  · simp

theorem sendInLoop_load (hs : c.sendInLoop data r = .ok (c', effects)) : loadOf effects ≤ 2 := by
  have hdirect := c.writeDirectly_load data r
  unfold sendInLoop at hs
  split at hs
  · cases hs
    simp
  · simp only [bind_ok, ensure_ok] at hs
    obtain ⟨-, -, hs⟩ := hs
    split at hs
    · obtain ⟨out, -, hs⟩ := bind_ok.mp hs
      cases hs
      have hcrossing := c.crossing_load (data.length - (c.writeDirectly data r).nwrote)
      rw [loadOf_append]
      omega
    · cases hs
      omega

theorem shutdownInLoop_load (c : TcpConnection) : loadOf c.shutdownInLoop = 0 := by
  unfold shutdownInLoop
  split <;> rfl

theorem handleClose_load (hs : c.handleClose = .ok (c', effects)) : loadOf effects = 2 := by
  obtain ⟨_, -, hs⟩ := bind_ok.mp hs
  cases hs
  rfl

theorem handleRead_load (hs : c.handleRead r = .ok (c', effects)) : loadOf effects ≤ 2 := by
  obtain ⟨⟨input, n, saved⟩, -, hs⟩ := bind_ok.mp hs
  simp only at hs
  split at hs
  · cases hs
    simp [Effect.load]
  · split at hs
    · exact (handleClose_load hs).le
    · cases hs
      simp

theorem handleWrite_load (hs : c.handleWrite r = .ok (c', effects)) : loadOf effects ≤ 2 := by
  unfold handleWrite at hs
  split at hs
  · cases r with
    | error errno =>
      cases hs
      simp [Effect.load]
    | accepted n =>
      simp only at hs
      split at hs
      · obtain ⟨out, -, hs⟩ := bind_ok.mp hs
        split at hs
        · cases hs
          simp only [loadOf_append, loadOf_cons]
          split <;> split <;> simp [Effect.load, Functor.load, shutdownInLoop_load]
        · cases hs
          simp [Effect.load]
      · cases hs
        simp [Effect.load]
  · cases hs
    simp

theorem handle_load (hs : c.handle rd wr cb = .ok (c', effects)) : loadOf effects ≤ 2 := by
  cases cb with
  | close => exact (handleClose_load hs).le
  | error =>
    cases hs
    simp
  | read => exact handleRead_load hs
  | write => exact handleWrite_load hs

theorem runFunctor_load (hs : c.runFunctor wr f = .ok (c', effects)) :
    loadOf effects + 1 ≤ f.load := by
  cases f with
  | sendInLoop message => exact Nat.succ_le_succ (sendInLoop_load hs)
  | shutdownInLoop =>
    cases hs
    rw [shutdownInLoop_load]
    decide
  | writeComplete | highWaterMark _ =>
    cases hs
    exact Nat.le_refl 1

theorem send_load (hs : c.send inLoop data r = .ok (c', effects)) : loadOf effects ≤ 3 := by
  unfold send at hs
  split at hs
  · cases inLoop with
    | true => exact (sendInLoop_load hs).trans (by decide)
    | false =>
      cases hs
      simp [Effect.load, Functor.load]
  · cases hs
    simp

theorem shutdown_load (c : TcpConnection) (inLoop : Bool) :
    loadOf (c.shutdown inLoop).2 ≤ 1 := by
  unfold shutdown
  split
  · cases inLoop with
    | true => simp [shutdownInLoop_load]
    | false => simp [Effect.load, Functor.load]
  · simp

theorem connectEstablished_load (hs : c.connectEstablished = .ok (c', effects)) :
    loadOf effects = 0 := by
  obtain ⟨_, -, hs⟩ := bind_ok.mp hs
  cases hs
  rfl

theorem connectDestroyed_load (hs : c.connectDestroyed = .ok (c', effects)) :
    loadOf effects = 0 := by
  unfold connectDestroyed at hs
  split at hs <;>
  · simp only [ok_bind, bind_ok, ensure_ok] at hs
    obtain ⟨_, -, hs⟩ := hs
    cases hs
    rfl

end TcpConnection

namespace World

open TcpConnection (loadOf)

variable {w w' : World}

/-- How many steps what a loop has to do may lead to. -/
def work (w : World) (l : Nat) : Nat :=
  ((w.queue l).map Task.load).sum + 3 * (w.todo l).length

/-- What the base loop and the `n` loops of the pool have to do. -/
def total (n : Nat) (w : World) : Nat := ∑ l ∈ Finset.range (n + 1), w.work l

def Label.isOwn : Label → Bool
  | .dispatch _ _ _ => true
  | .functor _ _ => true
  | _ => false

/-- What `poll` and the user give the loops to do. -/
def Label.load : Label → Nat
  | .newConnection _ => 1
  | .poll _ active => 3 * (active.flatMap fun e => Channel.callbacks e.2).length
  | .send _ _ _ _ => 3
  | .shutdown _ _ => 1
  | _ => 0

def AtRest (w : World) : Prop := ∀ l, w.todo l = [] ∧ w.queue l = []

-- ---------------------------------------------------------------------------
-- Work comes and goes
-- ---------------------------------------------------------------------------

theorem total_congr (h : ∀ l, w'.work l = w.work l) : total n w' = total n w :=
  Finset.sum_congr rfl fun l _ => h l

theorem total_add (h : ∀ l, w'.work l = w.work l + if l = loop then k else 0) (hl : loop ≤ n) :
    total n w' = total n w + k := by
  have hmem : loop ∈ Finset.range (n + 1) := Finset.mem_range.mpr (Nat.lt_succ_of_le hl)
  simp only [total, h, Finset.sum_add_distrib, Finset.sum_ite_eq', if_pos hmem]

theorem total_le (h : ∀ l, w'.work l = w.work l + if l = loop then k else 0) :
    total n w' ≤ total n w + k := by
  simp only [total, h, Finset.sum_add_distrib, Finset.sum_ite_eq']
  split <;> simp

theorem work_queueInLoop (w : World) (loop : Nat) (t : Task) (l : Nat) :
    (w.queueInLoop loop t).work l = w.work l + if l = loop then t.load else 0 := by
  by_cases hl : l = loop
  · subst hl
    simp [work, queueInLoop]
    omega
  · simp [work, queueInLoop, hl]

theorem total_queueInLoop (w : World) (loop : Nat) (t : Task) :
    total n (w.queueInLoop loop t) ≤ total n w + t.load :=
  total_le (w.work_queueInLoop loop t)

theorem work_popTask (h : w.queue loop = t :: rest) (l : Nat) :
    w.work l = (w.popTask loop rest).work l + if l = loop then t.load else 0 := by
  by_cases hl : l = loop
  · subst hl
    simp [work, popTask, h]
    omega
  · simp [work, popTask, hl]

theorem work_popEvent (h : w.todo loop = e :: rest) (l : Nat) :
    w.work l = (w.popEvent loop c rest).work l + if l = loop then 3 else 0 := by
  by_cases hl : l = loop
  · subst hl
    simp [work, popEvent, note, h]
    omega
  · simp [work, popEvent, note, hl]

theorem total_note (w : World) (c : Nat) (m : Milestone) : total n (w.note c m) = total n w :=
  total_congr fun _ => rfl

theorem total_removeConnectionInLoop (hs : w.removeConnectionInLoop c = .ok w') :
    total n w' ≤ total n w + 1 := by
  obtain ⟨_, -, hs⟩ := bind_ok.mp hs
  cases hs
  exact total_queueInLoop _ _ _

theorem total_removeConnection (hs : w.removeConnection here c = .ok w') :
    total n w' ≤ total n w + 2 := by
  unfold removeConnection at hs
  split at hs
  · exact (total_removeConnectionInLoop hs).trans (Nat.le_succ _)
  · cases hs
    exact total_queueInLoop w 0 _

theorem total_perform {effects : List TcpConnection.Effect}
    (hs : perform here c effects w = .ok w') : total n w' ≤ total n w + loadOf effects := by
  induction effects generalizing w with
  | nil =>
    cases hs
    exact Nat.le_refl _
  | cons e effects ih =>
    rw [TcpConnection.loadOf_cons]
    cases e with
    | closeCallback =>
      obtain ⟨w₁, hremove, hs⟩ := bind_ok.mp hs
      have hfirst : total n w₁ ≤ total n (w.note c .closed) + 2 := total_removeConnection hremove
      have hrest : total n w' ≤ total n w₁ + loadOf effects := ih hs
      rw [total_note] at hfirst
      simp only [TcpConnection.Effect.load]
      omega
    | queueInLoop f =>
      have hfirst := total_queueInLoop (n := n) w (w.member c).loop (.connection c f)
      have hrest := ih (w := w.queueInLoop (w.member c).loop (.connection c f)) hs
      simp only [TcpConnection.Effect.load]
      simp only [Task.load] at hfirst
      omega
    | write _ _ | shutdownWrite | connectionCallback _ | messageCallback | removeChannel =>
      have hrest := ih (w := w) hs
      simp only [TcpConnection.Effect.load]
      omega

theorem total_call (hs : w.call here c f = .ok w')
    (hf : ∀ conn effects, f (w.member c).conn = .ok (conn, effects) → loadOf effects ≤ k) :
    total n w' ≤ total n w + k := by
  obtain ⟨⟨conn, effects⟩, hcall, hs⟩ := bind_ok.mp hs
  have hload := hf conn effects (mapError_ok.mp hcall)
  have hperform := total_perform (n := n) hs
  have hset : total n (w.setConn c conn) = total n w := total_congr fun _ => rfl
  simp only [hset] at hperform
  omega

theorem total_runTask (hs : w.runTask here wr t = .ok w') :
    total n w' + 1 ≤ total n w + t.load := by
  cases t with
  | connectEstablished c =>
    have hcall : total n w' ≤ total n (w.note c .established) + 0 :=
      total_call hs fun _ _ hf => (TcpConnection.connectEstablished_load hf).le
    rw [total_note] at hcall
    exact Nat.succ_le_succ hcall
  | removeConnectionInLoop c => exact Nat.succ_le_succ (total_removeConnectionInLoop hs)
  | connectDestroyed c =>
    have hcall : total n w' ≤ total n (w.note c .destroyed) + 0 :=
      total_call hs fun _ _ hf => (TcpConnection.connectDestroyed_load hf).le
    rw [total_note] at hcall
    exact Nat.succ_le_succ hcall
  | connection c f =>
    have hpos : 0 < f.load := by cases f <;> exact Nat.succ_pos _
    have hcall : total n w' ≤ total n w + (f.load - 1) :=
      total_call (f := (·.runFunctor wr f)) hs fun _ _ hf =>
        Nat.le_sub_one_of_lt (TcpConnection.runFunctor_load hf)
    simp only [Task.load]
    omega

/-- Where there is something to do. -/
structure Places (n : Nat) (w : World) : Prop where
  inv : Inv w
  dealt : Dealt n w
  settled : Settled w

theorem places_keeps (n : Nat) : machine.Keeps (Places n) := fun h hen hs =>
  ⟨inv_safe.keeps h.inv hen hs, dealt_keeps n h.dealt hen hs, h.settled.step h.inv hs⟩

theorem start_places (name hostport : Bytes) (n : Nat) (wc : Bool) :
    Places n (start name hostport n wc) :=
  ⟨start_inv .., ⟨rfl, fun _ => (Nat.zero_mod n).symm, nofun⟩, nofun⟩

theorem deal_le (n c : Nat) : deal n c ≤ n := by
  unfold deal
  split
  · exact Nat.zero_le n
  · exact Nat.mod_lt c (Nat.pos_of_ne_zero ‹_›)

theorem Places.queue_le (h : Places n w) (ht : t ∈ w.queue l) : l ≤ n := by
  rw [home_of_mem h.inv h.dealt h.settled ht]
  cases t with
  | removeConnectionInLoop c => exact Nat.zero_le n
  | _ => exact deal_le n _

theorem Places.todo_le (h : Places n w) (he : e ∈ w.todo l) : l ≤ n := by
  obtain ⟨hc, hloop, -⟩ := h.inv.todo l e he
  rw [← hloop, h.dealt.loop e.1 hc]
  exact deal_le n _

theorem Places.newConnection (h : Places n w) (hs : w.newConnection sockfd = .ok w') :
    total n w' ≤ total n w + 1 := by
  obtain ⟨⟨loop, server⟩, hloop, hs⟩ := bind_ok.mp hs
  obtain ⟨rfl, next, rfl, -⟩ := h.dealt.getNextLoop hloop
  have haccept (loop : Nat) : total n (w.accept sockfd loop next) = total n w :=
    total_congr fun _ => rfl
  simp only at hs
  split at hs
  · have hcall : total n w' ≤ total n ((w.accept sockfd (deal n w.accepted) next).note w.accepted
        .established) + 0 :=
      total_call hs fun _ _ hf => (TcpConnection.connectEstablished_load hf).le
    rw [total_note, haccept] at hcall
    exact hcall.trans (Nat.le_succ _)
  · cases hs
    have hqueue := total_queueInLoop (n := n) (w.accept sockfd (deal n w.accepted) next)
      (deal n w.accepted) (.connectEstablished w.accepted)
    rw [haccept] at hqueue
    exact hqueue

theorem work_poll (h : w.todo loop = []) (hs : w.step (.poll loop active) = .ok w') (l : Nat) :
    w'.work l = w.work l + if l = loop then Label.load (.poll loop active) else 0 := by
  cases hs
  by_cases hl : l = loop
  · subst hl
    simp [work, h, Label.load, List.length_flatMap]
  · simp [work, hl]

/-- A step of a loop leaves less to do, and any other one adds no more than its load. -/
theorem Places.step (h : Places n w) (hen : machine.enabled w a) (hs : machine.step w a = .ok w') :
    total n w' + (if a.isOwn then 1 else 0) ≤ total n w + a.load := by
  cases a with
  | newConnection sockfd => exact h.newConnection hs
  | poll loop active => exact total_le (work_poll hen.1 hs)
  | dispatch loop rd wr =>
    cases ht : w.todo loop with
    | nil => simp only [machine, Enabled, ht] at hen
    | cons e rest =>
      obtain ⟨c, cb⟩ := e
      simp only [machine, World.step, ht] at hs
      have hl : loop ≤ n := h.todo_le (e := (c, cb)) (by simp [ht])
      have hpop := total_add (work_popEvent (c := c) ht) hl
      have hcall : total n w' ≤ total n (w.popEvent loop c rest) + 2 :=
        total_call (f := (·.handle rd wr cb)) hs fun _ _ hf => TcpConnection.handle_load hf
      show total n w' + 1 ≤ total n w
      omega
  | functor loop wr =>
    cases hq : w.queue loop with
    | nil => simp only [machine, Enabled, hq, and_false] at hen
    | cons t rest =>
      simp only [machine, World.step, hq] at hs
      have hl : loop ≤ n := h.queue_le (t := t) (by simp [hq])
      have hpop := total_add (work_popTask hq) hl
      have hrun : total n w' + 1 ≤ total n (w.popTask loop rest) + t.load := total_runTask hs
      show total n w' + 1 ≤ total n w
      omega
  | send inLoop c data wr =>
    exact total_call (f := (·.send inLoop data wr)) hs fun _ _ hf => TcpConnection.send_load hf
  | shutdown inLoop c =>
    refine total_call (f := fun conn => .ok (conn.shutdown inLoop)) hs fun conn effects hf => ?_
    obtain ⟨-, rfl⟩ := Prod.ext_iff.mp (Except.ok.inj hf)
    exact TcpConnection.shutdown_load _ inLoop
  | retrieve c len =>
    simp only [machine, World.step] at hs
    refine total_call hs fun conn effects hf => ?_
    obtain ⟨input, -, hf⟩ := bind_ok.mp hf
    cases hf
    exact Nat.le_refl 0

-- ---------------------------------------------------------------------------
-- Rest
-- ---------------------------------------------------------------------------

/-- A connection for which nothing is to be done has just been established or is
gone. -/
theorem Inv.atRest (h : Inv w) (hrest : AtRest w) (hc : c < w.accepted) :
    ∃ k, Stage c (view w c) k ∧ (k = 1 ∨ k = 4) := by
  obtain ⟨k, hk⟩ := h.stage hc
  have hdue (l : Nat) : dueAt c (w.member c).loop k l = [] := by
    have hl : (view w c).due l = dueAt c (w.member c).loop k l := congrFun hk.due l
    rw [← hl]
    simp [view, (hrest l).2]
  have h0 : k ≠ 0 := by
    rintro rfl
    simpa [dueAt] using hdue (w.member c).loop
  have h2 : k ≠ 2 := by
    rintro rfl
    simpa [dueAt] using hdue 0
  have h3 : k ≠ 3 := by
    rintro rfl
    simpa [dueAt] using hdue (w.member c).loop
  have hbound := hk.bound
  exact ⟨k, hk, by omega⟩

theorem own_enabled (h : ¬AtRest w) : ∃ a, a.isOwn ∧ machine.enabled w a := by
  obtain ⟨l, hl⟩ := Classical.not_forall.mp h
  cases ht : w.todo l with
  | cons e rest =>
    refine ⟨.dispatch l (.error 0) (.accepted 0), rfl, ?_⟩
    simp only [machine, Enabled, ht]
    exact Nat.zero_le _
  | nil =>
    cases hq : w.queue l with
    | nil => exact absurd ⟨ht, hq⟩ hl
    | cons t rest =>
      refine ⟨.functor l (.accepted 0), rfl, ht, ?_⟩
      rw [hq]
      split
      · contradiction
      · exact Nat.zero_le _
      · trivial

/-- In every run of a live server with `n` loops in its pool, distinct names and atomic
calls: the loops take no more steps than `poll` and the user have given them work for,
and can always take one until there is none. When they are at rest each connection is
open and in the registry, or destroyed and out of it. -/
theorem settles {name hostport : Bytes} {wc : Bool}
    (h : machine.Run (start name hostport n wc) labels w) :
    labels.countP Label.isOwn + total n w ≤ (labels.map Label.load).sum ∧
    (¬AtRest w → ∃ a w', a.isOwn ∧ machine.enabled w a ∧ machine.step w a = .ok w') ∧
    (AtRest w → ∀ c < w.accepted,
      (.established ∈ w.happened c ∧ (w.member c).conn.state ≠ .kDisconnected ∧
        w.server.connections.find? (w.member c).name = some c) ∨
      (.destroyed ∈ w.happened c ∧ (w.member c).conn.state = .kDisconnected ∧
        w.server.connections.find? (w.member c).name ≠ some c)) := by
  have hstart := start_places name hostport n wc
  have hplaces := h.keeps (places_keeps n) hstart
  refine ⟨?_, fun hbusy => ?_, fun hrest c hc => ?_⟩
  · have hcount := h.count_le_sum (places_keeps n) Places.step hstart
    have hnone : total n (start name hostport n wc) = 0 :=
      Finset.sum_eq_zero fun _ _ => rfl
    rwa [hnone, Nat.zero_add] at hcount
  · obtain ⟨a, ha, hen⟩ := own_enabled hbusy
    obtain ⟨w', hs, -⟩ := inv_safe hplaces.inv hen
    exact ⟨a, w', ha, hen, hs⟩
  · obtain ⟨k, hk, rfl | rfl⟩ := hplaces.inv.atRest hrest hc
    · have halive := hk.alive (by decide)
      refine .inl ⟨?_, mt halive.2.mp (by decide), hk.listed.mpr (by decide)⟩
      exact List.mem_of_mem_head? hk.first
    · have halive := hk.alive (by decide)
      exact .inr ⟨(Stage.destroyed_mem hk.toPhase).mpr rfl, halive.2.mpr (by decide),
        mt hk.listed.mp (by decide)⟩

/-- The peer hangs up: three more steps of the loops and nothing is left to do. -/
theorem settles_hangUp : ∃ w : World,
    machine.Run (start (ascii "echo") (ascii "127.0.0.1:2000") 1 false)
      [.newConnection 7, .functor 1 (.accepted 0), .poll 1 [(0, POLLHUP)],
        .dispatch 1 (.error 0) (.accepted 0), .functor 0 (.accepted 0),
        .functor 1 (.accepted 0)] w ∧ total 1 w = 0 := by
  have hrun : ∃ w, machine.Run (start (ascii "echo") (ascii "127.0.0.1:2000") 1 false)
      [.newConnection 7, .functor 1 (.accepted 0), .poll 1 [(0, POLLHUP)],
        .dispatch 1 (.error 0) (.accepted 0), .functor 0 (.accepted 0),
        .functor 1 (.accepted 0)] w ∧ 0 < w.accepted :=
    Machine.exists_run (by decide +kernel)
  obtain ⟨w, hw, -⟩ := hrun
  have hle : 4 + total 1 w ≤ 4 := (settles hw).1
  exact ⟨w, hw, by omega⟩

end World

end Muduo
