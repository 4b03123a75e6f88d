import Muduo.Net.Registry

/-!
# Runs of a server

`Inv` is kept by every step of every loop: each accepted connection is in some
stage of its life, and the events a loop has left to handle close a connection
at most once.
-/

namespace Muduo.World

open Lib Function TcpServer

variable {w w' : World}

structure Absent (v : View) : Prop where
  happened : v.happened = []
  due : v.due = fun _ => []
  busy : ¬v.busy

/-- The invariant, with a stage for the connections in `p`. -/
structure Sound (p : Nat → Prop) (w : World) : Prop where
  stages : ∀ c < w.accepted, p c → ∃ k, Stage c (view w c) k
  absent : ∀ c, w.accepted ≤ c → Absent (view w c)
  todo : ∀ l, ∀ e ∈ w.todo l, e.1 < w.accepted ∧ (w.member e.1).loop = l ∧
    (w.member e.1).conn.state ≠ .kConnecting
  once : ∀ l, (((w.todo l).filter fun e => e.2.closes).map Prod.fst).Nodup
  closes : ∀ l, ∀ e ∈ w.todo l, e.2.closes → (w.member e.1).conn.state ≠ .kDisconnected
  keys : ∀ k c, w.server.connections.find? k = some c → c < w.accepted ∧ (w.member c).name = k
  next : w.server.numLoops = 0 ∨ w.server.next < w.server.numLoops

def Inv (w : World) : Prop := Sound (fun _ => True) w

theorem Sound.weaken (h : Inv w) : Sound p w :=
  { h with stages := fun c hc _ => h.stages c hc trivial }

theorem Inv.stage (h : Inv w) (hc : c < w.accepted) : ∃ k, Stage c (view w c) k :=
  h.stages c hc trivial

theorem Only.member (h : Only c w w') (hd : d ≠ c) : w'.member d = w.member d :=
  congrArg View.member (h.others d hd)

/-- A step that touches one connection keeps the invariant if that connection
ends in some stage. -/
theorem Sound.touch (h : Sound (· ≠ c) w) (hc : c < w.accepted) (ho : Only c w w')
    (hk : Stage c (view w' c) k)
    (hst : ∀ l, ∀ e ∈ w.todo l, e.1 = c → (w'.member c).conn.state ≠ .kConnecting ∧
      (e.2.closes → (w'.member c).conn.state ≠ .kDisconnected)) : Inv w' := by
  have hname : ∀ d, (w'.member d).name = (w.member d).name := by
    intro d
    by_cases hd : d = c
    · rw [hd]
      exact ho.name
    · rw [ho.member hd]
  refine ⟨fun d hd _ => ?_, fun d hd => ?_, fun l e he => ?_, fun l => ?_, fun l e he hcl => ?_,
    fun k d hd => ?_, ?_⟩
  · by_cases hdc : d = c
    · subst hdc
      exact ⟨k, hk⟩
    · rw [ho.others d hdc]
      exact h.stages d (ho.accepted ▸ hd) hdc
  · rw [ho.accepted] at hd
    rw [ho.others d (fun he => absurd hc (not_lt.mpr (he ▸ hd)))]
    exact h.absent d hd
  · rw [ho.todo] at he
    obtain ⟨h1, h2, h3⟩ := h.todo l e he
    rw [ho.accepted]
    by_cases hec : e.1 = c
    · rw [hec] at h2 ⊢
      exact ⟨hc, ho.loop.trans h2, (hst l e he hec).1⟩
    · rw [ho.member hec]
      exact ⟨h1, h2, h3⟩
  · rw [ho.todo]
    exact h.once l
  · rw [ho.todo] at he
    by_cases hec : e.1 = c
    · rw [hec]
      exact (hst l e he hec).2 hcl
    · rw [ho.member hec]
      exact h.closes l e he hcl
  · rw [hname, ho.accepted]
    exact h.keys k d (ho.keys k d hd)
  · rw [ho.numLoops, ho.next]
    exact h.next

theorem Inv.touch (h : Inv w) (hc : c < w.accepted) (ho : Only c w w')
    (hk : Stage c (view w' c) k)
    (hcon : (w'.member c).conn.state = .kConnecting → (w.member c).conn.state = .kConnecting)
    (hdis : (w'.member c).conn.state = .kDisconnected →
      (w.member c).conn.state = .kDisconnected) : Inv w' := by
  refine (Sound.weaken h).touch hc ho hk fun l e he hec => ⟨?_, fun hcl => ?_⟩
  · exact mt hcon (hec ▸ (h.todo l e he).2.2)
  · exact mt hdis (hec ▸ h.closes l e he hcl)

-- ---------------------------------------------------------------------------
-- Calls that do not close
-- ---------------------------------------------------------------------------

theorem member_of_view (h : view w' c = { view w c with member := m, busy := b }) :
    w'.member c = m :=
  congrArg View.member h

theorem Inv.call (h : Inv w) (hc : c < w.accepted) (hk : Stage c (view w c) k) (h0 : k ≠ 0)
    (hf : f (w.member c).conn = .ok (conn, effects)) (ha : conn.Alive)
    (hs : conn.state = .kDisconnected ↔ (w.member c).conn.state = .kDisconnected)
    (he : .closeCallback ∉ effects) : ∃ w', w.call here c f = .ok w' ∧ Inv w' := by
  obtain ⟨w', b, hw', ho, hv⟩ := call_open w here hf he
  have hm := member_of_view hv
  refine ⟨w', hw', h.touch hc ho (k := k) ?_ ?_ ?_⟩
  · rw [hv]
    exact hk.conn h0 ha hs
  · rw [hm]
    exact fun hst => absurd hst ha.state
  · rw [hm]
    exact hs.mp

theorem Inv.call_unborn (conn : TcpConnection) (h : Inv w) (hc : c < w.accepted) (hk : Stage c (view w c) 0)
    (hf : f (w.member c).conn = .ok (conn, [])) (hok : conn.Ok)
    (hst : conn.state = (w.member c).conn.state) (hch : conn.channel = (w.member c).conn.channel) :
    ∃ w', w.call here c f = .ok w' ∧ Inv w' := by
  obtain ⟨hs, -, hnone, hbusy⟩ := hk.unborn rfl
  refine ⟨w.setConn c conn, by rw [World.call, hf]; rfl,
    h.touch hc (only_setConn w c conn) (k := 0) ?_ ?_ ?_⟩
  · rw [view_setConn]
    refine ⟨⟨hk.bound, hk.passed, hk.first, fun _ => ⟨hst.trans hs, hok, ?_, hbusy⟩,
      fun h0 => absurd rfl h0, hk.listed⟩, hk.due⟩
    simp only [hch]
    exact hnone
  · intro _
    exact hs
  · simp [setConn, hst]

-- ---------------------------------------------------------------------------
-- Events
-- ---------------------------------------------------------------------------

/-- A plausible event does not read after it closed. -/
theorem Plausible.close_or_read (h : Plausible revents)
    (hc : revents &&& POLLHUP ≠ 0 ∧ revents &&& POLLIN = 0) :
    ¬(revents &&& (POLLIN ||| POLLPRI ||| POLLRDHUP) ≠ 0) := by
  have hand : revents &&& (POLLIN ||| (POLLPRI ||| POLLRDHUP)) = 0 := by
    rw [BitVec.and_or_distrib_left, hc.2, h hc.1 hc.2]
    rfl
  rw [BitVec.or_assoc, hand]
  exact not_not_intro rfl

theorem closes_once (c : Nat) (h : Plausible revents) :
    ((((Channel.callbacks revents).map fun cb => (c, cb)).filter fun e => e.2.closes).map
      Prod.fst).Sublist [c] := by
  have hor := h.close_or_read
  unfold Channel.callbacks
  split <;> split <;> split <;> split <;>
    first
    | exact absurd ‹_› (hor ‹_›)
    | simp [Channel.Callback.closes]

theorem Stage.watched (h : Stage c v k) (hn : ¬v.member.conn.channel.isNoneEvent) :
    v.member.conn.state ≠ .kConnecting ∧ v.member.conn.state ≠ .kDisconnected := by
  by_cases h0 : k = 0
  · exact absurd (h.unborn h0).2.2.1 hn
  · obtain ⟨ha, -⟩ := h.alive h0
    exact ⟨ha.state, fun hs => hn (ha.closed hs)⟩

theorem Inv.poll (h : Inv w) (hen : Enabled w (.poll loop active)) :
    ∃ w', step w (.poll loop active) = .ok w' ∧ Inv w' := by
  obtain ⟨-, hnodup, hact⟩ := hen
  refine ⟨_, rfl, h.stages, h.absent, fun l e he => ?_, fun l => ?_, fun l e he hcl => ?_,
    h.keys, h.next⟩
  · by_cases hl : l = loop
    · subst hl
      simp only [update_self, List.mem_flatMap, List.mem_map] at he
      obtain ⟨a, ha, cb, -, rfl⟩ := he
      obtain ⟨hc, hloop, hn, -⟩ := hact a ha
      obtain ⟨k, hk⟩ := h.stage hc
      exact ⟨hc, hloop, (hk.watched hn).1⟩
    · simp only [update_of_ne hl] at he
      exact h.todo l e he
  · by_cases hl : l = loop
    · subst hl
      simp only [update_self]
      refine hnodup.sublist ?_
      clear hnodup
      induction active with
      | nil => exact .slnil
      | cons a active ih =>
        rw [List.flatMap_cons, List.filter_append, List.map_append, List.map_cons]
        have hfirst := closes_once a.1 (hact a List.mem_cons_self).2.2.2
        exact hfirst.append (ih fun e he => hact e (List.mem_cons_of_mem a he))
    · simp only [update_of_ne hl]
      exact h.once l
  · by_cases hl : l = loop
    · subst hl
      simp only [update_self, List.mem_flatMap, List.mem_map] at he
      obtain ⟨a, ha, cb, -, rfl⟩ := he
      obtain ⟨hc, -, hn, -⟩ := hact a ha
      obtain ⟨k, hk⟩ := h.stage hc
      exact (hk.watched hn).2
    · simp only [update_of_ne hl] at he
      exact h.closes l e he hcl

def popEvent (w : World) (loop c : Nat) (rest : List (Nat × Channel.Callback)) : World :=
  { w with todo := update w.todo loop rest }.note c .event

theorem todo_popEvent (h : w.todo loop = e :: rest)
    (hm : e' ∈ (w.popEvent loop c rest).todo l) : e' ∈ w.todo l := by
  by_cases hl : l = loop
  · subst hl
    rw [h]
    exact List.mem_cons_of_mem e (by simpa [popEvent, note] using hm)
  · simpa [popEvent, note, hl] using hm

theorem Inv.popEvent (h : Inv w) (ht : w.todo loop = (c, cb) :: rest) :
    c < w.accepted ∧ Inv (w.popEvent loop c rest) ∧
      ∃ k, k ≠ 0 ∧ Stage c (view (w.popEvent loop c rest) c) k := by
  obtain ⟨hc, -, hst⟩ := h.todo loop (c, cb) (by rw [ht]; exact List.mem_cons_self)
  obtain ⟨k, hk⟩ := h.stage hc
  have h0 : k ≠ 0 := fun h0 => hst (hk.unborn h0).1
  have hpop : Sound (· ≠ c) { w with todo := update w.todo loop rest } := by
    refine ⟨fun d hd _ => h.stages d hd trivial, h.absent, fun l e he => ?_, fun l => ?_,
      fun l e he => ?_, h.keys, h.next⟩
    · exact h.todo l e (todo_popEvent (c := c) ht he)
    · by_cases hl : l = loop
      · subst hl
        have hone := h.once l
        rw [ht] at hone
        simp only [update_self]
        exact hone.sublist (((List.sublist_cons_self _ rest).filter _).map _)
      · simp only [update_of_ne hl]
        exact h.once l
    · exact h.closes l e (todo_popEvent (c := c) ht he)
  have hstage : Stage c (view (w.popEvent loop c rest) c) k := by
    rw [World.popEvent, view_note]
    exact hk.event h0
  refine ⟨hc, hpop.touch hc (only_note _ c .event) hstage fun l e he hec => ?_, k, h0, hstage⟩
  obtain ⟨-, -, h3⟩ := hpop.todo l e he
  rw [hec] at h3
  exact ⟨h3, fun hcl => hec ▸ hpop.closes l e he hcl⟩

theorem Inv.dispatch (h : Inv w) (hen : Enabled w (.dispatch loop rd wr)) :
    ∃ w', step w (.dispatch loop rd wr) = .ok w' ∧ Inv w' := by
  cases ht : w.todo loop with
  | nil =>
    simp only [Enabled, ht] at hen
  | cons e rest =>
    obtain ⟨c, cb⟩ := e
    simp only [Enabled, ht] at hen
    obtain ⟨hc, hpop, k, h0, hk⟩ := h.popEvent ht
    obtain ⟨ha, hclosed⟩ := hk.alive h0
    have hstep : step w (.dispatch loop rd wr) =
        (w.popEvent loop c rest).call loop c (·.handle rd wr cb) := by
      simp only [step, ht]
      rfl
    rw [hstep]
    obtain ⟨⟨conn, effects⟩, hf⟩ := TcpConnection.handle_total rd ha hen
      fun hcl => h.closes loop (c, cb) (by rw [ht]; exact List.mem_cons_self) hcl
    have hf' : (fun conn => conn.handle rd wr cb) ((w.popEvent loop c rest).member c).conn =
        .ok (conn, effects) := hf
    cases hcb : cb.closes with
    | false =>
      obtain ⟨ha', hs⟩ := TcpConnection.handle_silent ha hen hcb hf
      exact hpop.call hc hk h0 hf' ha' hs.closed fun hm => by cases hs.effects _ hm
    | true =>
      obtain ⟨ha', ho, -⟩ := TcpConnection.handle_outcome ha hen hf
      cases ho with
      | silent hs => exact hpop.call hc hk h0 hf' ha' hs.closed fun hm => by cases hs.effects _ hm
      | message hst he =>
        exact hpop.call hc hk h0 hf' ha' (by rw [hst]; rfl) (by simp [he])
      | closed hopen hst he =>
        -- the other events of this loop do not close the connection again
        subst he
        have h1 : k = 1 := by
          have := mt hclosed.mpr hopen
          omega
        subst h1
        obtain ⟨w', k', hw', honly, hk', hconn⟩ :=
          close_ok (f := (·.handle rd wr cb)) hk hf' ha' hst
        refine ⟨w', hw', (Sound.weaken hpop).touch hc honly hk' fun l e he hec => ?_⟩
        rw [hconn, hst]
        refine ⟨nofun, fun hcl => absurd ?_ id⟩
        have hloop := (h.todo loop (c, cb) (by rw [ht]; exact List.mem_cons_self)).2.1
        have hl : l = loop := by
          have := (h.todo l e (todo_popEvent ht he)).2.1
          rw [hec] at this
          exact this.symm.trans hloop
        subst hl
        have hone := h.once l
        rw [ht, List.filter_cons_of_pos (by simpa using hcb), List.map_cons] at hone
        refine (List.nodup_cons.mp hone).1 ?_
        have hmem : e ∈ rest := by simpa [World.popEvent, note] using he
        have hfst : e.1 ∈ (rest.filter fun e => e.2.closes).map Prod.fst :=
          List.mem_map_of_mem (List.mem_filter.mpr ⟨hmem, hcl⟩)
        rwa [hec] at hfst

-- ---------------------------------------------------------------------------
-- Functors
-- ---------------------------------------------------------------------------

/-- At most one functor of this kind waits. -/
theorem dueAt_eq_cons (h : dueAt c loop k l = t :: ts) :
    ts = [] ∧ (∀ l' ≠ l, dueAt c loop k l' = []) ∧
      (k = 0 ∧ t = .connectEstablished c ∨ k = 2 ∧ t = .removeConnectionInLoop c ∨
        k = 3 ∧ t = .connectDestroyed c) := by
  unfold dueAt at h ⊢
  split at h <;> (try split at h) <;> simp_all

theorem pop_lifecycle (h : w.queue l = t :: rest) (ht : t.isLifecycle)
    (hs : Stage t.conn (view w t.conn) k) :
    view (w.popTask l rest) t.conn = { view w t.conn with due := fun _ => [] } ∧
      (k = 0 ∧ t = .connectEstablished t.conn ∨ k = 2 ∧ t = .removeConnectionInLoop t.conn ∨
        k = 3 ∧ t = .connectDestroyed t.conn) := by
  have hdue : ∀ l', dueAt t.conn (w.member t.conn).loop k l' =
      (if l' = l then [t] else []) ++ (view (w.popTask l rest) t.conn).due l' := by
    intro l'
    rw [show dueAt t.conn (w.member t.conn).loop k = _ from hs.due.symm]
    simp [view, filter_popTask h, ht]
  have hhead := hdue l
  rw [if_pos rfl] at hhead
  obtain ⟨hnil, hother, hkind⟩ := dueAt_eq_cons hhead
  refine ⟨View.ext rfl rfl (funext fun l' => ?_) (propext ⟨?_, ?_⟩) rfl, hkind⟩
  · by_cases hl : l' = l
    · subst hl
      exact hnil
    · have := hdue l'
      rw [hother l' hl, if_neg hl] at this
      exact this.symm
  · rintro ⟨l', f, hm⟩
    exact ⟨l', f, mem_popTask h hm⟩
  · rintro ⟨l', f, hm⟩
    exact ⟨l', f, mem_popTask_ne h (fun he => by rw [← he] at ht; cases ht) hm⟩

theorem view_pop_connection (h : w.queue l = .connection c f :: rest) :
    ∃ b, view (w.popTask l rest) c = { view w c with busy := b } := by
  refine ⟨(view (w.popTask l rest) c).busy, View.ext rfl rfl (funext fun l' => ?_) rfl rfl⟩
  simp [view, filter_popTask h, Task.isLifecycle]

theorem Phase.unqueued (h : Phase v k) : Phase { v with due := d } k :=
  ⟨h.bound, h.passed, h.first, h.unborn, h.alive, h.listed⟩

theorem Inv.mem_queue (h : Inv w) (hm : t ∈ w.queue l) : t.conn < w.accepted := by
  by_contra hc
  obtain ⟨-, hdue, hbusy⟩ := h.absent t.conn (not_lt.mp hc)
  cases ht : t.isLifecycle with
  | true =>
    have hmem : t ∈ (view w t.conn).due l := by simp [view, hm, ht]
    rw [hdue] at hmem
    cases hmem
  | false =>
    cases t with
    | connection c f => exact hbusy ⟨l, f, hm⟩
    | connectEstablished c => cases ht
    | removeConnectionInLoop c => cases ht
    | connectDestroyed c => cases ht

theorem Inv.runTask (wr : WriteResult) (h : Inv w) (hq : w.queue l = t :: rest)
    (hfit : ∀ c m, t = .connection c (.sendInLoop m) → wr.Fits m) :
    ∃ w', (w.popTask l rest).runTask l wr t = .ok w' ∧ Inv w' := by
  have hmem : t ∈ w.queue l := by
    rw [hq]
    exact List.mem_cons_self
  have hc := h.mem_queue hmem
  have honly := only_popTask hq
  obtain ⟨k, hk⟩ := h.stage hc
  cases ht : t.isLifecycle with
  | true =>
    obtain ⟨hv, hkind⟩ := pop_lifecycle hq ht hk
    have hphase : Phase (view (w.popTask l rest) t.conn) k := by
      rw [hv]
      exact hk.toPhase.unqueued
    have hdue : (view (w.popTask l rest) t.conn).due = fun _ => [] := by rw [hv]
    generalize hcc : t.conn = c at *
    rcases hkind with ⟨rfl, rfl⟩ | ⟨rfl, rfl⟩ | ⟨rfl, rfl⟩
    · obtain ⟨w', hw', ho, hs, hst⟩ := connectEstablished_ok l hphase hdue
      refine ⟨w', hw', h.touch hc (honly.trans ho) hs ?_ ?_⟩ <;> rw [hst] <;> nofun
    · obtain ⟨w', hw', ho, hs, hconn⟩ := removeConnectionInLoop_ok hphase hdue
      refine ⟨w', hw', h.touch hc (honly.trans ho) hs ?_ ?_⟩ <;> rw [hconn] <;> exact id
    · obtain ⟨w', hw', ho, hs, hconn⟩ := connectDestroyed_ok l hphase hdue
      refine ⟨w', hw', h.touch hc (honly.trans ho) hs ?_ ?_⟩ <;> rw [hconn] <;> exact id
  | false =>
    cases t with
    | connectEstablished c => cases ht
    | removeConnectionInLoop c => cases ht
    | connectDestroyed c => cases ht
    | connection c f =>
      obtain ⟨b, hv⟩ := view_pop_connection hq
      have h0 : k ≠ 0 := fun h0 => (hk.unborn h0).2.2.2 ⟨l, f, hmem⟩
      obtain ⟨ha, hcl⟩ := hk.alive h0
      have hk' : Stage c (view (w.popTask l rest) c) k := by
        rw [hv]
        exact hk.conn h0 ha Iff.rfl
      have hpop : Inv (w.popTask l rest) := h.touch hc honly hk' id id
      obtain ⟨⟨conn, effects⟩, hf⟩ := TcpConnection.runFunctor_total (f := f) (r := wr) ha.ok
        fun m hm => hfit c m (by rw [hm])
      obtain ⟨ha', hs⟩ := TcpConnection.runFunctor_silent ha
        (fun m hm => hfit c m (by rw [hm])) hf
      exact hpop.call (f := (·.runFunctor wr f)) hc hk' h0 hf ha' hs.closed
        fun hm => by cases hs.effects _ hm

theorem Inv.functor (h : Inv w) (hen : Enabled w (.functor loop wr)) :
    ∃ w', step w (.functor loop wr) = .ok w' ∧ Inv w' := by
  cases hq : w.queue loop with
  | nil => simp only [Enabled, hq, and_false] at hen
  | cons t rest =>
    simp only [Enabled, hq] at hen
    obtain ⟨w', hw', hinv⟩ := h.runTask wr hq fun c m ht => by
      rw [ht] at hen
      exact hen.2
    refine ⟨w', ?_, hinv⟩
    simp only [step, hq]
    exact hw'

-- ---------------------------------------------------------------------------
-- Users and the acceptor
-- ---------------------------------------------------------------------------

theorem Inv.send (h : Inv w) (hen : Enabled w (.send inLoop c data wr)) :
    ∃ w', step w (.send inLoop c data wr) = .ok w' ∧ Inv w' := by
  obtain ⟨hc, hfit⟩ := hen
  obtain ⟨k, hk⟩ := h.stage hc
  by_cases h0 : k = 0
  · subst h0
    obtain ⟨hst, hok, -, -⟩ := hk.unborn rfl
    have hst' : (w.member c).conn.state = .kConnecting := hst
    refine h.call_unborn (f := (·.send inLoop data wr)) (w.member c).conn hc hk ?_ hok
      rfl rfl
    simp [TcpConnection.send, hst']
  · obtain ⟨ha, hcl⟩ := hk.alive h0
    obtain ⟨⟨conn, effects⟩, hf⟩ := TcpConnection.send_total inLoop ha.ok hfit
    obtain ⟨ha', hs⟩ := TcpConnection.send_silent ha hfit hf
    exact h.call (f := (·.send inLoop data wr)) hc hk h0 hf ha' hs.closed
      fun hm => by cases hs.effects _ hm

theorem Inv.shutdown (h : Inv w) (hc : c < w.accepted) :
    ∃ w', step w (.shutdown inLoop c) = .ok w' ∧ Inv w' := by
  obtain ⟨k, hk⟩ := h.stage hc
  by_cases h0 : k = 0
  · subst h0
    obtain ⟨hst, hok, -, -⟩ := hk.unborn rfl
    have hst' : (w.member c).conn.state = .kConnecting := hst
    refine h.call_unborn (f := fun conn => .ok (conn.shutdown inLoop)) (w.member c).conn
      hc hk ?_ hok rfl rfl
    simp [TcpConnection.shutdown, hst']
  · obtain ⟨ha, hcl⟩ := hk.alive h0
    obtain ⟨ha', hs⟩ := TcpConnection.shutdown_silent ha inLoop
    exact h.call (f := fun conn => .ok (conn.shutdown inLoop)) hc hk h0 rfl ha' hs.closed
      fun hm => by cases hs.effects _ hm

theorem Stage.ok (h : Stage c v k) : v.member.conn.Ok := by
  by_cases h0 : k = 0
  · exact (h.unborn h0).2.1
  · exact (h.alive h0).1.ok

theorem Inv.retrieve (h : Inv w) (hen : Enabled w (.retrieve c len)) :
    ∃ w', step w (.retrieve c len) = .ok w' ∧ Inv w' := by
  obtain ⟨hc, hlen⟩ := hen
  obtain ⟨k, hk⟩ := h.stage hc
  have hok : (w.member c).conn.Ok := hk.ok
  obtain ⟨input, hret, hv, -⟩ := Buffer.retrieve_ok hok.input hlen
  let f : TcpConnection → Except TcpConnection.Fault (TcpConnection × List TcpConnection.Effect) :=
    fun conn => do
      let inputBuffer ← TcpConnection.onBuffer (conn.inputBuffer.retrieve len)
      return ({ conn with inputBuffer }, [])
  have hf : f (w.member c).conn = .ok ({ (w.member c).conn with inputBuffer := input }, []) := by
    simp only [f, hret, TcpConnection.onBuffer_ok, ok_bind]
    rfl
  by_cases h0 : k = 0
  · subst h0
    exact h.call_unborn _ hc hk hf ⟨hv, hok.output, hok.plain⟩ rfl rfl
  · obtain ⟨ha, -⟩ := hk.alive h0
    exact h.call hc hk h0 hf ⟨⟨hv, ha.ok.output, ha.ok.plain⟩, ha.state, ha.reading, ha.closed⟩
      Iff.rfl nofun

theorem getNextLoop_ok {s : TcpServer} (h : s.numLoops = 0 ∨ s.next < s.numLoops) :
    ∃ loop next, s.getNextLoop = .ok (loop, { s with next }) ∧
      (s.numLoops = 0 ∨ next < s.numLoops) := by
  by_cases h0 : s.numLoops = 0
  · refine ⟨0, s.next, ?_, .inl h0⟩
    simp only [getNextLoop, if_pos h0]
    rfl
  · have hlt := h.resolve_left h0
    refine ⟨s.next + 1, if s.next + 1 ≥ s.numLoops then 0 else s.next + 1, ?_, .inr ?_⟩
    · simp only [getNextLoop, if_neg h0, ensure_bind hlt]
      rfl
    · split <;> omega

/-- The world with a new connection in the registry, not handed to its loop yet. -/
def accept (w : World) (sockfd : Int) (loop n : Nat) : World :=
  { w with
    server := { w.server with
      next := n
      nextConnId := w.server.nextConnId + 1
      connections := w.server.connections.insert w.server.connName w.accepted }
    accepted := w.accepted + 1
    member := update w.member w.accepted
      { conn := { channel := { fd := sockfd }
                  writeCompleteCallback := w.server.writeCompleteCallback }
        loop
        name := w.server.connName } }

theorem member_accept (w : World) (sockfd : Int) (loop n : Nat) :
    (w.accept sockfd loop n).member w.accepted =
      { conn := { channel := { fd := sockfd }
                  writeCompleteCallback := w.server.writeCompleteCallback }
        loop
        name := w.server.connName } :=
  update_self ..

/-- The registry has nothing under the name that the next connection gets. -/
def Unused (w : World) : Prop := w.server.connections.find? w.server.connName = none

theorem Inv.unused (h : Inv w) (hnew : ∀ c < w.accepted, (w.member c).name ≠ w.server.connName) :
    w.Unused := by
  cases hf : w.server.connections.find? w.server.connName with
  | none => exact hf
  | some c =>
    obtain ⟨hc, hname⟩ := h.keys _ c hf
    exact absurd hname (hnew c hc)

theorem view_accept (hnew : w.Unused) (hd : d < w.accepted) :
    view (w.accept sockfd loop n) d = view w d := by
  have hne : d ≠ w.accepted := Nat.ne_of_lt hd
  refine View.ext ?_ rfl rfl rfl (propext ?_)
  · simp [view, accept, hne]
  · simp only [view, accept, update_of_ne hne, OrdMap.find?_insert]
    split
    · rename_i hname
      rw [hname, show w.server.connections.find? w.server.connName = none from hnew]
      exact iff_of_false (fun he => hne (Option.some.inj he).symm) fun he => by cases he
    · rfl

theorem Inv.accept (sockfd : Int) (loop : Nat) (h : Inv w) (hnew : w.Unused)
    (hnext : w.server.numLoops = 0 ∨ n < w.server.numLoops) :
    Sound (· ≠ w.accepted) (w.accept sockfd loop n) := by
  have hmem : ∀ d, d < w.accepted → (w.accept sockfd loop n).member d = w.member d :=
    fun d hd => update_of_ne (Nat.ne_of_lt hd) ..
  have hself := member_accept w sockfd loop n
  refine ⟨fun d hd hne => ?_, fun d hd => ?_, fun l e he => ?_, h.once, fun l e he hcl => ?_,
    fun k c hk => ?_, hnext⟩
  · have hlt : d < w.accepted := Nat.lt_of_le_of_ne (Nat.lt_succ_iff.mp hd) hne
    rw [view_accept hnew hlt]
    exact h.stage hlt
  · obtain ⟨h1, h2, h3⟩ := h.absent d (Nat.le_of_succ_le hd)
    exact ⟨h1, h2, h3⟩
  · obtain ⟨h1, h2, h3⟩ := h.todo l e he
    rw [hmem e.1 h1]
    exact ⟨Nat.lt_succ_of_lt h1, h2, h3⟩
  · rw [hmem e.1 (h.todo l e he).1]
    exact h.closes l e he hcl
  · simp only [World.accept, OrdMap.find?_insert] at hk
    split at hk
    · rename_i hk'
      cases hk
      rw [hself]
      exact ⟨Nat.lt_succ_self _, hk'.symm⟩
    · obtain ⟨hc, hname⟩ := h.keys k c hk
      rw [hmem c hc]
      exact ⟨Nat.lt_succ_of_lt hc, hname⟩

theorem Inv.accepted (sockfd : Int) (loop n : Nat) (h : Inv w) :
    Phase (view (w.accept sockfd loop n) w.accepted) 0 ∧
      (view (w.accept sockfd loop n) w.accepted).due = fun _ => [] := by
  obtain ⟨hhap, hdue, hbusy⟩ := h.absent w.accepted (Nat.le_refl _)
  have hhap' : (view (w.accept sockfd loop n) w.accepted).happened = [] := hhap
  have hm : (view (w.accept sockfd loop n) w.accepted).member = _ :=
    member_accept w sockfd loop n
  refine ⟨⟨by decide, by rw [hhap']; rfl, by rw [hhap']; rfl,
    fun _ => ⟨?_, ?_, ?_, hbusy⟩, fun h0 => absurd rfl h0, ?_⟩, hdue⟩
  · rw [hm]
  · rw [hm]
    exact TcpConnection.New.ok ⟨rfl, rfl, rfl, rfl⟩
  · rw [hm]
    rfl
  · refine iff_of_true ?_ (by decide)
    simp only [view, member_accept]
    simp [World.accept]

theorem Inv.newConnection_ok (sockfd : Int) (h : Inv w) :
    ∃ loop n w' k, (w.server.numLoops = 0 ∨ n < w.server.numLoops) ∧
      step w (.newConnection sockfd) = .ok w' ∧ Only w.accepted (w.accept sockfd loop n) w' ∧
      Stage w.accepted (view w' w.accepted) k := by
  obtain ⟨loop, n, hloop, hnext⟩ := getNextLoop_ok h.next
  obtain ⟨hp, hd⟩ := h.accepted sockfd loop n
  have hstep : step w (.newConnection sockfd) =
      if loop = 0 then (w.accept sockfd loop n).connectEstablished 0 w.accepted
      else .ok ((w.accept sockfd loop n).queueInLoop loop (.connectEstablished w.accepted)) := by
    simp only [step, World.newConnection, hloop, ok_bind]
    rfl
  rw [hstep]
  split
  · obtain ⟨w', hw', ho, hk, -⟩ := connectEstablished_ok 0 hp hd
    exact ⟨loop, n, w', 1, hnext, hw', ho, hk⟩
  · refine ⟨loop, n, _, 0, hnext, rfl,
      only_queueInLoop _ loop (.connectEstablished w.accepted), ?_⟩
    rw [view_queue_lifecycle _ loop w.accepted rfl rfl, hd]
    refine ⟨⟨hp.bound, hp.passed, hp.first, hp.unborn, hp.alive, hp.listed⟩, funext fun l => ?_⟩
    show _ = dueAt w.accepted ((w.accept sockfd loop n).member w.accepted).loop 0 l
    rw [member_accept]
    rfl

theorem Inv.newConnection (sockfd : Int) (h : Inv w) (hnew : w.Unused) :
    ∃ w', step w (.newConnection sockfd) = .ok w' ∧ Inv w' := by
  obtain ⟨loop, n, w', k, hnext, hw', ho, hk⟩ := h.newConnection_ok sockfd
  have hs := h.accept sockfd loop hnew hnext
  have hc : w.accepted < (w.accept sockfd loop n).accepted := Nat.lt_succ_self _
  have hnone : ∀ l, ∀ e ∈ (w.accept sockfd loop n).todo l, e.1 ≠ w.accepted :=
    fun l e he => Nat.ne_of_lt (h.todo l e he).1
  exact ⟨w', hw', hs.touch hc ho hk fun l e he hec => absurd hec (hnone l e he)⟩

-- ---------------------------------------------------------------------------
-- Runs
-- ---------------------------------------------------------------------------

theorem inv_safe : machine.Safe Inv := by
  rintro w label h hen
  cases label with
  | newConnection sockfd => exact h.newConnection sockfd (h.unused hen)
  | poll loop active => exact h.poll hen
  | dispatch loop rd wr => exact h.dispatch hen
  | functor loop wr => exact h.functor hen
  | send inLoop c data wr => exact h.send hen
  | shutdown inLoop c => exact h.shutdown hen
  | retrieve c len => exact h.retrieve hen

theorem start_inv (name hostport : Bytes) (numLoops : Nat) (wc : Bool) :
    Inv (start name hostport numLoops wc) where
  stages _ hc := absurd hc (Nat.not_lt_zero _)
  absent _ _ := ⟨rfl, rfl, fun ⟨_, _, hm⟩ => by cases hm⟩
  todo _ _ he := by cases he
  once _ := .nil
  closes _ _ he := by cases he
  keys _ _ hk := by cases hk
  next := Nat.eq_zero_or_pos numLoops

theorem count_take_established :
    ∀ k ≤ 4, (lifecycle.take k).count .established = if k = 0 then 0 else 1 := by
  decide

theorem mem_take_removed : ∀ k ≤ 4, .removed ∈ lifecycle.take k ↔ ¬k ≤ 2 := by
  decide

theorem Stage.established_count (h : Stage c v k) (l : Nat) :
    (v.due l).count (.connectEstablished c) =
      if l = v.member.loop then 1 - v.happened.count .established else 0 := by
  have hone : v.happened.count .established = if k = 0 then 0 else 1 := by
    rw [← count_take_established k h.bound, ← h.passed]
    exact (List.count_filter (by decide)).symm
  rw [h.due, hone]
  by_cases h0 : k = 0
  · subst h0
    simp only [dueAt]
    split <;> simp
  · unfold dueAt
    split
    · exact absurd rfl h0
    all_goals (try split) <;> simp

theorem Stage.removed_mem (h : Stage c v k) : .removed ∈ v.happened ↔ ¬k ≤ 2 := by
  rw [← mem_take_removed k h.bound, ← h.passed]
  simp

/-- Whatever the loops do and in whatever order: a connection is established
once, on its own loop, before any of its events is handled; it is closed,
removed and destroyed at most once, in this order; no assertion fails; and the
registry holds the connections accepted and not removed. -/
theorem registry {name hostport : Bytes} {numLoops : Nat} {wc : Bool}
    (h : machine.Run (start name hostport numLoops wc) labels w) :
    (∀ c < w.accepted,
      (∃ k, (w.happened c).filter (· ≠ .event) = lifecycle.take k) ∧
      (∀ m, (w.happened c).head? = some m → m = .established) ∧
      (∀ l, (w.queue l).count (.connectEstablished c) =
        if l = (w.member c).loop then 1 - (w.happened c).count .established else 0)) ∧
    (∀ key c, w.server.connections.find? key = some c ↔
      c < w.accepted ∧ (w.member c).name = key ∧ .removed ∉ w.happened c) ∧
    machine.NoFault w := by
  obtain ⟨hinv, hsafe⟩ := h.safe inv_safe (start_inv name hostport numLoops wc)
  have hcount : ∀ c l, (w.queue l).count (.connectEstablished c) =
      ((view w c).due l).count (.connectEstablished c) := by
    intro c l
    exact (List.count_filter (by simp [Task.isLifecycle, Task.conn])).symm
  refine ⟨fun c hc => ?_, fun key c => ⟨fun hk => ?_, ?_⟩, hsafe⟩
  · obtain ⟨k, hk⟩ := hinv.stage hc
    refine ⟨⟨k, hk.passed⟩, fun m hm => ?_, fun l => ?_⟩
    · have hf := hk.first
      rw [show (view w c).happened.head? = some m from hm] at hf
      split at hf
      · cases hf
      · exact Option.some.inj hf
    · rw [hcount]
      exact hk.established_count l
  · obtain ⟨hc, hname⟩ := hinv.keys key c hk
    obtain ⟨k, hst⟩ := hinv.stage hc
    refine ⟨hc, hname, fun hm => ?_⟩
    refine hst.removed_mem.mp hm (hst.listed.mp ?_)
    rw [← hname] at hk
    exact hk
  · rintro ⟨hc, rfl, hm⟩
    obtain ⟨k, hst⟩ := hinv.stage hc
    exact hst.listed.mpr (not_not.mp (mt hst.removed_mem.mpr hm))

/-- One connection on an I/O loop, from its acceptance to its destruction. -/
theorem registry_oneLife : ∃ w : World,
    machine.Run (start (ascii "echo") (ascii "127.0.0.1:2000") 1 false)
      [.newConnection 7, .functor 1 (.accepted 0), .poll 1 [(0, POLLIN)],
        .dispatch 1 (.data []) (.accepted 0), .functor 0 (.accepted 0), .functor 1 (.accepted 0)]
      w ∧
    w.happened 0 = [.established, .event, .closed, .removed, .destroyed] ∧
    w.server.connections.find? (ascii "echo:127.0.0.1:2000#1") = none ∧ machine.NoFault w := by
  have hrun : ∃ w, machine.Run (start (ascii "echo") (ascii "127.0.0.1:2000") 1 false)
      [.newConnection 7, .functor 1 (.accepted 0), .poll 1 [(0, POLLIN)],
        .dispatch 1 (.data []) (.accepted 0), .functor 0 (.accepted 0), .functor 1 (.accepted 0)]
      w ∧ w.happened 0 = [.established, .event, .closed, .removed, .destroyed] ∧
        w.server.connections.find? (ascii "echo:127.0.0.1:2000#1") = none :=
    Machine.exists_run (by decide +kernel)
  obtain ⟨w, hw, hlog, hgone⟩ := hrun
  exact ⟨w, hw, hlog, hgone, (registry hw).2.2⟩

end Muduo.World
