import Muduo.Net.TcpServer

/-!
# The registry of connections

`View` is what the world says about one connection. A step touches at most one
connection (`Only`), so it is enough to say for that one how far through its
life it is: `Stage c v k` counts the milestones it has passed, and the functor
that takes it to the next one is queued on the right loop.
-/

namespace Muduo.World

open Lib Function TcpServer

-- ---------------------------------------------------------------------------
-- Views
-- ---------------------------------------------------------------------------

def happened (w : World) (c : Nat) : List Milestone :=
  (w.log.filter fun e => e.1 = c).map Prod.snd

@[ext] structure View where
  member : Member
  happened : List Milestone
  due : Nat → List Task
  busy : Prop
  listed : Prop

def view (w : World) (c : Nat) : View where
  member := w.member c
  happened := w.happened c
  due loop := (w.queue loop).filter fun t => t.isLifecycle ∧ t.conn = c
  busy := ∃ loop f, .connection c f ∈ w.queue loop
  listed := w.server.connections.find? (w.member c).name = some c

/-- Going from `w` to `w'` touches no connection but `c`. -/
structure Only (c : Nat) (w w' : World) : Prop where
  others : ∀ d, d ≠ c → view w' d = view w d
  accepted : w'.accepted = w.accepted
  todo : w'.todo = w.todo
  loop : (w'.member c).loop = (w.member c).loop
  name : (w'.member c).name = (w.member c).name
  keys : ∀ k d, w'.server.connections.find? k = some d → w.server.connections.find? k = some d
  numLoops : w'.server.numLoops = w.server.numLoops
  next : w'.server.next = w.server.next

variable {w w' : World}

theorem Only.refl (c : Nat) (w : World) : Only c w w :=
  ⟨fun _ _ => rfl, rfl, rfl, rfl, rfl, fun _ _ => id, rfl, rfl⟩

theorem Only.trans (h : Only c w w') (h' : Only c w' w'') : Only c w w'' where
  others d hd := (h'.others d hd).trans (h.others d hd)
  accepted := h'.accepted.trans h.accepted
  todo := h'.todo.trans h.todo
  loop := h'.loop.trans h.loop
  name := h'.name.trans h.name
  keys k d hk := h.keys k d (h'.keys k d hk)
  numLoops := h'.numLoops.trans h.numLoops
  next := h'.next.trans h.next

theorem only_setConn (w : World) (c : Nat) (conn : TcpConnection) : Only c w (w.setConn c conn) := by
  refine ⟨fun d hd => ?_, rfl, rfl, ?_, ?_, fun _ _ => id, rfl, rfl⟩
  · simp [view, setConn, hd, happened]
  · simp [setConn]
  · simp [setConn]

@[simp] theorem view_setConn (w : World) (c : Nat) (conn : TcpConnection) :
    view (w.setConn c conn) c = { view w c with member := { w.member c with conn } } := by
  simp [view, setConn, happened]

theorem only_note (w : World) (c : Nat) (m : Milestone) : Only c w (w.note c m) := by
  refine ⟨fun d hd => ?_, rfl, rfl, rfl, rfl, fun _ _ => id, rfl, rfl⟩
  simp [view, note, happened, hd.symm]

@[simp] theorem view_note (w : World) (c : Nat) (m : Milestone) :
    view (w.note c m) c = { view w c with happened := w.happened c ++ [m] } := by
  simp [view, note, happened]

theorem mem_queueInLoop :
    t' ∈ (w.queueInLoop loop t).queue l ↔ t' ∈ w.queue l ∨ l = loop ∧ t' = t := by
  by_cases hl : l = loop
  · subst hl
    simp [queueInLoop]
  · simp [queueInLoop, hl]

theorem filter_queueInLoop (w : World) (loop : Nat) (t : Task) (p : Task → Bool) (l : Nat) :
    ((w.queueInLoop loop t).queue l).filter p =
      (w.queue l).filter p ++ if l = loop ∧ p t then [t] else [] := by
  by_cases hl : l = loop
  · subst hl
    cases hp : p t <;> simp [queueInLoop, List.filter_append, hp]
  · simp [queueInLoop, hl]

theorem only_queueInLoop (w : World) (loop : Nat) (t : Task) :
    Only t.conn w (w.queueInLoop loop t) := by
  refine ⟨fun d hd => View.ext rfl rfl ?_ ?_ rfl, rfl, rfl, rfl, rfl, fun _ _ => id, rfl, rfl⟩
  · funext l
    simp [view, filter_queueInLoop, hd.symm]
  · simp only [view, mem_queueInLoop]
    refine propext ⟨?_, fun ⟨l, f, h⟩ => ⟨l, f, .inl h⟩⟩
    rintro ⟨l, f, h | ⟨-, rfl⟩⟩
    · exact ⟨l, f, h⟩
    · exact absurd rfl hd

theorem view_queue_connection (w : World) (loop c : Nat) (f : TcpConnection.Functor) :
    ∃ b, view (w.queueInLoop loop (.connection c f)) c = { view w c with busy := b } := by
  refine ⟨(view (w.queueInLoop loop (.connection c f)) c).busy, View.ext rfl rfl ?_ rfl rfl⟩
  funext l
  simp [view, filter_queueInLoop, Task.isLifecycle]

theorem view_queue_lifecycle (w : World) (loop c : Nat) (h : t.isLifecycle) (hc : t.conn = c) :
    view (w.queueInLoop loop t) c = { view w c with
      due := fun l => (view w c).due l ++ if l = loop then [t] else [] } := by
  refine View.ext rfl rfl ?_ (propext ⟨?_, fun ⟨l, f, h⟩ => ⟨l, f, ?_⟩⟩) rfl
  · funext l
    simp [view, filter_queueInLoop, h, hc]
  · rintro ⟨l, f, hf⟩
    rcases mem_queueInLoop.mp hf with hf | ⟨-, rfl⟩
    · exact ⟨l, f, hf⟩
    · cases h
  · exact mem_queueInLoop.mpr (.inl h)

def unregister (w : World) (c : Nat) : World :=
  { w with server := { w.server with
      connections := w.server.connections.erase (w.member c).name } }

theorem find?_unregister_self (w : World) (c : Nat) :
    (w.unregister c).server.connections.find? (w.member c).name = none := by
  simp [unregister, OrdMap.find?_erase]

theorem find?_unregister_ne (h : k ≠ (w.member c).name) :
    (w.unregister c).server.connections.find? k = w.server.connections.find? k := by
  simp only [unregister, OrdMap.find?_erase]
  exact if_neg h

theorem only_unregister (h : (view w c).listed) : Only c w (w.unregister c) := by
  refine ⟨fun d hd => View.ext rfl rfl rfl rfl (propext ?_), rfl, rfl, rfl, rfl, fun k d hk => ?_,
    rfl, rfl⟩
  · show (w.unregister c).server.connections.find? (w.member d).name = some d ↔
      w.server.connections.find? (w.member d).name = some d
    by_cases hn : (w.member d).name = (w.member c).name
    · have hc : w.server.connections.find? (w.member c).name = some c := h
      rw [hn, find?_unregister_self, hc]
      exact iff_of_false nofun fun he => hd (Option.some.inj he).symm
    · rw [find?_unregister_ne hn]
  · by_cases hk' : k = (w.member c).name
    · subst hk'
      rw [find?_unregister_self] at hk
      cases hk
    · rwa [find?_unregister_ne hk'] at hk

theorem view_unregister (w : World) (c : Nat) :
    view (w.unregister c) c = { view w c with listed := False } := by
  refine View.ext rfl rfl rfl rfl (propext (iff_of_false ?_ id))
  show ¬(w.unregister c).server.connections.find? (w.member c).name = some c
  rw [find?_unregister_self]
  nofun

def popTask (w : World) (loop : Nat) (rest : List Task) : World :=
  { w with queue := update w.queue loop rest }

theorem mem_popTask (h : w.queue loop = t :: rest) (hm : t' ∈ (w.popTask loop rest).queue l) :
    t' ∈ w.queue l := by
  by_cases hl : l = loop
  · subst hl
    rw [h]
    exact List.mem_cons_of_mem t (by simpa [popTask] using hm)
  · simpa [popTask, hl] using hm

theorem mem_popTask_ne (h : w.queue loop = t :: rest) (ht : t' ≠ t) (hm : t' ∈ w.queue l) :
    t' ∈ (w.popTask loop rest).queue l := by
  by_cases hl : l = loop
  · subst hl
    rw [h] at hm
    simpa [popTask] using (List.mem_cons.mp hm).resolve_left ht
  · simpa [popTask, hl] using hm

theorem filter_popTask (h : w.queue loop = t :: rest) (p : Task → Bool) (l : Nat) :
    (w.queue l).filter p =
      (if l = loop ∧ p t then [t] else []) ++ ((w.popTask loop rest).queue l).filter p := by
  by_cases hl : l = loop
  · subst hl
    cases hp : p t <;> simp [popTask, h, hp]
  · simp [popTask, hl]

theorem only_popTask (h : w.queue loop = t :: rest) : Only t.conn w (w.popTask loop rest) := by
  refine ⟨fun d hd => View.ext rfl rfl ?_ (propext ?_) rfl, rfl, rfl, rfl, rfl, fun _ _ => id,
    rfl, rfl⟩
  · funext l
    simp [view, filter_popTask h, hd.symm]
  · constructor
    · rintro ⟨l, f, hm⟩
      exact ⟨l, f, mem_popTask h hm⟩
    · rintro ⟨l, f, hm⟩
      exact ⟨l, f, mem_popTask_ne h (fun he => hd (by rw [← he]; rfl)) hm⟩

-- ---------------------------------------------------------------------------
-- Calls
-- ---------------------------------------------------------------------------

theorem perform_open (w : World) (here c : Nat) (h : .closeCallback ∉ effects) :
    ∃ w' b, perform here c effects w = .ok w' ∧ Only c w w' ∧
      view w' c = { view w c with busy := b } := by
  induction effects generalizing w with
  | nil => exact ⟨w, (view w c).busy, rfl, .refl c w, rfl⟩
  | cons e effects ih =>
    have hrest : .closeCallback ∉ effects := fun hm => h (List.mem_cons_of_mem e hm)
    cases e with
    | closeCallback => exact absurd List.mem_cons_self h
    | queueInLoop f =>
      obtain ⟨w', b, hw', ho, hv⟩ :=
        ih (w.queueInLoop (w.member c).loop (.connection c f)) hrest
      obtain ⟨b', hv'⟩ := view_queue_connection w (w.member c).loop c f
      exact ⟨w', b, hw', (only_queueInLoop w _ (.connection c f)).trans ho, by rw [hv, hv']⟩
    | write offered result => exact ih w hrest
    | shutdownWrite => exact ih w hrest
    | connectionCallback connected => exact ih w hrest
    | messageCallback => exact ih w hrest
    | removeChannel => exact ih w hrest

theorem call_open (w : World) (here : Nat) (hf : f (w.member c).conn = .ok (conn, effects))
    (h : .closeCallback ∉ effects) :
    ∃ w' b, w.call here c f = .ok w' ∧ Only c w w' ∧
      view w' c = { view w c with member := { w.member c with conn }, busy := b } := by
  obtain ⟨w', b, hw', ho, hv⟩ := perform_open (w.setConn c conn) here c h
  refine ⟨w', b, ?_, (only_setConn w c conn).trans ho, by rw [hv, view_setConn]⟩
  rw [call, hf]
  exact hw'

theorem call_close (hf : f (w.member c).conn =
      .ok (conn, [.connectionCallback false, .closeCallback])) :
    w.call here c f = ((w.setConn c conn).note c .closed).removeConnection here c := by
  rw [call, hf]
  show (((w.setConn c conn).note c .closed).removeConnection here c >>= fun w => .ok w) = _
  cases ((w.setConn c conn).note c .closed).removeConnection here c <;> rfl

-- ---------------------------------------------------------------------------
-- Stages
-- ---------------------------------------------------------------------------

/-- The milestones in the order they are passed. -/
def lifecycle : List Milestone := [.established, .closed, .removed, .destroyed]

/-- The functor that takes connection `c` to its next milestone, where it waits
in a queue. -/
def dueAt (c loop k l : Nat) : List Task :=
  match k with
  | 0 => if l = loop then [.connectEstablished c] else []
  | 2 => if l = 0 then [.removeConnectionInLoop c] else []
  | 3 => if l = loop then [.connectDestroyed c] else []
  | _ => []

structure Phase (v : View) (k : Nat) : Prop where
  bound : k ≤ 4
  passed : v.happened.filter (· ≠ .event) = lifecycle.take k
  first : v.happened.head? = if k = 0 then none else some .established
  unborn : k = 0 → v.member.conn.state = .kConnecting ∧ v.member.conn.Ok ∧
    v.member.conn.channel.isNoneEvent ∧ ¬v.busy
  alive : k ≠ 0 → v.member.conn.Alive ∧ (v.member.conn.state = .kDisconnected ↔ 2 ≤ k)
  listed : v.listed ↔ k ≤ 2

structure Stage (c : Nat) (v : View) (k : Nat) : Prop extends Phase v k where
  due : v.due = dueAt c v.member.loop k

theorem Phase.conn {conn : TcpConnection} (h : Phase v k) (hk : k ≠ 0) (ha : conn.Alive)
    (hs : conn.state = .kDisconnected ↔ v.member.conn.state = .kDisconnected) :
    Phase { v with member := { v.member with conn }, busy := b } k where
  bound := h.bound
  passed := h.passed
  first := h.first
  unborn h0 := absurd h0 hk
  alive _ := ⟨ha, hs.trans (h.alive hk).2⟩
  listed := h.listed

theorem Stage.conn {conn : TcpConnection} (h : Stage c v k) (hk : k ≠ 0) (ha : conn.Alive)
    (hs : conn.state = .kDisconnected ↔ v.member.conn.state = .kDisconnected) :
    Stage c { v with member := { v.member with conn }, busy := b } k :=
  ⟨h.toPhase.conn hk ha hs, h.due⟩

/-- A milestone other than an event takes the connection one phase further. -/
theorem passed_snoc {xs : List Milestone} (h : xs.filter (· ≠ .event) = lifecycle.take k)
    (hm : lifecycle[k]? = some m) :
    (xs ++ [m]).filter (· ≠ .event) = lifecycle.take (k + 1) := by
  have hne : m ≠ .event := by
    rintro rfl
    have := List.mem_of_getElem? hm
    simp [lifecycle] at this
  rw [List.filter_append, h, List.take_add_one, hm]
  simp [hne]

theorem head?_snoc {xs : List Milestone} (h : xs.head? = some m) : (xs ++ [m']).head? = some m := by
  cases xs with
  | nil => cases h
  | cons x xs => exact h

theorem Stage.event (h : Stage c v k) (hk : k ≠ 0) :
    Stage c { v with happened := v.happened ++ [.event] } k := by
  refine ⟨⟨h.bound, ?_, ?_, h.unborn, h.alive, h.listed⟩, h.due⟩
  · simpa using h.passed
  · have hf := h.first
    rw [if_neg hk] at hf ⊢
    exact head?_snoc hf

theorem connectEstablished_ok (here : Nat) (h : Phase (view w c) 0) (hd : (view w c).due = fun _ => []) :
    ∃ w', w.connectEstablished here c = .ok w' ∧ Only c w w' ∧ Stage c (view w' c) 1 ∧
      (w'.member c).conn.state = .kConnected := by
  obtain ⟨hst, hok, -, -⟩ := h.unborn rfl
  have hf := TcpConnection.connectEstablished_ok (c := (w.member c).conn) hst
  obtain ⟨ha, hs, -⟩ := TcpConnection.connectEstablished_alive hok hf
  obtain ⟨w', b, hw', ho, hv⟩ :=
    call_open (w.note c .established) here hf (by simp)
  refine ⟨w', hw', (only_note w c _).trans ho, ?_, ?_⟩
  · rw [hv, view_note]
    refine ⟨⟨by decide, passed_snoc h.passed rfl, ?_, nofun, fun _ => ⟨ha, ?_⟩, ?_⟩, hd⟩
    · have hempty : w.happened c = [] := List.head?_eq_none_iff.mp h.first
      simp [hempty]
    · exact iff_of_false (by rw [hs]; nofun) (by decide)
    · exact h.listed.trans (iff_of_true (by decide) (by decide))
  · have hm := congrArg View.member hv
    have hc : (w'.member c).conn = _ := congrArg Member.conn hm
    rw [hc]

theorem Phase.pass (h : Phase v k) (hk : k ≠ 0) (hm : lifecycle[k]? = some m)
    (ha : v'.member.conn.Alive) (hs : v'.member.conn.state = .kDisconnected ↔ 2 ≤ k + 1)
    (hh : v'.happened = v.happened ++ [m]) (hl : v'.listed ↔ k + 1 ≤ 2) : Phase v' (k + 1) where
  bound := (List.getElem?_eq_some_iff.mp hm).1
  passed := by
    rw [hh]
    exact passed_snoc h.passed hm
  first := by
    have hf := h.first
    rw [if_neg hk] at hf
    rw [hh, if_neg (Nat.succ_ne_zero k)]
    exact head?_snoc hf
  unborn h0 := absurd h0 (Nat.succ_ne_zero k)
  alive _ := ⟨ha, hs⟩
  listed := hl

theorem removeConnectionInLoop_ok (h : Phase (view w c) 2) (hd : (view w c).due = fun _ => []) :
    ∃ w', w.removeConnectionInLoop c = .ok w' ∧ Only c w w' ∧ Stage c (view w' c) 3 ∧
      (w'.member c).conn = (w.member c).conn := by
  have hl : w.server.connections.find? (w.member c).name = some c := h.listed.mpr (by decide)
  obtain ⟨ha, hs⟩ := h.alive (by decide)
  have hview : view (((w.unregister c).note c .removed).queueInLoop (w.member c).loop
      (.connectDestroyed c)) c = { view w c with
        happened := (view w c).happened ++ [.removed]
        due := fun l => if l = (w.member c).loop then [.connectDestroyed c] else []
        listed := False } := by
    refine (view_queue_lifecycle _ _ c rfl rfl).trans ?_
    rw [view_note, view_unregister, hd]
    rfl
  refine ⟨((w.unregister c).note c .removed).queueInLoop (w.member c).loop (.connectDestroyed c),
    ?_, ?_, ?_, rfl⟩
  · simp only [removeConnectionInLoop, ensure_bind (OrdMap.count_eq_one hl)]
    rfl
  · exact ((only_unregister hl).trans (only_note _ c _)).trans
      (only_queueInLoop _ _ (.connectDestroyed c))
  · rw [hview]
    exact ⟨h.pass (by decide) rfl ha (iff_of_true (hs.mpr (by decide)) (by decide)) rfl
      (iff_of_false id (by decide)), rfl⟩

/-- The close callback takes an open connection to the base loop. -/
theorem close_ok {conn : TcpConnection} (h : Stage c (view w c) 1)
    (hf : f (w.member c).conn = .ok (conn, [.connectionCallback false, .closeCallback]))
    (ha : conn.Alive) (hs : conn.state = .kDisconnected) :
    ∃ w' k, w.call here c f = .ok w' ∧ Only c w w' ∧ Stage c (view w' c) k ∧
      (w'.member c).conn = conn := by
  have honly := (only_setConn w c conn).trans (only_note _ c .closed)
  have hphase : Phase (view ((w.setConn c conn).note c .closed) c) 2 := by
    rw [view_note]
    refine h.toPhase.pass (by decide) rfl ?_ (iff_of_true ?_ (by decide)) rfl ?_
    · simpa [view, setConn] using ha
    · simpa [view, setConn] using hs
    · rw [view_setConn]
      exact h.listed.trans (iff_of_true (by decide) (by decide))
  have hdue : (view ((w.setConn c conn).note c .closed) c).due = fun _ => [] := by
    rw [view_note, view_setConn]
    exact h.due
  have hconn : (((w.setConn c conn).note c .closed).member c).conn = conn := by
    simp [setConn, note]
  rw [call_close hf, removeConnection]
  split
  · obtain ⟨w', hw', ho, hst, hc⟩ := removeConnectionInLoop_ok hphase hdue
    exact ⟨w', 3, hw', honly.trans ho, hst, hc.trans hconn⟩
  · have hview : view (((w.setConn c conn).note c .closed).queueInLoop 0
        (.removeConnectionInLoop c)) c = _ := view_queue_lifecycle _ 0 c rfl rfl
    refine ⟨_, 2, rfl, honly.trans (only_queueInLoop _ 0 (.removeConnectionInLoop c)), ?_, hconn⟩
    rw [hview]
    refine ⟨⟨hphase.bound, hphase.passed, hphase.first, hphase.unborn, hphase.alive,
      hphase.listed⟩, ?_⟩
    simp only [hdue]
    rfl

theorem connectDestroyed_ok (here : Nat) (h : Phase (view w c) 3) (hd : (view w c).due = fun _ => []) :
    ∃ w', w.connectDestroyed here c = .ok w' ∧ Only c w w' ∧ Stage c (view w' c) 4 ∧
      (w'.member c).conn = (w.member c).conn := by
  obtain ⟨ha, hs⟩ := h.alive (by decide)
  have hst : (w.member c).conn.state = .kDisconnected := hs.mpr (by decide)
  have hf := TcpConnection.connectDestroyed_closed hst (ha.closed hst)
  obtain ⟨w', b, hw', ho, hv⟩ :=
    call_open (w.note c .destroyed) here hf (by simp)
  refine ⟨w', hw', (only_note w c _).trans ho, ?_, ?_⟩
  · rw [hv, view_note]
    refine ⟨h.pass (by decide) rfl ha (iff_of_true hst (by decide)) rfl ?_, hd⟩
    exact h.listed.trans (iff_of_false (by decide) (by decide))
  · have hm := congrArg View.member hv
    have hc : (w'.member c).conn = _ := congrArg Member.conn hm
    exact hc

end Muduo.World
