import Muduo.Net.TcpServer

/-!
# What the steps of a server leave alone

A step is made of five moves of the world: a connection changes, a milestone is
noted, the lists of the loops change, the registry forgets a name, a new
connection comes in. A relation kept by the first four is kept by every step
that accepts nothing.
-/

namespace Muduo.World

open Lib Function TcpServer

variable {w w' : World}

/-- `R` holds of what happens between an old and a new world, as long as only
milestones in `p` are noted and nothing is accepted. -/
structure Frame (p : Milestone → Prop) (R : World → World → Prop) : Prop where
  trans : ∀ {w w' w''}, R w w' → R w' w'' → R w w''
  setConn : ∀ w c conn, R w (w.setConn c conn)
  note : ∀ w c {m}, p m → R w (w.note c m)
  loops : ∀ w queue todo, R w { w with queue, todo }
  erase : ∀ w name, R w { w with server := { w.server with
    connections := w.server.connections.erase name } }

section
variable {p : Milestone → Prop} {R : World → World → Prop}

theorem Frame.refl (h : Frame p R) (w : World) : R w w := h.loops w w.queue w.todo

theorem Frame.queueInLoop (h : Frame p R) (w : World) (loop : Nat) (t : Task) :
    R w (w.queueInLoop loop t) := h.loops w _ w.todo

theorem Frame.removeConnectionInLoop (h : Frame p R) (hr : p .removed)
    (hs : w.removeConnectionInLoop c = .ok w') : R w w' := by
  obtain ⟨_, -, hs⟩ := bind_ok.mp hs
  cases hs
  exact h.trans (h.trans (h.erase w _) (h.note _ c hr)) (h.queueInLoop _ _ _)

theorem Frame.removeConnection (h : Frame p R) (hr : p .removed)
    (hs : w.removeConnection here c = .ok w') : R w w' := by
  unfold World.removeConnection at hs
  split at hs
  · exact h.removeConnectionInLoop hr hs
  · cases hs
    exact h.queueInLoop w 0 _

theorem Frame.perform {effects : List TcpConnection.Effect} (h : Frame p R) (hc : p .closed)
    (hr : p .removed) (hs : perform here c effects w = .ok w') : R w w' := by
  induction effects generalizing w with
  | nil =>
    cases hs
    exact h.refl _
  | cons e effects ih =>
    cases e with
    | queueInLoop f => exact h.trans (h.queueInLoop w _ _) (ih hs)
    | closeCallback =>
      obtain ⟨_, hremove, hs⟩ := bind_ok.mp hs
      exact h.trans (h.trans (h.note w c hc) (h.removeConnection hr hremove)) (ih hs)
    | write _ _ | shutdownWrite | connectionCallback _ | messageCallback | removeChannel =>
      exact ih hs

theorem Frame.call (h : Frame p R) (hc : p .closed) (hr : p .removed)
    (hs : w.call here c f = .ok w') : R w w' := by
  obtain ⟨⟨conn, effects⟩, -, hs⟩ := bind_ok.mp hs
  exact h.trans (h.setConn w c conn) (h.perform hc hr hs)

theorem Frame.connectEstablished (h : Frame p R) (he : p .established) (hc : p .closed)
    (hr : p .removed) (hs : w.connectEstablished here c = .ok w') : R w w' :=
  h.trans (h.note w c he) (h.call hc hr hs)

/-- Accepts a connection. -/
def Label.IsNew : Label → Prop
  | .newConnection _ => True
  | _ => False

theorem Frame.runTask {t : Task} (h : Frame (fun _ => True) R)
    (hs : w.runTask here wr t = .ok w') : R w w' := by
  cases t with
  | connectEstablished c => exact h.connectEstablished trivial trivial trivial hs
  | removeConnectionInLoop c => exact h.removeConnectionInLoop trivial hs
  | connectDestroyed c => exact h.trans (h.note w c trivial) (h.call trivial trivial hs)
  | connection c f => exact h.call (f := (·.runFunctor wr f)) trivial trivial hs

theorem Frame.step (h : Frame (fun _ => True) R) (ha : ¬a.IsNew) (hs : step w a = .ok w') :
    R w w' := by
  cases a with
  | newConnection sockfd => exact absurd trivial ha
  | poll loop active =>
    cases hs
    exact h.loops w w.queue _
  | dispatch loop rd wr =>
    unfold World.step at hs
    simp only at hs
    split at hs
    · cases hs
      exact h.refl w
    · rename_i c cb todo _
      have htodo := h.loops w w.queue (update w.todo loop todo)
      exact h.trans (h.trans htodo (h.note _ c trivial)) (h.call trivial trivial hs)
  | functor loop wr =>
    unfold World.step at hs
    simp only at hs
    split at hs
    · cases hs
      exact h.refl w
    · rename_i t queue _
      exact h.trans (h.loops w (update w.queue loop queue) w.todo) (h.runTask hs)
  | send inLoop c data wr => exact h.call (f := (·.send inLoop data wr)) trivial trivial hs
  | shutdown inLoop c =>
    exact h.call (f := fun conn => .ok (conn.shutdown inLoop)) trivial trivial hs
  | retrieve c len =>
    unfold World.step at hs
    exact h.call trivial trivial hs

end

end Muduo.World
