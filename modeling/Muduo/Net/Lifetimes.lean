import Muduo.Net.ServerRuns

/-!
# Lifetimes

The registry and the functors that bind a shared pointer keep a connection alive.
`send` and `shutdown` from another thread bind a bare pointer, and a poller and a
loop's list of active channels hold one to its channel. `Tidy` says where these
can be, and that they are gone when `connectDestroyed` has run. Between the steps
of `World`, that is: a thread that stops inside of `send`, behind the test of
`state_`, is not in it.
-/

namespace Muduo

open Lib Function TcpServer

/-- The functor binds `this`. -/
def TcpConnection.Functor.bare : TcpConnection.Functor → Bool
  | .sendInLoop _ => true
  | .shutdownInLoop => true
  | .writeComplete => false
  | .highWaterMark _ => false

def TcpServer.Task.bare (c : Nat) : Task → Bool
  | .connection d f => d = c && f.bare
  | _ => false

namespace TcpConnection

variable {c c' : TcpConnection} {effects : List Effect}

-- ---------------------------------------------------------------------------
-- What a call leaves to the loop
-- ---------------------------------------------------------------------------

/-- Nothing is left to the loop that binds `this`. -/
def Shared (effects : List Effect) : Prop := ∀ f, .queueInLoop f ∈ effects → f.bare = false

theorem shared_nil : Shared [] := nofun

theorem Shared.append (h : Shared xs) (h' : Shared ys) : Shared (xs ++ ys) := by
  intro f hf
  rcases List.mem_append.mp hf with hf | hf
  · exact h f hf
  · exact h' f hf

theorem shared_crossing (c : TcpConnection) (n : Nat) : Shared (c.crossing n) := by
  unfold crossing
  simp only
  split
  · simp [Shared, Functor.bare]
  · exact shared_nil

theorem shared_writeDirectly (c : TcpConnection) (data : Bytes) (r : WriteResult) :
    Shared (c.writeDirectly data r).effects := by
  unfold writeDirectly
  split
  · cases r with
    | accepted n =>
      simp only
      split <;> simp [Shared, Functor.bare]
    | error errno => simp [Shared]
  · exact shared_nil

theorem sendInLoop_shared (hs : c.sendInLoop data r = .ok (c', effects)) : Shared effects := by
  unfold sendInLoop at hs
  split at hs
  · cases hs
    exact shared_nil
  · simp only [bind_ok, ensure_ok] at hs
    obtain ⟨_, -, hs⟩ := hs
    split at hs
    · obtain ⟨out, -, hs⟩ := bind_ok.mp hs
      cases hs
      exact (shared_writeDirectly c data r).append (shared_crossing c _)
    · cases hs
      exact shared_writeDirectly c data r

theorem shutdownInLoop_shared (c : TcpConnection) : Shared c.shutdownInLoop := by
  unfold shutdownInLoop
  split <;> simp [Shared]

theorem handleClose_shared (hs : c.handleClose = .ok (c', effects)) : Shared effects := by
  obtain ⟨_, -, hs⟩ := bind_ok.mp hs
  cases hs
  simp [Shared]

theorem handleRead_shared (hs : c.handleRead r = .ok (c', effects)) : Shared effects := by
  obtain ⟨⟨input, n, saved⟩, -, hs⟩ := bind_ok.mp hs
  simp only at hs
  split at hs
  · cases hs
    simp [Shared]
  · split at hs
    · exact handleClose_shared hs
    · cases hs
      exact shared_nil

theorem handleWrite_shared (hs : c.handleWrite r = .ok (c', effects)) : Shared effects := by
  unfold handleWrite at hs
  split at hs
  · cases r with
    | error errno =>
      cases hs
      simp [Shared]
    | accepted n =>
      simp only at hs
      split at hs
      · obtain ⟨out, -, hs⟩ := bind_ok.mp hs
        split at hs
        · cases hs
          refine Shared.append ?_ ?_
          · split <;> simp [Shared, Functor.bare]
          · split
            · exact shutdownInLoop_shared _
            · exact shared_nil
        · cases hs
          simp [Shared]
      · cases hs
        simp [Shared]
  · cases hs
    exact shared_nil

theorem handle_shared (hs : c.handle rd wr cb = .ok (c', effects)) : Shared effects := by
  cases cb with
  | close => exact handleClose_shared hs
  | read => exact handleRead_shared hs
  | write => exact handleWrite_shared hs
  | error =>
    cases hs
    exact shared_nil

theorem runFunctor_shared (hs : c.runFunctor wr f = .ok (c', effects)) : Shared effects := by
  cases f with
  | sendInLoop message => exact sendInLoop_shared hs
  | shutdownInLoop =>
    cases hs
    exact shutdownInLoop_shared c
  | writeComplete | highWaterMark size =>
    cases hs
    exact shared_nil

theorem connectEstablished_shared (hs : c.connectEstablished = .ok (c', effects)) :
    Shared effects := by
  obtain ⟨_, -, hs⟩ := bind_ok.mp hs
  cases hs
  simp [Shared]

theorem connectDestroyed_shared (hs : c.connectDestroyed = .ok (c', effects)) :
    Shared effects := by
  unfold connectDestroyed at hs
  split at hs
  · simp only [ok_bind] at hs
    obtain ⟨_, -, hs⟩ := bind_ok.mp hs
    cases hs
    simp [Shared]
  · simp only [ok_bind] at hs
    obtain ⟨_, -, hs⟩ := bind_ok.mp hs
    cases hs
    simp [Shared]

/-- `send` and `shutdown` bind `this` only while the connection is connected, and
never close it. -/
structure Guarded (c : TcpConnection) (effects : List Effect) : Prop where
  connected : ∀ f, .queueInLoop f ∈ effects → f.bare = true → c.state = .kConnected
  opens : .closeCallback ∉ effects

theorem send_guarded (hs : c.send inLoop data r = .ok (c', effects))
    (hq : .closeCallback ∉ effects) : Guarded c effects := by
  refine ⟨fun f hf hb => ?_, hq⟩
  unfold send at hs
  split at hs
  · assumption
  · cases hs
    cases hf

theorem shutdown_guarded (hs : c.shutdown inLoop = (c', effects))
    (hq : .closeCallback ∉ effects) : Guarded c effects := by
  refine ⟨fun f hf hb => ?_, hq⟩
  unfold shutdown at hs
  split at hs
  · assumption
  · cases hs
    cases hf

end TcpConnection

namespace World

variable {w w' : World} {effects : List TcpConnection.Effect}

-- ---------------------------------------------------------------------------
-- What a call leaves in the queues
-- ---------------------------------------------------------------------------

structure Grown (P : Nat → Task → Prop) (w w' : World) : Prop where
  queue : ∀ l, ∃ added, w'.queue l = w.queue l ++ added ∧ ∀ t ∈ added, P l t
  todo : w'.todo = w.todo
  loop : ∀ d, (w'.member d).loop = (w.member d).loop
  destroyed : ∀ d, .destroyed ∈ w'.happened d → .destroyed ∈ w.happened d

section
variable {P : Nat → Task → Prop}

theorem Grown.same (hq : w'.queue = w.queue) (ht : w'.todo = w.todo)
    (hl : ∀ d, (w'.member d).loop = (w.member d).loop)
    (hd : ∀ d, .destroyed ∈ w'.happened d → .destroyed ∈ w.happened d) : Grown P w w' :=
  ⟨fun l => ⟨[], by rw [hq, List.append_nil], nofun⟩, ht, hl, hd⟩

theorem Grown.trans (h : Grown P w w') (h' : Grown P w' w'') : Grown P w w'' where
  queue l := by
    obtain ⟨xs, hxs, hx⟩ := h.queue l
    obtain ⟨ys, hys, hy⟩ := h'.queue l
    refine ⟨xs ++ ys, by rw [hys, hxs, List.append_assoc], fun t ht => ?_⟩
    rcases List.mem_append.mp ht with ht | ht
    · exact hx t ht
    · exact hy t ht
  todo := h'.todo.trans h.todo
  loop d := (h'.loop d).trans (h.loop d)
  destroyed d hd := h.destroyed d (h'.destroyed d hd)

theorem grown_setConn (w : World) (c : Nat) (conn : TcpConnection) :
    Grown P w (w.setConn c conn) := by
  refine .same rfl rfl (fun d => ?_) fun _ => id
  by_cases hd : d = c
  · rw [hd]
    simp [setConn]
  · simp [setConn, hd]

theorem happened_note (w : World) (c d : Nat) (m : Milestone) :
    (w.note c m).happened d = w.happened d ++ if c = d then [m] else [] := by
  by_cases hd : c = d <;> simp [note, happened, hd]

theorem grown_note (w : World) (c : Nat) (hm : m ≠ .destroyed) : Grown P w (w.note c m) := by
  refine .same rfl rfl (fun _ => rfl) fun d hd => ?_
  rw [happened_note, List.mem_append] at hd
  refine hd.resolve_right fun hin => ?_
  split at hin
  · exact hm (List.mem_singleton.mp hin).symm
  · cases hin

theorem grown_queueInLoop (w : World) (h : P loop t) : Grown P w (w.queueInLoop loop t) := by
  refine ⟨fun l => ?_, rfl, fun _ => rfl, fun _ => id⟩
  by_cases hl : l = loop
  · refine ⟨[t], by simp [queueInLoop, hl], fun t' ht' => ?_⟩
    rw [List.mem_singleton.mp ht', hl]
    exact h
  · exact ⟨[], by simp [queueInLoop, hl], by rintro _ ⟨⟩⟩

theorem removeConnectionInLoop_grown (hs : w.removeConnectionInLoop c = .ok w')
    (hd : ∀ l, P l (.connectDestroyed c)) : Grown P w w' := by
  obtain ⟨_, -, hs⟩ := bind_ok.mp hs
  cases hs
  have herase : Grown P w (w.unregister c) := .same rfl rfl (fun _ => rfl) fun _ => id
  exact (herase.trans (grown_note _ c (m := .removed) nofun)).trans (grown_queueInLoop _ (hd _))

theorem perform_grown (hs : perform here c effects w = .ok w')
    (hq : ∀ f, .queueInLoop f ∈ effects → P (w.member c).loop (.connection c f))
    (hc : .closeCallback ∈ effects →
      P 0 (.removeConnectionInLoop c) ∧ ∀ l, P l (.connectDestroyed c)) : Grown P w w' := by
  induction effects generalizing w with
  | nil =>
    cases hs
    exact .same rfl rfl (fun _ => rfl) fun _ => id
  | cons e effects ih =>
    have hc' := fun hm => hc (List.mem_cons_of_mem e hm)
    cases e with
    | queueInLoop f =>
      have hfirst : Grown P w (w.queueInLoop (w.member c).loop (.connection c f)) :=
        grown_queueInLoop w (hq f List.mem_cons_self)
      exact hfirst.trans (ih hs (fun g hg => hq g (List.mem_cons_of_mem _ hg)) hc')
    | closeCallback =>
      obtain ⟨w₁, hremove, hs⟩ := bind_ok.mp hs
      obtain ⟨h0, hd⟩ := hc List.mem_cons_self
      have hfirst : Grown P w w₁ := by
        refine (grown_note w c (m := .closed) nofun).trans ?_
        unfold removeConnection at hremove
        split at hremove
        · exact removeConnectionInLoop_grown hremove hd
        · cases hremove
          exact grown_queueInLoop _ h0
      refine hfirst.trans (ih hs (fun g hg => ?_) hc')
      rw [hfirst.loop]
      exact hq g (List.mem_cons_of_mem _ hg)
    | write _ _ | shutdownWrite | connectionCallback _ | messageCallback | removeChannel =>
      exact ih hs (fun g hg => hq g (List.mem_cons_of_mem _ hg)) hc'

theorem call_grown (hs : w.call here c f = .ok w') (hf : ∀ conn effects,
    f (w.member c).conn = .ok (conn, effects) →
      (∀ g, .queueInLoop g ∈ effects → P (w.member c).loop (.connection c g)) ∧
      (.closeCallback ∈ effects →
        P 0 (.removeConnectionInLoop c) ∧ ∀ l, P l (.connectDestroyed c))) : Grown P w w' := by
  obtain ⟨⟨conn, effects⟩, hcall, hs⟩ := bind_ok.mp hs
  obtain ⟨hq, hc⟩ := hf conn effects (mapError_ok.mp hcall)
  have hset : Grown P w (w.setConn c conn) := grown_setConn w c conn
  refine hset.trans (perform_grown hs (fun g hg => ?_) hc)
  rw [hset.loop]
  exact hq g hg

end

-- ---------------------------------------------------------------------------
-- Bare pointers
-- ---------------------------------------------------------------------------

/-- `t` may stand behind `t'` in a queue. -/
def Behind (t' t : Task) : Prop := ∀ c, t' = .connectDestroyed c → t.bare c = false

/-- Bare pointers to a connection are on its own loop, in front of its
destruction, and nowhere when it was destroyed. -/
structure Tidy (w : World) : Prop where
  home : ∀ l, ∀ t ∈ w.queue l, ∀ c, t.bare c → l = (w.member c).loop
  behind : ∀ l, (w.queue l).Pairwise Behind
  gone : ∀ c, .destroyed ∈ w.happened c → ∀ l, ∀ t ∈ w.queue l, t.bare c = false
  quiet : ∀ c, .destroyed ∈ w.happened c → ∀ l, ∀ e ∈ w.todo l, e.1 ≠ c

theorem Tidy.shared (h : Tidy w) (hg : Grown (fun _ t => ∀ c, t.bare c = false) w w') :
    Tidy w' := by
  refine ⟨fun l t ht c hb => ?_, fun l => ?_, fun c hd l t ht => ?_, fun c hd l e he => ?_⟩
  · obtain ⟨added, hq, hadded⟩ := hg.queue l
    rw [hq] at ht
    rw [hg.loop]
    rcases List.mem_append.mp ht with ht | ht
    · exact h.home l t ht c hb
    · rw [hadded t ht c] at hb
      cases hb
  · obtain ⟨added, hq, hadded⟩ := hg.queue l
    rw [hq]
    refine List.pairwise_append.mpr ⟨h.behind l, ?_, fun _ _ t ht c _ => hadded t ht c⟩
    exact List.pairwise_of_forall_mem_list fun _ _ t ht c _ => hadded t ht c
  · obtain ⟨added, hq, hadded⟩ := hg.queue l
    rw [hq] at ht
    rcases List.mem_append.mp ht with ht | ht
    · exact h.gone c (hg.destroyed c hd) l t ht
    · exact hadded t ht c
  · rw [hg.todo] at he
    exact h.quiet c (hg.destroyed c hd) l e he

theorem Tidy.guarded (h : Tidy w) (hd : .destroyed ∉ w.happened c)
    (hq : ∀ l, .connectDestroyed c ∉ w.queue l)
    (hg : Grown (fun l t => l = (w.member c).loop ∧ ∃ f, t = .connection c f) w w') : Tidy w' := by
  have hbare : ∀ {t d f}, t = Task.connection c f → t.bare d = true → d = c := by
    rintro _ d f rfl hb
    simp only [Task.bare, Bool.and_eq_true, decide_eq_true_eq] at hb
    exact hb.1.symm
  refine ⟨fun l t ht d hb => ?_, fun l => ?_, fun d hd' l t ht => ?_, fun d hd' l e he => ?_⟩
  · obtain ⟨added, hadd, hadded⟩ := hg.queue l
    rw [hadd] at ht
    rw [hg.loop]
    rcases List.mem_append.mp ht with ht | ht
    · exact h.home l t ht d hb
    · obtain ⟨hl, f, hf⟩ := hadded t ht
      rw [hbare hf hb, hl]
  · obtain ⟨added, hadd, hadded⟩ := hg.queue l
    rw [hadd]
    have hother : ∀ t' t, t' ≠ .connectDestroyed c → t ∈ added → Behind t' t := by
      rintro t' t hne ht d rfl
      obtain ⟨-, f, hf⟩ := hadded t ht
      rw [Bool.eq_false_iff]
      exact fun hb => hne (by rw [hbare hf hb])
    refine List.pairwise_append.mpr ⟨h.behind l, ?_, fun t' ht' t ht => hother t' t ?_ ht⟩
    · refine List.pairwise_of_forall_mem_list fun t' ht' t ht => hother t' t ?_ ht
      obtain ⟨-, f, rfl⟩ := hadded t' ht'
      nofun
    · rintro rfl
      exact hq l ht'
  · obtain ⟨added, hadd, hadded⟩ := hg.queue l
    rw [hadd] at ht
    have hd₀ := hg.destroyed d hd'
    rcases List.mem_append.mp ht with ht | ht
    · exact h.gone d hd₀ l t ht
    · obtain ⟨-, f, hf⟩ := hadded t ht
      rw [Bool.eq_false_iff]
      intro hb
      rw [hbare hf hb] at hd₀
      exact hd hd₀
  · rw [hg.todo] at he
    exact h.quiet d (hg.destroyed d hd') l e he

theorem Tidy.call_shared (h : Tidy w) (hs : w.call here c f = .ok w')
    (hf : ∀ conn effects, f (w.member c).conn = .ok (conn, effects) →
      TcpConnection.Shared effects) : Tidy w' := by
  refine h.shared (call_grown hs fun conn effects hcall => ⟨fun g hg d => ?_, fun _ => ?_⟩)
  · simp [Task.bare, hf conn effects hcall g hg]
  · exact ⟨fun _ => rfl, fun _ _ => rfl⟩

theorem mem_take_destroyed : ∀ k ≤ 4, .destroyed ∈ lifecycle.take k ↔ k = 4 := by
  decide

theorem Stage.destroyed_mem (h : Phase v k) : .destroyed ∈ v.happened ↔ k = 4 := by
  rw [← mem_take_destroyed k h.bound, ← h.passed]
  simp

theorem Stage.mem_due (h : Stage c (view w c) k) (hm : t ∈ w.queue l) (ht : t.isLifecycle)
    (hc : t.conn = c) : t ∈ dueAt c (w.member c).loop k l := by
  have hdue : (view w c).due l = dueAt c (w.member c).loop k l := congrFun h.due l
  rw [← hdue]
  simp [view, hm, ht, hc]

theorem dueAt_destroyed (h : .connectDestroyed c ∈ dueAt c loop k l) : k = 3 ∧ l = loop := by
  unfold dueAt at h
  split at h <;> (try split at h) <;> simp_all

theorem Inv.connected (h : Inv w) (hc : c < w.accepted)
    (hs : (w.member c).conn.state = .kConnected) :
    .destroyed ∉ w.happened c ∧ ∀ l, .connectDestroyed c ∉ w.queue l := by
  obtain ⟨k, hk⟩ := h.stage hc
  have hlt : k ≤ 1 := by
    by_cases h0 : k = 0
    · omega
    · have hdis := (hk.alive h0).2
      by_contra hn
      exact absurd (hs.symm.trans (hdis.mpr (by omega))) nofun
  refine ⟨fun hm => ?_, fun l hm => ?_⟩
  · have := (Stage.destroyed_mem hk.toPhase).mp hm
    omega
  · have := (dueAt_destroyed (hk.mem_due hm rfl rfl)).1
    omega

theorem Tidy.call_guarded (h : Tidy w) (hi : Inv w) (hc : c < w.accepted)
    (hs : w.call here c f = .ok w')
    (hf : ∀ conn effects, f (w.member c).conn = .ok (conn, effects) →
      TcpConnection.Guarded (w.member c).conn effects) : Tidy w' := by
  have hcall := hs
  obtain ⟨⟨conn, effects⟩, hcall', -⟩ := bind_ok.mp hcall
  have hok := mapError_ok.mp hcall'
  have hg := hf conn effects hok
  by_cases hst : (w.member c).conn.state = .kConnected
  · obtain ⟨hd, hq⟩ := hi.connected hc hst
    refine h.guarded hd hq (call_grown hs fun conn' effects' hcall => ?_)
    rw [hok] at hcall
    cases hcall
    exact ⟨fun g _ => ⟨rfl, g, rfl⟩, fun hm => absurd hm hg.opens⟩
  · refine h.call_shared hs fun conn' effects' hcall g hgm => ?_
    rw [hok] at hcall
    cases hcall
    rw [Bool.eq_false_iff]
    exact fun hb => hst (hg.connected g hgm hb)

-- ---------------------------------------------------------------------------
-- Steps
-- ---------------------------------------------------------------------------

theorem Tidy.popTask (h : Tidy w) (hq : w.queue l = t :: rest) : Tidy (w.popTask l rest) := by
  refine ⟨fun l' t' ht' c hb => h.home l' t' (mem_popTask hq ht') c hb, fun l' => ?_,
    fun c hd l' t' ht' => h.gone c hd l' t' (mem_popTask hq ht'), h.quiet⟩
  by_cases hl : l' = l
  · subst hl
    have hb := h.behind l'
    rw [hq] at hb
    simpa [World.popTask] using hb.of_cons
  · simpa [World.popTask, hl] using h.behind l'

/-- Nothing holds a bare pointer when a connection is about to be destroyed. -/
theorem Tidy.destroy (h : Tidy w) (hi : Inv w) (hq : w.queue l = .connectDestroyed c :: rest)
    (ht : w.todo l = []) : Tidy ((w.popTask l rest).note c .destroyed) := by
  have hmem : .connectDestroyed c ∈ w.queue l := by rw [hq]; exact List.mem_cons_self
  have hc : c < w.accepted := hi.mem_queue hmem
  obtain ⟨k, hk⟩ := hi.stage hc
  obtain ⟨-, hl⟩ := dueAt_destroyed (hk.mem_due hmem rfl rfl)
  have hpop := h.popTask hq
  have hnow : ∀ d, .destroyed ∈ ((w.popTask l rest).note c .destroyed).happened d →
      d = c ∨ .destroyed ∈ (w.popTask l rest).happened d := by
    intro d hd
    rw [happened_note, List.mem_append] at hd
    rcases hd with hd | hd
    · exact .inr hd
    · split at hd
      · rename_i hcd
        exact .inl hcd.symm
      · cases hd
  refine ⟨hpop.home, hpop.behind, fun d hd l' t ht' => ?_, fun d hd l' e he => ?_⟩
  · rcases hnow d hd with rfl | hd
    · rw [Bool.eq_false_iff]
      intro hb
      have hhome : l' = (w.member d).loop := hpop.home l' t ht' d hb
      rw [hhome, ← hl] at ht'
      have hrest : t ∈ rest := by simpa [World.popTask, World.note] using ht'
      have hbehind := h.behind l
      rw [hq] at hbehind
      have hnot := List.rel_of_pairwise_cons hbehind hrest d rfl
      rw [hb] at hnot
      cases hnot
    · exact hpop.gone d hd l' t ht'
  · rcases hnow d hd with rfl | hd
    · intro hed
      have hloop := (hi.todo l' e he).2.1
      have hl' : l' = l := by rw [← hloop, hed, hl]
      rw [hl'] at he
      have hnil : e ∈ w.todo l := he
      rw [ht] at hnil
      cases hnil
    · exact hpop.quiet d hd l' e he

theorem Tidy.runTask (h : Tidy w) (hi : Inv w) (hq : w.queue l = t :: rest) (htodo : w.todo l = [])
    (hs : (w.popTask l rest).runTask l wr t = .ok w') : Tidy w' := by
  have hpop := h.popTask hq
  cases t with
  | connectEstablished c =>
    have hnote : Tidy ((w.popTask l rest).note c .established) := hpop.shared (grown_note _ c nofun)
    exact hnote.call_shared (f := TcpConnection.connectEstablished) hs
      fun _ _ => TcpConnection.connectEstablished_shared
  | removeConnectionInLoop c =>
    exact hpop.shared (removeConnectionInLoop_grown hs fun _ _ => rfl)
  | connectDestroyed c =>
    exact (h.destroy hi hq htodo).call_shared (f := TcpConnection.connectDestroyed) hs
      fun _ _ => TcpConnection.connectDestroyed_shared
  | connection c f =>
    exact hpop.call_shared (f := (·.runFunctor wr f)) hs fun _ _ => TcpConnection.runFunctor_shared

theorem Tidy.send (h : Tidy w) (hi : Inv w) (hen : Enabled w (.send inLoop c data wr))
    (hs : step w (.send inLoop c data wr) = .ok w') : Tidy w' := by
  obtain ⟨hc, hfit⟩ := hen
  obtain ⟨k, hk⟩ := hi.stage hc
  refine h.call_guarded (f := (·.send inLoop data wr)) hi hc hs fun conn effects hcall =>
    TcpConnection.send_guarded hcall fun hm => ?_
  by_cases h0 : k = 0
  · subst h0
    have hst : (w.member c).conn.state = .kConnecting := (hk.unborn rfl).1
    simp only [TcpConnection.send, hst, reduceCtorEq, if_false] at hcall
    cases hcall
    cases hm
  · have hsilent := (TcpConnection.send_silent (hk.alive h0).1 hfit hcall).2
    cases hsilent.effects _ hm

theorem Tidy.shutdown (h : Tidy w) (hi : Inv w) (hc : c < w.accepted)
    (hs : step w (.shutdown inLoop c) = .ok w') : Tidy w' := by
  refine h.call_guarded (f := fun conn => .ok (conn.shutdown inLoop)) hi hc hs
    fun conn effects hcall => TcpConnection.shutdown_guarded (Except.ok.inj hcall) fun hm => ?_
  have he : ((w.member c).conn.shutdown inLoop).2 = effects :=
    congrArg Prod.snd (Except.ok.inj hcall)
  rw [← he] at hm
  unfold TcpConnection.shutdown at hm
  split at hm
  · simp only at hm
    split at hm
    · unfold TcpConnection.shutdownInLoop at hm
      split at hm <;> simp at hm
    · simp at hm
  · cases hm

theorem Tidy.accept (h : Tidy w) (hi : Inv w) (sockfd : Int) (loop n : Nat) :
    Tidy (w.accept sockfd loop n) := by
  refine ⟨fun l t ht c hb => ?_, h.behind, h.gone, h.quiet⟩
  have hc : c < w.accepted := by
    cases t with
    | connection d f =>
      simp only [Task.bare, Bool.and_eq_true, decide_eq_true_eq] at hb
      rw [← hb.1]
      exact hi.mem_queue ht
    | connectEstablished d | removeConnectionInLoop d | connectDestroyed d => cases hb
  rw [h.home l t ht c hb]
  simp [World.accept, Nat.ne_of_lt hc]

theorem Tidy.step (h : Tidy w) (hi : Inv w) (hen : Enabled w label) (hs : step w label = .ok w') :
    Tidy w' := by
  cases label with
  | newConnection sockfd =>
    obtain ⟨⟨loop, s⟩, hloop, hs⟩ := bind_ok.mp hs
    obtain ⟨loop', n, hloop', -⟩ := getNextLoop_ok hi.next
    rw [hloop'] at hloop
    cases hloop
    have hacc := h.accept hi sockfd loop n
    simp only at hs
    split at hs
    · have hnote : Tidy ((w.accept sockfd loop n).note w.accepted .established) :=
        hacc.shared (grown_note _ _ (by rintro ⟨⟩))
      exact hnote.call_shared (f := TcpConnection.connectEstablished) hs
        fun _ _ => TcpConnection.connectEstablished_shared
    · cases hs
      exact hacc.shared (grown_queueInLoop _ fun _ => rfl)
  | poll loop active =>
    cases hs
    refine ⟨h.home, h.behind, h.gone, fun c hd l e he => ?_⟩
    by_cases hl : l = loop
    · subst hl
      simp only [update_self, List.mem_flatMap, List.mem_map] at he
      obtain ⟨a, ha, cb, -, rfl⟩ := he
      obtain ⟨hc, -, hn, -⟩ := hen.2.2 a ha
      rintro rfl
      obtain ⟨k, hk⟩ := hi.stage hc
      have h4 := (Stage.destroyed_mem hk.toPhase).mp hd
      exact (hk.watched hn).2 ((hk.alive (by omega)).2.mpr (by omega))
    · simp only [update_of_ne hl] at he
      exact h.quiet c hd l e he
  | dispatch loop rd wr =>
    cases ht : w.todo loop with
    | nil => simp only [Enabled, ht] at hen
    | cons e rest =>
      obtain ⟨c, cb⟩ := e
      simp only [World.step, ht] at hs
      have hpop : Tidy (w.popEvent loop c rest) := by
        have hless : Tidy { w with todo := update w.todo loop rest } :=
          ⟨h.home, h.behind, h.gone,
            fun d hd l e he => h.quiet d hd l e (todo_popEvent (c := c) ht he)⟩
        exact hless.shared (grown_note _ c (by rintro ⟨⟩))
      exact hpop.call_shared (f := (·.handle rd wr cb)) hs fun _ _ => TcpConnection.handle_shared
  | functor loop wr =>
    cases hq : w.queue loop with
    | nil => simp only [Enabled, hq, and_false] at hen
    | cons t rest =>
      simp only [World.step, hq] at hs
      exact h.runTask hi hq hen.1 hs
  | send inLoop c data wr => exact h.send hi hen hs
  | shutdown inLoop c => exact h.shutdown hi hen hs
  | retrieve c len =>
    unfold World.step at hs
    refine h.call_shared hs fun conn effects hcall => ?_
    obtain ⟨input, -, hcall⟩ := bind_ok.mp hcall
    cases hcall
    exact TcpConnection.shared_nil

-- ---------------------------------------------------------------------------
-- Owners
-- ---------------------------------------------------------------------------

/-- Something holds a pointer to the connection or its channel that does not keep
it alive. -/
def Referred (w : World) (c : Nat) : Prop :=
  ¬(w.member c).conn.channel.isNoneEvent ∨ (∃ l, ∃ e ∈ w.todo l, e.1 = c) ∨
    ∃ l, ∃ t ∈ w.queue l, t.bare c = true

/-- The registry keeps the connection alive, or a functor of its life. -/
def Owned (w : World) (c : Nat) : Prop :=
  w.server.connections.find? (w.member c).name = some c ∨
    ∃ l, ∃ t ∈ w.queue l, t.isLifecycle = true ∧ t.conn = c

theorem owned_of_referred (hi : Inv w) (h : Tidy w) (hc : c < w.accepted) (hr : Referred w c) :
    Owned w c := by
  obtain ⟨k, hk⟩ := hi.stage hc
  by_cases h2 : k ≤ 2
  · exact .inl (hk.listed.mpr h2)
  have hbound := hk.bound
  by_cases h3 : k = 3
  · subst h3
    have hdue : .connectDestroyed c ∈ (view w c).due (w.member c).loop := by
      rw [hk.due]
      simp [dueAt, view]
    exact .inr ⟨_, _, List.mem_of_mem_filter hdue, rfl, rfl⟩
  · have hd : .destroyed ∈ w.happened c := (Stage.destroyed_mem hk.toPhase).mpr (by omega)
    obtain ⟨ha, hst⟩ := hk.alive (by omega)
    rcases hr with hn | ⟨l, e, he, hec⟩ | ⟨l, t, ht, hb⟩
    · exact absurd (ha.closed (hst.mpr (by omega))) hn
    · exact absurd hec (h.quiet c hd l e he)
    · rw [h.gone c hd l t ht] at hb
      cases hb

theorem tidy_keeps : machine.Keeps fun w => Inv w ∧ Tidy w :=
  fun h hen hs => ⟨inv_safe.keeps h.1 hen hs, h.2.step h.1 hen hs⟩

theorem start_tidy (name hostport : Bytes) (numLoops : Nat) (wc : Bool) :
    Tidy (start name hostport numLoops wc) where
  home _ _ ht := by cases ht
  behind _ := .nil
  gone _ _ _ _ ht := by cases ht
  quiet _ _ _ _ he := by cases he

/-- In every run of a live server with distinct names and atomic calls: where a bare
pointer to a connection is left, in a queue, a list of events or a poller, the
connection is alive, and when a functor with one is about to run, something else keeps
it alive. No such functor stands behind the destruction of its connection. -/
theorem lifetimes {name hostport : Bytes} {numLoops : Nat} {wc : Bool}
    (h : machine.Run (start name hostport numLoops wc) labels w) (hc : c < w.accepted) :
    (Referred w c → Owned w c) ∧
    (∀ l t rest, w.queue l = t :: rest → t.bare c = true → Owned (w.popTask l rest) c) ∧
    ∀ l before behind, w.queue l = before ++ .connectDestroyed c :: behind →
      ∀ t ∈ behind, t.bare c = false := by
  obtain ⟨hi, ht⟩ := h.keeps tidy_keeps ⟨start_inv .., start_tidy ..⟩
  refine ⟨owned_of_referred hi ht hc, fun l t rest hq hb => ?_, fun l before behind hq t htm => ?_⟩
  · have href : Referred w c := .inr (.inr ⟨l, t, by rw [hq]; exact List.mem_cons_self, hb⟩)
    rcases owned_of_referred hi ht hc href with hl | ⟨l', t', ht', hlife, hconn⟩
    · exact .inl hl
    · refine .inr ⟨l', t', mem_popTask_ne hq ?_ ht', hlife, hconn⟩
      rintro rfl
      cases t' <;> first | cases hb | cases hlife
  · have hpair := ht.behind l
    rw [hq] at hpair
    exact List.rel_of_pairwise_cons (List.pairwise_append.mp hpair).2.1 htm c rfl

/-- A message from another thread waits when the peer closes, and the functor that
sends it is to run before the destruction. -/
theorem lifetimes_lateSend : ∃ w : World,
    machine.Run (start (ascii "echo") (ascii "127.0.0.1:2000") 1 false)
      [.newConnection 7, .functor 1 (.accepted 0), .send false 0 (ascii "ab") (.accepted 0),
        .poll 1 [(0, POLLIN)], .dispatch 1 (.data []) (.accepted 0), .functor 0 (.accepted 0)] w ∧
    w.queue 1 = [.connection 0 (.sendInLoop (ascii "ab")), .connectDestroyed 0] ∧
    Owned (w.popTask 1 [.connectDestroyed 0]) 0 := by
  have hrun : ∃ w, machine.Run (start (ascii "echo") (ascii "127.0.0.1:2000") 1 false)
      [.newConnection 7, .functor 1 (.accepted 0), .send false 0 (ascii "ab") (.accepted 0),
        .poll 1 [(0, POLLIN)], .dispatch 1 (.data []) (.accepted 0), .functor 0 (.accepted 0)] w ∧
      w.accepted = 1 ∧
      w.queue 1 = [.connection 0 (.sendInLoop (ascii "ab")), .connectDestroyed 0] :=
    Machine.exists_run (by decide +kernel)
  obtain ⟨w, hw, hacc, hq⟩ := hrun
  exact ⟨w, hw, hq, (lifetimes hw (by rw [hacc]; decide)).2.1 1 _ _ hq rfl⟩

end World

end Muduo
