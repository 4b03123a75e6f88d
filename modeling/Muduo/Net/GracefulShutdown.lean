import Muduo.Net.ShutdownSteps

/-!
# Graceful shutdown

No message is lost and the connection is half-closed once, as long as no step
half-closes while the loop has something left to send or to half-close.
-/

namespace Muduo.GracefulShutdown

open Lib TcpConnection
open ConnectionLife (queued)
open OutputStream (Interest accepted)
open WriteInterest (Tracks)

variable {s t : Session} {c c' : TcpConnection} {effects : List Effect}

/-- The kernel has every message, whole. -/
def Whole (sent : List Bytes) (log : List Effect) : Prop :=
  ∃ order : List Bytes, order.Perm sent ∧ accepted log = order.flatten

structure Graceful (s : Session) : Prop where
  whole : ∀ pre post, s.log = pre ++ .shutdownWrite :: post → Whole s.sent pre
  once : s.log.count .shutdownWrite ≤ 1

-- ---------------------------------------------------------------------------
-- Where the messages are
-- ---------------------------------------------------------------------------

theorem messages_callbacks (h : ∀ f ∈ fs, Callback f) : messages fs = [] := by
  rw [messages, List.filterMap_eq_nil_iff]
  intro f hf
  have hcallback := h f hf
  cases f with
  | sendInLoop _ => exact hcallback.elim
  | shutdownInLoop | writeComplete | highWaterMark _ => rfl

theorem not_mem_callbacks {fs : List Functor} (h : ∀ f ∈ fs, Callback f) :
    .shutdownInLoop ∉ fs :=
  fun hmem => h .shutdownInLoop hmem

theorem Ordered.callbacks (h : Ordered fs) (hgs : ∀ g ∈ gs, Callback g) : Ordered (fs ++ gs) :=
  List.pairwise_append.mpr ⟨h,
    List.pairwise_of_forall_mem_list fun _ _ g hg _ => hgs g hg,
    fun _ _ g hg _ => hgs g hg⟩

theorem Ordered.single (h : Ordered fs) (hup : .shutdownInLoop ∉ fs) (g : Functor) :
    Ordered (fs ++ [g]) := by
  refine List.pairwise_append.mpr ⟨h, List.pairwise_singleton _ _, ?_⟩
  rintro f hf _ _ rfl
  exact absurd hf hup

theorem messages_queued (fs : List Functor) (h : Minor effects) :
    messages (fs ++ queued effects) = messages fs := by
  rw [messages_append, messages_callbacks h.callbacks, List.append_nil]

theorem mem_queued (fs : List Functor) (h : Minor effects) :
    .shutdownInLoop ∈ fs ++ queued effects ↔ .shutdownInLoop ∈ fs := by
  rw [List.mem_append, or_iff_left (not_mem_callbacks h.callbacks)]

theorem accepted_queueInLoop (fs : List Functor) : accepted (fs.map .queueInLoop) = [] := by
  rw [accepted, List.flatMap_eq_nil_iff]
  intro e he
  obtain ⟨f, -, rfl⟩ := List.mem_map.mp he
  rfl

theorem accepted_half (pre : List Effect) : accepted (pre ++ [.shutdownWrite]) = accepted pre := by
  rw [OutputStream.accepted_append]
  exact List.append_nil _

theorem Flowing.takes (h : Flowing s) (htakes : Takes s.conn c data.flatten effects)
    (horder : (data ++ messages fs).Perm (messages s.pending ++ calls)) :
    Flowing ⟨c, fs ++ queued effects, s.log ++ effects, s.sent ++ calls⟩ := by
  obtain ⟨handed, hflow, hperm⟩ := h
  refine ⟨handed ++ data, ?_, ?_⟩
  · rw [OutputStream.accepted_append, List.append_assoc, htakes.flow, ← List.append_assoc, hflow,
      List.flatten_append]
  · rw [messages_queued fs htakes.minor, List.append_assoc]
    calc (handed ++ (data ++ messages fs)).Perm (handed ++ (messages s.pending ++ calls)) :=
          horder.append_left handed
      _ = handed ++ messages s.pending ++ calls := (List.append_assoc ..).symm
      _ |>.Perm (s.sent ++ calls) := hperm.append_right calls

theorem Went.flowing (h : Went s a t) (hf : Flow s) (hlog : .shutdownWrite ∉ s.log) :
    Flowing t := by
  have hflowing := hf.flowing hlog
  cases h with
  | passes hp => exact hflowing.takes (hp.flow hlog) hp.order
  | posted data =>
    obtain ⟨handed, hflow, hperm⟩ := hflowing
    refine ⟨handed, ?_, ?_⟩
    · rw [OutputStream.accepted_append]
      simpa [accepted] using hflow
    · rw [messages_append, ← List.append_assoc]
      exact hperm.append_right [data]
  | putOff fs _ hfs =>
    obtain ⟨handed, hflow, hperm⟩ := hflowing
    refine ⟨handed, ?_, ?_⟩
    · rw [OutputStream.accepted_append, accepted_queueInLoop, List.append_nil]
      exact hflow
    · have hnone : messages fs = [] := by rcases hfs with rfl | rfl <;> rfl
      rw [messages_append, hnone, List.append_nil]
      exact hperm
  | @closes pre fs c hcloses _ _ hfs =>
    have horder : (messages fs).Perm (messages s.pending ++ []) := by
      rw [List.append_nil]
      rcases hfs with ⟨rfl, -⟩ | ⟨hp, -⟩
      · exact List.Perm.refl _
      · rw [hp]
        exact List.Perm.refl _
    have htakes : Takes s.conn c (List.flatten []) pre := hcloses.takes
    obtain ⟨handed, hflow, hperm⟩ := hflowing.takes htakes horder
    refine ⟨handed, ?_, ?_⟩
    · rw [← List.append_assoc, accepted_half]
      exact hflow
    · rwa [List.append_nil] at hperm

theorem Went.flow (h : Went s a t) (hf : Flow s) : Flow t := by
  have hlate {effects : List Effect} (hlog : .shutdownWrite ∉ s.log ++ effects) :
      .shutdownWrite ∉ s.log := fun hmem => hlog (List.mem_append_left _ hmem)
  have hflowing : .shutdownWrite ∉ s.log → Flowing t := h.flowing hf
  cases h with
  | passes hp =>
    refine ⟨hp.tracks, ?_, fun hup => ?_, ?_, fun hlog => hflowing (hlate hlog)⟩
    · rw [hp.state]
      exact hf.isOpen
    · obtain ⟨hpending, hlog⟩ := hf.up (hp.state.symm.trans hup)
      refine ⟨?_, ?_⟩
      · rw [mem_queued _ hp.minor]
        exact fun hmem => hpending (hp.queue.subset hmem)
      · rw [List.mem_append, not_or]
        exact ⟨hlog, hp.minor.unfinished⟩
    · exact Ordered.callbacks (hf.order.sublist hp.queue) hp.minor.callbacks
  | posted data hup =>
    obtain ⟨hpending, hlog⟩ := hf.up hup
    refine ⟨hf.tracks, hf.isOpen, fun _ => ⟨?_, ?_⟩, ?_, fun hlog => hflowing (hlate hlog)⟩
    · simpa using hpending
    · simpa using hlog
    · exact hf.order.single hpending _
  | putOff fs hup hfs =>
    obtain ⟨hpending, hlog⟩ := hf.up hup
    have htracks : Tracks { s.conn with state := .kDisconnecting } :=
      ⟨⟨hf.tracks.ok.input, hf.tracks.ok.output, hf.tracks.ok.plain⟩,
        fun _ => hf.tracks.interest (by simp [hup])⟩
    refine ⟨htracks, .inr rfl, nofun, ?_, fun hlog => hflowing (hlate hlog)⟩
    rcases hfs with rfl | rfl
    · rw [List.append_nil]
      exact hf.order
    · exact hf.order.single hpending _
  | closes hcloses htracks hdown hfs =>
    refine ⟨htracks, .inr hdown, fun hup => ?_, ?_, fun hlog => hflowing (hlate hlog)⟩
    · rw [hdown] at hup
      cases hup
    · refine Ordered.callbacks ?_ hcloses.takes.minor.callbacks
      rcases hfs with ⟨rfl, -⟩ | ⟨hp, -⟩
      · exact hf.order
      · have horder := hf.order
        rw [hp] at horder
        exact List.Pairwise.of_cons horder

-- ---------------------------------------------------------------------------
-- The half-close
-- ---------------------------------------------------------------------------

structure Quiet (s : Session) : Prop where
  down : s.conn.state = .kDisconnecting
  still : ¬s.conn.channel.isWriting
  empty : (messages s.pending).flatten = []

/-- The half-close will be made, again, by the loop. -/
def Armed (s : Session) : Prop := .shutdownWrite ∈ s.log ∧ .shutdownInLoop ∈ s.pending

theorem Tracks.still (h : Tracks c) (hopen : c.state ≠ .kDisconnected)
    (hout : c.outputBuffer.readable = []) : ¬c.channel.isWriting := fun hw =>
  (h.interest hopen).mp hw hout

/-- With nothing in the output buffer the kernel has what was handed over. -/
theorem Flowing.whole_iff (h : Flowing s) (hout : s.conn.outputBuffer.readable = []) :
    Whole s.sent s.log ↔ (messages s.pending).flatten = [] := by
  obtain ⟨handed, hflow, hperm⟩ := h
  rw [hout, List.append_nil] at hflow
  constructor
  · rintro ⟨order, horder, haccepted⟩
    have hlen := (horder.trans hperm.symm).flatten.length_eq
    rw [← haccepted, hflow, List.flatten_append, List.length_append] at hlen
    exact List.eq_nil_of_length_eq_zero (by omega)
  · intro hempty
    refine ⟨_, hperm, ?_⟩
    rw [hflow, List.flatten_append, hempty, List.append_nil]

theorem Quiet.not_closing (h : Quiet s) : ¬Closing s a := by
  intro hc
  unfold Closing at hc
  split at hc
  · rw [h.down] at hc
    cases hc.1
  · exact h.still hc.2.1
  · exact hc

theorem Went.quiet (h : Went s a t) (hf : Flow s) (hq : Quiet s) :
    Quiet t ∧ t.sent = s.sent ∧
      ((∃ effects, t.log = s.log ++ effects ∧ .shutdownWrite ∉ effects ∧
          (.shutdownInLoop ∈ t.pending ↔ .shutdownInLoop ∈ s.pending)) ∨
        .shutdownInLoop ∈ s.pending ∧ ∃ pre, t.log = s.log ++ (pre ++ [.shutdownWrite])) := by
  cases h with
  | @passes fs data calls c effects hp _ =>
    have hcalls : calls = [] := by
      refine Classical.not_not.mp fun hne => ?_
      have hup := hp.calls hne
      rw [hq.down] at hup
      cases hup
    subst hcalls
    have horder := hp.order.flatten.length_eq
    rw [List.append_nil, hq.empty, List.flatten_append, List.length_append, List.length_nil]
      at horder
    have hdata : data.flatten = [] := List.eq_nil_of_length_eq_zero (by omega)
    have hout : c.outputBuffer.readable = [] := by
      rw [hp.idle hq.still hdata]
      exact hf.drained hq.still
    have hdown : c.state = .kDisconnecting := hp.state.trans hq.down
    refine ⟨⟨hdown, Tracks.still hp.tracks (by simp [hdown]) hout, ?_⟩, List.append_nil _,
      .inl ⟨effects, rfl, hp.minor.unfinished, ?_⟩⟩
    · rw [messages_queued fs hp.minor]
      exact List.eq_nil_of_length_eq_zero (by omega)
    · rw [mem_queued fs hp.minor]
      exact ⟨fun hmem => hp.queue.subset hmem, hp.left hq.still⟩
  | posted data hup =>
    rw [hq.down] at hup
    cases hup
  | putOff fs hup =>
    rw [hq.down] at hup
    cases hup
  | @closes pre fs c hcloses htracks hdown hfs =>
    rcases hfs with ⟨-, hc⟩ | ⟨hp, -⟩
    · exact absurd hc hq.not_closing
    · have hempty := hq.empty
      rw [hp] at hempty
      refine ⟨⟨hdown, Tracks.still htracks (by simp [hdown]) hcloses.drained, ?_⟩, rfl,
        .inr ⟨?_, pre, rfl⟩⟩
      · rw [messages_queued fs hcloses.takes.minor]
        exact hempty
      · rw [hp]
        exact List.mem_cons_self

theorem Went.late (h : Went s a t) (hf : Flow s) (hlog : .shutdownWrite ∈ s.log) :
    ∃ effects, t.log = s.log ++ effects ∧ t.sent = s.sent := by
  have hdown : s.conn.state ≠ .kConnected := fun hup => (hf.up hup).2 hlog
  cases h with
  | @passes fs data calls c effects hp _ =>
    have hcalls : calls = [] := Classical.not_not.mp fun hne => hdown (hp.calls hne)
    exact ⟨effects, rfl, by rw [hcalls, List.append_nil]⟩
  | posted data hup => exact absurd hup hdown
  | putOff fs hup => exact absurd hup hdown
  | closes => exact ⟨_, rfl, rfl⟩

theorem Graceful.of_append (h : Graceful t) (hlog : t.log = s.log ++ effects)
    (hsent : t.sent = s.sent) : Graceful s := by
  constructor
  · intro pre post hsplit
    have hwhole := h.whole pre (post ++ effects) (by rw [hlog, hsplit]; simp)
    rwa [hsent] at hwhole
  · have honce := h.once
    rw [hlog, List.count_append] at honce
    omega

theorem Graceful.append (h : Graceful s) (hlog : t.log = s.log ++ effects)
    (hsent : t.sent = s.sent) (hno : .shutdownWrite ∉ effects) : Graceful t := by
  constructor
  · intro pre post hsplit
    rw [hlog] at hsplit
    rcases List.append_eq_append_iff.mp hsplit with ⟨rest, rfl, heffects⟩ | ⟨rest, hlog, hrest⟩
    · exact absurd (by rw [heffects]; simp) hno
    · cases rest with
      | nil =>
        rw [List.nil_append] at hrest
        rw [← hrest] at hno
        exact absurd List.mem_cons_self hno
      | cons e rest =>
        obtain ⟨rfl, -⟩ := List.cons_eq_cons.mp hrest
        rw [hsent]
        exact h.whole pre rest hlog
  · rw [hlog, List.count_append, List.count_eq_zero_of_not_mem hno]
    exact h.once

theorem graceful_first {pre : List Effect} (hlog : t.log = pre ++ [.shutdownWrite])
    (hpre : .shutdownWrite ∉ pre) : Graceful t ↔ Whole t.sent t.log := by
  have hwhole : Whole t.sent t.log ↔ Whole t.sent pre := by
    unfold Whole
    rw [hlog, accepted_half]
  rw [hwhole]
  constructor
  · exact fun h => h.whole pre [] hlog
  · intro h
    refine ⟨fun pre' post hsplit => ?_, ?_⟩
    · rw [hlog] at hsplit
      rcases List.eq_nil_or_concat post with rfl | ⟨post, e, rfl⟩
      · rwa [← List.append_inj_left' hsplit rfl]
      · rw [List.concat_eq_append, ← List.cons_append, ← List.append_assoc] at hsplit
        exact absurd (by rw [List.append_inj_left' hsplit rfl]; simp) hpre
    · rw [hlog, List.count_append, List.count_eq_zero_of_not_mem hpre]
      exact Nat.le_refl 1

/-- The first half-close finds the loop clear exactly when its step is orderly. -/
theorem Went.first (h : Went s a t) (hf : Flow s) (hlog : .shutdownWrite ∉ s.log) :
    (.shutdownWrite ∉ t.log ∧ Orderly s a) ∨
      (∃ pre, t.log = pre ++ [.shutdownWrite] ∧ .shutdownWrite ∉ pre) ∧
        t.conn.state = .kDisconnecting ∧ t.conn.outputBuffer.readable = [] ∧
          (Clear t ↔ Orderly s a) := by
  cases h with
  | passes hp hc =>
    refine .inl ⟨?_, fun h => absurd h hc⟩
    rw [List.mem_append, not_or]
    exact ⟨hlog, hp.minor.unfinished⟩
  | posted data _ hc => exact .inl ⟨by simpa using hlog, fun h => absurd h hc⟩
  | putOff fs _ _ hc => exact .inl ⟨by simpa using hlog, fun h => absurd h hc⟩
  | @closes pre fs c hcloses _ hdown hfs =>
    refine .inr ⟨⟨s.log ++ pre, by simp, ?_⟩, hdown, hcloses.drained, ?_⟩
    · rw [List.mem_append, not_or]
      exact ⟨hlog, hcloses.takes.minor.unfinished⟩
    · unfold Clear
      rw [messages_queued fs hcloses.takes.minor, mem_queued fs hcloses.takes.minor]
      rcases hfs with ⟨rfl, hc⟩ | ⟨hp, hc, -⟩
      · exact ⟨fun hclear _ => hclear, fun ho => ho hc⟩
      · -- behind the half-close only user callbacks are left
        have horder := hf.order
        rw [hp] at horder
        have hcallbacks : ∀ f ∈ fs, Callback f := fun f hmem =>
          List.rel_of_pairwise_cons horder hmem rfl
        refine iff_of_true ⟨?_, not_mem_callbacks hcallbacks⟩ fun h => absurd h hc
        rw [messages_callbacks hcallbacks]
        rfl

-- ---------------------------------------------------------------------------
-- Runs
-- ---------------------------------------------------------------------------

structure Inv (s : Session) : Prop where
  flow : Flow s
  quiet : .shutdownWrite ∈ s.log → Graceful s → Quiet s

/-- Nothing is amiss, and nothing will be. -/
def Settled (s : Session) : Prop := Graceful s ∧ ¬Armed s

theorem graceful_of_not_mem (h : .shutdownWrite ∉ s.log) : Graceful s := by
  constructor
  · intro pre post hsplit
    exact absurd (by rw [hsplit]; simp) h
  · rw [List.count_eq_zero_of_not_mem h]
    exact Nat.zero_le 1

theorem inv_keeps : machine.Keeps Inv := by
  intro s a t h ha hs
  have hwent := h.flow.went ha hs
  have hflow := hwent.flow h.flow
  refine ⟨hflow, fun hmem hg => ?_⟩
  by_cases hlog : .shutdownWrite ∈ s.log
  · obtain ⟨effects, heq, hsent⟩ := hwent.late h.flow hlog
    exact (hwent.quiet h.flow (h.quiet hlog (hg.of_append heq hsent))).1
  · rcases hwent.first h.flow hlog with ⟨hno, -⟩ | ⟨⟨pre, heq, hpre⟩, hdown, hout, -⟩
    · exact absurd hmem hno
    · have hwhole := (graceful_first heq hpre).mp hg
      refine ⟨hdown, Tracks.still hflow.tracks (by simp [hdown]) hout, ?_⟩
      exact ((hwent.flowing h.flow hlog).whole_iff hout).mp hwhole

theorem settled_iff (h : Inv s) (hset : Settled s) (ha : machine.enabled s a)
    (hs : machine.step s a = .ok t) : Settled t ↔ Orderly s a := by
  have hwent := h.flow.went ha hs
  by_cases hlog : .shutdownWrite ∈ s.log
  · have hq := h.quiet hlog hset.1
    obtain ⟨-, hsent, ⟨effects, heq, hno, hiff⟩ | ⟨harmed, -⟩⟩ := hwent.quiet h.flow hq
    · refine iff_of_true ⟨hset.1.append heq hsent hno, ?_⟩ fun hc => absurd hc hq.not_closing
      rintro ⟨-, hmem⟩
      exact hset.2 ⟨hlog, hiff.mp hmem⟩
    · exact absurd ⟨hlog, harmed⟩ hset.2
  · rcases hwent.first h.flow hlog with ⟨hno, ho⟩ | ⟨⟨pre, heq, hpre⟩, -, hout, hiff⟩
    · exact iff_of_true ⟨graceful_of_not_mem hno, fun harmed => hno harmed.1⟩ ho
    · have hmem : .shutdownWrite ∈ t.log := by
        rw [heq]
        simp
      rw [← hiff, Settled, graceful_first heq hpre, (hwent.flowing h.flow hlog).whole_iff hout]
      exact and_congr_right fun _ => not_congr (and_iff_right hmem)

theorem armed_keeps (h : Inv s) (harmed : Armed s) (hg : Graceful s) (ha : machine.enabled s a)
    (hs : machine.step s a = .ok t) (hgt : Graceful t) : Armed t := by
  have hwent := h.flow.went ha hs
  obtain ⟨-, -, ⟨effects, heq, -, hiff⟩ | ⟨-, pre, heq⟩⟩ :=
    hwent.quiet h.flow (h.quiet harmed.1 hg)
  · refine ⟨?_, hiff.mpr harmed.2⟩
    rw [heq]
    exact List.mem_append_left _ harmed.1
  · have honce := hgt.once
    have hpos := List.count_pos_iff.mpr harmed.1
    rw [heq, List.count_append, List.count_append, List.count_singleton_self] at honce
    omega

theorem Run.settled (h : machine.Run s as t) (hi : Inv s) (hleft : .shutdownInLoop ∉ t.pending)
    (hg : machine.Holds Graceful s as) : machine.Holds Settled s as := by
  induction h with
  | nil => exact ⟨hg, fun harmed => hleft harmed.2⟩
  | @cons s a m as t ha hm _ ih =>
    obtain ⟨hgs, hrest⟩ := hg
    have hgm := hrest m hm
    have hset := ih (inv_keeps hi ha hm) hleft hgm
    refine ⟨⟨hgs, fun harmed => ?_⟩, fun u hu => ?_⟩
    · exact hset.here.2 (armed_keeps hi harmed hgs ha hm hgm.here)
    · rw [hm] at hu
      cases hu
      exact hset

def start (c : TcpConnection) (effects : List Effect) : Session where
  conn := c
  log := effects

theorem start_inv {new : TcpConnection} (hnew : new.New)
    (he : new.connectEstablished = .ok (c, effects)) : Inv (start c effects) ∧
      Settled (start c effects) := by
  have htracks := (WriteInterest.New.tracks hnew).connectEstablished he
  rw [connectEstablished_ok hnew.state] at he
  cases he
  have hlog : .shutdownWrite ∉ [Effect.connectionCallback true] := by simp
  refine ⟨⟨⟨htracks, .inl rfl, fun _ => ⟨by simp [start], hlog⟩, List.Pairwise.nil, fun _ => ?_⟩,
    fun hmem => absurd hmem hlog⟩, graceful_of_not_mem hlog, fun harmed => hlog harmed.1⟩
  refine ⟨[], ?_, List.Perm.refl _⟩
  simp [start, accepted, hnew.output]

/-- No message is lost, and the half-close is made once, as long as no step half-closes
while the loop has something left to send or to half-close; and, once the loop
has half-closed all it was left with, only then. -/
theorem graceful_iff {new : TcpConnection} (hnew : new.New)
    (he : new.connectEstablished = .ok (c, effects)) (h : machine.Run (start c effects) as s) :
    (machine.Meets Orderly (start c effects) as → machine.Holds Graceful (start c effects) as) ∧
      (.shutdownInLoop ∉ s.pending → machine.Holds Graceful (start c effects) as →
        machine.Meets Orderly (start c effects) as) := by
  obtain ⟨hinv, hset⟩ := start_inv hnew he
  have hiff := h.holds_iff_meets inv_keeps (fun hi hp => settled_iff hi hp) hinv hset
  exact ⟨fun hm => (hiff.mpr hm).imp And.left,
    fun hleft hg => hiff.mp (Run.settled h hinv hleft hg)⟩

def established : TcpConnection :=
  { state := .kConnected, channel := { fd := 5, events := 3 } }

theorem established_ok :
    WriteInterest.newConnection.connectEstablished = .ok (established, [.connectionCallback true]) :=
  rfl

def up : Session := start established [.connectionCallback true]

/-- Both calls come from another thread, and the loop runs what they left. -/
theorem graceful_iff_remote : ∃ s, machine.Run up
    [.send false (ascii "hi") (.accepted 0), .shutdown false, .functor (.accepted 2),
      .functor (.accepted 0)] s ∧
    (accepted s.log = ascii "hi" ∧ .shutdownWrite ∈ s.log) ∧
    machine.Holds Graceful up [.send false (ascii "hi") (.accepted 0), .shutdown false,
      .functor (.accepted 2), .functor (.accepted 0)] := by
  obtain ⟨s, h, hlog⟩ : ∃ s, machine.Run up
      [.send false (ascii "hi") (.accepted 0), .shutdown false, .functor (.accepted 2),
        .functor (.accepted 0)] s ∧ (accepted s.log = ascii "hi" ∧ .shutdownWrite ∈ s.log) :=
    Machine.exists_run (by decide +kernel)
  exact ⟨s, h, hlog, (graceful_iff WriteInterest.newConnection_new established_ok h).1
    (by decide +kernel)⟩

/-- The loop's own `shutdown` overtakes the message another thread left to it.
And the last of the output buffer half-closes before the functor that another
thread's `shutdown` left does. -/
theorem graceful_overtaken :
    (∃ s, machine.Run up [.send false (ascii "hi") (.accepted 0), .shutdown true] s ∧
      ((s.sent = [ascii "hi"] ∧ s.pending = [.sendInLoop (ascii "hi")] ∧
        s.log = [.connectionCallback true, .queueInLoop (.sendInLoop (ascii "hi")),
          .shutdownWrite]) ∧ ¬Graceful s)) ∧
    ∃ s, machine.Run up [.send true (ascii "hi") (.accepted 1), .shutdown false,
        .handle .write (.error EWOULDBLOCK) (.accepted 1), .functor (.accepted 0)] s ∧
      (s.log.count .shutdownWrite = 2 ∧ ¬Graceful s) := by
  constructor
  · obtain ⟨s, h, hsent, hpending, hlog⟩ : ∃ s,
        machine.Run up [.send false (ascii "hi") (.accepted 0), .shutdown true] s ∧
        (s.sent = [ascii "hi"] ∧ s.pending = [.sendInLoop (ascii "hi")] ∧
          s.log = [.connectionCallback true, .queueInLoop (.sendInLoop (ascii "hi")),
            .shutdownWrite]) :=
      Machine.exists_run (by decide +kernel)
    refine ⟨s, h, ⟨hsent, hpending, hlog⟩, fun hg => ?_⟩
    obtain ⟨order, hperm, haccepted⟩ := hg.whole
      [.connectionCallback true, .queueInLoop (.sendInLoop (ascii "hi"))] [] hlog
    rw [hsent] at hperm
    rw [List.perm_singleton.mp hperm] at haccepted
    exact absurd haccepted (by decide)
  · obtain ⟨s, h, hcount⟩ : ∃ s, machine.Run up [.send true (ascii "hi") (.accepted 1),
        .shutdown false, .handle .write (.error EWOULDBLOCK) (.accepted 1),
        .functor (.accepted 0)] s ∧ s.log.count .shutdownWrite = 2 :=
      Machine.exists_run (by decide +kernel)
    refine ⟨s, h, hcount, fun hg => ?_⟩
    have honce := hg.once
    omega

end Muduo.GracefulShutdown
