import Muduo.Net.OutputStream

/-!
# The half-close

`shutdown` ends the output stream with the last byte that was given to it.
-/

namespace Muduo.OutputStream

open Lib TcpConnection

def speaks : Effect → Bool
  | .write _ _ => true
  | .shutdownWrite => true
  | _ => false

/-- Nothing is written behind the half-close, and it comes once. -/
def Finished (log : List Effect) : Prop :=
  ∃ before behind, log = before ++ .shutdownWrite :: behind ∧ .shutdownWrite ∉ before ∧
    ∀ e ∈ behind, speaks e = false

/-- The half-close waits for the output buffer. -/
structure HalfClose (s : Session) : Prop where
  connected : s.conn.state = .kConnected → .shutdownWrite ∉ s.log
  drained : s.conn.state = .kDisconnecting → s.conn.outputBuffer.readable = [] →
    .shutdownWrite ∈ s.log
  finished : .shutdownWrite ∈ s.log → Finished s.log ∧ s.conn.outputBuffer.readable = []

variable {o : Session} {c c' : TcpConnection} {effects : List Effect}

theorem Finished.append (h : Finished log) (hq : ∀ e ∈ effects, speaks e = false) :
    Finished (log ++ effects) := by
  obtain ⟨before, behind, rfl, hbefore, hbehind⟩ := h
  refine ⟨before, behind ++ effects, by simp, hbefore, fun e he => ?_⟩
  rcases List.mem_append.mp he with he | he
  · exact hbehind e he
  · exact hq e he

theorem not_mem_of_silent (hq : ∀ e ∈ effects, speaks e = false) : .shutdownWrite ∉ effects :=
  fun hm => nomatch hq _ hm

theorem HalfClose.silent (h : HalfClose o) (hq : ∀ e ∈ effects, speaks e = false)
    (hs : c.state = o.conn.state ∨ c.state = .kDisconnected)
    (hout : c.outputBuffer = o.conn.outputBuffer) : HalfClose (o.after call c effects) := by
  have hmem : .shutdownWrite ∈ o.log ++ effects ↔ .shutdownWrite ∈ o.log := by
    rw [List.mem_append]
    exact or_iff_left (not_mem_of_silent hq)
  refine ⟨fun hc => ?_, fun hd he => ?_, fun hm => ?_⟩
  · rcases hs with hs | hs
    · exact fun hm => h.connected (hs.symm.trans hc) (hmem.mp hm)
    · exact absurd (hs.symm.trans hc) nofun
  · rcases hs with hs | hs
    · exact hmem.mpr (h.drained (hs.symm.trans hd) (hout ▸ he))
    · exact absurd (hs.symm.trans hd) nofun
  · obtain ⟨hf, he⟩ := h.finished (hmem.mp hm)
    exact ⟨hf.append hq, by simpa only [Session.after, hout] using he⟩

theorem sendInLoop_rest (hc : c.Ok) (hopen : c.state ≠ .kDisconnected) (hfit : r.Fits data)
    (hs : c.sendInLoop data r = .ok (c', effects)) :
    c'.state = c.state ∧ c'.inputBuffer = c.inputBuffer ∧ .shutdownWrite ∉ effects := by
  obtain ⟨out, -, -, hsend⟩ := sendInLoop_ok hc hopen (nwrote_le hfit)
  rw [hsend] at hs
  cases hs
  refine ⟨rfl, rfl, ?_⟩
  have hdirect : Effect.shutdownWrite ∉ (c.writeDirectly data r).effects := by
    unfold writeDirectly
    split
    · cases r <;> simp
    · simp
  have hcrossing : ∀ n, Effect.shutdownWrite ∉ c.crossing n := by
    intro n
    unfold crossing
    simp only
    split <;> simp
  rw [List.mem_append]
  rintro (hm | hm)
  · exact hdirect hm
  · split at hm
    · cases hm
    · exact hcrossing _ hm

theorem HalfClose.writing (h : HalfClose o) (hs : o.conn.state = .kConnected)
    (hs' : c.state = .kConnected) (hq : .shutdownWrite ∉ effects) :
    HalfClose (o.after call c effects) := by
  have hmem : .shutdownWrite ∉ o.log ++ effects := by
    rw [List.mem_append]
    rintro (hm | hm)
    · exact h.connected hs hm
    · exact hq hm
  refine ⟨fun _ => hmem, fun hd => ?_, fun hm => absurd hm hmem⟩
  exact absurd (hs'.symm.trans hd) nofun

theorem HalfClose.shutdown (h : HalfClose o) (hst : Stream o) :
    HalfClose (o.after (.shutdown true) (o.conn.shutdown true).1 (o.conn.shutdown true).2) := by
  unfold TcpConnection.shutdown
  split
  · rename_i hs
    have hopen : o.conn.state ≠ .kDisconnected := by
      rw [hs]
      rintro ⟨⟩
    have hint := hst.interest hopen
    have hnot := h.connected hs
    by_cases he : o.conn.outputBuffer.readable = []
    · have hw : ¬o.conn.channel.isWriting := fun hw => hint.mp hw he
      have hlog : o.log ++ [Effect.shutdownWrite] = o.log ++ .shutdownWrite :: [] := rfl
      simp only [if_true, shutdownInLoop, hw]
      exact ⟨by rintro ⟨⟩, fun _ _ => by simp [Session.after], fun _ =>
        ⟨⟨o.log, [], hlog, hnot, by simp⟩, he⟩⟩
    · have hw : o.conn.channel.isWriting := hint.mpr he
      simp only [if_true, shutdownInLoop, hw, not_true_eq_false, if_false]
      refine ⟨by rintro ⟨⟩, fun _ hn => absurd hn he, fun hm => absurd ?_ hnot⟩
      simpa [Session.after] using hm
  · exact h.silent (List.forall_mem_nil _) (.inl rfl) rfl

theorem HalfClose.handleWrite (h : HalfClose o) (hst : Stream o)
    (hopen : o.conn.state ≠ .kDisconnected) (hfit : r.Fits o.conn.outputBuffer.readable)
    (hs : o.conn.handleWrite r = .ok (c, effects)) :
    HalfClose (o.after (.handleWrite r) c effects) := by
  have hint := hst.interest hopen
  by_cases hw : o.conn.channel.isWriting
  · have hne := hint.mp hw
    have hnot : Effect.shutdownWrite ∉ o.log := fun hm => hne (h.finished hm).2
    have hlog : ∀ effects', Effect.shutdownWrite ∉ effects' →
        Effect.shutdownWrite ∉ o.log ++ effects' := by
      intro effects' hq hm
      rcases List.mem_append.mp hm with hm | hm
      · exact hnot hm
      · exact hq hm
    rcases r.some_or_none with ⟨n, rfl, h0⟩ | hnone
    · have hn : n ≤ o.conn.outputBuffer.readableBytes := by
        rw [← hst.ok.output.length_readable]
        exact hfit
      obtain ⟨out, -, -, hwrite⟩ := handleWrite_some hst.ok hw h0 hn
      rw [hwrite] at hs
      cases hs
      by_cases he : out.readable = []
      · have hbefore : Effect.shutdownWrite ∉ o.log ++
            .write o.conn.outputBuffer.readable (.accepted n) ::
              (if o.conn.writeCompleteCallback then [Effect.queueInLoop .writeComplete] else []) :=
          hlog _ (by split <;> simp)
        simp only [he, if_true]
        by_cases hd : o.conn.state = .kDisconnecting
        · simp only [hd, if_true]
          refine ⟨nofun,
            fun _ _ => by simp [Session.after], fun _ => ⟨⟨_, [], ?_, hbefore, by simp⟩, he⟩⟩
          simp [Session.after]
        · simp only [hd, if_false, List.append_nil]
          exact ⟨fun _ => hbefore, fun hd' => absurd hd' hd, fun hm => absurd hm hbefore⟩
      · have hbefore : Effect.shutdownWrite ∉ o.log ++
            [.write o.conn.outputBuffer.readable (.accepted n)] := hlog _ (by simp)
        simp only [he, if_false]
        exact ⟨fun _ => hbefore, fun _ he' => absurd he' he, fun hm => absurd hm hbefore⟩
    · rw [handleWrite_none hw hnone] at hs
      cases hs
      have hbefore : Effect.shutdownWrite ∉ o.log ++ [.write o.conn.outputBuffer.readable r] :=
        hlog _ (by simp)
      exact ⟨fun _ => hbefore, fun _ he' => absurd he' hne, fun hm => absurd hm hbefore⟩
  · rw [handleWrite_idle hw] at hs
    cases hs
    exact h.silent (List.forall_mem_nil _) (.inl rfl) rfl

end Muduo.OutputStream
