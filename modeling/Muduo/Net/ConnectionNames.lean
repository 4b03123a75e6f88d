import Muduo.Net.Frames
import Muduo.Net.InetAddress
import Muduo.Net.ServerRuns

/-!
# The names of connections

`buf` has room for 31 characters, of which the address may take 21. What is
left is too little for some numbers that an `int` can have, so a name may come
back while its connection lives. `names_iff` says in which runs it does not.
-/

namespace Muduo.World

open Lib Function TcpServer

variable {w w' : World}

/-- The server accepts whatever comes, as long as `nextConnId_` is an `int`. -/
def accepting : Machine World Label Fault where
  enabled w
    | .newConnection _ => w.accepted + 1 < 2 ^ 31
    | a => Enabled w a
  step := step

instance (w : World) : DecidablePred (accepting.enabled w)
  | .newConnection _ => inferInstanceAs (Decidable (_ < _))
  | .poll _ _ => inferInstanceAs (Decidable (machine.enabled w _))
  | .dispatch _ _ _ => inferInstanceAs (Decidable (machine.enabled w _))
  | .functor _ _ => inferInstanceAs (Decidable (machine.enabled w _))
  | .send _ _ _ _ => inferInstanceAs (Decidable (machine.enabled w _))
  | .shutdown _ _ => inferInstanceAs (Decidable (machine.enabled w _))
  | .retrieve _ _ => inferInstanceAs (Decidable (machine.enabled w _))

/-- The names of the connections that were accepted and not removed are keys,
each of its own connection. -/
structure Keyed (w : World) : Prop where
  owned : ∀ c < w.accepted, .removed ∉ w.happened c →
    w.server.connections.find? (w.member c).name = some c
  distinct : ∀ c < w.accepted, ∀ d < w.accepted, .removed ∉ w.happened c →
    .removed ∉ w.happened d → (w.member c).name = (w.member d).name → c = d

/-- What the colon, the address and the `#` leave of `buf`. -/
def room (w : World) : Nat := 29 - w.server.hostport.length

/-- No connection that is there has a number with the same leading digits as the
next one. -/
def Apart (w : World) : Label → Prop
  | .newConnection _ => ∀ c < w.accepted, .removed ∉ w.happened c →
    leading w.room (c + 1) ≠ leading w.room w.server.nextConnId
  | _ => True

instance (w : World) : DecidablePred w.Apart
  | .newConnection _ => inferInstanceAs (Decidable (∀ c < _, _))
  | .poll _ _ => isTrue trivial
  | .dispatch _ _ _ => isTrue trivial
  | .functor _ _ => isTrue trivial
  | .send _ _ _ _ => isTrue trivial
  | .shutdown _ _ => isTrue trivial
  | .retrieve _ _ => isTrue trivial

-- ---------------------------------------------------------------------------
-- Names
-- ---------------------------------------------------------------------------

def nameOf (name hostport : Bytes) (n : Nat) : Bytes :=
  name ++ (ascii ":" ++ hostport ++ ascii "#" ++ TcpServer.decimal n).take 31

theorem nameOf_inj {name hostport : Bytes} (h : hostport.length ≤ 21) :
    nameOf name hostport m = nameOf name hostport n ↔
      leading (29 - hostport.length) m = leading (29 - hostport.length) n := by
  have hhead : (ascii ":" ++ hostport ++ ascii "#").length = hostport.length + 2 := by
    have hcolon : (ascii ":").length = 1 := by decide
    have hhash : (ascii "#").length = 1 := by decide
    rw [List.length_append, List.length_append, hcolon, hhash]
    omega
  have htake : ∀ n, (ascii ":" ++ hostport ++ ascii "#" ++ TcpServer.decimal n).take 31 =
      ascii ":" ++ hostport ++ ascii "#" ++ (TcpServer.decimal n).take (29 - hostport.length) := by
    intro n
    have hroom : 31 - (hostport.length + 2) = 29 - hostport.length := by omega
    rw [List.take_append, hhead, List.take_of_length_le (by omega), hroom]
  rw [nameOf, nameOf, htake, htake, List.append_cancel_left_eq, List.append_cancel_left_eq]
  exact InetAddress.take_decimal_inj (by omega)

structure Same (w w' : World) : Prop where
  name : w'.server.name = w.server.name
  hostport : w'.server.hostport = w.server.hostport
  nextConnId : w'.server.nextConnId = w.server.nextConnId
  accepted : w'.accepted = w.accepted
  names : ∀ c, (w'.member c).name = (w.member c).name

theorem same_frame : Frame (fun _ => True) Same where
  trans h h' := ⟨h'.name.trans h.name, h'.hostport.trans h.hostport,
    h'.nextConnId.trans h.nextConnId, h'.accepted.trans h.accepted,
    fun c => (h'.names c).trans (h.names c)⟩
  setConn w c conn := by
    refine ⟨rfl, rfl, rfl, rfl, fun d => ?_⟩
    by_cases hd : d = c
    · subst hd
      simp [setConn]
    · simp [setConn, hd]
  note _ _ _ _ := ⟨rfl, rfl, rfl, rfl, fun _ => rfl⟩
  loops _ _ _ := ⟨rfl, rfl, rfl, rfl, fun _ => rfl⟩
  erase _ _ := ⟨rfl, rfl, rfl, rfl, fun _ => rfl⟩

/-- Connections are numbered from one in the order they come, and named by their
numbers. -/
structure Numbered (name hostport : Bytes) (w : World) : Prop where
  serverName : w.server.name = name
  address : w.server.hostport = hostport
  next : w.server.nextConnId = w.accepted + 1
  names : ∀ c < w.accepted, (w.member c).name = nameOf name hostport (c + 1)

section
variable {name hostport : Bytes}

theorem Numbered.same (h : Numbered name hostport w) (hs : Same w w') :
    Numbered name hostport w' := by
  refine ⟨hs.name.trans h.serverName, hs.hostport.trans h.address, ?_, fun c hc => ?_⟩
  · rw [hs.nextConnId, hs.accepted]
    exact h.next
  · rw [hs.names]
    exact h.names c (hs.accepted ▸ hc)

theorem Numbered.connName (h : Numbered name hostport w) :
    w.server.connName = nameOf name hostport (w.accepted + 1) := by
  rw [TcpServer.connName, h.serverName, h.address, h.next]
  rfl

theorem Numbered.accept (h : Numbered name hostport w) (sockfd : Int) (loop n : Nat) :
    Numbered name hostport (w.accept sockfd loop n) := by
  refine ⟨h.serverName, h.address, congrArg (· + 1) h.next, fun c hc => ?_⟩
  rcases Nat.lt_succ_iff_lt_or_eq.mp hc with hlt | rfl
  · have hm : (w.accept sockfd loop n).member c = w.member c := update_of_ne (Nat.ne_of_lt hlt) ..
    rw [hm]
    exact h.names c hlt
  · rw [member_accept]
    exact h.connName

theorem newConnection_accept {R : World → World → Prop} (hf : Frame (fun _ => True) R)
    (hs : w.newConnection sockfd = .ok w') : ∃ loop n, R (w.accept sockfd loop n) w' := by
  obtain ⟨⟨ioLoop, server⟩, hnext, hs⟩ := bind_ok.mp hs
  obtain ⟨n, rfl⟩ : ∃ n, server = { w.server with next := n } := by
    unfold getNextLoop at hnext
    split at hnext
    · cases hnext
      exact ⟨_, rfl⟩
    · obtain ⟨_, -, hnext⟩ := bind_ok.mp hnext
      cases hnext
      exact ⟨_, rfl⟩
  refine ⟨ioLoop, n, ?_⟩
  simp only at hs
  split at hs
  · exact hf.connectEstablished trivial trivial trivial hs
  · cases hs
    exact hf.queueInLoop (w.accept sockfd ioLoop n) _ _

theorem numbered_keeps : accepting.Keeps (Numbered name hostport) := by
  intro w a w' h _ hs
  by_cases ha : a.IsNew
  · cases a with
    | newConnection sockfd =>
      obtain ⟨loop, n, hsame⟩ := newConnection_accept same_frame hs
      exact (h.accept sockfd loop n).same hsame
    | _ => exact absurd ha id
  · exact h.same (same_frame.step ha hs)

end

-- ---------------------------------------------------------------------------
-- Steps
-- ---------------------------------------------------------------------------

theorem Inv.listed (h : Inv w) (hc : c < w.accepted) :
    w.server.connections.find? (w.member c).name = some c ↔ .removed ∉ w.happened c := by
  obtain ⟨k, hk⟩ := h.stage hc
  rw [show .removed ∈ w.happened c ↔ ¬k ≤ 2 from hk.removed_mem, not_not]
  exact hk.listed

theorem Inv.keyed (h : Inv w) : Keyed w := by
  have howned : ∀ c < w.accepted, .removed ∉ w.happened c →
      w.server.connections.find? (w.member c).name = some c :=
    fun c hc hlive => (h.listed hc).mpr hlive
  refine ⟨howned, fun c hc d hd hlc hld hname => ?_⟩
  have hfind := howned c hc hlc
  rw [hname, howned d hd hld] at hfind
  exact (Option.some.inj hfind).symm

section
variable {name hostport : Bytes}

theorem Numbered.connName_iff (h : Numbered name hostport w) (hl : hostport.length ≤ 21)
    (hc : c < w.accepted) : (w.member c).name = w.server.connName ↔
      leading w.room (c + 1) = leading w.room w.server.nextConnId := by
  rw [h.connName, h.names c hc, nameOf_inj hl, room, h.address, h.next]

theorem Inv.unused_of_apart (h : Inv w) (hn : Numbered name hostport w) (hl : hostport.length ≤ 21)
    (ha : w.Apart (.newConnection sockfd)) : w.Unused := by
  cases hf : w.server.connections.find? w.server.connName with
  | none => exact hf
  | some c =>
    obtain ⟨hc, hname⟩ := h.keys _ c hf
    rw [← hname] at hf
    exact absurd ((hn.connName_iff hl hc).mp hname) (ha c hc ((h.listed hc).mp hf))

theorem Inv.step_apart (h : Inv w) (hn : Numbered name hostport w) (hl : hostport.length ≤ 21)
    (hen : accepting.enabled w a) (hs : step w a = .ok w') (ha : w.Apart a) : Inv w' := by
  cases a with
  | newConnection sockfd =>
    obtain ⟨t, ht, hinv⟩ := h.newConnection sockfd (h.unused_of_apart hn hl ha)
    rw [hs] at ht
    cases ht
    exact hinv
  | poll loop active => exact inv_safe.keeps (a := .poll loop active) h hen hs
  | dispatch loop rd wr => exact inv_safe.keeps (a := .dispatch loop rd wr) h hen hs
  | functor loop wr => exact inv_safe.keeps (a := .functor loop wr) h hen hs
  | send inLoop c data wr => exact inv_safe.keeps (a := .send inLoop c data wr) h hen hs
  | shutdown inLoop c => exact inv_safe.keeps (a := .shutdown inLoop c) h hen hs
  | retrieve c len => exact inv_safe.keeps (a := .retrieve c len) h hen hs

/-- A connection whose name the new one gets is lost. -/
theorem Inv.apart_of_keyed (h : Inv w) (hn : Numbered name hostport w) (hl : hostport.length ≤ 21)
    (hs : step w a = .ok w') (hk : Keyed w') : w.Apart a := by
  cases a with
  | newConnection sockfd =>
    intro c hc hlive hlead
    obtain ⟨loop, n, t, k, -, ht, ho, -⟩ := h.newConnection_ok sockfd
    rw [hs] at ht
    cases ht
    have hne : c ≠ w.accepted := Nat.ne_of_lt hc
    have hview := ho.others c hne
    have hm : (w.accept sockfd loop n).member c = w.member c := update_of_ne hne ..
    have hmember : w'.member c = w.member c := (congrArg View.member hview).trans hm
    have hhappened : w'.happened c = w.happened c := congrArg View.happened hview
    have hc' : c < w'.accepted := by
      rw [ho.accepted]
      exact Nat.lt_succ_of_lt hc
    have hfind := ho.keys _ c (hk.owned c hc' (hhappened ▸ hlive))
    rw [hmember, (hn.connName_iff hl hc).mpr hlead] at hfind
    simp only [World.accept, OrdMap.find?_insert, if_true] at hfind
    exact hne (Option.some.inj hfind).symm
  | _ => trivial

end

-- ---------------------------------------------------------------------------
-- Runs
-- ---------------------------------------------------------------------------

theorem start_numbered (name hostport : Bytes) (numLoops : Nat) (wc : Bool) :
    Numbered name hostport (start name hostport numLoops wc) :=
  ⟨rfl, rfl, rfl, fun _ hc => absurd hc (Nat.not_lt_zero _)⟩

theorem names_short {name : Bytes} {addr : InetAddress} {numLoops : Nat} {wc : Bool}
    (h : accepting.Run (start name addr.toIpPort numLoops wc) labels w)
    (hshort : addr.toIpPort.length ≤ 19) :
    accepting.Meets Apart (start name addr.toIpPort numLoops wc) labels := by
  refine h.meets numbered_keeps (fun {w a} hn hen => ?_) (start_numbered ..)
  cases a with
  | newConnection sockfd =>
    intro c hc _
    have hen : w.accepted + 1 < 2 ^ 31 := hen
    have hroom : 10 ≤ w.room := by
      rw [room, hn.address]
      omega
    have hint : 2 ^ 31 ≤ 10 ^ w.room :=
      Nat.le_trans (by decide) (Nat.pow_le_pow_right (by decide) hroom)
    rw [hn.next, leading_of_lt (by omega) (by omega), leading_of_lt (by omega) (by omega)]
    omega
  | _ => trivial

/-- In every run of a server: no connection loses its name to another as long as
connections come while no other with the same leading digits is there, and no
longer. -/
theorem names_iff {name : Bytes} {addr : InetAddress} {numLoops : Nat} {wc : Bool}
    (h : accepting.Run (start name addr.toIpPort numLoops wc) labels w) :
    accepting.Holds Keyed (start name addr.toIpPort numLoops wc) labels ↔
      accepting.Meets Apart (start name addr.toIpPort numLoops wc) labels := by
  have hl := addr.length_toIpPort_le
  refine h.holds_iff_meets_of (I := fun w => Inv w ∧ Numbered name addr.toIpPort w)
    (fun hi => hi.1.keyed) (fun hi hen hs ha => ⟨?_, ?_⟩) (fun hi _ hs hk => ?_)
    ⟨start_inv .., start_numbered ..⟩
  · exact hi.1.step_apart hi.2 hl hen hs ha
  · exact numbered_keeps hi.2 hen hs
  · exact hi.1.apart_of_keyed hi.2 hl hs hk

/-- Two connections, and a third one after the first was removed. -/
theorem names_iff_three : ∃ w, accepting.Run
      (start (ascii "echo") (InetAddress.toIpPort ⟨#v[127, 0, 0, 1], 2000⟩) 0 false)
      [.newConnection 7, .newConnection 8, .poll 0 [(0, POLLIN)],
        .dispatch 0 (.data []) (.accepted 0), .newConnection 7] w ∧
    w.happened 0 = [.established, .event, .closed, .removed] ∧
    accepting.Holds Keyed
      (start (ascii "echo") (InetAddress.toIpPort ⟨#v[127, 0, 0, 1], 2000⟩) 0 false)
      [.newConnection 7, .newConnection 8, .poll 0 [(0, POLLIN)],
        .dispatch 0 (.data []) (.accepted 0), .newConnection 7] := by
  have hrun : ∃ w, accepting.Run
      (start (ascii "echo") (InetAddress.toIpPort ⟨#v[127, 0, 0, 1], 2000⟩) 0 false)
      [.newConnection 7, .newConnection 8, .poll 0 [(0, POLLIN)],
        .dispatch 0 (.data []) (.accepted 0), .newConnection 7] w ∧
      w.happened 0 = [.established, .event, .closed, .removed] :=
    Machine.exists_run (by decide +kernel)
  obtain ⟨w, hw, hhappened⟩ := hrun
  exact ⟨w, hw, hhappened, (names_iff hw).mpr (by decide +kernel)⟩

structure Idle (w : World) : Prop where
  numLoops : w.server.numLoops = 1
  next : w.server.next = 0
  log : w.log = []
  newest : ∀ c, w.accepted = c + 1 → w.server.connections.find? (w.member c).name = some c

theorem Idle.newConnection (h : Idle w) (sockfd : Int) :
    ∃ w', step w (.newConnection sockfd) = .ok w' ∧ Idle w' ∧ w'.accepted = w.accepted + 1 := by
  have hloop : w.server.getNextLoop = .ok (1, { w.server with next := 0 }) := by
    simp only [getNextLoop, h.numLoops, h.next]
    rfl
  have hstep : step w (.newConnection sockfd) =
      .ok ((w.accept sockfd 1 0).queueInLoop 1 (.connectEstablished w.accepted)) := by
    simp only [step, World.newConnection, hloop, ok_bind]
    rfl
  refine ⟨_, hstep, ⟨h.numLoops, rfl, h.log, fun c hc => ?_⟩, rfl⟩
  obtain rfl : w.accepted = c := Nat.succ.inj hc
  show (w.accept sockfd 1 0).server.connections.find?
    ((w.accept sockfd 1 0).member w.accepted).name = some w.accepted
  rw [member_accept]
  simp [World.accept]

/-- Connections that are all open, on the descriptors from 7 on. -/
theorem Idle.run (h : Idle w) (hn : w.accepted + n < 2 ^ 31) :
    ∃ w', accepting.Run w ((List.range n).map fun k : Nat => Label.newConnection (k + 7)) w' ∧
      Idle w' ∧ w'.accepted = w.accepted + n := by
  induction n with
  | zero => exact ⟨w, .nil, h, rfl⟩
  | succ n ih =>
    obtain ⟨t, hrun, hidle, ha⟩ := ih (by omega)
    obtain ⟨w', hw', hidle', ha'⟩ := hidle.newConnection (n + 7)
    refine ⟨w', ?_, hidle', by omega⟩
    rw [List.range_succ, List.map_append]
    exact Machine.run_append.mpr
      ⟨t, hrun, .cons (show t.accepted + 1 < 2 ^ 31 by omega) hw' .nil⟩

/-- The hundred-millionth connection gets the name of the ten-millionth. -/
theorem names_collide : ∃ w,
    accepting.Run (start (ascii "echo")
      (InetAddress.toIpPort ⟨#v[255, 255, 255, 255], 65535⟩) 1 false)
      ((List.range 100000000).map fun k : Nat => Label.newConnection (k + 7)) w ∧
    w.accepted = 100000000 ∧ .removed ∉ w.happened 9999999 ∧
    (w.member 9999999).name = (w.member 99999999).name ∧
    w.server.connections.find? (w.member 9999999).name = some 99999999 ∧ ¬Keyed w := by
  obtain ⟨w, hrun, hidle, ha⟩ := Idle.run (n := 100000000) (w := start (ascii "echo")
    (InetAddress.toIpPort ⟨#v[255, 255, 255, 255], 65535⟩) 1 false)
    ⟨rfl, rfl, rfl, fun _ hc => absurd hc.symm (Nat.succ_ne_zero _)⟩ (by decide)
  have ha : w.accepted = 100000000 := ha.trans (Nat.zero_add _)
  have hn := hrun.keeps numbered_keeps (start_numbered ..)
  have hlength : (InetAddress.toIpPort ⟨#v[255, 255, 255, 255], 65535⟩).length = 21 := by decide
  have hlead : leading 8 (9999999 + 1) = leading 8 (99999999 + 1) := by
    rw [leading_div (n := 99999999 + 1) (by decide) (by decide)]
  have hname : (w.member 9999999).name = (w.member 99999999).name := by
    rw [hn.names _ (by rw [ha]; decide), hn.names _ (by rw [ha]; decide),
      nameOf_inj (by rw [hlength]), hlength]
    exact hlead
  have hlive : .removed ∉ w.happened 9999999 := by
    rw [happened, hidle.log]
    exact List.not_mem_nil
  have hfind : w.server.connections.find? (w.member 9999999).name = some 99999999 := by
    rw [hname]
    exact hidle.newest _ ha
  refine ⟨w, hrun, ha, hlive, hname, hfind, fun hk => ?_⟩
  have hown := hk.owned _ (by rw [ha]; decide) hlive
  rw [hfind] at hown
  exact absurd (Option.some.inj hown) (by decide)

end Muduo.World
