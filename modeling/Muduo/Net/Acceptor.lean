import Muduo.Net.Connector
import Muduo.Net.InetAddress

/-!
# Acceptor

An acceptor with the descriptors of its process and the connections that the
kernel has for its socket. The idle descriptor is given up to take a connection
when no other is left; `drops_iff` says when it is given up for nothing.
-/

namespace Muduo

open Lib

def EMFILE : Errno := 24
def EPROTO : Errno := 71
def ECONNABORTED : Errno := 103

/-- What `accept` returns: a new descriptor, or the error. -/
inductive AcceptResult
  | connection (fd : Int)
  | error (errno : Errno)
  deriving DecidableEq

namespace Acceptor

/-- What became of a connection that was taken from the listen queue. -/
inductive Fate
  | passed (connfd : Int) (peerAddr : InetAddress)
  | closed
  /-- Accepted and closed after an `accept` that failed. -/
  | dropped (errno : Errno)
  deriving DecidableEq

inductive Fault
  | fatal
  deriving DecidableEq

end Acceptor

structure Acceptor where
  newConnectionCallback : Bool
  idleFd : Int
  fds : List Int
  /-- The listen queue. Connections are numbered as they come. -/
  pending : List (Nat × InetAddress) := []
  arrived : Nat := 0
  taken : List (Nat × Acceptor.Fate) := []

namespace Acceptor

-- ---------------------------------------------------------------------------
-- The kernel
-- ---------------------------------------------------------------------------

def arrive (a : Acceptor) : List InetAddress → Acceptor
  | [] => a
  | addr :: addrs =>
    { a with pending := a.pending ++ [(a.arrived, addr)], arrived := a.arrived + 1 }.arrive addrs

def close (a : Acceptor) (fd : Int) : Acceptor := { a with fds := a.fds.filter (· ≠ fd) }

def accept (a : Acceptor) : AcceptResult → Option (Int × Nat × InetAddress) × Acceptor
  | .error _ => (none, a)
  | .connection fd =>
    match a.pending with
    | [] => (none, a)
    | c :: pending => (some (fd, c), { a with pending, fds := a.fds ++ [fd] })

def Fits (a : Acceptor) : AcceptResult → Prop
  | .connection fd => a.pending ≠ [] ∧ 0 ≤ fd ∧ fd ∉ a.fds
  | .error _ => True

instance (a : Acceptor) : DecidablePred a.Fits := fun r => by
  unfold Fits
  cases r <;> infer_instance

-- ---------------------------------------------------------------------------
-- The code
-- ---------------------------------------------------------------------------

/-- The errors after which `sockets::accept` returns. -/
def Expected (savedErrno : Errno) : Prop :=
  savedErrno = EAGAIN ∨ savedErrno = ECONNABORTED ∨ savedErrno = EINTR ∨ savedErrno = EPROTO ∨
    savedErrno = EPERM ∨ savedErrno = EMFILE

instance : DecidablePred Expected := fun _ => inferInstanceAs (Decidable (_ ∨ _))

def note (a : Acceptor) (n : Nat) (fate : Fate) : Acceptor :=
  { a with taken := a.taken ++ [(n, fate)] }

/-- `InetAddress peerAddr(0)` -/
def noAddr : InetAddress := ⟨#v[0, 0, 0, 0], 0⟩

/-- Up to the emergency `accept`; `arrivals` came after the `accept` that failed. -/
def release (a : Acceptor) (arrivals : List InetAddress) : Acceptor :=
  (a.arrive arrivals).close a.idleFd

/-- The emergency `accept` and what follows it, after a failure with `savedErrno`. -/
def spend (a : Acceptor) (savedErrno : Errno) (second : AcceptResult) (devNull : Int) : Acceptor :=
  let a := match a.accept second with
    | (some (fd, n, _), a) => (a.close fd).note n (.dropped savedErrno)
    | (none, a) => a
  { a with idleFd := devNull, fds := a.fds ++ [devNull] }

def handleRead (a : Acceptor) (first : AcceptResult) (arrivals : List InetAddress)
    (second : AcceptResult) (devNull : Int) : Except Fault Acceptor :=
  match first with
  | .connection _ =>
    match a.accept first with
    | (some (connfd, n, addr), a) =>
      -- `Socket::accept` has no address for descriptor 0
      let peerAddr := if connfd > 0 then addr else noAddr
      if a.newConnectionCallback then return a.note n (.passed connfd peerAddr)
      else return (a.close connfd).note n .closed
    | (none, a) => return a
  | .error savedErrno => do
    ensure (Expected savedErrno) .fatal
    -- `errno = EMFILE` assigns
    let errno := EMFILE
    if errno ≠ 0 then return (a.release arrivals).spend savedErrno second devNull
    else return a

-- ---------------------------------------------------------------------------
-- Runs
-- ---------------------------------------------------------------------------

inductive Label
  | arrive (addr : InetAddress)
  /-- `devNull` is what `open("/dev/null", ..)` returns. -/
  | handleRead (first : AcceptResult) (arrivals : List InetAddress) (second : AcceptResult)
      (devNull : Int)
  | openFd (fd : Int)
  | closeFd (fd : Int)

def Enabled (a : Acceptor) : Label → Prop
  | .arrive _ => True
  | .handleRead (.connection fd) _ _ _ => a.Fits (.connection fd)
  | .handleRead (.error savedErrno) arrivals second devNull =>
    Expected savedErrno ∧ (a.release arrivals).Fits second ∧
      0 ≤ devNull ∧ devNull ∉ (a.release arrivals).fds
  | .openFd fd => 0 ≤ fd ∧ fd ∉ a.fds
  | .closeFd fd => fd ∈ a.fds ∧ fd ≠ a.idleFd

def step (a : Acceptor) : Label → Except Fault Acceptor
  | .arrive addr => return a.arrive [addr]
  | .handleRead first arrivals second devNull => a.handleRead first arrivals second devNull
  | .openFd fd => return { a with fds := a.fds ++ [fd] }
  | .closeFd fd => return a.close fd

def machine : Machine Acceptor Label Fault where
  enabled := Enabled
  step := step

instance (a : Acceptor) (l : Label) : Decidable (machine.enabled a l) := by
  unfold machine Enabled
  cases l with
  | handleRead first arrivals second devNull => cases first <;> infer_instance
  | _ => infer_instance

def start (newConnectionCallback : Bool) (idleFd : Int) (fds : List Int) : Acceptor :=
  { newConnectionCallback, idleFd, fds := fds ++ [idleFd] }

-- ---------------------------------------------------------------------------
-- Connections
-- ---------------------------------------------------------------------------

variable {a a' : Acceptor}

def InOrder (a : Acceptor) : Prop :=
  a.taken.map Prod.fst ++ a.pending.map Prod.fst = List.range a.arrived

theorem InOrder.arrive (h : InOrder a) (addrs : List InetAddress) : InOrder (a.arrive addrs) := by
  induction addrs generalizing a with
  | nil => exact h
  | cons addr addrs ih =>
    refine ih ?_
    show _ = List.range (a.arrived + 1)
    rw [List.range_succ, ← show _ = _ from h, List.map_append, List.append_assoc]
    rfl

theorem arrive_same (a : Acceptor) (addrs : List InetAddress) :
    (a.arrive addrs).newConnectionCallback = a.newConnectionCallback ∧
      (a.arrive addrs).taken = a.taken ∧ (a.arrive addrs).idleFd = a.idleFd ∧
      (a.arrive addrs).fds = a.fds := by
  induction addrs generalizing a with
  | nil => exact ⟨rfl, rfl, rfl, rfl⟩
  | cons addr addrs ih => exact ih { a with
      pending := a.pending ++ [(a.arrived, addr)], arrived := a.arrived + 1 }

theorem accept_ok (h : a.Fits (.connection fd)) :
    ∃ n addr pending, a.pending = (n, addr) :: pending ∧
      a.accept (.connection fd) = (some (fd, n, addr), { a with pending, fds := a.fds ++ [fd] }) := by
  unfold accept
  cases hp : a.pending with
  | nil => exact absurd hp h.1
  | cons c pending => exact ⟨c.1, c.2, pending, rfl, rfl⟩

theorem InOrder.take (h : InOrder a) (hp : a.pending = (n, addr) :: cs) (fate : Fate)
    (ht : a'.taken = a.taken ++ [(n, fate)]) (hp' : a'.pending = cs)
    (ha : a'.arrived = a.arrived) : InOrder a' := by
  unfold InOrder
  rw [ht, hp', ha, ← show _ = _ from h, hp, List.map_append, List.append_assoc]
  rfl

-- ---------------------------------------------------------------------------
-- Steps
-- ---------------------------------------------------------------------------

/-- To the callback, or away for want of descriptors. -/
def Fate.Due : Fate → Prop
  | .passed _ _ => True
  | .closed => False
  | .dropped errno => errno = EMFILE

/-- Where there is a callback, no connection is dropped but for want of
descriptors. -/
def Delivered (a : Acceptor) : Prop :=
  a.newConnectionCallback = true → ∀ e ∈ a.taken, e.2.Due

structure Promise (a : Acceptor) : Prop where
  idle : a.idleFd ∈ a.fds
  order : InOrder a
  delivered : Delivered a

/-- After a failure for another reason than `EMFILE`, the second `accept` fails
as well. -/
def Spares (a : Acceptor) : Label → Prop
  | .handleRead (.error savedErrno) _ (.connection _) _ =>
    a.newConnectionCallback = true → savedErrno = EMFILE
  | _ => True

instance (a : Acceptor) : DecidablePred a.Spares := fun l => by
  unfold Spares
  split <;> infer_instance

structure Inv (a : Acceptor) : Prop where
  idle : a.idleFd ∈ a.fds
  order : InOrder a

theorem Delivered.same (h : Delivered a) (hc : a'.newConnectionCallback = a.newConnectionCallback)
    (ht : a'.taken = a.taken) : Delivered a' := by
  unfold Delivered
  rw [hc, ht]
  exact h

theorem Delivered.snoc (n : Nat) (fate : Fate) (h : Delivered a) (hc : a'.newConnectionCallback = a.newConnectionCallback)
    (ht : a'.taken = a.taken ++ [(n, fate)]) :
    Delivered a' ↔ (a.newConnectionCallback = true → fate.Due) := by
  unfold Delivered
  rw [hc, ht]
  constructor
  · intro hall hcb
    exact hall hcb (n, fate) (List.mem_append_right _ (List.mem_singleton_self _))
  · intro hlast hcb e he
    rcases List.mem_append.mp he with he | he
    · exact h hcb e he
    · rw [List.mem_singleton.mp he]
      exact hlast hcb

theorem Delivered.due (n : Nat) (fate : Fate) (h : Delivered a)
    (hc : a'.newConnectionCallback = a.newConnectionCallback)
    (ht : a'.taken = a.taken ++ [(n, fate)])
    (hf : a.newConnectionCallback = true → fate.Due) : Delivered a' :=
  (h.snoc n fate hc ht).mpr hf

/-- The step keeps the invariant, and delivers what it takes if it spares it. -/
def Sound (a : Acceptor) (l : Label) (a' : Acceptor) : Prop :=
  Inv a' ∧ (Delivered a → (Delivered a' ↔ a.Spares l))

theorem Inv.spend (h : Inv a) (hf : (a.release arrivals).Fits second) (savedErrno : Errno)
    (devNull : Int) : Sound a (.handleRead (.error savedErrno) arrivals second devNull)
      ((a.release arrivals).spend savedErrno second devNull) := by
  obtain ⟨hcb, htaken, -, -⟩ := a.arrive_same arrivals
  have horder : InOrder (a.release arrivals) := h.order.arrive arrivals
  have hidle : ∀ fds : List Int, devNull ∈ fds ++ [devNull] :=
    fun fds => List.mem_append_right _ (List.mem_singleton_self _)
  cases second with
  | error e =>
    exact ⟨⟨hidle _, horder⟩, fun hd => iff_of_true (hd.same hcb htaken) trivial⟩
  | connection fd =>
    obtain ⟨n, addr, cs, hp, haccept⟩ := accept_ok hf
    unfold Acceptor.spend
    rw [haccept]
    refine ⟨⟨hidle _, horder.take hp (.dropped savedErrno) rfl rfl rfl⟩, fun hd => ?_⟩
    exact hd.snoc n (.dropped savedErrno) hcb (congrArg (· ++ [(n, _)]) htaken)

theorem Inv.take (h : Inv a) (hf : a.Fits (.connection fd)) :
    ∃ a', a.handleRead (.connection fd) arrivals second devNull = .ok a' ∧
      Sound a (.handleRead (.connection fd) arrivals second devNull) a' := by
  obtain ⟨n, addr, cs, hp, haccept⟩ := accept_ok hf
  have hidle : a.idleFd ∈ a.fds ++ [fd] := List.mem_append_left _ h.idle
  simp only [handleRead, haccept]
  by_cases hcb : a.newConnectionCallback = true
  · rw [if_pos hcb]
    refine ⟨_, rfl, ⟨hidle, h.order.take hp (.passed fd _) rfl rfl rfl⟩, fun hd => ?_⟩
    refine iff_of_true ?_ trivial
    exact hd.due n (.passed fd _) rfl rfl fun _ => trivial
  · rw [if_neg hcb]
    have hne : a.idleFd ≠ fd := fun he => hf.2.2 (he ▸ h.idle)
    refine ⟨_, rfl, ⟨?_, h.order.take hp .closed rfl rfl rfl⟩, fun hd => ?_⟩
    · exact List.mem_filter.mpr ⟨hidle, decide_eq_true hne⟩
    · refine iff_of_true ?_ trivial
      exact hd.due n .closed rfl rfl fun htrue => absurd htrue hcb

theorem Inv.step (h : Inv a) (hen : machine.enabled a l) :
    ∃ a', machine.step a l = .ok a' ∧ Sound a l a' := by
  have hsame : ∀ a' : Acceptor, a'.newConnectionCallback = a.newConnectionCallback →
      a'.taken = a.taken → Delivered a → (Delivered a' ↔ True) :=
    fun a' hc ht hd => iff_of_true (hd.same hc ht) trivial
  cases l with
  | arrive addr =>
    exact ⟨_, rfl, ⟨h.idle, h.order.arrive [addr]⟩, hsame _ rfl rfl⟩
  | handleRead first arrivals second devNull =>
    cases first with
    | connection fd => exact h.take hen
    | error savedErrno =>
      obtain ⟨hexpected, hf, -, -⟩ := hen
      refine ⟨_, ?_, h.spend hf savedErrno devNull⟩
      exact ensure_bind hexpected _
  | openFd fd => exact ⟨_, rfl, ⟨List.mem_append_left _ h.idle, h.order⟩, hsame _ rfl rfl⟩
  | closeFd fd =>
    refine ⟨_, rfl, ⟨?_, h.order⟩, hsame _ rfl rfl⟩
    exact List.mem_filter.mpr ⟨h.idle, decide_eq_true hen.2.symm⟩

-- ---------------------------------------------------------------------------
-- Runs
-- ---------------------------------------------------------------------------

theorem start_inv (callback : Bool) (idleFd : Int) (fds : List Int) :
    Inv (start callback idleFd fds) :=
  ⟨List.mem_append_right _ (List.mem_singleton_self _), rfl⟩

/-- In every run: the idle descriptor stays open, connections are taken in order
and each once, and they go to the callback or are dropped after `EMFILE`, as
long as no other failure of `accept` is followed by a success, and no longer. -/
theorem drops_iff {callback : Bool} {idleFd : Int} {fds : List Int}
    (h : machine.Run (start callback idleFd fds) labels a) :
    machine.Holds Promise (start callback idleFd fds) labels ↔
      machine.Meets Spares (start callback idleFd fds) labels := by
  refine h.holds_iff_meets (I := Inv) (fun hi ha hs => ?_) (fun hi hp ha hs => ?_)
    (start_inv ..) ⟨(start_inv callback idleFd fds).idle, rfl, nofun⟩
  · obtain ⟨t, ht, hsound⟩ := hi.step ha
    rw [hs] at ht
    cases ht
    exact hsound.1
  · obtain ⟨t, ht, hinv, hiff⟩ := hi.step ha
    rw [hs] at ht
    cases ht
    rw [← hiff hp.delivered]
    exact ⟨Promise.delivered, fun hd => ⟨hinv.idle, hinv.order, hd⟩⟩

/-- Out of descriptors with one connection waiting; a spurious event before. -/
theorem drops_iff_full : ∃ a, machine.Run (start true 5 [0, 1, 2, 3])
      [.handleRead (.error EAGAIN) [] (.error EAGAIN) 5, .arrive ⟨#v[10, 0, 0, 1], 40000⟩,
        .handleRead (.connection 6) [] (.error 0) 0, .arrive ⟨#v[10, 0, 0, 2], 40001⟩,
        .handleRead (.error EMFILE) [] (.connection 5) 5] a ∧
    a.taken = [(0, .passed 6 ⟨#v[10, 0, 0, 1], 40000⟩), (1, .dropped EMFILE)] ∧
    machine.Holds Promise (start true 5 [0, 1, 2, 3])
      [.handleRead (.error EAGAIN) [] (.error EAGAIN) 5, .arrive ⟨#v[10, 0, 0, 1], 40000⟩,
        .handleRead (.connection 6) [] (.error 0) 0, .arrive ⟨#v[10, 0, 0, 2], 40001⟩,
        .handleRead (.error EMFILE) [] (.connection 5) 5] := by
  have hrun : ∃ a, machine.Run (start true 5 [0, 1, 2, 3])
      [.handleRead (.error EAGAIN) [] (.error EAGAIN) 5, .arrive ⟨#v[10, 0, 0, 1], 40000⟩,
        .handleRead (.connection 6) [] (.error 0) 0, .arrive ⟨#v[10, 0, 0, 2], 40001⟩,
        .handleRead (.error EMFILE) [] (.connection 5) 5] a ∧
      a.taken = [(0, .passed 6 ⟨#v[10, 0, 0, 1], 40000⟩), (1, .dropped EMFILE)] :=
    Machine.exists_run (by decide)
  obtain ⟨a, ha, htaken⟩ := hrun
  exact ⟨a, ha, htaken, (drops_iff ha).mpr (by decide)⟩

/-- A connection comes just after `accept` found none. -/
theorem drops_again : ∃ a, machine.Run (start true 5 [0, 1, 2, 3])
      [.handleRead (.error EAGAIN) [⟨#v[10, 0, 0, 1], 40000⟩] (.connection 5) 5] a ∧
    a.newConnectionCallback = true ∧ a.taken = [(0, .dropped EAGAIN)] ∧ ¬Promise a := by
  have hrun : ∃ a, machine.Run (start true 5 [0, 1, 2, 3])
      [.handleRead (.error EAGAIN) [⟨#v[10, 0, 0, 1], 40000⟩] (.connection 5) 5] a ∧
      a.newConnectionCallback = true ∧ a.taken = [(0, .dropped EAGAIN)] :=
    Machine.exists_run (by decide)
  obtain ⟨a, ha, hcb, htaken⟩ := hrun
  refine ⟨a, ha, hcb, htaken, fun hp => ?_⟩
  have hmem : (0, .dropped EAGAIN) ∈ a.taken := htaken ▸ List.mem_singleton_self _
  have hdue : EAGAIN = EMFILE := hp.delivered hcb _ hmem
  exact absurd hdue (by decide)

end Acceptor

end Muduo
