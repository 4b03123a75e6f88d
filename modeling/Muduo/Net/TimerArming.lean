import Muduo.Net.TimerMoves
import Mathlib.Algebra.Group.Int.Defs
import Mathlib.Order.MinMax

/-!
# The timerfd waits for every timer

Between two calls of `handleRead` the timerfd is armed, or has expired and was not
read, for a time that no timer in the sets is much before: it is late by what passes
between the two readings of the clock in `resetTimerFd`. While callbacks run, the
timers that `reset` will not set it for, those with an expiration that is not
valid, are watched already: they were added by a callback.
-/

namespace Muduo

open Lib Function

/-- An `int64_t` has it. -/
def Timestamp.Fits (t : Timestamp) : Prop := -2 ^ 63 ≤ t ∧ t < 2 ^ 63

instance Timestamp.decidableFits (t : Timestamp) : Decidable t.Fits := inferInstanceAs (Decidable (_ ∧ _))

theorem Timestamp.valid.sub_fits {x y : Int} (hx : Timestamp.valid x) (hlt : x < 2 ^ 63)
    (hy : Timestamp.valid y) (hfits : Timestamp.Fits y) : Timestamp.Fits (x - y) := by
  have hx : 0 < x := hx
  have hy : 0 < y := hy
  have hfits : -2 ^ 63 ≤ y ∧ y < 2 ^ 63 := hfits
  exact ⟨(by omega : -2 ^ 63 ≤ x - y), (by omega : x - y < 2 ^ 63)⟩

namespace TimerQueue

variable {q q' : TimerQueue}

/-- It does not disarm the timerfd, and `timerfd_settime` takes it. -/
structure Timespec.Proper (value : Timespec) : Prop where
  nonzero : value.sec ≠ 0 ∨ value.nsec ≠ 0
  nsec : 0 ≤ value.nsec ∧ value.nsec ≤ 999999999

/-- From `Timestamp::now()` to `timerfd_settime`. -/
def Clock.lag (c : Clock) : Int := c.settime - c.now

/-- The timerfd is armed or has expired, not later than at `x` and the lag of the call
that set it, or 100 microseconds after that call. -/
def Watched (q : TimerQueue) (x : Timestamp) : Prop :=
  ∃ a ∈ q.timerfd, a.deadline ≤ max (x + a.clock.lag) (a.clock.settime + 100)

def Armed (q : TimerQueue) : Prop := ∀ it ∈ q.timers.first?, q.Watched (ofLex it.1).1

/-- As `Armed`, if `resetTimerFd` took no time. -/
def ArmedAtOnce (q : TimerQueue) : Prop :=
  ∀ it ∈ q.timers.first?, ∃ a ∈ q.timerfd, a.deadline ≤ max (ofLex it.1).1 (a.clock.settime + 100)

instance (q : TimerQueue) : Decidable q.ArmedAtOnce :=
  inferInstanceAs (Decidable (∀ it ∈ q.timers.first?, _))

theorem Watched.mono (h : q.Watched x) (hle : x ≤ y) : q.Watched y := by
  obtain ⟨a, ha, hdeadline⟩ := h
  exact ⟨a, ha, hdeadline.trans (max_le_max_right _ (Int.add_le_add_right hle _))⟩

-- ---------------------------------------------------------------------------
-- What the timerfd is set to
-- ---------------------------------------------------------------------------

/-- The microseconds that `howMuchTimeFromNow` has in the two members. -/
theorem howMuchTimeFromNow_micros (when now : Timestamp) :
    ∃ m : Int, 100 ≤ m ∧ ((when - now).Fits → m = max (when - now) 100) ∧
      (howMuchTimeFromNow when now).sec = m / 1000000 ∧
      (howMuchTimeFromNow when now).nsec = m % 1000000 * 1000 := by
  generalize hd : Int.bmod (when - now) (2 ^ 64) = d
  have hm : 100 ≤ (if d < 100 then 100 else d) := by split <;> omega
  refine ⟨if d < 100 then 100 else d, hm, fun hfits => ?_, ?_, ?_⟩
  · have hexact : d = when - now := by
      rw [← hd]
      exact Int.bmod_eq_of_le hfits.1 hfits.2
    rw [hexact]
    split <;> omega
  · rw [howMuchTimeFromNow, hd]
    exact Int.tdiv_eq_ediv_of_nonneg (Int.le_trans (by decide) hm)
  · rw [howMuchTimeFromNow, hd, ← Int.tmod_eq_emod_of_nonneg (Int.le_trans (by decide) hm)]
    rfl

theorem howMuchTimeFromNow_proper (when now : Timestamp) :
    (howMuchTimeFromNow when now).Proper := by
  obtain ⟨m, hm, -, hsec, hnsec⟩ := howMuchTimeFromNow_micros when now
  refine ⟨?_, ?_⟩
  · rw [hsec, hnsec]
    omega
  · rw [hnsec]
    omega

theorem deadline_howMuchTimeFromNow {clock : Clock} (h : (when - clock.now).Fits) :
    (Arming.mk clock (howMuchTimeFromNow when clock.now)).deadline =
      max (when + clock.lag) (clock.settime + 100) := by
  obtain ⟨m, -, hmax, hsec, hnsec⟩ := howMuchTimeFromNow_micros when clock.now
  have hm : m / 1000000 * 1000000 + m % 1000000 * 1000 / 1000 = m := by omega
  have hdeadline : (Arming.mk clock (howMuchTimeFromNow when clock.now)).deadline =
      clock.settime + (m / 1000000 * 1000000 + m % 1000000 * 1000 / 1000) := by
    simp only [Arming.deadline, hsec, hnsec, Int.add_assoc]
    rfl
  have hlate : ∀ x n t : Int, t + max (x - n) 100 = max (x + (t - n)) (t + 100) := by
    intro x n t
    omega
  rw [hdeadline, hm, hmax h]
  exact hlate when clock.now clock.settime

theorem watched_resetTimerFd (q : TimerQueue) {clock : Clock} (h : (x - clock.now).Fits) :
    (q.resetTimerFd clock x).Watched x :=
  ⟨_, rfl, le_of_eq (deadline_howMuchTimeFromNow h)⟩

-- ---------------------------------------------------------------------------
-- Calls
-- ---------------------------------------------------------------------------

/-- Every timer in the sets whose expiration is one of `S` is watched. -/
def Covers (q : TimerQueue) (S : Timestamp → Prop) : Prop :=
  ∀ e p, q.timers.find? e = some p → S (ofLex e).1 → q.Watched (ofLex e).1

theorem first?_expiration {m : TimerList} (h : m.first? = some it) (hm : m.find? e = some p) :
    (ofLex it.1).1 ≤ (ofLex e).1 :=
  Prod.Lex.monotone_fst _ _ (OrdMap.first?_le h hm)

theorem earliestChanged_true (h : q.earliestChanged t = true)
    (hm : q.timers.find? e = some p) : t.expiration ≤ (ofLex e).1 := by
  unfold earliestChanged at h
  split at h
  · rename_i hnone
    rw [OrdMap.find?_of_first?_none hnone] at hm
    cases hm
  · rename_i it hit
    exact (le_of_lt (of_decide_eq_true h)).trans (first?_expiration hit hm)

theorem earliestChanged_false (h : ¬q.earliestChanged t = true) :
    ∃ e p, q.timers.find? e = some p ∧ (ofLex e).1 ≤ t.expiration := by
  unfold earliestChanged at h
  split at h
  · exact absurd rfl h
  · rename_i it hit
    exact ⟨it.1, it.2, OrdMap.find?_first? hit, not_lt.mp (by simpa using h)⟩

theorem Covers.addTimerInLoop {S : Timestamp → Prop} (h : q.Covers S)
    (hS : ∀ {x y}, x ≤ y → S y → S x)
    (hfits : ∀ t ∈ q.heap p.addr, (t.expiration - clock.now).Fits)
    (hadd : q.addTimerInLoop p clock = .ok q') : q'.Covers S := by
  obtain ⟨t, q₁, ht, hinsert, rfl⟩ := addTimerInLoop_ok hadd
  obtain ⟨u, hu, -, rfl⟩ := insert_ok hinsert
  obtain ⟨-, rfl⟩ := hu.unique ht rfl
  have hfind : ∀ {e w}, (q.timers.insert (entry p u) p).find? e = some w →
      e = entry p u ∨ q.timers.find? e = some w := by
    intro e w he
    rw [OrdMap.find?_insert] at he
    split at he
    · exact .inl ‹_›
    · exact .inr he
  split
  · rename_i hearliest
    intro e w he _
    refine (watched_resetTimerFd _ (hfits u hu.1)).mono ?_
    rcases hfind he with rfl | he
    · exact le_refl _
    · exact earliestChanged_true hearliest he
  · -- the timer is not before one that is watched
    rename_i hearliest
    intro e w he hs
    rcases hfind he with rfl | he
    · obtain ⟨e, v, he, hle⟩ := earliestChanged_false hearliest
      exact (h _ _ he (hS hle hs)).mono hle
    · exact h _ _ he hs

theorem Covers.cancelInLoop {S : Timestamp → Prop} (h : q.Covers S)
    (hcancel : q.cancelInLoop timer = .ok q') : q'.Covers S := by
  obtain ⟨p, t, -, -, rfl⟩ | ⟨-, rfl⟩ := cancelInLoop_ok hcancel
  · intro e w he hs
    rw [OrdMap.find?_erase] at he
    split at he
    · cases he
    · exact h _ _ he hs
  · split
    · exact h
    · exact h

theorem covers_beginRead (hnow : now.valid)
    (hread : q.beginRead now readAt = .ok (expired, q')) : q'.Covers (¬Timestamp.valid ·) := by
  obtain ⟨active, rfl⟩ := beginRead_ok hread
  intro e w he hs
  have hlt := lt_of_lt_of_le hnow (Prod.Lex.monotone_fst _ _
    (OrdMap.dropBelow_ge (OrdMap.find?_eq_some.mp he)))
  exact absurd hlt hs

/-- `reset` sets the timerfd for a time after the epoch, so `when - now()` does not
overflow there. -/
theorem Covers.endRead {expired : List Ptr} (h : q.Covers (¬Timestamp.valid ·))
    (hi : Inv q (expired ++ away)) (hnow : now.valid) (hclock : clock.now.valid)
    (hfits : clock.now.Fits) (hread : q.endRead expired now clock = .ok q')
    (hbelow : ∀ a, ∀ t ∈ q'.heap a, t.expiration < 2 ^ 63) : q'.Covers (fun _ => True) := by
  obtain ⟨q₁, hreset, hend⟩ := endRead_ok hread
  obtain ⟨hfd, hold⟩ := resetEach_timers hreset
  have hcall : Inv { q with callingExpiredTimers := false } (expired ++ away) :=
    hi.of_eq rfl rfl rfl rfl rfl
  obtain ⟨q₂, hreset', hinv⟩ := hcall.resetEach now
  rw [hreset] at hreset'
  cases hreset'
  obtain ⟨hnone, rfl⟩ | ⟨it, t, hit, ht, rfl⟩ := hend
  · intro e w he
    rw [OrdMap.find?_of_first?_none hnone] at he
    cases he
  · -- the key of the first timer says when it expires
    obtain ⟨u, hu, -, hkey⟩ := (hinv.timers _ _).mp (OrdMap.find?_first? hit)
    obtain ⟨-, rfl⟩ := hu.unique ht rfl
    have hfirst : (ofLex it.1).1 = u.expiration := by
      rw [hkey]
      rfl
    have hlt : u.expiration < 2 ^ 63 := hbelow it.2.addr u <| by
      split <;> exact hu.1
    split
    · rename_i hvalid
      intro e w he _
      refine (watched_resetTimerFd _ (hvalid.sub_fits hlt hclock hfits)).mono ?_
      rw [← hfirst]
      exact first?_expiration hit he
    · rename_i hinvalid
      intro e w he _
      rw [← hfirst] at hinvalid
      have hwatched : q.Watched (ofLex it.1).1 := by
        refine h _ _ ((hold (OrdMap.find?_first? hit)).resolve_right fun hle => ?_) hinvalid
        exact hinvalid (lt_of_lt_of_le hnow hle)
      obtain ⟨a, ha, hdeadline⟩ := hwatched.mono (first?_expiration hit he)
      exact ⟨a, by rw [hfd]; exact ha, hdeadline⟩

def Kept (q q' : TimerQueue) : Prop :=
  ∀ a ∈ q'.timerfd, a ∈ q.timerfd ∨ a.value.Proper

theorem kept_of_eq (h : q'.timerfd = q.timerfd) : Kept q q' := by
  intro a ha
  rw [h] at ha
  exact .inl ha

theorem kept_resetTimerFd (q q' : TimerQueue) (clock : Clock) (expiration : Timestamp) :
    Kept q (q'.resetTimerFd clock expiration) := by
  rintro a ⟨⟩
  exact .inr (howMuchTimeFromNow_proper ..)

theorem kept_addTimerInLoop (hadd : q.addTimerInLoop p clock = .ok q') : Kept q q' := by
  obtain ⟨t, q₁, -, hinsert, rfl⟩ := addTimerInLoop_ok hadd
  obtain ⟨u, -, -, rfl⟩ := insert_ok hinsert
  split
  · exact kept_resetTimerFd _ _ _ _
  · exact kept_of_eq rfl

theorem kept_cancelInLoop (hcancel : q.cancelInLoop timer = .ok q') : Kept q q' := by
  obtain ⟨p, t, -, -, rfl⟩ | ⟨-, rfl⟩ := cancelInLoop_ok hcancel
  · exact kept_of_eq rfl
  · split
    · exact kept_of_eq rfl
    · exact kept_of_eq rfl

theorem kept_beginRead (hread : q.beginRead now readAt = .ok (expired, q')) : Kept q q' := by
  obtain ⟨active, rfl⟩ := beginRead_ok hread
  intro a ha
  unfold readTimerfd at ha
  split at ha
  · exact .inl ha
  · split at ha
    · cases ha
    · exact .inl ha

theorem kept_endRead (hread : q.endRead expired now clock = .ok q') : Kept q q' := by
  obtain ⟨q₁, hreset, hend⟩ := endRead_ok hread
  obtain ⟨hfd, -⟩ := resetEach_timers hreset
  obtain ⟨-, rfl⟩ | ⟨it, t, -, -, rfl⟩ := hend
  · exact kept_of_eq hfd
  · split
    · exact kept_resetTimerFd _ _ _ _
    · exact kept_of_eq hfd

end TimerQueue

-- ---------------------------------------------------------------------------
-- Runs
-- ---------------------------------------------------------------------------

namespace Timers

open TimerQueue

variable {s s' : Timers}

/-- The clock is behind the epoch, and nothing that is computed with timestamps, the
difference in `howMuchTimeFromNow` and the sum in `restart`, overflows an `int64_t`. -/
def Fits (s : Timers) : Label → Prop
  | .new _ expiration _ _ => expiration.Fits
  | .addTimerInLoop p clock => ∀ t ∈ s.queue.heap p.addr, (t.expiration - clock.now).Fits
  | .beginRead now _ => now.valid
  | .endRead clock => (clock.now.valid ∧ clock.now.Fits) ∧ ∀ b ∈ s.batch, ∀ p ∈ b.done,
    ∀ t ∈ s.queue.heap p.addr, s.queue.Returns p t → (t.restart b.now).expiration.Fits
  | _ => True

instance : (a : Label) → Decidable (s.Fits a)
  | .new .. => Timestamp.decidableFits _
  | .addTimerInLoop .. => inferInstanceAs (Decidable (∀ t ∈ _, (_ : Timestamp).Fits))
  | .beginRead .. => inferInstanceAs (Decidable (Timestamp.valid _))
  | .endRead _ => inferInstanceAs (Decidable ((_ ∧ _) ∧ ∀ b ∈ _, ∀ p ∈ _, ∀ t ∈ _, _ ∧ _ → _))
  | .cancelInLoop .. | .callback => isTrue trivial

def OnWatch (s : Timers) (x : Timestamp) : Prop :=
  match s.batch with
  | none => True
  | some _ => ¬x.valid

structure Watch (s : Timers) : Prop where
  inv : s.Inv
  began : ∀ b ∈ s.batch, b.now.valid
  covers : s.queue.Covers s.OnWatch
  proper : ∀ a ∈ s.queue.timerfd, a.value.Proper
  below : ∀ a, ∀ t ∈ s.queue.heap a, t.expiration < 2 ^ 63

theorem OnWatch.down (hle : x ≤ y) (h : s.OnWatch y) : s.OnWatch x := by
  unfold OnWatch at h ⊢
  split
  · trivial
  · rename_i b hb
    rw [hb] at h
    exact fun hx => h (lt_of_lt_of_le hx hle)

theorem Watch.next (h : Watch s) (hi : s'.Inv) (hb : ∀ b ∈ s'.batch, b.now.valid)
    (hc : s'.queue.Covers s'.OnWatch) (hk : Kept s.queue s'.queue)
    (hl : ∀ a, ∀ t ∈ s'.queue.heap a, t.expiration < 2 ^ 63) : Watch s' :=
  ⟨hi, hb, hc, fun a ha => (hk a ha).elim (h.proper a) id, hl⟩

theorem Watch.new (h : Watch s) (hfits : expiration.Fits) :
    ∀ a, ∀ t ∈ (s.queue.new addr expiration interval repeats).2.heap a, t.expiration < 2 ^ 63 := by
  intro a t ht
  obtain ⟨-, ht⟩ | ⟨-, ht⟩ := mem_update_heap ht
  · cases ht
    exact hfits.2
  · exact h.below a t ht

theorem Watch.endRead (h : Watch s) (hb : s.batch = some ⟨done, [], now⟩)
    (hback : ∀ p ∈ done, ∀ t ∈ s.queue.heap p.addr, s.queue.Returns p t →
      (t.restart now).expiration.Fits)
    (hq : s.queue.endRead done now clock = .ok q) : ∀ a, ∀ t ∈ q.heap a, t.expiration < 2 ^ 63 := by
  obtain ⟨q₁, hreset, fd, rfl⟩ := endRead_reset hq
  have hnodup := (List.nodup_append.mp (h.inv.batch_away hb).nodup).1
  have hbelow := resetEach_heap (P := fun x => x < 2 ^ 63) hreset hnodup
    (fun p hp t ht hr => (hback p hp t ht.1 hr).2) h.below
  exact hbelow

theorem watch_keeps : (machine.restrict Fits).Keeps Watch := by
  intro s label s' h hen hstep
  obtain ⟨hen, hfits⟩ := hen
  have hi := h.inv.step hen hstep
  cases label with
  | new addr expiration interval repeats =>
    cases hstep
    exact h.next hi h.began h.covers (kept_of_eq rfl) (h.new hfits)
  | addTimerInLoop p clock =>
    obtain ⟨q, hq, hstep⟩ := bind_ok.mp hstep
    cases pure_ok.mp hstep
    refine h.next hi h.began (h.covers.addTimerInLoop OnWatch.down hfits hq)
      (kept_addTimerInLoop hq) ?_
    obtain ⟨_, _, _, rfl⟩ := addTimerInLoop_rest hq
    exact h.below
  | cancelInLoop addr sequence =>
    obtain ⟨q, hq, hstep⟩ := bind_ok.mp hstep
    cases pure_ok.mp hstep
    refine h.next hi h.began (h.covers.cancelInLoop hq) (kept_cancelInLoop hq) fun a t ht => ?_
    exact h.below a t (cancelInLoop_heap hq a t ht)
  | beginRead now readAt =>
    obtain ⟨⟨expired, q⟩, hq, hstep⟩ := bind_ok.mp hstep
    cases pure_ok.mp hstep
    refine h.next hi ?_ (covers_beginRead hfits hq) (kept_beginRead hq) ?_
    · rintro b ⟨⟩
      exact hfits
    · obtain ⟨_, rfl⟩ := beginRead_ok hq
      exact h.below
  | callback =>
    obtain ⟨done, w, rest, now, u, hb, -, rfl⟩ := callback_ok hen hstep
    refine h.next hi ?_ (fun e w he hx => h.covers e w he ?_) (kept_of_eq rfl) h.below
    · rintro b ⟨⟩
      exact h.began ⟨done, w :: rest, now⟩ hb
    · unfold OnWatch
      rw [hb]
      exact hx
  | endRead clock =>
    obtain ⟨done, now, q, hb, hq, rfl⟩ := endRead_step hen hstep
    obtain ⟨⟨hclock, hint⟩, hback⟩ := hfits
    have hbelow := h.endRead hb (hback _ hb) hq
    have hcovers := h.covers
    unfold OnWatch at hcovers
    simp only [hb] at hcovers
    exact h.next hi (fun b hb => by cases hb)
      (hcovers.endRead (h.inv.batch_away hb) (h.began _ hb) hclock hint hq hbelow)
      (kept_endRead hq) hbelow

theorem start_watch : Watch {} :=
  ⟨start_inv, fun _ hb => (Option.not_mem_none _ hb).elim,
    fun _ _ he => (Option.some_ne_none _ he.symm).elim,
    fun _ ha => (Option.not_mem_none _ ha).elim, fun _ _ ht => (Option.not_mem_none _ ht).elim⟩

theorem timers_watched (h : machine.Run {} labels s) (hm : machine.Meets Fits {} labels) :
    (s.batch = none → s.queue.Armed) ∧ (∀ a ∈ s.queue.timerfd, a.value.Proper) ∧
      ∀ when now, (howMuchTimeFromNow when now).Proper := by
  have hw := (h.restrict hm).keeps watch_keeps start_watch
  refine ⟨fun hb it hit => ?_, hw.proper, howMuchTimeFromNow_proper⟩
  refine hw.covers _ _ (OrdMap.find?_first? hit) ?_
  unfold OnWatch
  rw [hb]
  trivial

/-- A callback adds two timers with expirations that are not valid and cancels the
earlier one. `reset` does not set the timerfd then. -/
theorem timers_watched_invalid : ∃ s, machine.Run {}
    [.new 8 5 0 false, .addTimerInLoop ⟨8, 1⟩ ⟨1, 2⟩, .new 16 300 10 true,
      .addTimerInLoop ⟨16, 2⟩ ⟨3, 3⟩, .beginRead 102 102, .callback, .new 24 (-7) 0 false,
      .addTimerInLoop ⟨24, 3⟩ ⟨103, 105⟩, .new 32 0 0 false, .addTimerInLoop ⟨32, 4⟩ ⟨106, 107⟩,
      .cancelInLoop 24 3, .endRead ⟨108, 109⟩] s ∧
    s.queue.timers.size = 2 ∧ s.queue.timerfd = some ⟨⟨103, 105⟩, ⟨0, 100000⟩⟩ ∧
    s.queue.Armed := by
  have hrun : ∃ s, machine.Run {}
      [.new 8 5 0 false, .addTimerInLoop ⟨8, 1⟩ ⟨1, 2⟩, .new 16 300 10 true,
        .addTimerInLoop ⟨16, 2⟩ ⟨3, 3⟩, .beginRead 102 102, .callback, .new 24 (-7) 0 false,
        .addTimerInLoop ⟨24, 3⟩ ⟨103, 105⟩, .new 32 0 0 false, .addTimerInLoop ⟨32, 4⟩ ⟨106, 107⟩,
        .cancelInLoop 24 3, .endRead ⟨108, 109⟩] s ∧
      s.batch.isNone ∧ s.queue.timers.size = 2 ∧
      s.queue.timerfd = some ⟨⟨103, 105⟩, ⟨0, 100000⟩⟩ :=
    Machine.exists_run (by decide +kernel)
  obtain ⟨s, hs, hbatch, hsize, hfd⟩ := hrun
  exact ⟨s, hs, hsize, hfd, (timers_watched hs (by decide +kernel)).1
    (Option.isNone_iff_eq_none.mp hbatch)⟩

/-- The clock goes on within `resetTimerFd`; the difference overflows for an expiration
as far before the epoch as there is, and a timer added after that one stays without
the timerfd for as long; and with a clock before the epoch a timer is left behind. -/
theorem timers_late :
    (∃ s, machine.Run {} [.new 8 1000 0 false, .addTimerInLoop ⟨8, 1⟩ ⟨1, 2⟩] s ∧
      s.batch = none ∧ ¬s.queue.ArmedAtOnce) ∧
    (∃ s, machine.Run {} [.new 8 (-2 ^ 63) 0 false, .addTimerInLoop ⟨8, 1⟩ ⟨1, 1⟩,
        .new 16 1000 0 false, .addTimerInLoop ⟨16, 2⟩ ⟨2, 2⟩] s ∧
      s.batch = none ∧ ¬s.queue.ArmedAtOnce ∧
      ∃ a ∈ s.queue.timerfd, a.deadline = 1 + (2 ^ 63 - 1)) ∧
    (∃ s, machine.Run {} [.new 8 (-10) 0 false, .addTimerInLoop ⟨8, 1⟩ ⟨-200, -200⟩,
        .new 16 (-3) 0 false, .addTimerInLoop ⟨16, 2⟩ ⟨-200, -200⟩, .beginRead (-5) (-5),
        .callback, .endRead ⟨-5, -5⟩] s ∧
      s.batch = none ∧ ¬s.queue.ArmedAtOnce) := by
  refine ⟨Machine.exists_run ?_, Machine.exists_run ?_, Machine.exists_run ?_⟩
  all_goals decide +kernel

end Timers

end Muduo
