import Muduo.Net.PollSet

/-!
# Active channels

The entries of the array are those of the registered channels, one each
(`Rows`), whatever the calls, and also when channels come and go and a
descriptor is used again. So each entry the kernel reports is found under its
descriptor, and `fillActiveChannels` may stop as soon as it has seen as many
entries as were reported.
-/

namespace Muduo.PollPoller

open Lib Function

variable {ι : Type} [DecidableEq ι] {fd : ι → Int} {w w' : PollPoller ι} {i : ι}
  {rows rows' : List ι}

-- ---------------------------------------------------------------------------
-- What the calls do
-- ---------------------------------------------------------------------------

/-- How a removal leaves the array, with the place of the channel that goes. -/
theorem remove_inv (h : w.remove i = .ok w') :
    w.Registered i ∧ ∃ n : ℕ, (w.chan i).index = n ∧
      ((n + 1 = w.pollfds.length ∧ w' = w.dropped i) ∨
        (n + 1 < w.pollfds.length ∧ ∃ (back : PollFd) (j : ι),
          w.pollfds[w.pollfds.length - 1]? = some back ∧
          (w.channels.erase (w.chan i).fd).find?
            (if back.fd < 0 then -back.fd - 1 else back.fd) = some j ∧
          w' = w.moved i j n back)) := by
  simp only [remove, removeChannel, bind_ok, ensure_ok, entry_ok] at h
  obtain ⟨-, -, -, -, -, hreg, -, -, -, hrange, pfd, -, -, -, -, -, h⟩ := h
  obtain ⟨n, hn⟩ := Int.eq_ofNat_of_zero_le hrange.1
  refine ⟨hreg, n, hn, ?_⟩
  rw [hn] at h hrange
  split at h
  · obtain rfl := pure_ok.mp h
    exact .inl ⟨by omega, rfl⟩
  · have hto : ((w.pollfds.length : Int) - 1).toNat = w.pollfds.length - 1 := by omega
    simp only [fillHole, bind_ok, entry_ok, hto] at h
    obtain ⟨back, hback, h⟩ := h
    split at h
    · cases h
    · rename_i j hj
      obtain rfl := pure_ok.mp h
      refine .inr ⟨by omega, back, j, hback, hj, ?_⟩
      simp only [moved, Int.toNat_natCast, PollPoller.mk.injEq, true_and, and_true]
      refine List.ext_getElem? fun k => ?_
      simp only [List.getElem?_dropLast, List.length_set, List.getElem?_set]
      grind

-- ---------------------------------------------------------------------------
-- Rows
-- ---------------------------------------------------------------------------

/-- The channels of the entries, in their order. -/
structure Rows (fd : ι → Int) (w : PollPoller ι) (rows : List ι) : Prop where
  fds : ∀ i, (w.chan i).fd = fd i
  nonneg : ∀ i, 0 ≤ fd i
  length : rows.length = w.pollfds.length
  entry : ∀ (n : ℕ) i pfd, rows[n]? = some i → w.pollfds[n]? = some pfd →
    pfd.fd = fd i ∨ pfd.fd = -fd i - 1
  index : ∀ (n : ℕ) i, rows[n]? = some i → (w.chan i).index = n
  map : w.channels.Indexes fun i k => i ∈ rows ∧ fd i = k

section
omit [DecidableEq ι]

theorem start_rows (fd : ι → ℕ) : Rows (fun i => fd i) (start fun i => fd i) [] where
  fds _ := rfl
  nonneg _ := Int.natCast_nonneg _
  length := rfl
  entry _ _ _ h := by cases h
  index _ _ h := by cases h
  map := OrdMap.Indexes.empty.congr fun _ _ => by simp

theorem Rows.registered_iff (hr : Rows fd w rows) : w.Registered i ↔ i ∈ rows := by
  rw [Registered, hr.fds, hr.map]
  exact and_iff_left rfl

theorem Rows.place (hr : Rows fd w rows) (h : i ∈ rows) (hn : (w.chan i).index = (n : ℕ)) :
    rows[n]? = some i := by
  obtain ⟨m, hm⟩ := List.mem_iff_getElem?.mp h
  have hmn : m = n := by
    have := hr.index m i hm
    omega
  exact hmn ▸ hm

theorem place_ne {n m : ℕ} (hj : rows[m]? = some j) (hi : rows[n]? = some i) (h : j ≠ i) :
    m ≠ n := by
  rintro rfl
  exact h (Option.some.inj (hj.symm.trans hi))

theorem Rows.fd_inj (hr : Rows fd w rows) (hi : i ∈ rows) (hj : j ∈ rows) (h : fd i = fd j) :
    i = j := by
  have hfi := (hr.map (fd i) i).mpr ⟨hi, rfl⟩
  have hfj := (hr.map (fd i) j).mpr ⟨hj, h.symm⟩
  rw [hfi] at hfj
  exact Option.some.inj hfj

theorem Rows.map_erase (hr : Rows fd w rows) (hi : i ∈ rows)
    (hmem : ∀ j, j ∈ rows' ↔ j ∈ rows ∧ j ≠ i) :
    (w.channels.erase (w.chan i).fd).Indexes fun j k => j ∈ rows' ∧ fd j = k := by
  rw [hr.fds]
  refine hr.map.erase.congr fun j k => ?_
  rw [hmem]
  constructor
  · rintro ⟨⟨hj, hne⟩, rfl⟩
    exact ⟨fun he => hne (hr.fd_inj hj hi he), hj, rfl⟩
  · rintro ⟨hne, hj, rfl⟩
    exact ⟨⟨hj, fun he => hne (he ▸ rfl)⟩, rfl⟩

end

theorem Rows.added (hr : Rows fd w rows) (h : (w.chan i).index < 0)
    (hnew : w.channels.find? (w.chan i).fd = none) (f : Channel.Interest) :
    Rows fd (w.added i ((w.chan i).apply f)) (rows ++ [i]) := by
  have hni : i ∉ rows := by
    intro hi
    obtain ⟨n, hn⟩ := List.mem_iff_getElem?.mp hi
    have := hr.index n i hn
    omega
  refine ⟨fun j => (added_fd w i f j).trans (hr.fds j), hr.nonneg, ?_,
    fun n j pfd hj hp => ?_, fun n j hj => ?_, ?_⟩
  · simp [PollPoller.added, hr.length]
  · rcases Nat.lt_trichotomy n rows.length with hlt | rfl | hgt
    · rw [List.getElem?_append_left hlt] at hj
      rw [PollPoller.added, List.getElem?_append_left (hr.length ▸ hlt)] at hp
      exact hr.entry n j pfd hj hp
    · rw [List.getElem?_concat_length] at hj
      rw [PollPoller.added, hr.length, List.getElem?_concat_length] at hp
      cases hj
      cases hp
      exact .inl (by simp [hr.fds])
    · rw [List.getElem?_eq_none (by simp; omega)] at hj
      cases hj
  · rcases Nat.lt_trichotomy n rows.length with hlt | rfl | hgt
    · rw [List.getElem?_append_left hlt] at hj
      have hji : j ≠ i := fun he => hni (he ▸ List.mem_of_getElem? hj)
      simpa [PollPoller.added, hji] using hr.index n j hj
    · rw [List.getElem?_concat_length] at hj
      cases hj
      simp [PollPoller.added, hr.length]
    · rw [List.getElem?_eq_none (by simp; omega)] at hj
      cases hj
  · rw [hr.fds] at hnew
    have hfresh : ∀ j, ¬(j ∈ rows ∧ fd j = fd i) := by
      intro j hj
      rw [(hr.map (fd i) j).mpr hj] at hnew
      cases hnew
    simp only [PollPoller.added, Channel.apply_fd, hr.fds]
    refine (hr.map.insert hfresh).congr fun j k => ?_
    rw [List.mem_append, List.mem_singleton, or_and_right]
    constructor
    · rintro (hj | ⟨rfl, rfl⟩)
      · exact .inr hj
      · exact .inl ⟨rfl, rfl⟩
    · rintro (⟨rfl, rfl⟩ | hj)
      · exact .inr ⟨rfl, rfl⟩
      · exact .inl hj

theorem Rows.refreshed (hr : Rows fd w rows) (hn : (w.chan i).index = (n : ℕ))
    (hfd : pfd.fd = (w.chan i).fd ∨ pfd.fd = -(w.chan i).fd - 1) (hi : i ∈ rows)
    (f : Channel.Interest) : Rows fd (w.refreshed i ((w.chan i).apply f) n pfd) rows := by
  have hchan := refreshed_keeps w i f n pfd
  refine ⟨fun j => (hchan j).1.trans (hr.fds j), hr.nonneg, ?_, fun m j pfd' hj hp => ?_,
    fun m j hj => (hchan j).2.trans (hr.index m j hj), hr.map⟩
  · simpa [PollPoller.refreshed] using hr.length
  · rw [PollPoller.refreshed, List.getElem?_set] at hp
    split at hp
    · rename_i hnm
      subst hnm
      obtain rfl : i = j := Option.some.inj ((hr.place hi hn).symm.trans hj)
      split at hp
      · cases hp
        rw [hr.fds] at hfd
        unfold refresh
        split
        · exact .inr (by simp [hr.fds])
        · exact hfd
      · cases hp
    · exact hr.entry m j pfd' hj hp

omit [DecidableEq ι] in
theorem Rows.dropped (hr : Rows fd w rows) (hi : i ∈ rows) (hn : (w.chan i).index = (n : ℕ))
    (hlast : n + 1 = w.pollfds.length) : Rows fd (w.dropped i) rows.dropLast := by
  have hlen := hr.length
  have hplace := hr.place hi hn
  have hold : ∀ (m : ℕ) j, rows.dropLast[m]? = some j → m < n ∧ rows[m]? = some j := by
    intro m j hj
    rw [List.getElem?_dropLast] at hj
    split at hj
    · exact ⟨by omega, hj⟩
    · cases hj
  refine ⟨hr.fds, hr.nonneg, ?_, fun m j pfd hj hp => ?_, fun m j hj => hr.index m j (hold m j hj).2,
    hr.map_erase hi fun j => ?_⟩
  · simp [PollPoller.dropped, hlen]
  · obtain ⟨hmn, hj⟩ := hold m j hj
    rw [PollPoller.dropped, List.getElem?_dropLast, if_pos (by omega)] at hp
    exact hr.entry m j pfd hj hp
  · constructor
    · intro hj
      obtain ⟨m, hm⟩ := List.mem_iff_getElem?.mp hj
      obtain ⟨hmn, hm⟩ := hold m j hm
      refine ⟨List.mem_of_getElem? hm, ?_⟩
      rintro rfl
      have := hr.index m j hm
      omega
    · rintro ⟨hj, hne⟩
      obtain ⟨m, hm⟩ := List.mem_iff_getElem?.mp hj
      have hlt := (List.getElem?_eq_some_iff.mp hm).1
      have hmn := place_ne hm hplace hne
      refine List.mem_of_getElem? (i := m) ?_
      rw [List.getElem?_dropLast, if_pos (by omega)]
      exact hm

omit [DecidableEq ι] in
/-- The channel found under the decoded descriptor is that of the last entry. -/
theorem Rows.last (hr : Rows fd w rows) (hback : w.pollfds[w.pollfds.length - 1]? = some back)
    (hfind : (w.channels.erase (w.chan i).fd).find?
      (if back.fd < 0 then -back.fd - 1 else back.fd) = some j) :
    rows[rows.length - 1]? = some j := by
  obtain ⟨hlt, -⟩ := List.getElem?_eq_some_iff.mp hback
  rw [← hr.length] at hback hlt
  have hget := List.getElem?_eq_getElem hlt
  rcases hr.entry _ _ _ hget hback with hfd | hfd
  all_goals
    have hdecode : (if back.fd < 0 then -back.fd - 1 else back.fd) = fd rows[rows.length - 1] := by
      have := hr.nonneg rows[rows.length - 1]
      split <;> omega
    rw [hdecode] at hfind
    obtain ⟨-, hj, hfdj⟩ := (hr.map.erase _ _).mp hfind
    rw [hget, hr.fd_inj hj (List.getElem_mem hlt) hfdj]

theorem Rows.moved (hr : Rows fd w rows) (hi : i ∈ rows) (hn : (w.chan i).index = (n : ℕ))
    (hlt : n + 1 < w.pollfds.length) (hback : w.pollfds[w.pollfds.length - 1]? = some back)
    (hlast : rows[rows.length - 1]? = some j) :
    Rows fd (w.moved i j n back) (rows.set n j).dropLast := by
  have hlen := hr.length
  have hplace := hr.place hi hn
  have hrow : ∀ (m : ℕ) k, (rows.set n j).dropLast[m]? = some k →
      (m = n ∧ k = j) ∨ (m ≠ n ∧ m + 1 < rows.length ∧ rows[m]? = some k) := by
    intro m k hk
    rw [List.getElem?_dropLast, List.length_set, List.getElem?_set] at hk
    grind
  have hkj : ∀ (m : ℕ) k, m + 1 < rows.length → rows[m]? = some k → k ≠ j := by
    rintro m k hm hk rfl
    have h₁ := hr.index m k hk
    have h₂ := hr.index _ k hlast
    omega
  refine ⟨fun k => (moved_fd w i j n back k).trans (hr.fds k), hr.nonneg, ?_,
    fun m k pfd hk hp => ?_, fun m k hk => ?_, hr.map_erase hi fun k => ?_⟩
  · simp [PollPoller.moved, hlen]
  · rw [PollPoller.moved, List.getElem?_dropLast, List.length_set, List.getElem?_set] at hp
    rcases hrow m k hk with ⟨rfl, rfl⟩ | ⟨hmn, hm, hk⟩
    · rw [if_pos (by omega), if_pos rfl, if_pos (by omega)] at hp
      obtain rfl := Option.some.inj hp
      rw [← hlen] at hback
      exact hr.entry _ k _ hlast hback
    · rw [if_pos (by omega), if_neg hmn.symm] at hp
      exact hr.entry m k pfd hk hp
  · rcases hrow m k hk with ⟨rfl, rfl⟩ | ⟨hmn, hm, hk⟩
    · simp [PollPoller.moved]
    · simpa [PollPoller.moved, hkj m k hm hk] using hr.index m k hk
  · constructor
    · intro hk
      obtain ⟨m, hm⟩ := List.mem_iff_getElem?.mp hk
      rcases hrow m k hm with ⟨rfl, rfl⟩ | ⟨hmn, -, hm⟩
      · exact ⟨List.mem_of_getElem? hlast, (hkj m i (by omega) hplace).symm⟩
      · refine ⟨List.mem_of_getElem? hm, ?_⟩
        rintro rfl
        have := hr.index m k hm
        omega
    · rintro ⟨hk, hne⟩
      obtain ⟨m, hm⟩ := List.mem_iff_getElem?.mp hk
      have hmlt := (List.getElem?_eq_some_iff.mp hm).1
      have hmn := place_ne hm hplace hne
      by_cases hml : m + 1 < rows.length
      · refine List.mem_of_getElem? (i := m) ?_
        rw [List.getElem?_dropLast, List.length_set, if_pos (by omega), List.getElem?_set_ne hmn.symm]
        exact hm
      · have hkj : k = j := by
          rw [show rows.length - 1 = m from by omega, hm] at hlast
          exact Option.some.inj hlast
        refine List.mem_of_getElem? (i := n) ?_
        rw [List.getElem?_dropLast, List.length_set, if_pos (by omega),
          List.getElem?_set_self (by omega), hkj]

omit [DecidableEq ι] in
theorem answer_entry {n : ℕ} (h : (w.answer revents).pollfds[n]? = some pfd) :
    ∃ old, w.pollfds[n]? = some old ∧ pfd.fd = old.fd ∧ revents[n]? = some pfd.revents := by
  simp only [PollPoller.answer, List.getElem?_zipWith] at h
  cases hold : w.pollfds[n]? with
  | none => simp [hold] at h
  | some old =>
    cases hr : revents[n]? with
    | none => simp [hold, hr] at h
    | some r =>
      simp only [hold, hr, Option.some.injEq] at h
      exact ⟨old, rfl, h ▸ rfl, h ▸ rfl⟩

omit [DecidableEq ι] in
theorem Rows.answer (hr : Rows fd w rows) (h : revents.length = w.pollfds.length) :
    Rows fd (w.answer revents) rows where
  fds := hr.fds
  nonneg := hr.nonneg
  length := by simp [PollPoller.answer, h, hr.length]
  entry n i pfd hi hp := by
    obtain ⟨old, hold, hfd, -⟩ := answer_entry hp
    rw [hfd]
    exact hr.entry n i old hi hold
  index := hr.index
  map := hr.map

-- ---------------------------------------------------------------------------
-- The loop
-- ---------------------------------------------------------------------------

def reported (rows : List ι) (pfds : List PollFd) : List (ι × PollFd) :=
  (rows.zip pfds).filter fun e => e.2.revents ≠ 0

def mark (chan : ι → Channel) (es : List (ι × PollFd)) : ι → Channel :=
  es.foldl (fun chan e => set_revents chan e.1 (e.2.revents.signExtend 32)) chan

theorem set_revents_keeps (chan : ι → Channel) (i : ι) (revt : BitVec 32) (j : ι) :
    (set_revents chan i revt j).fd = (chan j).fd ∧
      (set_revents chan i revt j).index = (chan j).index := by
  by_cases hj : j = i
  · subst hj
    simp [set_revents]
  · simp [set_revents, hj]

theorem mark_keeps (chan : ι → Channel) (es : List (ι × PollFd)) (i : ι) :
    (mark chan es i).fd = (chan i).fd ∧ (mark chan es i).index = (chan i).index := by
  induction es generalizing chan with
  | nil => exact ⟨rfl, rfl⟩
  | cons e es ih =>
    obtain ⟨hfd, hindex⟩ := set_revents_keeps chan e.1 (e.2.revents.signExtend 32) i
    exact ⟨(ih _).1.trans hfd, (ih _).2.trans hindex⟩

theorem mark_of_not_mem {chan : ι → Channel} (h : i ∉ es.map Prod.fst) :
    mark chan es i = chan i := by
  induction es generalizing chan with
  | nil => rfl
  | cons e es ih =>
    rw [List.map_cons, List.mem_cons, not_or] at h
    exact (ih h.2).trans (update_of_ne h.1 _ _)

theorem mark_of_mem {chan : ι → Channel} (hone : (es.map Prod.fst).Nodup) (h : (i, pfd) ∈ es) :
    mark chan es i = { chan i with revents := pfd.revents.signExtend 32 } := by
  induction es generalizing chan with
  | nil => cases h
  | cons e es ih =>
    rw [List.map_cons, List.nodup_cons] at hone
    rcases List.mem_cons.mp h with rfl | h
    · exact (mark_of_not_mem hone.1).trans (update_self ..)
    · have hne : i ≠ e.1 := fun he => hone.1 (List.mem_map.mpr ⟨_, h, he⟩)
      have hsame : set_revents chan e.1 (e.2.revents.signExtend 32) i = chan i :=
        update_of_ne hne _ _
      rw [← hsame]
      exact ih hone.2 h

/-- As many events as entries have some: the loop sees all of these, and the
entries after the point where it stops have none. -/
theorem fillLoop_eq {channels : OrdMap Int ι} {chan : ι → Channel} (hlen : rows.length = pfds.length)
    (hfd : ∀ i, (chan i).fd = fd i)
    (hentry : ∀ e ∈ rows.zip pfds, 0 ≤ e.2.revents.toInt ∧
      (e.2.revents ≠ 0 → channels.find? e.2.fd = some e.1 ∧ fd e.1 = e.2.fd))
    (activeChannels : List ι) :
    fillLoop channels pfds (pfds.countP fun pfd => pfd.revents ≠ 0 : ℕ) chan activeChannels =
      .ok (mark chan (reported rows pfds),
        activeChannels ++ (reported rows pfds).map Prod.fst) := by
  induction pfds generalizing rows chan activeChannels with
  | nil => simp [fillLoop, reported, mark]
  | cons pfd pfds ih =>
    obtain ⟨i, rows, rfl⟩ := List.exists_cons_of_length_eq_add_one hlen
    simp only [List.zip_cons_cons, List.forall_mem_cons] at hentry
    obtain ⟨⟨hnonneg, hhead⟩, hrest⟩ := hentry
    have hlen : rows.length = pfds.length := Nat.succ.inj hlen
    by_cases hrev : pfd.revents = 0
    · have hpos : ¬0 < pfd.revents.toInt := by simp [hrev]
      have hsame : reported (i :: rows) (pfd :: pfds) = reported rows pfds :=
        List.filter_cons_of_neg (by simp [hrev])
      rw [List.countP_cons_of_neg (by simp [hrev]), hsame, fillLoop, if_neg hpos,
        ih hlen hfd hrest, ite_eq_left_iff]
      -- the loop has stopped: nothing is left to report
      intro hzero
      have hall : ∀ pfd ∈ pfds, ¬decide (pfd.revents ≠ 0) :=
        List.countP_eq_zero.mp (by omega)
      have hnone : reported rows pfds = [] :=
        List.filter_eq_nil_iff.mpr fun e he => hall e.2 (List.of_mem_zip he).2
      simp [hnone, mark]
    · obtain ⟨hfind, hown⟩ := hhead hrev
      have hpos : 0 < pfd.revents.toInt := by
        have hne : pfd.revents.toInt ≠ 0 := fun h0 => hrev (BitVec.toInt_inj.mp h0)
        omega
      have hcons : reported (i :: rows) (pfd :: pfds) = (i, pfd) :: reported rows pfds :=
        List.filter_cons_of_pos (decide_eq_true hrev)
      have hassert : (chan i).fd = pfd.fd := (hfd i).trans hown
      have hfd' : ∀ j, (set_revents chan i (pfd.revents.signExtend 32) j).fd = fd j :=
        fun j => (set_revents_keeps chan i _ j).1.trans (hfd j)
      rw [List.countP_cons_of_pos (by simpa using hrev), hcons, fillLoop, if_pos (by omega),
        if_pos hpos, hfind]
      have hleft (n : ℕ) : ((n + 1 : ℕ) : Int) - 1 = n := by omega
      simp only [ensure_bind hassert, hleft]
      rw [ih hlen hfd' hrest]
      simp [mark]

-- ---------------------------------------------------------------------------
-- One poll
-- ---------------------------------------------------------------------------

omit [DecidableEq ι] in
/-- What the kernel reports about an entry is about the descriptor of its
channel, which it did not ignore. -/
theorem Rows.reports {n : ℕ} (hr : Rows fd w rows) (ha : Answers w.pollfds numEvents revents)
    (h : rows[n]? = some i) (hp : (w.answer revents).pollfds[n]? = some pfd) :
    0 ≤ pfd.revents.toInt ∧
      (pfd.revents ≠ 0 → w.channels.find? pfd.fd = some i ∧ fd i = pfd.fd) := by
  obtain ⟨old, hold, hfd, hrev⟩ := answer_entry hp
  refine ⟨ha.nonneg _ (List.mem_of_getElem? hrev), fun hne => ?_⟩
  have hpos : ¬old.fd < 0 := by
    intro hneg
    have he : (old, pfd.revents) ∈ w.pollfds.zip revents :=
      List.mem_of_getElem? (List.getElem?_zip_eq_some.mpr ⟨hold, hrev⟩)
    exact hne (ha.ignored _ he hneg)
  have hi := hr.nonneg i
  have hown : fd i = pfd.fd := by
    rcases hr.entry n i old h hold with h' | h' <;> omega
  exact ⟨(hr.map pfd.fd i).mpr ⟨List.mem_of_getElem? h, hown⟩, hown⟩

omit [DecidableEq ι] in
theorem answer_countP (h : revents.length = w.pollfds.length) :
    (w.answer revents).pollfds.countP (fun pfd => pfd.revents ≠ 0) =
      revents.countP (· ≠ 0) := by
  have hmap : (w.answer revents).pollfds.map PollFd.revents = revents := by
    simp only [PollPoller.answer, List.map_zipWith]
    rw [← List.map_uncurry_zip_eq_zipWith]
    exact List.map_snd_zip (by omega)
  conv_rhs => rw [← hmap, List.countP_map]
  rfl

theorem Rows.fillActiveChannels (hr : Rows fd w rows) (ha : Answers w.pollfds numEvents revents)
    (activeChannels : List ι) :
    (w.answer revents).fillActiveChannels numEvents activeChannels =
      .ok ({ w.answer revents with chan := mark w.chan (reported rows (w.answer revents).pollfds) },
        activeChannels ++ (reported rows (w.answer revents).pollfds).map Prod.fst) := by
  have hlen : rows.length = (w.answer revents).pollfds.length := (hr.answer ha.length).length
  have hentry : ∀ e ∈ rows.zip (w.answer revents).pollfds, 0 ≤ e.2.revents.toInt ∧
      (e.2.revents ≠ 0 → w.channels.find? e.2.fd = some e.1 ∧ fd e.1 = e.2.fd) := by
    rintro ⟨i, pfd⟩ he
    obtain ⟨n, hn⟩ := List.mem_iff_getElem?.mp he
    obtain ⟨hi, hp⟩ := List.getElem?_zip_eq_some.mp hn
    exact hr.reports ha hi hp
  have hloop := fillLoop_eq hlen hr.fds hentry activeChannels
  rw [answer_countP ha.length, ← ha.count] at hloop
  rw [PollPoller.fillActiveChannels]
  exact congrArg (· >>= _) hloop

omit [DecidableEq ι] in
theorem mem_reported : (i, pfd) ∈ reported rows pfds ↔
    ∃ n : ℕ, rows[n]? = some i ∧ pfds[n]? = some pfd ∧ pfd.revents ≠ 0 := by
  rw [reported, List.mem_filter, List.mem_iff_getElem?]
  simp only [List.getElem?_zip_eq_some, decide_eq_true_eq]
  constructor
  · rintro ⟨⟨n, hi, hp⟩, hrev⟩
    exact ⟨n, hi, hp, hrev⟩
  · rintro ⟨n, hi, hp, hrev⟩
    exact ⟨⟨n, hi, hp⟩, hrev⟩

omit [DecidableEq ι] in
theorem Rows.ordered (hr : Rows fd w rows) :
    rows.Pairwise fun i j => (w.chan i).index < (w.chan j).index := by
  refine List.pairwise_iff_getElem.mpr fun n m hn hm hlt => ?_
  rw [hr.index n _ (List.getElem?_eq_getElem hn), hr.index m _ (List.getElem?_eq_getElem hm)]
  exact_mod_cast hlt

omit [DecidableEq ι] in
theorem reported_sublist (hlen : rows.length = pfds.length) :
    ((reported rows pfds).map Prod.fst).Sublist rows := by
  have hsub := (List.filter_sublist (p := fun e : ι × PollFd => e.2.revents ≠ 0)
    (l := rows.zip pfds)).map Prod.fst
  rwa [List.map_fst_zip (Nat.le_of_eq hlen)] at hsub

theorem Rows.mark (hr : Rows fd w rows) (es : List (ι × PollFd)) :
    Rows fd { w with chan := mark w.chan es } rows where
  fds i := (mark_keeps w.chan es i).1.trans (hr.fds i)
  nonneg := hr.nonneg
  length := hr.length
  entry := hr.entry
  index n i h := (mark_keeps w.chan es i).2.trans (hr.index n i h)
  map := hr.map

-- ---------------------------------------------------------------------------
-- Runs
-- ---------------------------------------------------------------------------

theorem Rows.change (hr : Rows fd w rows) (h : w.change i f = .ok w') :
    ∃ rows, Rows fd w' rows := by
  rcases change_inv h with ⟨hlt, hnew, rfl⟩ | ⟨hreg, n, pfd, hn, -, hfd, rfl⟩
  · exact ⟨_, hr.added hlt hnew f⟩
  · exact ⟨_, hr.refreshed hn hfd (hr.registered_iff.mp hreg) f⟩

theorem Rows.remove (hr : Rows fd w rows) (h : w.remove i = .ok w') :
    ∃ rows, Rows fd w' rows := by
  obtain ⟨hreg, n, hn, ⟨hlast, rfl⟩ | ⟨hlt, back, j, hback, hfind, rfl⟩⟩ := remove_inv h
  · exact ⟨_, hr.dropped (hr.registered_iff.mp hreg) hn hlast⟩
  · exact ⟨_, hr.moved (hr.registered_iff.mp hreg) hn hlt hback (hr.last hback hfind)⟩

theorem Rows.create (hr : Rows fd w rows) (h : i ∉ w.channels.entries.map Prod.snd) (n : ℕ) :
    Rows (update fd i n) { w with chan := update w.chan i { fd := n } } rows := by
  have hne : ∀ j ∈ rows, j ≠ i := by
    rintro j hj rfl
    have hfind := OrdMap.find?_eq_some.mp ((hr.map (fd j) j).mpr ⟨hj, rfl⟩)
    exact h (List.mem_map_of_mem hfind)
  refine ⟨fun j => ?_, fun j => ?_, hr.length, fun m j pfd hj hp => ?_, fun m j hj => ?_,
    hr.map.congr fun j k => and_congr_right fun hj => ?_⟩
  · by_cases hj : j = i
    · subst hj
      simp
    · simpa [hj] using hr.fds j
  · by_cases hj : j = i
    · subst hj
      simp
    · simpa [hj] using hr.nonneg j
  · rw [update_of_ne (hne j (List.mem_of_getElem? hj))]
    exact hr.entry m j pfd hj hp
  · simp only [update_of_ne (hne j (List.mem_of_getElem? hj))]
    exact hr.index m j hj
  · rw [update_of_ne (hne j hj)]

theorem rows_keeps : (polling ι).Keeps fun w => ∃ fd rows, Rows fd w rows := by
  rintro w a w' ⟨fd, rows, hr⟩ ha h
  cases a with
  | create i n =>
    cases h
    exact ⟨_, _, hr.create ha n⟩
  | call c =>
    have h : w.step c = .ok w' := mapError_ok.mp h
    cases c with
    | change i f => exact ⟨fd, hr.change h⟩
    | remove i => exact ⟨fd, hr.remove h⟩
  | poll numEvents revents =>
    have hr' := hr.answer ha.length
    obtain ⟨⟨w₁, active⟩, h₁, h⟩ := bind_ok.mp h
    obtain rfl := pure_ok.mp h
    simp only [PollPoller.poll] at h₁
    split at h₁
    · rw [hr.fillActiveChannels ha] at h₁
      cases h₁
      exact ⟨fd, rows, hr'.mark _⟩
    · cases h₁
      exact ⟨fd, rows, hr'⟩
  | pollError revents =>
    cases h
    exact ⟨fd, rows, hr.answer ha⟩

/-- Whatever happened to the channels before, and whichever entries the kernel
reports: the channels of these entries are appended, each once and in the order
of the entries, each with its own `revents`, the others are as before, and no
assertion fails. -/
theorem activeChannels_exact (fd : ι → ℕ) (h : (polling ι).Run (start fun i => fd i) turns w)
    (ha : Answers w.pollfds numEvents revents) (activeChannels : List ι) :
    ∃ (chan : ι → Channel) (active : List ι),
      (w.answer revents).fillActiveChannels numEvents activeChannels =
        .ok ({ w.answer revents with chan }, activeChannels ++ active) ∧
      active.Nodup ∧ active.Pairwise (fun i j => (w.chan i).index < (w.chan j).index) ∧
      (∀ i, i ∈ active ↔ w.Registered i ∧ ∃ pfd, At (w.answer revents) i pfd ∧ pfd.revents ≠ 0) ∧
      (∀ i ∈ active, ∃ pfd, At (w.answer revents) i pfd ∧ pfd.fd = (w.chan i).fd ∧
        chan i = { w.chan i with revents := pfd.revents.signExtend 32 }) ∧
      ∀ i ∉ active, chan i = w.chan i := by
  obtain ⟨fd', rows, hr⟩ := h.keeps rows_keeps ⟨_, _, start_rows fd⟩
  have hlen : rows.length = (w.answer revents).pollfds.length := (hr.answer ha.length).length
  have hordered := hr.ordered.sublist (reported_sublist hlen)
  have hnodup : ((reported rows (w.answer revents).pollfds).map Prod.fst).Nodup :=
    hordered.imp fun hlt he => absurd (he ▸ hlt) (Int.lt_irrefl _)
  refine ⟨_, _, hr.fillActiveChannels ha activeChannels, hnodup, hordered, fun i => ?_,
    fun i hi => ?_, fun i hi => mark_of_not_mem hi⟩
  · rw [hr.registered_iff, List.mem_map]
    constructor
    · rintro ⟨⟨j, pfd⟩, hj, rfl⟩
      obtain ⟨n, hn, hp, hrev⟩ := mem_reported.mp hj
      exact ⟨List.mem_of_getElem? hn, pfd, ⟨n, hr.index n j hn, hp⟩, hrev⟩
    · rintro ⟨hi, pfd, ⟨n, hn, hp⟩, hrev⟩
      exact ⟨(i, pfd), mem_reported.mpr ⟨n, hr.place hi hn, hp, hrev⟩, rfl⟩
  · obtain ⟨⟨j, pfd⟩, hj, rfl⟩ := List.mem_map.mp hi
    obtain ⟨n, hn, hp, hrev⟩ := mem_reported.mp hj
    refine ⟨pfd, ⟨n, hr.index n j hn, hp⟩, ?_, mark_of_mem hnodup hj⟩
    rw [hr.fds]
    exact ((hr.reports ha hn hp).2 hrev).2.symm

/-- A descriptor is used again: its new channel reports, and the other one, which
has lost its interest, is passed over. -/
theorem activeChannels_reused : ∃ (w w' : PollPoller Bool) (active : List Bool),
    (polling Bool).Run (start fun b => ((if b then 7 else 5 : ℕ) : Int))
      [.call (.change false .enableReading), .call (.change true .enableWriting),
        .call (.change false .disableAll), .call (.remove false), .create false 5,
        .call (.change false .enableReading), .call (.change true .disableAll)] w ∧
    (w.answer [0, 1]).fillActiveChannels 1 [] = .ok (w', active) ∧ false ∈ active ∧
    true ∉ active ∧ (w'.chan false).revents = 1 := by
  obtain ⟨w, hw, hreg, hindex, hindex', hpollfds⟩ : ∃ w : PollPoller Bool,
      (polling Bool).Run (start fun b => ((if b then 7 else 5 : ℕ) : Int))
        [.call (.change false .enableReading), .call (.change true .enableWriting),
          .call (.change false .disableAll), .call (.remove false), .create false 5,
          .call (.change false .enableReading), .call (.change true .disableAll)] w ∧
      w.Registered false ∧ (w.chan false).index = 1 ∧ (w.chan true).index = 0 ∧
      w.pollfds = [⟨-8, 0, 0⟩, ⟨5, 3, 0⟩] :=
    Machine.exists_run (by decide +kernel)
  have ha : Answers w.pollfds 1 [0, 1] := by
    rw [hpollfds]
    decide
  obtain ⟨chan, active, hfill, -, -, hmem, hown, -⟩ := activeChannels_exact _ hw ha []
  have hat : At (w.answer [0, 1]) false ⟨5, 3, 1⟩ :=
    ⟨1, hindex, by simp only [PollPoller.answer, hpollfds]; rfl⟩
  have htrue : At (w.answer [0, 1]) true ⟨-8, 0, 0⟩ :=
    ⟨0, hindex', by simp only [PollPoller.answer, hpollfds]; rfl⟩
  have hfalse : false ∈ active := (hmem false).mpr ⟨hreg, _, hat, by decide⟩
  refine ⟨w, _, _, hw, hfill, hfalse, fun ht => ?_, ?_⟩
  · obtain ⟨-, pfd, hpfd, hne⟩ := (hmem true).mp ht
    exact hne (congrArg PollFd.revents (hpfd.unique htrue))
  · obtain ⟨pfd, hpfd, -, hchan⟩ := hown false hfalse
    rw [hpfd.unique hat] at hchan
    exact congrArg Channel.revents hchan

end Muduo.PollPoller
