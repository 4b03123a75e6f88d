import Muduo.Net.PollPoller
import Mathlib.Data.Set.Insert
import Mathlib.Logic.Embedding.Basic

/-!
# The poll set

`Book` is what the map, the array and the channels' indexes keep between them,
whatever the calls. Under the discipline of the callers (`Allowed`) no assertion
fails. Whether the array asks the kernel for what the channels are interested
in depends on the calls; `pollSet_iff` says for which calls it does.
-/

namespace Muduo.PollPoller

open Lib Function

variable {ι : Type} [DecidableEq ι]

omit [DecidableEq ι] in
def Registered (w : PollPoller ι) (i : ι) : Prop := w.channels.find? (w.chan i).fd = some i

omit [DecidableEq ι] in
theorem fd_ne (fd : ι ↪ ℕ) {i j : ι} (hj : j ≠ i) : (fd j : Int) ≠ fd i :=
  fun he => hj (fd.injective (by exact_mod_cast he))

structure Pairs (pfd : PollFd) (c : Channel) : Prop where
  fd : pfd.fd = c.fd ∨ pfd.fd = -c.fd - 1
  events : pfd.events.signExtend 32 = c.events

/-- The channels have the distinct descriptors `fd`; the map and the array hold
the same channels. -/
structure Book (fd : ι ↪ ℕ) (w : PollPoller ι) : Prop where
  fds : ∀ i, (w.chan i).fd = fd i
  plain : ∀ i, (w.chan i).Plain
  keys : ∀ k i, w.channels.find? k = some i → k = fd i
  entry : ∀ i, w.Registered i → ∃ (n : ℕ) (pfd : PollFd),
    (w.chan i).index = n ∧ w.pollfds[n]? = some pfd ∧ Pairs pfd (w.chan i)
  cover : ∀ n < w.pollfds.length, ∃ i, w.Registered i ∧ (w.chan i).index = n
  size : w.channels.size = w.pollfds.length

variable {fd : ι ↪ ℕ} {w : PollPoller ι} {i : ι}

theorem entry_ok {es : List PollFd} : entry es idx = .ok pfd ↔ es[idx.toNat]? = some pfd := by
  unfold entry
  split <;> simp_all

section
omit [DecidableEq ι]

theorem Book.registered_iff (hb : Book fd w) : w.Registered i ↔ w.channels.find? (fd i) = some i := by
  rw [Registered, hb.fds]

theorem Book.find?_fd (hb : Book fd w) (h : w.channels.find? (fd i) = some j) : j = i := by
  have := hb.keys _ _ h
  exact (fd.injective (by exact_mod_cast this)).symm

theorem Book.find?_new (hb : Book fd w) (h : (w.chan i).index < 0) :
    w.channels.find? (fd i) = none := by
  cases hf : w.channels.find? (fd i) with
  | none => rfl
  | some j =>
    have hj := hb.find?_fd hf
    subst hj
    obtain ⟨n, pfd, hn, -, -⟩ := hb.entry j (hb.registered_iff.mpr hf)
    omega

theorem Pairs.decode (hp : Pairs pfd c) (h : c.fd = (n : ℕ)) :
    (if pfd.fd < 0 then -pfd.fd - 1 else pfd.fd) = c.fd := by
  rcases hp.fd with h' | h' <;> rw [h']
  · exact if_neg (by omega)
  · rw [if_pos (by omega)]
    omega

theorem ne_of_index (w : PollPoller ι) (h : (w.chan j).index ≠ (w.chan i).index) : j ≠ i :=
  fun he => h (he ▸ rfl)

theorem Book.index_inj (hb : Book fd w) (hi : w.Registered i) (hj : w.Registered j)
    (h : (w.chan i).index = (w.chan j).index) : i = j := by
  obtain ⟨n, pi, hni, hpi, hqi⟩ := hb.entry i hi
  obtain ⟨m, pj, hmj, hpj, hqj⟩ := hb.entry j hj
  have hnm : n = m := by omega
  subst hnm
  rw [hpi] at hpj
  cases hpj
  have hdi := hqi.decode (hb.fds i)
  have hdj := hqj.decode (hb.fds j)
  rw [hdi, hb.fds, hb.fds] at hdj
  exact fd.injective (by exact_mod_cast hdj)

def At (w : PollPoller ι) (i : ι) (pfd : PollFd) : Prop :=
  ∃ n : ℕ, (w.chan i).index = n ∧ w.pollfds[n]? = some pfd

theorem Book.at_entry (hb : Book fd w) (h : w.Registered i) :
    ∃ pfd, At w i pfd ∧ Pairs pfd (w.chan i) := by
  obtain ⟨n, pfd, hn, hp, hq⟩ := hb.entry i h
  exact ⟨pfd, ⟨n, hn, hp⟩, hq⟩

theorem At.unique (h : At w i pfd) (h' : At w i pfd') : pfd = pfd' := by
  obtain ⟨n, hn, hp⟩ := h
  obtain ⟨m, hm, hp'⟩ := h'
  have : n = m := by omega
  subst this
  rw [hp] at hp'
  exact Option.some.inj hp'

theorem start_book (fd : ι ↪ ℕ) : Book fd (start fun i => fd i) where
  fds _ := rfl
  plain _ := .inl rfl
  keys _ _ h := by cases h
  entry _ h := by cases h
  cover _ h := absurd h (Nat.not_lt_zero _)
  size := rfl

end

-- ---------------------------------------------------------------------------
-- What a step can do
-- ---------------------------------------------------------------------------

def added (w : PollPoller ι) (i : ι) (c : Channel) : PollPoller ι :=
  { chan := update w.chan i { c with index := w.pollfds.length }
    pollfds := w.pollfds ++ [{ fd := c.fd, events := c.events.setWidth 16, revents := 0 }]
    channels := w.channels.insert c.fd i }

def refreshed (w : PollPoller ι) (i : ι) (c : Channel) (n : ℕ) (pfd : PollFd) : PollPoller ι :=
  { w with chan := update w.chan i c, pollfds := w.pollfds.set n (refresh pfd c) }

/-- The removal of the channel in the last entry. -/
def dropped (w : PollPoller ι) (i : ι) : PollPoller ι :=
  { w with pollfds := w.pollfds.dropLast, channels := w.channels.erase (w.chan i).fd }

/-- The removal of another channel: the last one, `j`, moves into its place. -/
def moved (w : PollPoller ι) (i j : ι) (n : ℕ) (back : PollFd) : PollPoller ι :=
  { chan := update w.chan j { w.chan j with index := n }
    pollfds := (w.pollfds.set n back).dropLast
    channels := w.channels.erase (w.chan i).fd }

theorem added_fd (w : PollPoller ι) (i : ι) (f : Channel.Interest) (j : ι) :
    ((w.added i ((w.chan i).apply f)).chan j).fd = (w.chan j).fd := by
  by_cases hj : j = i
  · subst hj
    simp [added]
  · simp [added, hj]

theorem refreshed_keeps (w : PollPoller ι) (i : ι) (f : Channel.Interest) (n : ℕ) (pfd : PollFd)
    (j : ι) : ((w.refreshed i ((w.chan i).apply f) n pfd).chan j).fd = (w.chan j).fd ∧
      ((w.refreshed i ((w.chan i).apply f) n pfd).chan j).index = (w.chan j).index := by
  by_cases hj : j = i
  · subst hj
    simp [refreshed]
  · simp [refreshed, hj]

theorem moved_fd (w : PollPoller ι) (i j : ι) (n : ℕ) (back : PollFd) (k : ι) :
    ((w.moved i j n back).chan k).fd = (w.chan k).fd := by
  by_cases hk : k = j
  · subst hk
    simp [moved]
  · simp [moved, hk]

theorem change_new (hb : Book fd w) (h : (w.chan i).index < 0) :
    w.change i f = .ok (w.added i ((w.chan i).apply f)) := by
  have hnone : w.channels.find? ((w.chan i).apply f).fd = none := by
    rw [Channel.apply_fd, hb.fds]
    exact hb.find?_new h
  simp only [change, updateChannel, update_self, Channel.apply_index, if_pos h,
    ensure_bind hnone]
  simp [added, pure, Except.pure]

theorem change_old (h : w.Registered i) (hn : (w.chan i).index = (n : ℕ))
    (hp : w.pollfds[n]? = some pfd) (hq : Pairs pfd (w.chan i)) :
    w.change i f = .ok (w.refreshed i ((w.chan i).apply f) n pfd) := by
  have hlt : n < w.pollfds.length := (List.getElem?_eq_some_iff.mp hp).1
  have hfind : w.channels.find? ((w.chan i).apply f).fd = some i := by
    rw [Channel.apply_fd]
    exact h
  have hsome : w.channels.find? ((w.chan i).apply f).fd ≠ none :=
    ne_of_eq_of_ne hfind (Option.some_ne_none _)
  have hrange : 0 ≤ (w.chan i).index ∧ (w.chan i).index < w.pollfds.length := by omega
  have hent : entry w.pollfds (w.chan i).index = .ok pfd := by
    rw [entry_ok, hn]
    exact hp
  have hpair : pfd.fd = ((w.chan i).apply f).fd ∨ pfd.fd = -((w.chan i).apply f).fd - 1 := by
    rw [Channel.apply_fd]
    exact hq.fd
  simp only [change, updateChannel, update_self, Channel.apply_index,
    if_neg (not_lt.mpr hrange.1), ensure_bind hsome, ensure_bind hfind, ensure_bind hrange, hent,
    ok_bind, ensure_bind hpair, refreshed]
  simp [hn, pure, Except.pure]

theorem change_inv (h : w.change i f = .ok w') :
    ((w.chan i).index < 0 ∧ w.channels.find? (w.chan i).fd = none ∧
      w' = w.added i ((w.chan i).apply f)) ∨
    (w.Registered i ∧ ∃ (n : ℕ) (pfd : PollFd), (w.chan i).index = n ∧ w.pollfds[n]? = some pfd ∧
      (pfd.fd = (w.chan i).fd ∨ pfd.fd = -(w.chan i).fd - 1) ∧
      w' = w.refreshed i ((w.chan i).apply f) n pfd) := by
  by_cases hlt : (w.chan i).index < 0
  · simp only [change, updateChannel, update_self, Channel.apply_index, Channel.apply_fd,
      if_pos hlt, bind_ok, ensure_ok, pure_ok] at h
    obtain ⟨-, hnone, rfl⟩ := h
    exact .inl ⟨hlt, hnone, by simp [added]⟩
  · simp only [change, updateChannel, update_self, Channel.apply_index, Channel.apply_fd,
      if_neg hlt, bind_ok, ensure_ok, pure_ok, entry_ok] at h
    obtain ⟨-, -, -, hreg, -, hrange, pfd, hp, -, hfd, rfl⟩ := h
    obtain ⟨n, hn⟩ := Int.eq_ofNat_of_zero_le hrange.1
    rw [hn, Int.toNat_natCast] at hp
    exact .inr ⟨hreg, n, pfd, hn, hp, hfd, by simp [refreshed, hn]⟩

theorem change_cases (hb : Book fd w) (h : w.change i f = .ok w') :
    ((w.chan i).index < 0 ∧ w' = w.added i ((w.chan i).apply f)) ∨
    (w.Registered i ∧ ∃ (n : ℕ) (pfd : PollFd), (w.chan i).index = n ∧
      w.pollfds[n]? = some pfd ∧ Pairs pfd (w.chan i) ∧
      w' = w.refreshed i ((w.chan i).apply f) n pfd) := by
  rcases change_inv h with ⟨hlt, -, rfl⟩ | ⟨hreg, n, pfd, hn, hp, -, rfl⟩
  · exact .inl ⟨hlt, rfl⟩
  · obtain ⟨pfd', hat, hq⟩ := hb.at_entry hreg
    obtain rfl := hat.unique ⟨n, hn, hp⟩
    exact .inr ⟨hreg, n, pfd', hn, hp, hq, rfl⟩

/-- What is left of the poller when channel `i` is gone. -/
inductive Removed (w : PollPoller ι) (i : ι) : PollPoller ι → Prop
  | dropped : (w.chan i).index = (n : ℕ) → n + 1 = w.pollfds.length → Removed w i (w.dropped i)
  | moved : (w.chan i).index = (n : ℕ) → n + 1 < w.pollfds.length → w.Registered j →
      (w.chan j).index = ((w.pollfds.length - 1 : ℕ) : Int) →
      w.pollfds[w.pollfds.length - 1]? = some back → Removed w i (w.moved i j n back)

theorem remove_ok (hb : Book fd w) (h : w.Registered i) (hnone : (w.chan i).isNoneEvent)
    (hn : (w.chan i).index = (n : ℕ)) (hp : w.pollfds[n]? = some pfd)
    (hq : pfd.fd = -(w.chan i).fd - 1 ∧ pfd.events.signExtend 32 = (w.chan i).events) :
    ∃ w', w.remove i = .ok w' ∧ Removed w i w' := by
  have hlt : n < w.pollfds.length := (List.getElem?_eq_some_iff.mp hp).1
  have hfind : w.channels.find? (w.chan i).fd = some i := h
  have hsome : w.channels.find? (w.chan i).fd ≠ none :=
    ne_of_eq_of_ne hfind (Option.some_ne_none _)
  have hrange : 0 ≤ (w.chan i).index ∧ (w.chan i).index < w.pollfds.length := by omega
  have hent : entry w.pollfds (w.chan i).index = .ok pfd := by
    rw [entry_ok, hn]
    exact hp
  simp only [remove, removeChannel, ensure_bind hnone, ensure_bind hsome, ensure_bind hfind,
    ensure_bind hrange, hent, ok_bind, ensure_bind hq, ensure_bind (OrdMap.count_eq_one hfind)]
  split
  · exact ⟨_, rfl, .dropped hn (by omega)⟩
  · -- the channel of the last entry is found under its decoded descriptor
    rename_i hlast
    obtain ⟨j, hj, hij⟩ := hb.cover (w.pollfds.length - 1) (by omega)
    obtain ⟨m, back, hm, hback, hpair⟩ := hb.entry j hj
    have hmlast : m = w.pollfds.length - 1 := by omega
    subst hmlast
    have hentb : entry w.pollfds ((w.pollfds.length : Int) - 1) = .ok back := by
      have hto : ((w.pollfds.length : Int) - 1).toNat = w.pollfds.length - 1 := by omega
      rw [entry_ok, hto]
      exact hback
    have hne : (w.chan j).fd ≠ (w.chan i).fd := by
      intro heq
      rw [hb.fds, hb.fds] at heq
      have : j = i := fd.injective (by exact_mod_cast heq)
      subst this
      omega
    have hfindj : (w.channels.erase (w.chan i).fd).find?
        (if back.fd < 0 then -back.fd - 1 else back.fd) = some j := by
      rw [hpair.decode (hb.fds j), OrdMap.find?_erase, if_neg hne]
      exact hj
    refine ⟨w.moved i j n back, ?_, .moved hn (by omega) hj hij hback⟩
    simp only [fillHole, hentb, ok_bind, hfindj, moved, hn, Int.toNat_natCast]
    have hpop : ((w.pollfds.set n back).set (w.pollfds.length - 1) pfd).dropLast =
        (w.pollfds.set n back).dropLast := by
      refine List.ext_getElem? fun k => ?_
      simp only [List.getElem?_dropLast, List.length_set, List.getElem?_set]
      grind
    rw [hpop]
    rfl

theorem remove_cases (hb : Book fd w) (h : w.remove i = .ok w') :
    w.Registered i ∧ (w.chan i).isNoneEvent ∧ Removed w i w' := by
  have h' := h
  simp only [remove, removeChannel, bind_ok, ensure_ok, entry_ok] at h'
  obtain ⟨_, hnone, _, -, _, hreg, _, -, _, -, pfd, hp, _, hq, -⟩ := h'
  have hreg : w.Registered i := hreg
  obtain ⟨n, pfd', hn, hp', -⟩ := hb.entry i hreg
  rw [hn, Int.toNat_natCast, hp'] at hp
  cases hp
  obtain ⟨w₁, hw₁, hr⟩ := remove_ok hb hreg hnone hn hp' hq
  rw [hw₁] at h
  cases h
  exact ⟨hreg, hnone, hr⟩

-- ---------------------------------------------------------------------------
-- The books are kept
-- ---------------------------------------------------------------------------

theorem Pairs.refresh {c : Channel} (hp : pfd.fd = c.fd ∨ pfd.fd = -c.fd - 1) (h : c.Plain) :
    Pairs (refresh pfd c) c := by
  refine ⟨?_, h.short⟩
  unfold PollPoller.refresh
  split
  · exact .inr rfl
  · exact hp

theorem Book.registered_added (hb : Book fd w) (i : ι) (f : Channel.Interest) (j : ι) :
    (w.added i ((w.chan i).apply f)).Registered j ↔ j = i ∨ w.Registered j := by
  rw [Registered, added_fd, hb.fds, hb.registered_iff]
  simp only [PollPoller.added, OrdMap.find?_insert, Channel.apply_fd, hb.fds]
  by_cases hj : j = i
  · subst hj
    simp
  · simp [hj, fd_ne fd hj]

theorem Book.added (hb : Book fd w) (h : (w.chan i).index < 0) (f : Channel.Interest) :
    Book fd (w.added i ((w.chan i).apply f)) := by
  have hplain := (hb.plain i).apply f
  have hfdi : ((w.chan i).apply f).fd = fd i := by rw [Channel.apply_fd, hb.fds]
  have hreg := hb.registered_added i f
  refine ⟨fun j => (added_fd w i f j).trans (hb.fds j), ?_, ?_, ?_, ?_, ?_⟩
  · intro j
    by_cases hj : j = i
    · subst hj
      simpa [PollPoller.added, Channel.Plain] using hplain
    · simpa [PollPoller.added, hj] using hb.plain j
  · intro k j hk
    simp only [PollPoller.added, OrdMap.find?_insert, hfdi] at hk
    split at hk
    · cases hk
      assumption
    · exact hb.keys k j hk
  · intro j hj
    rcases (hreg j).mp hj with rfl | hj'
    · refine ⟨w.pollfds.length, _, ?_, List.getElem?_concat_length, ?_, ?_⟩
      · simp [PollPoller.added]
      · simp [PollPoller.added]
      · simpa [PollPoller.added] using hplain.short
    · obtain ⟨n, pfd, hn, hp, hq⟩ := hb.entry j hj'
      have hji : j ≠ i := ne_of_index w (by omega)
      have hlt : n < w.pollfds.length := (List.getElem?_eq_some_iff.mp hp).1
      refine ⟨n, pfd, ?_, ?_, ?_⟩
      · simpa [PollPoller.added, hji] using hn
      · simpa [PollPoller.added, List.getElem?_append_left hlt] using hp
      · simpa [PollPoller.added, hji] using hq
  · intro n hn
    simp only [PollPoller.added, List.length_append, List.length_singleton] at hn
    by_cases hlast : n = w.pollfds.length
    · exact ⟨i, (hreg i).mpr (.inl rfl), by simp [PollPoller.added, hlast]⟩
    · obtain ⟨j, hj, hij⟩ := hb.cover n (by omega)
      have hji : j ≠ i := ne_of_index w (by omega)
      exact ⟨j, (hreg j).mpr (.inr hj), by simpa [PollPoller.added, hji] using hij⟩
  · have hnew := OrdMap.size_insert_new (v := i) (hb.find?_new h)
    simp only [PollPoller.added, List.length_append, List.length_singleton, hfdi, hnew, hb.size]

theorem Book.refreshed (hb : Book fd w) (h : w.Registered i) (hn : (w.chan i).index = (n : ℕ))
    (hp : w.pollfds[n]? = some pfd) (hq : Pairs pfd (w.chan i)) (f : Channel.Interest) :
    Book fd (w.refreshed i ((w.chan i).apply f) n pfd) := by
  have hplain := (hb.plain i).apply f
  have hlt : n < w.pollfds.length := (List.getElem?_eq_some_iff.mp hp).1
  have hfds : ∀ j, ((w.refreshed i ((w.chan i).apply f) n pfd).chan j).fd = fd j :=
    fun j => (refreshed_keeps w i f n pfd j).1.trans (hb.fds j)
  have hindex : ∀ j, ((w.refreshed i ((w.chan i).apply f) n pfd).chan j).index =
      (w.chan j).index := fun j => (refreshed_keeps w i f n pfd j).2
  have hreg : ∀ j, (w.refreshed i ((w.chan i).apply f) n pfd).Registered j ↔ w.Registered j := by
    intro j
    rw [Registered, hfds, hb.registered_iff]
    rfl
  refine ⟨hfds, ?_, hb.keys, ?_, ?_, ?_⟩
  · intro j
    by_cases hj : j = i
    · subst hj
      simpa [PollPoller.refreshed] using hplain
    · simpa [PollPoller.refreshed, hj] using hb.plain j
  · intro j hj
    rw [hreg] at hj
    by_cases hji : j = i
    · subst hji
      refine ⟨n, refresh pfd ((w.chan j).apply f), by rw [hindex]; exact hn, ?_, ?_⟩
      · simp [PollPoller.refreshed, hlt]
      · simpa [PollPoller.refreshed] using
          Pairs.refresh (by simpa [Channel.apply_fd] using hq.fd) hplain
    · obtain ⟨m, pfd', hm, hp', hq'⟩ := hb.entry j hj
      have hmn : n ≠ m := fun he => hji (hb.index_inj hj h (by rw [hm, hn, he]))
      refine ⟨m, pfd', by rw [hindex]; exact hm, ?_, by simpa [PollPoller.refreshed, hji] using hq'⟩
      simpa [PollPoller.refreshed, List.getElem?_set_ne hmn] using hp'
  · intro m hm
    simp only [PollPoller.refreshed, List.length_set] at hm
    obtain ⟨j, hj, hij⟩ := hb.cover m hm
    exact ⟨j, (hreg j).mpr hj, by rw [hindex]; exact hij⟩
  · simpa [PollPoller.refreshed] using hb.size

theorem Removed.stays (hb : Book fd w) (h : w.Registered i) (hr : Removed w i w')
    (hk : w.Registered k) (hki : k ≠ i) :
    (w'.chan k).fd = (w.chan k).fd ∧ (w'.chan k).events = (w.chan k).events ∧
      ∃ pfd, At w k pfd ∧ At w' k pfd := by
  obtain ⟨m, pfd, hm, hp, -⟩ := hb.entry k hk
  have hlt : m < w.pollfds.length := (List.getElem?_eq_some_iff.mp hp).1
  cases hr with
  | @dropped n hn hlast =>
    have hmn : m ≠ n := fun he => hki (hb.index_inj hk h (by rw [hm, hn, he]))
    refine ⟨rfl, rfl, pfd, ⟨m, hm, hp⟩, m, hm, ?_⟩
    rw [PollPoller.dropped, List.getElem?_dropLast, if_pos (by omega)]
    exact hp
  | @moved n j back hn hlast hj hij hback =>
    by_cases hkj : k = j
    · subst hkj
      have hml : m = w.pollfds.length - 1 := by omega
      subst hml
      rw [hback] at hp
      cases hp
      refine ⟨by simp [PollPoller.moved], by simp [PollPoller.moved], pfd, ⟨_, hm, hback⟩, n,
        by simp [PollPoller.moved], ?_⟩
      have hlen : n < w.pollfds.length := by omega
      rw [PollPoller.moved, List.getElem?_dropLast, List.length_set, if_pos (by omega),
        List.getElem?_set_self hlen]
    · have hml : m ≠ w.pollfds.length - 1 :=
        fun he => hkj (hb.index_inj hk hj (by rw [hm, hij, he]))
      have hmn : n ≠ m := fun he => hki (hb.index_inj hk h (by rw [hm, hn, he]))
      refine ⟨by simp [PollPoller.moved, hkj], by simp [PollPoller.moved, hkj], pfd, ⟨m, hm, hp⟩,
        m, by simpa [PollPoller.moved, hkj] using hm, ?_⟩
      rw [PollPoller.moved, List.getElem?_dropLast, List.length_set, if_pos (by omega),
        List.getElem?_set_ne hmn]
      exact hp

theorem Removed.channels (hr : Removed w i w') : w'.channels = w.channels.erase (w.chan i).fd := by
  cases hr <;> rfl

theorem Removed.length (hr : Removed w i w') : w'.pollfds.length = w.pollfds.length - 1 := by
  cases hr <;> simp [PollPoller.dropped, PollPoller.moved]

theorem Removed.fds (hb : Book fd w) (hr : Removed w i w') (k : ι) : (w'.chan k).fd = fd k := by
  cases hr with
  | dropped => exact hb.fds k
  | @moved n j back => exact (moved_fd w i j n back k).trans (hb.fds k)

theorem Removed.plain (hb : Book fd w) (hr : Removed w i w') (k : ι) : (w'.chan k).Plain := by
  cases hr with
  | dropped => exact hb.plain k
  | @moved n j =>
    by_cases hk : k = j
    · subst hk
      simpa [PollPoller.moved, Channel.Plain] using hb.plain k
    · simpa [PollPoller.moved, hk] using hb.plain k

theorem Removed.registered_iff (hb : Book fd w) (hr : Removed w i w') (j : ι) :
    w'.Registered j ↔ j ≠ i ∧ w.Registered j := by
  rw [Registered, hr.channels, hr.fds hb, OrdMap.find?_erase, hb.fds, hb.registered_iff]
  by_cases hj : j = i
  · subst hj
    simp
  · simp [hj, fd_ne fd hj]

theorem Removed.cover (hb : Book fd w) (hr : Removed w i w') :
    ∀ m < w'.pollfds.length, ∃ k, w'.Registered k ∧ (w'.chan k).index = m := by
  intro m hm
  have hreg := hr.registered_iff hb
  have hlen := hr.length
  cases hr with
  | @dropped n hn hlast =>
    obtain ⟨j, hj, hij⟩ := hb.cover m (by omega)
    have hji : j ≠ i := ne_of_index w (by omega)
    exact ⟨j, (hreg j).mpr ⟨hji, hj⟩, hij⟩
  | @moved n j back hn hlast hj hij hback =>
    by_cases hmn : m = n
    · have hne : j ≠ i := ne_of_index w (by omega)
      exact ⟨j, (hreg j).mpr ⟨hne, hj⟩, by simp [PollPoller.moved, hmn]⟩
    · obtain ⟨k, hk, hik⟩ := hb.cover m (by omega)
      have hki : k ≠ i := ne_of_index w (by omega)
      have hkj : k ≠ j := ne_of_index w (by omega)
      exact ⟨k, (hreg k).mpr ⟨hki, hk⟩, by simpa [PollPoller.moved, hkj] using hik⟩

theorem Book.removed (hb : Book fd w) (h : w.Registered i) (hr : Removed w i w') :
    Book fd w' where
  fds := hr.fds hb
  plain := hr.plain hb
  keys k j hk := by
    rw [hr.channels, OrdMap.find?_erase] at hk
    split at hk
    · cases hk
    · exact hb.keys k j hk
  entry k hk := by
    obtain ⟨hki, hk⟩ := (hr.registered_iff hb k).mp hk
    obtain ⟨hf, he, pfd, hat, n, hn, hp⟩ := hr.stays hb h hk hki
    obtain ⟨pfd', hat', hq⟩ := hb.at_entry hk
    obtain rfl := hat.unique hat'
    exact ⟨n, pfd, hn, hp, by rw [hf]; exact hq.fd, by rw [he]; exact hq.events⟩
  cover := hr.cover hb
  size := by
    have hold := hb.size
    have hsize := OrdMap.size_erase h
    have hlen := hr.length
    rw [hr.channels]
    omega

theorem change_stays (hb : Book fd w) (h : w.change i f = .ok w') (hk : w.Registered k)
    (hki : k ≠ i) : w'.chan k = w.chan k ∧ ∃ pfd, At w k pfd ∧ At w' k pfd := by
  obtain ⟨m, pfd, hm, hp, -⟩ := hb.entry k hk
  have hlt : m < w.pollfds.length := (List.getElem?_eq_some_iff.mp hp).1
  rcases change_cases hb h with ⟨-, rfl⟩ | ⟨hreg, n, pfd₀, hn, -, -, rfl⟩
  · refine ⟨by simp [PollPoller.added, hki], pfd, ⟨m, hm, hp⟩, m,
      by simpa [PollPoller.added, hki] using hm, ?_⟩
    rw [PollPoller.added, List.getElem?_append_left hlt]
    exact hp
  · have hmn : n ≠ m := fun he => hki (hb.index_inj hk hreg (by rw [hm, hn, he]))
    refine ⟨by simp [PollPoller.refreshed, hki], pfd, ⟨m, hm, hp⟩, m,
      by simpa [PollPoller.refreshed, hki] using hm, ?_⟩
    rw [PollPoller.refreshed, List.getElem?_set_ne hmn]
    exact hp

theorem change_self (hb : Book fd w) (h : w.change i f = .ok w') :
    (w'.chan i).events = ((w.chan i).apply f).events ∧ (w'.chan i).fd = (w.chan i).fd ∧
    (((w.chan i).index < 0 ∧ ∃ pfd, At w' i pfd ∧ pfd.fd = (w.chan i).fd) ∨
      (w.Registered i ∧ ∃ pfd, At w i pfd ∧ At w' i (refresh pfd ((w.chan i).apply f)))) := by
  rcases change_cases hb h with ⟨hlt, rfl⟩ | ⟨hreg, n, pfd, hn, hp, -, rfl⟩
  · refine ⟨by simp [PollPoller.added], by simp [PollPoller.added], .inl ⟨hlt, _, ⟨_, ?_,
      List.getElem?_concat_length⟩, ?_⟩⟩
    · simp [PollPoller.added]
    · simp
  · have hlt : n < w.pollfds.length := (List.getElem?_eq_some_iff.mp hp).1
    refine ⟨by simp [PollPoller.refreshed], by simp [PollPoller.refreshed],
      .inr ⟨hreg, pfd, ⟨n, hn, hp⟩, n, by simpa [PollPoller.refreshed] using hn, ?_⟩⟩
    simp [PollPoller.refreshed, hlt]

/-- A change either is a channel's first update or one of a registered channel. -/
theorem Book.change (hb : Book fd w) (h : w.change i f = .ok w') :
    Book fd w' ∧ ∀ j, w'.Registered j ↔ j = i ∨ w.Registered j := by
  rcases change_cases hb h with ⟨hlt, rfl⟩ | ⟨hreg, n, pfd, hn, hp, hq, rfl⟩
  · exact ⟨hb.added hlt f, hb.registered_added i f⟩
  · have hb' := hb.refreshed hreg hn hp hq f
    refine ⟨hb', fun j => ?_⟩
    rw [hb'.registered_iff]
    show w.channels.find? _ = _ ↔ _
    rw [← hb.registered_iff]
    constructor
    · exact .inr
    · rintro (rfl | hj)
      · exact hreg
      · exact hj

theorem book_keeps (fd : ι ↪ ℕ) : (machine ι).Keeps (Book fd) := by
  intro w call w' hb _ h
  cases call with
  | change i f => exact (hb.change h).1
  | remove i =>
    obtain ⟨hreg, -, hr⟩ := remove_cases hb h
    exact hb.removed hreg hr

-- ---------------------------------------------------------------------------
-- Callers that keep to the rules
-- ---------------------------------------------------------------------------

/-- A first update enables some event, only a registered channel without
interest is removed, and a removed channel is left alone. -/
def Allowed (w : PollPoller ι) : Call ι → Prop
  | .change i f =>
    if (w.chan i).index < 0 then ¬((w.chan i).apply f).isNoneEvent else w.Registered i
  | .remove i => w.Registered i ∧ (w.chan i).isNoneEvent

instance (w : PollPoller ι) (i : ι) : Decidable (w.Registered i) :=
  inferInstanceAs (Decidable (_ = _))

instance (w : PollPoller ι) (call : Call ι) : Decidable (Allowed w call) := by
  cases call <;> unfold Allowed <;> infer_instance

/-- The entry of a channel without interest is out of the kernel's sight. -/
def Hidden (w : PollPoller ι) : Prop :=
  ∀ i, w.Registered i → (w.chan i).isNoneEvent → ∃ pfd, At w i pfd ∧ pfd.fd = -(w.chan i).fd - 1

theorem Removed.hidden (hb : Book fd w) (hh : Hidden w) (h : w.Registered i)
    (hr : Removed w i w') : Hidden w' := by
  intro k hk hnone
  obtain ⟨hki, hkw⟩ := (hr.registered_iff hb k).mp hk
  obtain ⟨hf, he, pfd, hat, hat'⟩ := hr.stays hb h hkw hki
  obtain ⟨pfd', hatw, hfd⟩ := hh k hkw (he.symm.trans hnone)
  obtain rfl := hat.unique hatw
  exact ⟨pfd, hat', by rw [hf]; exact hfd⟩

theorem change_hidden (hb : Book fd w) (hh : Hidden w) (h : w.change i f = .ok w')
    (hnew : (w.chan i).index < 0 → ¬((w.chan i).apply f).isNoneEvent) : Hidden w' := by
  intro k hk hnone
  by_cases hki : k = i
  · subst hki
    obtain ⟨he, hf, hself⟩ := change_self hb h
    have hnone' : ((w.chan k).apply f).isNoneEvent := he.symm.trans hnone
    rcases hself with ⟨hlt, -⟩ | ⟨-, pfd, -, hat⟩
    · exact absurd hnone' (hnew hlt)
    · refine ⟨_, hat, ?_⟩
      rw [refresh, hf, if_pos hnone', Channel.apply_fd]
  · have hkw := (((hb.change h).2 k).mp hk).resolve_left hki
    obtain ⟨hc, pfd, hat, hat'⟩ := change_stays hb h hkw hki
    rw [hc] at hnone
    obtain ⟨pfd', hatw, hfd⟩ := hh k hkw hnone
    obtain rfl := hat.unique hatw
    exact ⟨pfd, hat', by rw [hc]; exact hfd⟩

theorem allowed_safe (fd : ι ↪ ℕ) :
    ((machine ι).restrict Allowed).Safe fun w => Book fd w ∧ Hidden w := by
  rintro w call ⟨hb, hh⟩ ⟨-, hal⟩
  cases call with
  | change i f =>
    by_cases hlt : (w.chan i).index < 0
    · simp only [Allowed, if_pos hlt] at hal
      have hstep := change_new (f := f) hb hlt
      exact ⟨_, hstep, (hb.change hstep).1, change_hidden hb hh hstep fun _ => hal⟩
    · simp only [Allowed, if_neg hlt] at hal
      obtain ⟨n, pfd, hn, hp, hq⟩ := hb.entry i hal
      have hstep := change_old (f := f) hal hn hp hq
      exact ⟨_, hstep, (hb.change hstep).1, change_hidden hb hh hstep fun h => absurd h hlt⟩
  | remove i =>
    obtain ⟨hreg, hnone⟩ := hal
    obtain ⟨pfd, ⟨n, hn, hp⟩, hfd⟩ := hh i hreg hnone
    obtain ⟨pfd', hat, hq⟩ := hb.at_entry hreg
    obtain rfl := hat.unique ⟨n, hn, hp⟩
    obtain ⟨w', hw', hr⟩ := remove_ok hb hreg hnone hn hp ⟨hfd, hq.events⟩
    exact ⟨w', hw', hb.removed hreg hr, hr.hidden hb hh hreg⟩

/-- The channels given to the poller and not removed since. -/
def registered (calls : List (Call ι)) : Set ι :=
  calls.foldl (fun live call => match call with
    | .change i _ => insert i live
    | .remove i => live \ {i}) ∅

theorem registered_run (h : (machine ι).Run (start fun i => fd i) calls w) :
    Book fd w ∧ ∀ i, w.Registered i ↔ i ∈ registered calls := by
  refine h.follow (R := fun w live => Book fd w ∧ ∀ i, w.Registered i ↔ i ∈ live) ?_
    ⟨start_book fd, fun i => iff_of_false (by rintro ⟨⟩) (Set.notMem_empty i)⟩
  rintro w live call w' ⟨hb, hlive⟩ - hstep
  cases call with
  | change i f =>
    obtain ⟨hb', hreg⟩ := hb.change hstep
    exact ⟨hb', fun j => by rw [hreg, hlive, Set.mem_insert_iff]⟩
  | remove i =>
    obtain ⟨hi, -, hr⟩ := remove_cases hb hstep
    exact ⟨hb.removed hi hr, fun j => by
      rw [hr.registered_iff hb, hlive, Set.mem_sdiff, Set.mem_singleton_iff, and_comm]⟩

/-- Channels with distinct descriptors, used by the rules in any order: the map
and the array have the same size and hold the registered channels, whose indexes
are exactly the places of the array, and the next call fails no assertion. -/
theorem bookkeeping (fd : ι ↪ ℕ)
    (h : ((machine ι).restrict Allowed).Run (start fun i => fd i) calls w) :
    w.channels.size = w.pollfds.length ∧
    (∀ i, i ∈ registered calls ↔ w.channels.find? (fd i) = some i) ∧
    (∀ k i, w.channels.find? k = some i → k = fd i) ∧
    (∀ i ∈ registered calls, ∀ j ∈ registered calls,
      (w.chan i).index = (w.chan j).index → i = j) ∧
    (∀ i ∈ registered calls, ∃ (n : ℕ) (pfd : PollFd), (w.chan i).index = n ∧
      w.pollfds[n]? = some pfd ∧ (pfd.fd = fd i ∨ pfd.fd = -fd i - 1)) ∧
    (∀ n < w.pollfds.length, ∃ i ∈ registered calls, (w.chan i).index = n) ∧
    ((machine ι).restrict Allowed).NoFault w := by
  obtain ⟨hb, hreg⟩ := registered_run h.of_restrict
  have hsafe := (h.safe (allowed_safe fd) ⟨start_book fd, fun _ h => by cases h⟩).2
  refine ⟨hb.size, fun i => ?_, hb.keys, fun i hi j hj => ?_, fun i hi => ?_, fun n hn => ?_, hsafe⟩
  · rw [← hreg, hb.registered_iff]
  · exact hb.index_inj ((hreg i).mpr hi) ((hreg j).mpr hj)
  · obtain ⟨n, pfd, hn, hp, hq⟩ := hb.entry i ((hreg i).mpr hi)
    refine ⟨n, pfd, hn, hp, ?_⟩
    rw [← hb.fds]
    exact hq.fd
  · obtain ⟨i, hi, hn⟩ := hb.cover n hn
    exact ⟨i, (hreg i).mp hi, hn⟩

/-- Two channels; the first leaves, so the second moves into its entry. -/
theorem bookkeeping_moved : ∃ (fd : Bool ↪ ℕ) (w : PollPoller Bool),
    ((machine Bool).restrict Allowed).Run (start fun i => fd i)
      [.change false .enableReading, .change true .enableWriting, .change false .disableAll,
        .remove false] w ∧ (w.chan true).index = 0 ∧ w.channels.size = w.pollfds.length := by
  let fd : Bool ↪ ℕ := ⟨fun b => if b then 7 else 0, by
    intro a b h
    cases a <;> cases b <;> simp_all⟩
  obtain ⟨w, hw, hindex⟩ : ∃ w, ((machine Bool).restrict Allowed).Run (start fun i => fd i)
      [.change false .enableReading, .change true .enableWriting, .change false .disableAll,
        .remove false] w ∧ (w.chan true).index = 0 := by
    refine ⟨_, .cons ⟨trivial, by decide⟩ rfl (.cons ⟨trivial, by decide⟩ rfl
      (.cons ⟨trivial, by decide⟩ rfl (.cons ⟨trivial, by decide⟩ rfl .nil))), rfl⟩
  exact ⟨fd, w, hw, hindex, (bookkeeping fd hw).1⟩

-- ---------------------------------------------------------------------------
-- What the kernel is asked for
-- ---------------------------------------------------------------------------

/-- The kernel watches each registered channel for the events it is interested
in, and ignores one without interest. -/
def Watched (w : PollPoller ι) : Prop :=
  ∀ i, w.Registered i → ∃ (n : ℕ) (pfd : PollFd), (w.chan i).index = n ∧
    w.pollfds[n]? = some pfd ∧ pfd.events.signExtend 32 = (w.chan i).events ∧
    (¬(w.chan i).isNoneEvent → pfd.fd = (w.chan i).fd) ∧
    ((w.chan i).isNoneEvent → pfd.fd < 0)

/-- The call is neither a first update that leaves the channel without interest,
nor one that gives interest to a registered channel that had none. -/
def Steady (w : PollPoller ι) : Call ι → Prop
  | .change i f =>
    if (w.chan i).index < 0 then ¬((w.chan i).apply f).isNoneEvent
    else (w.chan i).isNoneEvent → ((w.chan i).apply f).isNoneEvent
  | .remove _ => True

instance (w : PollPoller ι) (call : Call ι) : Decidable (Steady w call) := by
  cases call <;> unfold Steady <;> infer_instance

omit [DecidableEq ι] in
theorem Watched.at (hw : Watched w) (h : w.Registered i) (hat : At w i pfd) :
    (¬(w.chan i).isNoneEvent → pfd.fd = (w.chan i).fd) ∧
    ((w.chan i).isNoneEvent → pfd.fd < 0) := by
  obtain ⟨n, pfd', hn, hp, -, hfd⟩ := hw i h
  obtain rfl := hat.unique ⟨n, hn, hp⟩
  exact hfd

omit [DecidableEq ι] in
theorem Book.watched (hb : Book fd w) (h : ∀ i, w.Registered i → ∃ pfd, At w i pfd ∧
    (¬(w.chan i).isNoneEvent → pfd.fd = (w.chan i).fd) ∧
    ((w.chan i).isNoneEvent → pfd.fd < 0)) : Watched w := by
  intro i hi
  obtain ⟨pfd, ⟨n, hn, hp⟩, hfd⟩ := h i hi
  obtain ⟨pfd', hat, hq⟩ := hb.at_entry hi
  obtain rfl := hat.unique ⟨n, hn, hp⟩
  exact ⟨n, pfd', hn, hp, hq.events, hfd⟩

theorem Removed.watched (hb : Book fd w) (hw : Watched w) (h : w.Registered i)
    (hr : Removed w i w') : Watched w' := by
  refine (hb.removed h hr).watched fun k hk => ?_
  obtain ⟨hki, hkw⟩ := (hr.registered_iff hb k).mp hk
  obtain ⟨hf, he, pfd, hat, hat'⟩ := hr.stays hb h hkw hki
  refine ⟨pfd, hat', ?_⟩
  rw [hf, Channel.isNoneEvent, he]
  exact hw.at hkw hat

theorem change_watched_iff (hb : Book fd w) (hw : Watched w) (h : w.change i f = .ok w') :
    Watched w' ↔ Steady w (.change i f) := by
  obtain ⟨hb', hreg⟩ := hb.change h
  obtain ⟨he, hf, hself⟩ := change_self hb h
  have hnonneg : 0 ≤ (w.chan i).fd := by
    rw [hb.fds]
    exact Int.natCast_nonneg _
  have hi : w'.Registered i := (hreg i).mpr (.inl rfl)
  have hnone : (w'.chan i).isNoneEvent ↔ ((w.chan i).apply f).isNoneEvent := by
    rw [Channel.isNoneEvent, he]
    rfl
  -- the other channels are watched as before
  have hother : (∃ pfd, At w' i pfd ∧ (¬(w'.chan i).isNoneEvent → pfd.fd = (w'.chan i).fd) ∧
      ((w'.chan i).isNoneEvent → pfd.fd < 0)) → Watched w' := by
    intro hown
    refine hb'.watched fun k hk => ?_
    by_cases hki : k = i
    · subst hki
      exact hown
    · have hkw := ((hreg k).mp hk).resolve_left hki
      obtain ⟨hc, pfd, hat, hat'⟩ := change_stays hb h hkw hki
      rw [hc]
      exact ⟨pfd, hat', hw.at hkw hat⟩
  rcases hself with ⟨hlt, pfd, hat, hfd⟩ | ⟨hiw, pfd, hat, hat'⟩
  · simp only [Steady, if_pos hlt]
    constructor
    · intro hw' hn
      have := (hw'.at hi hat).2 (hnone.mpr hn)
      omega
    · intro hn
      exact hother ⟨pfd, hat, fun _ => hfd.trans hf.symm, fun hn' => absurd (hnone.mp hn') hn⟩
  · have hge : ¬(w.chan i).index < 0 := by
      obtain ⟨n, hn, -⟩ := hat
      omega
    simp only [Steady, if_neg hge]
    have hold := hw.at hiw hat
    constructor
    · intro hw' hwas
      by_contra hn
      have hnew := (hw'.at hi hat').1 (fun hn' => hn (hnone.mp hn'))
      rw [refresh, if_neg hn, hf] at hnew
      have := hold.2 hwas
      simp only at hnew
      omega
    · intro hn
      refine hother ⟨_, hat', fun hsome => ?_, fun hn' => ?_⟩
      · have hsome' : ¬((w.chan i).apply f).isNoneEvent := fun hn' => hsome (hnone.mpr hn')
        rw [refresh, if_neg hsome', hf]
        exact hold.1 fun hwas => hsome' (hn hwas)
      · rw [refresh, if_pos (hnone.mp hn'), Channel.apply_fd]
        simp only
        omega

/-- The poll set equals the interest set after every call exactly if each call
is `Steady`. -/
theorem pollSet_iff (fd : ι ↪ ℕ) (h : (machine ι).Run (start fun i => fd i) calls w) :
    (machine ι).Holds Watched (start fun i => fd i) calls ↔
      (machine ι).Meets Steady (start fun i => fd i) calls := by
  refine h.holds_iff_meets (book_keeps fd) ?_ (start_book fd) fun _ hi => by cases hi
  intro w call w' hb hw _ hstep
  cases call with
  | change i f => exact change_watched_iff hb hw hstep
  | remove i =>
    obtain ⟨hreg, -, hr⟩ := remove_cases hb hstep
    exact iff_of_true (hr.watched hb hw hreg) trivial

/-- A channel that keeps its interest until it leaves for good. -/
theorem pollSet_iff_steady : ∃ fd : Unit ↪ ℕ, (machine Unit).Holds Watched (start fun i => fd i)
    [.change () .enableReading, .change () .enableWriting, .change () .disableAll] := by
  let fd : Unit ↪ ℕ := ⟨fun _ => 5, fun _ _ _ => rfl⟩
  obtain ⟨w, hw⟩ : ∃ w, (machine Unit).Run (start fun _ => 5)
      [.change () .enableReading, .change () .enableWriting, .change () .disableAll] w :=
    ⟨_, .cons trivial rfl (.cons trivial rfl (.cons trivial rfl .nil))⟩
  refine ⟨fd, (pollSet_iff fd hw).mpr ⟨by decide, fun t ht => ?_⟩⟩
  cases ht
  refine ⟨by decide, fun t ht => ?_⟩
  cases ht
  exact ⟨by decide, fun _ _ => trivial⟩

/-- Interest that comes back after it was gone: the entry keeps the negated
descriptor, so the kernel goes on ignoring the channel. -/
theorem pollSet_reenabled : ∃ w : PollPoller Unit,
    (machine Unit).Run (start fun _ => 5)
      [.change () .enableReading, .change () .disableAll, .change () .enableReading] w ∧
    w.Registered () ∧ (w.chan ()).events = Channel.kReadEvent ∧ (w.chan ()).index = 0 ∧
    w.pollfds = [{ fd := -6, events := 3, revents := 0 }] ∧ ¬Watched w := by
  refine ⟨_, .cons trivial rfl (.cons trivial rfl (.cons trivial rfl .nil)),
    rfl, rfl, rfl, rfl, fun hw => ?_⟩
  obtain ⟨n, pfd, hn, hp, -, hfd, -⟩ := hw () rfl
  have h0 : n = 0 := by
    have : (0 : Int) = n := hn
    omega
  subst h0
  cases hp
  exact absurd (hfd (by decide)) (by decide)

end Muduo.PollPoller
