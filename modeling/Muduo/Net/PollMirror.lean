import Muduo.Net.ActiveChannels

/-!
# The entries of channels that come and go

A descriptor is used again when its channel has left. Channels that get interest
first, keep some until they are about to leave, and then leave: each entry shows
the interest of its channel, and no assertion fails.
-/

namespace Muduo.PollPoller

open Lib Function

variable {ι : Type} [DecidableEq ι] {fd : ι → Int} {rows : List ι} {w w' : PollPoller ι} {i : ι}

structure Shows (c : Channel) (pfd : PollFd) : Prop where
  events : pfd.events.signExtend 32 = c.events
  fd : pfd.fd = if c.isNoneEvent then -c.fd - 1 else c.fd

structure Mirror (w : PollPoller ι) : Prop where
  rows : ∃ fd rows, Rows fd w rows
  plain : ∀ i, w.Registered i → (w.chan i).Plain
  shows : ∀ i, w.Registered i → ∃ pfd, At w i pfd ∧ Shows (w.chan i) pfd

/-- Going from `w` to `w'` touches no channel but `i`, up to its place. -/
structure Apart (i : ι) (w w' : PollPoller ι) : Prop where
  fd : ∀ j, j ≠ i → (w'.chan j).fd = (w.chan j).fd
  events : ∀ j, j ≠ i → (w'.chan j).events = (w.chan j).events
  fresh : ∀ j, j ≠ i → ((w'.chan j).index < 0 ↔ (w.chan j).index < 0)
  registered : ∀ j, j ≠ i → (w'.Registered j ↔ w.Registered j)

section
omit [DecidableEq ι]

theorem Apart.refl (i : ι) (w : PollPoller ι) : Apart i w w :=
  ⟨fun _ _ => rfl, fun _ _ => rfl, fun _ _ => Iff.rfl, fun _ _ => Iff.rfl⟩

theorem Apart.trans (h : Apart i w w') (h' : Apart i w' w'') : Apart i w w'' where
  fd j hj := (h'.fd j hj).trans (h.fd j hj)
  events j hj := (h'.events j hj).trans (h.events j hj)
  fresh j hj := (h'.fresh j hj).trans (h.fresh j hj)
  registered j hj := (h'.registered j hj).trans (h.registered j hj)

theorem Shows.congr {c c' : Channel} (h : Shows c pfd) (hf : c'.fd = c.fd)
    (he : c'.events = c.events) : Shows c' pfd := by
  have hnone : c'.isNoneEvent ↔ c.isNoneEvent := by simp only [Channel.isNoneEvent, he]
  exact ⟨h.events.trans he.symm, by simp only [h.fd, hf, hnone]⟩

theorem Shows.nonneg_iff {c : Channel} (h : Shows c pfd) (hc : 0 ≤ c.fd) :
    0 ≤ pfd.fd ↔ ¬c.isNoneEvent := by
  rw [h.fd]
  split <;> simp_all
  omega

theorem Rows.place_ne (hr : Rows fd w rows) (hi : w.Registered i) (hj : w.Registered j)
    (h : j ≠ i) (hn : (w.chan i).index = (n : ℕ)) (hm : (w.chan j).index = (m : ℕ)) : n ≠ m := by
  rintro rfl
  have hi := hr.place (hr.registered_iff.mp hi) hn
  have hj := hr.place (hr.registered_iff.mp hj) hm
  exact h (Option.some.inj (hj.symm.trans hi))

theorem start_mirror (fd : ι → ℕ) : Mirror (start fun i => fd i) :=
  ⟨⟨_, _, start_rows fd⟩, nofun, nofun⟩

end

-- ---------------------------------------------------------------------------
-- Channels come
-- ---------------------------------------------------------------------------

theorem Mirror.create (h : Mirror w) (hi : ¬w.Registered i) (n : ℕ) :
    ∃ w', w.turn (.create i n) = .ok w' ∧ Mirror w' ∧ Apart i w w' ∧ ¬w'.Registered i ∧
      w'.chan i = { fd := n } := by
  obtain ⟨fd, rows, hr⟩ := h.rows
  have hnew : i ∉ w.channels.entries.map Prod.snd := by
    intro hm
    obtain ⟨⟨k, j⟩, hk, rfl⟩ := List.mem_map.mp hm
    obtain ⟨hi', -⟩ := (hr.map k j).mp (OrdMap.find?_eq_some.mpr hk)
    exact hi (hr.registered_iff.mpr hi')
  have hr' := hr.create hnew n
  have hother : ∀ j, j ≠ i →
      ({ w with chan := update w.chan i { fd := n } } : PollPoller ι).chan j =
      w.chan j := fun j hj => update_of_ne hj ..
  have hreg : ∀ j, Registered { w with chan := update w.chan i { fd := n } } j ↔ w.Registered j :=
    fun j => hr'.registered_iff.trans hr.registered_iff.symm
  have hne : ∀ j, w.Registered j → j ≠ i := by
    rintro j hj rfl
    exact hi hj
  refine ⟨_, rfl, ⟨⟨_, _, hr'⟩, fun j hj => ?_, fun j hj => ?_⟩,
    ⟨fun j hj => ?_, fun j hj => ?_, fun j hj => ?_, fun j _ => hreg j⟩, mt (hreg i).mp hi,
    update_self ..⟩
  · rw [hother j (hne j ((hreg j).mp hj))]
    exact h.plain j ((hreg j).mp hj)
  · have hj := (hreg j).mp hj
    obtain ⟨pfd, ⟨n, hn, hp⟩, hs⟩ := h.shows j hj
    rw [hother j (hne j hj)]
    refine ⟨pfd, ⟨n, ?_, hp⟩, hs⟩
    rw [hother j (hne j hj), hn]
  all_goals simp [hj]

omit [DecidableEq ι] in
theorem Mirror.find?_none (h : Mirror w) (hfd : ∀ j, w.Registered j → (w.chan j).fd ≠ k) :
    w.channels.find? k = none := by
  obtain ⟨fd, rows, hr⟩ := h.rows
  cases hf : w.channels.find? k with
  | none => rfl
  | some j =>
    obtain ⟨hj, hjfd⟩ := (hr.map k j).mp hf
    exact absurd ((hr.fds j).trans hjfd) (hfd j (hr.registered_iff.mpr hj))

theorem Mirror.add (h : Mirror w) (hlt : (w.chan i).index < 0) (hp : (w.chan i).Plain)
    (hsome : ¬((w.chan i).apply f).isNoneEvent)
    (hnew : w.channels.find? (w.chan i).fd = none) :
    ∃ w', w.change i f = .ok w' ∧ Mirror w' ∧ Apart i w w' ∧ w'.Registered i ∧
      (w'.chan i).fd = (w.chan i).fd ∧ (w'.chan i).events = ((w.chan i).apply f).events := by
  obtain ⟨fd, rows, hr⟩ := h.rows
  have hr' := hr.added hlt hnew f
  have hreg : ∀ j, (w.added i ((w.chan i).apply f)).Registered j ↔ w.Registered j ∨ j = i := by
    intro j
    rw [hr'.registered_iff, hr.registered_iff, List.mem_append, List.mem_singleton]
  have hother : ∀ j, j ≠ i → (w.added i ((w.chan i).apply f)).chan j = w.chan j :=
    fun j hj => update_of_ne hj ..
  have hself : (w.added i ((w.chan i).apply f)).chan i =
      { (w.chan i).apply f with index := w.pollfds.length } := update_self ..
  have hplain := hp.apply f
  refine ⟨w.added i ((w.chan i).apply f), ?_, ⟨⟨_, _, hr'⟩, fun j hj => ?_, fun j hj => ?_⟩,
    ⟨fun j hj => ?_, fun j hj => ?_, fun j hj => ?_, fun j hj => ?_⟩, (hreg i).mpr (.inr rfl),
    ?_, ?_⟩
  · have hnew' : w.channels.find? ((w.chan i).apply f).fd = none := by rw [Channel.apply_fd, hnew]
    simp only [change, updateChannel, update_self, Channel.apply_index, if_pos hlt,
      ensure_bind hnew']
    simp [added, pure, Except.pure]
  · rcases (hreg j).mp hj with hj' | rfl
    · by_cases hji : j = i
      · subst hji
        rw [hself]
        exact hplain
      · rw [hother j hji]
        exact h.plain j hj'
    · rw [hself]
      exact hplain
  · by_cases hji : j = i
    · subst hji
      refine ⟨_, ⟨w.pollfds.length, by rw [hself], List.getElem?_concat_length⟩, ?_⟩
      rw [hself]
      exact ⟨hplain.short, (if_neg hsome).symm⟩
    · obtain ⟨pfd, ⟨n, hn, hp⟩, hs⟩ := h.shows j (((hreg j).mp hj).resolve_right hji)
      rw [hother j hji]
      refine ⟨pfd, ⟨n, by rw [hother j hji, hn], ?_⟩, hs⟩
      rw [added, List.getElem?_append_left (List.getElem?_eq_some_iff.mp hp).1]
      exact hp
  · rw [hother j hj]
  · rw [hother j hj]
  · rw [hother j hj]
  · rw [hreg, or_iff_left hj]
  · rw [hself]
    exact Channel.apply_fd ..
  · rw [hself]

-- ---------------------------------------------------------------------------
-- Channels stay
-- ---------------------------------------------------------------------------

theorem Mirror.set (h : Mirror w) (hi : w.Registered i) (hsome : ¬(w.chan i).isNoneEvent)
    (f : Channel.Interest) :
    ∃ w', w.change i f = .ok w' ∧ Mirror w' ∧ Apart i w w' ∧ w'.Registered i ∧
      w'.chan i = (w.chan i).apply f := by
  obtain ⟨fd, rows, hr⟩ := h.rows
  obtain ⟨pfd, ⟨n, hn, hp⟩, hs⟩ := h.shows i hi
  have hfd : pfd.fd = (w.chan i).fd := hs.fd.trans (if_neg hsome)
  have hr' := hr.refreshed hn (.inl hfd) (hr.registered_iff.mp hi) f
  have hreg : ∀ j, (w.refreshed i ((w.chan i).apply f) n pfd).Registered j ↔ w.Registered j :=
    fun j => hr'.registered_iff.trans hr.registered_iff.symm
  have hother : ∀ j, j ≠ i → (w.refreshed i ((w.chan i).apply f) n pfd).chan j = w.chan j :=
    fun j hj => update_of_ne hj ..
  have hself : (w.refreshed i ((w.chan i).apply f) n pfd).chan i = (w.chan i).apply f :=
    update_self ..
  have hplain := (h.plain i hi).apply f
  refine ⟨_, change_old hi hn hp ⟨.inl hfd, hs.events⟩, ⟨⟨_, _, hr'⟩, fun j hj => ?_,
    fun j hj => ?_⟩, ⟨fun j hj => ?_, fun j hj => ?_, fun j hj => ?_, fun j _ => hreg j⟩,
    (hreg i).mpr hi, hself⟩
  · by_cases hji : j = i
    · subst hji
      rw [hself]
      exact hplain
    · rw [hother j hji]
      exact h.plain j ((hreg j).mp hj)
  · by_cases hji : j = i
    · subst hji
      have hlt := (List.getElem?_eq_some_iff.mp hp).1
      refine ⟨refresh pfd ((w.chan j).apply f), ⟨n, by rw [hself, Channel.apply_index, hn], ?_⟩, ?_⟩
      · simp [refreshed, hlt]
      · rw [hself]
        refine ⟨hplain.short, ?_⟩
        rw [refresh, hfd, Channel.apply_fd]
    · have hj' := (hreg j).mp hj
      obtain ⟨pfd', ⟨m, hm, hp'⟩, hs'⟩ := h.shows j hj'
      rw [hother j hji]
      refine ⟨pfd', ⟨m, by rw [hother j hji, hm], ?_⟩, hs'⟩
      rw [refreshed, List.getElem?_set_ne (hr.place_ne hi hj' hji hn hm)]
      exact hp'
  · rw [hother j hj]
  · rw [hother j hj]
  · rw [hother j hj]

-- ---------------------------------------------------------------------------
-- Channels leave
-- ---------------------------------------------------------------------------

/-- The channel of the last entry is still in the map when another one has left it. -/
theorem Rows.fillHole_ok (hr : Rows fd w rows) (hi : i ∈ rows)
    (hne : (w.chan i).index ≠ w.pollfds.length - 1) (hpos : 0 < w.pollfds.length) (pfd : PollFd) :
    ∃ w', fillHole { w with channels := w.channels.erase (w.chan i).fd } (w.chan i).index pfd =
      .ok w' := by
  have hlast : w.pollfds.length - 1 < w.pollfds.length := by omega
  obtain ⟨back, hback⟩ : ∃ back, w.pollfds[w.pollfds.length - 1]? = some back :=
    ⟨_, List.getElem?_eq_getElem hlast⟩
  obtain ⟨j, hj⟩ : ∃ j, rows[w.pollfds.length - 1]? = some j :=
    ⟨_, List.getElem?_eq_getElem (hr.length ▸ hlast)⟩
  have hmem := List.mem_of_getElem? hj
  have hnonneg := hr.nonneg j
  have hdecode : (if back.fd < 0 then -back.fd - 1 else back.fd) = fd j := by
    rcases hr.entry _ _ _ hj hback with hfd | hfd <;> rw [hfd]
    · exact if_neg (by omega)
    · rw [if_pos (by omega)]
      omega
  have hent : PollPoller.entry w.pollfds ((w.pollfds.length : Int) - 1) = .ok back := by
    have hto : ((w.pollfds.length : Int) - 1).toNat = w.pollfds.length - 1 := by omega
    rw [entry_ok, hto]
    exact hback
  have hother : fd j ≠ (w.chan i).fd := by
    rw [hr.fds]
    intro he
    have hindex := hr.index _ _ hj
    rw [hr.fd_inj hmem hi he] at hindex
    omega
  have hfind : (w.channels.erase (w.chan i).fd).find? (fd j) = some j := by
    rw [OrdMap.find?_erase, if_neg hother]
    exact (hr.map _ _).mpr ⟨hmem, rfl⟩
  simp only [fillHole, hent, ok_bind, hdecode, hfind]
  exact ⟨_, rfl⟩

theorem Rows.remove_ok (hr : Rows fd w rows) (h : i ∈ rows) (hnone : (w.chan i).isNoneEvent)
    (hat : At w i pfd) (hs : Shows (w.chan i) pfd) : ∃ w', w.remove i = .ok w' := by
  obtain ⟨n, hn, hp⟩ := hat
  have hlt : n < w.pollfds.length := (List.getElem?_eq_some_iff.mp hp).1
  have hfind : w.channels.find? (w.chan i).fd = some i := hr.registered_iff.mpr h
  have hsome : w.channels.find? (w.chan i).fd ≠ none :=
    ne_of_eq_of_ne hfind (Option.some_ne_none _)
  have hrange : 0 ≤ (w.chan i).index ∧ (w.chan i).index < w.pollfds.length := by
    simp [hn, hlt]
  have hent : PollPoller.entry w.pollfds (w.chan i).index = .ok pfd := by
    rw [entry_ok, hn]
    exact hp
  have hpfd : pfd.fd = -(w.chan i).fd - 1 ∧ pfd.events.signExtend 32 = (w.chan i).events :=
    ⟨hs.fd.trans (if_pos hnone), hs.events⟩
  simp only [PollPoller.remove, removeChannel, ensure_bind hnone, ensure_bind hsome,
    ensure_bind hfind, ensure_bind hrange, hent, ok_bind, ensure_bind hpfd,
    ensure_bind (OrdMap.count_eq_one hfind)]
  split
  · exact ⟨_, rfl⟩
  · rename_i hne
    exact hr.fillHole_ok h hne (Nat.zero_lt_of_lt hlt) pfd

theorem Rows.remove_registered (hr : Rows fd w rows) (h : w.remove i = .ok w') (j : ι) :
    w'.Registered j ↔ j ≠ i ∧ w.Registered j := by
  obtain ⟨rows', hr'⟩ := hr.remove h
  obtain ⟨hi, n, -, hcase⟩ := remove_inv h
  have hchannels : w'.channels = w.channels.erase (w.chan i).fd := by
    rcases hcase with ⟨-, rfl⟩ | ⟨-, _, _, -, -, rfl⟩ <;> rfl
  rw [Registered, hchannels, hr'.fds, OrdMap.find?_erase, hr.fds]
  split
  · rename_i hfd
    refine iff_of_false (by rintro ⟨⟩) ?_
    rintro ⟨hj, hreg⟩
    exact hj (hr.fd_inj (hr.registered_iff.mp hreg) (hr.registered_iff.mp hi) hfd)
  · rename_i hfd
    rw [Registered, hr.fds]
    exact ⟨fun hj => ⟨fun he => hfd (he ▸ rfl), hj⟩, And.right⟩

theorem Rows.remove_chan (hr : Rows fd w rows) (h : w.remove i = .ok w') (j : ι) :
    (w'.chan j).fd = (w.chan j).fd ∧ (w'.chan j).events = (w.chan j).events ∧
      ((w'.chan j).index < 0 ↔ (w.chan j).index < 0) := by
  obtain ⟨-, n, -, ⟨-, rfl⟩ | ⟨-, back, k, hback, hfind, rfl⟩⟩ := remove_inv h
  · exact ⟨rfl, rfl, Iff.rfl⟩
  · by_cases hjk : j = k
    · subst hjk
      have hindex := hr.index _ j (hr.last hback hfind)
      have hold : ¬(w.chan j).index < 0 := by simp [hindex]
      refine ⟨by simp [PollPoller.moved], by simp [PollPoller.moved], iff_of_false ?_ hold⟩
      simp [PollPoller.moved]
    · simp [PollPoller.moved, hjk]

/-- The other channels keep their entries. The last one moves into the place that
becomes free. -/
theorem Rows.remove_at (hr : Rows fd w rows) (h : w.remove i = .ok w') (hj : w.Registered j)
    (hji : j ≠ i) (hat : At w j pfd) : At w' j pfd := by
  obtain ⟨m, hm, hp⟩ := hat
  have hmlt := (List.getElem?_eq_some_iff.mp hp).1
  obtain ⟨hi, n, hn, ⟨hlast, rfl⟩ | ⟨hlt, back, k, hback, hfind, rfl⟩⟩ := remove_inv h
  · have hne := hr.place_ne hi hj hji hn hm
    refine ⟨m, hm, ?_⟩
    rw [PollPoller.dropped, List.getElem?_dropLast, if_pos (by omega)]
    exact hp
  · have hne := hr.place_ne hi hj hji hn hm
    have hk := hr.last hback hfind
    have hlen := hr.length
    by_cases hjk : j = k
    · subst hjk
      have hindex := hr.index _ j hk
      have hml : m = w.pollfds.length - 1 := by omega
      subst hml
      rw [hback] at hp
      obtain rfl := Option.some.inj hp
      refine ⟨n, by simp [PollPoller.moved], ?_⟩
      rw [PollPoller.moved, List.getElem?_dropLast, List.length_set, if_pos (by omega),
        List.getElem?_set_self (by omega)]
    · have hml : m ≠ w.pollfds.length - 1 := by
        rintro rfl
        rw [hlen] at hk
        have hplace := hr.place (hr.registered_iff.mp hj) hm
        exact hjk (Option.some.inj (hplace.symm.trans hk))
      refine ⟨m, by simpa [PollPoller.moved, hjk] using hm, ?_⟩
      rw [PollPoller.moved, List.getElem?_dropLast, List.length_set, if_pos (by omega),
        List.getElem?_set_ne hne]
      exact hp

theorem Mirror.remove (h : Mirror w) (hi : w.Registered i) (hnone : (w.chan i).isNoneEvent) :
    ∃ w', w.remove i = .ok w' ∧ Mirror w' ∧ Apart i w w' ∧ ¬w'.Registered i ∧
      (w'.chan i).fd = (w.chan i).fd ∧ (w'.chan i).events = (w.chan i).events := by
  obtain ⟨fd, rows, hr⟩ := h.rows
  obtain ⟨pfd, hat, hs⟩ := h.shows i hi
  obtain ⟨w', hw'⟩ := hr.remove_ok (hr.registered_iff.mp hi) hnone hat hs
  have hreg := hr.remove_registered hw'
  have hchan := hr.remove_chan hw'
  refine ⟨w', hw', ⟨⟨fd, hr.remove hw'⟩, fun j hj => ?_, fun j hj => ?_⟩,
    ⟨fun j _ => (hchan j).1, fun j _ => (hchan j).2.1, fun j _ => (hchan j).2.2, fun j hj => ?_⟩,
    fun hi' => ((hreg i).mp hi').1 rfl, (hchan i).1, (hchan i).2.1⟩
  · have hplain := h.plain j ((hreg j).mp hj).2
    simpa [Channel.Plain, (hchan j).2.1] using hplain
  · obtain ⟨hji, hj⟩ := (hreg j).mp hj
    obtain ⟨pfd, hat, hs⟩ := h.shows j hj
    exact ⟨pfd, hr.remove_at hw' hj hji hat, hs.congr (hchan j).1 (hchan j).2.1⟩
  · rw [hreg, and_iff_right hj]

-- ---------------------------------------------------------------------------
-- Polling
-- ---------------------------------------------------------------------------

/-- Polling changes nothing but the `revents`. -/
structure Still (w w' : PollPoller ι) : Prop where
  fd : ∀ j, (w'.chan j).fd = (w.chan j).fd
  events : ∀ j, (w'.chan j).events = (w.chan j).events
  index : ∀ j, (w'.chan j).index = (w.chan j).index
  channels : w'.channels = w.channels

omit [DecidableEq ι] in
theorem Still.registered (h : Still w w') (j : ι) : w'.Registered j ↔ w.Registered j := by
  rw [Registered, h.channels, h.fd, Registered]

omit [DecidableEq ι] in
theorem Mirror.answer (h : Mirror w) (hlen : revents.length = w.pollfds.length) :
    Mirror (w.answer revents) := by
  obtain ⟨fd, rows, hr⟩ := h.rows
  refine ⟨⟨fd, rows, hr.answer hlen⟩, h.plain, fun i hi => ?_⟩
  obtain ⟨pfd, ⟨n, hn, hp⟩, hs⟩ := h.shows i hi
  have hlt : n < revents.length := hlen ▸ (List.getElem?_eq_some_iff.mp hp).1
  refine ⟨{ pfd with revents := revents[n] }, ⟨n, hn, ?_⟩, ⟨hs.events, hs.fd⟩⟩
  simp only [PollPoller.answer, List.getElem?_zipWith, hp, List.getElem?_eq_getElem hlt]

theorem mark_events (chan : ι → Channel) (es : List (ι × PollFd)) (i : ι) :
    (mark chan es i).events = (chan i).events := by
  induction es generalizing chan with
  | nil => rfl
  | cons e es ih =>
    refine (ih _).trans ?_
    by_cases hi : i = e.1
    · subst hi
      simp [set_revents]
    · simp [set_revents, hi]

theorem Mirror.mark (h : Mirror w) (es : List (ι × PollFd)) :
    Mirror { w with chan := mark w.chan es } ∧ Still w { w with chan := mark w.chan es } := by
  obtain ⟨fd, rows, hr⟩ := h.rows
  have hstill : Still w { w with chan := PollPoller.mark w.chan es } :=
    ⟨fun j => (mark_keeps w.chan es j).1, mark_events w.chan es,
      fun j => (mark_keeps w.chan es j).2, rfl⟩
  refine ⟨⟨⟨fd, rows, hr.mark es⟩, fun i hi => ?_, fun i hi => ?_⟩, hstill⟩
  · have hplain := h.plain i ((hstill.registered i).mp hi)
    rw [Channel.Plain, hstill.events i]
    exact hplain
  · obtain ⟨pfd, ⟨n, hn, hp⟩, hs⟩ := h.shows i ((hstill.registered i).mp hi)
    exact ⟨pfd, ⟨n, (hstill.index i).trans hn, hp⟩, hs.congr (hstill.fd i) (hstill.events i)⟩

theorem Mirror.poll (h : Mirror w) (ha : Answers w.pollfds numEvents revents) :
    ∃ w' active, w.poll numEvents revents [] = .ok (w', active) ∧ Mirror w' ∧ Still w w' ∧
      active.Nodup ∧ ∀ i ∈ active, w.Registered i ∧ ¬(w.chan i).isNoneEvent ∧
        ∃ r ∈ revents, (w'.chan i).revents = r.signExtend 32 := by
  have hanswer := h.answer ha.length
  have hstill : Still w (w.answer revents) := ⟨fun _ => rfl, fun _ => rfl, fun _ => rfl, rfl⟩
  unfold PollPoller.poll
  simp only
  split
  · obtain ⟨fd, rows, hr⟩ := h.rows
    obtain ⟨hmirror, hmark⟩ := hanswer.mark (reported rows (w.answer revents).pollfds)
    have hlen : rows.length = (w.answer revents).pollfds.length := (hr.answer ha.length).length
    have hordered := hr.ordered.sublist (reported_sublist hlen)
    have hnodup : ((reported rows (w.answer revents).pollfds).map Prod.fst).Nodup :=
      hordered.imp fun hlt he => absurd (he ▸ hlt) (Int.lt_irrefl _)
    have hstill' : Still w
        { w.answer revents with
          chan := PollPoller.mark w.chan (reported rows (w.answer revents).pollfds) } :=
      ⟨hmark.fd, hmark.events, hmark.index, rfl⟩
    refine ⟨_, _, hr.fillActiveChannels ha [], hmirror, hstill', hnodup, fun i hi => ?_⟩
    obtain ⟨⟨j, pfd⟩, hj, rfl⟩ := List.mem_map.mp hi
    obtain ⟨n, hn, hp, hrev⟩ := mem_reported.mp hj
    obtain ⟨old, hold, hfd, hmem⟩ := answer_entry hp
    have hreg := hr.registered_iff.mpr (List.mem_of_getElem? hn)
    obtain ⟨pfd', hat, hs⟩ := h.shows j hreg
    obtain rfl := hat.unique ⟨n, hr.index n j hn, hold⟩
    have hown := ((hr.reports ha hn hp).2 hrev).2
    have hnonneg := hr.nonneg j
    refine ⟨hreg, (hs.nonneg_iff ?_).mp ?_, _, List.mem_of_getElem? hmem, ?_⟩
    · rw [hr.fds]
      exact hnonneg
    · rw [← hfd, ← hown]
      exact hnonneg
    · exact congrArg Channel.revents (mark_of_mem hnodup hj)
  · exact ⟨_, _, rfl, hanswer, hstill, .nil, nofun⟩

end Muduo.PollPoller
