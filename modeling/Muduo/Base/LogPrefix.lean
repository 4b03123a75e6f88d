import Muduo.Base.LogLines

/-!
# Prefixes of records

A prefix takes 38 bytes, which the assertions on its way rely on. The date is
printed once a second: `Cached` says what the variables of a thread hold.
-/

namespace Muduo

open Lib
open LogStream (kSmallBuffer decimalDigit)

namespace Logging

-- ---------------------------------------------------------------------------
-- Widths
-- ---------------------------------------------------------------------------

theorem decimal_natCast (n : Nat) : LogStream.decimal n = numeral 10 decimalDigit n := by
  simp [LogStream.decimal, LogStream.sign]

theorem length_padded (fill : UInt8) (hwidth : 0 < width) :
    (padded fill width n).length = width ↔ n < 10 ^ width := by
  rw [padded, List.length_leftpad, decimal_natCast,
    ← length_numeral_le (c := decimalDigit) (by decide) hwidth]
  omega

theorem decimalDigit_ne_zero : ∀ d < 10, decimalDigit d ≠ 0 := by decide

theorem zero_not_mem_decimal (n : Nat) : 0 ∉ LogStream.decimal n := by
  rw [decimal_natCast]
  intro hmem
  simp only [numeral, List.mem_reverse, List.mem_map] at hmem
  obtain ⟨d, hd, hzero⟩ := hmem
  exact decimalDigit_ne_zero d (lowDigits_lt (by decide) d hd) hzero

theorem zero_not_mem_padded (hfill : fill ≠ 0) (width n : Nat) : 0 ∉ padded fill width n := by
  simp [padded, List.leftpad, zero_not_mem_decimal, hfill.symm]

theorem length_tidText (n : Nat) : (tidText n).length = 6 ↔ n ≤ 99999 := by
  rw [tidText, List.length_append]
  have hpadded := length_padded (n := n) 32 (by decide : 0 < 5)
  have hblank : (ascii " ").length = 1 := by decide
  omega

theorem zero_not_mem_tidText (n : Nat) : 0 ∉ tidText n := by
  simp only [tidText, List.mem_append, not_or]
  exact ⟨zero_not_mem_padded (by decide) 5 n, by decide⟩

theorem length_usText (h : n < 1000000) : (usText n).length = 9 := by
  have hpadded : (padded 48 6 n).length = 6 := (length_padded 48 (by decide)).mpr h
  simp [usText, hpadded, ascii]

theorem zero_not_mem_usText (n : Nat) : 0 ∉ usText n := by
  simp only [usText, List.mem_append, not_or]
  exact ⟨⟨by decide, zero_not_mem_padded (by decide) 6 n⟩, by decide⟩

theorem length_dateText (h : time < 253402300800) : (dateText (gmtime time)).length = 17 := by
  have hyear := gmtime_year_le h
  have hranges := gmtime_ranges time
  have hmon := hranges.mon
  have hmday := hranges.mday
  have hhour := hranges.hour
  have hmin := hranges.min
  have hsec := hranges.sec
  have htwo : ∀ n < 100, (padded 48 2 n).length = 2 := fun n hn =>
    (length_padded 48 (by decide)).mpr hn
  have hfour : (padded 32 4 (gmtime time).year).length = 4 :=
    (length_padded 32 (by decide)).mpr (by omega)
  simp only [dateText, List.length_append, hfour, htwo _ (by omega : (gmtime time).mon + 1 < 100),
    htwo _ (by omega : (gmtime time).mday + 1 < 100), htwo _ (by omega : (gmtime time).hour < 100),
    htwo _ (by omega : (gmtime time).min < 100), htwo _ (by omega : (gmtime time).sec < 100)]
  decide

theorem zero_not_mem_dateText (tm : Tm) : 0 ∉ dateText tm := by
  simp only [dateText, List.mem_append, not_or]
  have hblank : (0 : UInt8) ∉ ascii " " := by decide
  have hcolon : (0 : UInt8) ∉ ascii ":" := by decide
  simp [hblank, hcolon, zero_not_mem_padded (show (48 : UInt8) ≠ 0 by decide),
    zero_not_mem_padded (show (32 : UInt8) ≠ 0 by decide)]

-- ---------------------------------------------------------------------------
-- The variables of a thread
-- ---------------------------------------------------------------------------

/-- What is cached is what would be printed again. -/
structure Cached (t : ThreadLocal) (gettid : Nat) : Prop where
  tid : t.cachedTid ≠ 0 → t.tidString.text = tidText gettid
  time : t.lastSecond ≠ 0 → t.time.text = dateText (gmtime t.lastSecond)

theorem cached_fresh (gettid : Nat) : Cached {} gettid where
  tid h := absurd rfl h
  time h := absurd rfl h

variable {t : ThreadLocal} {gettid seconds : Nat}

theorem refreshTime_ok (h : Cached t gettid) (hlate : seconds < 253402300800) :
    ∃ t', refreshTime t seconds = .ok t' ∧ Cached t' gettid ∧ t'.lastSecond = seconds ∧
      t'.cachedTid = t.cachedTid := by
  have hlength := length_dateText hlate
  by_cases hsame : seconds = t.lastSecond
  · exact ⟨t, if_neg (not_not.mpr hsame), h, hsame.symm, rfl⟩
  · refine ⟨{ t with lastSecond := seconds, time := .snprintf 32 (dateText (gmtime seconds)) },
      ?_, ⟨h.tid, fun _ => ?_⟩, rfl, rfl⟩
    · rw [refreshTime, if_pos hsame, ensure_true hlength]
      rfl
    · exact CString.text_snprintf (by omega) (zero_not_mem_dateText _)

theorem tid_ok (h : Cached t gettid) (hshort : gettid ≤ 99999) :
    ∃ t', tid t gettid = .ok t' ∧ t'.tidString.text = tidText gettid ∧ Cached t' gettid := by
  have hlength := (length_tidText gettid).mpr hshort
  by_cases hfresh : t.cachedTid = 0
  · have htext : (CString.snprintf 32 (tidText gettid)).text = tidText gettid :=
      CString.text_snprintf (by omega) (zero_not_mem_tidText _)
    refine ⟨{ t with cachedTid := gettid, tidString := .snprintf 32 (tidText gettid) }, ?_, htext,
      ⟨fun _ => htext, h.time⟩⟩
    rw [tid, if_pos hfresh, cacheTid, if_pos hfresh, ensure_true hlength]
    rfl
  · exact ⟨t, if_neg hfresh, h.tid hfresh, h⟩

/-- An id of more digits ends the process. -/
theorem tid_long (hfresh : t.cachedTid = 0) (hlong : ¬gettid ≤ 99999) :
    tid t gettid = .error .cacheTid := by
  rw [tid, if_pos hfresh, cacheTid, if_pos hfresh, ensure_false (mt (length_tidText _).mp hlong)]
  rfl

end Logging

-- ---------------------------------------------------------------------------
-- Records
-- ---------------------------------------------------------------------------

namespace Logger

open Logging (Cached ThreadLocal dateText usText tidText)

def Record.prefixText (r : Record) : Bytes :=
  dateText (gmtime (r.now / 1000000)) ++ usText (r.now % 1000000) ++ tidText r.gettid ++
    (LogLevelName r.constructor.level).text

/-- The second 1 of 1970 to the end of the year 9999. -/
def Record.InRange (r : Record) : Prop :=
  1 ≤ r.now / 1000000 ∧ r.now / 1000000 < 253402300800

variable {t t' : ThreadLocal} {gettid : Nat} {r : Record}

theorem text_levelName (level : LogLevel) : (LogLevelName level).text.length = 6 := by
  cases level <;> decide

theorem length_prefixText (hr : r.InRange) (htid : r.gettid ≤ 99999) :
    r.prefixText.length = 38 := by
  have hus : r.now % 1000000 < 1000000 := Nat.mod_lt _ (by decide)
  simp only [Record.prefixText, List.length_append, Logging.length_dateText hr.2,
    Logging.length_usText hus, (Logging.length_tidText _).mpr htid, text_levelName]

theorem putT_fits {s : LogStream} {w : Bytes} {str : CString} (h : Holds s w)
    (htext : str.text = bytes) (hlen : bytes.length = len) (hroom : len + 1 + w.length ≤ 4000) :
    ∃ s', Logging.putT s str len = .ok s' ∧ Holds s' (w ++ bytes) := by
  have hstrlen : str.strlen = len := by rw [← str.length_text, htext, hlen]
  obtain ⟨s', hs', hholds⟩ := h.putT hstrlen
  rw [htext, grow_fits bytes hroom] at hholds
  exact ⟨s', hs', hholds⟩

theorem formatTime_ok (h : Cached t gettid) (hr : r.InRange) (memory : Memory kSmallBuffer) :
    ∃ t' s', Logging.formatTime t (.make memory) r.now = .ok (t', s') ∧ Cached t' gettid ∧
      t'.cachedTid = t.cachedTid ∧
      Holds s' (dateText (gmtime (r.now / 1000000)) ++ usText (r.now % 1000000)) := by
  obtain ⟨t', hrefresh, hcached, hsecond, htid⟩ := Logging.refreshTime_ok h hr.2
  have hus := Logging.length_usText (Nat.mod_lt r.now (by decide : 0 < 1000000))
  have hdate := Logging.length_dateText hr.2
  have htime : t'.time.text = dateText (gmtime (r.now / 1000000)) := by
    rw [hcached.time (by rw [hsecond]; exact Nat.ne_of_gt hr.1), hsecond]
  have hfresh : Holds (.make memory) [] := ⟨rfl, (by decide : 0 < kSmallBuffer)⟩
  obtain ⟨s₁, hs₁, h₁⟩ := putT_fits hfresh htime hdate (by decide)
  rw [List.nil_append] at h₁
  have hustext : (CString.snprintf 32 (usText (r.now % 1000000))).text =
      usText (r.now % 1000000) :=
    CString.text_snprintf (by omega) (Logging.zero_not_mem_usText _)
  obtain ⟨s₂, hs₂, h₂⟩ := putT_fits h₁ hustext hus (by rw [hdate]; decide)
  refine ⟨t', s₂, ?_, hcached, htid, h₂⟩
  simp only [Logging.formatTime, hrefresh, ok_bind,
    ensure_bind (show (usText (r.now % 1000000)).length < 32 by omega), ensure_bind hus, hs₁, hs₂]
  rfl

theorem make_prefix (h : Cached t r.gettid) (hr : r.InRange)
    (hshort : r.gettid ≤ 99999) :
    ∃ t' l w, make t r = .ok (t', l) ∧ Cached t' r.gettid ∧ Holds l.stream w ∧
      r.prefixText <+: w := by
  obtain ⟨t₁, s₁, htime, h₁, -, hs₁⟩ := formatTime_ok h hr r.memory
  obtain ⟨t₂, htid, htext, h₂⟩ := Logging.tid_ok h₁ hshort
  have hlength := length_prefixText hr hshort
  have hlevel := text_levelName r.constructor.level
  have htidlen := (Logging.length_tidText _).mpr hshort
  simp only [Record.prefixText, List.length_append] at hlength
  obtain ⟨s₂, hs₂, hh₂⟩ := putT_fits hs₁ htext htidlen
    (by simp only [List.length_append]; omega)
  obtain ⟨s₃, hs₃, hh₃⟩ := putT_fits hh₂
    (show (LogLevelName r.constructor.level).text = _ from rfl) hlevel
    (by simp only [List.length_append]; omega)
  obtain ⟨s₄, w₄, hs₄, hh₄, hw₄⟩ := hh₃.putErrno r.constructor.savedErrno r.strerror
  obtain ⟨s₅, w₅, hs₅, hh₅, hw₅⟩ := hh₄.putFunc r.constructor
  refine ⟨t₂, ⟨r.now, s₅, r.constructor.level, r.line, r.file⟩, w₅, ?_, h₂, hh₅, hw₄.trans hw₅⟩
  simp only [make, htime, ok_bind, htid, hs₂, hs₃, hs₄, hs₅]
  rfl

theorem log_prefix (h : Cached t r.gettid) (hr : r.InRange) (hshort : r.gettid ≤ 99999)
    (items : List Item) :
    ∃ t' msg aborts, log t r items = .ok (t', msg, aborts) ∧ Cached t' r.gettid ∧
      r.prefixText <+: msg := by
  obtain ⟨t', l, w, hmake, hcached, hholds, hw⟩ := make_prefix h hr hshort
  obtain ⟨s', w', hall, h', hw'⟩ := insertAll_ok hholds items
  obtain ⟨aborts, hdestroy⟩ := destroy_ok (l := { l with stream := s' }) h'
  refine ⟨t', _, aborts, ?_, hcached, (hw.trans hw').trans (prefix_trailed w' l.basename l.line)⟩
  simp only [log, hmake, ok_bind, hall, hdestroy]
  rfl

theorem log_long (hfresh : t.cachedTid = 0) (hr : r.InRange) (h : Cached t r.gettid)
    (hlong : ¬r.gettid ≤ 99999) (items : List Item) :
    log t r items = .error .cacheTid := by
  obtain ⟨t₁, s₁, htime, -, htid, -⟩ := formatTime_ok h hr r.memory
  have hfails := Logging.tid_long (htid.trans hfresh) hlong
  simp only [log, make, htime, ok_bind, hfails]
  rfl

/-- Every record of a thread has its own date, whichever was printed last. -/
theorem logAll_prefix {records : List (Record × List Item)} (h : Cached t gettid)
    (hshort : gettid ≤ 99999) (hrecords : ∀ e ∈ records, e.1.gettid = gettid ∧ e.1.InRange) :
    ∃ msgs, logAll t records = .ok msgs ∧ ∀ p ∈ records.zip msgs, p.1.1.prefixText <+: p.2 := by
  induction records generalizing t with
  | nil => exact ⟨[], rfl, by simp⟩
  | cons e records ih =>
    obtain ⟨r, items⟩ := e
    obtain ⟨⟨htid, hr⟩, hrecords⟩ := List.forall_mem_cons.mp hrecords
    subst htid
    obtain ⟨t', msg, aborts, hlog, h', hmsg⟩ := log_prefix h hr hshort items
    obtain ⟨msgs, hall, hmsgs⟩ := ih h' hrecords
    cases aborts with
    | true =>
      refine ⟨[msg], ?_, by simpa using hmsg⟩
      simp only [logAll, hlog, ok_bind]
      rfl
    | false =>
      refine ⟨msg :: msgs, ?_, ?_⟩
      · simp only [logAll, hlog, ok_bind, hall]
        rfl
      · rw [List.zip_cons_cons]
        exact List.forall_mem_cons.mpr ⟨hmsg, hmsgs⟩

/-- No assertion fails and every record has the prefix of its own second, 38 bytes of it:
if and only if the id of the thread has at most five digits, or is never asked for. -/
theorem prefix_iff {early : Bool} {gettid : Nat} {records : List (Record × List Item)}
    (hrecords : ∀ e ∈ records, e.1.gettid = gettid ∧ e.1.InRange) :
    (∃ msgs, logThread early gettid records = .ok msgs ∧ ∀ p ∈ records.zip msgs,
      p.1.1.prefixText <+: p.2 ∧ p.1.1.prefixText.length = 38) ↔
    gettid ≤ 99999 ∨ (early = false ∧ records = []) := by
  constructor
  · rintro ⟨msgs, hthread, -⟩
    by_contra hnot
    obtain ⟨hlong, hsilent⟩ := not_or.mp hnot
    cases early with
    | true =>
      rw [logThread, if_pos rfl, Logging.tid_long rfl hlong] at hthread
      cases hthread
    | false =>
      cases records with
      | nil => exact hsilent ⟨rfl, rfl⟩
      | cons e records =>
        obtain ⟨r, items⟩ := e
        obtain ⟨rfl, hr⟩ := hrecords (r, items) (by simp)
        have hlog := log_long rfl hr (Logging.cached_fresh _) hlong items
        have hall : logThread false r.gettid ((r, items) :: records) = .error .cacheTid := by
          simp only [logThread, logAll, Bool.false_eq_true, if_false, ok_bind, hlog, error_bind]
        rw [hall] at hthread
        cases hthread
  · rintro (hshort | ⟨rfl, rfl⟩)
    · have hlengths : ∀ e ∈ records, e.1.prefixText.length = 38 := fun e he => by
        obtain ⟨htid, hr⟩ := hrecords e he
        exact length_prefixText hr (htid ▸ hshort)
      obtain ⟨t, hstart, hcached⟩ : ∃ t, logThread early gettid records = logAll t records ∧
          Cached t gettid := by
        cases early with
        | true =>
          obtain ⟨t, ht, -, hcached⟩ := Logging.tid_ok (Logging.cached_fresh gettid) hshort
          refine ⟨t, ?_, hcached⟩
          rw [logThread, if_pos rfl, ht, ok_bind]
        | false => exact ⟨{}, rfl, Logging.cached_fresh gettid⟩
      obtain ⟨msgs, hall, hmsgs⟩ := logAll_prefix hcached hshort hrecords
      rw [hstart, hall]
      exact ⟨msgs, rfl, fun p hp => ⟨hmsgs p hp, hlengths p.1 (List.of_mem_zip hp).1⟩⟩
    · exact ⟨[], rfl, by simp⟩

/-- The last second of 9999, and one of 1970 behind it. -/
theorem prefix_iff_back : ∃ msgs,
    logThread true 99999
      [(⟨.plain, .ofArray (.literal "x.cc") (by decide), 3, 253402300799000007, 99999, .literal "",
          ⟨List.replicate kSmallBuffer 0, List.length_replicate⟩⟩, [.bool true]),
        (⟨.ofErrno false 2, .ofArray (.literal "x.cc") (by decide), 4, 1000000, 99999,
          .literal "No", ⟨List.replicate kSmallBuffer 0, List.length_replicate⟩⟩, [])] = .ok msgs := by
  have hrecords : ∀ e ∈
      [((⟨.plain, .ofArray (.literal "x.cc") (by decide), 3, 253402300799000007, 99999, .literal "",
          ⟨List.replicate kSmallBuffer 0, List.length_replicate⟩⟩ : Record), [Item.bool true]),
        (⟨.ofErrno false 2, .ofArray (.literal "x.cc") (by decide), 4, 1000000, 99999,
          .literal "No", ⟨List.replicate kSmallBuffer 0, List.length_replicate⟩⟩, [])],
      e.1.gettid = 99999 ∧ e.1.InRange := by
    simp [Record.InRange]
  obtain ⟨msgs, hall, -⟩ := (@prefix_iff true _ _ hrecords).mpr (.inl (by decide))
  exact ⟨msgs, hall⟩

/-- Six digits, as the ids of threads may have. -/
theorem prefix_six_digits :
    logThread true 100000 [] = .error .cacheTid ∧
    logThread false 100000
      [(⟨.plain, .ofArray (.literal "x.cc") (by decide), 3, 1000000, 100000, .literal "",
          ⟨List.replicate kSmallBuffer 0, List.length_replicate⟩⟩, [])] = .error .cacheTid := by
  decide +kernel

end Logger

end Muduo
