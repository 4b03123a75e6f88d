import Muduo.Base.LogFile

/-!
# Records in log files

What a log file is for: a sequence of files, each with the time it was started
at and its records, where a record goes into the last one. `Represents` says
which directory stands for such a sequence. Short writes and the clock do not show.
-/

namespace Muduo.LogFile

open Lib

variable {l l' : LogFile} {directory : Directory} {name : Text}

-- ---------------------------------------------------------------------------
-- Names are times
-- ---------------------------------------------------------------------------

theorem twoDigits_inj : ∀ m < 100, ∀ n < 100, twoDigits m = twoDigits n → m = n := by
  have hvalue : ∀ n < 100, Nat.ofDigitChars 10 (twoDigits n) 0 = n := by decide
  intro m hm n hn h
  rw [← hvalue m hm, ← hvalue n hn, h]

theorem strftime_inj {s t : Tm} (hs : s.Ranges) (ht : t.Ranges) (h : strftime s = strftime t) :
    s = t := by
  simp only [strftime, List.append_assoc, List.append_cancel_left_eq] at h
  obtain ⟨hyear, h⟩ := List.append_inj' h rfl
  obtain ⟨hmon, h⟩ := List.append_inj h rfl
  obtain ⟨hmday, h⟩ := List.append_inj h rfl
  obtain ⟨-, h⟩ := List.append_inj h rfl
  obtain ⟨hhour, h⟩ := List.append_inj h rfl
  obtain ⟨hmin, h⟩ := List.append_inj h rfl
  obtain ⟨hsec, -⟩ := List.append_inj h rfl
  have hmon' := twoDigits_inj _ (by have := hs.mon; omega) _ (by have := ht.mon; omega) hmon
  have hmday' := twoDigits_inj _ (by have := hs.mday; omega) _ (by have := ht.mday; omega) hmday
  have hhour' := twoDigits_inj _ (by have := hs.hour; omega) _ (by have := ht.hour; omega) hhour
  have hmin' := twoDigits_inj _ (by have := hs.min; omega) _ (by have := ht.min; omega) hmin
  have hsec' := twoDigits_inj _ (by have := hs.sec; omega) _ (by have := ht.sec; omega) hsec
  cases s
  cases t
  simp only [Tm.mk.injEq]
  exact ⟨toDigits_inj hyear, Nat.succ.inj hmon', Nat.succ.inj hmday', hhour', hmin', hsec'⟩

theorem getLogFileName_inj (h : l.getLogFileName s = l.getLogFileName t) : s = t := by
  simp only [getLogFileName, List.append_assoc, List.append_cancel_left_eq] at h
  have htime := List.append_cancel_right h
  exact gmtime_inj (strftime_inj (gmtime_ranges s) (gmtime_ranges t) htime)

-- ---------------------------------------------------------------------------
-- Writes
-- ---------------------------------------------------------------------------

def Unnamed (directory : Directory) (name : Text) : Prop := name ∉ directory.map Prod.fst

theorem fopen_unnamed (h : Unnamed directory name) :
    fopen directory name = directory ++ [(name, [])] := if_neg h

theorem fwrite_last (h : Unnamed directory name) (content bytes : Record) :
    fwrite (directory ++ [(name, content)]) name bytes = directory ++ [(name, content ++ bytes)] := by
  have hold : fwrite directory name bytes = directory := by
    refine Eq.trans (List.map_congr_left fun e he => if_neg ?_) (List.map_id directory)
    rintro rfl
    exact h (List.mem_map_of_mem he)
  have hnew : fwrite [(name, content)] name bytes = [(name, content ++ bytes)] := by
    simp [fwrite]
  have happend : fwrite (directory ++ [(name, content)]) name bytes =
      fwrite directory name bytes ++ fwrite [(name, content)] name bytes := List.map_append
  rw [happend, hold, hnew]

theorem appendLoop_ok (h : Unnamed directory name) (content logline : Record)
    (hw : Writes (logline.length - n) results) :
    appendLoop name logline n results (directory ++ [(name, content)]) =
      directory ++ [(name, content ++ logline.drop n)] := by
  induction results generalizing n content with
  | nil =>
    have hrest : logline.drop n = [] := List.drop_eq_nil_of_le (Nat.sub_eq_zero_iff_le.mp hw)
    rw [hrest, List.append_nil]
    rfl
  | cons x results ih =>
    obtain ⟨hpos, hle, hrest⟩ := hw
    rw [Nat.sub_sub] at hrest
    have hremain : logline.length - n > 0 := Nat.lt_of_lt_of_le hpos hle
    unfold appendLoop
    simp only
    rw [if_pos hremain, if_neg hpos.ne', fwrite_last h, ih _ hrest, List.append_assoc,
      ← List.drop_drop, List.take_append_drop]

theorem append_ok {file : File} (h : Unnamed directory file.name) (content logline : Record)
    (hw : Writes logline.length results) :
    file.append logline results (directory ++ [(file.name, content)]) =
      ({ file with writtenBytes := file.writtenBytes + logline.length },
        directory ++ [(file.name, content ++ logline)]) := by
  cases results with
  | nil =>
    have hnil : logline = [] := List.length_eq_zero_iff.mp hw
    rw [hnil, List.append_nil]
    rfl
  | cons n results =>
    obtain ⟨-, -, hrest⟩ := hw
    simp only [File.append]
    rw [fwrite_last h, appendLoop_ok h _ _ hrest, List.append_assoc, List.take_append_drop]

-- ---------------------------------------------------------------------------
-- Files
-- ---------------------------------------------------------------------------

/-- The files that were closed and the open one, each with the time it was
started at and its records. -/
structure Rolls where
  closed : List (Nat × List Record) := []
  time : Nat
  current : List Record := []

def Rolls.all (r : Rolls) : List (Nat × List Record) := r.closed ++ [(r.time, r.current)]

def Rolls.records (r : Rolls) : List Record := (r.all.map Prod.snd).flatten

def Rolls.append (r : Rolls) (logline : Record) : Rolls :=
  { r with current := r.current ++ [logline] }

def Rolls.roll (r : Rolls) (time : Nat) : Rolls := { closed := r.all, time }

theorem Rolls.all_roll (r : Rolls) (time : Nat) : (r.roll time).all = r.all ++ [(time, [])] := rfl

theorem Rolls.records_roll (r : Rolls) (time : Nat) : (r.roll time).records = r.records := by
  simp [Rolls.records, Rolls.all_roll]

theorem Rolls.records_append (r : Rolls) (logline : Record) :
    (r.append logline).records = r.records ++ [logline] := by
  simp [Rolls.records, Rolls.append, Rolls.all]

theorem Rolls.times_append (r : Rolls) (logline : Record) :
    (r.append logline).all.map Prod.fst = r.all.map Prod.fst := by
  simp [Rolls.append, Rolls.all]

/-- The directory has the files of `r` under the names of their times. -/
structure Represents (l : LogFile) (r : Rolls) : Prop where
  directory : l.directory = r.all.map fun e => (l.getLogFileName e.1, e.2.flatten)
  sorted : (r.all.map Prod.fst).Pairwise (· < ·)
  lastRoll : l.lastRoll = r.time
  file : ∃ file, l.file = some file ∧ file.name = l.getLogFileName r.time

theorem Represents.closed_lt (h : Represents l r) (he : e ∈ r.closed) : e.1 < r.time := by
  have hs := h.sorted
  rw [Rolls.all, List.map_append] at hs
  exact (List.pairwise_append.mp hs).2.2 _ (List.mem_map_of_mem he) _ (by simp)

theorem unnamed_later {files : List (Nat × List Record)} (h : ∀ e ∈ files, e.1 < now) :
    Unnamed (files.map fun e => (l.getLogFileName e.1, e.2.flatten)) (l.getLogFileName now) := by
  intro hm
  rw [List.map_map, List.mem_map] at hm
  obtain ⟨e, he, hname⟩ := hm
  exact Nat.ne_of_lt (h e he) (getLogFileName_inj hname)

theorem Represents.rollFile (h : Represents l r) (now : Nat) :
    ∃ r', Represents (l.rollFile now) r' ∧ r'.records = r.records := by
  unfold LogFile.rollFile
  by_cases hnow : now > l.lastRoll
  · have hlater : ∀ e ∈ r.all, e.1 < now := by
      intro e he
      rw [h.lastRoll] at hnow
      rcases List.mem_append.mp he with he | he
      · exact Nat.lt_trans (h.closed_lt he) hnow
      · rw [List.mem_singleton.mp he]
        exact hnow
    refine ⟨r.roll now, ?_, r.records_roll now⟩
    simp only [if_pos hnow]
    refine ⟨?_, ?_, rfl, _, rfl, rfl⟩
    · show fopen l.directory (l.getLogFileName now) =
        (r.roll now).all.map fun e => (l.getLogFileName e.1, e.2.flatten)
      rw [h.directory, fopen_unnamed (unnamed_later hlater), Rolls.all_roll, List.map_append]
      rfl
    · rw [Rolls.all_roll, List.map_append, List.pairwise_append]
      refine ⟨h.sorted, List.pairwise_singleton .., fun t ht u hu => ?_⟩
      obtain ⟨e, he, rfl⟩ := List.mem_map.mp ht
      rw [List.map_singleton, List.mem_singleton] at hu
      rw [hu]
      exact hlater e he
  · exact ⟨r, by simpa only [if_neg hnow] using h, rfl⟩

theorem Represents.append {file : File} (h : Represents l r) (hf : l.file = some file)
    (logline : Record) (hw : Writes logline.length results) :
    Represents { l with
      file := some (file.append logline results l.directory).1
      directory := (file.append logline results l.directory).2 } (r.append logline) := by
  obtain ⟨_, hfile, hname⟩ := h.file
  rw [hf] at hfile
  cases hfile
  have hdirectory : l.directory =
      (r.closed.map fun e => (l.getLogFileName e.1, e.2.flatten)) ++
        [(file.name, r.current.flatten)] := by
    rw [h.directory, Rolls.all, List.map_append, hname]
    rfl
  have hunnamed := unnamed_later (l := l) fun e he => h.closed_lt he
  rw [← hname] at hunnamed
  rw [hdirectory, append_ok hunnamed _ _ hw]
  refine ⟨?_, ?_, h.lastRoll, _, rfl, hname⟩
  · rw [Rolls.all, List.map_append, hname]
    simp only [Rolls.append, List.map_singleton, List.flatten_append, List.flatten_singleton]
    rfl
  · rw [Rolls.times_append]
    exact h.sorted

/-- Nothing but the files, their names and the time of the last counts. -/
theorem Represents.congr (h : Represents l r) (hb : l'.basename = l.basename)
    (hh : l'.hostname = l.hostname) (hp : l'.pid = l.pid) (hd : l'.directory = l.directory)
    (hr : l'.lastRoll = l.lastRoll) (hf : l'.file = l.file) : Represents l' r := by
  have hname : l'.getLogFileName = l.getLogFileName := by
    funext now
    rw [getLogFileName, getLogFileName, hb, hh, hp]
  refine ⟨?_, h.sorted, hr.trans h.lastRoll, ?_⟩
  · rw [hd, hname]
    exact h.directory
  · rw [hf, hname]
    exact h.file

theorem Represents.append_unlocked (h : Represents l r) (now rollNow : Nat)
    (hw : Writes logline.length results) :
    ∃ l' r', l.append_unlocked logline results now rollNow = .ok l' ∧ Represents l' r' ∧
      r'.records = r.records ++ [logline] := by
  obtain ⟨file, hf, -⟩ := h.file
  have happend := h.append hf logline hw
  have hrecords := r.records_append logline
  simp only [LogFile.append_unlocked, hf]
  split
  · obtain ⟨r', hr', hsame⟩ := happend.rollFile rollNow
    exact ⟨_, r', rfl, hr', hsame.trans hrecords⟩
  · split
    · split
      · have hcount : Represents { l with
            count := 0
            file := some (file.append logline results l.directory).1
            directory := (file.append logline results l.directory).2 } (r.append logline) :=
          happend.congr rfl rfl rfl rfl rfl rfl
        obtain ⟨r', hr', hsame⟩ := hcount.rollFile rollNow
        exact ⟨_, r', rfl, hr', hsame.trans hrecords⟩
      · split
        · exact ⟨_, _, rfl, happend.congr rfl rfl rfl rfl rfl rfl, hrecords⟩
        · exact ⟨_, _, rfl, happend.congr rfl rfl rfl rfl rfl rfl, hrecords⟩
    · exact ⟨_, _, rfl, happend.congr rfl rfl rfl rfl rfl rfl, hrecords⟩

-- ---------------------------------------------------------------------------
-- Runs
-- ---------------------------------------------------------------------------

def Has (l : LogFile) (records : List Record) : Prop := ∃ r, Represents l r ∧ r.records = records

theorem has_new {basename hostname : Text} {pid rollSize : Nat} {flushInterval : Int} (h : 0 < time) :
    Has (new basename hostname pid rollSize flushInterval time) [] := by
  refine ⟨{ time }, ?_, rfl⟩
  have hroll : time > 0 := h
  simp only [new, rollFile, if_pos hroll]
  exact ⟨rfl, List.pairwise_singleton .., rfl, _, rfl, rfl⟩

theorem Has.step (h : Has l records) (ha : machine.enabled l a) :
    ∃ l', machine.step l a = .ok l' ∧ Has l' (records ++ [a.logline]) := by
  obtain ⟨r, hr, rfl⟩ := h
  obtain ⟨l', r', hl', hr', hrecords⟩ := hr.append_unlocked a.now a.rollNow ha.2.2
  exact ⟨l', hl', r', hr', hrecords⟩

theorem Has.run (h : Has l records) (hrun : machine.Run l labels l') :
    Has l' (records ++ labels.map Append.logline) := by
  induction hrun generalizing records with
  | nil => simpa using h
  | cons ha ht _ ih =>
    obtain ⟨t, ht', hhas⟩ := h.step ha
    rw [ht] at ht'
    cases ht'
    simpa using ih hhas

/-- Whatever the clock says and however little each write takes: the files have
the records in the order of the calls, each record in one file, and the files
have the names of later and later times. -/
theorem records_in_order {basename hostname : Text} {pid rollSize : Nat} {flushInterval : Int}
    (h0 : 0 < time)
    (h : machine.Run (new basename hostname pid rollSize flushInterval time) labels l) :
    (∃ files : List (Nat × List Record),
      l.directory = files.map (fun e => (l.getLogFileName e.1, e.2.flatten)) ∧
      (files.map Prod.snd).flatten = labels.map Append.logline ∧
      (files.map Prod.fst).Pairwise (· < ·)) ∧
    (l.directory.map Prod.snd).flatten = (labels.map Append.logline).flatten ∧
    (l.directory.map Prod.fst).Nodup ∧ machine.NoFault l := by
  have hhas := (has_new h0).run h
  rw [List.nil_append] at hhas
  obtain ⟨r, hr, hrecords⟩ := hhas
  refine ⟨⟨r.all, hr.directory, hrecords, hr.sorted⟩, ?_, ?_, fun a ha => ?_⟩
  · rw [hr.directory, ← hrecords, Rolls.records, List.map_map, List.flatten_flatten, List.map_map]
    rfl
  · have hnames : l.directory.map Prod.fst = (r.all.map Prod.fst).map l.getLogFileName := by
      rw [hr.directory, List.map_map, List.map_map]
      rfl
    rw [hnames]
    exact (hr.sorted.imp Nat.ne_of_lt).map _ fun s t hne hname => hne (getLogFileName_inj hname)
  · obtain ⟨l', hl', -⟩ := Has.step ⟨r, hr, hrecords⟩ ha
    exact ⟨l', hl'⟩

/-- Short writes, a roll by size that is refused within the same second, and one
that is not. -/
theorem records_in_order_rolled : ∃ l,
    machine.Run (new ['a'] ['h'] 7 4 3 1709210096)
      [⟨[1, 2, 3], [1, 2], 1709210096, 1709210096⟩, ⟨[4, 5], [1, 1], 1709210096, 1709210096⟩,
        ⟨[], [], 1709210095, 1709210099⟩, ⟨[6], [1], 1, 1⟩] l ∧
    l.directory.map Prod.fst =
      ["a.20240229-123456.h.7.log".toList, "a.20240229-123459.h.7.log".toList] ∧
    (l.directory.map Prod.snd).flatten = [1, 2, 3, 4, 5, 6] ∧ machine.NoFault l := by
  have hrun : ∃ l, machine.Run (new ['a'] ['h'] 7 4 3 1709210096)
      [⟨[1, 2, 3], [1, 2], 1709210096, 1709210096⟩, ⟨[4, 5], [1, 1], 1709210096, 1709210096⟩,
        ⟨[], [], 1709210095, 1709210099⟩, ⟨[6], [1], 1, 1⟩] l ∧
      l.directory.map Prod.fst =
        ["a.20240229-123456.h.7.log".toList, "a.20240229-123459.h.7.log".toList] :=
    Machine.exists_run (by decide +kernel)
  obtain ⟨l, hl, hnames⟩ := hrun
  obtain ⟨-, hcontents, -, hsafe⟩ := records_in_order (by decide) hl
  exact ⟨l, hl, hnames, hcontents, hsafe⟩

end Muduo.LogFile
