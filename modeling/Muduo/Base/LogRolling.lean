import Muduo.Base.LogRecords
import Muduo.Lib.Columns

/-!
# When log files are rolled

The names of the files stand in the order in which the files were begun. A file
takes a record only while it is not too long, or in the second it was begun in; and
it takes few records of the days after the one it was begun on.
-/

namespace Muduo.LogFile

open Lib

variable {l l' : LogFile} {a : Append} {files : List (Nat × List Append)}
  {current : List Append} {t now : Nat}

-- ---------------------------------------------------------------------------
-- Names stand in the order of the times
-- ---------------------------------------------------------------------------

theorem digitChar_lt : ∀ j < 10, ∀ i < j, Nat.digitChar i < Nat.digitChar j := by
  decide

def digits (w : Nat) : Column Char := .ofDigits 10 Nat.digitChar digitChar_lt (by decide) w

def strftimeColumns : List (Column Char) :=
  [.after ['.'] (digits 4), (digits 2).succ, (digits 2).succ, .after ['-'] (digits 2), digits 2,
    digits 2]

theorem twoDigits_eq (h : n < 100) : twoDigits n = lastDigits 10 Nat.digitChar 2 n := by
  have hdiv : n / 10 < 10 := by omega
  simp [twoDigits, lastDigits, Nat.mod_eq_of_lt hdiv]

theorem toDigits_year (h : 1000 ≤ year) (h' : year < 10000) :
    Nat.toDigits 10 year = lastDigits 10 Nat.digitChar 4 year := by
  have hhundred : 10 ≤ year / 10 / 10 := by omega
  rw [Nat.toDigits_of_base_le (by decide) (by omega),
    Nat.toDigits_of_base_le (by decide) (by omega),
    Nat.toDigits_of_base_le (by decide) hhundred, Nat.toDigits_of_lt_base (by omega)]
  have hlast : year / 10 / 10 / 10 % 10 = year / 10 / 10 / 10 := by omega
  simp [lastDigits, hlast]

theorem strftime_eq (h : tm.Ranges) (hlow : 1000 ≤ tm.year) (hhigh : tm.year < 10000) :
    strftime tm = Column.write strftimeColumns tm.toList ++ ['.'] := by
  obtain ⟨hmon, hmday, hhour, hmin, hsec⟩ := h
  rw [strftime, toDigits_year hlow hhigh, twoDigits_eq (by omega), twoDigits_eq (by omega),
    twoDigits_eq (by omega), twoDigits_eq (by omega), twoDigits_eq (by omega)]
  simp [strftimeColumns, Tm.toList, Column.write, Column.after, Column.succ, digits,
    Column.ofDigits]

theorem fits_gmtime (h : time < 253402300800) :
    Column.Fits strftimeColumns (gmtime time).toList := by
  obtain ⟨hmon, hmday, hhour, hmin, hsec⟩ := gmtime_ranges time
  have hyear := gmtime_year_le h
  refine ⟨Nat.lt_succ_of_le hyear, ?_, ?_, ?_, ?_, ?_, trivial⟩
  · exact Nat.lt_trans hmon (by decide)
  · exact Nat.lt_trans hmday (by decide)
  · exact Nat.lt_trans hhour (by decide)
  · exact Nat.lt_trans hmin (by decide)
  · exact Nat.lt_trans hsec (by decide)

theorem strftime_gmtime (h : time < 253402300800) :
    strftime (gmtime time) = Column.write strftimeColumns (gmtime time).toList ++ ['.'] := by
  have hlow : 1970 ≤ (gmtime time).year := le_locate daysInYear _ 1970 _
  exact strftime_eq (gmtime_ranges time) (Nat.le_trans (by decide) hlow)
    (Nat.lt_succ_of_le (gmtime_year_le h))

theorem getLogFileName_lt (l : LogFile) (h : s < t) (ht : t < 253402300800) :
    l.getLogFileName s < l.getLogFileName t := by
  have hs := Nat.lt_trans h ht
  have hlen := Column.length_write (fits_gmtime hs) (fits_gmtime ht)
  have hlt := Column.write_lt (fits_gmtime hs) (fits_gmtime ht) (gmtime_lt h)
  simp only [getLogFileName, strftime_gmtime hs, strftime_gmtime ht, List.append_assoc]
  exact List.append_left_lt (append_lt_append hlen hlt _ _)

-- ---------------------------------------------------------------------------
-- Files
-- ---------------------------------------------------------------------------

def Clock : Nat → List Append → Prop
  | _, [] => True
  | t, a :: as => t ≤ a.now ∧ a.now ≤ a.rollNow ∧ Clock a.rollNow as

instance decidableClock : ∀ t as, Decidable (Clock t as)
  | _, [] => inferInstanceAs (Decidable True)
  | _, a :: as =>
    have := decidableClock a.rollNow as
    inferInstanceAs (Decidable (_ ∧ _ ∧ _))

def bytes (appends : List Append) : Nat := (appends.map fun a => a.logline.length).sum

/-- On a day after the one that has the second `time`. -/
def Late (time : Nat) (a : Append) : Prop := a.now / kRollPerSeconds ≠ time / kRollPerSeconds

instance (time : Nat) : DecidablePred (Late time) := fun _ => inferInstanceAs (Decidable (_ ≠ _))

/-- What the file begun at `time` has got when it is closed. -/
structure Policy (rollSize time : Nat) (appends : List Append) : Prop where
  short : ∀ p a q, appends = p ++ a :: q → q ≠ [] → bytes (p ++ [a]) ≤ rollSize ∨ a.rollNow = time
  late : appends.countP (fun a => Late time a) ≤ kCheckTimeRoll + 2

theorem bytes_snoc (appends : List Append) (a : Append) :
    bytes (appends ++ [a]) = bytes appends + a.logline.length := by
  simp [bytes]

theorem countP_snoc_le (p : α → Bool) (as : List α) (a : α) :
    (as ++ [a]).countP p ≤ as.countP p + 1 := by
  rw [List.countP_append]
  exact Nat.add_le_add_left (List.countP_le_length (l := [a])) _

/-- The files that were closed and what the open one has got, before the log looks at
its size. -/
structure Open (l : LogFile) (files : List (Nat × List Append)) (current : List Append)
    (t : Nat) : Prop where
  represents : Represents l
    { closed := files.map fun e => (e.1, e.2.map Append.logline)
      time := l.lastRoll
      current := current.map Append.logline }
  file : ∃ file, l.file = some file ∧ file.writtenBytes = bytes current
  period : l.startOfPeriod = l.lastRoll / kRollPerSeconds * kRollPerSeconds
  times : ∀ a ∈ current, l.lastRoll ≤ a.now ∧ a.now ≤ t
  clock : l.lastRoll ≤ t
  closed : ∀ e ∈ files, Policy l.rollSize e.1 e.2

structure Rolled (l : LogFile) (files : List (Nat × List Append)) (current : List Append)
    (t : Nat) : Prop extends Open l files current t where
  count : l.count ≤ kCheckTimeRoll + 1
  late : current.countP (fun a => Late l.lastRoll a) ≤ l.count
  short : ∀ p a q, current = p ++ a :: q → bytes (p ++ [a]) ≤ l.rollSize ∨ a.rollNow = l.lastRoll

theorem Rolled.policy (h : Rolled l files current t) (a : Append) :
    Policy l.rollSize l.lastRoll (current ++ [a]) := by
  refine ⟨fun p b q hp hq => ?_, ?_⟩
  · obtain ⟨q', c, rfl⟩ := (List.eq_nil_or_concat q).resolve_left hq
    rw [List.concat_eq_append, ← List.cons_append, ← List.append_assoc] at hp
    exact h.short p b q' (List.append_inj_left' hp rfl)
  · have hlate := h.late
    have hcount := h.count
    have hsnoc := countP_snoc_le (fun a => decide (Late l.lastRoll a)) current a
    omega

theorem Open.roll (h : Open l files current t) (hp : Policy l.rollSize l.lastRoll current)
    (hnow : l.lastRoll < now) (hcount : l.count ≤ kCheckTimeRoll + 1) :
    Rolled (l.rollFile now) (files ++ [(l.lastRoll, current)]) [] now := by
  have hroll : now > l.lastRoll := hnow
  have hlater : ∀ e ∈ files.map (fun e => (e.1, e.2.map Append.logline)) ++
      [(l.lastRoll, current.map Append.logline)], e.1 < now := by
    intro e he
    rcases List.mem_append.mp he with he | he
    · exact Nat.lt_trans (h.represents.closed_lt he) hnow
    · rw [List.mem_singleton.mp he]
      exact hnow
  simp only [rollFile, if_pos hroll]
  refine ⟨⟨⟨?_, ?_, rfl, _, rfl, rfl⟩, ⟨_, rfl, rfl⟩, rfl, List.forall_mem_nil _,
    Nat.le_refl now, ?_⟩, hcount, Nat.zero_le _, ?_⟩
  · have hdirectory := h.represents.directory
    simp only [Rolls.all] at hdirectory
    show fopen l.directory (l.getLogFileName now) = _
    rw [hdirectory, fopen_unnamed (unnamed_later hlater)]
    simp [Rolls.all, getLogFileName]
  · have hsorted := h.represents.sorted
    simp only [Rolls.all] at hsorted ⊢
    rw [List.map_append, List.map_append, List.pairwise_append]
    rw [List.map_append] at hsorted
    simp only [List.map_append, List.map_singleton]
    refine ⟨hsorted, List.pairwise_singleton .., fun s hs u hu => ?_⟩
    rw [List.mem_singleton.mp hu]
    rw [← List.map_singleton (f := Prod.fst) (a := (l.lastRoll, current.map Append.logline)),
      ← List.map_append] at hs
    obtain ⟨e, he, rfl⟩ := List.mem_map.mp hs
    exact hlater e he
  · intro e he
    rcases List.mem_append.mp he with he | he
    · exact h.closed e he
    · rw [List.mem_singleton.mp he]
      exact hp
  · intro p a q hnil
    simp at hnil

theorem rollFile_refused (h : ¬l.lastRoll < now) : l.rollFile now = l := if_neg h

@[simp] theorem rollFile_rollSize (l : LogFile) (now : Nat) :
    (l.rollFile now).rollSize = l.rollSize := by
  unfold rollFile
  simp only
  split <;> rfl

-- ---------------------------------------------------------------------------
-- Records
-- ---------------------------------------------------------------------------

/-- The log when a record has been written to its file. -/
def written (l : LogFile) (file : File) (a : Append) (count lastFlush : Nat) : LogFile :=
  { l with
    count
    lastFlush
    file := some (file.append a.logline a.results l.directory).1
    directory := (file.append a.logline a.results l.directory).2 }

theorem append_unlocked_cases {file : File} (hf : l.file = some file)
    (hs : l.append_unlocked a.logline a.results a.now a.rollNow = .ok l') :
    (l.rollSize < file.writtenBytes + a.logline.length ∧
      l' = (l.written file a l.count l.lastFlush).rollFile a.rollNow) ∨
    file.writtenBytes + a.logline.length ≤ l.rollSize ∧
      (l.count ≤ kCheckTimeRoll ∧ l' = l.written file a (l.count + 1) l.lastFlush ∨
        kCheckTimeRoll < l.count ∧
        (a.now / kRollPerSeconds * kRollPerSeconds ≠ l.startOfPeriod ∧
            l' = (l.written file a 0 l.lastFlush).rollFile a.rollNow ∨
          a.now / kRollPerSeconds * kRollPerSeconds = l.startOfPeriod ∧
            ∃ lastFlush, l' = l.written file a 0 lastFlush)) := by
  simp only [append_unlocked, hf] at hs
  split at hs
  · cases hs
    exact .inl ⟨‹_›, rfl⟩
  · refine .inr ⟨Nat.not_lt.mp ‹_›, ?_⟩
    split at hs
    · refine .inr ⟨‹_›, ?_⟩
      split at hs
      · cases hs
        exact .inl ⟨‹_›, rfl⟩
      · refine .inr ⟨not_not.mp ‹_›, ?_⟩
        split at hs
        · cases hs
          exact ⟨a.now, rfl⟩
        · cases hs
          exact ⟨l.lastFlush, rfl⟩
    · cases hs
      exact .inl ⟨Nat.not_lt.mp ‹_›, rfl⟩

theorem append_unlocked_rollSize {file : File} (hf : l.file = some file)
    (hs : l.append_unlocked a.logline a.results a.now a.rollNow = .ok l') :
    l'.rollSize = l.rollSize := by
  rcases append_unlocked_cases hf hs with
    ⟨-, rfl⟩ | ⟨-, ⟨-, rfl⟩ | ⟨-, ⟨-, rfl⟩ | ⟨-, lastFlush, rfl⟩⟩⟩ <;> simp [LogFile.written]

theorem Rolled.written {file : File} (h : Rolled l files current t) (hf : l.file = some file)
    (hw : Writes a.logline.length a.results) (hnow : t ≤ a.now) (hroll : a.now ≤ a.rollNow)
    (count lastFlush : Nat) :
    Open (l.written file a count lastFlush) files (current ++ [a]) a.rollNow := by
  obtain ⟨_, hfile, hbytes⟩ := h.file
  obtain rfl := Option.some.inj (hf.symm.trans hfile)
  have hrepresents := h.represents.append hf a.logline hw
  refine ⟨?_, ⟨_, rfl, ?_⟩, h.period, fun b hb => ?_,
    Nat.le_trans h.clock (Nat.le_trans hnow hroll), h.closed⟩
  · rw [List.map_append]
    exact hrepresents.congr rfl rfl rfl rfl rfl rfl
  · rw [bytes_snoc, ← hbytes]
    rfl
  · rcases List.mem_append.mp hb with hb | hb
    · obtain ⟨hlow, hhigh⟩ := h.times b hb
      exact ⟨hlow, Nat.le_trans hhigh (Nat.le_trans hnow hroll)⟩
    · rw [List.mem_singleton.mp hb]
      exact ⟨Nat.le_trans h.clock hnow, hroll⟩

theorem Rolled.short_snoc (h : Rolled l files current t)
    (ha : bytes (current ++ [a]) ≤ l.rollSize ∨ a.rollNow = l.lastRoll) {p q : List Append}
    {b : Append} (hp : current ++ [a] = p ++ b :: q) :
    bytes (p ++ [b]) ≤ l.rollSize ∨ b.rollNow = l.lastRoll := by
  rcases List.eq_nil_or_concat q with rfl | ⟨q', c, rfl⟩
  · obtain ⟨rfl, hb⟩ := List.append_inj' hp rfl
    rw [← List.singleton_inj.mp hb]
    exact ha
  · rw [List.concat_eq_append, ← List.cons_append, ← List.append_assoc] at hp
    exact h.short p b q' (List.append_inj_left' hp rfl)

theorem period_eq_iff (s t : Nat) :
    s / kRollPerSeconds * kRollPerSeconds = t / kRollPerSeconds * kRollPerSeconds ↔
      s / kRollPerSeconds = t / kRollPerSeconds :=
  Nat.mul_left_inj (by decide)

theorem countP_late (h : ∀ b ∈ current, s ≤ b.now ∧ b.now ≤ t)
    (ht : t / kRollPerSeconds = s / kRollPerSeconds) :
    current.countP (fun a => Late s a) = 0 := by
  refine List.countP_eq_zero.mpr fun b hb => ?_
  obtain ⟨hlow, hhigh⟩ := h b hb
  have hday : b.now / kRollPerSeconds = s / kRollPerSeconds :=
    Nat.le_antisymm (ht ▸ Nat.div_le_div_right hhigh) (Nat.div_le_div_right hlow)
  simp [Late, hday]

theorem Rolled.step (h : Rolled l files current t) (ha : machine.enabled l a) (hnow : t ≤ a.now)
    (hroll : a.now ≤ a.rollNow) (hs : machine.step l a = .ok l') :
    Rolled l' files (current ++ [a]) a.rollNow ∨
      Rolled l' (files ++ [(l.lastRoll, current ++ [a])]) [] a.rollNow := by
  obtain ⟨-, -, hw⟩ := ha
  obtain ⟨file, hf, hbytes⟩ := h.file
  have hopen := h.written hf hw hnow hroll
  have htimes : ∀ b ∈ current ++ [a], l.lastRoll ≤ b.now ∧ b.now ≤ a.now := by
    intro b hb
    rcases List.mem_append.mp hb with hb | hb
    · obtain ⟨hlow, hhigh⟩ := h.times b hb
      exact ⟨hlow, Nat.le_trans hhigh hnow⟩
    · rw [List.mem_singleton.mp hb]
      exact ⟨Nat.le_trans h.clock hnow, Nat.le_refl _⟩
  have hlast : l.lastRoll ≤ a.now := Nat.le_trans h.clock hnow
  have hcount := h.count
  have hsnoc : (current ++ [a]).countP (fun a => Late l.lastRoll a) ≤ l.count + 1 :=
    Nat.le_trans (countP_snoc_le _ current a) (Nat.succ_le_succ h.late)
  rcases append_unlocked_cases hf hs with ⟨hlong, rfl⟩ | ⟨hshort, hcases⟩
  · by_cases hlt : l.lastRoll < a.rollNow
    · exact .inr ((hopen _ _).roll (h.policy a) hlt hcount)
    · -- the second the file was begun in has not passed
      have hsame : a.rollNow = l.lastRoll :=
        Nat.le_antisymm (Nat.not_lt.mp hlt) (Nat.le_trans hlast hroll)
      have hday : a.now = l.lastRoll := Nat.le_antisymm (hsame ▸ hroll) hlast
      have hnone := countP_late htimes (by rw [hday])
      have hrefused : (l.written file a l.count l.lastFlush).rollFile a.rollNow =
          l.written file a l.count l.lastFlush := rollFile_refused hlt
      rw [hrefused]
      exact .inl ⟨hopen _ _, hcount, hnone ▸ Nat.zero_le _, fun p b q => h.short_snoc (.inr hsame)⟩
  · rw [hbytes, ← bytes_snoc] at hshort
    rcases hcases with ⟨hfew, rfl⟩ | ⟨-, ⟨hday, rfl⟩ | ⟨hday, lastFlush, rfl⟩⟩
    · exact .inl ⟨hopen _ _, Nat.succ_le_succ hfew, hsnoc, fun p b q => h.short_snoc (.inl hshort)⟩
    · rw [h.period, Ne, period_eq_iff] at hday
      have hlt : l.lastRoll < a.rollNow :=
        Nat.lt_of_lt_of_le (Nat.lt_of_le_of_ne hlast fun he => hday (by rw [he])) hroll
      exact .inr ((hopen _ _).roll (h.policy a) hlt (Nat.zero_le _))
    · rw [h.period, period_eq_iff] at hday
      have hnone := countP_late htimes hday
      exact .inl ⟨hopen _ _, Nat.zero_le _, hnone.le, fun p b q => h.short_snoc (.inl hshort)⟩

-- ---------------------------------------------------------------------------
-- Runs
-- ---------------------------------------------------------------------------

def appends (files : List (Nat × List Append)) : List Append := (files.map Prod.snd).flatten

theorem rolled_new {basename hostname : Text} {pid rollSize : Nat} {flushInterval : Int}
    (h : 0 < time) : Rolled (new basename hostname pid rollSize flushInterval time) [] [] time := by
  have hroll : time > 0 := h
  simp only [new, rollFile, if_pos hroll]
  refine ⟨⟨⟨rfl, List.pairwise_singleton .., rfl, _, rfl, rfl⟩, ⟨_, rfl, rfl⟩, rfl,
    List.forall_mem_nil _, Nat.le_refl _, List.forall_mem_nil _⟩, Nat.zero_le _, Nat.zero_le _,
    fun p b q hp => ?_⟩
  simp at hp

theorem Rolled.run (h : Rolled l files current t) (hclock : Clock t labels)
    (hrun : machine.Run l labels l') :
    ∃ files' current', ∃ t' ∈ t :: labels.map Append.rollNow, Rolled l' files' current' t' ∧
      l'.rollSize = l.rollSize ∧
      appends (files' ++ [(l'.lastRoll, current')]) =
        appends (files ++ [(l.lastRoll, current)]) ++ labels := by
  induction hrun generalizing files current t with
  | nil => exact ⟨files, current, t, by simp, h, rfl, by simp⟩
  | @cons l a l₁ labels l' ha hs _ ih =>
    obtain ⟨hnow, hroll, hclock⟩ := hclock
    obtain ⟨file, hf, -⟩ := h.file
    have hsize := append_unlocked_rollSize hf hs
    have hnext : ∃ files' current', Rolled l₁ files' current' a.rollNow ∧
        appends (files' ++ [(l₁.lastRoll, current')]) =
          appends (files ++ [(l.lastRoll, current)]) ++ [a] := by
      rcases h.step ha hnow hroll hs with hstep | hstep
      · exact ⟨_, _, hstep, by simp [appends]⟩
      · exact ⟨_, _, hstep, by simp [appends]⟩
    obtain ⟨files₁, current₁, h₁, happends₁⟩ := hnext
    obtain ⟨files', current', t', ht', h', hsize', happends⟩ := ih h₁ hclock
    refine ⟨files', current', t', ?_, h', hsize'.trans hsize, ?_⟩
    · exact List.mem_cons_of_mem t ht'
    · rw [happends, happends₁, List.append_assoc, List.singleton_append]

theorem Open.names_sorted (h : Open l files current t) (hlast : l.lastRoll < 253402300800) :
    (l.directory.map Prod.fst).Pairwise (· < ·) := by
  rw [h.represents.directory, List.map_map, List.pairwise_map]
  refine (List.pairwise_map.mp h.represents.sorted).imp_of_mem fun _ he hlt => ?_
  refine l.getLogFileName_lt hlt (Nat.lt_of_le_of_lt ?_ hlast)
  rcases List.mem_append.mp he with he | he
  · exact Nat.le_of_lt (h.represents.closed_lt he)
  · rw [List.mem_singleton.mp he]

/-- In every run of a log whose clock does not go back: the names of the files stand in
the order in which they were begun; the records go into them in the order of the calls;
a file takes no record once it is longer than `rollSize`, unless the second it was begun
in has not passed; and no more than 1026 records of later days. -/
theorem rolled {basename hostname : Text} {pid rollSize : Nat} {flushInterval : Int}
    (h0 : 0 < time) (hclock : Clock time labels)
    (hyear : ∀ t ∈ time :: labels.map Append.rollNow, t < 253402300800)
    (h : machine.Run (new basename hostname pid rollSize flushInterval time) labels l) :
    (l.directory.map Prod.fst).Pairwise (· < ·) ∧
    ∃ files : List (Nat × List Append),
      l.directory =
        files.map (fun e => (l.getLogFileName e.1, (e.2.map Append.logline).flatten)) ∧
      (files.map Prod.snd).flatten = labels ∧ ∀ e ∈ files, Policy rollSize e.1 e.2 := by
  obtain ⟨files, current, t, ht, hrolled, hsize, happends⟩ := (rolled_new h0).run hclock h
  have hnew : (new basename hostname pid rollSize flushInterval time).rollSize = rollSize :=
    rollFile_rollSize _ _
  have hdirectory : l.directory = (files ++ [(l.lastRoll, current)]).map
      fun e => (l.getLogFileName e.1, (e.2.map Append.logline).flatten) := by
    rw [hrolled.represents.directory]
    simp [Rolls.all]
  refine ⟨?_, files ++ [(l.lastRoll, current)], hdirectory, ?_, fun e he => ?_⟩
  · exact hrolled.names_sorted (Nat.lt_of_le_of_lt hrolled.clock (hyear t ht))
  · simpa [appends] using happends
  · rcases List.mem_append.mp he with he | he
    · rw [← hnew, ← hsize]
      exact hrolled.closed e he
    · rw [List.mem_singleton.mp he, ← hnew, ← hsize]
      exact ⟨fun p a q hp _ => hrolled.short p a q hp,
        Nat.le_trans hrolled.late (Nat.le_trans hrolled.count (Nat.le_succ _))⟩

/-- A file that is too long takes one more record in its second; the next second has a
new file. -/
theorem rolled_second : ∃ l,
    machine.Run (new ['a'] ['h'] 7 4 3 1709210099)
      [⟨[1, 2, 3, 4, 5], [5], 1709210099, 1709210099⟩, ⟨[6], [1], 1709210099, 1709210100⟩,
        ⟨[7], [1], 1709210100, 1709210100⟩] l ∧
    l.directory = [("a.20240229-123459.h.7.log".toList, [1, 2, 3, 4, 5, 6]),
      ("a.20240229-123500.h.7.log".toList, [7])] ∧
    (l.directory.map Prod.fst).Pairwise (· < ·) := by
  have hrun : ∃ l, machine.Run (new ['a'] ['h'] 7 4 3 1709210099)
      [⟨[1, 2, 3, 4, 5], [5], 1709210099, 1709210099⟩, ⟨[6], [1], 1709210099, 1709210100⟩,
        ⟨[7], [1], 1709210100, 1709210100⟩] l ∧
      l.directory = [("a.20240229-123459.h.7.log".toList, [1, 2, 3, 4, 5, 6]),
        ("a.20240229-123500.h.7.log".toList, [7])] :=
    Machine.exists_run (by decide +kernel)
  obtain ⟨l, hl, hdirectory⟩ := hrun
  exact ⟨l, hl, hdirectory, (rolled (by decide) (by decide) (by decide) hl).1⟩

end Muduo.LogFile
