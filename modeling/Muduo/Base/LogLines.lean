import Muduo.Base.Logging

/-!
# Ends of lines

What `~Logger` ends a record with is inserted in pieces, each of which may find no
room. `grow` is what a piece does to the bytes in the stream.
-/

namespace Muduo

open Lib
open LogStream (kMaxNumericSize kSmallBuffer)
open Logging (put putT ThreadLocal)

-- ---------------------------------------------------------------------------
-- Pieces
-- ---------------------------------------------------------------------------

variable {s s' : LogStream} {x : Item} {w bytes : Bytes}

/-- `bytes` behind `w` when as many as `need` are free. -/
def grow (need : Nat) (bytes w : Bytes) : Bytes :=
  if need ≤ kSmallBuffer - w.length then w ++ bytes else w

theorem grow_fits (bytes : Bytes) (h : need + w.length ≤ 4000) : grow need bytes w = w ++ bytes :=
  if_pos (Nat.le_sub_of_add_le h)

theorem grow_full (bytes : Bytes) (hneed : 0 < need) (h : 4000 < need + w.length) :
    grow need bytes w = w := by
  refine if_neg fun hle => ?_
  rw [kSmallBuffer] at hle
  omega

theorem prefix_grow (need : Nat) (bytes w : Bytes) : w <+: grow need bytes w := by
  unfold grow
  split
  · exact List.prefix_append w bytes
  · exact List.prefix_refl w

structure Holds (s : LogStream) (w : Bytes) : Prop where
  asString : s.buffer.asString = w
  avail : 0 < s.buffer.avail

theorem Holds.avail_eq (h : Holds s w) : s.buffer.avail = kSmallBuffer - w.length := by
  rw [← h.asString, FixedBuffer.length_asString]
  rfl

theorem Holds.length_le (h : Holds s w) : w.length ≤ 3999 := by
  have havail := h.avail
  have hsize : kSmallBuffer = 4000 := rfl
  rw [h.avail_eq] at havail
  omega

/-- An insertion that is whole where as many as `need` are free, and nothing elsewhere. -/
theorem Holds.piece (h : Holds s w) {x : Except LogStream.Fault LogStream} {need : Nat}
    (hfits : need ≤ s.buffer.avail → ∃ s' rest, x = .ok s' ∧
      FixedBuffer.Appended s.buffer s'.buffer bytes rest ∧ rest ≠ [])
    (hfull : ¬need ≤ s.buffer.avail → x = .ok s) :
    ∃ s', x.mapError Logging.Fault.stream = .ok s' ∧ Holds s' (grow need bytes w) := by
  rw [grow, ← h.avail_eq]
  by_cases hroom : need ≤ s.buffer.avail
  · obtain ⟨s', rest, rfl, happended, hrest⟩ := hfits hroom
    refine ⟨s', rfl, ?_, ?_⟩
    · rw [if_pos hroom, happended.asString, h.asString]
    · rw [happended.avail]
      exact List.length_pos_of_ne_nil hrest
  · rw [hfull hroom, if_neg hroom]
    exact ⟨s, rfl, h⟩

theorem Holds.put (h : Holds s w) (x : Item) (need : Nat)
    (hneed : ∀ avail, x.Fits avail ↔ need ≤ avail) :
    ∃ s', put s x = .ok s' ∧ Holds s' (grow need x.text w) :=
  h.piece (fun hroom => LogStream.insert_fits ((hneed _).mpr hroom))
    (fun hroom => LogStream.insert_full (mt (hneed _).mp hroom))

theorem Holds.append (h : Holds s w) (data : Bytes) {len : Nat}
    (hread : len < s.buffer.avail → len ≤ data.length) :
    ∃ s', (s.append data len).mapError Logging.Fault.stream = .ok s' ∧
      Holds s' (grow (len + 1) (data.take len) w) :=
  h.piece (fun hroom => LogStream.append_fits data len (hread hroom) hroom)
    (fun hroom => LogStream.append_full data hroom)

-- ---------------------------------------------------------------------------
-- The trailer
-- ---------------------------------------------------------------------------

theorem SourceFile.len_read (f : SourceFile) (h : f.len < kSmallBuffer) :
    f.len ≤ f.data.length := by
  have hread := f.read
  have hint := f.int
  have hsize : kSmallBuffer = 4000 := rfl
  simp only [len] at h ⊢
  omega

def trailed (w : Bytes) (f : SourceFile) (line : Int32) : Bytes :=
  grow 2 [10] (grow (kMaxNumericSize + 1) (LogStream.decimal line.toInt)
    (grow 2 [58] (grow (f.len + 1) f.text (grow 2 [45] w))))

theorem prefix_trailed (w : Bytes) (f : SourceFile) (line : Int32) : w <+: trailed w f line :=
  ((((prefix_grow ..).trans (prefix_grow ..)).trans (prefix_grow ..)).trans
    (prefix_grow ..)).trans (prefix_grow ..)

theorem destroy_ok {l : Logger} (h : Holds l.stream w) :
    ∃ aborts, l.destroy = .ok (trailed w l.basename l.line, aborts) := by
  obtain ⟨s₁, hdash, h₁⟩ := h.put (.cString (.literal "-")) 2 (fun _ => Iff.rfl)
  obtain ⟨s₂, hfile, h₂⟩ := h₁.append l.basename.data (fun hroom =>
    l.basename.len_read (Nat.lt_of_lt_of_le hroom (Nat.sub_le ..)))
  obtain ⟨s₃, hcolon, h₃⟩ := h₂.put (.char 58) 2 (fun _ => Iff.rfl)
  obtain ⟨s₄, hline, h₄⟩ := h₃.put (.number (.int l.line)) (kMaxNumericSize + 1)
    (fun _ => Iff.rfl)
  obtain ⟨s₅, hend, h₅⟩ := h₄.put (.char 10) 2 (fun _ => Iff.rfl)
  have hfinish : l.finish = .ok { l with stream := s₅ } := by
    simp only [Logger.finish, hdash, ok_bind, hfile, hcolon, hline, hend]
    rfl
  refine ⟨l.level = .FATAL, ?_⟩
  rw [Logger.destroy, hfinish, ok_bind, h₅.asString]
  rfl

theorem insertAll_ok {l : Logger} (h : Holds l.stream w) (items : List Item) :
    ∃ s' w', l.insertAll items = .ok { l with stream := s' } ∧ Holds s' w' ∧ w <+: w' := by
  obtain ⟨s', kept, hall, hroom, -, htext⟩ := LogStream.insertAll_whole h.avail items
  refine ⟨s', _, ?_, ⟨rfl, hroom⟩, ?_⟩
  · rw [Logger.insertAll, hall, ok_mapError]
    rfl
  · rw [htext, h.asString]
    exact List.prefix_append ..

/-- There is room for the newline, or what is last without it is one. -/
def EndsLine (w : Bytes) (f : SourceFile) : Prop :=
  (w.length ≤ 3996 ∧ w.length + f.len ≠ 3997 ∧ w.length + f.len ≠ 3998) ∨
  (w.length = 3999 ∧ w.getLast? = some 10) ∨
  (w.length ≤ 3997 ∧ w.length + f.len = 3998 ∧ f.text.getLast? = some 10)

theorem length_text_of_fits {f : SourceFile} (h : f.len < kSmallBuffer) :
    f.text.length = f.len :=
  List.length_take_of_le (f.len_read h)

theorem getLast?_newline (h : w.length ≤ 3998) : (grow 2 [10] w).getLast? = some 10 := by
  rw [grow_fits [10] (by omega), List.getLast?_concat]

theorem getLast?_rest (hw : w.length ≤ 3999) (line : Int32) :
    (grow 2 [10] (grow (kMaxNumericSize + 1) (LogStream.decimal line.toInt)
      (grow 2 [58] w))).getLast? = some 10 ↔
    w.length ≤ 3997 ∨ w.length = 3999 ∧ w.getLast? = some 10 := by
  have hsize : kMaxNumericSize + 1 = 33 := rfl
  rw [hsize]
  rcases Nat.lt_or_ge w.length 3998 with hlt | hge
  · have hline := LogStream.length_decimal_le (LogStream.natAbs_value_lt (.int line))
    simp only [Number.value] at hline
    rw [grow_fits [58] (by omega)]
    have hcolon : (w ++ [58]).length = w.length + 1 := by simp
    refine iff_of_true (getLast?_newline ?_) (.inl (by omega))
    by_cases hroom : 33 + (w ++ [58]).length ≤ 4000
    · rw [grow_fits _ hroom, List.length_append]
      omega
    · rw [grow_full _ (by decide) (by omega)]
      omega
  · obtain heq | heq : w.length = 3998 ∨ w.length = 3999 := by omega
    · have hcolon : (w ++ [58]).length = 3999 := by simp [heq]
      rw [grow_fits [58] (by omega), grow_full (LogStream.decimal _) (by decide) (by omega),
        grow_full [10] (by decide) (by omega), List.getLast?_concat]
      simp [heq]
    · rw [grow_full [58] (by decide) (by omega),
        grow_full (LogStream.decimal _) (by decide) (by omega), grow_full [10] (by decide) (by omega)]
      simp [heq]

theorem getLast?_trailed {f : SourceFile} (hw : w.length ≤ 3999) (line : Int32) :
    (trailed w f line).getLast? = some 10 ↔ EndsLine w f := by
  unfold trailed EndsLine
  rcases Nat.lt_or_ge w.length 3999 with hlt | hge
  · have hdash : (w ++ [45]).length = w.length + 1 := by simp
    rw [grow_fits [45] (by omega)]
    by_cases hroom : f.len + 1 + (w ++ [45]).length ≤ 4000
    · have htext := length_text_of_fits (f := f) (by simp only [kSmallBuffer]; omega)
      have hlength : (w ++ [45] ++ f.text).length = w.length + 1 + f.len := by
        rw [List.length_append, hdash, htext]
      rw [grow_fits f.text hroom, getLast?_rest (by omega), hlength]
      rcases Nat.eq_zero_or_pos f.len with hzero | hpos
      · rw [List.length_eq_zero_iff.mp (htext.trans hzero), List.append_nil, List.getLast?_concat]
        simp
        omega
      · rw [List.getLast?_append_of_ne_nil _ (List.length_pos_iff.mp (htext.symm ▸ hpos))]
        have hne : w.length ≠ 3999 := by omega
        by_cases hlast : f.text.getLast? = some 10
        · simp only [hlast, hne, and_true, false_and, false_or]
          omega
        · simp only [hlast, hne, and_false, false_and, or_false]
          omega
    · rw [grow_full f.text (by omega) (by omega), getLast?_rest (by omega), hdash,
        List.getLast?_concat]
      simp
      omega
  · have hw' : w.length = 3999 := by omega
    have hname : grow (f.len + 1) f.text w = w := by
      rcases Nat.eq_zero_or_pos f.len with hzero | hpos
      · have htext := length_text_of_fits (f := f) (by rw [hzero]; decide)
        rw [grow_fits f.text (by omega), List.length_eq_zero_iff.mp (htext.trans hzero),
          List.append_nil]
      · exact grow_full f.text (by omega) (by omega)
    rw [grow_full [45] (by decide) (by omega), hname, getLast?_rest hw]
    simp [hw']

-- ---------------------------------------------------------------------------
-- Records
-- ---------------------------------------------------------------------------

theorem Holds.whole (h : Holds s w) (x : Item) :
    ∃ s' w', Logging.put s x = .ok s' ∧ Holds s' w' ∧ w <+: w' := by
  obtain ⟨s', hinsert, hroom, hs'⟩ := LogStream.insert_whole h.avail x
  refine ⟨s', _, ?_, ⟨rfl, hroom⟩, ?_⟩
  · rw [Logging.put, hinsert, ok_mapError]
  · obtain hs' | rfl := hs'
    · rw [hs', h.asString]
      exact List.prefix_append ..
    · rw [h.asString]

theorem Holds.putT (h : Holds s w) {str : CString} {len : Nat} (hlen : str.strlen = len) :
    ∃ s', Logging.putT s str len = .ok s' ∧
      Holds s' (grow (len + 1) str.text w) := by
  subst hlen
  obtain ⟨s', hs', hholds⟩ := h.append str.memory (fun _ => Nat.le_of_lt str.strlen_lt)
  refine ⟨s', ?_, hholds⟩
  rw [Logging.putT, ensure_true rfl, ok_bind, hs']

theorem Holds.putErrno (h : Holds s w) (savedErrno : Int32) (strerror : CString) :
    ∃ s' w', Logger.putErrno s savedErrno strerror = .ok s' ∧ Holds s' w' ∧ w <+: w' := by
  unfold Logger.putErrno
  split
  · obtain ⟨s₁, w₁, hs₁, h₁, hw₁⟩ := h.whole (.cString strerror)
    obtain ⟨s₂, w₂, hs₂, h₂, hw₂⟩ := h₁.whole (.cString (.literal "(errno="))
    obtain ⟨s₃, w₃, hs₃, h₃, hw₃⟩ := h₂.whole (.number (.int savedErrno))
    obtain ⟨s₄, w₄, hs₄, h₄, hw₄⟩ := h₃.whole (.cString (.literal ")"))
    refine ⟨s₄, w₄, ?_, h₄, ((hw₁.trans hw₂).trans hw₃).trans hw₄⟩
    simp only [hs₁, ok_bind, hs₂, hs₃, hs₄]
  · exact ⟨s, w, rfl, h, List.prefix_refl w⟩

theorem Holds.putFunc (h : Holds s w) (c : Logger.Constructor) :
    ∃ s' w', Logger.putFunc s c = .ok s' ∧ Holds s' w' ∧ w <+: w' := by
  cases c with
  | ofFunc level func =>
    obtain ⟨s₁, w₁, hs₁, h₁, hw₁⟩ := h.whole (.cString func)
    obtain ⟨s₂, w₂, hs₂, h₂, hw₂⟩ := h₁.whole (.char 32)
    refine ⟨s₂, w₂, ?_, h₂, hw₁.trans hw₂⟩
    simp only [Logger.putFunc, hs₁, ok_bind, hs₂]
  | plain | ofLevel | ofErrno => exact ⟨s, w, rfl, h, List.prefix_refl w⟩

theorem Holds.ofPutT {str : CString} {len : Nat} (h : Holds s w)
    (hs' : Logging.putT s str len = .ok s') : ∃ w', Holds s' w' := by
  obtain ⟨_, hlen, -⟩ := bind_ok.mp hs'
  obtain ⟨s₁, hs₁, h₁⟩ := h.putT (ensure_ok.mp hlen)
  rw [hs'] at hs₁
  cases hs₁
  exact ⟨_, h₁⟩

theorem holds_make {t t' : ThreadLocal} {r : Logger.Record} {l : Logger}
    (hmake : Logger.make t r = .ok (t', l)) : ∃ w, Holds l.stream w := by
  have hfresh : Holds (.make r.memory) [] := ⟨rfl, (by decide : 0 < kSmallBuffer)⟩
  obtain ⟨⟨t₁, s₁⟩, htime, hmake⟩ := bind_ok.mp hmake
  obtain ⟨t₂, -, hmake⟩ := bind_ok.mp hmake
  obtain ⟨s₂, htid, hmake⟩ := bind_ok.mp hmake
  obtain ⟨s₃, hlevel, hmake⟩ := bind_ok.mp hmake
  obtain ⟨s₄, herrno, hmake⟩ := bind_ok.mp hmake
  obtain ⟨s₅, hfunc, hmake⟩ := bind_ok.mp hmake
  obtain ⟨t₃, -, htime⟩ := bind_ok.mp htime
  obtain ⟨_, -, htime⟩ := bind_ok.mp htime
  obtain ⟨_, -, htime⟩ := bind_ok.mp htime
  obtain ⟨s₆, hdate, htime⟩ := bind_ok.mp htime
  obtain ⟨s₇, hus, htime⟩ := bind_ok.mp htime
  cases htime
  cases hmake
  obtain ⟨w₁, h₁⟩ := hfresh.ofPutT hdate
  obtain ⟨w₂, h₂⟩ := h₁.ofPutT hus
  obtain ⟨w₃, h₃⟩ := h₂.ofPutT htid
  obtain ⟨w₄, h₄⟩ := h₃.ofPutT hlevel
  obtain ⟨s₅', w₅, hs₅, h₅, -⟩ := h₄.putErrno r.constructor.savedErrno r.strerror
  rw [herrno] at hs₅
  cases hs₅
  obtain ⟨s₆', w₆, hs₆, h₆, -⟩ := h₅.putFunc r.constructor
  rw [hfunc] at hs₆
  cases hs₆
  exact ⟨w₆, h₆⟩

/-- Whatever a caller inserts, the record ends with a newline if and only if there was
room for it behind what the stream and the trailer before it take. -/
theorem newline_iff {t t' : ThreadLocal} {r : Logger.Record} {l : Logger}
    (hmake : Logger.make t r = .ok (t', l)) (items : List Item) :
    ∃ l' msg aborts, l.insertAll items = .ok l' ∧ l'.destroy = .ok (msg, aborts) ∧
      (msg.getLast? = some 10 ↔ EndsLine l'.stream.buffer.asString l'.basename) := by
  obtain ⟨w, h⟩ := holds_make hmake
  obtain ⟨s', w', hall, h', -⟩ := insertAll_ok h items
  obtain ⟨aborts, hdestroy⟩ := destroy_ok (l := { l with stream := s' }) h'
  refine ⟨{ l with stream := s' }, _, aborts, hall, hdestroy, ?_⟩
  rw [h'.asString]
  exact getLast?_trailed h'.length_le l.line

/-- A record of the second 1 by the thread 7. -/
theorem newline_iff_plain : ∃ l l' msg aborts,
    Logger.make {} ⟨.plain, .ofArray (.literal "base/x.cc") (by decide), 3, 1000000, 7, .literal "",
      ⟨List.replicate kSmallBuffer 0, List.length_replicate⟩⟩ = .ok l ∧
    l.2.insertAll [] = .ok l' ∧ l'.destroy = .ok (msg, aborts) ∧ msg.getLast? = some 10 := by
  obtain ⟨l, hmake, hlength, hname⟩ : ∃ l, Logger.make {}
      ⟨.plain, .ofArray (.literal "base/x.cc") (by decide), 3, 1000000, 7, .literal "",
        ⟨List.replicate kSmallBuffer 0, List.length_replicate⟩⟩ = .ok l ∧
      l.2.stream.buffer.asString.length = 38 ∧ l.2.basename.len = 4 := by
    decide +kernel
  obtain ⟨l', msg, aborts, hall, hdestroy, hiff⟩ := newline_iff hmake []
  have hends : EndsLine l.2.stream.buffer.asString l.2.basename :=
    .inl ⟨by omega, by omega, by omega⟩
  refine ⟨l, l', msg, aborts, hmake, hall, hdestroy, hiff.mpr ?_⟩
  cases hall
  exact hends

/-- Nothing of the trailer behind the `-` has room. -/
theorem newline_lost : ∃ out,
    Logger.log {} ⟨.plain, .ofArray (.literal "base/x.cc") (by decide), 3, 1000000, 7, .literal "",
        ⟨List.replicate kSmallBuffer 0, List.length_replicate⟩⟩
      [.string (List.replicate 3960 120)] = .ok out ∧ out.2.1.getLast? ≠ some 10 := by
  decide +kernel

end Muduo
