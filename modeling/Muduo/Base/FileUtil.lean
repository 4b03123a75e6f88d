import Mathlib.Data.List.Basic
import Mathlib.Data.Nat.Basic

/-!
# FileUtil

`SmallFile` reads the first bytes of a file into a string. What the system calls
give is an input: a `read` gives as many of the bytes that are left as it likes,
but at least one, and none only at the end of the file.
-/

namespace Muduo

namespace FileUtil

abbrev Errno := Int32

def EISDIR : Errno := 21

structure Stat where
  st_mode : BitVec 32
  st_size : Int64
  st_mtime : Int64
  st_ctime : Int64

def S_ISREG (m : BitVec 32) : Prop := m &&& 0xF000 = 0x8000
def S_ISDIR (m : BitVec 32) : Prop := m &&& 0xF000 = 0x4000

instance (m : BitVec 32) : Decidable (S_ISREG m) := inferInstanceAs (Decidable (_ = _))
instance (m : BitVec 32) : Decidable (S_ISDIR m) := inferInstanceAs (Decidable (_ = _))

/-- A call made after `open`, and what it gave. -/
inductive SysCall
  | fstat (r : Except Errno Stat)
  | read (r : Except Errno (List UInt8))

/-- What a `read` does: it gives `m + 1` bytes, if as many are left and were
asked for. -/
inductive Outcome
  | short (m : Nat)
  | failed (errno : Errno)

def read (rest : List UInt8) (toRead : Nat) : Outcome → Except Errno (List UInt8)
  | .short m => .ok (rest.take (min (m + 1) toRead))
  | .failed errno => .error errno

structure SmallFile where
  fd : Int
  err : Errno

/-- Where the optional results go; `none` is `NULL`. -/
structure Info where
  fileSize : Option Int64
  modifyTime : Option Int64
  createTime : Option Int64

structure Reads where
  err : Errno
  content : List UInt8
  calls : List SysCall

structure Result extends Reads where
  info : Info

-- ---------------------------------------------------------------------------
-- The code
-- ---------------------------------------------------------------------------

def kBufferSize : Nat := 65536

def SmallFile.ofOpen : Except Errno Nat → SmallFile
  | .ok fd => { fd, err := 0 }
  | .error errno => { fd := -1, err := errno }

def statFile (err : Errno) (info : Info) (fstat : Except Errno Stat) :
    Errno × Info × List SysCall :=
  match info.fileSize with
  | none => (err, info, [])
  | some fileSize =>
    match fstat with
    | .ok statbuf =>
      (if ¬S_ISREG statbuf.st_mode ∧ S_ISDIR statbuf.st_mode then EISDIR else err,
        { fileSize := some (if S_ISREG statbuf.st_mode then statbuf.st_size else fileSize)
          modifyTime := info.modifyTime.map fun _ => statbuf.st_mtime
          createTime := info.createTime.map fun _ => statbuf.st_ctime },
        [.fstat fstat])
    | .error errno => (errno, info, [.fstat fstat])

/-- `while(content->size() < maxSize)`, with the bytes that are left in the file
and what the next reads do. -/
def readLoop (maxSize : Nat) (reads : Nat → Outcome) (rest content : List UInt8) (err : Errno) :
    Reads :=
  if content.length < maxSize then
    let toRead := min (maxSize - content.length) kBufferSize
    match read rest toRead (reads 0) with
    | .ok (byte :: bytes) =>
      let r := readLoop maxSize (fun k => reads (k + 1)) (rest.drop (bytes.length + 1))
        (content ++ byte :: bytes) err
      { r with calls := .read (.ok (byte :: bytes)) :: r.calls }
    | .ok [] => { err, content, calls := [.read (.ok [])] }
    | .error errno => { err := errno, content, calls := [.read (.error errno)] }
  else { err, content, calls := [] }
termination_by maxSize - content.length
decreasing_by
  rw [List.length_append, List.length_cons]
  omega

/-- The file has the bytes `file`, and was not read before. -/
def readToString (f : SmallFile) (maxSize : Nat) (content : List UInt8) (info : Info)
    (fstat : Except Errno Stat) (file : List UInt8) (reads : Nat → Outcome) : Result :=
  let err := f.err
  if 0 < f.fd then
    let (err, info, stats) := statFile err info fstat
    let r := readLoop maxSize reads file [] err
    { r with info, calls := stats ++ r.calls }
  else { err, content, info, calls := [] }

def readFile (opened : Except Errno Nat) (maxSize : Nat) (content : List UInt8) (info : Info)
    (fstat : Except Errno Stat) (file : List UInt8) (reads : Nat → Outcome) : Result :=
  readToString (.ofOpen opened) maxSize content info fstat file reads

-- ---------------------------------------------------------------------------
-- One read
-- ---------------------------------------------------------------------------

theorem read_prefix (h : read rest toRead o = .ok data) :
    data ++ rest.drop data.length = rest ∧ data.length ≤ toRead := by
  cases o with
  | failed errno => cases h
  | short m =>
    cases h
    refine ⟨?_, Nat.le_trans (List.length_take_le _ _) (Nat.min_le_right _ _)⟩
    exact (List.prefix_iff_eq_append.mp (List.take_prefix _ rest))

theorem read_eof (h : read rest toRead o = .ok []) (hpos : 0 < toRead) : rest = [] := by
  cases o with
  | failed errno => cases h
  | short m =>
    have htake : rest.take (min (m + 1) toRead) = [] := Except.ok.inj h
    rcases List.take_eq_nil_iff.mp htake with h0 | hrest
    · omega
    · exact hrest

-- ---------------------------------------------------------------------------
-- The loop
-- ---------------------------------------------------------------------------

def SysCall.Failed : SysCall → Prop
  | .fstat (.error _) => True
  | .read (.error _) => True
  | _ => False

def bytesRead : List SysCall → List UInt8
  | [] => []
  | .read (.ok data) :: calls => data ++ bytesRead calls
  | _ :: calls => bytesRead calls

/-- What the loop leaves when it starts with `content` and `err`, and `rest` is
left in the file. -/
structure Loop (maxSize : Nat) (rest content : List UInt8) (err : Errno) (r : Reads) : Prop where
  appended : r.content = content ++ bytesRead r.calls
  bytes : bytesRead r.calls <+: rest
  whole : (∀ c ∈ r.calls, ¬c.Failed) →
    r.err = err ∧ bytesRead r.calls = rest.take (maxSize - content.length)
  failed : ∀ errno, .read (.error errno) ∈ r.calls → r.err = errno

theorem readLoop_loop (maxSize : Nat) (reads : Nat → Outcome) (rest content : List UInt8)
    (err : Errno) : Loop maxSize rest content err (readLoop maxSize reads rest content err) := by
  fun_induction readLoop with
  | case1 reads rest content hlt toRead byte bytes hread r ih =>
    obtain ⟨hrest, hle⟩ := read_prefix hread
    refine ⟨?_, ?_, fun hall => ?_, fun errno hmem => ?_⟩
    · exact ih.appended.trans (List.append_assoc ..)
    · exact hrest ▸ (List.prefix_append_right_inj _).mpr ih.bytes
    · obtain ⟨herr, hbytes⟩ := ih.whole fun c hc => hall c (List.mem_cons_of_mem _ hc)
      refine ⟨herr, ?_⟩
      have hleft : maxSize - (content ++ byte :: bytes).length =
          maxSize - content.length - (byte :: bytes).length := by
        rw [List.length_append]
        omega
      have hroom : (byte :: bytes).length ≤ maxSize - content.length :=
        Nat.le_trans hle (Nat.min_le_left _ _)
      calc
        byte :: bytes ++ bytesRead r.calls
          = byte :: bytes ++ (rest.drop (bytes.length + 1)).take
              (maxSize - content.length - (byte :: bytes).length) := by rw [hbytes, hleft]
        _ = (byte :: bytes ++ rest.drop (bytes.length + 1)).take (maxSize - content.length) := by
          rw [List.take_append, List.take_of_length_le hroom]
        _ = rest.take (maxSize - content.length) := congrArg _ hrest
    · rcases List.mem_cons.mp hmem with he | hmem
      · cases he
      · exact ih.failed errno hmem
  | case2 reads rest content hlt toRead hread =>
    have hpos : 0 < toRead := Nat.lt_min.mpr ⟨Nat.sub_pos_of_lt hlt, by decide⟩
    obtain rfl := read_eof hread hpos
    exact ⟨(List.append_nil _).symm, List.prefix_rfl, fun _ => ⟨rfl, List.take_nil.symm⟩, by simp⟩
  | case3 reads rest content hlt toRead errno hread =>
    refine ⟨(List.append_nil _).symm, List.nil_prefix, fun hall => ?_, fun errno' hmem => ?_⟩
    · exact absurd trivial (hall _ List.mem_cons_self)
    · cases List.mem_singleton.mp hmem
      rfl
  | case4 reads rest content hge =>
    refine ⟨(List.append_nil _).symm, List.nil_prefix, fun _ => ⟨rfl, ?_⟩, by simp⟩
    rw [Nat.sub_eq_zero_of_le (Nat.not_lt.mp hge)]
    exact List.take_zero.symm

-- ---------------------------------------------------------------------------
-- The whole call
-- ---------------------------------------------------------------------------

theorem read_not_mem_statFile (err : Errno) (info : Info) (fstat : Except Errno Stat)
    (x : Except Errno (List UInt8)) : .read x ∉ (statFile err info fstat).2.2 := by
  unfold statFile
  split
  · simp
  · split <;> simp

theorem bytesRead_statFile (err : Errno) (info : Info) (fstat : Except Errno Stat)
    (calls : List SysCall) :
    bytesRead ((statFile err info fstat).2.2 ++ calls) = bytesRead calls := by
  unfold statFile
  split
  · rfl
  · split <;> rfl

theorem statFile_err (hfile : ∀ st, fstat = .ok st → ¬S_ISDIR st.st_mode)
    (hall : ∀ c ∈ (statFile err info fstat).2.2, ¬c.Failed) :
    (statFile err info fstat).1 = err := by
  cases hsize : info.fileSize with
  | none => simp only [statFile, hsize]
  | some fileSize =>
    cases fstat with
    | ok statbuf =>
      simp only [statFile, hsize]
      exact if_neg fun h => hfile statbuf rfl h.2
    | error errno =>
      have hmem : .fstat (.error errno) ∈ (statFile err info (.error errno)).2.2 := by
        simp [statFile, hsize]
      exact absurd trivial (hall _ hmem)

/-- A directory is an error, though no call failed. -/
theorem statFile_directory (hsize : info.fileSize = some fileSize) (hdir : S_ISDIR st.st_mode) :
    (statFile err info (.ok st)).1 = EISDIR := by
  have hreg : ¬S_ISREG st.st_mode := fun hreg => by
    rw [S_ISDIR, hreg] at hdir
    exact absurd hdir (by decide)
  simp only [statFile, hsize]
  exact if_pos ⟨hreg, hdir⟩

/-- What a file that was opened, or not, is read into. -/
structure Exact (opened : Except Errno Nat) (maxSize : Nat) (file : List UInt8) (r : Result) :
    Prop where
  notOpened : ∀ errno, opened = .error errno → r.err = errno
  whole : ∀ fd, opened = .ok fd → (∀ c ∈ r.calls, ¬c.Failed) →
    r.err = 0 ∧ r.content = file.take maxSize
  part : ∀ errno, .read (.error errno) ∈ r.calls →
    r.err = errno ∧ r.content = bytesRead r.calls ∧ r.content <+: file

theorem readToString_pos (h : 0 < f.fd) (herr : f.err = 0)
    (hfile : ∀ st, fstat = .ok st → ¬S_ISDIR st.st_mode) (maxSize : Nat) (content : List UInt8)
    (info : Info) (file : List UInt8) (reads : Nat → Outcome) :
    Exact (.ok fd) maxSize file (readToString f maxSize content info fstat file reads) := by
  obtain ⟨happ, hbytes, hwhole, hfailed⟩ :=
    readLoop_loop maxSize reads file [] (statFile f.err info fstat).1
  simp only [readToString, if_pos h]
  refine ⟨nofun, fun _ _ hall => ?_, fun errno hmem => ?_⟩
  · obtain ⟨hstat, hloop⟩ := List.forall_mem_append.mp hall
    obtain ⟨herr', hread⟩ := hwhole hloop
    refine ⟨?_, ?_⟩
    · rw [herr', statFile_err hfile hstat, herr]
    · rw [happ, hread]
      rfl
  · have hloop := (List.mem_append.mp hmem).resolve_left
      (read_not_mem_statFile f.err info fstat _)
    refine ⟨hfailed errno hloop, ?_, ?_⟩
    · rw [bytesRead_statFile, happ]
      rfl
    · rw [happ]
      exact hbytes

theorem readFile_zero (maxSize : Nat) (content : List UInt8) (info : Info)
    (fstat : Except Errno Stat) (file : List UInt8) (reads : Nat → Outcome) :
    readFile (.ok 0) maxSize content info fstat file reads =
      { err := 0, content, info, calls := [] } := rfl

/-- Of a file that is no directory the first bytes are read, whatever `content`
held and however short the reads are, exactly if its descriptor is not 0, or
`content` held these bytes already. -/
theorem readFile_exact_iff (opened : Except Errno Nat) (maxSize : Nat) (content : List UInt8)
    (info : Info) (fstat : Except Errno Stat) (file : List UInt8) (reads : Nat → Outcome)
    (hfile : ∀ st, fstat = .ok st → ¬S_ISDIR st.st_mode) :
    Exact opened maxSize file (readFile opened maxSize content info fstat file reads) ↔
      (opened = .ok 0 → content = file.take maxSize) := by
  rcases opened with errno | fd
  · refine iff_of_true ⟨fun _ he => Except.error.inj he, nofun, nofun⟩ nofun
  · by_cases hfd : fd = 0
    · subst hfd
      rw [readFile_zero]
      constructor
      · exact fun h _ => (h.whole 0 rfl (by simp)).2
      · exact fun h => ⟨nofun, fun _ _ _ => ⟨rfl, h rfl⟩, by simp⟩
    · refine iff_of_true (readToString_pos ?_ rfl hfile ..) fun h => absurd (Except.ok.inj h) hfd
      exact Int.natCast_pos.mpr (Nat.pos_of_ne_zero hfd)

/-- A regular file on descriptor 3, two bytes at a time. -/
theorem readFile_exact_short : Exact (.ok 3) 3 [110, 101, 119, 10]
    (readFile (.ok 3) 3 [111, 108, 100] ⟨some 0, none, none⟩ (.ok ⟨0x81A4, 4, 0, 0⟩)
      [110, 101, 119, 10] fun _ => .short 1) := by
  refine (readFile_exact_iff (.ok 3) 3 [111, 108, 100] ⟨some 0, none, none⟩
    (.ok ⟨0x81A4, 4, 0, 0⟩) [110, 101, 119, 10] (fun _ => .short 1) fun st hst => ?_).mpr ?_
  · cases hst
    decide
  · exact fun h => absurd (Except.ok.inj h) (by decide)

/-- Standard input was closed, so `open` gives descriptor 0: no byte is read, and
the old content passes for that of the file. -/
theorem readFile_stdin_closed :
    (readFile (.ok 0) 3 [111, 108, 100] ⟨none, none, none⟩ (.ok ⟨0x81A4, 4, 0, 0⟩)
      [110, 101, 119, 10] fun _ => .short 100).err = 0 ∧
    (readFile (.ok 0) 3 [111, 108, 100] ⟨none, none, none⟩ (.ok ⟨0x81A4, 4, 0, 0⟩)
      [110, 101, 119, 10] fun _ => .short 100).content = [111, 108, 100] ∧
    ¬Exact (.ok 0) 3 [110, 101, 119, 10]
      (readFile (.ok 0) 3 [111, 108, 100] ⟨none, none, none⟩ (.ok ⟨0x81A4, 4, 0, 0⟩)
        [110, 101, 119, 10] fun _ => .short 100) := by
  refine ⟨rfl, rfl, fun h => ?_⟩
  rw [readFile_zero] at h
  exact absurd (h.whole 0 rfl (by simp)).2 (by decide)

end FileUtil

end Muduo
