import Mathlib.Algebra.Ring.Int.Defs
import Mathlib.Data.List.Basic

/-!
# Strings

A `std::string` is its bytes. A pointer to characters is the memory it leads to.
-/

namespace Muduo

abbrev Bytes := List UInt8

def ascii (s : String) : Bytes := s.toList.map Char.toUInt8

/-- A borrowed string: the memory its pointer leads to and an `int` length. -/
structure StringPiece where
  data : Bytes
  size : Int

/-- The memory has as many bytes as the `int` says. -/
structure StringPiece.Valid (str : StringPiece) : Prop where
  nonneg : 0 ≤ str.size
  size : str.size ≤ str.data.length
  int : str.size < 2 ^ 31

/-- What a `const char*` leads to, with a NUL somewhere. -/
structure CString where
  memory : Bytes
  nul : 0 ∈ memory

namespace CString

def strlen (str : CString) : Nat := str.memory.idxOf 0

def text (str : CString) : Bytes := str.memory.take str.strlen

def literal (s : String) : CString := ⟨ascii s ++ [0], by simp⟩

/-- What `snprintf` leaves in an array of `size` bytes. -/
def snprintf (size : Nat) (text : Bytes) : CString := ⟨text.take (size - 1) ++ [0], by simp⟩

theorem strlen_lt (str : CString) : str.strlen < str.memory.length :=
  List.idxOf_lt_length_of_mem str.nul

@[simp] theorem length_text (str : CString) : str.text.length = str.strlen :=
  List.length_take_of_le (Nat.le_of_lt str.strlen_lt)

theorem strlen_of_memory {str : CString} (h : str.memory = bytes ++ [0]) (hnul : 0 ∉ bytes) :
    str.strlen = bytes.length := by
  rw [strlen, h, List.idxOf_append_of_notMem hnul, List.idxOf_cons_self, Nat.add_zero]

theorem text_of_memory {str : CString} (h : str.memory = bytes ++ [0]) (hnul : 0 ∉ bytes) :
    str.text = bytes := by
  rw [text, strlen_of_memory h hnul, h, List.take_left]

theorem text_snprintf (hsize : bytes.length < size) (hnul : 0 ∉ bytes) :
    (snprintf size bytes).text = bytes := by
  have htake : bytes.take (size - 1) = bytes :=
    List.take_of_length_le (Nat.le_sub_one_of_lt hsize)
  exact text_of_memory (congrArg (· ++ [0]) htake) hnul

end CString

end Muduo
