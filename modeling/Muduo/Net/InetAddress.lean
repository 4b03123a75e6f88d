import Muduo.Lib.Digits
import Muduo.Net.TcpServer

/-!
# InetAddress

An IPv4 address and a port, and the texts that the sockets print of them.
-/

namespace Muduo

open Lib

structure InetAddress where
  /-- `addr_.sin_addr`, in the order of the network. -/
  sin_addr : Vector UInt8 4
  /-- `addr_.sin_port`, in the order of the host. -/
  sin_port : UInt16
  deriving DecidableEq

namespace InetAddress

def toIp (a : InetAddress) : Bytes :=
  TcpServer.decimal a.sin_addr[0].toNat ++ ascii "." ++
    TcpServer.decimal a.sin_addr[1].toNat ++ ascii "." ++
    TcpServer.decimal a.sin_addr[2].toNat ++ ascii "." ++ TcpServer.decimal a.sin_addr[3].toNat

/-- `buf` has room for 31 characters. -/
def toIpPort (a : InetAddress) : Bytes :=
  (a.toIp ++ ascii ":" ++ TcpServer.decimal a.sin_port.toNat).take 31

-- ---------------------------------------------------------------------------
-- Numerals
-- ---------------------------------------------------------------------------

theorem length_decimal_le (hr : 0 < r) (h : n < 10 ^ r) : (TcpServer.decimal n).length ≤ r := by
  rw [TcpServer.decimal, List.length_map]
  exact (length_toDigits_le hr).mpr h

theorem ofNat_toUInt8 {c : Char} (h : c.isDigit) : Char.ofNat c.toUInt8.toNat = c := by
  have hlt : c.toNat < 256 := by
    simp only [Char.isDigit, Bool.and_eq_true, decide_eq_true_eq] at h
    exact Nat.lt_of_le_of_lt (UInt32.le_iff_toNat_le.mp h.2) (by decide)
  have hnat : c.toUInt8.toNat = c.toNat :=
    (UInt32.toNat_toUInt8 c.val).trans (Nat.mod_eq_of_lt hlt)
  rw [hnat, Char.ofNat_toNat]

theorem chars_decimal (n : Nat) :
    (TcpServer.decimal n).map (fun b => Char.ofNat b.toNat) = Nat.toDigits 10 n := by
  rw [TcpServer.decimal, List.map_map]
  conv_rhs => rw [← List.map_id (Nat.toDigits 10 n)]
  exact List.map_congr_left fun c hc =>
    ofNat_toUInt8 (Nat.isDigit_of_mem_toDigits (by decide) (by decide) hc)

/-- Two numerals that are cut alike are compared by their leading digits. -/
theorem take_decimal_inj (hr : 0 < r) :
    (TcpServer.decimal m).take r = (TcpServer.decimal n).take r ↔ leading r m = leading r n := by
  rw [← take_toDigits_inj hr]
  constructor
  · intro h
    have hchars := congrArg (List.map fun b => Char.ofNat b.toNat) h
    rwa [List.map_take, List.map_take, chars_decimal, chars_decimal] at hchars
  · intro h
    rw [TcpServer.decimal, TcpServer.decimal, ← List.map_take, ← List.map_take, h]

-- ---------------------------------------------------------------------------
-- Lengths
-- ---------------------------------------------------------------------------

theorem length_byte_le (b : UInt8) : (TcpServer.decimal b.toNat).length ≤ 3 :=
  length_decimal_le (by decide) (Nat.lt_trans b.toNat_lt (by decide))

theorem length_toIp_le (a : InetAddress) : a.toIp.length ≤ 15 := by
  have hdot : (ascii ".").length = 1 := by decide
  have h0 := length_byte_le a.sin_addr[0]
  have h1 := length_byte_le a.sin_addr[1]
  have h2 := length_byte_le a.sin_addr[2]
  have h3 := length_byte_le a.sin_addr[3]
  simp only [toIp, List.length_append, hdot]
  omega

theorem length_toIpPort_le (a : InetAddress) : a.toIpPort.length ≤ 21 := by
  have hcolon : (ascii ":").length = 1 := by decide
  have hip := a.length_toIp_le
  have hport : (TcpServer.decimal a.sin_port.toNat).length ≤ 5 :=
    length_decimal_le (by decide) (Nat.lt_trans a.sin_port.toNat_lt (by decide))
  refine (List.length_take_le' _ _).trans ?_
  simp only [List.length_append, hcolon]
  omega

end InetAddress

end Muduo
