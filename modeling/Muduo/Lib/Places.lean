import Mathlib.Data.Int.ModEq
import Mathlib.Tactic.Ring

/-!
# Integers in bytes

The last `k` places of an integer to the base 256, the lowest first. A negative
integer has those of its two's complement.
-/

namespace Lib

def places : Nat → Int → List UInt8
  | 0, _ => []
  | k + 1, x => UInt8.ofInt x :: places k (x / 256)

def ofPlaces : List UInt8 → Nat
  | [] => 0
  | b :: bs => b.toNat + 256 * ofPlaces bs

@[simp] theorem length_places (k : Nat) (x : Int) : (places k x).length = k := by
  induction k generalizing x with
  | zero => rfl
  | succ k ih => rw [places, List.length_cons, ih]

theorem toNat_ofInt (x : Int) : ((UInt8.ofInt x).toNat : Int) = x % 256 := by
  have hlow : 0 ≤ x % 256 := Int.emod_nonneg x (by decide)
  have hhigh : x % 256 < 256 := Int.emod_lt_of_pos x (by decide)
  rw [UInt8.ofInt, UInt8.toNat_ofNat']
  omega

/-- Only the last places are kept. -/
theorem ofPlaces_places (k : Nat) (x : Int) : (ofPlaces (places k x) : Int) = x % 256 ^ k := by
  induction k generalizing x with
  | zero => simp [places, ofPlaces]
  | succ k ih =>
    have hdiv : x / 256 / 256 ^ k = x / (256 * 256 ^ k) :=
      Int.ediv_ediv_of_nonneg (by decide)
    rw [places, ofPlaces, Nat.cast_add, Nat.cast_mul, toNat_ofInt, ih, pow_succ',
      Int.emod_def (x / 256), Int.emod_def x (256 * _), Int.emod_def x 256, hdiv]
    push_cast
    ring

theorem ofPlaces_lt (bs : List UInt8) : ofPlaces bs < 256 ^ bs.length := by
  induction bs with
  | nil => exact Nat.one_pos
  | cons b bs ih =>
    have hb := b.toNat_lt
    rw [ofPlaces, List.length_cons, Nat.pow_succ]
    omega

theorem places_ofPlaces (bs : List UInt8) : places bs.length (ofPlaces bs) = bs := by
  induction bs with
  | nil => rfl
  | cons b bs ih =>
    have hb := b.toNat_lt
    have hdiv : ((b.toNat + 256 * ofPlaces bs : Nat) : Int) / 256 = ofPlaces bs := by omega
    have hhead : UInt8.ofInt ((b.toNat + 256 * ofPlaces bs : Nat) : Int) = b := by
      apply UInt8.toNat_inj.mp
      have hplace := toNat_ofInt ((b.toNat + 256 * ofPlaces bs : Nat) : Int)
      omega
    rw [List.length_cons, ofPlaces, places, hhead, hdiv, ih]

/-- Integers that agree up to a multiple of the next place. -/
theorem places_congr (h : x % 256 ^ k = y % 256 ^ k) : places k x = places k y := by
  have heq : ofPlaces (places k x) = ofPlaces (places k y) := by
    apply Int.ofNat_inj.mp
    rw [ofPlaces_places, ofPlaces_places, h]
  have hx := places_ofPlaces (places k x)
  have hy := places_ofPlaces (places k y)
  rw [length_places] at hx hy
  rw [← hx, ← hy, heq]

end Lib
