/-!
# Timestamp
-/

namespace Muduo

/-- Microseconds since the epoch. -/
abbrev Timestamp := Int

namespace Timestamp

def kMicroSecondsPerSecond : Int := 1000 * 1000

def valid (t : Timestamp) : Prop := 0 < t

instance (t : Timestamp) : Decidable t.valid := inferInstanceAs (Decidable (0 < t))

end Timestamp

/-- A `double` of seconds: the microseconds it is cut down to, and `seconds > 0`. -/
structure Seconds where
  micros : Int
  positive : Bool
  sign : if positive then 0 ≤ micros else micros ≤ 0

def Seconds.zero : Seconds := ⟨0, false, Int.le_refl 0⟩

def addTime (timestamp : Timestamp) (seconds : Seconds) : Timestamp := timestamp + seconds.micros

end Muduo
