/-! A double taken apart into exact integers. Everything the language writes or
truncates is computed from these, never from rounded arithmetic. -/

namespace Script

/-- A double is not a number, an infinity, or exactly ± `significand` · 2 ^ `exponent`. -/
inductive Binary64 where
  | notANumber
  | infinite (negative : Bool)
  | finite (negative : Bool) (significand : Nat) (exponent : Int)
  deriving Repr, DecidableEq

namespace Binary64

/-- The number that a bit pattern stands for: one sign bit, eleven of exponent
and fifty-two of fraction. -/
def ofBits (bits : Nat) : Binary64 :=
  let negative := decide (Nat.pow 2 63 ≤ bits)
  let biased : Nat := bits / Nat.pow 2 52 % Nat.pow 2 11
  let fraction : Nat := bits % Nat.pow 2 52
  if biased = Nat.pow 2 11 - 1 then
    if fraction = 0 then .infinite negative else .notANumber
  else if biased = 0 then .finite negative fraction (-1074)
  else .finite negative (Nat.pow 2 52 + fraction) (biased - 1075)

def ofFloat (number : Float) : Binary64 := ofBits number.toBits.toNat

/-- The integer part of `significand` · 2 ^ `exponent`. -/
def integerPart (significand : Nat) : Int → Nat
  | .ofNat up => significand * Nat.pow 2 up
  | .negSucc down => significand / Nat.pow 2 (down + 1)

/-- Whether `significand` · 2 ^ `exponent` has no fraction. -/
def isWhole (significand : Nat) : Int → Bool
  | .ofNat _ => true
  | .negSucc down => significand % Nat.pow 2 (down + 1) == 0

/-- The place that a number names in a sequence of `length` places: it is cut off
toward zero, and a negative, infinite or too large one names none. -/
def place? (length : Nat) : Binary64 → Option Nat
  | .finite negative significand exponent =>
    let place := integerPart significand exponent
    if (negative && place != 0) || length ≤ place then none else some place
  | _ => none

theorem place?_lt {length place : Nat} {number : Binary64}
    (found : number.place? length = some place) : place < length := by
  unfold place? at found
  split at found
  · dsimp only at found
    split at found
    · simp at found
    · rename_i inside
      simp at found inside
      omega
  · simp at found

end Binary64
end Script
