/-!
Decimal numbers of documents. A decimal stands for the binary number of 53 digits that is nearest to
it.
-/
namespace ContractCheck.Settings

structure Decimal where
  digits : Int
  places : Nat

structure Binary where
  digits : Nat
  exponent : Int

def nearestQuotient (n d : Nat) : Nat :=
  let q := n / d
  let r := 2 * (n % d)
  if r < d || (r = d && q % 2 = 0) then q else q + 1

def inUnits (n d : Nat) (exponent : Int) : Nat × Nat :=
  (n <<< (-exponent).toNat, d <<< exponent.toNat)

namespace Binary

/-- The binary number of 53 digits that is nearest to a fraction. The lower exponent gives 53 digits
or one more. -/
def nearest (n d : Nat) : Binary :=
  let low : Int := (n.log2 : Int) - d.log2 - 53
  let (a, b) := inUnits n d low
  let exponent := if a / b < 1 <<< 53 then low else low + 1
  let (a, b) := inUnits n d exponent
  ⟨nearestQuotient a b, exponent⟩

def whole? (x : Binary) : Option Nat :=
  let scale := 1 <<< (-x.exponent).toNat
  if x.digits % scale = 0 then some ((x.digits / scale) <<< x.exponent.toNat) else none

end Binary

namespace Decimal

def whole? (d : Decimal) : Option Int :=
  (Binary.nearest d.digits.natAbs (Nat.pow 10 d.places)).whole?.map fun n =>
    if d.digits < 0 then -(n : Int) else n

end Decimal

end ContractCheck.Settings
