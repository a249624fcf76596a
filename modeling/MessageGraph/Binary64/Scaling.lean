import MessageGraph.Binary64.Basic

/-!
# Numbers from a significand and an exponent of ten

A decimal is read in two roundings: its significand becomes a number, which is then multiplied or
divided by the number nearest to the power of ten. An exponent below -308 is taken in steps of 308.
A result above the finite numbers is refused, one below them becomes zero.
-/
namespace MessageGraph.Magnitude

/-- The magnitude nearest to a power of ten. -/
def powerOfTen (k : Nat) : Magnitude := ofNat (Nat.pow 10 k)

/-- The product `m * 10^k`, if it is finite. -/
def scaleUp? (m : Magnitude) (k : Nat) : Option Magnitude :=
  if m = zero then some m
  else if 308 < k then none
  else
    let scaled := m.mul (powerOfTen k)
    if scaled = infinity then none else some scaled

/-- The quotient `m / 10^k`. -/
def scaleDown (m : Magnitude) (k : Nat) : Magnitude :=
  if m = zero then m
  else if k ≤ 308 then m.div (powerOfTen k)
  else scaleDown (m.div (powerOfTen 308)) (k - 308)
termination_by k

/-- The number `significand * 10^exponent`, if it is finite. -/
def ofScientific? (significand : Nat) (exponent : Int) : Option Magnitude :=
  if exponent < 0 then some ((ofNat significand).scaleDown exponent.natAbs)
  else (ofNat significand).scaleUp? exponent.natAbs

end MessageGraph.Magnitude
