/-!
# Binary floating point with 64 bits

Coordinates and sizes are numbers of the format `binary64`: a sign and a magnitude with 53 significant
bits. A magnitude is kept as its rank in the increasing list of all magnitudes, so neighbours differ
by one and the parity of the rank is the parity of the significand. All arithmetic is exact on
natural numbers and rounded once (`Magnitude.round`: to nearest, ties to the even rank).

Equality of numbers (`==`) is numeric: the two zeros are equal and a NaN equals nothing.
-/
namespace MessageGraph

/-- How many magnitudes lie from a power of two up to the next: `2^52`. -/
def binade : Nat := 4503599627370496

/-- A magnitude, by its rank: `0` is zero, `1` is `2^-1074` and the last rank is infinity. -/
structure Magnitude where
  rank : Nat
  rank_le : rank ≤ 2047 * binade
deriving DecidableEq, Repr

namespace Magnitude

def zero : Magnitude := ⟨0, Nat.zero_le _⟩

def infinity : Magnitude := ⟨2047 * binade, Nat.le_refl _⟩

/-- The value of a rank in units of `2^-1074`: over the first two binades ranks count units, then
every binade doubles the step. Infinity counts as `2^1024`. -/
def unitsOf (rank : Nat) : Nat :=
  if rank < binade then rank else (binade + rank % binade) <<< (rank / binade - 1)

def units (m : Magnitude) : Nat := unitsOf m.rank

/-- How many units make one. -/
def one : Nat := 1 <<< 1074

/-- The quotient `num / den` in units of `2^e`, as a fraction. -/
def inUnits (num den : Nat) (e : Int) : Nat × Nat :=
  (num <<< (-e).toNat, den <<< e.toNat)

/-- The exponent `e` for which `num / den`, in units of `2^e`, has 53 binary digits before the point;
never below the exponent of the smallest magnitude. -/
def unitExponent (num den : Nat) : Int :=
  let e : Int := num.log2 - den.log2 - 53
  let scaled := inUnits num den e
  max (if scaled.1 / scaled.2 < 2 * binade then e else e + 1) (-1074)

/-- The quotient of two natural numbers rounded to the nearest one, a tie to the even one. -/
def roundQuotient (num den : Nat) : Nat :=
  let q := num / den
  let r := num % den
  if den < 2 * r ∨ (den = 2 * r ∧ q % 2 = 1) then q + 1 else q

/-- The magnitude nearest to `num / den`; of two equally near the one of even rank. -/
def round (num den : Nat) : Magnitude :=
  if num = 0 then zero
  else
    let e := unitExponent num den
    let scaled := inUnits num den e
    let rank := (e + 1074).toNat * binade + roundQuotient scaled.1 scaled.2
    ⟨min rank (2047 * binade), Nat.min_le_right _ _⟩

def ofNat (n : Nat) : Magnitude := round n 1

/-- The rounded product of finite magnitudes. -/
def mul (a b : Magnitude) : Magnitude := round (a.units * b.units) (one * one)

/-- The rounded quotient of finite magnitudes. -/
def div (a b : Magnitude) : Magnitude := round a.units b.units

end Magnitude

/-- A number of the format `binary64`. -/
inductive Binary64
  | nan
  | number (negative : Bool) (magnitude : Magnitude)
deriving Repr

namespace Binary64

def zero : Binary64 := number false Magnitude.zero

def ofNat (n : Nat) : Binary64 := number false (Magnitude.ofNat n)

def isFinite : Binary64 → Bool
  | nan => false
  | number _ m => m ≠ Magnitude.infinity

def neg : Binary64 → Binary64
  | nan => nan
  | number negative m => number (!negative) m

/-- Numeric equality. -/
def equal : Binary64 → Binary64 → Bool
  | number s m, number t n => m = n && (s = t || m = Magnitude.zero)
  | _, _ => false

/-- A magnitude with a sign, in units. -/
def signedUnits (negative : Bool) (m : Magnitude) : Int :=
  if negative then -(m.units : Int) else m.units

/-- An exact sum of zero is positive unless both terms are negative. -/
def add : Binary64 → Binary64 → Binary64
  | number s m, number t n =>
    if m = Magnitude.infinity then
      if n = Magnitude.infinity ∧ s ≠ t then nan else number s m
    else if n = Magnitude.infinity then number t n
    else
      let sum := signedUnits s m + signedUnits t n
      if sum = 0 then number (s && t) Magnitude.zero
      else number (decide (sum < 0)) (Magnitude.round sum.natAbs Magnitude.one)
  | _, _ => nan

def mul : Binary64 → Binary64 → Binary64
  | number s m, number t n =>
    if m = Magnitude.infinity ∨ n = Magnitude.infinity then
      if m = Magnitude.zero ∨ n = Magnitude.zero then nan else number (s != t) Magnitude.infinity
    else number (s != t) (m.mul n)
  | _, _ => nan

def div : Binary64 → Binary64 → Binary64
  | number s m, number t n =>
    if m = Magnitude.infinity then
      if n = Magnitude.infinity then nan else number (s != t) Magnitude.infinity
    else if n = Magnitude.infinity then number (s != t) Magnitude.zero
    else if n = Magnitude.zero then
      if m = Magnitude.zero then nan else number (s != t) Magnitude.infinity
    else number (s != t) (m.div n)
  | _, _ => nan

instance : BEq Binary64 := ⟨equal⟩
instance : Inhabited Binary64 := ⟨zero⟩
instance : Add Binary64 := ⟨add⟩
instance : Mul Binary64 := ⟨mul⟩
instance : Div Binary64 := ⟨div⟩
instance : Neg Binary64 := ⟨neg⟩
instance (n : Nat) : OfNat Binary64 n := ⟨ofNat n⟩

end Binary64
end MessageGraph
