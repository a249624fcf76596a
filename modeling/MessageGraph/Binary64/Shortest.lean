import MessageGraph.Binary64.Basic

/-!
# The shortest decimal text of a number

A number is written with the fewest significant digits that lie in the interval of reals rounding to
it; of several such decimals the nearest, and of two equally near the one with an even last digit.

* `Magnitude.shortest`: digits and exponent of ten of that decimal.
* `Binary64.text?`: positional when the leading digit stands for `10^-5` up to `10^15`, always with a
  fraction (`40.0`, `0.00001`); otherwise scientific with an explicit sign (`1e-6`, `1.5e+300`).
-/
namespace MessageGraph

namespace Magnitude

/-- Twice the two midpoints between a positive magnitude and its neighbours, in units. -/
def bounds (m : Magnitude) : Nat × Nat :=
  (unitsOf (m.rank - 1) + m.units, m.units + unitsOf (m.rank + 1))

/-- The spacing `10^k` in units, as a fraction. -/
def spacing (k : Int) : Nat × Nat :=
  (Nat.pow 10 k.toNat * one, Nat.pow 10 (-k).toNat)

/-- Whether `c * 10^k` rounds to `m`: it lies between the midpoints, or on one if the rank is even. -/
def roundsTo (m : Magnitude) (k : Int) (c : Nat) : Bool :=
  let (num, den) := spacing k
  let point := 2 * c * num
  let low := m.bounds.1 * den
  let high := m.bounds.2 * den
  (low < point && point < high) || (m.rank % 2 == 0 && (point == low || point == high))

/-- Of `c` and `c + 1` the one that passes a test; if both do, `lower` says whether it is `c`. -/
def passing? (test : Nat → Bool) (c : Nat) (lower : Bool) : Option Nat :=
  match test c, test (c + 1) with
  | true, true => some (if lower then c else c + 1)
  | true, false => some c
  | false, true => some (c + 1)
  | false, false => none

/-- Of the multiples of `10^k` beside `m`, the one that rounds to `m`; the nearer one if both do. -/
def onGrid? (m : Magnitude) (k : Int) : Option Nat :=
  let num := (spacing k).1
  let den := (spacing k).2
  let c := m.units * den / num
  let below := m.units * den - c * num
  let above := (c + 1) * num - m.units * den
  passing? (m.roundsTo k) c (decide (below < above ∨ (below = above ∧ c % 2 = 0)))

/-- An exponent of ten not below that of the leading digit. -/
def decimalCeiling (m : Magnitude) : Int :=
  ((m.units.log2 : Int) - 1074) * 30103 / 100000 + 2

/-- The shortest decimal `(c, k)`, standing for `c * 10^k`, of a positive finite magnitude: the
coarsest grid that has a point rounding to it. -/
def shortest (m : Magnitude) : Nat × Int :=
  let top := m.decimalCeiling
  ((List.range 24).findSome? fun i : Nat =>
    (m.onGrid? (top - i)).map fun c => (c, top - (i : Int))).getD (0, 0)

end Magnitude

namespace Binary64

def digits (n : Nat) : List Char := Nat.toDigits 10 n

def zeros (n : Nat) : List Char := List.replicate n '0'

/-- The text of `c * 10^k` for positive `c`. -/
def decimalText (c : Nat) (k : Int) : List Char :=
  let ds := digits c
  let lead := (ds.length : Int) - 1 + k
  if lead < -5 ∨ 15 < lead then
    let fraction := if ds.length = 1 then [] else '.' :: ds.drop 1
    let sign := if lead < 0 then '-' else '+'
    ds.take 1 ++ fraction ++ ['e', sign] ++ digits lead.natAbs
  else if lead < 0 then
    ['0', '.'] ++ zeros (-lead - 1).toNat ++ ds
  else if 0 ≤ k then
    ds ++ zeros k.toNat ++ ['.', '0']
  else
    ds.take (lead + 1).toNat ++ '.' :: ds.drop (lead + 1).toNat

/-- The text of a finite number; `none` for infinities and NaN, which have no decimal. -/
def text? : Binary64 → Option (List Char)
  | nan => none
  | number negative m =>
    if m = Magnitude.infinity then none
    else
      let body := if m = Magnitude.zero then ['0', '.', '0']
        else decimalText m.shortest.1 m.shortest.2
      some (if negative then '-' :: body else body)

end Binary64
end MessageGraph
