import VieCompiler.Number.Binary64

/-!
# Shortest decimals

Every finite double `v = m · 2^q` is the nearest double to each real number of its
*rounding interval*, the reals closer to `v` than to its two neighbours; the ends, where
the distance is equal, belong to it exactly when `m` is even, since ties go to the even
significand. The neighbour above is `2^q` away. So is the one below, except at a power of
two with a normal neighbour below, where the gap below is half as wide.

`Binary64.shortest` finds the decimal with the fewest significant digits in that interval,
and of two such the nearer to `v`, an exact tie going to the even digits. The search
follows one observation: if some decimal with `n` digits lies in the interval, then so does
one of the two neighbours of `v` among the decimals with `n` digits. So for `n = 1, 2, …`
only those two are tested. The arithmetic is exact: `v` is written as a natural number `N`
times a power of ten `10^s`, and every distance is measured in units of `10^s`.
-/

namespace VieCompiler

-- Powers of naturals are `Nat.pow`, as in `Binary64`.
attribute [local instance (high)] instPowNat

/-- A decimal number `digits · 10^exponent`. -/
structure Decimal where
  /-- The significant digits, as a number. -/
  digits : Nat
  /-- The power of ten they are scaled by. -/
  exponent : Int
deriving DecidableEq, Repr

namespace Decimal

/-- The same number with the trailing zeros of its digits moved into the exponent. -/
def normalize (digits : Nat) (exponent : Int) : Decimal :=
  if digits ≠ 0 ∧ digits % 10 = 0 then normalize (digits / 10) (exponent + 1)
  else ⟨digits, exponent⟩
termination_by digits
decreasing_by omega

/-- The decimal digits of the significand, most significant first. -/
def digitList (d : Decimal) : List Char :=
  Nat.toDigits 10 d.digits

/-- The exponent of the leading digit: the value lies in `[10^e, 10^(e+1))`. -/
def leadingExponent (d : Decimal) : Int :=
  d.exponent + d.digitList.length - 1

end Decimal

namespace Binary64

/-- The rounding interval of a finite positive double, measured in units of `10^s` around
the exact value `N · 10^s`. -/
structure Interval where
  /-- The exact value, in units. -/
  value : Nat
  /-- The power of ten of a unit. -/
  scale : Int
  /-- The spacing `2^q` of the doubles near the value, in units. -/
  spacing : Nat
  /-- Whether the gap to the double below is half the spacing. -/
  narrowBelow : Bool
  /-- Whether the ends of the interval belong to it. -/
  closed : Bool

namespace Interval

/-- The interval of `m · 2^q`. Half a spacing is a whole number of units once distances
are doubled, which is why the tests below compare twice a distance with the spacing. -/
def ofMagnitude (m : Nat) (q : Int) (narrowBelow : Bool) : Interval :=
  if 0 ≤ q then ⟨m * 2 ^ q.toNat, 0, 2 ^ q.toNat, narrowBelow, m % 2 = 0⟩
  else ⟨m * 5 ^ (-q).toNat, q, 5 ^ (-q).toNat, narrowBelow, m % 2 = 0⟩

/-- Whether the point `distance` units above the value lies in the interval. -/
def admitsAbove (i : Interval) (distance : Nat) : Bool :=
  2 * distance < i.spacing || (i.closed && 2 * distance == i.spacing)

/-- Whether the point `distance` units below the value lies in the interval. -/
def admitsBelow (i : Interval) (distance : Nat) : Bool :=
  let reach := if i.narrowBelow then 4 * distance else 2 * distance
  reach < i.spacing || (i.closed && reach == i.spacing)

/-- The decimal with `n` significant digits chosen from the two neighbours of the value,
when one of them lies in the interval. The value has `length` digits, `n ≤ length`. -/
def candidate (i : Interval) (length n : Nat) : Option Decimal :=
  let dropped := length - n
  let unit := 10 ^ dropped
  let below := i.value / unit
  let remainder := i.value % unit
  let exponent := i.scale + dropped
  if remainder = 0 then some (Decimal.normalize below exponent)
  else
    let lowOk := i.admitsBelow remainder
    let highOk := i.admitsAbove (unit - remainder)
    if lowOk && highOk then
      if remainder < unit - remainder then some (Decimal.normalize below exponent)
      else if unit - remainder < remainder then some (Decimal.normalize (below + 1) exponent)
      else if below % 2 = 0 then some (Decimal.normalize below exponent)
      else some (Decimal.normalize (below + 1) exponent)
    else if lowOk then some (Decimal.normalize below exponent)
    else if highOk then some (Decimal.normalize (below + 1) exponent)
    else none

/-- The shortest decimal in the interval. With all the value's digits the neighbour below is
the value itself, so the search always ends. -/
def shortest (i : Interval) : Decimal :=
  let length := decimalLength i.value
  ((List.range length).findSome? fun k => i.candidate length (k + 1)).getD
    (Decimal.normalize i.value i.scale)

end Interval

/-- The shortest decimal that reads back as the magnitude of the finite double with these
fields; zero for zero. -/
def shortestOf (biased : Fin 2047) (fraction : Fin (2 ^ (52 : Nat))) : Decimal :=
  let m := significandOf biased fraction
  if m = 0 then ⟨0, 0⟩
  else
    let narrow := fraction.val = 0 && 1 < biased.val
    (Interval.ofMagnitude m (exponentOf biased) narrow).shortest

/-- The shortest decimal that reads back as the magnitude of a finite double, and `none` for
the non-finite values. -/
def shortest? : Binary64 → Option Decimal
  | finite _ biased fraction => some (shortestOf biased fraction)
  | _ => none

example : (ofScientific false 1 (-1)).shortest? = some ⟨1, -1⟩ := by decide +kernel

example : (ofScientific false 5 (-324)).shortest? = some ⟨5, -324⟩ := by decide +kernel

example : (ofScientific false 30000000000000004 (-17)).shortest? = some ⟨30000000000000004, -17⟩ := by
  decide +kernel

end Binary64

end VieCompiler
