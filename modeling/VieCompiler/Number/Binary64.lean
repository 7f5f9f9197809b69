/-!
# Double-precision numbers

Vie numbers are IEEE 754 binary64 values. `Binary64` holds one by the fields of its
encoding, so that every value has exactly one representation apart from the sign of zero,
and its arithmetic content is plain natural-number arithmetic: a finite value is
`± m · 2^q` with the significand `m` and exponent `q` read off the fields.

Reading a number means rounding a non-negative rational `num / den` to the nearest double,
a tie going to the even significand, and to infinity beyond the largest finite value; that
is what `ofRatio` does, in exact arithmetic. `ofScientific` reads `mantissa · 10^exponent`.
-/

namespace VieCompiler

-- Powers of naturals are `Nat.pow`, which the kernel computes directly, whatever other
-- instance is in scope; the exponents are typed so that no default instance picks one.
attribute [local instance (high)] instPowNat

/-- A double-precision binary floating-point value, by the fields of its encoding. -/
inductive Binary64 where
  /-- A finite value. The biased exponent is 0 for zero and the subnormals; its largest
  value, 2047, is reserved for the non-finite values and so is not a field value here. -/
  | finite (negative : Bool) (biased : Fin 2047) (fraction : Fin (2 ^ (52 : Nat)))
  /-- Positive or negative infinity. -/
  | infinite (negative : Bool)
  /-- Not a number. -/
  | nan
deriving DecidableEq, Repr

namespace Binary64

/-- The significand `m` of a finite value of magnitude `m · 2^q`. -/
def significandOf (biased : Fin 2047) (fraction : Fin (2 ^ (52 : Nat))) : Nat :=
  if biased.val = 0 then fraction.val else 2 ^ (52 : Nat) + fraction.val

/-- The exponent `q` of a finite value of magnitude `m · 2^q`. -/
def exponentOf (biased : Fin 2047) : Int :=
  (max biased.val 1 : Nat) - 1075

/-- Positive zero. -/
def zero : Binary64 := finite false 0 0

/-- Whether the value is negative or negative zero. -/
def isNegative : Binary64 → Bool
  | finite negative _ _ => negative
  | infinite negative => negative
  | nan => false

/-- The quotient `num / den` rounded to the nearest natural number, a tie going to the even
one. -/
def roundHalfEven (num den : Nat) : Nat :=
  let quotient := num / den
  let remainder := num % den
  if den < 2 * remainder ∨ (2 * remainder = den ∧ quotient % 2 = 1) then quotient + 1
  else quotient

/-- Whether `num / den` is at least `2^e`. -/
def atLeastPowerOfTwo (num den : Nat) (e : Int) : Bool :=
  if 0 ≤ e then den * 2 ^ e.toNat ≤ num else den ≤ num * 2 ^ (-e).toNat

/-- The exponent of the highest power of two not above `num / den`, for positive `num` and
`den`. The bit lengths of `num` and `den` fix it up to one. -/
def floorLog2 (num den : Nat) : Int :=
  let estimate : Int := (Nat.log2 num : Int) - Nat.log2 den
  if atLeastPowerOfTwo num den estimate then estimate else estimate - 1

/-- The finite value `± m · 2^q` for a significand below `2^53`, normal (at least `2^52`)
unless `q` is the least exponent `-1074`; infinity when `q` is beyond the largest exponent.
The remainders only restate bounds that these conditions already give. -/
def encode (negative : Bool) (m : Nat) (q : Int) : Binary64 :=
  if 971 < q then infinite negative
  else if h : m < 2 ^ (52 : Nat) then finite negative 0 ⟨m, h⟩
  else finite negative ⟨(q + 1075).toNat % 2047, Nat.mod_lt _ (by decide)⟩
    ⟨(m - 2 ^ (52 : Nat)) % 2 ^ (52 : Nat), Nat.mod_lt _ (by decide)⟩

/-- The double nearest to `num / den`, with the given sign: the significand is the quotient
rounded half to even at the exponent that leaves it 53 bits wide, or at the least exponent
for values below the normal range. A significand that rounds up to `2^53` moves to the next
exponent. -/
def ofRatio (negative : Bool) (num den : Nat) : Binary64 :=
  if num = 0 ∨ den = 0 then finite negative 0 0
  else
    let q : Int := max (floorLog2 num den - 52) (-1074)
    let m :=
      if 0 ≤ q then roundHalfEven num (den * 2 ^ q.toNat)
      else roundHalfEven (num * 2 ^ (-q).toNat) den
    if m = 2 ^ (53 : Nat) then encode negative (2 ^ (52 : Nat)) (q + 1) else encode negative m q

/-- The number of decimal digits of `n`, at least one. -/
def decimalLength (n : Nat) : Nat :=
  (Nat.toDigits 10 n).length

/-- The double nearest to `mantissa · 10^exponent`, with the given sign. Values of at least
`10^310` are infinite and values below `10^-330` are zero before any exact arithmetic, so
huge exponents cost nothing. -/
def ofScientific (negative : Bool) (mantissa : Nat) (exponent : Int) : Binary64 :=
  let size : Int := decimalLength mantissa + exponent
  if mantissa = 0 then finite negative 0 0
  else if 310 < size then infinite negative
  else if size < -330 then finite negative 0 0
  else if 0 ≤ exponent then ofRatio negative (mantissa * 10 ^ exponent.toNat) 1
  else ofRatio negative mantissa (10 ^ (-exponent).toNat)

/-- The double nearest to a natural number. -/
def ofNat (n : Nat) : Binary64 :=
  ofScientific false n 0

/-- The number that a list of decimal digits spells. -/
def digitValue (digits : List Char) : Nat :=
  digits.foldl (fun n c => 10 * n + (c.toNat - '0'.toNat)) 0

/-- The magnitude `m · 2^q` of a finite value, as the pair `(m, q)`. -/
def magnitude? : Binary64 → Option (Nat × Int)
  | finite _ biased fraction => some (significandOf biased fraction, exponentOf biased)
  | _ => none

/-- The value as an integer, when it is finite and has no fractional part. -/
def toInt? (x : Binary64) : Option Int :=
  match x.magnitude? with
  | none => none
  | some (m, q) =>
    let n : Option Nat :=
      if 0 ≤ q then some (m * 2 ^ q.toNat)
      else if m % 2 ^ (-q).toNat = 0 then some (m / 2 ^ (-q).toNat) else none
    n.map fun n => if x.isNegative then -(n : Int) else n

theorem roundHalfEven_le (num den : Nat) : roundHalfEven num den ≤ num / den + 1 := by
  simp only [roundHalfEven]
  split <;> omega

example : ofNat 9007199254740993 = ofNat 9007199254740992 := by decide +kernel

example : ofNat 9007199254740995 = ofNat 9007199254740996 := by decide +kernel

example : (ofNat 99999999999999999999999).toInt? = some 99999999999999991611392 := by
  decide +kernel

example : ofScientific false 1 400 = infinite false ∧ ofScientific true 1 (-400) = finite true 0 0 := by
  decide +kernel

end Binary64

end VieCompiler
