/-!
# Binary floating point numbers of 64 bits

A finite number is `mantissa * 2 ^ exponent` with a mantissa below `2 ^ 53`. Reading a decimal
rounds to the nearest such number, a tie to the even mantissa; writing chooses the fewest digits
that read back. All steps are exact arithmetic on natural numbers.

## Main definitions

* `FirmwareBundle.Binary64` — the numbers, with two infinities and one value that is no number.
* `FirmwareBundle.Binary64.ofDecimal` — the number nearest to `digits * 10 ^ scale`.
* `FirmwareBundle.Binary64.shortest` — the fewest digits that read back.
* `FirmwareBundle.Binary64.text` — those digits without an exponent.
-/

namespace FirmwareBundle

/-- A number of 64 bits. A nonzero finite number has a mantissa of 53 bits, or fewer bits and the
least exponent; zero has exponent zero. -/
inductive Binary64 where
  | finite (negative : Bool) (mantissa : Nat) (exponent : Int)
  | infinite (negative : Bool)
  | notANumber
  deriving DecidableEq, Inhabited

namespace Binary64

/-- The number of bits of a full mantissa. -/
def precision : Nat := 53

/-- The least exponent of a finite number. -/
def minExponent : Int := -1074

/-- The greatest exponent of a finite number. -/
def maxExponent : Int := 971

/-- Zero, with a sign if it is `negative`. -/
def zero (negative : Bool) : Binary64 :=
  .finite negative 0 0

/-- Whether a number is finite. -/
def isFinite : Binary64 → Bool
  | .finite .. => true
  | _ => false

/-- Numerical equality: the two zeros are one number, and what is no number equals itself. -/
def same : Binary64 → Binary64 → Bool
  | .finite n m e, .finite n' m' e' => (m == 0 && m' == 0) || (n == n' && m == m' && e == e')
  | .infinite n, .infinite n' => n == n'
  | .notANumber, .notANumber => true
  | _, _ => false

/-- `n * base ^ k` over one if `k` is not negative, else `n` over a power of `base`. -/
def fraction (n base : Nat) (k : Int) : Nat × Nat :=
  if 0 ≤ k then (n * base.pow k.toNat, 1) else (n, base.pow (-k).toNat)

/-- The quotient `num / den` rounded to nearest, a tie to even. -/
def roundDiv (num den : Nat) : Nat :=
  let q := num / den
  let r := num % den
  if 2 * r < den then q else if den < 2 * r then q + 1 else q + q % 2

/-- The quotient `num / (den * 2 ^ e)` rounded to nearest, a tie to even. -/
def roundAt (num den : Nat) (e : Int) : Nat :=
  if 0 ≤ e then roundDiv num (den * Nat.pow 2 e.toNat)
  else roundDiv (num * Nat.pow 2 (-e).toNat) den

/-- Whether `num / den` is at least `2 ^ k`. -/
def reaches (num den : Nat) (k : Int) : Bool :=
  if 0 ≤ k then den * Nat.pow 2 k.toNat ≤ num else den ≤ num * Nat.pow 2 (-k).toNat

/-- The number nearest to the positive fraction `num / den`. -/
def ofFraction (negative : Bool) (num den : Nat) : Binary64 :=
  let guess : Int := (Nat.log2 num : Int) - Nat.log2 den
  let top := if reaches num den guess then guess else guess - 1
  let e := max minExponent (top - (precision - 1))
  let m := roundAt num den e
  if m = 0 then zero negative
  else if m = Nat.pow 2 precision then
    if maxExponent < e + 1 then .infinite negative
    else .finite negative (Nat.pow 2 (precision - 1)) (e + 1)
  else if maxExponent < e then .infinite negative
  else .finite negative m e

/-- The number of decimal digits of `n`; zero has one. -/
def digitCount (n : Nat) : Nat :=
  (Nat.toDigits 10 n).length

/-- The number nearest to `digits * 10 ^ scale`; what lies beyond the greatest finite number is
infinite. Scales far outside the range are decided by the number of digits alone. -/
def ofDecimal (negative : Bool) (digits : Nat) (scale : Int) : Binary64 :=
  if digits = 0 then zero negative
  else
    let magnitude := digitCount digits + scale
    if 400 < magnitude then .infinite negative
    else if magnitude < -400 then zero negative
    else
      let (num, den) := fraction digits 10 scale
      ofFraction negative num den

/-! ## The shortest decimal text -/

/-- `n * 2 ^ e / 10 ^ u` as a fraction of natural numbers. -/
def scaled (n : Nat) (e u : Int) : Nat × Nat :=
  let (a, b) := fraction n 2 e
  let (c, d) := fraction 1 10 u
  (a * d, b * c)

/-- The interval of reals that round to `m * 2 ^ e`, as numerators over `2 ^ (e - 2)`. -/
def interval (m : Nat) (e : Int) : Nat × Nat :=
  let low := if m = Nat.pow 2 (precision - 1) ∧ minExponent < e then 4 * m - 1 else 4 * m - 2
  (low, 4 * m + 2)

/-- Whether `c * 10 ^ u` rounds to `m * 2 ^ e`: it lies inside the interval, or on an end of it
and the mantissa is even. -/
def roundsTo (m : Nat) (e : Int) (c : Nat) (u : Int) : Bool :=
  let (low, high) := interval m e
  let (ln, d) := scaled low (e - 2) u
  let (hn, d') := scaled high (e - 2) u
  if m % 2 = 0 then ln ≤ c * d && c * d' ≤ hn else ln < c * d && c * d' < hn

/-- The nearer of the two points of the grid `10 ^ u` beside the number, if it rounds to the number;
of two equally near the greater. -/
def onGrid (m : Nat) (e u : Int) : Option Nat :=
  let (num, den) := scaled m e u
  let c := num / den
  let below := roundsTo m e c u && c != 0
  let above := roundsTo m e (c + 1) u
  if below && above then
    if 2 * (num % den) < den then some c else some (c + 1)
  else if below then some c
  else if above then some (c + 1)
  else none

/-- The decimal exponent of the first digit of `m * 2 ^ e`. -/
def leadingExponent (m : Nat) (e : Int) : Int :=
  let (num, den) := fraction m 2 e
  if den ≤ num then (digitCount (num / den) : Int) - 1
  else
    let k := (digitCount (den / num) : Int)
    if num * Nat.pow 10 (k.toNat - 1) < den then -k else -(k - 1)

/-- The first hit on the grids of one digit more each, from `count` digits on, and its grid. The
first digit of the number has the exponent `top`. -/
def search (m : Nat) (e top : Int) : (fuel count : Nat) → Nat × Int
  | 0, _ => (0, 0)
  | fuel + 1, count =>
    let u := top - count + 1
    match onGrid m e u with
    | some c => (c, u)
    | none => search m e top fuel (count + 1)

/-- The digits and the scale of the shortest decimal that reads back as `m * 2 ^ e`; seventeen
digits always do. -/
def shortest (m : Nat) (e : Int) : Nat × Int :=
  search m e (leadingExponent m e) 18 1

/-- Digits with a decimal point at scale `u` and no exponent; a whole number keeps one zero after
the point. -/
def positional (c : Nat) (u : Int) : String :=
  let ds := Nat.toDigits 10 c
  if 0 ≤ u then String.ofList (ds ++ List.replicate u.toNat '0' ++ ['.', '0'])
  else
    let places := (-u).toNat
    let padded := List.replicate (places + 1 - ds.length) '0' ++ ds
    String.ofList
      (padded.take (padded.length - places) ++ '.' :: padded.drop (padded.length - places))

/-- Drops the zeros at the end of `c`, at most `n` of them. -/
def dropZeros : (n : Nat) → Nat → Int → Nat × Int
  | 0, c, u => (c, u)
  | n + 1, c, u => if c % 10 = 0 then dropZeros n (c / 10) (u + 1) else (c, u)

/-- The number in decimal: the fewest digits that read back, and no exponent. -/
def text : Binary64 → String
  | .finite negative m e =>
    let magnitude :=
      if m = 0 then "0.0"
      else
        let (c, u) := shortest m e
        let (c, u) := dropZeros 18 c u
        positional c u
    if negative then "-" ++ magnitude else magnitude
  | .infinite negative => if negative then "-inf" else "inf"
  | .notANumber => "NaN"

end Binary64

end FirmwareBundle
