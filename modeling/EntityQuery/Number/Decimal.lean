import EntityQuery.Number.Binary64
import EntityQuery.Number.Width
import EntityQuery.Text.Basic

/-!
# Decimal text of binary64 numbers

A finite number is written with the fewest decimal digits that read back to it, and of those with
the digits nearest to it.  Where two decimals are equally near, a `Tie` decides.  The digits are
found in exact arithmetic: the reals that round to a number form an interval, and for a growing
count of digits the two neighbours of the number on the decimal grid of that count are tested for
lying inside.

How digits are chosen in a tie and laid out (where the point stands, when an exponent is written) is
a separate record, `DecimalLayout`.

Reading goes the other way with at most two roundings: the digits are collected into one machine
word, which is then scaled by a power of ten.

## Main definitions

* `Decimal.shortest` : the digits of a number
* `DecimalLayout.write` : a number as text
* `Decimal.toFloat?` : the number that a decimal is read as
-/

namespace EntityQuery

/-- The number `digits * 10 ^ exponent`. -/
structure Decimal where
  digits : Nat
  exponent : Int
  deriving DecidableEq, Repr

namespace Decimal

/-! ## The shortest digits -/

/-- A number scaled by a power, as far as the exponent is positive. -/
def scaled (a base : Nat) (k : Int) : Nat := a * Nat.pow base k.toNat

/-- `a * 10 ^ k` against `b * 2 ^ j`, in whole numbers. -/
def compareScaled (a : Nat) (k : Int) (b : Nat) (j : Int) : Ordering :=
  compare (scaled (scaled a 10 k) 2 (-j)) (scaled (scaled b 2 j) 10 (-k))

/-- The decimal rounds to `m * 2 ^ q`: it lies between the midpoints to the two neighbours, and may
lie on a midpoint when `m` is even.  Below a power of two the neighbour is only half as far away. -/
def readsBack (m : Nat) (q : Int) (d : Decimal) : Bool :=
  let low := if m = Binary64.binade ∧ -1074 < q then 4 * m - 1 else 4 * m - 2
  let high := 4 * m + 2
  match compareScaled d.digits d.exponent low (q - 2),
    compareScaled d.digits d.exponent high (q - 2) with
  | .gt, .lt => true
  | .eq, _ => m % 2 = 0
  | _, .eq => m % 2 = 0
  | _, _ => false

/-- The whole number of grid steps `10 ^ k` in `m * 2 ^ q`. -/
def gridFloor (m : Nat) (q k : Int) : Nat :=
  scaled (scaled m 2 q) 10 (-k) / scaled (scaled 1 2 (-q)) 10 k

/-- The number of decimal digits of the whole part of `m * 2 ^ q`, or minus the number of zeros that
follow the point: the least `k` with `m * 2 ^ q < 10 ^ k`. -/
def scale (m : Nat) (q : Int) : Int :=
  let guess := ((m.log2 + q) * 30103) / 100000
  let steps := (List.range 4).filter fun i : Nat => compareScaled 1 (guess - 1 + i) m q != .gt
  guess - 1 + steps.length

/-- Which of two equally near neighbours on a grid is taken. -/
inductive Tie where
  /-- The one whose last digit is even. -/
  | toEven
  /-- The one farther from zero. -/
  | up
  deriving DecidableEq, Repr

/-- The neighbour that is taken in a tie. -/
def Tie.choose (tie : Tie) (below above : Decimal) : Decimal :=
  match tie with
  | .toEven => if below.digits % 2 = 0 then below else above
  | .up => above

/-- Of the two neighbours of `m * 2 ^ q` on the grid `10 ^ k`, those that read back, the nearer
one. -/
def onGrid? (tie : Tie) (m : Nat) (q k : Int) : Option Decimal :=
  let below : Decimal := ⟨gridFloor m q k, k⟩
  let above : Decimal := ⟨below.digits + 1, k⟩
  match readsBack m q below, readsBack m q above with
  | true, true =>
    match compareScaled (below.digits + above.digits) k m (q + 1) with
    | .gt => some below
    | .lt => some above
    | .eq => some (tie.choose below above)
  | true, false => some below
  | false, true => some above
  | false, false => none

/-- Trailing zeros of the digits moved into the exponent. -/
def stripZeros : Nat → Decimal → Decimal
  | 0, d => d
  | fuel + 1, d =>
    if d.digits ≠ 0 ∧ d.digits % 10 = 0 then stripZeros fuel ⟨d.digits / 10, d.exponent + 1⟩ else d

/-- The fewest digits that read back to `m * 2 ^ q`; its exact value should no count up to seventeen
do. -/
def shortest (tie : Tie) (m : Nat) (q : Int) : Decimal :=
  if m = 0 then ⟨0, 0⟩
  else
    let top := scale m q
    match (List.range 17).findSome? fun i => onGrid? tie m q (top - (i + 1 : Nat)) with
    | some d => stripZeros 400 d
    | none => if 0 ≤ q then ⟨scaled m 2 q, 0⟩ else ⟨scaled m 5 (-q), q⟩

/-! ## Reading -/

/-- Digits appended to a word as long as it does not overflow; the digits left over are returned. -/
def collect (word : Nat) : List Char → Nat × List Char
  | [] => (word, [])
  | c :: rest =>
    let next := 10 * word + Text.digitValue c
    if Width.fitsWord next then collect next rest else (word, c :: rest)

/-- A power of ten up to the greatest finite one. -/
def powerOfTen (n : Nat) : Float := Float.ofScientific 1 false n

/-- `x / 10 ^ n`, in steps of at most `10 ^ 308`. -/
def scaleDown : Nat → Float → Nat → Float
  | 0, x, _ => x
  | fuel + 1, x, n =>
    if n ≤ 308 then x / powerOfTen n
    else if Binary64.magnitude x = 0 then x
    else scaleDown fuel (x / powerOfTen 308) (n - 308)

/-- The number a decimal is read as: its digits as a binary64 number, scaled by a power of ten.
None when the result is too great for a finite number. -/
def toFloat? (d : Decimal) : Option Float :=
  let x := d.digits.toUInt64.toFloat
  if 0 ≤ d.exponent then
    if d.exponent ≤ 308 then
      let y := x * powerOfTen d.exponent.toNat
      if Binary64.isFinite y then some y else none
    else if d.digits = 0 then some x else none
  else
    some (scaleDown 8 x (-d.exponent).toNat)

end Decimal

/-! ## Layout -/

/-- How a number is written.  With `place` the number of digits before the point (negative for zeros
that follow it), `plainFrom ≤ place ≤ plainUpTo` is written without an exponent. -/
structure DecimalLayout where
  /-- The digits that are taken where two decimals are equally near. -/
  tie : Decimal.Tie
  plainFrom : Option Int
  plainUpTo : Option Int
  /-- A whole number written without an exponent ends in `.0`. -/
  wholeWithPoint : Bool

namespace DecimalLayout

/-- Digits with the point after the first `place` of them, zeros filled in where digits are
missing. -/
def plain (layout : DecimalLayout) (digits : List Char) (place : Int) : List Char :=
  if place ≤ 0 then
    '0' :: '.' :: List.replicate (-place).toNat '0' ++ digits
  else
    let whole := place.toNat
    if digits.length ≤ whole then
      digits ++ List.replicate (whole - digits.length) '0' ++
        (if layout.wholeWithPoint then ['.', '0'] else [])
    else
      digits.take whole ++ '.' :: digits.drop whole

/-- One digit, the others after a point, and a signed exponent. -/
def scientific (digits : List Char) (place : Int) : List Char :=
  let tail := digits.drop 1
  let exponent := place - 1
  digits.take 1 ++ (if tail.isEmpty then [] else '.' :: tail) ++ 'e' ::
    (if exponent < 0 then '-' else '+') :: Nat.toDigits 10 exponent.natAbs

/-- The text of an unsigned decimal. -/
def unsigned (layout : DecimalLayout) (d : Decimal) : List Char :=
  if d.digits = 0 then
    '0' :: (if layout.wholeWithPoint then ['.', '0'] else [])
  else
    let digits := Nat.toDigits 10 d.digits
    let place := digits.length + d.exponent
    if layout.plainFrom.all (· ≤ place) && layout.plainUpTo.all (place ≤ ·) then
      layout.plain digits place
    else
      scientific digits place

/-- The text of a number. -/
def write (layout : DecimalLayout) (x : Float) : String :=
  match Binary64.ofFloat x with
  | .notANumber => "NaN"
  | .infinite negative => if negative then "-inf" else "inf"
  | .finite negative m q =>
    String.ofList
      ((if negative then ['-'] else []) ++ layout.unsigned (Decimal.shortest layout.tie m q))

end DecimalLayout

end EntityQuery
