/-!
# The shortest decimal that reads back

A binary floating-point number stands for an interval: all reals that round to it. Of
the decimals in that interval the text shows one with the fewest digits, and of these
the nearest. For one, two, … digits the two multiples of the grid next to the number are
tested; the first grid with a hit wins, since an interval that meets a grid contains one
of these two.

All comparisons are between fractions of natural numbers.
-/

namespace ILDump.Decimal

/-- A nonnegative fraction; the denominator is positive in use. -/
structure Fraction where
  num : Nat
  den : Nat
deriving Repr

namespace Fraction

/-- `n · 2 ^ e`. -/
def scaled (n : Nat) (e : Int) : Fraction :=
  match e with
  | .ofNat e => ⟨n * Nat.pow 2 e, 1⟩
  | .negSucc e => ⟨n, Nat.pow 2 (e + 1)⟩

/-- `n · 10 ^ e`. -/
def decimal (n : Nat) (e : Int) : Fraction :=
  match e with
  | .ofNat e => ⟨n * Nat.pow 10 e, 1⟩
  | .negSucc e => ⟨n, Nat.pow 10 (e + 1)⟩

def lt (a b : Fraction) : Bool :=
  a.num * b.den < b.num * a.den

def le (a b : Fraction) : Bool :=
  a.num * b.den ≤ b.num * a.den

/-- The greatest `d` with `d · 10 ^ e` at most the fraction. -/
def floorAt (a : Fraction) (e : Int) : Nat :=
  match e with
  | .ofNat e => a.num / (a.den * Nat.pow 10 e)
  | .negSucc e => a.num * Nat.pow 10 (e + 1) / a.den

end Fraction

/-- The reals that round to a number, with the number itself. -/
structure Rounding where
  value : Fraction
  low : Fraction
  high : Fraction
  /-- Whether the ends belong to the interval. -/
  closed : Bool

/-- Whether a fraction rounds to the number. -/
def Rounding.admits (r : Rounding) (x : Fraction) : Bool :=
  if r.closed then r.low.le x && x.le r.high else r.low.lt x && x.lt r.high

/-- The number `digits · 10 ^ exponent`. -/
structure Scientific where
  digits : Nat
  exponent : Int
deriving DecidableEq, Repr

/-- Least `e` with `value < 10 ^ e`, for a value between `2 ^ log` and `2 ^ (log + 1)`. -/
def magnitude (value : Fraction) (log : Int) : Int :=
  let e := log * 30103 / 100000
  if value.lt (.decimal 1 e) then e
  else if value.lt (.decimal 1 (e + 1)) then e + 1
  else e + 2

/-- The nearer of two neighbours on a grid that both read back; of two equally near
    ones the even. -/
def nearer (value : Fraction) (d : Nat) (e : Int) : Nat :=
  -- compares the value with the middle between `d` and `d + 1`
  let twice : Fraction := ⟨2 * value.num, value.den⟩
  let middle := Fraction.decimal (2 * d + 1) e
  if twice.lt middle then d
  else if middle.lt twice then d + 1
  else if d % 2 = 0 then d else d + 1

/-- Tries grids from coarse to fine, `count` of them, the first with unit `10 ^ e`. -/
def searchGrids (r : Rounding) : Nat → Int → Scientific
  | 0, e => ⟨nearer r.value (r.value.floorAt e) e, e⟩
  | count + 1, e =>
    let d := r.value.floorAt e
    let below := d ≠ 0 && r.admits (.decimal d e)
    let above := r.admits (.decimal (d + 1) e)
    if below && above then ⟨nearer r.value d e, e⟩
    else if below then ⟨d, e⟩
    else if above then ⟨d + 1, e⟩
    else searchGrids r count (e - 1)

/-- Drops the zeros at the end of the digits. -/
def Scientific.trim : Nat → Scientific → Scientific
  | 0, s => s
  | bound + 1, s =>
    if s.digits ≠ 0 && s.digits % 10 = 0 then trim bound ⟨s.digits / 10, s.exponent + 1⟩ else s

/-- The shortest decimal of a positive binary number `mantissa · 2 ^ exponent`.
    `isPowerBoundary` says that the next smaller number is only half as far away as the
    next greater one. -/
def shortest (mantissa : Nat) (exponent : Int) (isPowerBoundary : Bool) : Scientific :=
  let r : Rounding := {
    value := .scaled (4 * mantissa) (exponent - 2)
    low := .scaled (4 * mantissa - (if isPowerBoundary then 1 else 2)) (exponent - 2)
    high := .scaled (4 * mantissa + 2) (exponent - 2)
    closed := mantissa % 2 = 0 }
  let top := magnitude r.value (Nat.log2 mantissa + exponent)
  (searchGrids r 16 (top - 1)).trim 20

end ILDump.Decimal
