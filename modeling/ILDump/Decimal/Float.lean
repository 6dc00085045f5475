import ILDump.Decimal.Shortest

/-!
# Texts of floating-point numbers

A number of 64 bits is a sign, eleven bits of exponent and 52 bits of fraction. Its text
has the fewest digits that read back, positional while the first digit stands between
the fourth place behind the point and the sixteenth before it, and always with a digit
on both sides of the point there. Numbers of 32 bits are widened first; widening is
exact, so their text is the one of the wider number.
-/

namespace ILDump.Decimal

/-- How the digits of a number are laid out. -/
structure Layout where
  /-- Greatest power of ten of the first digit that is written positionally. -/
  greatestPlace : Int
  /-- Least power of ten of the first digit that is written positionally. -/
  leastPlace : Int
  /-- Least number of digits of an exponent. -/
  exponentDigits : Nat

/-- Constants and operands of a listing: positional from 1e-4 to below 1e16. -/
def Layout.listing : Layout :=
  ⟨15, -4, 2⟩

private def zeros (n : Nat) : String :=
  String.ofList (List.replicate n '0')

/-- The digits of a number with point and exponent. -/
def Layout.render (l : Layout) (s : Scientific) : String :=
  let digits := (toString s.digits).toList
  let count := digits.length
  -- the power of ten of the first digit
  let place : Int := s.exponent + count - 1
  if l.leastPlace ≤ place && place ≤ l.greatestPlace then
    if place < 0 then
      "0." ++ zeros (-place - 1).toNat ++ String.ofList digits
    else
      let whole := (place + 1).toNat
      if count ≤ whole then
        String.ofList digits ++ zeros (whole - count) ++ ".0"
      else
        String.ofList (digits.take whole) ++ "." ++ String.ofList (digits.drop whole)
  else
    let fraction := digits.drop 1
    let mantissa :=
      String.ofList (digits.take 1) ++
        (if fraction.isEmpty then "" else "." ++ String.ofList fraction)
    let sign := if place < 0 then "-" else "+"
    let power := (toString place.natAbs).toList.leftpad l.exponentDigits '0'
    mantissa ++ "e" ++ sign ++ String.ofList power

def text64 (bits : Nat) : String :=
  let fraction : Nat := bits % Nat.pow 2 52
  let exponent : Nat := bits / Nat.pow 2 52 % Nat.pow 2 11
  let sign := if bits / Nat.pow 2 63 % 2 = 1 then "-" else ""
  if exponent = 2047 then
    if fraction = 0 then sign ++ "inf" else "nan"
  else if exponent = 0 then
    if fraction = 0 then sign ++ "0.0"
    else sign ++ Layout.listing.render (shortest fraction (-1074) false)
  else
    sign ++ Layout.listing.render
      (shortest (Nat.pow 2 52 + fraction) ((exponent : Int) - 1075) (fraction = 0 && 1 < exponent))

/-- The 64 bits of the number with these 32 bits. A subnormal number is shifted up until
    its leading bit is the hidden one. -/
def widen (bits : Nat) : Nat :=
  let fraction : Nat := bits % Nat.pow 2 23
  let exponent : Nat := bits / Nat.pow 2 23 % Nat.pow 2 8
  let sign := bits / Nat.pow 2 31 % 2 * Nat.pow 2 63
  if exponent = 255 then sign + 2047 * Nat.pow 2 52 + fraction * Nat.pow 2 29
  else if exponent = 0 then
    if fraction = 0 then sign
    else
      let log := Nat.log2 fraction
      sign + (log + 874) * Nat.pow 2 52 + (fraction - Nat.pow 2 log) * Nat.pow 2 (52 - log)
  else sign + (exponent + 896) * Nat.pow 2 52 + fraction * Nat.pow 2 29

def text32 (bits : Nat) : String :=
  text64 (widen bits)

end ILDump.Decimal
