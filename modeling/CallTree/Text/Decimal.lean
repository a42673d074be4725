/-!
# Decimals

A floating-point number is a whole number times a power of two.  It is written
with six places after the point, from its exact value, and a half goes to the
even neighbour.
-/

namespace CallTree
namespace Text

/-- The exact value of a finite floating-point number: a sign, a magnitude and a
power of two. -/
structure Binary where
  negative : Bool
  magnitude : Nat
  exponent : Int
  deriving DecidableEq, Repr

/-- Decode a number by its bits.  Infinities and NaN have no value. -/
def Binary.ofFloat? (value : Float) : Option Binary :=
  let bits := value.toBits.toNat
  let negative := bits / Nat.pow 2 63 == 1
  let exponent : Nat := bits / Nat.pow 2 52 % Nat.pow 2 11
  let fraction : Nat := bits % Nat.pow 2 52
  if exponent == Nat.pow 2 11 - 1 then none
  else if exponent == 0 then some { negative, magnitude := fraction, exponent := -1074 }
  else some { negative, magnitude := fraction + Nat.pow 2 52, exponent := (exponent : Int) - 1075 }

/-- The nearest whole number to a quotient, where a half goes to the even
neighbour. -/
def roundedQuotient (dividend divisor : Nat) : Nat :=
  let quotient := dividend / divisor
  let twice := 2 * (dividend % divisor)
  if twice < divisor then quotient
  else if divisor < twice then quotient + 1
  else quotient + quotient % 2

/-- The magnitude in units of `10 ^ (-places)`, rounded. -/
def Binary.scaled (value : Binary) (places : Nat) : Nat :=
  if 0 ≤ value.exponent then value.magnitude * Nat.pow 2 value.exponent.toNat * Nat.pow 10 places
  else roundedQuotient (value.magnitude * Nat.pow 10 places) (Nat.pow 2 (-value.exponent).toNat)

/-- The part before the point, with its sign. -/
def Binary.truncated (value : Binary) : Int :=
  let whole :=
    if 0 ≤ value.exponent then value.magnitude * Nat.pow 2 value.exponent.toNat
    else value.magnitude / Nat.pow 2 (-value.exponent).toNat
  if value.negative then -(whole : Int) else whole

/-- The decimal digits of a number, with zeros in front up to the width. -/
def paddedDigits (width value : Nat) : List Char :=
  let digits := (toString value).toList
  List.replicate (width - digits.length) '0' ++ digits

/-- A number with six places. -/
def sixPlaces (value : Float) : String :=
  match Binary.ofFloat? value with
  | some value =>
      let scaled := value.scaled 6
      String.ofList ((if value.negative then ['-'] else []) ++
        (toString (scaled / Nat.pow 10 6)).toList ++ '.' ::
          paddedDigits 6 (scaled % Nat.pow 10 6))
  | none => if value.isNaN then "nan" else if value < 0 then "-inf" else "inf"

end Text
end CallTree
