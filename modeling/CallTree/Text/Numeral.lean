import CallTree.Text.Blank

/-!
# Decimal numbers as text

A whole number is written with the decimal digits of any script, with single
underscores between digits, an optional sign, and blanks around it.  A text of
more than 4300 digits is refused.
-/

namespace CallTree
namespace Text

/-- The zeros of the decimal digit rows beyond ASCII. -/
def digitZeros : List Nat := [
    0x660, 0x6f0, 0x7c0, 0x966, 0x9e6, 0xa66, 0xae6, 0xb66, 0xbe6, 0xc66, 0xce6, 0xd66,
    0xde6, 0xe50, 0xed0, 0xf20, 0x1040, 0x1090, 0x17e0, 0x1810, 0x1946, 0x19d0, 0x1a80,
    0x1a90, 0x1b50, 0x1bb0, 0x1c40, 0x1c50, 0xa620, 0xa8d0, 0xa900, 0xa9d0, 0xa9f0, 0xaa50,
    0xabf0, 0xff10, 0x104a0, 0x10d30, 0x11066, 0x110f0, 0x11136, 0x111d0, 0x112f0, 0x11450,
    0x114d0, 0x11650, 0x116c0, 0x11730, 0x118e0, 0x11950, 0x11c50, 0x11d50, 0x11da0,
    0x16a60, 0x16ac0, 0x16b50, 0x1d7ce, 0x1d7d8, 0x1d7e2, 0x1d7ec, 0x1d7f6, 0x1e140,
    0x1e2f0, 0x1e950, 0x1fbf0]

/-- The value of a decimal digit of any script. -/
def digitValue? (c : Char) : Option Nat :=
  if c.isDigit then some (c.toNat - 0x30)
  else
    (digitZeros.find? fun first => first ≤ c.toNat && c.toNat < first + 10).map
      (c.toNat - ·)

/-- The most digits a number may have. -/
def digitLimit : Nat := 4300

/-- Read the digits that follow one digit: each is preceded by at most one
underscore.  Gives the value and the number of digits. -/
def readDigits (value count : Nat) : List Char → Option (Nat × Nat)
  | [] => some (value, count)
  | '_' :: c :: rest =>
      (digitValue? c).bind fun digit => readDigits (10 * value + digit) (count + 1) rest
  | c :: rest =>
      (digitValue? c).bind fun digit => readDigits (10 * value + digit) (count + 1) rest

/-- Read a number without a sign. -/
def readNatural? : List Char → Option Nat
  | [] => none
  | c :: rest => do
      let first ← digitValue? c
      let (value, count) ← readDigits first 1 rest
      if count ≤ digitLimit then some value else none

/-- The blanks that may stand around a number: all but the four information
separators U+001C to U+001F. -/
def isNumeralBlank (c : Char) : Bool :=
  isBlank c && !(0x1c ≤ c.toNat && c.toNat ≤ 0x1f)

/-- Read a whole number with an optional sign and blanks around it. -/
def readInteger? (text : List Char) : Option Int :=
  match dropEndWhile isNumeralBlank (text.dropWhile isNumeralBlank) with
  | '+' :: rest => (readNatural? rest).map Int.ofNat
  | '-' :: rest => (readNatural? rest).map fun value => -(value : Int)
  | rest => (readNatural? rest).map Int.ofNat

end Text
end CallTree
