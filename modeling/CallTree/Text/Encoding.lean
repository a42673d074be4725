import CallTree.Text.Alphanumeric
import CallTree.Text.LowerCase

/-!
# Encodings

Bytes are read as text by a named encoding.  Bytes that no text has in that
encoding become replacement characters: in UTF-8 one for every longest start of
a sequence that cannot be completed, in ASCII one for every byte.
-/

namespace CallTree
namespace Text

inductive Encoding where
  | utf8
  | latin1
  | ascii
  deriving DecidableEq, Repr

namespace Encoding

/-- The letters, numbers and dots of a name in lower case, with an underscore
for whatever stands between them.  `pending` tells that something does. -/
def canonicalFrom (pending started : Bool) : List Char → List Char
  | [] => []
  | c :: rest =>
      if isAlphanumeric c || c == '.' then
        (if pending && started then ['_'] else []) ++
          (if c.toNat < 0x80 then [c] else []) ++ canonicalFrom false true rest
      else canonicalFrom true started rest

def canonicalName (name : String) : String :=
  String.ofList (canonicalFrom false false (lower name).toList)

/-- The names that each encoding goes by. -/
def names : List (Encoding × List String) := [
  (.utf8, ["utf_8", "u8", "utf", "utf8", "utf8_ucs2", "utf8_ucs4", "cp65001"]),
  (.latin1, ["latin_1", "8859", "cp819", "csisolatin1", "ibm819", "iso8859", "iso8859_1",
    "iso_8859_1", "iso_8859_1_1987", "iso_ir_100", "l1", "latin", "latin1"]),
  (.ascii, ["ascii", "646", "ansi_x3.4_1968", "ansi_x3_4_1968", "ansi_x3.4_1986", "cp367",
    "csascii", "ibm367", "iso646_us", "iso_646.irv_1991", "iso_ir_6", "us", "us_ascii"])]

def ofName? (name : String) : Option Encoding :=
  (names.find? fun (_, aliases) => aliases.contains (canonicalName name)).map Prod.fst

def replacement : Char := '\ufffd'

/-- The bounds of the bytes that have to follow a first byte in UTF-8, or none
for a byte that starts no sequence. -/
def followers (first : Nat) : List (Nat × Nat) :=
  let any := (0x80, 0xbf)
  if 0xc2 ≤ first && first ≤ 0xdf then [any]
  else if first == 0xe0 then [(0xa0, 0xbf), any]
  else if first == 0xed then [(0x80, 0x9f), any]
  else if 0xe1 ≤ first && first ≤ 0xef then [any, any]
  else if first == 0xf0 then [(0x90, 0xbf), any, any]
  else if first == 0xf4 then [(0x80, 0x8f), any, any]
  else if 0xf1 ≤ first && first ≤ 0xf3 then [any, any, any]
  else []

/-- Read following bytes within their bounds.  Gives the code point if all are
there, and the number of bytes read. -/
def readFollowers (value count : Nat) : List (Nat × Nat) → List UInt8 → Option Nat × Nat
  | [], _ => (some value, count)
  | _ :: _, [] => (none, count)
  | (low, high) :: bounds, byte :: bytes =>
      if low ≤ byte.toNat && byte.toNat ≤ high then
        readFollowers (64 * value + (byte.toNat - 0x80)) (count + 1) bounds bytes
      else (none, count)

/-- The bits of the code point in the first byte of a sequence. -/
def firstBits (first : Nat) : Nat :=
  if first < 0xe0 then first - 0xc0 else if first < 0xf0 then first - 0xe0 else first - 0xf0

/-- The character that starts with a byte, and the number of further bytes it
takes. -/
def readCharacter (first : UInt8) (rest : List UInt8) : Char × Nat :=
  if first.toNat < 0x80 then (Char.ofNat first.toNat, 0)
  else if (followers first.toNat).isEmpty then (replacement, 0)
  else
    match readFollowers (firstBits first.toNat) 0 (followers first.toNat) rest with
    | (some code, count) => (Char.ofNat code, count)
    | (none, count) => (replacement, count)

def decodeUtf8 (bytes : List UInt8) : List Char :=
  match bytes with
  | [] => []
  | first :: rest =>
      let (c, count) := readCharacter first rest
      c :: decodeUtf8 (rest.drop count)
termination_by bytes.length
decreasing_by
  simp only [List.length_drop, List.length_cons]
  omega

def decode (bytes : List UInt8) : Encoding → List Char
  | utf8 => decodeUtf8 bytes
  | latin1 => bytes.map fun byte => Char.ofNat byte.toNat
  | ascii => bytes.map fun byte =>
      if byte.toNat < 0x80 then Char.ofNat byte.toNat else replacement

end Encoding

/-- Every line end becomes a line feed. -/
def uniformLineEnds : List Char → List Char
  | [] => []
  | '\r' :: '\n' :: rest => '\n' :: uniformLineEnds rest
  | '\r' :: rest => '\n' :: uniformLineEnds rest
  | c :: rest => c :: uniformLineEnds rest

end Text
end CallTree
