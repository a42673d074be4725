/-!
# Digests

The 64-bit XXH64 digest of a byte string, with seed zero.  All arithmetic is
modulo 2⁶⁴ and lanes are read with the lowest byte first.
-/

namespace CallTree
namespace Digest

def primeA : UInt64 := 11400714785074694791
def primeB : UInt64 := 14029467366897019727
def primeC : UInt64 := 1609587929392839161
def primeD : UInt64 := 9650029242287828579
def primeE : UInt64 := 2870177450012600261

def rotate (word : UInt64) (count : UInt64) : UInt64 :=
  (word <<< count) ||| (word >>> (64 - count))

/-- The number whose bytes are given, lowest first. -/
def littleEndian : List UInt8 → UInt64
  | [] => 0
  | byte :: rest => byte.toUInt64 ||| (littleEndian rest <<< 8)

/-- Mix one lane into an accumulator. -/
def mixLane (accumulator lane : UInt64) : UInt64 :=
  rotate (accumulator + lane * primeB) 31 * primeA

/-- The four accumulators of the stripes. -/
structure Stripes where
  a : UInt64 := primeA + primeB
  b : UInt64 := primeB
  c : UInt64 := 0
  d : UInt64 := 0 - primeA

/-- Mix one stripe of 32 bytes. -/
def Stripes.mix (stripes : Stripes) (bytes : List UInt8) : Stripes where
  a := mixLane stripes.a (littleEndian (bytes.take 8))
  b := mixLane stripes.b (littleEndian ((bytes.drop 8).take 8))
  c := mixLane stripes.c (littleEndian ((bytes.drop 16).take 8))
  d := mixLane stripes.d (littleEndian ((bytes.drop 24).take 8))

/-- Mix all whole stripes.  Gives the bytes that are left. -/
def Stripes.mixAll (stripes : Stripes) (bytes : List UInt8) : Stripes × List UInt8 :=
  if 32 ≤ bytes.length then (stripes.mix bytes).mixAll (bytes.drop 32) else (stripes, bytes)
termination_by bytes.length
decreasing_by
  simp only [List.length_drop]
  omega

def Stripes.merge (hash accumulator : UInt64) : UInt64 :=
  (hash ^^^ mixLane 0 accumulator) * primeA + primeD

/-- Join the four accumulators. -/
def Stripes.join (stripes : Stripes) : UInt64 :=
  let start :=
    rotate stripes.a 1 + rotate stripes.b 7 + rotate stripes.c 12 + rotate stripes.d 18
  [stripes.a, stripes.b, stripes.c, stripes.d].foldl Stripes.merge start

/-- Mix the bytes that fill no stripe: eight at a time, then four, then one. -/
def mixRest (hash : UInt64) (bytes : List UInt8) : UInt64 :=
  match bytes with
  | [] => hash
  | byte :: rest =>
      if 8 ≤ bytes.length then
        mixRest
          (rotate (hash ^^^ mixLane 0 (littleEndian (bytes.take 8))) 27 * primeA + primeD)
          (rest.drop 7)
      else if 4 ≤ bytes.length then
        mixRest
          (rotate (hash ^^^ (littleEndian (bytes.take 4) * primeA)) 23 * primeB + primeC)
          (rest.drop 3)
      else mixRest (rotate (hash ^^^ (byte.toUInt64 * primeE)) 11 * primeA) rest
termination_by bytes.length
decreasing_by
  all_goals simp only [List.length_drop, List.length_cons]
  all_goals omega

/-- Spread every bit over the whole word. -/
def avalanche (hash : UInt64) : UInt64 :=
  let hash := (hash ^^^ (hash >>> 33)) * primeB
  let hash := (hash ^^^ (hash >>> 29)) * primeC
  hash ^^^ (hash >>> 32)

/-- The digest of a byte string. -/
def hash (bytes : List UInt8) : UInt64 :=
  let (start, rest) :=
    if 32 ≤ bytes.length then
      let (stripes, rest) := Stripes.mixAll {} bytes
      (stripes.join, rest)
    else (primeE, bytes)
  avalanche (mixRest (start + bytes.length.toUInt64) rest)

end Digest
end CallTree
