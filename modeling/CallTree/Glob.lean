/-!
# Globs

A glob matches a whole text.  A star stands for any characters, a question mark
for one, and a bracketed set for one of its characters or, behind `!`, for any
other.  A bracket that is never closed stands for itself.
-/

namespace CallTree

/-- A character or a range of characters in a bracketed set. -/
inductive GlobItem where
  | single (c : Char)
  | range (first last : Char)
  deriving DecidableEq, Repr

inductive GlobToken where
  | star
  | any
  | literal (c : Char)
  | set (negated : Bool) (items : List GlobItem)
  deriving DecidableEq, Repr

namespace Glob

/-- The inside of a bracketed set and the pattern behind it, for the pattern
behind the opening bracket.  A closing bracket right at the start, or right
behind `!`, belongs to the set. -/
def splitSet? (pattern : List Char) : Option (List Char × List Char) :=
  let lead :=
    match pattern with
    | '!' :: ']' :: _ => 2
    | '!' :: _ => 1
    | ']' :: _ => 1
    | _ => 0
  let inside := pattern.take lead ++ (pattern.drop lead).takeWhile (· != ']')
  match pattern.drop inside.length with
  | ']' :: rest => some (inside, rest)
  | _ => none

theorem length_splitSet? {pattern inside rest : List Char}
    (found : splitSet? pattern = some (inside, rest)) : rest.length < pattern.length := by
  simp only [splitSet?] at found
  split at found
  · rename_i closed
    have bound := congrArg List.length closed
    simp only [List.length_drop, List.length_cons] at bound
    cases found
    omega
  · cases found

/-- Cut the inside of a set at the hyphens that make ranges.  Such a hyphen has
`lead` characters before it in the first piece, and two in later ones. -/
def cutRanges (lead : Nat) (inside : List Char) : List (List Char) :=
  match found : (inside.drop lead).dropWhile (· != '-') with
  | [] => [inside]
  | _ :: rest =>
      have : rest.length < inside.length := by
        have dropped := (List.dropWhile_sublist (l := inside.drop lead) (· != '-')).length_le
        rw [found, List.length_cons, List.length_drop] at dropped
        omega
      inside.take (inside.length - rest.length - 1) :: cutRanges 2 rest
termination_by inside.length

/-- A hyphen at the end of a set stands for itself. -/
def keepLastHyphen : List (List Char) → List (List Char)
  | [] => []
  | [piece] => [piece]
  | [piece, []] => [piece ++ ['-']]
  | piece :: rest => piece :: keepLastHyphen rest

/-- Remove a range whose ends are in the wrong order, with both ends. -/
def joinPieces (piece : List Char) : List (List Char) → List (List Char)
  | [] => [piece]
  | next :: rest =>
      match piece.getLast?, next.head? with
      | some last, some first =>
          if first < last then (piece.dropLast ++ next.drop 1) :: rest
          else piece :: next :: rest
      | _, _ => piece :: next :: rest

/-- Remove the empty ranges, the last one first. -/
def dropEmptyRanges (pieces : List (List Char)) : List (List Char) :=
  pieces.foldr joinPieces []

/-- The items of the pieces of a set.  A hyphen between two pieces makes a range
of the characters around it, or stands for itself where one is missing. -/
def setItems : List (List Char) → List GlobItem
  | [] => []
  | [piece] => piece.map .single
  | piece :: [] :: rest => piece.map .single ++ .single '-' :: setItems ([] :: rest)
  | piece :: (first :: next) :: rest =>
      match piece.getLast? with
      | none => .single '-' :: setItems ((first :: next) :: rest)
      | some last =>
          piece.dropLast.map .single ++ .range last first :: setItems (next :: rest)
termination_by pieces => pieces.flatten.length + pieces.length
decreasing_by
  all_goals
    simp only [List.flatten_cons, List.length_append, List.length_cons, List.length_nil]
    omega

/-- The token for a set with the given inside.  An empty set matches nothing and
the rest of an empty set matches everything. -/
def setToken (inside : List Char) : GlobToken :=
  let negating := inside.head? == some '!'
  let pieces :=
    if inside.contains '-' then
      dropEmptyRanges (keepLastHyphen (cutRanges (if negating then 2 else 1) inside))
    else [inside]
  match pieces with
  | [['!']] => .any
  | ('!' :: piece) :: rest => .set true (setItems (piece :: rest))
  | pieces => .set false (setItems pieces)

/-- The tokens of a pattern. -/
def tokens (pattern : List Char) : List GlobToken :=
  match pattern with
  | [] => []
  | c :: rest =>
      if c == '*' then .star :: tokens rest
      else if c == '?' then .any :: tokens rest
      else if c == '[' then
        match found : splitSet? rest with
        | some (inside, behind) =>
            have := length_splitSet? found
            setToken inside :: tokens behind
        | none => .literal c :: tokens rest
      else .literal c :: tokens rest
termination_by pattern.length

def itemMatches (c : Char) : GlobItem → Bool
  | .single item => c == item
  | .range first last => first ≤ c && c ≤ last

/-- The rests of a text, the longest first. -/
def rests : List Char → List (List Char)
  | [] => [[]]
  | c :: rest => (c :: rest) :: rests rest

/-- The tokens match the whole text. -/
def tokensMatch : List GlobToken → List Char → Bool
  | [], text => text.isEmpty
  | .star :: tokens, text => (rests text).any (tokensMatch tokens)
  | _ :: _, [] => false
  | .any :: tokens, _ :: text => tokensMatch tokens text
  | .literal item :: tokens, c :: text => c == item && tokensMatch tokens text
  | .set negated items :: tokens, c :: text =>
      items.any (itemMatches c) != negated && tokensMatch tokens text

/-- A text matches a pattern. -/
def globMatches (pattern text : String) : Bool :=
  tokensMatch (tokens pattern.toList) text.toList

end Glob
end CallTree
