import CallTree.Text.Blank

/-!
# Parameter lists

A parameter list is cut at the commas that stand outside angle brackets and
parentheses.  Parameters are collapsed and empty ones are left out.
-/

namespace CallTree
namespace Declaration

/-- Split at the parenthesis that closes `depth` open ones: the text before it
and the text behind it. -/
def splitAtClosing (depth : Nat) : List Char → Option (List Char × List Char)
  | [] => none
  | c :: rest =>
      if c == ')' then
        if depth ≤ 1 then some ([], rest)
        else (splitAtClosing (depth - 1) rest).map fun (inside, after) => (c :: inside, after)
      else
        let depth := if c == '(' then depth + 1 else depth
        (splitAtClosing depth rest).map fun (inside, after) => (c :: inside, after)

theorem length_splitAtClosing {depth : Nat} {text inside after : List Char}
    (found : splitAtClosing depth text = some (inside, after)) :
    after.length < text.length := by
  induction text generalizing depth inside after with
  | nil => simp [splitAtClosing] at found
  | cons c rest ih =>
      rw [splitAtClosing] at found
      split at found
      · split at found
        · simp only [Option.some.injEq, Prod.mk.injEq] at found
          simp [← found.2]
        · obtain ⟨⟨x, y⟩, here, same⟩ := Option.map_eq_some_iff.1 found
          simp only [Prod.mk.injEq] at same
          have := ih here
          rw [← same.2, List.length_cons]
          omega
      · obtain ⟨⟨x, y⟩, here, same⟩ := Option.map_eq_some_iff.1 found
        simp only [Prod.mk.injEq] at same
        have := ih here
        rw [← same.2, List.length_cons]
        omega

/-- Cut at the commas at nesting `depth` zero or below.  Angle brackets and
parentheses share one count, which an unbalanced text may take below zero. -/
def cutAtCommas (depth : Int) : List Char → List (List Char)
  | [] => [[]]
  | c :: rest =>
      if c == ',' && depth ≤ 0 then [] :: cutAtCommas depth rest
      else
        let depth :=
          if c == '<' || c == '(' then depth + 1
          else if c == '>' || c == ')' then depth - 1
          else depth
        match cutAtCommas depth rest with
        | [] => [[c]]
        | first :: others => (c :: first) :: others

/-- The parameters in the text between a declaration's parentheses. -/
def splitParameters (text : List Char) : List (List Char) :=
  ((cutAtCommas 0 text).map Text.collapse).filter (!·.isEmpty)

end Declaration
end CallTree
