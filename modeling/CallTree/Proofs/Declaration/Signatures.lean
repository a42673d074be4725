import CallTree.Declaration.Signature
import CallTree.Proofs.Declaration.Heads

/-!
# Signatures and the lines they are joined from

A signature is complete when a brace has been seen behind its first parenthesis.
Its code is the start of the declaration and the lines below it, with a space in
front of each.  So a name that stands before a parenthesis in the code does so
on one of the lines, unless it ends a line and its parenthesis starts what a
later line shows.
-/

namespace CallTree
namespace Declaration

open CallSite (IsGap)
open Text (EndsApart)

theorem brace_mem_of_afterParameters {text : List Char}
    (complete : Progress.afterParameters text = .complete) : '{' ∈ text := by
  induction text with
  | nil => cases complete
  | cons c text ih =>
      rw [Progress.afterParameters] at complete
      split at complete
      · rename_i isBrace
        rw [beq_iff_eq.mp isBrace]
        exact List.mem_cons_self
      · split at complete
        · cases complete
        · exact List.mem_cons_of_mem c (ih complete)

theorem suffix_of_splitAtClosing {depth : Nat} {text inside after : List Char}
    (found : splitAtClosing depth text = some (inside, after)) : after <:+ text := by
  induction text generalizing depth inside with
  | nil => cases found
  | cons c text ih =>
      rw [splitAtClosing] at found
      split at found
      · split at found
        · cases found
          exact List.suffix_cons c _
        · obtain ⟨⟨_, _⟩, here, same⟩ := Option.map_eq_some_iff.mp found
          cases same
          exact (ih here).trans (List.suffix_cons c text)
      · obtain ⟨⟨_, _⟩, here, same⟩ := Option.map_eq_some_iff.mp found
        cases same
        exact (ih here).trans (List.suffix_cons c text)

theorem brace_mem_of_closeList {text : List Char}
    (complete : Progress.closeList text = .inl .complete) : '{' ∈ text := by
  rw [Progress.closeList] at complete
  split at complete
  · cases complete
  · rename_i rest closing
    have restSuffix := suffix_of_splitAtClosing closing
    have decided (after : Progress.afterParameters rest = .complete) : '{' ∈ text :=
      restSuffix.subset (brace_mem_of_afterParameters after)
    split at complete
    · exact decided (Sum.inl.inj complete)
    · dsimp only at complete
      split at complete
      · exact decided (Sum.inl.inj complete)
      · split at complete <;> cases complete

theorem suffix_of_closeList {text inside : List Char}
    (further : Progress.closeList text = .inr inside) : inside <:+ text := by
  rw [Progress.closeList] at further
  split at further
  · cases further
  · rename_i rest closing
    split at further
    · cases further
    · rename_i following
      dsimp only at further
      split at further
      · cases further
      · split at further
        · cases further
        · cases further
          have insideSuffix : inside <:+ rest :=
            (List.suffix_cons _ _).trans (following ▸ List.dropWhile_suffix _)
          exact insideSuffix.trans (suffix_of_splitAtClosing closing)

theorem brace_mem_of_inParentheses {text : List Char}
    (complete : Progress.inParentheses text = .complete) : '{' ∈ text := by
  fun_induction Progress.inParentheses text with
  | case1 text progress found =>
      subst complete
      exact brace_mem_of_closeList found
  | case2 text inside found _ ih => exact (suffix_of_closeList found).subset (ih complete)

/-- A complete signature has a brace behind its first parenthesis. -/
theorem brace_mem_of_progress {code : List Char} (complete : progress code = .complete) :
    ∃ inside, code.dropWhile (· != '(') = '(' :: inside ∧ '{' ∈ inside := by
  rw [progress] at complete
  split at complete
  · cases complete
  · split at complete
    · cases complete
    · rename_i c inside opened
      have isParenthesis := List.head?_dropWhile_not (· != '(') code
      rw [opened] at isParenthesis
      obtain rfl : c = '(' := by simpa using isParenthesis
      exact ⟨inside, opened, brace_mem_of_inParentheses complete⟩

/-- The start of a declaration with the lines below it. -/
def joinedCode (start : List Char) (below : List Line) : List Char :=
  start ++ below.flatMap (' ' :: ·)

theorem joinLines_eq_some {code full : List Char} {joined last : Nat} {lines : List Line}
    (found : joinLines code joined lines = some (full, last)) :
    ∃ count ≤ lines.length, last = joined + count ∧
      full = joinedCode code (lines.take count) ∧ progress full = .complete := by
  induction lines generalizing code joined with
  | nil =>
      rw [joinLines] at found
      split at found
      · rename_i complete
        cases found
        exact ⟨0, Nat.le_refl 0, rfl, by simp [joinedCode], complete⟩
      · cases found
  | cons line lines ih =>
      rw [joinLines] at found
      split at found
      · rename_i complete
        cases found
        exact ⟨0, Nat.zero_le _, rfl, by simp [joinedCode], complete⟩
      · cases found
      · obtain ⟨count, bound, rfl, rfl, complete⟩ := ih found
        refine ⟨count + 1, Nat.succ_le_succ bound, by omega, ?_, complete⟩
        simp [joinedCode]

theorem signature?_eq_some {segment code : List Char} {below : List Line} {joined : Nat}
    (found : signature? segment below = some (code, joined)) :
    code = joinedCode (dropAnnotations (Text.trim segment)) (below.take joined) ∧
      progress code = .complete := by
  rw [signature?] at found
  split at found
  · cases found
  · obtain ⟨count, bound, lastEq, codeEq, complete⟩ := joinLines_eq_some found
    obtain rfl : joined = count := by omega
    have limited : joined ≤ lineLimit - 1 := bound.trans (List.length_take_le _ _)
    rw [List.take_take, Nat.min_eq_left limited] at codeEq
    exact ⟨codeEq, complete⟩

/-- The line shows the start of a declaration, with only blanks behind it, and
no identifier runs into it. -/
structure Shows (line start front behind : List Char) : Prop where
  line_eq : line = front ++ (start ++ behind)
  blank : IsGap behind
  apart : EndsApart front ∨ ∀ c, start.head? = some c → Text.isIdentifierPart c = false

theorem Shows.endsApart {line start front behind near name far : List Char}
    (shows : Shows line start front behind) (isName : IsName name)
    (start_eq : start = near ++ (name ++ far)) (apart : EndsApart near) :
    EndsApart (front ++ near) := by
  cases near with
  | cons c near => exact (Text.endsApart_append (by simp)).mpr apart
  | nil =>
      rw [List.append_nil]
      rcases shows.apart with frontApart | cut
      · exact frontApart
      · -- The name would start the declaration behind an identifier.
        cases name with
        | nil => exact absurd rfl isName.nonempty
        | cons c name =>
            have other := cut c (by rw [start_eq]; rfl)
            rw [isName.parts c List.mem_cons_self] at other
            cases other

theorem Shows.named {line start front behind name near gap far : List Char}
    (shows : Shows line start front behind) (isName : IsName name)
    (named : Extent.Named name start near gap far) :
    Extent.Named name line (front ++ near) gap (far ++ behind) := by
  refine ⟨?_, named.blank, shows.endsApart isName named.text_eq named.apart⟩
  rw [shows.line_eq, named.text_eq]
  simp

theorem isIdentifierPart_eq_false_of_isTypeNamePart {c : Char}
    (outside : isTypeNamePart c = false) : Text.isIdentifierPart c = false := by
  simp only [isTypeNamePart, Bool.or_eq_false_iff] at outside
  rw [Text.isIdentifierPart, outside.1.1, outside.2]
  rfl

/-- Where no blank follows the name of an annotation, no identifier does. -/
theorem annotation_endsApart (rest : List Char) :
    EndsApart ('@' :: (rest.takeWhile isTypeNamePart ++
        (rest.dropWhile isTypeNamePart).takeWhile Text.isBlank)) ∨
      ∀ c, (Text.dropBlanks (rest.dropWhile isTypeNamePart)).head? = some c →
        Text.isIdentifierPart c = false := by
  cases blanksEq : (rest.dropWhile isTypeNamePart).takeWhile Text.isBlank with
  | cons blank blanks =>
      have blank : IsGap (blank :: blanks) := by
        rw [← blanksEq]
        exact fun c member => List.mem_takeWhile_imp member
      rw [← List.cons_append]
      exact .inl ((Text.endsApart_append (by simp)).mpr (.of_isGap blank))
  | nil =>
      have kept : Text.dropBlanks (rest.dropWhile isTypeNamePart) =
          rest.dropWhile isTypeNamePart := by
        have split := List.takeWhile_append_dropWhile (p := Text.isBlank)
          (l := rest.dropWhile isTypeNamePart)
        rwa [blanksEq, List.nil_append] at split
      refine .inr fun c head => isIdentifierPart_eq_false_of_isTypeNamePart ?_
      have outside := List.head?_dropWhile_not isTypeNamePart rest
      rw [kept] at head
      simpa only [head] using outside

theorem exists_shows_dropAnnotations (text : List Char) :
    ∃ front, Shows text (dropAnnotations text) front [] := by
  have whole (text : List Char) : ∃ front, Shows text text front [] :=
    ⟨[], by simp, nofun, .inl nofun⟩
  fun_induction dropAnnotations text with
  | case1 rest unnamed => exact whole _
  | case3 text other => exact whole _
  | case2 rest named ih =>
      obtain ⟨front, shows⟩ := ih
      have after_eq := shows.line_eq
      rw [List.append_nil] at after_eq
      refine ⟨'@' :: (rest.takeWhile isTypeNamePart ++
        ((rest.dropWhile isTypeNamePart).takeWhile Text.isBlank ++ front)), ?_, nofun, ?_⟩
      · rw [List.append_nil, List.cons_append, List.append_assoc, List.append_assoc, ← after_eq,
          Text.dropBlanks, List.takeWhile_append_dropWhile, List.takeWhile_append_dropWhile]
      · rcases shows.apart with frontApart | cut
        · rw [← List.append_assoc, ← List.cons_append]
          cases front with
          | cons c front => exact .inl ((Text.endsApart_append (by simp)).mpr frontApart)
          | nil =>
              rw [List.append_nil]
              refine (annotation_endsApart rest).imp_right fun cut c head => cut c ?_
              rw [after_eq]
              exact head
        · exact .inr cut

/-- A line that ends with a segment shows the start of the segment's
declaration. -/
theorem exists_shows {line front segment : List Char} (apart : EndsApart front)
    (line_eq : line = front ++ Text.dropBlanks segment) :
    ∃ front behind, Shows line (dropAnnotations (Text.trim segment)) front behind := by
  obtain ⟨annotations, shows⟩ := exists_shows_dropAnnotations (Text.trim segment)
  obtain ⟨behind, blank, trimmed⟩ := Text.exists_dropEndWhile_append Text.isBlank
    (Text.dropBlanks segment)
  refine ⟨front ++ annotations, behind, ?_, blank, ?_⟩
  · rw [line_eq, trimmed, ← Text.trim]
    nth_rewrite 1 [shows.line_eq]
    simp
  · exact shows.apart.imp_left apart.append

/-- A name is the last thing that the line shows. -/
def endsWithName (name line : List Char) : Bool :=
  let shown := Text.dropEndWhile Text.isBlank line
  name.isSuffixOf shown &&
    (shown.take (shown.length - name.length)).getLast?.all (!Text.isIdentifierPart ·)

/-- The name ends one of the lines, and a parenthesis is what the lines behind it
show first. -/
def isParted (name : List Char) : List Line → Bool
  | [] => false
  | line :: later =>
      (endsWithName name line && later.flatten.find? (!Text.isBlank ·) == some '(') ||
        isParted name later

theorem endsWithName_iff {name line : List Char} (isName : IsName name) :
    endsWithName name line = true ↔
      ∃ front gap, line = front ++ (name ++ gap) ∧ EndsApart front ∧ IsGap gap := by
  rw [endsWithName, Bool.and_eq_true, List.isSuffixOf_iff_suffix]
  constructor
  · rintro ⟨⟨front, shownEq⟩, apart⟩
    obtain ⟨gap, blank, lineEq⟩ := Text.exists_dropEndWhile_append Text.isBlank line
    rw [← shownEq, List.length_append, Nat.add_sub_cancel, List.take_left] at apart
    refine ⟨front, gap, ?_, ?_, blank⟩
    · rw [← List.append_assoc, shownEq]
      exact lineEq
    · intro c last
      simpa [last] using apart
  · rintro ⟨front, gap, rfl, apart, blank⟩
    have shownEq : Text.dropEndWhile Text.isBlank (front ++ (name ++ gap)) = front ++ name := by
      have last := List.getLast?_eq_some_getLast isName.nonempty
      rw [← List.append_assoc, Text.dropEndWhile_append blank]
      refine Text.dropEndWhile_eq_self (c := name.getLast isName.nonempty) ?_
        (Text.isBlank_eq_false_of_isIdentifierPart (isName.parts _ (List.getLast_mem _)))
      rw [List.getLast?_append_of_ne_nil front isName.nonempty, last]
    rw [shownEq]
    refine ⟨List.suffix_append front name, ?_⟩
    rw [List.length_append, Nat.add_sub_cancel, List.take_left]
    cases last : front.getLast? with
    | none => rfl
    | some c => simp [apart c last]

theorem isParted_of_shows {line start front behind name : List Char} {below : List Line}
    (shows : Shows line start front behind) (isName : IsName name)
    (parted : isParted name (start :: below) = true) : isParted name (line :: below) = true := by
  rw [isParted, Bool.or_eq_true, Bool.and_eq_true] at parted ⊢
  refine parted.imp_left fun ⟨ends, opens⟩ => ⟨?_, opens⟩
  obtain ⟨near, gap, startEq, apart, blank⟩ := (endsWithName_iff isName).mp ends
  refine (endsWithName_iff isName).mpr ⟨front ++ near, gap ++ behind, ?_,
    shows.endsApart isName startEq apart, List.forall_mem_append.mpr ⟨blank, shows.blank⟩⟩
  rw [shows.line_eq, startEq]
  simp

theorem find?_visible_flatMap (lines : List Line) :
    (lines.flatMap (' ' :: ·)).find? (!Text.isBlank ·) =
      lines.flatten.find? (!Text.isBlank ·) := by
  induction lines with
  | nil => rfl
  | cons line lines ih =>
      rw [List.flatMap_cons, List.flatten_cons, List.find?_append, List.find?_append, ih,
        List.find?_cons_of_neg (by decide)]

theorem brace_mem_of_joinedCode {start : List Char} {below : List Line}
    (brace : '{' ∈ joinedCode start below) : '{' ∈ start ++ below.flatten := by
  rcases List.mem_append.mp brace with here | later
  · exact List.mem_append_left _ here
  · obtain ⟨line, lineMem, inLine⟩ := List.mem_flatMap.mp later
    have inLine : '{' ∈ line := by simpa using inLine
    exact List.mem_append_right _ (List.mem_flatten_of_mem lineMem inLine)

theorem joinedCode_cons (start line : List Char) (below : List Line) :
    joinedCode start (line :: below) = start ++ ' ' :: joinedCode line below := by
  simp [joinedCode]

theorem isParted_of_start {name start front near gap behind line : List Char}
    {below : List Line} (isName : IsName name) (start_eq : start = front ++ (name ++ near))
    (apart : EndsApart front) (nearBlank : IsGap near) (gapBlank : IsGap gap)
    (below_eq : ' ' :: joinedCode line below = gap ++ '(' :: behind) :
    isParted name (start :: line :: below) = true := by
  have hidden : gap.find? (!Text.isBlank ·) = none :=
    List.find?_eq_none.mpr fun c member => by simp [gapBlank c member]
  have opens : (line :: below).flatten.find? (!Text.isBlank ·) = some '(' := by
    calc (line :: below).flatten.find? (!Text.isBlank ·)
        = (' ' :: joinedCode line below).find? (!Text.isBlank ·) := by
          rw [← find?_visible_flatMap]
          rfl
      _ = some '(' := by
          rw [below_eq, List.find?_append, hidden, Option.none_or]
          rfl
  have ends := (endsWithName_iff isName).mpr ⟨front, near, start_eq, apart, nearBlank⟩
  rw [isParted, ends, opens]
  rfl

theorem exists_named_of_joinedCode {name start front gap behind : List Char}
    {below : List Line} (isName : IsName name)
    (named : Extent.Named name (joinedCode start below) front gap behind) :
    isParted name (start :: below) = true ∨
      ∃ skipped line later near gap far, start :: below = skipped ++ line :: later ∧
        Extent.Named name line near gap far ∧ behind = joinedCode far later := by
  have noSpace : ' ' ∉ name := by
    intro member
    exact absurd (isName.parts ' ' member) (by decide)
  induction below generalizing start front with
  | nil =>
      rw [joinedCode, List.flatMap_nil, List.append_nil] at named
      exact .inr ⟨[], start, [], front, gap, behind, rfl, named, by simp [joinedCode]⟩
  | cons line below ih =>
      obtain ⟨text_eq, blank, apart⟩ := named
      rw [joinedCode_cons] at text_eq
      rcases List.append_eq_append_iff.mp text_eq with
        ⟨before, rfl, rest_eq⟩ | ⟨inStart, rfl, rest_eq⟩
      · -- The name stands on one of the lines below.
        cases before with
        | nil =>
            cases name with
            | nil => exact absurd rfl isName.nonempty
            | cons c name =>
                obtain ⟨rfl, _⟩ := List.cons.inj rest_eq
                exact absurd List.mem_cons_self noSpace
        | cons c before =>
            obtain ⟨rfl, below_eq⟩ := List.cons.inj rest_eq
            have beforeApart : EndsApart before := by
              cases before with
              | nil => exact nofun
              | cons c before =>
                  rw [List.append_cons] at apart
                  exact (Text.endsApart_append (by simp)).mp apart
            rcases ih ⟨below_eq, blank, beforeApart⟩ with
              parted | ⟨skipped, holder, later, near, nearGap, far, lines_eq, found⟩
            · refine .inl ?_
              rw [isParted, parted, Bool.or_true]
            · exact .inr ⟨start :: skipped, holder, later, near, nearGap, far,
                by rw [lines_eq]; rfl, found⟩
      · rcases List.append_eq_append_iff.mp rest_eq with
          ⟨near, rfl, gap_eq⟩ | ⟨part, rfl, below_eq⟩
        · rcases List.append_eq_append_iff.mp gap_eq with
            ⟨far, rfl, behind_eq⟩ | ⟨further, rfl, below_eq⟩
          · cases far with
            | nil => cases behind_eq
            | cons c far =>
                obtain ⟨rfl, rfl⟩ := List.cons.inj behind_eq
                exact .inr ⟨[], _, line :: below, front, gap, far, rfl, ⟨rfl, blank, apart⟩,
                  (joinedCode_cons far line below).symm⟩
          · obtain ⟨nearBlank, furtherBlank⟩ := List.forall_mem_append.mp blank
            exact .inl (isParted_of_start isName rfl apart nearBlank furtherBlank below_eq)
        · cases part with
          | nil =>
              rw [List.append_nil] at isName ⊢
              have atEnd : front ++ inStart = front ++ (inStart ++ []) := by rw [List.append_nil]
              exact .inl (isParted_of_start isName atEnd apart nofun blank below_eq)
          | cons c part =>
              obtain ⟨rfl, _⟩ := List.cons.inj below_eq
              exact absurd (by simp) noSpace

end Declaration
end CallTree
