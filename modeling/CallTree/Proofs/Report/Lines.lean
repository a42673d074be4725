import CallTree.Report.Markdown
import CallTree.Text.Alphanumeric
import CallTree.Proofs.Text.Codes
import CallTree.Proofs.Text.Collapse
import CallTree.Proofs.Text.Pieces
import CallTree.Proofs.Tree.Leveled
import CallTree.Proofs.Tree.Levels
import Mathlib.Data.List.Forall2

/-!
# Lines of a report

A Markdown report has the lines of its header and those of one bullet for each
node.  A location shows the path that a file is resolved to as it is, so the names
of the directory and of the places that links lead to may cut a bullet into several
lines, and one of these may look like a bullet.  There are as many bullet lines as
nodes just where that does not happen, whichever blanks are taken for line ends.
-/

namespace CallTree
namespace Text

theorem not_mem_of_all {test : Char → Bool} {text : List Char} {c : Char}
    (all : text.all test = true) (other : test c = false) : c ∉ text := fun member => by
  rw [List.all_eq_true.mp all c member] at other
  exact Bool.noConfusion other

/-- A character that ends no line: one that is not blank, or a space. -/
def staysInLine (c : Char) : Bool :=
  c == ' ' || !isBlank c

theorem staysInLine_of_isDigit {c : Char} (digit : c.isDigit = true) : staysInLine c = true := by
  simp only [Char.isDigit, Bool.and_eq_true, decide_eq_true_eq, UInt32.le_iff_toNat_le] at digit
  have low : 48 ≤ c.toNat := digit.1
  have high : c.toNat ≤ 57 := digit.2
  simp only [staysInLine, isBlank, Bool.or_eq_true, Bool.not_eq_true', Bool.or_eq_false_iff,
    Bool.and_eq_false_iff, decide_eq_false_iff_not, beq_eq_false_iff_ne]
  right
  omega

theorem all_staysInLine_int (number : Int) :
    (toString number).toList.all staysInLine = true := by
  rw [Int.toString_eq_repr, List.all_eq_true]
  intro c member
  rcases isDigit_or_of_mem_repr member with digit | rfl
  · exact staysInLine_of_isDigit digit
  · decide

theorem all_staysInLine_nat (number : Nat) :
    (toString number).toList.all staysInLine = true := by
  rw [Nat.toString_eq_repr, Nat.repr_eq_ofList_toDigits, String.toList_ofList, List.all_eq_true]
  intro c member
  exact staysInLine_of_isDigit (Nat.isDigit_of_mem_toDigits (by decide) (by decide) member)

theorem all_staysInLine_of_identifier {name : List Char}
    (identifier : name.all isIdentifierPart = true) : name.all staysInLine = true := by
  rw [List.all_eq_true] at identifier ⊢
  intro c member
  simp [staysInLine, isBlank_eq_false_of_isIdentifierPart (identifier c member)]

end Text

/-- The names have the characters of identifiers, and the path is a single line. -/
structure Occurrence.IsPlain (occurrence : Occurrence) : Prop where
  className : occurrence.className.toList.all Text.isIdentifierPart = true
  method : occurrence.method.toList.all Text.isIdentifierPart = true
  file : '\n' ∉ occurrence.file.toList

instance (occurrence : Occurrence) : Decidable occurrence.IsPlain :=
  decidable_of_iff
    (occurrence.className.toList.all Text.isIdentifierPart = true ∧
      occurrence.method.toList.all Text.isIdentifierPart = true ∧
      '\n' ∉ occurrence.file.toList)
    ⟨fun ⟨className, method, file⟩ => ⟨className, method, file⟩,
      fun ⟨className, method, file⟩ => ⟨className, method, file⟩⟩

namespace Report

/-- Line ends: the newline, and perhaps other blanks than the space. -/
structure LineEnds (ends : Char → Bool) : Prop where
  newline : ends '\n' = true
  blank : ∀ c, ends c = true → Text.isBlank c = true ∧ c ≠ ' '

def isNewline (c : Char) : Bool :=
  c == '\n'

theorem isNewline_eq_false {line : List Char} (plain : '\n' ∉ line) :
    ∀ c ∈ line, isNewline c = false := by
  intro c member
  exact beq_eq_false_iff_ne.mpr fun same => plain (same ▸ member)

section Ends

variable {ends : Char → Bool} (lineEnds : LineEnds ends)

include lineEnds

theorem LineEnds.eq_false_of_staysInLine {c : Char} (stays : Text.staysInLine c = true) :
    ends c = false := by
  rw [Bool.eq_false_iff]
  intro cuts
  obtain ⟨blank, notSpace⟩ := lineEnds.blank c cuts
  simp [Text.staysInLine, blank, notSpace] at stays

theorem LineEnds.plain_of_all {line : List Char} (all : line.all Text.staysInLine = true) :
    ∀ c ∈ line, ends c = false :=
  fun c member => lineEnds.eq_false_of_staysInLine (List.all_eq_true.mp all c member)

/-- Lines that are followed by their newlines, cut at all line ends. -/
theorem LineEnds.splitOnP_flatMap (lines : List (List Char)) :
    (lines.flatMap (· ++ ['\n'])).splitOnP ends = lines.flatMap (·.splitOnP ends) ++ [[]] := by
  induction lines with
  | nil => exact List.splitOnP_nil
  | cons line lines ih =>
      rw [List.flatMap_cons, List.flatMap_cons, List.append_assoc, List.singleton_append,
        List.splitOnP_append_cons _ _ lineEnds.newline, ih, List.append_assoc]

end Ends

theorem lineEnds_isNewline : LineEnds isNewline where
  newline := rfl
  blank := by
    intro c newline
    rw [beq_iff_eq.mp newline]
    decide

/-- The lines in front of the bullets. -/
def headerLines (chain : Chain) (moment : String) : List (List Char) := [
  "# Java Method Call Chain Report".toList, [],
  "**Generated:** ".toList ++ moment.toList,
  "**Root method:** ".toList ++ chain.root.occurrence.className.toList ++ ['.'] ++
    chain.root.occurrence.method.toList,
  "**Direction:** ".toList ++ chain.direction.title.toList,
  "**Call chain depth:** ".toList ++ (toString chain.depth).toList,
  "**Total methods:** ".toList ++ (toString chain.total).toList, [],
  "## Call chain".toList, []]

theorem toList_header (chain : Chain) (moment : String) :
    (header chain moment).toList = (headerLines chain moment).flatMap (· ++ ['\n']) := by
  unfold header
  simp [headerLines]

theorem all_staysInLine_text (moment : Moment) :
    moment.text.toList.all Text.staysInLine = true := by
  have digits (value : Nat) : (twoDigits value).toList.all Text.staysInLine = true := by
    rw [twoDigits]
    split
    · rw [String.toList_append, List.all_append, Text.all_staysInLine_nat]
      decide
    · exact Text.all_staysInLine_nat value
  simp only [Moment.text, String.toList_append, List.all_append, Text.all_staysInLine_nat, digits]
  decide

theorem all_staysInLine_headerLines {chain : Chain} (plain : chain.root.occurrence.IsPlain)
    (moment : Moment) :
    ∀ line ∈ headerLines chain moment.text, line.all Text.staysInLine = true := by
  have inClass := Text.all_staysInLine_of_identifier plain.className
  have inName := Text.all_staysInLine_of_identifier plain.method
  have inTitle : chain.direction.title.toList.all Text.staysInLine = true := by
    cases chain.direction <;> decide
  rw [← List.all_eq_true]
  simp only [headerLines, List.all_cons, List.all_nil, List.all_append, inClass, inName, inTitle,
    Text.all_staysInLine_int, all_staysInLine_text]
  decide

/-- A bullet up to its location. -/
def bulletHead (level : Nat) (name : String) : List Char :=
  List.replicate (2 * level) ' ' ++ "- **".toList ++ name.toList ++ "** (".toList

def bulletMark (occurrence : Occurrence) : List Char :=
  if occurrence.isOutside then " (external)".toList else []

/-- A bullet without the newline behind it, where its location is given. -/
def bulletBody (place : Nat × Occurrence) (shown : String) : List Char :=
  bulletHead place.1 place.2.method ++ shown.toList ++ ')' :: bulletMark place.2

theorem toList_bullet (level : Nat) (occurrence : Occurrence) (shown : String) :
    (bullet level occurrence shown).toList = bulletBody (level, occurrence) shown ++ ['\n'] := by
  simp only [bullet, bulletBody, bulletHead, bulletMark, String.toList_append, String.toList_ofList]
  split <;> simp [List.append_assoc]

/-- The text is the bullet of a place, where the links of a disk are followed. -/
def IsBodyOf (links : Path.Links) (directory : Path) (place : Nat × Occurrence)
    (body : List Char) : Prop :=
  ∃ shown, location links directory place.2 = .ok shown ∧ body = bulletBody place shown

section Bodies

variable {links : Path.Links} {directory : Path}

mutual

theorem exists_bodies {level : Nat} : (tree : Tree) → {text : String} →
    bullets links directory level tree = .ok text →
    ∃ bodies, List.Forall₂ (IsBodyOf links directory) (tree.leveled level) bodies ∧
      text.toList = bodies.flatMap (· ++ ['\n'])
  | .node occurrence children, text, made => by
      rw [bullets] at made
      obtain ⟨shown, located, made⟩ := exists_of_bind_eq_ok made
      obtain ⟨below, made', made⟩ := exists_of_bind_eq_ok made
      cases made
      obtain ⟨bodies, bodiesOf, shape⟩ := exists_bodiesBelow children made'
      refine ⟨bulletBody (level, occurrence) shown :: bodies, ?_, ?_⟩
      · rw [Tree.leveled]
        exact .cons ⟨shown, located, rfl⟩ bodiesOf
      · rw [String.toList_append, toList_bullet, shape, List.flatMap_cons]

theorem exists_bodiesBelow {level : Nat} : (trees : List Tree) → {text : String} →
    bulletsBelow links directory level trees = .ok text →
    ∃ bodies, List.Forall₂ (IsBodyOf links directory) (Tree.leveledBelow level trees) bodies ∧
      text.toList = bodies.flatMap (· ++ ['\n'])
  | [], text, made => by
      cases made
      exact ⟨[], .nil, rfl⟩
  | tree :: trees, text, made => by
      rw [bulletsBelow] at made
      obtain ⟨first, madeFirst, made⟩ := exists_of_bind_eq_ok made
      obtain ⟨others, madeOthers, made⟩ := exists_of_bind_eq_ok made
      cases made
      obtain ⟨bodies, bodiesOf, shape⟩ := exists_bodies tree madeFirst
      obtain ⟨bodies', bodiesOf', shape'⟩ := exists_bodiesBelow trees madeOthers
      refine ⟨bodies ++ bodies', ?_, ?_⟩
      · rw [Tree.leveledBelow]
        exact List.rel_append bodiesOf bodiesOf'
      · rw [String.toList_append, shape, shape', List.flatMap_append]

end

/-- The lines of a report: those of the header, those of each bullet, and an empty
one behind the last newline. -/
theorem exists_splitOnP_markdown {chain : Chain} (plain : chain.root.occurrence.IsPlain)
    {moment : Moment} {text : String} (made : markdown links directory chain moment = .ok text) :
    ∃ bodies, List.Forall₂ (IsBodyOf links directory) (chain.root.leveled 0) bodies ∧
      ∀ ends : Char → Bool, LineEnds ends → text.toList.splitOnP ends =
        headerLines chain moment.text ++ (bodies.flatMap (·.splitOnP ends) ++ [[]]) := by
  rw [markdown, markdownWith] at made
  obtain ⟨list, listed, joined⟩ := exists_of_bind_eq_ok made
  have textEq : header chain moment.text ++ list = text := Except.ok.inj joined
  obtain ⟨bodies, bodiesOf, shape⟩ := exists_bodies chain.root listed
  refine ⟨bodies, bodiesOf, fun ends lineEnds => ?_⟩
  have headers : (headerLines chain moment.text).flatMap (·.splitOnP ends) =
      headerLines chain moment.text := by
    calc
      (headerLines chain moment.text).flatMap (·.splitOnP ends) =
          (headerLines chain moment.text).flatMap fun line => [line] :=
        List.flatMap_congr fun line member => List.splitOnP_eq_singleton
          (lineEnds.plain_of_all (all_staysInLine_headerLines plain moment line member))
      _ = headerLines chain moment.text := List.flatMap_singleton' _
  rw [← textEq, String.toList_append, toList_header, shape, ← List.flatMap_append,
    lineEnds.splitOnP_flatMap, List.flatMap_append, headers, List.append_assoc]

end Bodies

/-- A line with a bullet behind its indentation. -/
def isBulletLine (line : List Char) : Bool :=
  "- ".toList.isPrefixOf (line.dropWhile (· == ' '))

/-- No line of a location looks like a bullet behind its first one. -/
def StartsNoBullet (ends : Char → Bool) (shown : String) : Prop :=
  ∀ line ∈ (shown.toList.splitOnP ends).tail, isBulletLine line = false

instance (ends : Char → Bool) (shown : String) : Decidable (StartsNoBullet ends shown) :=
  inferInstanceAs
    (Decidable (∀ line ∈ (shown.toList.splitOnP ends).tail, isBulletLine line = false))

theorem isBulletLine_bulletHead_append (level : Nat) (name : String) (rest : List Char) :
    isBulletLine (bulletHead level name ++ rest) = true := by
  have shape : bulletHead level name ++ rest =
      List.replicate (2 * level) ' ' ++ ('-' :: ' ' :: ("**".toList ++ name.toList ++
        ("** (".toList ++ rest))) := by
    simp [bulletHead]
  rw [shape, isBulletLine, List.dropWhile_append_of_pos (by simp)]
  rfl

/-- The bracket behind a location makes no bullet of its last line. -/
theorem isBulletLine_append_bracket (line back : List Char) :
    isBulletLine (line ++ ')' :: back) = isBulletLine line := by
  induction line with
  | nil => rfl
  | cons c line ih =>
      by_cases space : c = ' '
      · subst space
        exact ih
      · have indented : (c == ' ') = false := beq_eq_false_iff_ne.mpr space
        cases line <;> simp [isBulletLine, indented, List.isPrefixOf]

theorem countP_headerLines (chain : Chain) (moment : String) :
    (headerLines chain moment).countP isBulletLine = 0 := by
  simp [headerLines, isBulletLine]

section Count

variable {ends : Char → Bool} (lineEnds : LineEnds ends)

include lineEnds

/-- A bullet is one bullet line, and its location may have others. -/
theorem countP_bulletBody {place : Nat × Occurrence} (plain : place.2.IsPlain) (shown : String) :
    ((bulletBody place shown).splitOnP ends).countP isBulletLine =
      1 + ((shown.toList.splitOnP ends).tail).countP isBulletLine := by
  have head : (bulletHead place.1 place.2.method).all Text.staysInLine = true := by
    have indent : (List.replicate (2 * place.1) ' ').all Text.staysInLine = true := by
      rw [List.all_replicate]
      exact ite_eq_left_iff.mpr fun _ => rfl
    simp only [bulletHead, List.all_append, indent,
      Text.all_staysInLine_of_identifier plain.method]
    decide
  have back : (')' :: bulletMark place.2).all Text.staysInLine = true := by
    rw [bulletMark]
    split <;> decide
  obtain ⟨first, others, cut, cutBody⟩ := Text.splitOnP_plain_append
    (lineEnds.plain_of_all head) (shown.toList ++ ')' :: bulletMark place.2)
  obtain ⟨front, last, cutShown, cutBack⟩ := Text.splitOnP_append_plain
    (lineEnds.plain_of_all back) shown.toList
  have tails : others.countP isBulletLine =
      ((shown.toList.splitOnP ends).tail).countP isBulletLine := by
    have othersEq : others =
        ((shown.toList ++ ')' :: bulletMark place.2).splitOnP ends).tail := by
      rw [cut, List.tail_cons]
    rw [othersEq, cutBack, cutShown]
    cases front with
    | nil => rfl
    | cons line front => simp [isBulletLine_append_bracket]
  rw [bulletBody, List.append_assoc, cutBody, List.countP_cons, isBulletLine_bulletHead_append,
    tails, Nat.add_comm]
  rfl

/-- There are as many bullet lines as bullets just if no location has one of its
own, and otherwise there are more. -/
theorem countP_bodies {links : Path.Links} {directory : Path} {places : List (Nat × Occurrence)}
    {bodies : List (List Char)} (plain : ∀ place ∈ places, place.2.IsPlain)
    (bodiesOf : List.Forall₂ (IsBodyOf links directory) places bodies) :
    places.length ≤ (bodies.flatMap (·.splitOnP ends)).countP isBulletLine ∧
      ((bodies.flatMap (·.splitOnP ends)).countP isBulletLine = places.length ↔
        ∀ place ∈ places, ∀ shown, location links directory place.2 = .ok shown →
          StartsNoBullet ends shown) := by
  induction bodiesOf with
  | nil => simp
  | @cons place body places bodies here _ ih =>
      obtain ⟨plainHere, plainLater⟩ := List.forall_mem_cons.mp plain
      obtain ⟨atLeast, exactly⟩ := ih plainLater
      obtain ⟨shown, located, rfl⟩ := here
      have noneHere : ((shown.toList.splitOnP ends).tail).countP isBulletLine = 0 ↔
          ∀ shown, location links directory place.2 = .ok shown →
            StartsNoBullet ends shown := by
        simp [located, StartsNoBullet, List.countP_eq_zero]
      rw [List.flatMap_cons, List.countP_append, countP_bulletBody lineEnds plainHere,
        List.length_cons, List.forall_mem_cons, ← noneHere, ← exactly]
      omega

end Count

theorem isPlain_of_mem_leveled {tree : Tree} (level : Nat)
    (plain : ∀ occurrence ∈ tree.preorder, occurrence.IsPlain) :
    ∀ place ∈ tree.leveled level, place.2.IsPlain := by
  intro place member
  apply plain
  rw [← Tree.map_snd_leveled level tree]
  exact List.mem_map_of_mem member

theorem root_isPlain {tree : Tree} (plain : ∀ occurrence ∈ tree.preorder, occurrence.IsPlain) :
    tree.occurrence.IsPlain :=
  plain _ (Tree.occurrence_mem_preorder (Tree.mem_level_zero.mpr rfl))

/-- A report has as many bullet lines as its tree has nodes just if none starts
within a location. -/
theorem countP_markdown_eq_size_iff {links : Path.Links} {directory : Path} {moment : Moment}
    {chain : Chain} (plain : ∀ occurrence ∈ chain.root.preorder, occurrence.IsPlain)
    {text : String} (made : markdown links directory chain moment = .ok text)
    {ends : Char → Bool} (lineEnds : LineEnds ends) :
    (text.toList.splitOnP ends).countP isBulletLine = chain.root.size ↔
      ∀ occurrence ∈ chain.root.preorder, ∀ shown,
        location links directory occurrence = .ok shown → StartsNoBullet ends shown := by
  have places := isPlain_of_mem_leveled 0 plain
  obtain ⟨bodies, bodiesOf, lines⟩ := exists_splitOnP_markdown (root_isPlain plain) made
  have behind : List.countP isBulletLine [[]] = 0 := rfl
  rw [lines ends lineEnds, List.countP_append, List.countP_append, countP_headerLines, behind,
    Nat.zero_add, Nat.add_zero, ← Tree.length_leveled 0,
    (countP_bodies lineEnds places bodiesOf).2, ← Tree.map_snd_leveled 0 chain.root]
  simp only [List.forall_mem_map]

end Report
end CallTree
