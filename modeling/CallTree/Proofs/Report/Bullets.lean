import CallTree.Proofs.Path.Parts
import CallTree.Proofs.Report.Lines

/-!
# Bullets of a report

Where a bullet has several lines, it is still known where it ends: the two slashes
of an address stand on its first line only, and no bullet without an address ends
with the mark in front of an address's line number.  So the lines of a report
determine its bullets, and the levels and names of the bullets determine the tree.
-/

namespace CallTree
namespace Report

/-- A character that may close a bullet: one of a line number, of the bracket or of
the word for outside methods. -/
def closes (c : Char) : Bool :=
  c.isDigit || "-) (external)".toList.contains c

/-- The last character of a line in front of those that close a bullet.  An address
has a number sign there, a path a colon, and no place its first letter. -/
def lastMark (line : List Char) : Option Char :=
  line.reverse.find? (!closes ·)

theorem lastMark_append_cons (front : List Char) {c : Char} {back : List Char}
    (mark : closes c = false) (closing : back.all closes = true) :
    lastMark (front ++ c :: back) = some c := by
  have skipped : back.reverse.find? (!closes ·) = none := by simpa using closing
  rw [lastMark, List.reverse_append, List.reverse_cons, List.find?_append, List.find?_append,
    skipped]
  simp [mark]

/-- What tells the lines of a bullet from those of others.  Only an address has two
slashes in a row, and only in front of its path. -/
inductive IsBullet : List (List Char) → Prop
  | address {first : List Char} {rest : List (List Char)} :
      ¬Path.SingleSlashes first → (∀ line ∈ rest, Path.SingleSlashes line) →
      (∀ last ∈ (first :: rest).getLast?, lastMark last = some '#') → IsBullet (first :: rest)
  | plain {line : List Char} : lastMark line ≠ some '#' → IsBullet [line]

/-- No bullets start with the lines that a bullet has left behind its first one. -/
theorem flatten_ne_append {tail : List (List Char)} (nonempty : tail ≠ [])
    (single : ∀ line ∈ tail, Path.SingleSlashes line)
    (ends : ∀ last ∈ tail.getLast?, lastMark last = some '#') (rest : List (List Char))
    {groups : List (List (List Char))} (bullets : ∀ group ∈ groups, IsBullet group) :
    groups.flatten ≠ tail ++ rest := by
  induction groups generalizing tail with
  | nil =>
      intro same
      exact nonempty (List.append_eq_nil_iff.mp same.symm).1
  | cons group groups ih =>
      obtain ⟨here, later⟩ := List.forall_mem_cons.mp bullets
      obtain ⟨line, tail, rfl⟩ := List.exists_cons_of_ne_nil nonempty
      obtain ⟨singleHere, singleLater⟩ := List.forall_mem_cons.mp single
      intro same
      rw [List.flatten_cons] at same
      cases here with
      | address double _ _ =>
          -- The first of the lines left would have the slashes of an address.
          rw [List.cons_append, List.cons_append, List.cons.injEq] at same
          obtain ⟨rfl, -⟩ := same
          exact double singleHere
      | plain other =>
          rw [List.singleton_append, List.cons_append, List.cons.injEq] at same
          obtain ⟨rfl, same⟩ := same
          -- A bullet without an address takes one line, which is not the last one.
          cases tail with
          | nil => exact other (ends _ rfl)
          | cons next tail =>
              exact ih (by simp) singleLater (by simpa using ends) later same

theorem IsBullet.ne_nil {group : List (List Char)} (bullet : IsBullet group) : group ≠ [] := by
  cases bullet <;> exact List.cons_ne_nil _ _

/-- Only a bullet with an address goes on behind its first line. -/
theorem IsBullet.tail {front tail : List (List Char)} (bullet : IsBullet (front ++ tail))
    (started : front ≠ []) (nonempty : tail ≠ []) :
    (∀ line ∈ tail, Path.SingleSlashes line) ∧
      ∀ last ∈ tail.getLast?, lastMark last = some '#' := by
  obtain ⟨first, front, rfl⟩ := List.exists_cons_of_ne_nil started
  rw [List.cons_append] at bullet
  generalize cut : front ++ tail = rest at bullet
  cases bullet with
  | address _ single ends =>
      subst rest
      refine ⟨fun line member => single line (List.mem_append_right front member), ?_⟩
      rw [← List.cons_append, List.getLast?_append_of_ne_nil _ nonempty] at ends
      exact ends
  | plain => exact absurd (List.append_eq_nil_iff.mp cut).2 nonempty

/-- A bullet is not cut short where other bullets can follow. -/
theorem IsBullet.eq_nil_of_append {front tail rest : List (List Char)}
    (bullet : IsBullet (front ++ tail)) (started : front ≠ [])
    {groups : List (List (List Char))} (bullets : ∀ group ∈ groups, IsBullet group)
    (same : groups.flatten = tail ++ rest) : tail = [] := by
  by_contra nonempty
  obtain ⟨single, ends⟩ := bullet.tail started nonempty
  exact flatten_ne_append nonempty single ends rest bullets same

/-- The lines of bullets determine where each bullet ends. -/
theorem eq_of_flatten_eq {first second : List (List (List Char))}
    (firstBullets : ∀ group ∈ first, IsBullet group)
    (secondBullets : ∀ group ∈ second, IsBullet group) (same : first.flatten = second.flatten) :
    first = second := by
  induction first generalizing second with
  | nil =>
      cases second with
      | nil => rfl
      | cons group second =>
          have nonempty := (secondBullets group List.mem_cons_self).ne_nil
          simp [nonempty] at same
  | cons group first ih =>
      obtain ⟨here, firstLater⟩ := List.forall_mem_cons.mp firstBullets
      cases second with
      | nil => simp [here.ne_nil] at same
      | cons other second =>
          obtain ⟨there, secondLater⟩ := List.forall_mem_cons.mp secondBullets
          rw [List.flatten_cons, List.flatten_cons, List.append_eq_append_iff] at same
          rcases same with ⟨tail, rfl, later⟩ | ⟨tail, rfl, later⟩
          · obtain rfl := there.eq_nil_of_append here.ne_nil firstLater later
            rw [List.append_nil, ih firstLater secondLater (by simpa using later)]
          · obtain rfl := here.eq_nil_of_append there.ne_nil secondLater later
            rw [List.append_nil, ih firstLater secondLater (by simpa using later.symm)]

/-- What is printed behind the mark in front of a line number. -/
def closing (occurrence : Occurrence) : List Char :=
  (toString occurrence.line).toList ++ ')' :: bulletMark occurrence

theorem all_bulletMark (occurrence : Occurrence) :
    (bulletMark occurrence).all closes = true := by
  rw [bulletMark]
  split <;> decide

theorem all_closing (occurrence : Occurrence) : (closing occurrence).all closes = true := by
  have number : (toString occurrence.line).toList.all closes = true := by
    rw [Int.toString_eq_repr, List.all_eq_true]
    intro c member
    rcases Text.isDigit_or_of_mem_repr member with digit | rfl
    · simp [closes, digit]
    · decide
  have bracket : closes ')' = true := by decide
  simp only [closing, List.all_append, List.all_cons, number, bracket, all_bulletMark,
    Bool.and_self]

/-- A location is no place, a path with its line, or an address with its line. -/
theorem location_cases {links : Path.Links} {directory : String} {occurrence : Occurrence}
    {shown : String} (located : location links (.ofString directory) occurrence = .ok shown) :
    shown.toList = "External".toList ∨
      shown.toList = occurrence.file.toList ++ ':' :: (toString occurrence.line).toList ∨
      ∃ path, Path.SingleSlashes path ∧
        shown.toList = "file://".toList ++ (path ++ '#' :: (toString occurrence.line).toList) := by
  rw [location] at located
  split at located
  · left
    cases located
    rfl
  split at located
  · rename_i same
    left
    cases located
    rw [beq_iff_eq.mp same]
    rfl
  right
  split at located
  · rename_i address found
    right
    cases located
    rw [Path.address] at found
    split at found
    · cases found
    · obtain ⟨resolved, led, made⟩ := exists_of_bind_eq_ok found
      cases made
      exact ⟨_, Path.singleSlashes_of_resolve led, by simp⟩
  · left
    split at located
    · cases located
      simp
    · cases located

theorem newline_not_mem_bulletHead {occurrence : Occurrence} (plain : occurrence.IsPlain)
    (level : Nat) : '\n' ∉ bulletHead level occurrence.method := by
  have inName : '\n' ∉ occurrence.method.toList :=
    Text.not_mem_of_all plain.method (by decide)
  simp [bulletHead, inName]

/-- A bullet with another mark than that of an address is a single line. -/
theorem isBullet_of_mark {front back : List Char} {mark : Char} (plain : '\n' ∉ front)
    (other : closes mark = false) (inLine : mark ≠ '\n') (noAddress : mark ≠ '#')
    (closing : back.all closes = true) :
    IsBullet ((front ++ mark :: back).splitOnP isNewline) := by
  have inBack : '\n' ∉ back := Text.not_mem_of_all closing (by decide)
  rw [List.splitOnP_eq_singleton (isNewline_eq_false (by simp [plain, inLine.symm, inBack]))]
  refine .plain ?_
  rw [lastMark_append_cons front other closing]
  simpa using noAddress

/-- The two slashes that start an address stand on its first line, and the mark of
an address on its last. -/
theorem isBullet_address {front path back : List Char} (plain : '\n' ∉ front)
    (single : Path.SingleSlashes path) (closing : back.all closes = true) :
    IsBullet ((front ++ "file://".toList ++ (path ++ '#' :: back)).splitOnP isNewline) := by
  have endInLine : '\n' ∉ '#' :: back :=
    List.not_mem_cons_of_ne_of_not_mem (by decide) (Text.not_mem_of_all closing (by decide))
  have singleAll : Path.SingleSlashes (path ++ '#' :: back) :=
    single.append_plain
      (List.not_mem_cons_of_ne_of_not_mem (by decide) (Text.not_mem_of_all closing (by decide)))
  have startInLine : '\n' ∉ front ++ "file://".toList := by simp [plain]
  obtain ⟨first, rest, cutAddress, cut⟩ :=
    Text.splitOnP_plain_append (isNewline_eq_false startInLine) (path ++ '#' :: back)
  obtain ⟨others, last, -, cutEnd⟩ :=
    Text.splitOnP_append_plain (isNewline_eq_false endInLine) (front ++ "file://".toList ++ path)
  rw [cut]
  refine .address ?_ ?_ ?_
  · apply Path.not_singleSlashes_of_infix
    exact ⟨front ++ "file:".toList, first, by simp⟩
  · intro line member
    have inAddress : line ∈ (path ++ '#' :: back).splitOnP isNewline := by
      rw [cutAddress]
      exact List.mem_cons_of_mem first member
    exact singleAll.infix (Text.infix_of_mem_splitOnP inAddress)
  · rw [← cut, ← List.append_assoc, cutEnd, List.getLast?_append_of_ne_nil _ (by simp)]
    rintro _ ⟨⟩
    exact lastMark_append_cons last (by decide) closing

section Plain

variable {links : Path.Links} {directory : String} {place : Nat × Occurrence} {body : List Char}

/-- The lines of a plain occurrence's bullet. -/
theorem isBullet_of_isBodyOf (plain : place.2.IsPlain)
    (isBody : IsBodyOf links (.ofString directory) place body) :
    IsBullet (body.splitOnP isNewline) := by
  obtain ⟨level, occurrence⟩ := place
  have head := newline_not_mem_bulletHead plain level
  obtain ⟨shown, located, rfl⟩ := isBody
  rw [bulletBody]
  rcases location_cases located with same | same | ⟨path, single, same⟩
  · have inside : ("xternal".toList ++ ')' :: bulletMark occurrence).all closes = true := by
      rw [List.all_append, List.all_cons, all_bulletMark]
      decide
    have shape : bulletHead level occurrence.method ++ shown.toList ++
        ')' :: bulletMark occurrence = bulletHead level occurrence.method ++
          'E' :: ("xternal".toList ++ ')' :: bulletMark occurrence) := by
      rw [same, List.append_assoc]
      rfl
    rw [shape]
    exact isBullet_of_mark head (by decide) (by decide) (by decide) inside
  · have shape : bulletHead level occurrence.method ++ shown.toList ++
        ')' :: bulletMark occurrence =
          bulletHead level occurrence.method ++ occurrence.file.toList ++
            ':' :: closing occurrence := by
      simp [same, closing]
    rw [shape]
    refine isBullet_of_mark ?_ (by decide) (by decide) (by decide) (all_closing occurrence)
    exact List.not_mem_append head plain.file
  · have shape : bulletHead level occurrence.method ++ shown.toList ++
        ')' :: bulletMark occurrence =
          bulletHead level occurrence.method ++ "file://".toList ++
            (path ++ '#' :: closing occurrence) := by
      simp [same, closing]
    rw [shape]
    exact isBullet_address head single (all_closing occurrence)

/-- A bullet starts with its indentation and the name between two pairs of stars. -/
theorem exists_bulletBody_eq (place : Nat × Occurrence) (shown : String) :
    ∃ rest, bulletBody place shown =
      List.replicate (2 * place.1) ' ' ++
        '-' :: (" **".toList ++ (place.2.method.toList ++ '*' :: rest)) :=
  ⟨"* (".toList ++ (shown.toList ++ ')' :: bulletMark place.2),
    by simp [bulletBody, bulletHead]⟩

/-- A bullet shows its level and the name of its method. -/
theorem label_eq_of_isBodyOf {otherLinks : Path.Links} {otherDirectory : String}
    {other : Nat × Occurrence} (plain : place.2.IsPlain) (otherPlain : other.2.IsPlain)
    (isBody : IsBodyOf links (.ofString directory) place body)
    (otherBody : IsBodyOf otherLinks (.ofString otherDirectory) other body) :
    Tree.label place = Tree.label other := by
  have starInName {occurrence : Occurrence} (plain : occurrence.IsPlain) :
      '*' ∉ occurrence.method.toList := Text.not_mem_of_all plain.method (by decide)
  obtain ⟨shown, -, bodyEq⟩ := isBody
  obtain ⟨shown', -, bodyEq'⟩ := otherBody
  obtain ⟨rest, shape⟩ := exists_bulletBody_eq place shown
  obtain ⟨rest', shape'⟩ := exists_bulletBody_eq other shown'
  have bodies := (shape.symm.trans bodyEq.symm).trans (bodyEq'.trans shape')
  obtain ⟨indents, behind⟩ := Text.append_cons_inj (by simp) (by simp) bodies
  obtain ⟨names, -⟩ := Text.append_cons_inj (starInName plain) (starInName otherPlain)
    (List.append_cancel_left behind)
  have levels : place.1 = other.1 := by
    have lengths := congrArg List.length indents
    simp only [List.length_replicate] at lengths
    omega
  exact Prod.ext levels (String.toList_inj.mp names)

end Plain

/-- The lines of all bullets determine their texts. -/
theorem bodies_eq_of_lines_eq {first second : List (List Char)}
    (firstBullets : ∀ body ∈ first, IsBullet (body.splitOnP isNewline))
    (secondBullets : ∀ body ∈ second, IsBullet (body.splitOnP isNewline))
    (same : first.flatMap (·.splitOnP isNewline) = second.flatMap (·.splitOnP isNewline)) :
    first = second := by
  have joined (bodies : List (List Char)) :
      (bodies.map (·.splitOnP isNewline)).map ['\n'].intercalate = bodies := by
    rw [List.map_map]
    exact (List.map_congr_left fun body _ => List.intercalate_splitOn '\n').trans (List.map_id' _)
  have groups : first.map (·.splitOnP isNewline) = second.map (·.splitOnP isNewline) := by
    rw [List.flatMap_def, List.flatMap_def] at same
    exact eq_of_flatten_eq (by simpa using firstBullets) (by simpa using secondBullets) same
  rw [← joined first, groups, joined second]

/-- The bullets show the levels and the names. -/
theorem map_label_eq_of_bodies {links otherLinks : Path.Links} {directory otherDirectory : String}
    {first second : List (Nat × Occurrence)} {bodies : List (List Char)}
    (firstPlain : ∀ place ∈ first, place.2.IsPlain)
    (secondPlain : ∀ place ∈ second, place.2.IsPlain)
    (firstBodies : List.Forall₂ (IsBodyOf links (.ofString directory)) first bodies)
    (secondBodies : List.Forall₂ (IsBodyOf otherLinks (.ofString otherDirectory)) second bodies) :
    first.map Tree.label = second.map Tree.label := by
  induction firstBodies generalizing second with
  | nil =>
      cases secondBodies
      rfl
  | cons here _ ih =>
      cases secondBodies with
      | cons there others =>
          obtain ⟨plain, firstLater⟩ := List.forall_mem_cons.mp firstPlain
          obtain ⟨plain', secondLater⟩ := List.forall_mem_cons.mp secondPlain
          rw [List.map_cons, List.map_cons, label_eq_of_isBodyOf plain plain' here there,
            ih firstLater secondLater others]

theorem isBullet_of_mem {links : Path.Links} {directory : String}
    {places : List (Nat × Occurrence)} {bodies : List (List Char)}
    (plain : ∀ place ∈ places, place.2.IsPlain)
    (bodiesOf : List.Forall₂ (IsBodyOf links (.ofString directory)) places bodies) :
    ∀ body ∈ bodies, IsBullet (body.splitOnP isNewline) := by
  induction bodiesOf with
  | nil => exact List.forall_mem_nil _
  | cons here _ ih =>
      obtain ⟨plainHere, later⟩ := List.forall_mem_cons.mp plain
      exact List.forall_mem_cons.mpr ⟨isBullet_of_isBodyOf plainHere here, ih later⟩

/-- Reports of one moment are equal only for trees of one shape with the same names,
wherever they are seen from and wherever links lead.  A report has as many bullet
lines as its tree has nodes just if none starts within a location, whichever blanks
are taken for line ends. -/
theorem markdown_determines_names (links : Path.Links) (directory : String) (moment : Moment)
    {chain : Chain} (plain : ∀ occurrence ∈ chain.root.preorder, occurrence.IsPlain)
    {text : String} (made : markdown links (.ofString directory) chain moment = .ok text) :
    (∀ (otherLinks : Path.Links) (otherDirectory : String) (other : Chain),
      (∀ occurrence ∈ other.root.preorder, occurrence.IsPlain) →
      markdown otherLinks (.ofString otherDirectory) other moment = .ok text →
      other.root.SameNames chain.root) ∧
    ∀ ends : Char → Bool, LineEnds ends →
      ((text.toList.splitOnP ends).countP isBulletLine = chain.root.size ↔
        ∀ occurrence ∈ chain.root.preorder, ∀ shown,
          location links (.ofString directory) occurrence = .ok shown →
          StartsNoBullet ends shown) := by
  have places := isPlain_of_mem_leveled 0 plain
  obtain ⟨bodies, bodiesOf, lines⟩ := exists_splitOnP_markdown (root_isPlain plain) made
  constructor
  · intro otherLinks otherDirectory other otherPlain otherMade
    have otherPlaces := isPlain_of_mem_leveled 0 otherPlain
    obtain ⟨otherBodies, otherBodiesOf, otherLines⟩ :=
      exists_splitOnP_markdown (root_isPlain otherPlain) otherMade
    have same := (otherLines isNewline lineEnds_isNewline).symm.trans
      (lines isNewline lineEnds_isNewline)
    have bullets := List.append_cancel_right (List.append_inj_right same rfl)
    obtain rfl := bodies_eq_of_lines_eq (isBullet_of_mem otherPlaces otherBodiesOf)
      (isBullet_of_mem places bodiesOf) bullets
    exact Tree.sameNames_of_map_label_eq
      (map_label_eq_of_bodies otherPlaces places otherBodiesOf bodiesOf)
  · intro ends lineEnds
    exact countP_markdown_eq_size_iff plain made lineEnds

/-- A node with a call to no place below its first child, and a child that is not
expanded. -/
def nestedChain : Chain :=
  .ofTree .down (.node ⟨"run", "Main", "/work/src/Main.java", 3, [], none, false⟩ [
    .node ⟨"load", "Store", "/work/src/Store.java", 7, ["String"], some "int", false⟩ [
      .leaf ⟨"of", "List", Occurrence.nowhere, 0, [], none, true⟩],
    .leaf ⟨"log$1", "Log", "/work/src/Log.java", -1, [], none, true⟩])

/-- The same names, with other classes and with files seen from the directory. -/
def relativeChain : Chain :=
  .ofTree .down (.node ⟨"run", "Main", "src/Main.java", 3, [], some "void", false⟩ [
    .node ⟨"load", "Cache", "src/../src/Store.java", 7, [], none, false⟩ [
      .leaf ⟨"of", "Set", Occurrence.nowhere, 5, [], none, false⟩],
    .leaf ⟨"log$1", "Log", "./src/Log.java", -1, [], none, true⟩])

def nestedReport : String :=
  "# Java Method Call Chain Report\n\n" ++
  "**Generated:** 2024-02-29 09:05:00\n" ++
  "**Root method:** Main.run\n" ++
  "**Direction:** callees (downward)\n" ++
  "**Call chain depth:** 3\n" ++
  "**Total methods:** 4\n\n" ++
  "## Call chain\n\n" ++
  "- **run** (file:///work/src/Main.java#3)\n" ++
  "  - **load** (file:///work/src/Store.java#7)\n" ++
  "    - **of** (External) (external)\n" ++
  "  - **log$1** (file:///work/src/Log.java#-1) (external)\n"

/-- The place that a path leads to when one directory is a link to another. -/
def throughLink : List String → List String
  | "link" :: parts => "work" :: parts
  | parts => parts

/-- A disk with a single link. -/
def linked : Path.Links where
  follow parts := Path.Links.none.follow (throughLink parts)
  isPart := by
    intro parts place given followed
    refine Path.Links.none.isPart ?_ followed
    rw [throughLink.eq_def]
    split
    · obtain ⟨-, later⟩ := List.forall_mem_cons.mp given
      exact List.forall_mem_cons.mpr ⟨by unfold Path.IsPart; decide, later⟩
    · exact given

theorem relativeChain_sameNames_nestedChain :
    (∀ occurrence ∈ nestedChain.root.preorder, occurrence.IsPlain) ∧
    (∀ occurrence ∈ relativeChain.root.preorder, occurrence.IsPlain) ∧
    markdown .none (.ofString "/work") nestedChain ⟨2024, 2, 29, 9, 5, 0⟩ = .ok nestedReport ∧
    markdown linked (.ofString "/link") relativeChain ⟨2024, 2, 29, 9, 5, 0⟩ =
      .ok nestedReport ∧
    relativeChain.root.SameNames nestedChain.root ∧
    (nestedReport.toList.splitOnP isNewline).countP isBulletLine = 4 := by
  have plain : ∀ occurrence ∈ nestedChain.root.preorder, occurrence.IsPlain := by decide +kernel
  have otherPlain : ∀ occurrence ∈ relativeChain.root.preorder, occurrence.IsPlain := by
    decide +kernel
  have made : markdown .none (.ofString "/work") nestedChain ⟨2024, 2, 29, 9, 5, 0⟩ =
      .ok nestedReport := by decide +kernel
  have otherMade : markdown linked (.ofString "/link") relativeChain ⟨2024, 2, 29, 9, 5, 0⟩ =
      .ok nestedReport := by decide +kernel
  have locations : ∀ occurrence ∈ nestedChain.root.preorder,
      (location .none (.ofString "/work") occurrence).toOption.all
        fun shown => StartsNoBullet isNewline shown := by
    decide +kernel
  obtain ⟨names, count⟩ :=
    markdown_determines_names .none "/work" ⟨2024, 2, 29, 9, 5, 0⟩ plain made
  refine ⟨plain, otherPlain, made, otherMade, names _ _ _ otherPlain otherMade, ?_⟩
  refine (count isNewline lineEnds_isNewline).mpr fun occurrence member shown located => ?_
  have starts := locations occurrence member
  rw [located] at starts
  exact of_decide_eq_true starts

/-- The line ends of Markdown. -/
def isLineEnd (c : Char) : Bool :=
  c == '\n' || c == '\r'

theorem lineEnds_isLineEnd : LineEnds isLineEnd where
  newline := rfl
  blank := by
    intro c ends
    rw [isLineEnd, Bool.or_eq_true, beq_iff_eq, beq_iff_eq] at ends
    rcases ends with rfl | rfl <;> decide

/-- A chain of one method. -/
def singleChain (file : String) : Chain :=
  .ofTree .down (.leaf ⟨"f", "A", file, 1, [], none, false⟩)

/-- Its report, where the file is resolved to the given path. -/
def singleReport (path : String) : String :=
  "# Java Method Call Chain Report\n\n" ++
  "**Generated:** 2024-01-02 03:04:05\n" ++
  "**Root method:** A.f\n" ++
  "**Direction:** callees (downward)\n" ++
  "**Call chain depth:** 1\n" ++
  "**Total methods:** 1\n\n" ++
  "## Call chain\n\n" ++
  "- **f** (file://" ++ path ++ "#1)\n"

/-- A bullet line can start in the name of the directory that relative paths are seen
from, and behind a carriage return in a path. -/
theorem not_countP_isBulletLine_eq_size :
    (¬∀ (directory : String) (moment : Moment) (chain : Chain) (text : String),
      (∀ occurrence ∈ chain.root.preorder, occurrence.IsPlain) →
      markdown .none (.ofString directory) chain moment = .ok text →
      (text.toList.splitOnP isNewline).countP isBulletLine = chain.root.size) ∧
    ¬∀ (ends : Char → Bool) (moment : Moment) (chain : Chain) (text : String),
      LineEnds ends → (∀ occurrence ∈ chain.root.preorder, occurrence.IsPlain) →
      markdown .none (.ofString "/") chain moment = .ok text →
      (text.toList.splitOnP ends).countP isBulletLine = chain.root.size := by
  constructor
  · intro claim
    have plain : ∀ occurrence ∈ (singleChain "A.java").root.preorder, occurrence.IsPlain := by
      decide +kernel
    have made : markdown .none (.ofString "/w\n- x") (singleChain "A.java")
        ⟨2024, 1, 2, 3, 4, 5⟩ = .ok (singleReport "/w\n- x/A.java") := by decide +kernel
    have starts := (countP_markdown_eq_size_iff plain made lineEnds_isNewline).mp
      (claim _ _ _ _ plain made) _ List.mem_cons_self "file:///w\n- x/A.java#1" (by decide +kernel)
    exact absurd starts (by decide +kernel)
  · intro claim
    have plain : ∀ occurrence ∈ (singleChain "/p\r- x/A.java").root.preorder,
        occurrence.IsPlain := by decide +kernel
    have made : markdown .none (.ofString "/") (singleChain "/p\r- x/A.java")
        ⟨2024, 1, 2, 3, 4, 5⟩ = .ok (singleReport "/p\r- x/A.java") := by decide +kernel
    have starts := (countP_markdown_eq_size_iff plain made lineEnds_isLineEnd).mp
      (claim _ _ _ _ lineEnds_isLineEnd plain made) _ List.mem_cons_self
      "file:///p\r- x/A.java#1" (by decide +kernel)
    exact absurd starts (by decide +kernel)

end Report
end CallTree
