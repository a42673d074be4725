import CallTree.Proofs.Declaration.Signatures
import CallTree.Proofs.Scan.Masks
import CallTree.Proofs.Source.Agreement

/-!
# Bodies of definitions

A definition is accepted on the masks that come down from the start of the
source, with the lines of its signature joined.  Its body is looked for on the
masks of a scan that starts afresh on the line of the declaration, one line
after the other.  Where the fresh scan shows the declaration like the one from
above, the body of every definition is found, and its brace is one of the code.
-/

namespace CallTree

open Declaration (IsName isParted)
open Text (EndsApart)

/-- No identifier runs into a segment of a line. -/
theorem exists_front_of_mem_segments {code segment : List Char} {net : Int}
    (member : (net, segment) ∈ segments code) :
    ∃ front, code = front ++ Text.dropBlanks segment ∧ EndsApart front := by
  have leaves : Declaration.Leaves code segment := by
    rcases List.mem_cons.mp member with here | later
    · cases here
      exact .refl code
    · obtain ⟨mark, isMark, suffix⟩ := exists_suffix_of_mem_laterSegments later
      have markApart : Text.isIdentifierPart mark = false := by
        simp only [List.mem_cons, List.not_mem_nil, or_false] at isMark
        obtain rfl | rfl | rfl := isMark <;> decide
      exact Declaration.leaves_of_suffix_cons markApart suffix
  have behindBlanks : Declaration.Leaves segment (Text.dropBlanks segment) :=
    ⟨segment.takeWhile Text.isBlank, List.takeWhile_append_dropWhile.symm,
      .of_isGap fun c member => List.mem_takeWhile_imp member⟩
  exact leaves.trans behindBlanks

namespace CodeLine

/-- The code lines of some lines of a source, from a context on. -/
def ofLines (rules : Scan.Rules) (context : Scan.Context) (lines : List Line) : List CodeLine :=
  List.zipWith (fun raw outcome => { raw, code := outcome.mask }) lines
    (Scan.scanLines rules context lines)

section OfLines

variable (rules : Scan.Rules) (context : Scan.Context) (lines : List Line)

theorem map_raw_ofLines : (ofLines rules context lines).map raw = lines := by
  induction lines generalizing context with
  | nil => rfl
  | cons line lines ih => exact congrArg (line :: ·) (ih _)

theorem map_code_ofLines :
    (ofLines rules context lines).map code =
      (Scan.scanLines rules context lines).map Scan.Outcome.mask := by
  induction lines generalizing context with
  | nil => rfl
  | cons line lines ih => exact congrArg (_ :: ·) (ih _)

theorem drop_ofLines (count : Nat) :
    (ofLines rules context lines).drop count =
      ofLines rules ((lines.take count).foldl
        (fun context line => (Scan.scanLine rules line context).context) context)
        (lines.drop count) := by
  induction count generalizing context lines with
  | zero => rfl
  | succ count ih =>
      cases lines with
      | nil => rfl
      | cons line lines => exact ih _ lines

theorem masks_of_mem_ofLines {found : CodeLine} (member : found ∈ ofLines rules context lines) :
    Scan.Masks found.raw found.code := by
  induction lines generalizing context with
  | nil => cases member
  | cons line lines ih =>
      rcases List.mem_cons.mp member with rfl | later
      · exact Scan.masks_scanFrom rules [] line context
      · exact ih _ later

end OfLines

end CodeLine

namespace Source

namespace Origin

variable {classes : List (Option String)} {lines : List CodeLine} {file : String}
variable {method : Method}

/-- The context in which the line of the declaration starts. -/
def context (origin : Origin classes lines file 0 method) (rules : Scan.Rules) : Scan.Context :=
  Scan.contextAfter rules ((lines.take origin.offset).map CodeLine.raw)

/-- The scan of the line that comes down from the start of the source. -/
def carried (origin : Origin classes lines file 0 method) (rules : Scan.Rules) : Scan.Outcome :=
  Scan.scanLine rules origin.line.raw (origin.context rules)

/-- The scan of the line that starts on it. -/
def afresh (origin : Origin classes lines file 0 method) (rules : Scan.Rules) : Scan.Outcome :=
  Scan.scanLine rules origin.line.raw .fresh

/-- The masks of the lines that the signature takes. -/
def masks (origin : Origin classes lines file 0 method) : List Line :=
  (origin.line :: origin.below.take origin.joined).map CodeLine.code

/-- Both scans of the line agree on the declaration: they leave the same context,
the fresh one shows the segment at the end of the line, apart from what it shows
before it, and no brace that the other one does not show. -/
structure ShownAfresh (origin : Origin classes lines file 0 method) (rules : Scan.Rules) :
    Prop where
  context_eq : (origin.afresh rules).context = (origin.carried rules).context
  segment_shown : ∃ front, (origin.afresh rules).mask =
    front ++ Text.dropBlanks origin.segment ∧ EndsApart front
  brace_shown : ∀ column : Nat, (origin.afresh rules).mask[column]? = some '{' →
    (origin.carried rules).mask[column]? = some '{'

/-- The name's parenthesis is the first one of the signature, or a brace stands
behind it. -/
def NameFirst (origin : Origin classes lines file 0 method) : Prop :=
  ∀ behind, Extent.findNamed? method.name.toList none origin.code = some behind →
    origin.code.dropWhile (· != '(') = '(' :: behind ∨ '{' ∈ behind

end Origin

section Bodies

variable {rules : Scan.Rules} {text : List Char} {file : String} {method : Method}
variable (origin : Origin (ofText rules text).classes (ofText rules text).lines file 0 method)

namespace Origin

/-- The masks on which the declaration was found are those of the scan from the
start of the source. -/
theorem code_eq :
    origin.line.code = (origin.carried rules).mask ∧
      origin.below.map CodeLine.code = (Scan.scanLines rules (origin.carried rules).context
        (origin.below.map CodeLine.raw)).map Scan.Outcome.mask := by
  have rawEq : ((ofText rules text).lines.take origin.offset).map CodeLine.raw =
      (Line.ofText text).take origin.offset := by
    rw [List.map_take]
    exact congrArg (List.take origin.offset) (CodeLine.map_raw_ofLines rules .fresh _)
  have linesEq : CodeLine.ofLines rules (origin.context rules)
      ((Line.ofText text).drop origin.offset) = origin.line :: origin.below := by
    rw [← origin.lines_eq, Origin.context, rawEq]
    exact (CodeLine.drop_ofLines rules .fresh (Line.ofText text) origin.offset).symm
  cases dropped : (Line.ofText text).drop origin.offset with
  | nil =>
      rw [dropped] at linesEq
      cases linesEq
  | cons raw raws =>
      rw [dropped] at linesEq
      have lineEq := (List.cons.inj linesEq).1
      have belowEq : CodeLine.ofLines rules (Scan.scanLine rules raw (origin.context rules)).context
          raws = origin.below :=
        (List.cons.inj linesEq).2
      have carriedEq : origin.carried rules = Scan.scanLine rules raw (origin.context rules) := by
        rw [Origin.carried, ← lineEq]
      rw [carriedEq, ← lineEq, ← belowEq, CodeLine.map_raw_ofLines]
      exact ⟨rfl, CodeLine.map_code_ofLines rules _ raws⟩

theorem name_eq : method.name = origin.declaration.name :=
  congrArg Method.name origin.method_eq

/-- Where nothing is open at the start of the line, both scans are the same. -/
theorem shownAfresh_of_fresh (nothingOpen : origin.context rules = .fresh) :
    origin.ShownAfresh rules := by
  have same : origin.afresh rules = origin.carried rules := by
    rw [Origin.carried, nothingOpen]
    rfl
  obtain ⟨net, segmentMem⟩ := origin.declares.segment_mem
  rw [origin.code_eq.1] at segmentMem
  refine ⟨by rw [same], ?_, ?_⟩
  · rw [same]
    exact exists_front_of_mem_segments segmentMem
  · rw [same]
    exact fun _ shown => shown

/-- The name of a definition stands before a parenthesis of its signature, and
the first such place has a brace behind it. -/
theorem exists_named (nameFirst : origin.NameFirst) :
    IsName method.name.toList ∧ ∃ front gap behind,
      Extent.Named method.name.toList origin.code front gap behind ∧ '{' ∈ behind := by
  obtain ⟨isName, _, _, _, named⟩ := Declaration.named_of_parse? origin.declares.parse_eq
  rw [← origin.name_eq] at isName named
  obtain ⟨behind, found, _⟩ := named.exists_findNamed?
  obtain ⟨front, gap, first⟩ := Extent.named_of_findNamed? found
  refine ⟨isName, front, gap, behind, first, ?_⟩
  rcases nameFirst behind found with opens | brace
  · obtain ⟨_, complete⟩ := Declaration.signature?_eq_some origin.declares.signature_eq
    obtain ⟨inside, opened, brace⟩ := Declaration.brace_mem_of_progress complete
    cases opened.symm.trans opens
    exact brace
  · exact brace

theorem succeeds_afresh (shown : origin.ShownAfresh rules)
    (together : isParted method.name.toList origin.masks = false) (nameFirst : origin.NameFirst) :
    (Extent.Search.call method.name.toList).Succeeds
      ((origin.afresh rules).mask :: origin.below.map CodeLine.code) := by
  obtain ⟨isName, _, _, behind, named, brace⟩ := origin.exists_named nameFirst
  obtain ⟨codeEq, _⟩ := Declaration.signature?_eq_some origin.declares.signature_eq
  rw [codeEq] at named
  obtain ⟨net, segmentMem⟩ := origin.declares.segment_mem
  obtain ⟨lineFront, lineEq, lineApart⟩ := exists_front_of_mem_segments segmentMem
  obtain ⟨_, _, lineShows⟩ := Declaration.exists_shows lineApart lineEq
  obtain ⟨maskFront, maskEq, maskApart⟩ := shown.segment_shown
  obtain ⟨front, others, maskShows⟩ := Declaration.exists_shows maskApart maskEq
  rcases Declaration.exists_named_of_joinedCode isName named with
    parted | ⟨skipped, holder, later, near, gap, far, linesEq, holderNamed, rfl⟩
  · have onMasks := Declaration.isParted_of_shows lineShows isName parted
    rw [← List.map_take] at onMasks
    cases onMasks.symm.trans together
  · have belowEq := List.take_append_drop origin.joined (origin.below.map CodeLine.code)
    have brace := Declaration.brace_mem_of_joinedCode brace
    -- Only the first joined line is a segment; the others are whole masks.
    cases skipped with
    | nil =>
        obtain ⟨rfl, rfl⟩ := List.cons.inj linesEq
        refine ⟨[], _, _, front ++ near, gap, far ++ others, rfl,
          maskShows.named isName holderNamed, ?_⟩
        rw [← belowEq, List.flatten_append]
        simp only [List.mem_append] at brace ⊢
        exact brace.imp .inl .inl
    | cons first skipped =>
        have takenEq : (origin.below.map CodeLine.code).take origin.joined =
            skipped ++ holder :: later :=
          (List.cons.inj linesEq).2
        refine ⟨(origin.afresh rules).mask :: skipped, holder,
          later ++ (origin.below.map CodeLine.code).drop origin.joined, near, gap, far, ?_,
          holderNamed, ?_⟩
        · rw [takenEq, List.append_assoc] at belowEq
          exact congrArg ((origin.afresh rules).mask :: ·) belowEq.symm
        · rw [List.flatten_append]
          simp only [List.mem_append] at brace ⊢
          exact brace.imp id .inl

theorem extentOf_eq (shown : origin.ShownAfresh rules) (isName : IsName method.name.toList) :
    (ofText rules text).extentOf method = Extent.ofMasks origin.offset
      (.call method.name.toList) origin.offset
      ((origin.afresh rules).mask :: origin.below.map CodeLine.code) := by
  have startEq : (method.line - 1).toNat = origin.offset := by
    have lineEq := origin.line_eq
    omega
  have named : (method.name == "") = false := by
    rw [beq_eq_false_iff_ne]
    intro unnamed
    exact isName.nonempty (by rw [unnamed]; rfl)
  have rawEq : (ofText rules text).rawLines.drop origin.offset =
      origin.line.raw :: origin.below.map CodeLine.raw := by
    rw [rawLines, ← List.map_drop, origin.lines_eq, List.map_cons]
  have masksEq : (Scan.scanLines rules .fresh
      ((ofText rules text).rawLines.drop origin.offset)).map Scan.Outcome.mask =
      (origin.afresh rules).mask :: origin.below.map CodeLine.code := by
    rw [rawEq, Scan.scanLines, List.map_cons, origin.code_eq.2, ← shown.context_eq]
    rfl
  rw [extentOf, startEq, extentFrom, Extent.ofLines]
  simp only [named, Bool.false_eq_true, if_false]
  rw [← masksEq]
  rfl

/-- The body of a definition is found, and starts behind a brace of the code. -/
theorem exists_body (shown : origin.ShownAfresh rules)
    (together : isParted method.name.toList origin.masks = false) (nameFirst : origin.NameFirst) :
    ∃ (line column : Nat) (found : CodeLine),
      ((ofText rules text).extentOf method).body = some ⟨line, (column : Int) + 1⟩ ∧
      (ofText rules text).lines[line]? = some found ∧
      found.code[column]? = some '{' := by
  have isName := (origin.exists_named nameFirst).1
  obtain ⟨below, column, mask, bodyEq, maskEq, brace⟩ := Extent.exists_body_ofMasks origin.offset
    origin.offset (origin.succeeds_afresh shown together nameFirst)
  rw [← origin.extentOf_eq shown isName] at bodyEq
  have linesEq : (ofText rules text).lines[origin.offset + below]? =
      (origin.line :: origin.below)[below]? := by
    rw [← origin.lines_eq, List.getElem?_drop]
  cases below with
  | zero =>
      cases maskEq
      refine ⟨origin.offset, column, origin.line, bodyEq, linesEq, ?_⟩
      rw [origin.code_eq.1]
      exact shown.brace_shown column brace
  | succ below =>
      rw [List.getElem?_cons_succ, List.getElem?_map] at maskEq
      obtain ⟨found, foundEq, rfl⟩ := Option.map_eq_some_iff.mp maskEq
      exact ⟨_, column, found, bodyEq, linesEq.trans foundEq, brace⟩

end Origin

/-- Every definition comes from a segment of its line.  If the fresh scan of that
line shows the segment like the scan from the start of the source, which it does
where nothing is open before it, the name and its parenthesis are not parted by
a line's end, and the name's parenthesis is the first or has a brace behind it,
then the body is found: it starts right behind a brace of the text, which the
masks of the source show. -/
theorem definitions_have_bodies (member : method ∈ (ofText rules text).definitions file) :
    Nonempty (Origin (ofText rules text).classes (ofText rules text).lines file 0 method) ∧
    ∀ origin : Origin (ofText rules text).classes (ofText rules text).lines file 0 method,
      (origin.context rules = .fresh → origin.ShownAfresh rules) ∧
      (origin.ShownAfresh rules → isParted method.name.toList origin.masks = false → origin.NameFirst →
        ∃ (line column : Nat) (found : CodeLine),
          ((ofText rules text).extentOf method).body = some ⟨line, (column : Int) + 1⟩ ∧
          (ofText rules text).lines[line]? = some found ∧
          found.raw[column]? = some '{' ∧ found.code[column]? = some '{') := by
  refine ⟨exists_origin_of_mem_definitions member, fun origin =>
    ⟨origin.shownAfresh_of_fresh, fun shown together nameFirst => ?_⟩⟩
  obtain ⟨line, column, found, bodyEq, foundEq, brace⟩ :=
    origin.exists_body shown together nameFirst
  have masks := CodeLine.masks_of_mem_ofLines rules .fresh (Line.ofText text)
    (List.mem_of_getElem? foundEq)
  exact ⟨line, column, found, bodyEq, foundEq, masks.getElem?_eq (by decide) brace, brace⟩

end Bodies

/-- A method that is declared behind the arguments of an annotation, on two
lines. -/
def annotatedText : List Char :=
  "class A \x7b\n @B(1,\n  2) void f(int x,\n   int y) \x7b g(); \x7d\n\x7d".toList

def annotatedMethod : Method where
  name := "f"
  className := some "A"
  file := "A.java"
  line := 3
  parameters := ["int x", "int y"]
  returnType := some "void"

def annotatedOrigin : Origin (ofText {} annotatedText).classes (ofText {} annotatedText).lines
    "A.java" 0 annotatedMethod where
  offset := 2
  line := { raw := "  2) void f(int x,".toList, code := "     void f(int x,".toList }
  below := [
    { raw := "   int y) \x7b g(); \x7d".toList, code := "   int y) \x7b g(); \x7d".toList },
    { raw := "\x7d".toList, code := "\x7d".toList }]
  className := some "A"
  segment := "     void f(int x,".toList
  code := "void f(int x,    int y) \x7b g(); \x7d".toList
  joined := 1
  declaration := { name := "f", returnType := some "void", parameters := ["int x", "int y"] }
  lines_eq := by decide +kernel
  class_eq := by decide +kernel
  declares := ⟨⟨0, by decide +kernel⟩, by decide +kernel, by decide +kernel⟩
  method_eq := by decide +kernel

/-- The scan from above starts the line of the declaration inside the arguments,
and the fresh one does not. -/
theorem annotatedMethod_has_body :
    annotatedOrigin.context {} ≠ .fresh ∧
    ∃ (line column : Nat) (found : CodeLine),
      ((ofText {} annotatedText).extentOf annotatedMethod).body =
        some ⟨line, (column : Int) + 1⟩ ∧
      (ofText {} annotatedText).lines[line]? = some found ∧
      found.raw[column]? = some '{' ∧ found.code[column]? = some '{' := by
  have member : annotatedMethod ∈ (ofText {} annotatedText).definitions "A.java" := by
    decide +kernel
  have shown : annotatedOrigin.ShownAfresh {} := by
    refine ⟨by decide +kernel, ⟨"  2) ".toList, by decide +kernel, ?_⟩, ?_⟩
    · intro c last
      cases last
      decide
    · intro column brace
      exact absurd (List.mem_of_getElem? brace) (by decide +kernel)
  have nameFirst : annotatedOrigin.NameFirst := by
    intro behind found
    have first : Extent.findNamed? "f".toList none annotatedOrigin.code =
        some "int x,    int y) \x7b g(); \x7d".toList := by
      decide +kernel
    cases first.symm.trans found
    exact .inl (by decide +kernel)
  exact ⟨by decide +kernel, ((definitions_have_bodies member).2 annotatedOrigin).2 shown
    (by decide +kernel) nameFirst⟩

/-- The slash that ends a comment starts a pattern for the fresh scan of its
line, so the method behind it has no body. -/
theorem body_hidden_behind_comment :
    ¬ ∀ (rules : Scan.Rules) (text : List Char) (file : String),
      ∀ method ∈ (ofText rules text).definitions file,
        ∃ (line column : Nat) (found : CodeLine),
          ((ofText rules text).extentOf method).body = some ⟨line, (column : Int) + 1⟩ ∧
          (ofText rules text).lines[line]? = some found ∧
          found.raw[column]? = some '{' ∧ found.code[column]? = some '{' := by
  intro all
  have hidden : ∃ method ∈ (ofText {}
      "class A \x7b\n /* a\n    b */ void f() \x7b g(); \x7d\n\x7d".toList).definitions "A.java",
      ((ofText {} "class A \x7b\n /* a\n    b */ void f() \x7b g(); \x7d\n\x7d".toList).extentOf
        method).body = none := by
    decide +kernel
  obtain ⟨method, member, nothing⟩ := hidden
  obtain ⟨_, _, _, bodyEq, _⟩ := all _ _ _ method member
  cases nothing.symm.trans bodyEq

end Source
end CallTree
