import CallTree.Proofs.Source.Bodies
import CallTree.Proofs.Source.Headers
import CallTree.Proofs.Text.Pieces

/-!
# Lines in front of a source

Lines that show no code and leave nothing open, such as blank lines and
comments, may stand in front of a source.  They open no class and declare
nothing, and the lines below them are scanned as before, so that all that is
found in the source is found again, that many lines further down.
-/

namespace CallTree

namespace Line

/-- A line as it is read: carriage returns at its end belong to the line end. -/
def content (line : List Char) : Line :=
  Text.dropEndWhile (· == '\r') line

/-- The text of some lines, each with its line feed. -/
def toText (lines : List (List Char)) : List Char :=
  lines.flatMap (· ++ ['\n'])

theorem ofText_toText_append {lines : List (List Char)} (whole : ∀ line ∈ lines, '\n' ∉ line)
    (text : List Char) : ofText (toText lines ++ text) = lines.map content ++ ofText text := by
  rw [ofText, toText, Text.splitAt_flatMap_append whole, List.map_append]
  rfl

end Line

/-- The lines show no code, and nothing is open behind them. -/
structure Scan.ShowsNothing (rules : Rules) (lines : List Line) : Prop where
  blank : ∀ outcome ∈ scanLines rules .fresh lines, Text.isBlankText outcome.mask = true
  closed : contextAfter rules lines = .fresh

namespace CodeLine

theorem ofLines_append (rules : Scan.Rules) (context : Scan.Context) (front lines : List Line) :
    ofLines rules context (front ++ lines) =
      ofLines rules context front ++
        ofLines rules (front.foldl
          (fun context line => (Scan.scanLine rules line context).context) context) lines := by
  induction front generalizing context with
  | nil => rfl
  | cons line front ih => exact congrArg (_ :: ·) (ih _)

variable {rules : Scan.Rules} {front : List Line}

theorem isBlankText_of_mem_ofLines (nothing : Scan.ShowsNothing rules front) {line : CodeLine}
    (member : line ∈ ofLines rules .fresh front) : Text.isBlankText line.code = true := by
  have shown : line.code ∈ (ofLines rules .fresh front).map code := List.mem_map_of_mem member
  rw [map_code_ofLines] at shown
  obtain ⟨outcome, outcomeMem, maskEq⟩ := List.mem_map.mp shown
  rw [← maskEq]
  exact nothing.blank outcome outcomeMem

/-- Lines that show nothing are followed by the code lines of the rest. -/
theorem ofText_toText_append {front : List (List Char)} (whole : ∀ line ∈ front, '\n' ∉ line)
    (nothing : Scan.ShowsNothing rules (front.map Line.content)) (text : List Char) :
    ofText rules (Line.toText front ++ text) =
      ofLines rules .fresh (front.map Line.content) ++ ofText rules text := by
  calc ofText rules (Line.toText front ++ text)
      = ofLines rules .fresh (front.map Line.content ++ Line.ofText text) := by
        rw [← Line.ofText_toText_append whole]
        rfl
    _ = ofLines rules .fresh (front.map Line.content) ++
          ofLines rules (Scan.contextAfter rules (front.map Line.content)) (Line.ofText text) :=
        ofLines_append rules .fresh _ _
    _ = ofLines rules .fresh (front.map Line.content) ++ ofText rules text := by
        rw [nothing.closed]
        rfl

end CodeLine

namespace ClassStack

theorem Modified.suffix {text whole : List Char} (modified : Modified text whole) :
    text <:+ whole := by
  induction modified with
  | plain => exact List.suffix_rfl
  | behind _ _ _ _ ih =>
      exact ih.trans ((List.suffix_append _ _).trans (List.suffix_append _ _))

theorem findHeader?_eq_none_of_blank {code : List Char} (blank : Text.isBlankText code = true) :
    findHeader? code = none := by
  rw [Option.eq_none_iff_forall_not_mem]
  rintro ⟨before, name, behind⟩ found
  obtain ⟨front, text, named, header, _⟩ := findHeader?_eq_some_iff.mp found
  obtain ⟨word, _, gap, _, _, modified, starts⟩ := header.starts
  cases named with
  | nil => simp at starts
  | cons c named =>
      have member : c ∈ code := by
        rw [header.code_eq]
        exact List.mem_append_right front (modified.suffix.subset (by simp))
      have visible := startsVisible_of_isIdentifierStart starts c rfl
      rw [List.all_eq_true.mp blank c member] at visible
      cases visible

theorem beginLine_empty_of_blank {code : List Char} (blank : Text.isBlankText code = true) :
    beginLine {} code = {} := by
  rw [beginLine, findHeader?_eq_none_of_blank blank]
  rfl

end ClassStack

theorem CodeLine.count_eq_zero_of_blank {line : CodeLine}
    (blank : Text.isBlankText line.code = true) : line.opens = 0 ∧ line.closes = 0 := by
  have absent : ∀ c, Text.isBlank c = false → line.code.count c = 0 := by
    intro c visible
    refine List.count_eq_zero.mpr fun member => ?_
    rw [List.all_eq_true.mp blank c member] at visible
    cases visible
  exact ⟨absent '{' (by decide), absent '}' (by decide)⟩

theorem ClassStack.endLine_empty_of_blank {line : CodeLine}
    (blank : Text.isBlankText line.code = true) :
    (beginLine {} line.code).endLine line.opens line.closes = {} := by
  obtain ⟨opens, closes⟩ := CodeLine.count_eq_zero_of_blank blank
  rw [beginLine_empty_of_blank blank, opens, closes]
  rfl

/-- The method, declared that many lines further down. -/
def Method.lower (count : Nat) (method : Method) : Method :=
  { method with line := method.line + count }

/-- The extent, that many lines further down. -/
def Extent.lower (count : Nat) (extent : Extent) : Extent where
  start := extent.start + count
  last := extent.last + count
  body := extent.body.map fun body => { body with line := body.line + count }

namespace Source

section Lines

variable {front : List CodeLine} (blank : ∀ line ∈ front, Text.isBlankText line.code = true)

include blank

theorem classesFrom_append (lines : List CodeLine) :
    classesFrom {} (front ++ lines) =
      List.replicate front.length none ++ classesFrom {} lines := by
  induction front with
  | nil => rfl
  | cons line front ih =>
      obtain ⟨here, later⟩ := List.forall_mem_cons.mp blank
      rw [List.cons_append, classesFrom, ClassStack.endLine_empty_of_blank here, ih later,
        ClassStack.beginLine_empty_of_blank here]
      rfl

theorem definitionsFrom_append (file : String) (index : Nat) (lines : List CodeLine) :
    definitionsFrom {} file index 0 (front ++ lines) =
      definitionsFrom {} file (index + front.length) 0 lines := by
  induction front generalizing index with
  | nil => rfl
  | cons line front ih =>
      obtain ⟨here, later⟩ := List.forall_mem_cons.mp blank
      rw [List.cons_append, definitionsFrom, ClassStack.endLine_empty_of_blank here,
        ClassStack.beginLine_empty_of_blank here, if_neg (by simp [ClassStack.current]),
        ih later, List.length_cons, Nat.add_assoc, Nat.add_comm 1]

end Lines

theorem method_lower (file : String) (className : Option String) (index count : Nat)
    (declaration : Declaration) :
    method file className (index + count) declaration =
      (method file className index declaration).lower count := by
  simp only [method, Method.lower, Method.mk.injEq, true_and, and_true]
  omega

theorem methodsOn_lower (stack : ClassStack) (file : String) (index count : Nat)
    (below : List Line) (places : List (Int × List Char)) :
    methodsOn stack file (index + count) below places =
      ((methodsOn stack file index below places).1.map (Method.lower count),
        (methodsOn stack file index below places).2) := by
  induction places with
  | nil => rfl
  | cons place places ih =>
      obtain ⟨net, segment⟩ := place
      rw [methodsOn, methodsOn, ih]
      split
      · cases Declaration.signature? segment below with
        | none => rfl
        | some signature =>
            obtain ⟨code, joined⟩ := signature
            dsimp only
            cases Declaration.parse? code stack.current with
            | none => rfl
            | some declaration =>
                dsimp only
                rw [method_lower]
                split <;> rfl
      · rfl

theorem definitionsFrom_lower (stack : ClassStack) (file : String) (index count skip : Nat)
    (lines : List CodeLine) :
    definitionsFrom stack file (index + count) skip lines =
      (definitionsFrom stack file index skip lines).map (Method.lower count) := by
  induction lines generalizing stack index skip with
  | nil => rfl
  | cons line lines ih =>
      have next : index + count + 1 = index + 1 + count := by omega
      rw [definitionsFrom, definitionsFrom, methodsOn_lower, next]
      split
      · dsimp only
        rw [ih, List.map_append]
      · exact ih _ _ _

section Sources

variable {front : List CodeLine} (blank : ∀ line ∈ front, Text.isBlankText line.code = true)
variable (source : Source)

/-- The source with more lines in front of it. -/
def behind (front : List CodeLine) (source : Source) : Source :=
  { source with lines := front ++ source.lines }

include blank

theorem definitions_behind (file : String) :
    (source.behind front).definitions file =
      (source.definitions file).map (Method.lower front.length) := by
  calc (source.behind front).definitions file
      = definitionsFrom {} file (0 + front.length) 0 source.lines :=
        definitionsFrom_append blank file 0 source.lines
    _ = (source.definitions file).map (Method.lower front.length) :=
        definitionsFrom_lower {} file 0 front.length 0 source.lines

theorem getElem?_classes_behind (index : Nat) :
    (source.behind front).classes[index + front.length]? = source.classes[index]? := by
  rw [classes, behind, classesFrom_append blank, List.getElem?_append_right (by simp),
    List.length_replicate, Nat.add_sub_cancel]
  rfl

theorem classAt_behind {line : Int} (inside : 0 ≤ line) :
    (source.behind front).classAt (line + front.length) = source.classAt line := by
  obtain ⟨index, rfl⟩ := Int.eq_ofNat_of_zero_le inside
  have lineEq : (index : Int) + front.length = (index + front.length : Nat) := by omega
  rw [lineEq, classAt_natCast, classAt_natCast, getElem?_classes_behind blank]

/-- Going up from the lines in front, nothing is met. -/
theorem methodBefore?_front (classes : List (Option String)) (file : String) {count : Nat}
    (inside : count ≤ front.length) :
    (source.behind front).methodBefore? classes file count = none := by
  induction count with
  | zero => rfl
  | succ index ih =>
      have dropped : (source.behind front).lines.drop index =
          front[index] :: (source.behind front).lines.drop (index + 1) := by
        rw [List.drop_eq_getElem_cons (by simp [behind]; omega)]
        simp only [behind, List.getElem_append_left inside]
      rw [methodBefore?, dropped, declarationOn?,
        if_pos (blank _ (List.getElem_mem inside))]
      exact ih (by omega)

theorem methodBefore?_behind (file : String) (count : Nat) :
    (source.behind front).methodBefore? (source.behind front).classes file
        (count + front.length) =
      (source.methodBefore? source.classes file count).map (Method.lower front.length) := by
  induction count with
  | zero =>
      rw [Nat.zero_add]
      exact methodBefore?_front blank source _ file (Nat.le_refl _)
  | succ index ih =>
      have dropped : (source.behind front).lines.drop (index + front.length) =
          source.lines.drop index := by
        rw [behind, Nat.add_comm, ← List.drop_drop, List.drop_left]
      rw [Nat.add_right_comm, methodBefore?, getElem?_classes_behind blank, dropped,
        methodBefore?]
      cases declarationOn? (source.classes[index]?).join (source.lines.drop index) with
      | some declaration => exact congrArg some (method_lower ..)
      | none => exact ih

theorem methodAt_behind {line : Int} (inside : 0 ≤ line) (file : String) :
    (source.behind front).methodAt (line + front.length) file =
      (source.methodAt line file).map (Method.lower front.length) := by
  have countEq : (min (line + front.length + 1) (source.behind front).lines.length).toNat =
      (min (line + 1) source.lines.length).toNat + front.length := by
    rw [behind, List.length_append]
    omega
  rw [methodAt, countEq, methodBefore?_behind blank, methodAt]

end Sources
end Source

namespace Extent

theorem closingLine?_lower (depth : Int) (index count : Nat) (masks : List Line) :
    closingLine? depth (index + count) masks =
      (closingLine? depth index masks).map (· + count) := by
  induction masks generalizing depth index with
  | nil => rfl
  | cons mask masks ih =>
      rw [closingLine?, closingLine?]
      split
      · rfl
      · rw [Nat.add_right_comm, ih]

theorem ofMasks_lower (start count : Nat) (search : Search) (index : Nat) (masks : List Line) :
    ofMasks (start + count) search (index + count) masks =
      (ofMasks start search index masks).lower count := by
  induction masks generalizing search index with
  | nil =>
      simp only [ofMasks, lower, Extent.mk.injEq, Option.map_none, and_true]
      omega
  | cons mask masks ih =>
      rw [ofMasks, ofMasks]
      cases search.advance mask with
      | inl search =>
          dsimp only
          rw [Nat.add_right_comm, ih]
      | inr column =>
          dsimp only
          rw [Nat.add_right_comm, closingLine?_lower]
          split
          · simp [lower]
          · cases closingLine? (netFrom mask column) (index + 1) masks with
            | none => simp [lower]; omega
            | some line => simp [lower]

end Extent

namespace Source

variable {front : List CodeLine} (blank : ∀ line ∈ front, Text.isBlankText line.code = true)
variable (source : Source)

theorem extentFrom_behind (start : Nat) (name : Option String) :
    (source.behind front).extentFrom (start + front.length) name =
      (source.extentFrom start name).lower front.length := by
  have dropped : (source.behind front).rawLines.drop (start + front.length) =
      source.rawLines.drop start := by
    rw [rawLines, behind, List.map_append, Nat.add_comm, ← List.drop_drop]
    congr 1
    exact List.drop_left' (List.length_map ..)
  simp only [extentFrom, Extent.ofLines, dropped]
  exact Extent.ofMasks_lower ..

theorem extentOf_behind {method : Method} (inside : 1 ≤ method.line) :
    (source.behind front).extentOf (method.lower front.length) =
      (source.extentOf method).lower front.length := by
  have startEq : (method.line + front.length - 1).toNat =
      (method.line - 1).toNat + front.length := by
    omega
  rw [extentOf, Method.lower, startEq, extentFrom_behind, extentOf]

include blank

theorem extentNamed?_behind (name : String) (className : Option String) :
    (source.behind front).extentNamed? name className =
      (source.extentNamed? name className).map (Extent.lower front.length) := by
  rw [extentNamed?, definitions_behind blank, List.find?_map, extentNamed?]
  -- Whether a method has the name and the class does not depend on its line.
  change Option.map _ (Option.map _ (List.find? (fun found => found.name == name &&
    (className.isNone || found.className == className)) (source.definitions ""))) = _
  cases found : (source.definitions "").find? fun found =>
      found.name == name && (className.isNone || found.className == className) with
  | none => rfl
  | some method =>
      obtain ⟨origin⟩ := exists_origin_of_mem_definitions (List.mem_of_find?_eq_some found)
      exact congrArg some (extentOf_behind source origin.line_bounds.1)

end Source

namespace Source

/-- Lines in front of a text that show no code and leave nothing open shift all
that is found in the text by their number, and change nothing else. -/
theorem toText_append_lowers (rules : Scan.Rules) {front : List (List Char)}
    (whole : ∀ line ∈ front, '\n' ∉ line)
    (nothing : Scan.ShowsNothing rules (front.map Line.content)) (text : List Char) :
    (∀ file, (ofText rules (Line.toText front ++ text)).definitions file =
      ((ofText rules text).definitions file).map (Method.lower front.length)) ∧
    (∀ line, 0 ≤ line →
      (ofText rules (Line.toText front ++ text)).classAt (line + front.length) =
        (ofText rules text).classAt line) ∧
    (∀ line file, 0 ≤ line →
      (ofText rules (Line.toText front ++ text)).methodAt (line + front.length) file =
        ((ofText rules text).methodAt line file).map (Method.lower front.length)) ∧
    ∀ name className,
      (ofText rules (Line.toText front ++ text)).extentNamed? name className =
        ((ofText rules text).extentNamed? name className).map (Extent.lower front.length) := by
  have blank : ∀ line ∈ CodeLine.ofLines rules .fresh (front.map Line.content),
      Text.isBlankText line.code = true :=
    fun line member => CodeLine.isBlankText_of_mem_ofLines nothing member
  have lengthEq : (CodeLine.ofLines rules .fresh (front.map Line.content)).length =
      front.length := by
    rw [← List.length_map CodeLine.raw, CodeLine.map_raw_ofLines, List.length_map]
  have sourceEq : ofText rules (Line.toText front ++ text) =
      (ofText rules text).behind (CodeLine.ofLines rules .fresh (front.map Line.content)) := by
    rw [ofText, CodeLine.ofText_toText_append whole nothing]
    rfl
  rw [sourceEq, ← lengthEq]
  refine ⟨?_, ?_, ?_, ?_⟩
  · exact fun file => definitions_behind blank _ file
  · exact fun line inside => classAt_behind blank _ inside
  · exact fun line file inside => methodAt_behind blank _ inside file
  · exact fun name className => extentNamed?_behind blank _ name className

/-- A comment over two lines with code in it, a line comment with a brace behind
a tab, and a blank line with a carriage return. -/
def commentLines : List (List Char) :=
  ["/* class B \x7b".toList, " void f() \x7b \x7d */".toList, "\t// \x7b".toList, "\r".toList]

/-- A class with a method whose body goes over two lines. -/
def plainText : List Char :=
  "class A \x7b\n void f() \x7b\n  g();\n \x7d\n\x7d".toList

/-- Behind the comments, the method and its body are four lines further down. -/
theorem commentLines_lower_plainText :
    (∀ line ∈ commentLines, '\n' ∉ line) ∧
    Scan.ShowsNothing {} (commentLines.map Line.content) ∧
    (ofText {} (Line.toText commentLines ++ plainText)).methodAt (2 + 4) "A.java" =
      some { name := "f", className := some "A", file := "A.java", line := 6,
             returnType := some "void" } ∧
    (ofText {} (Line.toText commentLines ++ plainText)).extentNamed? "f" none =
      some { start := 5, last := 7, body := some { line := 5, column := 11 } } := by
  have whole : ∀ line ∈ commentLines, '\n' ∉ line := by decide
  have nothing : Scan.ShowsNothing {} (commentLines.map Line.content) :=
    ⟨by decide +kernel, by decide +kernel⟩
  obtain ⟨_, _, methodEq, extentEq⟩ := toText_append_lowers {} whole nothing plainText
  refine ⟨whole, nothing, (methodEq 2 "A.java" (by decide)).trans ?_,
    (extentEq "f" none).trans ?_⟩
  · decide +kernel
  · decide +kernel

end Source
end CallTree
