import CallTree.Proofs.Path.Parts

/-!
# Paths in normal form

A path from the root whose parts are names, without single or double dots, is read
back from its text as it is.  Normalizing gives such a path and changes none.
-/

namespace CallTree
namespace Path

theorem slashes_ofString_le (text : String) : (ofString text).slashes ≤ 2 := by
  simp only [ofString]
  unfold leadingSlashes
  split <;> omega

/-- The parts of a text, of which only those between slashes count that are neither
empty nor single dots. -/
theorem parts_ofString (text : String) :
    (ofString text).parts = ((Text.splitAt '/' text.toList).map String.ofList).filter
      fun part => part != "" && part != "." :=
  rfl

section Text

variable {path : Path} (rooted : path.slashes ≠ 0)

include rooted

theorem toList_toString_of_rooted :
    path.toString.toList = List.replicate path.slashes '/' ++
      ['/'].intercalate (path.parts.map String.toList) := by
  rw [toString, if_neg (by simp [rooted]), String.toList_append, String.toList_ofList,
    String.toList_intercalate]
  rfl

/-- The text of a path is cut into nothing for each leading slash, and its parts. -/
theorem splitAt_toString :
    Text.splitAt '/' path.toString.toList = List.replicate path.slashes [] ++
      Text.splitAt '/' (['/'].intercalate (path.parts.map String.toList)) := by
  rw [toList_toString_of_rooted rooted]
  induction path.slashes with
  | zero => rfl
  | succ count ih =>
      rw [List.replicate_succ, List.cons_append, Text.splitAt, if_pos (by simp), ih]
      rfl

theorem leadingSlashes_toString (few : path.slashes ≤ 2)
    (parts : ∀ part ∈ path.parts, IsPart part) :
    leadingSlashes path.toString.toList = path.slashes := by
  have single : SingleSlashes ('/' :: ['/'].intercalate (path.parts.map String.toList)) := by
    apply singleSlashes_intercalate
    intro piece member
    obtain ⟨part, partMem, rfl⟩ := List.mem_map.mp member
    exact ⟨by simpa using (parts part partMem).1, (parts part partMem).2.2⟩
  rw [toList_toString_of_rooted rooted]
  have oneOrTwo : path.slashes = 1 ∨ path.slashes = 2 := by omega
  cases shown : ['/'].intercalate (path.parts.map String.toList) with
  | nil => rcases oneOrTwo with one | two <;> simp [*, leadingSlashes]
  | cons c rest =>
      have other : c ≠ '/' := by
        rw [shown] at single
        exact (List.isChain_cons_cons.mp single).1 rfl
      rcases oneOrTwo with one | two
      · rw [one, List.replicate_one, List.singleton_append, leadingSlashes.eq_def]
        grind
      · rw [two]
        simp only [List.replicate_succ, List.replicate_zero, List.cons_append, List.nil_append]
        rw [leadingSlashes.eq_def]
        grind

theorem parts_ofString_toString (parts : ∀ part ∈ path.parts, IsPart part) :
    (ofString path.toString).parts = path.parts := by
  have nothing : ((List.replicate path.slashes ([] : List Char)).map String.ofList).filter
      (fun part => part != "" && part != ".") = [] := by
    simp
  rw [parts_ofString, splitAt_toString rooted, List.map_append, List.filter_append, nothing,
    List.nil_append]
  cases empty : path.parts with
  | nil => simp [Text.splitAt]
  | cons part others =>
      rw [← empty, Text.splitAt_intercalate (by simp [empty]), List.map_map]
      · have back : String.ofList ∘ String.toList = id := by
          funext part
          exact String.ofList_toList
        rw [back, List.map_id]
        refine List.filter_eq_self.mpr fun part member => ?_
        simpa using ⟨(parts part member).1, (parts part member).2.1⟩
      · intro piece member
        obtain ⟨part, partMem, rfl⟩ := List.mem_map.mp member
        exact (parts part partMem).2.2

theorem hasNull_toString (plain : ∀ part ∈ path.parts, Char.ofNat 0 ∉ part.toList) :
    hasNull path.toString = false := by
  rw [hasNull, List.contains_eq_mem, decide_eq_false_iff_not, toList_toString_of_rooted rooted,
    List.mem_append, not_or]
  refine ⟨fun leading => ?_, fun inside => ?_⟩
  · exact absurd (List.eq_of_mem_replicate leading) (by decide)
  · rcases Text.mem_intercalate inside with slash | ⟨piece, pieceMem, inPiece⟩
    · exact absurd slash (by decide)
    · obtain ⟨part, partMem, rfl⟩ := List.mem_map.mp pieceMem
      exact plain part partMem inPiece

/-- A path is read back from its text. -/
theorem ofString_toString (few : path.slashes ≤ 2) (parts : ∀ part ∈ path.parts, IsPart part) :
    ofString path.toString = path := by
  have slashes : (ofString path.toString).slashes = path.slashes :=
    leadingSlashes_toString rooted few parts
  have same := parts_ofString_toString rooted parts
  cases read : ofString path.toString
  rw [read] at slashes same
  cases path
  simp_all

end Text

section Dots

variable {atRoot : Bool} {kept parts : List String} {part last : String}

theorem foldParts_name_cons (name : part ≠ "..") :
    foldParts atRoot kept (part :: parts) = foldParts atRoot (part :: kept) parts := by
  rw [foldParts.eq_def]
  exact if_pos (bne_iff_ne.mpr name)

theorem foldParts_dots_nil : foldParts true [] (".." :: parts) = foldParts true [] parts := by
  rw [foldParts.eq_def]
  rfl

theorem foldParts_dots_cons (name : last ≠ "..") :
    foldParts atRoot (last :: kept) (".." :: parts) = foldParts atRoot kept parts := by
  rw [foldParts.eq_def]
  simp [name]

theorem foldParts_of_not_mem (plain : ".." ∉ parts) :
    foldParts atRoot kept parts = kept.reverse ++ parts := by
  induction parts generalizing kept with
  | nil => rw [foldParts, List.append_nil]
  | cons part parts ih =>
      obtain ⟨apart, later⟩ := List.ne_and_not_mem_of_not_mem_cons plain
      rw [foldParts_name_cons apart.symm, ih later, List.reverse_cons, List.append_assoc,
        List.singleton_append]

/-- At the root double dots lead nowhere, so that none is left. -/
theorem not_mem_foldParts (plain : ".." ∉ kept) : ".." ∉ foldParts true kept parts := by
  induction parts generalizing kept with
  | nil => simpa [foldParts] using plain
  | cons part parts ih =>
      by_cases dots : part = ".."
      · subst dots
        cases kept with
        | nil =>
            rw [foldParts_dots_nil]
            exact ih plain
        | cons last kept =>
            obtain ⟨apart, plain⟩ := List.ne_and_not_mem_of_not_mem_cons plain
            rw [foldParts_dots_cons apart.symm]
            exact ih plain
      · rw [foldParts_name_cons dots]
        exact ih (List.not_mem_cons_of_ne_of_not_mem (Ne.symm dots) plain)

theorem foldParts_concat (plain : ".." ∉ kept) (name : last ≠ "..") :
    foldParts true kept (parts ++ [last]) = foldParts true kept parts ++ [last] := by
  induction parts generalizing kept with
  | nil =>
      rw [List.nil_append, foldParts_name_cons name, foldParts, foldParts, List.reverse_cons]
  | cons part parts ih =>
      rw [List.cons_append]
      by_cases dots : part = ".."
      · subst dots
        cases kept with
        | nil => rw [foldParts_dots_nil, foldParts_dots_nil, ih plain]
        | cons before kept =>
            obtain ⟨apart, plain⟩ := List.ne_and_not_mem_of_not_mem_cons plain
            rw [foldParts_dots_cons apart.symm, foldParts_dots_cons apart.symm, ih plain]
      · rw [foldParts_name_cons dots, foldParts_name_cons dots,
          ih (List.not_mem_cons_of_ne_of_not_mem (Ne.symm dots) plain)]

end Dots

/-- An absolute path in normal form: normalizing it changes nothing. -/
def IsNormal (text : String) : Prop :=
  (ofString text).isAbsolute = true ∧ (ofString text).normalize.toString = text

instance (text : String) : Decidable (IsNormal text) :=
  inferInstanceAs (Decidable (_ ∧ _))

section Normal

variable {text : String} (normal : IsNormal text)

include normal

theorem IsNormal.slashes_ne_zero : (ofString text).slashes ≠ 0 := by
  simpa [isAbsolute] using normal.1

/-- A text in normal form is read as a path in normal form. -/
theorem IsNormal.normalize_eq : (ofString text).normalize = ofString text := by
  have parts : ∀ part ∈ (ofString text).normalize.parts, IsPart part := by
    intro part member
    exact isPart_of_mem_parts_ofString ((mem_foldParts member).resolve_left List.not_mem_nil)
  have back : ofString (ofString text).normalize.toString = (ofString text).normalize :=
    ofString_toString normal.slashes_ne_zero (slashes_ofString_le text) parts
  rw [normal.2] at back
  exact back.symm

theorem IsNormal.toString_eq : (ofString text).toString = text := by
  rw [← normal.normalize_eq, normal.2]

end Normal

end Path
end CallTree
