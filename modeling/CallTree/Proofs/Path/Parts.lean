import CallTree.Path
import CallTree.Proofs.Text.Pieces
import Mathlib.Data.List.Chain

/-!
# Parts of a path

A path that was read has parts that are not empty and hold no slash, and so has the
place that it is resolved to.  Their texts have no two slashes in a row.
-/

namespace CallTree
namespace Path

theorem mem_parts_ofString {text part : String} (member : part ∈ (ofString text).parts) :
    part ≠ "" ∧ '/' ∉ part.toList ∧ part.toList ⊆ text.toList := by
  simp only [ofString, List.mem_filter, List.mem_map, Bool.and_eq_true, bne_iff_ne] at member
  obtain ⟨⟨piece, pieceMem, rfl⟩, nonempty, -⟩ := member
  rw [String.toList_ofList]
  exact ⟨nonempty, Text.not_mem_of_mem_splitAt pieceMem,
    (Text.infix_of_mem_splitAt pieceMem).subset⟩

theorem isPart_of_mem_parts_ofString {text part : String}
    (member : part ∈ (ofString text).parts) : IsPart part := by
  obtain ⟨nonempty, noSlash, -⟩ := mem_parts_ofString member
  simp only [ofString, List.mem_filter, Bool.and_eq_true, bne_iff_ne] at member
  exact ⟨nonempty, member.2.2, noSlash⟩

theorem mem_parts_under {directory path : Path} {part : String}
    (member : part ∈ (directory.under path).parts) :
    part ∈ directory.parts ∨ part ∈ path.parts := by
  rw [under] at member
  split at member
  · exact .inr member
  · exact List.mem_append.mp member

/-- No two slashes stand in a row. -/
def SingleSlashes (text : List Char) : Prop :=
  text.IsChain fun c next => c = '/' → next ≠ '/'

theorem SingleSlashes.infix {text part : List Char} (single : SingleSlashes text)
    (inside : part <:+: text) : SingleSlashes part :=
  List.IsChain.infix single inside

theorem not_singleSlashes_of_infix {text : List Char} (inside : ['/', '/'] <:+: text) :
    ¬SingleSlashes text := fun single => by
  simpa [SingleSlashes] using single.infix inside

theorem singleSlashes_of_not_mem {text : List Char} (plain : '/' ∉ text) :
    SingleSlashes text := by
  refine List.Pairwise.isChain (List.pairwise_of_forall_mem_list fun c member next _ slash => ?_)
  exact absurd (slash ▸ member) plain

theorem SingleSlashes.append_plain {text back : List Char} (single : SingleSlashes text)
    (plain : '/' ∉ back) : SingleSlashes (text ++ back) := by
  refine List.isChain_append.mpr ⟨single, singleSlashes_of_not_mem plain, ?_⟩
  rintro c - next starts - rfl
  exact plain (List.mem_of_mem_head? starts)

theorem SingleSlashes.plain_append {front text : List Char} (single : SingleSlashes text)
    (plain : '/' ∉ front) : SingleSlashes (front ++ text) := by
  refine List.isChain_append.mpr ⟨singleSlashes_of_not_mem plain, single, ?_⟩
  rintro c ends next - rfl
  exact absurd (List.mem_of_getLast? ends) plain

/-- Parts joined from the root have single slashes between them. -/
theorem singleSlashes_intercalate {parts : List (List Char)}
    (plain : ∀ part ∈ parts, part ≠ [] ∧ '/' ∉ part) :
    SingleSlashes ('/' :: ['/'].intercalate parts) := by
  induction parts with
  | nil => simp [SingleSlashes]
  | cons part parts ih =>
      obtain ⟨⟨nonempty, single⟩, later⟩ := List.forall_mem_cons.mp plain
      obtain ⟨c, part, rfl⟩ := List.exists_cons_of_ne_nil nonempty
      have starts : SingleSlashes (['/'].intercalate ((c :: part) :: parts)) := by
        cases parts with
        | nil => simpa using singleSlashes_of_not_mem single
        | cons next parts =>
            rw [List.intercalate_cons_cons, List.append_assoc]
            exact (ih later).plain_append single
      obtain ⟨rest, shape⟩ : ∃ rest, ['/'].intercalate ((c :: part) :: parts) = c :: rest := by
        cases parts <;> simp
      rw [shape] at starts ⊢
      exact List.isChain_cons_cons.mpr
        ⟨fun _ slash => single (slash ▸ List.mem_cons_self), starts⟩

/-- A path that was read, resolved from a directory that was read, has single
slashes, wherever the links of the disk lead. -/
theorem singleSlashes_of_resolve {links : Links} {directory path : String} {resolved : Path}
    (led : (ofString directory).resolve links (ofString path) = .ok resolved) :
    SingleSlashes resolved.toString.toList := by
  have given : ∀ part ∈ ((ofString directory).under (ofString path)).parts, IsPart part := by
    intro part member
    rcases mem_parts_under member with inDirectory | inPath
    · exact isPart_of_mem_parts_ofString inDirectory
    · exact isPart_of_mem_parts_ofString inPath
  obtain ⟨place, followed, made⟩ := exists_of_bind_eq_ok led
  cases made
  have shown : ({ slashes := 1, parts := place } : Path).toString.toList =
      '/' :: ['/'].intercalate (place.map String.toList) := by
    simp [toString, String.toList_intercalate]
  rw [shown]
  apply singleSlashes_intercalate
  intro piece member
  obtain ⟨part, partMem, rfl⟩ := List.mem_map.mp member
  have isPart := links.isPart given followed part partMem
  exact ⟨by simpa using isPart.1, isPart.2.2⟩

end Path
end CallTree
