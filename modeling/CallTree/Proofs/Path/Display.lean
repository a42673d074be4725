import CallTree.Proofs.Path.Normal

/-!
# Paths as they are shown

A path below the project's root is shown by the parts below, and a path elsewhere
as it is.  Whether a path lies elsewhere is read off the text of the way to it,
which then starts with two dots.  So does the text of a path below the root whose
first part starts with two dots: such a path is shown as it is, too.
-/

namespace CallTree
namespace Path

theorem dropCommon_append (origin below : List String) :
    dropCommon origin (origin ++ below) = ([], below) := by
  induction origin with
  | nil => cases below <;> rfl
  | cons part origin ih => rw [List.cons_append, dropCommon, if_pos (by simp), ih]

theorem relativeParts_append (origin below : List String) :
    relativeParts origin (origin ++ below) = below := by
  simp [relativeParts, dropCommon_append]

/-- The way to what does not lie below starts with a step up. -/
theorem exists_relativeParts_eq_cons {origin target : List String}
    (outside : ¬ origin <+: target) :
    ∃ rest, relativeParts origin target = ".." :: rest := by
  induction origin generalizing target with
  | nil => exact absurd List.nil_prefix outside
  | cons part origin ih =>
      cases target with
      | nil => exact ⟨_, rfl⟩
      | cons next target =>
          by_cases same : part = next
          · subst same
            obtain ⟨rest, way⟩ := ih fun inside => outside (List.cons_prefix_cons.mpr ⟨rfl, inside⟩)
            refine ⟨rest, ?_⟩
            rw [← way, relativeParts, relativeParts, dropCommon, if_pos (by simp)]
          · refine ⟨origin.map (fun _ => "..") ++ next :: target, ?_⟩
            rw [relativeParts, dropCommon, if_neg (by simpa using same)]
            rfl

theorem toString_of_parts {parts : List String} (nonempty : parts ≠ []) :
    ({ parts } : Path).toString = "/".intercalate parts := by
  rw [toString, if_neg (by simpa using nonempty)]
  simp

theorem length_splitAt_of_isAbsolute {text : String}
    (isAbsolute : (ofString text).isAbsolute = true) :
    2 ≤ (Text.splitAt '/' text.toList).length := by
  obtain ⟨rest, leading⟩ : ∃ rest, text.toList = '/' :: rest := by
    simp only [Path.isAbsolute, ofString, bne_iff_ne] at isAbsolute
    unfold leadingSlashes at isAbsolute
    split at isAbsolute
    · exact ⟨_, ‹_›⟩
    · exact ⟨_, ‹_›⟩
    · exact ⟨_, ‹_›⟩
    · exact absurd rfl isAbsolute
  have pieces := List.length_pos_iff.mpr (Text.splitAt_ne_nil '/' rest)
  rw [leading, Text.splitAt, if_pos (by simp), List.length_cons]
  omega

section Normal

variable {root path : String} (rootNormal : IsNormal root) (pathNormal : IsNormal path)

include rootNormal pathNormal

theorem relativeTo_of_isNormal (directory : Path) :
    directory.relativeTo (ofString root) (ofString path) =
      { parts := relativeParts (ofString root).parts (ofString path).parts } := by
  rw [relativeTo, absolute, absolute, under, under, if_pos rootNormal.1, if_pos pathNormal.1,
    rootNormal.normalize_eq, pathNormal.normalize_eq]

theorem display_of_isNormal (directory : Path) :
    display directory root path =
      let shown := ({ parts := relativeParts (ofString root).parts (ofString path).parts } :
        Path).toString
      if "..".toList.isPrefixOf shown.toList then path else shown := by
  have given : (root.isEmpty || !(ofString path).isAbsolute) = false := by
    have nonempty : root ≠ "" := by
      rintro rfl
      exact absurd rootNormal.1 (by decide)
    simp [nonempty, pathNormal.1]
  rw [display, given, relativeTo_of_isNormal rootNormal pathNormal]
  exact if_neg Bool.false_ne_true

theorem display_of_outside (directory : Path)
    (outside : ¬ (ofString root).parts <+: (ofString path).parts) :
    display directory root path = path := by
  obtain ⟨rest, way⟩ := exists_relativeParts_eq_cons outside
  have starts : "..".toList.isPrefixOf ("/".intercalate (".." :: rest)).toList = true := by
    rw [String.toList_intercalate, List.map_cons, List.isPrefixOf_iff_prefix]
    cases rest <;> simp
  rw [display_of_isNormal rootNormal pathNormal, way, toString_of_parts (by simp)]
  exact if_pos starts

theorem display_of_below (directory : Path) {below : List String} (nonempty : below ≠ [])
    (inside : (ofString path).parts = (ofString root).parts ++ below) :
    display directory root path =
      if "..".toList <+: ("/".intercalate below).toList then path else "/".intercalate below := by
  rw [display_of_isNormal rootNormal pathNormal, inside, relativeParts_append,
    toString_of_parts nonempty]
  simp only [List.isPrefixOf_iff_prefix]

/-- What stands behind the root in a normal path is cut into parts. -/
theorem isPart_of_mem_splitAt {rest : String} (nonempty : rest ≠ "")
    (joined : Text.splitAt '/' path.toList =
      Text.splitAt '/' root.toList ++ Text.splitAt '/' rest.toList) :
    ∀ piece ∈ Text.splitAt '/' rest.toList, IsPart (String.ofList piece) := by
  have cut : Text.splitAt '/' path.toList = List.replicate (ofString path).slashes [] ++
      Text.splitAt '/' (['/'].intercalate ((ofString path).parts.map String.toList)) := by
    rw [← splitAt_toString pathNormal.slashes_ne_zero, pathNormal.toString_eq]
  -- The root has at least two pieces, so that no leading slash of the path is left behind it.
  have behind : Text.splitAt '/' rest.toList <:+
      Text.splitAt '/' (['/'].intercalate ((ofString path).parts.map String.toList)) := by
    have lengths := congrArg List.length (joined.symm.trans cut)
    have leading := length_splitAt_of_isAbsolute rootNormal.1
    have few := slashes_ofString_le path
    rw [List.length_append, List.length_append, List.length_replicate] at lengths
    refine List.suffix_of_suffix_length_le (joined ▸ List.suffix_append _ _)
      (cut ▸ List.suffix_append _ _) (by omega)
  intro piece member
  cases empty : (ofString path).parts with
  | nil =>
      rw [empty] at behind
      have only : Text.splitAt '/' rest.toList = [[]] :=
        (List.suffix_cons_iff.mp behind).resolve_right fun nothing =>
          Text.splitAt_ne_nil '/' rest.toList (List.suffix_nil.mp nothing)
      have shown : ['/'].intercalate (Text.splitAt '/' rest.toList) = rest.toList :=
        Text.intercalate_splitAt rest.toList
      rw [only] at shown
      exact absurd (String.toList_eq_nil_iff.mp shown.symm) nonempty
  | cons part others =>
      rw [Text.splitAt_intercalate (by simp [empty])] at behind
      · obtain ⟨part, partMem, rfl⟩ := List.mem_map.mp (behind.subset member)
        rw [String.ofList_toList]
        exact isPart_of_mem_parts_ofString partMem
      · intro piece member
        obtain ⟨part, partMem, rfl⟩ := List.mem_map.mp member
        exact (isPart_of_mem_parts_ofString partMem).2.2

/-- What stands behind the root in a normal path are its further parts. -/
theorem exists_below {rest : String} (nonempty : rest ≠ "")
    (joined : path = root ++ "/" ++ rest) :
    ∃ below, below ≠ [] ∧ (ofString path).parts = (ofString root).parts ++ below ∧
      "/".intercalate below = rest := by
  have pieces : Text.splitAt '/' path.toList =
      Text.splitAt '/' root.toList ++ Text.splitAt '/' rest.toList := by
    rw [joined, String.toList_append, String.toList_append, List.append_assoc]
    exact Text.splitAt_append_cons root.toList rest.toList
  have kept := isPart_of_mem_splitAt rootNormal pathNormal nonempty pieces
  refine ⟨(Text.splitAt '/' rest.toList).map String.ofList, ?_, ?_, ?_⟩
  · simpa using Text.splitAt_ne_nil '/' rest.toList
  · rw [parts_ofString, pieces, List.map_append, List.filter_append]
    congr 1
    refine List.filter_eq_self.mpr fun part member => ?_
    obtain ⟨piece, pieceMem, rfl⟩ := List.mem_map.mp member
    rw [Bool.and_eq_true, bne_iff_ne, bne_iff_ne]
    exact ⟨(kept piece pieceMem).1, (kept piece pieceMem).2.1⟩
  · rw [← String.toList_inj, String.toList_intercalate, List.map_map]
    have back : String.toList ∘ String.ofList = id := by
      funext piece
      exact String.toList_ofList
    rw [back, List.map_id]
    exact Text.intercalate_splitAt rest.toList

end Normal

/-- What is shown of a path, where the path and the root are in normal form.  Of a
path that goes on behind the root with a slash it is the rest, unless the rest starts
with two dots: then it is the whole path.  A path that is not the root and does not
lie below it is shown as it is. -/
theorem display_below_unless_dots (directory : Path) {root path : String}
    (rootNormal : IsNormal root) (pathNormal : IsNormal path) :
    (∀ rest ≠ "", path = root ++ "/" ++ rest →
      display directory root path = if "..".toList <+: rest.toList then path else rest) ∧
    (¬ (ofString root).parts <+: (ofString path).parts → display directory root path = path) := by
  refine ⟨?_, display_of_outside rootNormal pathNormal directory⟩
  intro rest nonempty joined
  obtain ⟨below, belowNonempty, inside, rfl⟩ :=
    exists_below rootNormal pathNormal nonempty joined
  exact display_of_below rootNormal pathNormal directory belowNonempty inside

/-- A file of the project, and a file beside it whose path starts with the text of
the root. -/
theorem neighbours_displayed :
    IsNormal "/p" ∧ IsNormal "/p/src/A.java" ∧ IsNormal "/p.old/A.java" ∧
    display { slashes := 1 } "/p" "/p/src/A.java" = "src/A.java" ∧
    display { slashes := 1 } "/p" "/p.old/A.java" = "/p.old/A.java" := by
  have root : IsNormal "/p" := by decide +kernel
  have inside : IsNormal "/p/src/A.java" := by decide +kernel
  have beside : IsNormal "/p.old/A.java" := by decide +kernel
  have shown := (display_below_unless_dots { slashes := 1 } root inside).1 "src/A.java"
    (by decide) (by decide)
  rw [if_neg (by decide)] at shown
  exact ⟨root, inside, beside, shown,
    (display_below_unless_dots { slashes := 1 } root beside).2 (by decide +kernel)⟩

/-- A directory of the project may have a name that starts with two dots. -/
theorem not_display_below :
    ¬ ∀ (directory : Path) (root path rest : String), IsNormal root → root ≠ "/" →
      IsNormal path → rest ≠ "" → path = root ++ "/" ++ rest →
        display directory root path = rest := by
  intro always
  have shown := always { slashes := 1 } "/p" "/p/..x/A.java" "..x/A.java" (by decide +kernel)
    (by decide) (by decide +kernel) (by decide) (by decide)
  exact absurd shown (by decide +kernel)

end Path
end CallTree
