import CallTree.Proofs.Path.Normal
import CallTree.Proofs.Project.Listing

/-!
# Places on a disk

Looking up the parts of a path leads through folders, and two dots lead back.  The
place that a path leads to is the list of names on the straight way there.  Where
no folder is a link, the place can be found without the disk: two dots and the
name before them cancel.  A file of a listing is found at the place that its
path spells out.
-/

namespace CallTree
namespace Entry

theorem lookup_of_mem {items : List (String × Entry)} {item : String × Entry}
    (distinct : (items.map Prod.fst).Nodup) (member : item ∈ items) :
    items.lookup item.1 = some item.2 := by
  induction items with
  | nil => cases member
  | cons first items ih =>
      obtain ⟨apart, distinct⟩ := List.nodup_cons.mp distinct
      rcases List.mem_cons.mp member with rfl | later
      · exact List.lookup_cons_self
      · have other : item.1 ≠ first.1 := fun same =>
          apart (same ▸ List.mem_map_of_mem later)
        rw [List.lookup_cons, beq_false_of_ne other]
        exact ih distinct later

theorem WellNamed.of_lookup {current inner : Entry} {name : String} (wellNamed : current.WellNamed)
    (found : current.items.lookup name = some inner) : IsName name ∧ inner.WellNamed := by
  cases wellNamed with
  | file content => cases found
  | folder _ names below =>
      obtain ⟨before, behind, itemsEq, -⟩ := List.lookup_eq_some_iff.mp found
      have member : (name, inner) ∈ _ := itemsEq ▸ List.mem_append_right before List.mem_cons_self
      exact ⟨names _ member, below _ member⟩

section Names

variable {above other : List Entry} {current found : Entry} {part : String} {parts : List String}

theorem find?_name_cons (isName : IsName part) :
    find? above current (part :: parts) =
      (current.items.lookup part).bind fun inner => find? (current :: above) inner parts := by
  obtain ⟨nonempty, notDot, notDots, -⟩ := isName
  cases current with
  | file content => rfl
  | folder items =>
      rw [find?.eq_def]
      dsimp only
      rw [if_neg (by simp [isFolder]), if_neg (by simp [nonempty, notDot]),
        if_neg (by simp [notDots])]
      cases (folder items).items.lookup part <;> rfl

/-- Names lead down, so that what is above does not matter. -/
theorem find?_names (names : ∀ part ∈ parts, IsName part) :
    find? above current parts = find? other current parts := by
  induction parts generalizing above other current with
  | nil => rfl
  | cons part parts ih =>
      obtain ⟨here, later⟩ := List.forall_mem_cons.mp names
      rw [find?_name_cons here, find?_name_cons here]
      congr 1
      funext inner
      exact ih later

theorem find?_append {front : List String} (names : ∀ part ∈ front ++ parts, IsName part) :
    find? above current (front ++ parts) =
      (find? above current front).bind fun inner => find? above inner parts := by
  induction front generalizing above current with
  | nil => rfl
  | cons part front ih =>
      rw [List.cons_append, List.forall_mem_cons] at names
      rw [List.cons_append, find?_name_cons names.1, find?_name_cons names.1, Option.bind_assoc]
      congr 1
      funext inner
      rw [ih names.2]
      congr 1
      funext entry
      exact find?_names fun part member => names.2 part (List.mem_append_right front member)

theorem WellNamed.of_find? (wellNamed : current.WellNamed) (names : ∀ part ∈ parts, IsName part)
    (present : find? above current parts = some found) : found.WellNamed := by
  induction parts generalizing above current with
  | nil =>
      cases present
      exact wellNamed
  | cons part parts ih =>
      obtain ⟨here, later⟩ := List.forall_mem_cons.mp names
      rw [find?_name_cons here] at present
      obtain ⟨inner, entered, present⟩ := Option.bind_eq_some_iff.mp present
      exact ih (wellNamed.of_lookup entered).2 later present

/-- Parts that stay where they are may be left out. -/
theorem find?_filter_of_some (present : find? above current parts = some found) :
    find? above current (parts.filter fun part => part != "" && part != ".") = some found := by
  induction parts generalizing above current with
  | nil => exact present
  | cons part parts ih =>
      rw [find?.eq_def] at present
      dsimp only at present
      split at present
      · cases present
      · rename_i isFolder
        split at present
        · rename_i stays
          rw [List.filter_cons_of_neg (by grind)]
          exact ih present
        · rename_i moves
          rw [List.filter_cons_of_pos (by grind), find?.eq_def]
          dsimp only
          rw [if_neg isFolder, if_neg moves]
          split at present
          · rename_i dots
            rw [if_pos dots]
            cases above with
            | nil => exact ih present
            | cons outer others => exact ih present
          · rename_i name
            rw [if_neg name]
            cases entered : current.items.lookup part with
            | none => simp [entered] at present
            | some inner =>
                rw [entered] at present
                exact ih present

/-- A file that a walk meets is found by its parts. -/
theorem exists_find?_of_mem_walk (wellNamed : current.WellNamed) (member : parts ∈ current.walk) :
    ∃ content, find? above current parts = some (.file content) := by
  induction wellNamed generalizing parts above with
  | file content => simp [walk] at member
  | @folder items distinct names _ ih =>
      rw [walk_folder, List.mem_append, List.mem_map, List.mem_flatMap] at member
      rcases member with ⟨file, fileMem, rfl⟩ | ⟨folder, folderMem, below⟩
      · obtain ⟨item, isFile⟩ := List.mem_filter.mp ((sortByName_perm _).mem_iff.mp fileMem)
        rw [find?_name_cons (names file item), Entry.items, lookup_of_mem distinct item]
        obtain ⟨name, entry⟩ := file
        cases entry with
        | file content => exact ⟨content, rfl⟩
        | folder items => cases isFile
      · have item := List.mem_of_mem_filter ((sortByName_perm _).mem_iff.mp folderMem)
        obtain ⟨rest, restMem, rfl⟩ := List.mem_map.mp below
        rw [find?_name_cons (names folder item), Entry.items, lookup_of_mem distinct item]
        exact ih folder item restMem

end Names

/-- What the parts of a path lead to, with its place.  The look-up is that of
`find?`; `above` has the folders around the current entry, each with the name that
was taken in it. -/
def locate? (above : List (String × Entry)) (current : Entry) :
    List String → Option (List String × Entry)
  | [] => some ((above.map Prod.fst).reverse, current)
  | part :: parts =>
      if !current.isFolder then none
      else if part == "" || part == "." then locate? above current parts
      else if part == ".." then
        match above with
        | [] => locate? [] current parts
        | (_, outer) :: others => locate? others outer parts
      else
        match current.items.lookup part with
        | none => none
        | some inner => locate? ((part, current) :: above) inner parts

/-- A path is located where it is found. -/
theorem map_snd_locate? (above : List (String × Entry)) (current : Entry) (parts : List String) :
    (locate? above current parts).map Prod.snd = find? (above.map Prod.snd) current parts := by
  fun_induction locate? above current parts with
  | case1 => rfl
  | case2 above current part parts isFile => simp [find?.eq_def, isFile]
  | case3 above current part parts isFolder stays ih =>
      rw [ih, find?.eq_def _ _ (part :: parts)]
      simp [isFolder, stays]
  | case4 current part parts isFolder moves dots ih =>
      rw [ih, find?.eq_def _ _ (part :: parts)]
      simp [isFolder, moves, dots]
  | case5 current part parts isFolder moves dots name outer others ih =>
      rw [ih, find?.eq_def _ _ (part :: parts)]
      simp [isFolder, moves, dots]
  | case6 above current part parts isFolder moves enters missing =>
      rw [find?.eq_def]
      simp [isFolder, moves, enters, missing]
  | case7 above current part parts isFolder moves enters inner entered ih =>
      rw [ih, find?.eq_def _ _ (part :: parts)]
      simp [isFolder, moves, enters, entered]

section Places

variable {above : List (String × Entry)} {current found : Entry} {parts place : List String}

/-- The place of a path is what is left of its parts when two dots cancel the part
before them. -/
theorem foldParts_of_locate? (plain : ".." ∉ above.map Prod.fst)
    (kept : ∀ part ∈ parts, part ≠ "" ∧ part ≠ ".")
    (located : locate? above current parts = some (place, found)) :
    Path.foldParts true (above.map Prod.fst) parts = place := by
  fun_induction locate? above current parts with
  | case1 above current =>
      cases located
      rfl
  | case2 => cases located
  | case3 above current part parts _ stays =>
      obtain ⟨nonempty, notDot⟩ := kept part List.mem_cons_self
      simp [nonempty, notDot] at stays
  | case4 current part parts _ _ dots ih =>
      rw [beq_iff_eq.mp dots, ← ih plain (List.forall_mem_cons.mp kept).2 located]
      exact Path.foldParts_dots_nil
  | case5 current part parts _ _ dots name outer others ih =>
      obtain ⟨apart, plain⟩ := List.ne_and_not_mem_of_not_mem_cons plain
      rw [beq_iff_eq.mp dots, ← ih plain (List.forall_mem_cons.mp kept).2 located]
      exact Path.foldParts_dots_cons apart.symm
  | case6 => cases located
  | case7 above current part parts _ _ enters inner _ ih =>
      have name : part ≠ ".." := by simpa using enters
      rw [← ih (List.not_mem_cons_of_ne_of_not_mem name.symm plain)
        (List.forall_mem_cons.mp kept).2 located]
      exact Path.foldParts_name_cons name

/-- No part that is looked up has a null character: it is a name, or dots. -/
theorem null_not_mem_of_locate?
    (wellNamed : ∀ entry ∈ current :: above.map Prod.snd, entry.WellNamed)
    (located : locate? above current parts = some (place, found)) :
    ∀ part ∈ parts, Char.ofNat 0 ∉ part.toList := by
  fun_induction locate? above current parts with
  | case1 => simp
  | case2 => cases located
  | case3 above current part parts _ stays ih =>
      refine List.forall_mem_cons.mpr ⟨?_, ih wellNamed located⟩
      simp only [Bool.or_eq_true, beq_iff_eq] at stays
      rcases stays with rfl | rfl <;> decide
  | case4 current part parts _ _ dots ih =>
      refine List.forall_mem_cons.mpr ⟨?_, ih wellNamed located⟩
      rw [beq_iff_eq.mp dots]
      decide
  | case5 current part parts _ _ dots name outer others ih =>
      refine List.forall_mem_cons.mpr ⟨?_, ih (List.forall_mem_cons.mp wellNamed).2 located⟩
      rw [beq_iff_eq.mp dots]
      decide
  | case6 => cases located
  | case7 above current part parts _ _ _ inner entered ih =>
      have here := (List.forall_mem_cons.mp wellNamed).1.of_lookup entered
      exact List.forall_mem_cons.mpr ⟨here.1.2.2.2.2,
        ih (List.forall_mem_cons.mpr ⟨here.2, wellNamed⟩) located⟩

end Places

end Entry
end CallTree
