import CallTree.Project.Directory
import CallTree.Proofs.Text.Pieces
import CallTree.Workspace
import Mathlib.Data.List.Nodup
import Mathlib.Data.List.Perm.Basic

/-!
# Listings of a directory

The search for the files of a project leaves out excluded directories on the
way and stops adding files at the limit.  What it finds is what a plain walk
over the whole directory finds, of which the files of the project are kept and
then as many taken as the limit allows.
-/

namespace CallTree

open DirectoryProject (sortByName)

section SortByName

variable {α β : Type}

theorem sortByName_map (change : String × α → β) (items : List (String × α)) :
    sortByName (items.map fun item => (item.1, change item)) =
      (sortByName items).map fun item => (item.1, change item) := by
  symm
  apply List.map_mergeSort
  intros
  rfl

theorem sortByName_perm (items : List (String × α)) : (sortByName items).Perm items :=
  List.mergeSort_perm items _

theorem sortByName_pairwise (items : List (String × α)) :
    (sortByName items).Pairwise fun first second => first.1 ≤ second.1 := by
  have sorted : (sortByName items).Pairwise
      fun first second => decide (first.1 ≤ second.1) = true := by
    refine List.pairwise_mergeSort ?_ ?_ items
    · intro first second third before behind
      rw [decide_eq_true_eq] at before behind ⊢
      exact String.le_trans before behind
    · intro first second
      simpa using String.le_total first.1 second.1
  exact sorted.imp of_decide_eq_true

/-- Where no name is there twice, it does not matter whether items are left out
before or after they are sorted. -/
theorem sortByName_filter {items : List (String × α)} (distinct : (items.map Prod.fst).Nodup)
    (keep : String × α → Bool) :
    sortByName (items.filter keep) = (sortByName items).filter keep := by
  refine List.Perm.eq_of_pairwise ?_ (sortByName_pairwise _) ((sortByName_pairwise items).filter _)
    ((sortByName_perm _).trans ((sortByName_perm items).filter keep).symm)
  intro first second firstMem secondMem before behind
  have firstItem := List.mem_of_mem_filter ((sortByName_perm _).mem_iff.mp firstMem)
  have secondItem := (sortByName_perm items).mem_iff.mp (List.mem_of_mem_filter secondMem)
  exact List.inj_on_of_nodup_map distinct firstItem secondItem (String.le_antisymm before behind)

end SortByName

namespace Entry

/-- A name that a file or a folder can have. -/
def IsName (name : String) : Prop :=
  name ≠ "" ∧ name ≠ "." ∧ name ≠ ".." ∧ '/' ∉ name.toList ∧ Char.ofNat 0 ∉ name.toList

/-- A directory tree: in each folder every name is there once. -/
inductive WellNamed : Entry → Prop where
  | file (content : List UInt8) : WellNamed (.file content)
  | folder {items : List (String × Entry)} : (items.map Prod.fst).Nodup →
      (∀ item ∈ items, IsName item.1) → (∀ item ∈ items, WellNamed item.2) →
      WellNamed (.folder items)

mutual

/-- The parts of the files below an entry: the files of a folder by name, then
those of its folders by name. -/
def walk : Entry → List (List String)
  | .file _ => []
  | .folder items =>
      (sortByName (items.filter (·.2.isFile))).map (fun file => [file.1]) ++
        (sortByName (walks items)).flatMap fun folder => folder.2.map (folder.1 :: ·)

/-- The walks over the folders among the items. -/
def walks : List (String × Entry) → List (String × List (List String))
  | [] => []
  | (name, entry) :: items =>
      if entry.isFolder then (name, entry.walk) :: walks items else walks items

end

theorem walks_eq (items : List (String × Entry)) :
    walks items = (items.filter (·.2.isFolder)).map fun item => (item.1, item.2.walk) := by
  induction items with
  | nil => rfl
  | cons item items ih =>
      rw [walks, ih, List.filter_cons]
      split <;> rfl

theorem walk_folder (items : List (String × Entry)) :
    (Entry.folder items).walk =
      (sortByName (items.filter (·.2.isFile))).map (fun file => [file.1]) ++
        (sortByName (items.filter (·.2.isFolder))).flatMap fun folder =>
          folder.2.walk.map (folder.1 :: ·) := by
  rw [walk, walks_eq, sortByName_map, List.flatMap_map]

theorem ne_nil_of_mem_walk {entry : Entry} {parts : List String} (member : parts ∈ entry.walk) :
    parts ≠ [] := by
  cases entry with
  | file content => simp [walk] at member
  | folder items =>
      rw [walk_folder, List.mem_append, List.mem_map, List.mem_flatMap] at member
      rcases member with ⟨file, _, rfl⟩ | ⟨folder, _, below⟩
      · simp
      · obtain ⟨rest, _, rfl⟩ := List.mem_map.mp below
        simp

theorem isName_of_mem_walk {entry : Entry} (wellNamed : entry.WellNamed) {parts : List String}
    (member : parts ∈ entry.walk) : ∀ part ∈ parts, IsName part := by
  induction wellNamed generalizing parts with
  | file content => simp [walk] at member
  | folder distinct names _ ih =>
      rw [walk_folder, List.mem_append, List.mem_map, List.mem_flatMap] at member
      rcases member with ⟨file, fileMem, rfl⟩ | ⟨folder, folderMem, below⟩
      · have item := List.mem_of_mem_filter ((sortByName_perm _).mem_iff.mp fileMem)
        simpa using names file item
      · have item := List.mem_of_mem_filter ((sortByName_perm _).mem_iff.mp folderMem)
        obtain ⟨rest, restMem, rfl⟩ := List.mem_map.mp below
        exact List.forall_mem_cons.mpr ⟨names folder item, ih folder item restMem⟩

/-- No file is met twice. -/
theorem nodup_walk {entry : Entry} (wellNamed : entry.WellNamed) : entry.walk.Nodup := by
  induction wellNamed with
  | file content => exact List.nodup_nil
  | @folder items distinct _ _ ih =>
      have distinctSorted : ∀ keep, ((sortByName (items.filter keep)).map Prod.fst).Nodup := by
        intro keep
        refine ((sortByName_perm (items.filter keep)).map Prod.fst).nodup_iff.mpr ?_
        exact distinct.sublist (List.filter_sublist.map Prod.fst)
      rw [walk_folder]
      refine List.Nodup.append ?_ (List.nodup_flatMap.mpr ⟨?_, ?_⟩) ?_
      · have files := List.pairwise_map.mp (distinctSorted (·.2.isFile))
        exact List.pairwise_map.mpr
          (files.imp fun apart same => apart (List.singleton_injective same))
      · intro folder folderMem
        have item := List.mem_of_mem_filter ((sortByName_perm _).mem_iff.mp folderMem)
        exact (ih folder item).map List.cons_injective
      · have folders := List.pairwise_map.mp (distinctSorted (·.2.isFolder))
        refine folders.imp fun apart parts first second => ?_
        obtain ⟨_, _, rfl⟩ := List.mem_map.mp first
        obtain ⟨_, _, same⟩ := List.mem_map.mp second
        exact apart (List.cons.inj same).1.symm
      · -- The files of a folder have one part, those of its folders have more.
        intro parts fileMem belowMem
        obtain ⟨file, _, rfl⟩ := List.mem_map.mp fileMem
        obtain ⟨folder, _, below⟩ := List.mem_flatMap.mp belowMem
        obtain ⟨rest, restMem, same⟩ := List.mem_map.mp below
        exact ne_nil_of_mem_walk restMem (List.cons.inj same).2

end Entry

namespace DirectoryProject

/-- The file with the given parts below the root belongs to the project: it has
one of the extensions, none of the directories on the way to it is excluded,
and its path matches no excluded glob. -/
structure Keeps (project : DirectoryProject) (parts : List String) : Prop where
  extension : Text.lower (Path.suffixOf (parts.getLast?.getD "")) ∈ project.extensions
  directories : ∀ directory ∈ parts.dropLast, directory ∉ project.excludedDirectories
  globs : ∀ glob ∈ project.excludedGlobs,
    Glob.globMatches glob (Text.lower ("/".intercalate parts)) = false

variable (project : DirectoryProject)

instance : DecidablePred project.Keeps := fun parts =>
  decidable_of_iff
    (Text.lower (Path.suffixOf (parts.getLast?.getD "")) ∈ project.extensions ∧
      (∀ directory ∈ parts.dropLast, directory ∉ project.excludedDirectories) ∧
      ∀ glob ∈ project.excludedGlobs,
        Glob.globMatches glob (Text.lower ("/".intercalate parts)) = false)
    ⟨fun keeps => ⟨keeps.1, keeps.2.1, keeps.2.2⟩,
      fun keeps => ⟨keeps.extension, keeps.directories, keeps.globs⟩⟩

theorem accepts_eq_true_iff {parts : List String} (nonempty : parts ≠ []) :
    project.accepts parts = true ↔ project.Keeps parts := by
  have shown : ({ parts } : Path).toString = "/".intercalate parts := by
    rw [Path.toString, if_neg (by simpa using nonempty)]
    simp
  simp only [accepts, excludesParts, shown, Bool.and_eq_true, Bool.not_eq_true',
    Bool.or_eq_false_iff, List.contains_iff_mem, List.any_eq_false]
  constructor
  · rintro ⟨extension, directories, globs⟩
    exact ⟨extension, by simpa using directories, by simpa using globs⟩
  · rintro ⟨extension, directories, globs⟩
    exact ⟨extension, by simpa using directories, by simpa using globs⟩

/-- The files of the project among those of a directory, in the order of the
walk. -/
def kept (entry : Entry) : List (List String) :=
  entry.walk.filter fun parts => project.Keeps parts

/-- The paths of the files that a listing of the directory gives, which are not
more than the limit. -/
def files (entry : Entry) : List String :=
  ((project.kept entry).take project.maxFiles.toNat).map project.pathBelow

theorem filter_accepts_walk (entry : Entry) :
    entry.walk.filter project.accepts = project.kept entry := by
  refine List.filter_congr fun parts partsMem => ?_
  rw [Bool.eq_iff_iff, accepts_eq_true_iff project (Entry.ne_nil_of_mem_walk partsMem),
    decide_eq_true_iff]

theorem foldl_consider (files found : List (List String)) :
    files.foldl project.consider found =
      found ++ (files.filter project.accepts).take (project.maxFiles - found.length).toNat := by
  induction files generalizing found with
  | nil => simp
  | cons file files ih =>
      rw [List.foldl_cons, ih, consider]
      split
      · rename_i full
        have nothing : (project.maxFiles - found.length).toNat = 0 := by omega
        rw [nothing, List.take_zero, List.take_zero]
      · rename_i room
        split
        · rename_i accepted
          have next : (project.maxFiles - found.length).toNat =
              (project.maxFiles - (found ++ [file]).length).toNat + 1 := by
            rw [List.length_append, List.length_singleton]
            omega
          rw [List.filter_cons_of_pos accepted, next, List.take_succ_cons, List.append_assoc,
            List.singleton_append]
        · rename_i rejected
          rw [List.filter_cons_of_neg rejected]

theorem foldl_consider_of_rejected {files : List (List String)}
    (rejected : ∀ parts ∈ files, project.accepts parts = false) (found : List (List String)) :
    files.foldl project.consider found = found := by
  have nothing : files.filter project.accepts = [] :=
    List.filter_eq_nil_iff.mpr fun parts partsMem => by simp [rejected parts partsMem]
  rw [foldl_consider, nothing, List.take_nil, List.append_nil]

/-- Everything below an excluded directory is left out. -/
theorem accepts_eq_false_of_excluded {name : String} (here : List String)
    (excluded : name ∈ project.excludedDirectories) {rest : List String} (below : rest ≠ []) :
    project.accepts (here ++ name :: rest) = false := by
  have onTheWay : name ∈ (here ++ name :: rest).dropLast := by
    rw [List.dropLast_append_of_ne_nil (by simp), List.dropLast_cons_of_ne_nil below]
    simp
  have left : (here ++ name :: rest).dropLast.any project.excludedDirectories.contains = true :=
    List.any_eq_true.mpr ⟨name, onTheWay, List.contains_iff_mem.mpr excluded⟩
  rw [accepts, excludesParts, left]
  simp

theorem searchItems_eq (here : List String) (items : List (String × Entry)) :
    searchItems project here items =
      ((items.filter (·.2.isFolder)).filter
        (fun item => !project.excludedDirectories.contains item.1)).map fun item =>
          (item.1, searchEntry project (here ++ [item.1]) item.2) := by
  induction items with
  | nil => rfl
  | cons item items ih =>
      rw [searchItems, ih, List.filter_filter, List.filter_filter, List.filter_cons]
      split <;> rename_i chosen
      · rw [if_pos (by simpa [and_comm] using chosen)]
        rfl
      · rw [if_neg (by simpa [and_comm] using chosen)]

/-- The folders are searched one after another, where the excluded ones make no
difference. -/
theorem foldl_searchEntry {folders : List (String × Entry)} {here : List String}
    (searched : ∀ folder ∈ folders, ∀ found,
      searchEntry project (here ++ [folder.1]) folder.2 found =
        (folder.2.walk.map (here ++ [folder.1] ++ ·)).foldl project.consider found)
    (found : List (List String)) :
    (folders.filter (fun folder => !project.excludedDirectories.contains folder.1)).foldl
        (fun found folder => searchEntry project (here ++ [folder.1]) folder.2 found) found =
      ((folders.flatMap fun folder => folder.2.walk.map (folder.1 :: ·)).map (here ++ ·)).foldl
        project.consider found := by
  induction folders generalizing found with
  | nil => rfl
  | cons folder folders ih =>
      obtain ⟨first, later⟩ := List.forall_mem_cons.mp searched
      have below : (folder.2.walk.map (folder.1 :: ·)).map (here ++ ·) =
          folder.2.walk.map (here ++ [folder.1] ++ ·) := by
        rw [List.map_map]
        exact List.map_congr_left fun parts _ => by simp
      rw [List.flatMap_cons, List.map_append, List.foldl_append, below, List.filter_cons]
      split
      · rw [List.foldl_cons, first, ih later]
      · rename_i excluded
        have isExcluded : folder.1 ∈ project.excludedDirectories := by simpa using excluded
        have rejected : ∀ parts ∈ folder.2.walk.map (here ++ [folder.1] ++ ·),
            project.accepts parts = false := by
          intro parts partsMem
          obtain ⟨rest, restMem, rfl⟩ := List.mem_map.mp partsMem
          rw [List.append_assoc]
          exact accepts_eq_false_of_excluded project here isExcluded
            (Entry.ne_nil_of_mem_walk restMem)
        rw [foldl_consider_of_rejected project rejected, ih later]

/-- The search considers the files of the walk one after another.  Those of the
directories that it does not enter would be rejected. -/
theorem searchEntry_eq {entry : Entry} (wellNamed : entry.WellNamed) (here : List String)
    (found : List (List String)) :
    searchEntry project here entry found =
      (entry.walk.map (here ++ ·)).foldl project.consider found := by
  induction wellNamed generalizing here found with
  | file content => rfl
  | @folder items distinct _ _ ih =>
      have distinctFolders : ((items.filter (·.2.isFolder)).map Prod.fst).Nodup :=
        distinct.sublist (List.filter_sublist.map Prod.fst)
      have files : ∀ files : List (String × Entry),
          files.foldl (fun found file => project.consider found (here ++ [file.1])) found =
            ((files.map fun file => [file.1]).map (here ++ ·)).foldl project.consider found := by
        intro files
        rw [List.map_map, List.foldl_map]
        rfl
      rw [searchEntry, searchItems_eq, sortByName_map, sortByName_filter distinctFolders,
        List.foldl_map, Entry.walk_folder, List.map_append, List.foldl_append, ← files]
      refine foldl_searchEntry project (fun folder folderMem found => ?_) _
      have item := List.mem_of_mem_filter ((sortByName_perm _).mem_iff.mp folderMem)
      exact ih folder item _ found

theorem listing_eq_files {disk : Disk} {items : List (String × Entry)}
    (present : disk.find? project.root.toString = some (.folder items))
    (wellNamed : (Entry.folder items).WellNamed) :
    project.listing disk = .ok (project.files (.folder items)) := by
  have searched : searchEntry project [] (.folder items) [] =
      (project.kept (.folder items)).take project.maxFiles.toNat := by
    rw [searchEntry_eq project wellNamed, foldl_consider, ← filter_accepts_walk]
    simp
  rw [listing, present, files, ← searched]

/-- Files with different parts have different paths. -/
theorem pathBelow_injective {parts others : List String} (nonempty : parts ≠ [])
    (othersNonempty : others ≠ []) (names : ∀ part ∈ parts, Entry.IsName part)
    (otherNames : ∀ part ∈ others, Entry.IsName part)
    (same : project.pathBelow parts = project.pathBelow others) : parts = others := by
  have shown : ∀ parts : List String, parts ≠ [] → (project.pathBelow parts).toList =
      List.replicate project.root.slashes '/' ++
        ((project.root.parts.map String.toList).flatMap (· ++ ['/']) ++
          ['/'].intercalate (parts.map String.toList)) := by
    intro parts nonempty
    rw [pathBelow, Path.toString, if_neg (by simp [nonempty]), String.toList_append,
      String.toList_ofList, String.toList_intercalate, List.map_append,
      ← Text.intercalate_append _ (by simpa using nonempty)]
    rfl
  have plain : ∀ parts : List String, (∀ part ∈ parts, Entry.IsName part) →
      ∀ piece ∈ parts.map String.toList, '/' ∉ piece := by
    intro parts names piece pieceMem
    obtain ⟨part, partMem, rfl⟩ := List.mem_map.mp pieceMem
    exact (names part partMem).2.2.2.1
  have joined : ['/'].intercalate (parts.map String.toList) =
      ['/'].intercalate (others.map String.toList) := by
    have texts := congrArg String.toList same
    rw [shown parts nonempty, shown others othersNonempty] at texts
    exact List.append_cancel_left (List.append_cancel_left texts)
  have pieces := congrArg (Text.splitAt '/') joined
  rw [Text.splitAt_intercalate (by simpa using nonempty) (plain parts names),
    Text.splitAt_intercalate (by simpa using othersNonempty) (plain others otherNames)] at pieces
  exact List.map_injective_iff.mpr (fun _ _ => String.toList_inj.mp) pieces

theorem nodup_files {entry : Entry} (wellNamed : entry.WellNamed) :
    (project.files entry).Nodup := by
  have walked : ∀ parts ∈ (project.kept entry).take project.maxFiles.toNat, parts ∈ entry.walk :=
    fun parts partsMem => List.mem_of_mem_filter (List.mem_of_mem_take partsMem)
  refine List.Nodup.map_on ?_ ((Entry.nodup_walk wellNamed).filter _).take
  intro parts partsMem others othersMem same
  exact pathBelow_injective project (Entry.ne_nil_of_mem_walk (walked parts partsMem))
    (Entry.ne_nil_of_mem_walk (walked others othersMem))
    (Entry.isName_of_mem_walk wellNamed (walked parts partsMem))
    (Entry.isName_of_mem_walk wellNamed (walked others othersMem)) same

/-- A smaller limit cuts the listing short. -/
theorem files_prefix_of_le (entry : Entry) {limit : Int} (smaller : limit ≤ project.maxFiles) :
    { project with maxFiles := limit }.files entry <+: project.files entry := by
  rw [files, files, ← filter_accepts_walk, ← filter_accepts_walk]
  exact (List.take_prefix_take_left (Int.toNat_le_toNat smaller)).map _

end DirectoryProject

namespace Workspace

/-- The workspace after its files were listed again and again, where each time
the disk was changed afterwards. -/
def listedOn (workspace : Workspace) (disks : List Disk) : Workspace :=
  disks.foldl (fun workspace disk => { workspace.list.2 with disk }) workspace

theorem list_of_remembered {workspace : Workspace} {files : List String}
    (remembered : workspace.remembered = some files) : workspace.list.1 = .ok files := by
  simp only [list, DirectoryProject.toProject, remembered]

theorem remembered_of_list {workspace : Workspace} {files : List String}
    (listed : workspace.list.1 = .ok files) : workspace.list.2.remembered = some files := by
  rw [list] at listed ⊢
  split at listed
  · rename_i found
    cases found.symm.trans listed
    rfl
  · rename_i failed
    cases failed.symm.trans listed

/-- A listing that was given is given again, whatever happens to the disk. -/
theorem list_listedOn {workspace : Workspace} {files : List String}
    (listed : workspace.list.1 = .ok files) (disks : List Disk) :
    (workspace.listedOn disks).list.1 = .ok files := by
  induction disks generalizing workspace with
  | nil => exact listed
  | cons disk disks ih => exact ih (list_of_remembered (remembered_of_list listed))

/-- The listing of a directory has the files of the project in the order of the
walk, as many as the limit allows.  None is there twice, a smaller limit gives
the first of them, and the listing stays what it is when it is asked for
again. -/
theorem list_eq_files (workspace : Workspace) (unlisted : workspace.remembered = none)
    {items : List (String × Entry)}
    (present : workspace.disk.find? workspace.project.root.toString = some (.folder items))
    (wellNamed : (Entry.folder items).WellNamed) :
    workspace.list.1 = .ok (workspace.project.files (.folder items)) ∧
    (workspace.project.files (.folder items)).Nodup ∧
    (∀ limit ≤ workspace.project.maxFiles, ∃ fewer,
      { workspace with project := { workspace.project with maxFiles := limit } }.list.1 =
        .ok fewer ∧ fewer <+: workspace.project.files (.folder items)) ∧
    ∀ disks, (workspace.listedOn disks).list.1 = .ok (workspace.project.files (.folder items)) := by
  have lists : ∀ limit,
      { workspace with project := { workspace.project with maxFiles := limit } }.list.1 =
        .ok ({ workspace.project with maxFiles := limit }.files (.folder items)) := by
    intro limit
    simp only [list, DirectoryProject.toProject, unlisted]
    rw [DirectoryProject.listing_eq_files { workspace.project with maxFiles := limit } present
      wellNamed]
  have listed := lists workspace.project.maxFiles
  refine ⟨listed, DirectoryProject.nodup_files _ wellNamed, ?_, list_listedOn listed⟩
  intro limit smaller
  exact ⟨_, lists limit, DirectoryProject.files_prefix_of_le _ _ smaller⟩

/-- A folder with a file that has its extension in capitals, a file of another
kind, an excluded folder, and a folder with a file that matches a glob. -/
def mixedItems : List (String × Entry) := [
  ("src", .folder [("Z.java", .file []), ("A.java", .file [])]),
  ("notes.txt", .file []),
  ("build", .folder [("B.java", .file [])]),
  ("C.JAVA", .file [])]

/-- A project on that folder. -/
def mixedWorkspace : Workspace where
  disk := { top := .folder [("p", .folder mixedItems)] }
  project := {
    root := { slashes := 1, parts := ["p"] }
    extensions := [".java"]
    excludedDirectories := ["build"]
    excludedGlobs := ["src/z*"]
    encoding := "utf-8"
    maxFiles := 3 }

theorem wellNamed_mixedItems : (Entry.folder mixedItems).WellNamed := by
  have files : ∀ names : List String, names.Nodup → (∀ name ∈ names, Entry.IsName name) →
      (Entry.folder (names.map fun name => (name, .file []))).WellNamed := by
    intro names distinct proper
    refine .folder (by simpa [Function.comp_def] using distinct) ?_ ?_
    · simpa using proper
    · intro item itemMem
      obtain ⟨name, _, rfl⟩ := List.mem_map.mp itemMem
      exact .file []
  refine .folder (by decide) (by unfold Entry.IsName; decide) ?_
  simp only [mixedItems, List.forall_mem_cons]
  exact ⟨files ["Z.java", "A.java"] (by decide) (by unfold Entry.IsName; decide), .file [],
    files ["B.java"] (by decide) (by unfold Entry.IsName; decide), .file [], by simp⟩

/-- The file in the root comes first, and only one file of the other folders is
left. -/
theorem mixedWorkspace_lists :
    mixedWorkspace.remembered = none ∧
    mixedWorkspace.disk.find? mixedWorkspace.project.root.toString = some (.folder mixedItems) ∧
    (Entry.folder mixedItems).WellNamed ∧
    mixedWorkspace.list.1 = .ok ["/p/C.JAVA", "/p/src/A.java"] ∧
    (mixedWorkspace.listedOn [{}]).list.1 = .ok ["/p/C.JAVA", "/p/src/A.java"] := by
  have present : mixedWorkspace.disk.find? mixedWorkspace.project.root.toString =
      some (.folder mixedItems) := by rfl
  have walkEq : (Entry.folder mixedItems).walk =
      [["C.JAVA"], ["notes.txt"], ["build", "B.java"], ["src", "A.java"], ["src", "Z.java"]] := by
    simp [Entry.walk_folder, mixedItems, Entry.isFile, Entry.isFolder, sortByName,
      List.mergeSort]
  have filesEq : mixedWorkspace.project.files (.folder mixedItems) =
      ["/p/C.JAVA", "/p/src/A.java"] := by
    rw [DirectoryProject.files, DirectoryProject.kept, walkEq]
    decide +kernel
  obtain ⟨listed, _, _, again⟩ := list_eq_files mixedWorkspace rfl present wellNamed_mixedItems
  rw [filesEq] at listed again
  exact ⟨rfl, present, wellNamed_mixedItems, listed, again [{}]⟩

end Workspace
end CallTree
