import CallTree.Proofs.Analysis.Outcome
import CallTree.Proofs.Project.Places

/-!
# Spellings of a path

A file may be named by many paths: from the root of the disk or from that of the
project, with dots and double dots, and with slashes in a row.  All that lead to the
place of a listed file are normalized to its path in the listing.  So an analysis
does not depend on the spelling, and its root is known under the listed path.
-/

namespace CallTree

/-- A path from a single root whose parts are all names. -/
structure Path.IsResolved (path : Path) : Prop where
  slashes : path.slashes = 1
  names : ∀ part ∈ path.parts, Entry.IsName part

theorem Entry.IsName.isPart {name : String} (isName : IsName name) : Path.IsPart name :=
  ⟨isName.1, isName.2.1, isName.2.2.2.1⟩

namespace Path

variable {path : Path}

theorem IsResolved.ofString_toString (resolved : path.IsResolved) :
    ofString path.toString = path :=
  Path.ofString_toString (by simp [resolved.slashes]) (by simp [resolved.slashes])
    fun part member => (resolved.names part member).isPart

theorem IsResolved.isAbsolute (resolved : path.IsResolved) : path.isAbsolute = true := by
  simp [Path.isAbsolute, resolved.slashes]

theorem isAbsolute_under {directory : Path} (resolved : directory.IsResolved) (path : Path) :
    (directory.under path).isAbsolute = true := by
  rw [under]
  split
  · assumption
  · exact resolved.isAbsolute

/-- Resolving a path without null characters from a resolved directory. -/
theorem IsResolved.resolve {directory : Path} (resolved : directory.IsResolved) {text : String}
    (plain : hasNull text = false)
    (led : directory.resolve .none (ofString text) = .ok path) : path.IsResolved := by
  rw [resolve_none] at led
  cases led
  refine ⟨rfl, fun part member => ?_⟩
  have notDots : part ≠ ".." := by
    rintro rfl
    exact not_mem_foldParts List.not_mem_nil member
  rcases mem_parts_under ((mem_foldParts member).resolve_left List.not_mem_nil) with given | given
  · exact resolved.names part given
  · obtain ⟨nonempty, notDot, noSlash⟩ := isPart_of_mem_parts_ofString given
    refine ⟨nonempty, notDot, notDots, noSlash, fun null => ?_⟩
    have inText := (mem_parts_ofString given).2.2 null
    simp [hasNull, inText] at plain

end Path

namespace Disk

/-- A directory tree with the names that a file system admits, and a resolved path
as working directory. -/
structure IsProper (disk : Disk) : Prop where
  wellNamed : disk.top.WellNamed
  directory : disk.directory.IsResolved

/-- The place that a path leads to, seen from a directory. -/
def place? (disk : Disk) (directory : Path) (path : String) : Option (List String) :=
  (disk.top.locate? [] (directory.under (Path.ofString path)).parts).map Prod.fst

/-- A path has the same last part as another one and leads to the same place. -/
structure Spells (disk : Disk) (directory : Path) (spelling path : String) : Prop where
  name_eq : (Path.ofString spelling).name = (Path.ofString path).name
  place_eq : disk.place? directory spelling = disk.place? directory path

/-- Names that lead to something from the top of the disk are its place. -/
theorem place?_of_find? {disk : Disk} {path : Path} (resolved : path.IsResolved) {entry : Entry}
    (found : disk.top.find? [] path.parts = some entry) (directory : Path) :
    disk.place? directory path.toString = some path.parts := by
  have given : directory.under (Path.ofString path.toString) = path := by
    rw [resolved.ofString_toString, Path.under, if_pos resolved.isAbsolute]
  have located := Entry.map_snd_locate? [] disk.top path.parts
  rw [List.map_nil, found] at located
  obtain ⟨⟨place, here⟩, located, -⟩ := Option.map_eq_some_iff.mp located
  have straight := Entry.foldParts_of_locate? List.not_mem_nil
    (fun part member => ⟨(resolved.names part member).1, (resolved.names part member).2.1⟩) located
  have noDots : ".." ∉ path.parts := fun member => (resolved.names _ member).2.2.1 rfl
  rw [List.map_nil, Path.foldParts_of_not_mem noDots] at straight
  rw [place?, given, located, ← straight]
  rfl

end Disk

namespace DirectoryProject

variable {disk : Disk} {project : DirectoryProject} {files : List String} {file : String}

section Listed

variable (resolved : project.root.IsResolved)

include resolved

theorem isResolved_below {names : List String} (isName : ∀ name ∈ names, Entry.IsName name) :
    Path.IsResolved { project.root with parts := project.root.parts ++ names } where
  slashes := resolved.slashes
  names := by
    intro part member
    rcases List.mem_append.mp member with above | below
    · exact resolved.names part above
    · exact isName part below

theorem find?_root {entry : Entry} (present : disk.find? project.root.toString = some entry) :
    disk.top.find? [] project.root.parts = some entry := by
  rw [Disk.find?] at present
  split at present
  · cases present
  · have raw : disk.rawParts project.root.toString =
        (Text.splitAt '/' project.root.toString.toList).map String.ofList := by
      rw [Disk.rawParts, resolved.ofString_toString, if_pos resolved.isAbsolute]
    rw [raw] at present
    have found := Entry.find?_filter_of_some present
    rwa [← Path.parts_ofString, resolved.ofString_toString] at found

/-- A listed file is the one that some names lead to from the root of the project. -/
theorem exists_names_of_listed (wellNamed : disk.top.WellNamed)
    (listed : project.listing disk = .ok files) (member : file ∈ files) :
    ∃ names, names ≠ [] ∧ (∀ name ∈ names, Entry.IsName name) ∧ file = project.pathBelow names ∧
      disk.place? project.root file = some (project.root.parts ++ names) := by
  obtain ⟨items, present⟩ : ∃ items,
      disk.find? project.root.toString = some (.folder items) := by
    rw [listing] at listed
    split at listed
    · exact ⟨_, ‹_›⟩
    · cases listed
  have rootFound := find?_root resolved present
  have rootNamed : (Entry.folder items).WellNamed := wellNamed.of_find? resolved.names rootFound
  rw [listing_eq_files project present rootNamed] at listed
  cases listed
  obtain ⟨names, kept, rfl⟩ := List.mem_map.mp member
  have walked : names ∈ (Entry.folder items).walk :=
    List.mem_of_mem_filter (List.mem_of_mem_take kept)
  have isName := Entry.isName_of_mem_walk rootNamed walked
  have below := isResolved_below resolved isName
  obtain ⟨content, found⟩ := @Entry.exists_find?_of_mem_walk [] _ names rootNamed walked
  have fileFound : disk.top.find? [] (project.root.parts ++ names) = some (.file content) := by
    rw [Entry.find?_append below.names, rootFound]
    exact found
  exact ⟨names, Entry.ne_nil_of_mem_walk walked, isName, rfl,
    Disk.place?_of_find? below fileFound project.root⟩

end Listed

theorem isResolved_root {root : String} {settings : Settings}
    (directory : disk.directory.IsResolved) (created : create disk root settings = .ok project) :
    project.root.IsResolved := by
  rw [create] at created
  split at created
  · cases created
  · rename_i plain
    obtain ⟨resolved, led, made⟩ := exists_of_bind_eq_ok created
    cases made
    exact directory.resolve (Bool.not_eq_true _ ▸ plain) led

theorem normalize_toProject (project : DirectoryProject) (disk : Disk)
    (remembered : Option (List String)) :
    (project.toProject disk remembered).normalize = project.normalize := by
  simp only [toProject]

section Normalizing

variable (resolved : project.root.IsResolved) {spelling last : String} {front names : List String}

include resolved

/-- A path whose last part is a name is normalized to what is left of its directory
when double dots cancel, and that name. -/
theorem normalize_eq
    (parts_eq : (project.root.under (Path.ofString spelling)).parts = front ++ [last])
    (isName : Entry.IsName last) (plain : ∀ part ∈ front, Char.ofNat 0 ∉ part.toList) :
    project.normalize spelling =
      .ok { slashes := 1, parts := Path.foldParts true [] front ++ [last] : Path }.toString := by
  have isAbsolute := Path.isAbsolute_under resolved (Path.ofString spelling)
  rw [normalize]
  generalize project.root.under (Path.ofString spelling) = path at parts_eq isAbsolute
  have parentParts : path.parent.parts = front := by simp [Path.parent, parts_eq]
  have parentAbsolute : path.parent.isAbsolute = true := isAbsolute
  have nameEq : path.name = last := by simp [Path.name, parts_eq]
  have noNull : Path.hasNull path.parent.toString = false :=
    Path.hasNull_toString (by simpa [Path.isAbsolute] using parentAbsolute)
      (parentParts ▸ plain)
  have directory : project.root.resolve .none path.parent =
      .ok { slashes := 1, parts := Path.foldParts true [] front } := by
    rw [Path.resolve_none, Path.under, if_pos parentAbsolute, parentParts]
  have onlyName : (if path.name == "" then [] else [path.name]) = [last] := by
    rw [nameEq, if_neg (by simpa using isName.1)]
  rw [noNull, directory, onlyName]
  rfl

/-- The last part of a spelling is the last name of the file. -/
theorem exists_parts_eq (isName : ∀ name ∈ names ++ [last], Entry.IsName name)
    (spells : disk.Spells project.root spelling (project.pathBelow (names ++ [last]))) :
    ∃ front, (project.root.under (Path.ofString spelling)).parts = front ++ [last] := by
  have read := (isResolved_below resolved isName).ofString_toString
  have nameEq : (Path.ofString spelling).name = last := by
    rw [spells.name_eq, pathBelow, read, Path.name, ← List.append_assoc]
    simp
  have nonempty : (Path.ofString spelling).parts ≠ [] := by
    intro empty
    rw [Path.name, empty] at nameEq
    exact (isName last (by simp)).1 nameEq.symm
  have lastEq : (Path.ofString spelling).parts.getLast nonempty = last := by
    rwa [Path.name, List.getLast?_eq_some_getLast nonempty] at nameEq
  have split := List.dropLast_concat_getLast nonempty
  rw [lastEq] at split
  rw [Path.under]
  split
  · exact ⟨_, split.symm⟩
  · exact ⟨_, by rw [← split, ← List.append_assoc]⟩

theorem normalize_of_spells (wellNamed : disk.top.WellNamed)
    (isName : ∀ name ∈ names ++ [last], Entry.IsName name)
    (place_eq : disk.place? project.root (project.pathBelow (names ++ [last])) =
      some (project.root.parts ++ (names ++ [last])))
    (spells : disk.Spells project.root spelling (project.pathBelow (names ++ [last]))) :
    project.normalize spelling = .ok (project.pathBelow (names ++ [last])) := by
  obtain ⟨front, parts_eq⟩ := exists_parts_eq resolved isName spells
  have lastName : Entry.IsName last := isName last (by simp)
  obtain ⟨⟨_, found⟩, located, rfl⟩ :=
    Option.map_eq_some_iff.mp (spells.place_eq.trans place_eq)
  have plain := Entry.null_not_mem_of_locate? (by simpa using wellNamed) located
  have kept : ∀ part ∈ (project.root.under (Path.ofString spelling)).parts,
      part ≠ "" ∧ part ≠ "." := by
    intro part member
    rcases Path.mem_parts_under member with given | given
    · exact ⟨(resolved.names part given).1, (resolved.names part given).2.1⟩
    · have isPart := Path.isPart_of_mem_parts_ofString given
      exact ⟨isPart.1, isPart.2.1⟩
  have folded := Entry.foldParts_of_locate? List.not_mem_nil kept located
  rw [parts_eq] at plain folded
  rw [List.map_nil, Path.foldParts_concat List.not_mem_nil lastName.2.2.1] at folded
  rw [normalize_eq resolved parts_eq lastName
    fun part member => plain part (List.mem_append_left _ member)]
  rw [folded, pathBelow]
  dsimp only
  rw [resolved.slashes]

end Normalizing

end DirectoryProject

namespace Analysis

variable {project : Project} {configuration : Configuration} {metrics : Metrics} {line : Int}
variable {text direction : Option String} {file : String}

/-- An analysis sees of the path at its cursor only what it is normalized to. -/
theorem run_eq_of_normalize {spelling other : String}
    (same : project.normalize spelling = project.normalize other) :
    run project configuration metrics { file := spelling, line, text } direction =
      run project configuration metrics { file := other, line, text } direction := by
  simp only [run, toward, same]

/-- The root of a tree stands in the file that the path is normalized to. -/
theorem file_root_of_normalize {spelling : String} {chain : Chain}
    (normalized : project.normalize spelling = .ok file)
    (returned : (run project configuration metrics { file := spelling, line, text }
      direction).result = .ok (some chain)) : chain.root.occurrence.file = file := by
  obtain ⟨corpus, root, after, seen, found, _, grows⟩ := exists_growth returned
  have fileEq : corpus.file = file := by
    obtain ⟨path, pathEq, rest⟩ := Option.bind_eq_some_iff.mp seen
    obtain ⟨_, _, made⟩ := Option.bind_eq_some_iff.mp rest
    cases made
    rw [normalized] at pathEq
    exact (Option.some.inj pathEq).symm
  have rootFile : root.file = corpus.file := Source.file_of_methodAt found
  have rootLeaf := List.head_eq_of_cons_eq grows.occurrences
  calc
    chain.root.occurrence.file = chain.root.occurrence.asLeaf.file := rfl
    _ = (Branch.reach root).occurrence.file := congrArg Occurrence.file rootLeaf
    _ = file := rootFile.trans fileEq

end Analysis

namespace DirectoryProject

/-- Every path that spells a listed file is normalized to its path in the listing, as that path
itself is.  So the analyses of two spellings are one, and the root of the tree is known under
the listed path. -/
theorem normalize_spellings {disk : Disk} {root file : String} {settings : Settings}
    {project : DirectoryProject} {files : List String} (proper : disk.IsProper)
    (created : create disk root settings = .ok project)
    (listed : project.listing disk = .ok files) (member : file ∈ files) :
    (∀ spelling, disk.Spells project.root spelling file → project.normalize spelling = .ok file) ∧
    project.normalize file = .ok file ∧
    ∀ first second, disk.Spells project.root first file → disk.Spells project.root second file →
      ∀ remembered configuration metrics line text direction,
        let analyze := fun spelling => Analysis.run (project.toProject disk remembered)
          configuration metrics { file := spelling, line, text } direction
        analyze first = analyze second ∧
          ∀ chain, (analyze first).result = .ok (some chain) →
            chain.root.occurrence.file = file := by
  have resolved := isResolved_root proper.directory created
  obtain ⟨names, nonempty, isName, rfl, place_eq⟩ :=
    exists_names_of_listed resolved proper.wellNamed listed member
  obtain ⟨before, last, rfl⟩ : ∃ before last, names = before ++ [last] :=
    ⟨_, _, (List.dropLast_concat_getLast nonempty).symm⟩
  have normalized := fun spelling =>
    @normalize_of_spells disk project resolved spelling last before proper.wellNamed isName place_eq
  refine ⟨normalized, normalized _ ⟨rfl, rfl⟩, ?_⟩
  intro first second firstSpells secondSpells remembered configuration metrics line text direction
  rw [← normalize_toProject project disk remembered] at normalized
  have firstNormal := normalized first firstSpells
  have secondNormal := normalized second secondSpells
  refine ⟨Analysis.run_eq_of_normalize (firstNormal.trans secondNormal.symm), ?_⟩
  intro chain returned
  exact Analysis.file_root_of_normalize firstNormal returned

/-- What is in the folder of a project with one file. -/
def sourceItems : List (String × Entry) :=
  [("src", .folder [("A.java", .file [])])]

/-- A disk with a project in one of its two folders. -/
def twoFolders : Disk where
  top := .folder [("p", .folder sourceItems), ("q", .folder [])]

/-- The project in the first folder. -/
def firstFolder : DirectoryProject where
  root := { slashes := 1, parts := ["p"] }
  extensions := [".java"]
  excludedDirectories := alwaysExcluded
  excludedGlobs := []
  encoding := "utf-8"
  maxFiles := 20000

theorem wellNamed_sourceItems : (Entry.folder sourceItems).WellNamed := by
  have source : (Entry.folder [("A.java", .file [])]).WellNamed :=
    .folder (by decide) (by unfold Entry.IsName; decide) (by simpa using .file [])
  exact .folder (by decide) (by unfold Entry.IsName; decide) (by simpa [sourceItems] using source)

theorem isProper_twoFolders : twoFolders.IsProper where
  wellNamed := by
    have second : (Entry.folder []).WellNamed := .folder (by decide) (by simp) (by simp)
    exact .folder (by decide) (by unfold Entry.IsName; decide)
      (by simpa using ⟨wellNamed_sourceItems, second⟩)
  directory := ⟨rfl, by simp [twoFolders]⟩

theorem listing_twoFolders : firstFolder.listing twoFolders = .ok ["/p/src/A.java"] := by
  have walkEq : (Entry.folder sourceItems).walk = [["src", "A.java"]] := by
    simp [Entry.walk_folder, sourceItems, Entry.isFile, Entry.isFolder, sortByName]
  have filesEq : firstFolder.files (.folder sourceItems) = ["/p/src/A.java"] := by
    rw [files, kept, walkEq]
    decide +kernel
  rw [listing_eq_files firstFolder rfl wellNamed_sourceItems, filesEq]

/-- One path leads through the other folder, and the other one starts with two
slashes and has a slash at its end. -/
theorem twoFolders_spellings :
    twoFolders.IsProper ∧ create twoFolders "q/../p/" {} = .ok firstFolder ∧
    firstFolder.listing twoFolders = .ok ["/p/src/A.java"] ∧
    twoFolders.Spells firstFolder.root "../q/.././p/src//A.java" "/p/src/A.java" ∧
    firstFolder.normalize "../q/.././p/src//A.java" = .ok "/p/src/A.java" ∧
    firstFolder.normalize "//p/src/../src/A.java/" = .ok "/p/src/A.java" := by
  have created : create twoFolders "q/../p/" {} = .ok firstFolder := by rfl
  have relative : twoFolders.Spells firstFolder.root "../q/.././p/src//A.java" "/p/src/A.java" :=
    ⟨by decide +kernel, by decide +kernel⟩
  have absolute : twoFolders.Spells firstFolder.root "//p/src/../src/A.java/" "/p/src/A.java" :=
    ⟨by decide +kernel, by decide +kernel⟩
  have normalized := (normalize_spellings isProper_twoFolders created listing_twoFolders
    List.mem_cons_self).1
  exact ⟨isProper_twoFolders, created, listing_twoFolders, relative, normalized _ relative,
    normalized _ absolute⟩

end DirectoryProject
end CallTree
