import CallTree.Analysis
import CallTree.Proofs.Source.Methods

/-!
# Corpora

A corpus is a project as it is seen from one of its files, whose text is given.
What a walk finds out piece by piece is said here at once: the texts of the
files, their definitions, and which definitions call a method.
-/

namespace CallTree

/-- A project seen from a file with the given text. -/
structure Corpus where
  project : Project
  rules : Scan.Rules
  file : String
  text : List Char

namespace Corpus

/-- The files of the project.  A project that cannot be listed has none. -/
def files (corpus : Corpus) : List String :=
  match corpus.project.listing with
  | .ok files => files
  | .error _ => []

/-- The text of a file, if it is given or can be read. -/
def text? (corpus : Corpus) (file : String) : Option (List Char) :=
  if file = corpus.file then some corpus.text
  else
    match corpus.project.read file with
    | .ok text => some text.toList
    | .error _ => none

/-- Listing the project does not end a walk. -/
def Listable (corpus : Corpus) : Prop :=
  ∀ fault, corpus.project.listing = .error fault → fault.isOwn = true

/-- Reading the file does not end a walk. -/
def Obtainable (corpus : Corpus) (file : String) : Prop :=
  file = corpus.file ∨ ∀ fault, corpus.project.read file = .error fault → fault.skipsFile = true

/-- The definitions of a file.  A file that cannot be read has none. -/
def definitions (corpus : Corpus) (file : String) : List Method :=
  match corpus.text? file with
  | some text => (Source.ofText corpus.rules text).definitions file
  | none => []

/-- The lines of the body of a definition, found from its own declaration. -/
def body (corpus : Corpus) (method : Method) : List Line :=
  match corpus.text? method.file with
  | some text =>
      let source := Source.ofText corpus.rules text
      (source.extentOf method).bodyLines source.rawLines
  | none => []

/-- The definition calls the method with the given key, which is another one. -/
def calls (corpus : Corpus) (key : MethodKey) (method : Method) : Bool :=
  method.key != key && CallForm.bodyCalls (corpus.body method) key.name (some key.className)

/-- The definitions in the listed files that call a method, in order. -/
def callersOf (corpus : Corpus) (key : MethodKey) : List Method :=
  corpus.files.flatMap fun file => (corpus.definitions file).filter (corpus.calls key)

/-- Some definition with the key of the caller calls the target. -/
def CalledBy (corpus : Corpus) (target caller : MethodKey) : Prop :=
  ∃ method ∈ corpus.callersOf target, method.key = caller

instance (corpus : Corpus) : DecidableRel corpus.CalledBy := fun target caller =>
  inferInstanceAs (Decidable (∃ method ∈ corpus.callersOf target, method.key = caller))

/-- No two definitions of a file share their class and their name. -/
def Unambiguous (corpus : Corpus) (file : String) : Prop :=
  ((corpus.definitions file).map Method.key).Nodup

instance (corpus : Corpus) (file : String) : Decidable (corpus.Unambiguous file) :=
  inferInstanceAs (Decidable (List.Nodup _))

/-- The method at a line of the given text. -/
def methodAt (corpus : Corpus) (line : Int) : Option Method :=
  (Source.ofText corpus.rules corpus.text).methodAt line corpus.file

theorem text?_file (corpus : Corpus) : corpus.text? corpus.file = some corpus.text := by
  simp [text?]

theorem file_of_mem_definitions {corpus : Corpus} {file : String} {method : Method}
    (member : method ∈ corpus.definitions file) : method.file = file := by
  rw [definitions] at member
  split at member
  · exact Source.file_of_mem_definitions member
  · cases member

theorem hasClass_of_mem_definitions {corpus : Corpus} {file : String} {method : Method}
    (member : method ∈ corpus.definitions file) : method.HasClass := by
  rw [definitions] at member
  split at member
  · exact Source.hasClass_of_mem_definitions member
  · cases member

theorem mem_callersOf_iff {corpus : Corpus} {key : MethodKey} {method : Method} :
    method ∈ corpus.callersOf key ↔
      ∃ file ∈ corpus.files, method ∈ corpus.definitions file ∧ corpus.calls key method = true := by
  simp [callersOf]

theorem hasClass_of_mem_callersOf {corpus : Corpus} {key : MethodKey} {method : Method}
    (member : method ∈ corpus.callersOf key) : method.HasClass := by
  obtain ⟨_, _, defined, _⟩ := mem_callersOf_iff.mp member
  exact hasClass_of_mem_definitions defined

end Corpus

/-- What an analysis at the cursor sees, if its file has a path and a text. -/
def Cursor.corpus? (cursor : Cursor) (project : Project) (configuration : Configuration) :
    Option Corpus := do
  let file ← (project.normalize cursor.file).toOption
  let text ← cursor.text <|> (project.read file).toOption
  some { project, rules := Analysis.rules configuration, file, text := text.toList }

end CallTree
