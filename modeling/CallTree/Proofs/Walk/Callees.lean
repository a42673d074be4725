import CallTree.Proofs.Walk.Simulation

/-!
# Walks to the callees

The walk to the callees of a method follows the graph of callees.  Where a call
leads is decided by the definitions of its own file, and then by those of all
other listed files together; the walk comes to the same by looking at the files
one after another.
-/

namespace CallTree
namespace Corpus

/-- The definitions of a file that a call may lead to by its name. -/
def named (corpus : Corpus) (site : CallSite) (file : String) : List Method :=
  (corpus.definitions file).filter (·.name == site.callee)

/-- The definitions of the given files but one that a call may lead to. -/
def namedElsewhere (corpus : Corpus) (site : CallSite) (file : String) (files : List String) :
    List Method :=
  (files.filter (· != file)).flatMap (corpus.named site)

/-- The first definition in the class of the receiver, or else the first one. -/
def preferred? (site : CallSite) (methods : List Method) : Option Method :=
  (Walk.inReceiver? site methods).or methods.head?

/-- The definition that a call in a file leads to: one of the file itself, or
else one of the other listed files. -/
def resolve? (corpus : Corpus) (site : CallSite) (file : String) : Option Method :=
  (preferred? site (corpus.named site file)).or
    (preferred? site (corpus.namedElsewhere site file corpus.files))

/-- The calls in the body of a method of the corpus. -/
def sites (corpus : Corpus) (method : Method) : List CallSite :=
  match corpus.text? method.file with
  | some text => (Reading.ofText corpus.rules method.file text).sites method
  | none => []

/-- Where a call in a file leads. -/
def branch (corpus : Corpus) (file : String) (site : CallSite) : Branch :=
  match corpus.resolve? site file with
  | some callee => .reach callee
  | none => .miss site

/-- The graph that leads from a method to its callees. -/
def calleeGraph (corpus : Corpus) : CallGraph :=
  fun method => (corpus.sites method).map (corpus.branch method.file)

theorem mem_of_inReceiver? {site : CallSite} {methods : List Method} {method : Method}
    (found : Walk.inReceiver? site methods = some method) : method ∈ methods := by
  rw [Walk.inReceiver?] at found
  split at found
  · cases found
  · split at found
    · cases found
    · exact List.mem_of_find?_eq_some found

theorem mem_of_preferred? {site : CallSite} {methods : List Method} {method : Method}
    (found : preferred? site methods = some method) : method ∈ methods := by
  rw [preferred?, Option.or_eq_some_iff] at found
  rcases found with preferred | ⟨_, first⟩
  · exact mem_of_inReceiver? preferred
  · exact List.mem_of_mem_head? first

theorem mem_definitions_of_resolve? {corpus : Corpus} {site : CallSite} {file : String}
    {callee : Method} (found : corpus.resolve? site file = some callee) :
    callee ∈ corpus.definitions callee.file ∧
      (callee.file = file ∨ callee.file ∈ corpus.files) := by
  have inFile {other : String} (member : callee ∈ corpus.named site other) :
      callee ∈ corpus.definitions callee.file ∧ callee.file = other := by
    have defined : callee ∈ corpus.definitions other := List.mem_of_mem_filter member
    rw [file_of_mem_definitions defined]
    exact ⟨defined, rfl⟩
  rw [resolve?, Option.or_eq_some_iff] at found
  rcases found with here | ⟨_, elsewhere⟩
  · obtain ⟨defined, fileEq⟩ := inFile (mem_of_preferred? here)
    exact ⟨defined, .inl fileEq⟩
  · obtain ⟨other, otherMem, member⟩ := List.mem_flatMap.mp (mem_of_preferred? elsewhere)
    obtain ⟨defined, fileEq⟩ := inFile member
    exact ⟨defined, .inr (fileEq ▸ List.mem_of_mem_filter otherMem)⟩

theorem exists_text_of_mem_definitions {corpus : Corpus} {file : String} {method : Method}
    (member : method ∈ corpus.definitions file) : ∃ text, corpus.text? file = some text := by
  rw [definitions] at member
  split at member
  · exact ⟨_, ‹_›⟩
  · cases member

end Corpus

namespace Walk

variable {corpus : Corpus}

theorem finds_namedIn (site : CallSite) (file : String) :
    Finds corpus (Reading.ofText corpus.rules)
      (namedIn corpus.project corpus.rules site file) (corpus.named site file) := by
  apply finds_bind (finds_load file)
  cases textEq : corpus.text? file with
  | none =>
      simp only [Option.map_none, Corpus.named, Corpus.definitions, textEq]
      exact finds_pure []
  | some text =>
      simp only [Option.map_some, Corpus.named, Corpus.definitions, textEq]
      exact finds_pure _

theorem inReceiver?_nil (site : CallSite) : inReceiver? site [] = none := by
  rw [inReceiver?]
  split
  · rfl
  · split <;> rfl

theorem inReceiver?_append (site : CallSite) (first second : List Method) :
    inReceiver? site (first ++ second) =
      (inReceiver? site first).or (inReceiver? site second) := by
  simp only [inReceiver?]
  split
  · rfl
  · split
    · rfl
    · exact List.find?_append

/-- The first definition met stands by until one in the receiver's class is
found. -/
theorem finds_resolveElsewhere (site : CallSite) (file : String) (standby : Option Method)
    (files : List String) :
    Finds corpus (Reading.ofText corpus.rules)
      (resolveElsewhere corpus.project corpus.rules site file standby files)
      ((inReceiver? site (corpus.namedElsewhere site file files)).or
        (standby.or (corpus.namedElsewhere site file files).head?)) := by
  induction files generalizing standby with
  | nil =>
      have nothing : corpus.namedElsewhere site file [] = [] := rfl
      rw [nothing, inReceiver?_nil, List.head?_nil, Option.or_none, Option.none_or]
      exact finds_pure standby
  | cons other others ih =>
      rw [resolveElsewhere]
      by_cases same : other = file
      · have skipped : corpus.namedElsewhere site file (other :: others) =
            corpus.namedElsewhere site file others := by
          simp [Corpus.namedElsewhere, same]
        rw [if_pos (beq_iff_eq.mpr same), skipped]
        exact ih standby
      · have searched : corpus.namedElsewhere site file (other :: others) =
            corpus.named site other ++ corpus.namedElsewhere site file others := by
          simp [Corpus.namedElsewhere, same]
        rw [if_neg (by simpa using same), searched, inReceiver?_append, List.head?_append]
        apply finds_bind (finds_namedIn site other)
        cases inReceiver? site (corpus.named site other) with
        | some method => exact finds_pure (some method)
        | none =>
            simpa only [Option.none_or, Option.orElse_eq_orElse, Option.orElse_eq_or,
              Option.or_assoc] using ih (standby <|> (corpus.named site other).head?)

theorem finds_resolve (site : CallSite) (file : String) :
    Finds corpus (Reading.ofText corpus.rules)
      (resolve corpus.project corpus.rules site file) (corpus.resolve? site file) := by
  apply finds_bind (finds_namedIn site file)
  rw [Corpus.resolve?]
  cases corpus.named site file with
  | nil =>
      rw [show Corpus.preferred? site [] = none by simp [Corpus.preferred?, inReceiver?_nil],
        Option.none_or]
      apply finds_bind finds_list
      exact finds_resolveElsewhere site file none corpus.files
  | cons first others =>
      have chosen : (Corpus.preferred? site (first :: others)).isSome := by
        simp [Corpus.preferred?]
      have chosenEq : Corpus.preferred? site (first :: others) =
          (inReceiver? site (first :: others) <|> some first) := by
        simp [Corpus.preferred?]
      rw [Option.or_of_isSome chosen, chosenEq]
      exact finds_pure _

theorem follows_miss {levels : Nat} (site : CallSite) :
    Follows corpus (Reading.ofText corpus.rules) corpus.calleeGraph levels [.miss site]
      (miss site >>= fun tree => pure [tree]) := by
  intro before trees after faithful runs
  obtain ⟨tree, middle, misses, rest⟩ := runs_bind.mp runs
  obtain ⟨rfl, rfl⟩ := runs_pure.mp rest
  cases misses
  exact ⟨faithful.of_eq rfl rfl, .miss site .nil⟩

theorem finds_record (change : Metrics → Metrics) :
    Finds corpus (Reading.ofText corpus.rules) (record change) () := by
  intro before result after faithful runs
  cases runs
  exact ⟨rfl, faithful.of_eq rfl rfl, rfl⟩

theorem follows_callees (levels : Nat) {method : Method} (hasClass : method.HasClass)
    {text : List Char} (textEq : corpus.text? method.file = some text) :
    Follows corpus (Reading.ofText corpus.rules) corpus.calleeGraph levels [.reach method]
      (callees corpus.project corpus.rules levels
        (Reading.ofText corpus.rules method.file text) method >>= fun tree => pure [tree]) := by
  induction levels generalizing method text with
  | zero => exact follows_stop hasClass
  | succ levels ih =>
      apply follows_expand hasClass
      have sitesEq : corpus.sites method =
          (Reading.ofText corpus.rules method.file text).sites method := by
        simp [Corpus.sites, textEq]
      rw [Corpus.calleeGraph, sitesEq]
      apply follows_collect_map
      intro site _
      apply follows_bind (finds_resolve site method.file)
      cases resolved : corpus.resolve? site method.file with
      | none =>
          rw [Corpus.branch, resolved]
          exact follows_bind (finds_record _) (follows_miss site)
      | some callee =>
          obtain ⟨defined, _⟩ := Corpus.mem_definitions_of_resolve? resolved
          obtain ⟨calleeText, calleeTextEq⟩ := Corpus.exists_text_of_mem_definitions defined
          rw [Corpus.branch, resolved]
          apply follows_bind (finds_load callee.file)
          rw [calleeTextEq]
          exact ih (Corpus.hasClass_of_mem_definitions defined) calleeTextEq

theorem ends_namedIn (site : CallSite) {file : String} (obtainable : corpus.Obtainable file) :
    Ends corpus (Reading.ofText corpus.rules)
      (namedIn corpus.project corpus.rules site file) := by
  apply ends_load obtainable
  cases corpus.text? file with
  | none => exact ends_pure []
  | some text => exact ends_pure _

theorem ends_resolveElsewhere (site : CallSite) (file : String) (standby : Option Method)
    {files : List String} (obtainable : ∀ other ∈ files, corpus.Obtainable other) :
    Ends corpus (Reading.ofText corpus.rules)
      (resolveElsewhere corpus.project corpus.rules site file standby files) := by
  induction files generalizing standby with
  | nil => exact ends_pure standby
  | cons other others ih =>
      have later : ∀ next ∈ others, corpus.Obtainable next :=
        fun next nextMem => obtainable next (List.mem_cons_of_mem other nextMem)
      rw [resolveElsewhere]
      split
      · exact ih standby later
      · apply ends_bind (ends_namedIn site (obtainable other List.mem_cons_self))
        intro methods
        cases inReceiver? site methods with
        | some method => exact ends_pure (some method)
        | none => exact ih (standby <|> methods.head?) later

theorem ends_resolve (listable : corpus.Listable)
    (obtainable : ∀ other ∈ corpus.files, corpus.Obtainable other) (site : CallSite)
    {file : String} (here : corpus.Obtainable file) :
    Ends corpus (Reading.ofText corpus.rules)
      (resolve corpus.project corpus.rules site file) := by
  apply ends_bind (ends_namedIn site here)
  intro methods
  cases methods with
  | nil =>
      apply ends_list listable
      exact ends_resolveElsewhere site file none obtainable
  | cons first others => exact ends_pure _

theorem ends_miss (site : CallSite) :
    Ends corpus (Reading.ofText corpus.rules) (miss site >>= fun tree => pure [tree]) := by
  intro before faithful
  exact ⟨_, _, rfl, faithful.of_eq rfl rfl⟩

/-- A call in a file of the corpus leads to a definition in such a file. -/
theorem file_mem_of_resolve? {site : CallSite} {file : String} {callee : Method}
    (resolved : corpus.resolve? site file = some callee)
    (fileMem : file ∈ corpus.file :: corpus.files) :
    callee.file ∈ corpus.file :: corpus.files := by
  obtain ⟨_, here | listed⟩ := Corpus.mem_definitions_of_resolve? resolved
  · exact here ▸ fileMem
  · exact List.mem_cons_of_mem corpus.file listed

/-- The walk to the callees ends when the listing and every listed file can be
had. -/
theorem ends_callees (listable : corpus.Listable)
    (obtainable : ∀ file ∈ corpus.files, corpus.Obtainable file) (levels : Nat)
    (reading : Reading) {method : Method}
    (fileMem : method.file ∈ corpus.file :: corpus.files) :
    Ends corpus (Reading.ofText corpus.rules)
      (callees corpus.project corpus.rules levels reading method) := by
  have everywhere : ∀ file ∈ corpus.file :: corpus.files, corpus.Obtainable file := by
    intro file member
    rcases List.mem_cons.mp member with rfl | listed
    · exact .inl rfl
    · exact obtainable file listed
  induction levels generalizing reading method with
  | zero => exact ends_stop method
  | succ levels ih =>
      apply ends_expand
      apply ends_collect
      intro site _
      apply ends_found (ends_resolve listable obtainable site (everywhere method.file fileMem))
        (finds_resolve site method.file)
      cases resolved : corpus.resolve? site method.file with
      | none =>
          apply ends_bind
          · intro before faithful
            exact ⟨(), _, rfl, faithful.of_eq rfl rfl⟩
          · intro _
            exact ends_miss site
      | some callee =>
          have calleeMem := file_mem_of_resolve? resolved fileMem
          apply ends_load (everywhere callee.file calleeMem)
          cases corpus.text? callee.file with
          | none => exact ends_miss site
          | some text => exact ends_bind (ih _ calleeMem) fun tree => ends_pure [tree]

end Walk
end CallTree
