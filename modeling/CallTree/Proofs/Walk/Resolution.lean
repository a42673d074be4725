import CallTree.Proofs.Walk.Lockstep

/-!
# What calls resolve to

A call leads to a definition of its own file, or else to one of the other listed files, and among
either to the first one in the class of its receiver, or else to the first one.  Whatever a walk
has read before, this is what the search through the files comes to, and the file that it ends in
has a text.
-/

namespace CallTree

/-- The method is the first of the methods with the property. -/
def IsFirst (p : Method → Prop) (methods : List Method) (method : Method) : Prop :=
  ∃ front rest, methods = front ++ method :: rest ∧ p method ∧ ∀ other ∈ front, ¬ p other

/-- The method is the first with the name of the call in the class of the receiver or, where
there is none, the first with that name. -/
def Chosen (site : CallSite) (methods : List Method) (method : Method) : Prop :=
  IsFirst (fun found => found.name = site.callee ∧ found.className = site.receiver) methods
      method ∨
    (∀ found ∈ methods, found.name = site.callee → found.className ≠ site.receiver) ∧
      IsFirst (fun found => found.name = site.callee) methods method

theorem IsFirst.mem {p : Method → Prop} {methods : List Method} {method : Method}
    (isFirst : IsFirst p methods method) : method ∈ methods := by
  obtain ⟨front, rest, rfl, _⟩ := isFirst
  simp

theorem Chosen.mem {site : CallSite} {methods : List Method} {method : Method}
    (chosen : Chosen site methods method) : method ∈ methods := by
  rcases chosen with isFirst | ⟨_, isFirst⟩
  · exact isFirst.mem
  · exact isFirst.mem

theorem Chosen.name_eq {site : CallSite} {methods : List Method} {method : Method}
    (chosen : Chosen site methods method) : method.name = site.callee := by
  rcases chosen with ⟨_, _, _, ⟨nameEq, _⟩, _⟩ | ⟨_, _, _, _, nameEq, _⟩
  · exact nameEq
  · exact nameEq

theorem find?_eq_some_iff_isFirst {test : Method → Bool} {p : Method → Prop}
    (tests : ∀ method, test method = true ↔ p method) {methods : List Method} {method : Method} :
    methods.find? test = some method ↔ IsFirst p methods method := by
  rw [List.find?_eq_some_iff_append, IsFirst, tests]
  constructor
  · rintro ⟨passes, front, rest, whole, before⟩
    refine ⟨front, rest, whole, passes, fun other otherMem passed => ?_⟩
    simpa [(tests other).mpr passed] using before other otherMem
  · rintro ⟨front, rest, whole, passes, before⟩
    refine ⟨passes, front, rest, whole, fun other otherMem => ?_⟩
    simpa [← tests] using before other otherMem

theorem Walk.inReceiver?_filter_named (site : CallSite) {methods : List Method}
    (hasClass : ∀ method ∈ methods, method.HasClass) :
    inReceiver? site (methods.filter (·.name == site.callee)) =
      methods.find? fun method =>
        method.name == site.callee && method.className == site.receiver := by
  -- Every class has a name, so a call without a receiver has none to be found in.
  have nothing (other : ∀ name, site.receiver = some name → name = "") :
      methods.find? (fun method =>
        method.name == site.callee && method.className == site.receiver) = none := by
    rw [List.find?_eq_none]
    intro method methodMem passes
    obtain ⟨className, classEq, nonempty⟩ := hasClass method methodMem
    simp only [Bool.and_eq_true, beq_iff_eq] at passes
    exact nonempty (other className (passes.2.symm.trans classEq))
  rw [inReceiver?]
  cases receiverEq : site.receiver with
  | none =>
      rw [receiverEq] at nothing
      exact (nothing fun name missing => absurd missing.symm (Option.some_ne_none name)).symm
  | some receiver =>
      dsimp only
      rw [receiverEq] at nothing
      split
      · rename_i empty
        exact (nothing fun name same => Option.some.inj same ▸ beq_iff_eq.mp empty).symm
      · simp only [List.find?_filter, Bool.decide_and, Bool.decide_eq_true]

namespace Corpus

/-- The definitions of the listed files but one, in the order of the listing. -/
def definitionsElsewhere (corpus : Corpus) (file : String) : List Method :=
  (corpus.files.filter (· != file)).flatMap corpus.definitions

theorem hasClass_of_mem_definitionsElsewhere {corpus : Corpus} {file : String} {method : Method}
    (member : method ∈ corpus.definitionsElsewhere file) : method.HasClass := by
  obtain ⟨other, _, defined⟩ := List.mem_flatMap.mp member
  exact hasClass_of_mem_definitions defined

theorem namedElsewhere_eq_filter (corpus : Corpus) (site : CallSite) (file : String) :
    corpus.namedElsewhere site file corpus.files =
      (corpus.definitionsElsewhere file).filter (·.name == site.callee) := by
  rw [namedElsewhere, definitionsElsewhere, List.filter_flatMap]
  rfl

theorem preferred?_filter_eq_some_iff {site : CallSite} {methods : List Method}
    (hasClass : ∀ method ∈ methods, method.HasClass) {method : Method} :
    preferred? site (methods.filter (·.name == site.callee)) = some method ↔
      Chosen site methods method := by
  rw [preferred?, Option.or_eq_some_iff, Walk.inReceiver?_filter_named site hasClass,
    List.head?_filter, List.find?_eq_none,
    find?_eq_some_iff_isFirst (p := fun found =>
      found.name = site.callee ∧ found.className = site.receiver) (by simp),
    find?_eq_some_iff_isFirst (p := fun found => found.name = site.callee) (by simp), Chosen]
  simp only [Bool.and_eq_true, beq_iff_eq, not_and, ne_eq]

theorem preferred?_filter_eq_none_iff {site : CallSite} {methods : List Method} :
    preferred? site (methods.filter (·.name == site.callee)) = none ↔
      ∀ method ∈ methods, method.name ≠ site.callee := by
  rw [preferred?, Option.or_eq_none_iff, List.head?_eq_none_iff]
  constructor
  · rintro ⟨_, nothing⟩ method methodMem named
    exact List.filter_eq_nil_iff.mp nothing method methodMem (beq_iff_eq.mpr named)
  · intro unnamed
    have nothing : methods.filter (·.name == site.callee) = [] :=
      List.filter_eq_nil_iff.mpr fun method methodMem named =>
        unnamed method methodMem (beq_iff_eq.mp named)
    exact ⟨by rw [nothing, Walk.inReceiver?_nil], nothing⟩

theorem resolve?_eq_none_iff {corpus : Corpus} {site : CallSite} {file : String} :
    corpus.resolve? site file = none ↔
      ∀ other ∈ file :: corpus.files, ∀ method ∈ corpus.definitions other,
        method.name ≠ site.callee := by
  rw [resolve?, Option.or_eq_none_iff, namedElsewhere_eq_filter, named,
    preferred?_filter_eq_none_iff, preferred?_filter_eq_none_iff, List.forall_mem_cons]
  refine and_congr_right fun here => ⟨fun elsewhere other otherMem => ?_, ?_⟩
  · by_cases same : other = file
    · exact same ▸ here
    · intro method defined
      exact elsewhere method (List.mem_flatMap.mpr
        ⟨other, List.mem_filter.mpr ⟨otherMem, by simpa using same⟩, defined⟩)
  · intro everywhere method member
    obtain ⟨other, otherMem, defined⟩ := List.mem_flatMap.mp member
    exact everywhere other (List.mem_of_mem_filter otherMem) method defined

theorem resolve?_eq_some_iff {corpus : Corpus} {site : CallSite} {file : String}
    {callee : Method} :
    corpus.resolve? site file = some callee ↔
      Chosen site (corpus.definitions file) callee ∨
        (∀ method ∈ corpus.definitions file, method.name ≠ site.callee) ∧
          Chosen site (corpus.definitionsElsewhere file) callee := by
  rw [resolve?, Option.or_eq_some_iff, namedElsewhere_eq_filter, named,
    preferred?_filter_eq_none_iff,
    preferred?_filter_eq_some_iff fun _ => hasClass_of_mem_definitions,
    preferred?_filter_eq_some_iff fun _ => hasClass_of_mem_definitionsElsewhere]

theorem file_of_chosen {corpus : Corpus} {site : CallSite} {file : String} {callee : Method}
    (chosen : Chosen site (corpus.definitions file) callee) : callee.file = file :=
  file_of_mem_definitions chosen.mem

theorem file_of_chosen_elsewhere {corpus : Corpus} {site : CallSite} {file : String}
    {callee : Method} (chosen : Chosen site (corpus.definitionsElsewhere file) callee) :
    callee.file ∈ corpus.files ∧ callee.file ≠ file := by
  obtain ⟨other, otherMem, defined⟩ := List.mem_flatMap.mp chosen.mem
  obtain ⟨listed, different⟩ := List.mem_filter.mp otherMem
  rw [file_of_mem_definitions defined]
  exact ⟨listed, by simpa using different⟩

theorem obtainable_of_mem_definitions {corpus : Corpus} {file : String} {method : Method}
    (member : method ∈ corpus.definitions file) : corpus.Obtainable file := by
  obtain ⟨text, textEq⟩ := exists_text_of_mem_definitions member
  rw [text?] at textEq
  split at textEq
  · exact .inl ‹_›
  · right
    intro fault failed
    rw [failed] at textEq
    cases textEq

end Corpus

namespace Walk

/-- What a walk to callees can have come to: it starts with the given text, lists the project,
loads files, marks methods and counts. -/
inductive InProgress (corpus : Corpus) : Walk Reading → Prop where
  | start (metrics : Metrics) : InProgress corpus
      { loaded := [(corpus.file, some (Reading.ofText corpus.rules corpus.file corpus.text))],
        metrics }
  | list {walk : Walk Reading} : InProgress corpus walk →
      InProgress corpus (outcome (list corpus.project) walk).2
  | load {walk : Walk Reading} (file : String) : InProgress corpus walk →
      InProgress corpus (outcome (load corpus.project (Reading.ofText corpus.rules) file) walk).2
  | mark {walk : Walk Reading} (key : MethodKey) : InProgress corpus walk →
      InProgress corpus { walk with visited := key :: walk.visited }
  | record {walk : Walk Reading} (change : Metrics → Metrics) : InProgress corpus walk →
      InProgress corpus { walk with metrics := change walk.metrics }

variable {corpus : Corpus} {before : Walk Reading}

/-- What a walk in progress keeps is what it would get afresh. -/
theorem InProgress.faithful (inProgress : InProgress corpus before) :
    Faithful corpus (Reading.ofText corpus.rules) before := by
  induction inProgress with
  | start metrics => exact .start corpus _ metrics
  | list _ ih => exact ih.outcome_list
  | load file _ ih => exact ih.outcome_load file
  | mark key _ ih => exact ih.of_eq rfl rfl
  | record change _ ih => exact ih.of_eq rfl rfl

/-- A walk in progress runs in lockstep with itself. -/
theorem lockstep_inProgress (corpus : Corpus) :
    Lockstep (Reading.ofText corpus.rules) [] corpus.project corpus.project
      fun walk other => other = walk ∧ InProgress corpus walk where
  visited := by
    rintro walk _ ⟨rfl, _⟩
    rfl
  marks := by
    rintro walk _ key ⟨rfl, inProgress⟩
    exact ⟨rfl, inProgress.mark key⟩
  records := by
    rintro change walk _ ⟨rfl, inProgress⟩
    exact ⟨rfl, rfl, inProgress.record change⟩
  lists := by
    rintro walk _ ⟨rfl, inProgress⟩
    exact ⟨(map_filter_lacking_nil _).symm, rfl, inProgress.list⟩
  loads := by
    rintro file walk _ ⟨rfl, inProgress⟩
    exact ⟨rfl, rfl, inProgress.load file⟩
  skips := by simp

/-- What a call resolves to leaves the walk in progress. -/
theorem InProgress.of_runs_resolve (inProgress : InProgress corpus before) {site : CallSite}
    {file : String} {result : Option Method} {after : Walk Reading}
    (runs : Runs (resolve corpus.project corpus.rules site file) before result after) :
    InProgress corpus after := by
  have stays := ((lockstep_inProgress corpus).alike_resolve site file before before
    ⟨rfl, inProgress⟩).2.2
  rwa [runs] at stays

/-- The walk to the callees of a method stays in progress, however it ends. -/
theorem InProgress.outcome_callees (inProgress : InProgress corpus before) (levels : Nat)
    (reading : Reading) (method : Method) :
    InProgress corpus
      (outcome (callees corpus.project corpus.rules levels reading method) before).2 :=
  ((lockstep_inProgress corpus).alike_callees levels reading method before before
    ⟨rfl, inProgress⟩).2.2

/-- The walk to the callees of a method, where `missing` says what is done for a callee whose
file has no text. -/
def calleesOr (missing : CallSite → WalkM Reading (List Tree)) (project : Project)
    (rules : Scan.Rules) : Nat → Reading → Method → WalkM Reading Tree
  | 0, _, method => stop method
  | levels + 1, reading, method => expand method do
      collect (fun site => do
        match ← resolve project rules site method.file with
        | none => do
            record Metrics.recordUnresolved
            let tree ← miss site
            pure [tree]
        | some callee =>
            match ← load project (Reading.ofText rules) callee.file with
            | none => missing site
            | some reading => do
                let tree ← calleesOr missing project rules levels reading callee
                pure [tree]) (reading.sites method)

theorem calleesOr_miss (project : Project) (rules : Scan.Rules) (levels : Nat)
    (reading : Reading) (method : Method) :
    calleesOr (fun site => miss site >>= fun tree => pure [tree]) project rules levels reading
      method = callees project rules levels reading method := by
  induction levels generalizing reading method with
  | zero => rfl
  | succ levels ih =>
      have below : calleesOr (fun site => miss site >>= fun tree => pure [tree]) project rules
          levels = callees project rules levels := by
        funext reading method
        exact ih reading method
      rw [calleesOr, below]
      rfl

/-- What is done for a callee whose file has no text makes no difference. -/
theorem alike_calleesOr (missing other : CallSite → WalkM Reading (List Tree)) (levels : Nat)
    (reading : Reading) (method : Method) :
    Alike (fun walk other => other = walk ∧ InProgress corpus walk)
      (calleesOr missing corpus.project corpus.rules levels reading method)
      (calleesOr other corpus.project corpus.rules levels reading method) := by
  have lockstep := lockstep_inProgress corpus
  induction levels generalizing reading method with
  | zero => exact lockstep.alike_stop method
  | succ levels ih =>
      apply lockstep.alike_expand
      apply alike_collect
      intro site
      apply alike_bind_of_runs (lockstep.alike_resolve site method.file)
      rintro before _ resolved after ⟨_, inProgress⟩ resolves
      obtain ⟨rfl, _⟩ := finds_resolve site method.file before resolved after
        inProgress.faithful resolves
      cases found : corpus.resolve? site method.file with
      | none => exact alike_bind (lockstep.records _) fun _ => lockstep.alike_miss site
      | some callee =>
          -- A file with definitions has a text, and what the walk keeps of it comes from there.
          obtain ⟨defined, _⟩ := Corpus.mem_definitions_of_resolve? found
          obtain ⟨text, textEq⟩ := Corpus.exists_text_of_mem_definitions defined
          apply alike_bind_of_runs (lockstep.loads callee.file)
          rintro before _ kept after ⟨_, inProgress⟩ loads
          obtain ⟨rfl, _⟩ := finds_load callee.file before kept after inProgress.faithful loads
          rw [textEq]
          exact alike_bind (ih _ callee) fun tree => alike_pure [tree]

theorem outcome_calleesOr (inProgress : InProgress corpus before)
    (missing : CallSite → WalkM Reading (List Tree)) (levels : Nat) (reading : Reading)
    (method : Method) :
    outcome (calleesOr missing corpus.project corpus.rules levels reading method) before =
      outcome (callees corpus.project corpus.rules levels reading method) before := by
  rw [← calleesOr_miss]
  obtain ⟨resultEq, walkEq, _⟩ := alike_calleesOr missing _ levels reading method before before
    ⟨rfl, inProgress⟩
  exact Prod.ext resultEq walkEq.symm

/-- A definition in the calling file is found whatever the rest of the project is like. -/
theorem exists_runs_resolve_of_named (inProgress : InProgress corpus before) {site : CallSite}
    {file : String} (named : ∃ method ∈ corpus.definitions file, method.name = site.callee) :
    ∃ callee after,
      Runs (resolve corpus.project corpus.rules site file) before (some callee) after := by
  obtain ⟨method, defined, nameEq⟩ := named
  have namedMem : method ∈ corpus.named site file :=
    List.mem_filter.mpr ⟨defined, beq_iff_eq.mpr nameEq⟩
  have ends : Ends corpus (Reading.ofText corpus.rules)
      (resolve corpus.project corpus.rules site file) := by
    apply ends_found (ends_namedIn site (Corpus.obtainable_of_mem_definitions defined))
      (finds_namedIn site file)
    obtain ⟨first, others, namedEq⟩ := List.exists_cons_of_ne_nil (List.ne_nil_of_mem namedMem)
    rw [namedEq]
    exact ends_pure _
  obtain ⟨result, after, runs, _⟩ := ends before inProgress.faithful
  cases result with
  | some callee => exact ⟨callee, after, runs⟩
  | none =>
      obtain ⟨resolved, _⟩ := finds_resolve site file before none after inProgress.faithful runs
      exact absurd nameEq (Corpus.resolve?_eq_none_iff.mp resolved.symm file
        List.mem_cons_self method defined)

/-- The search for what a call in a file leads to, from any walk in progress.  It ends when the
calling file defines the name, and when no listing or file has to end the walk.  It comes to
nothing exactly when neither the calling file nor a listed one defines the name; to the choice
among the definitions of the calling file, when that defines it; and to the choice among those of
the other files otherwise.  The file of what it comes to can be loaded, so what a walk does for a
callee without a text makes no difference.  The walk stays in progress, behind a search and behind
the walk to the callees of a method. -/
theorem resolve_follows_preference (inProgress : InProgress corpus before) (site : CallSite)
    (file : String) :
    ((∃ method ∈ corpus.definitions file, method.name = site.callee) → ∃ callee after,
      Runs (resolve corpus.project corpus.rules site file) before (some callee) after) ∧
    (corpus.Listable → (∀ other ∈ file :: corpus.files, corpus.Obtainable other) →
      ∃ result after, Runs (resolve corpus.project corpus.rules site file) before result after) ∧
    (∀ result after, Runs (resolve corpus.project corpus.rules site file) before result after →
      InProgress corpus after ∧
      (result = none ↔ ∀ other ∈ file :: corpus.files, ∀ method ∈ corpus.definitions other,
        method.name ≠ site.callee) ∧
      ((∃ method ∈ corpus.definitions file, method.name = site.callee) →
        ∃ callee, result = some callee ∧ callee.file = file ∧
          Chosen site (corpus.definitions file) callee) ∧
      ((∀ method ∈ corpus.definitions file, method.name ≠ site.callee) →
        ∀ callee, result = some callee → callee.file ∈ corpus.files ∧ callee.file ≠ file ∧
          Chosen site (corpus.definitionsElsewhere file) callee) ∧
      ∀ callee, result = some callee → ∃ reading last,
        Runs (load corpus.project (Reading.ofText corpus.rules) callee.file) after
          (some reading) last) ∧
    (∀ missing levels reading method,
      outcome (calleesOr missing corpus.project corpus.rules levels reading method) before =
        outcome (callees corpus.project corpus.rules levels reading method) before) ∧
    ∀ levels reading method, InProgress corpus
      (outcome (callees corpus.project corpus.rules levels reading method) before).2 := by
  refine ⟨exists_runs_resolve_of_named inProgress, ?_, ?_, outcome_calleesOr inProgress,
    inProgress.outcome_callees⟩
  · intro listable obtainable
    obtain ⟨here, listed⟩ := List.forall_mem_cons.mp obtainable
    obtain ⟨result, after, runs, _⟩ :=
      ends_resolve listable listed site here before inProgress.faithful
    exact ⟨result, after, runs⟩
  · intro result after runs
    obtain ⟨rfl, ended, _⟩ := finds_resolve site file before result after inProgress.faithful runs
    refine ⟨inProgress.of_runs_resolve runs, Corpus.resolve?_eq_none_iff, ?_, ?_, ?_⟩
    · rintro ⟨method, defined, nameEq⟩
      cases resolved : corpus.resolve? site file with
      | none =>
          exact absurd nameEq (Corpus.resolve?_eq_none_iff.mp resolved file
            List.mem_cons_self method defined)
      | some callee =>
          rcases Corpus.resolve?_eq_some_iff.mp resolved with chosen | ⟨unnamed, _⟩
          · exact ⟨callee, rfl, Corpus.file_of_chosen chosen, chosen⟩
          · exact absurd nameEq (unnamed method defined)
    · intro unnamed callee resolved
      rcases Corpus.resolve?_eq_some_iff.mp resolved with here | ⟨_, chosen⟩
      · exact absurd here.name_eq (unnamed callee here.mem)
      · obtain ⟨listed, different⟩ := Corpus.file_of_chosen_elsewhere chosen
        exact ⟨listed, different, chosen⟩
    · intro callee resolved
      obtain ⟨defined, _⟩ := Corpus.mem_definitions_of_resolve? resolved
      obtain ⟨text, textEq⟩ := Corpus.exists_text_of_mem_definitions defined
      rcases ended.loads callee.file with ⟨_, last, loads, _⟩ | ⟨unobtainable, _⟩
      · rw [textEq] at loads
        exact ⟨_, last, loads⟩
      · exact absurd (Corpus.obtainable_of_mem_definitions defined) unobtainable

/-- A method that calls `B.g`, seen in a project where `g` is defined in the class `C` of one file
and the class `B` of another, and a third one cannot be read. -/
def receiverCorpus : Corpus where
  project := MemoryProject.toProject {
    files := [
      ("A.java", "class A \x7b\n void r() \x7b B.g(); \x7d\n\x7d"),
      ("C.java", "class C \x7b\n void g() \x7b \x7d\n\x7d"),
      ("B.java", "class B \x7b\n void g() \x7b \x7d\n\x7d")]
    unreadable := [("D.java", .system .refused)] }
  rules := {}
  file := "A.java"
  text := "class A \x7b\n void r() \x7b B.g(); \x7d\n\x7d".toList

/-- The call leads to the class of its receiver, which is listed last. -/
theorem receiverCorpus_resolves :
    InProgress receiverCorpus { loaded := [(receiverCorpus.file, some (Reading.ofText
        receiverCorpus.rules receiverCorpus.file receiverCorpus.text))], metrics := {} } ∧
      ∃ callee after,
        Runs (resolve receiverCorpus.project receiverCorpus.rules
            { callee := "g", receiver := some "B" } "A.java")
          { loaded := [(receiverCorpus.file, some (Reading.ofText receiverCorpus.rules
              receiverCorpus.file receiverCorpus.text))], metrics := {} }
          (some callee) after ∧
        callee.file ∈ receiverCorpus.files ∧ callee.file ≠ "A.java" ∧
        callee.className = some "B" := by
  have listable : receiverCorpus.Listable := by
    intro fault failed
    cases failed
  have obtainable : ∀ other ∈ "A.java" :: receiverCorpus.files,
      receiverCorpus.Obtainable other := by
    have obtained : ∀ other ∈ "A.java" :: receiverCorpus.files,
        (receiverCorpus.project.obtained other).isOk = true := by
      decide +kernel
    intro other otherMem
    right
    intro fault failed
    have ends := obtained other otherMem
    rw [Project.obtained, failed] at ends
    dsimp only at ends
    split at ends
    · assumption
    · cases ends
  have start : InProgress receiverCorpus _ := .start {}
  obtain ⟨_, returns, chooses, _⟩ := resolve_follows_preference start
    { callee := "g", receiver := some "B" } "A.java"
  obtain ⟨result, after, runs⟩ := returns listable obtainable
  obtain ⟨_, none_iff, _, elsewhere, _⟩ := chooses result after runs
  cases result with
  | none => exact absurd (none_iff.mp rfl) (by decide +kernel)
  | some callee =>
      obtain ⟨listed, different, chosen⟩ := elsewhere (by decide +kernel) callee rfl
      refine ⟨start, callee, after, runs, listed, different, ?_⟩
      rcases chosen with ⟨_, _, _, ⟨_, classEq⟩, _⟩ | ⟨notThere, _⟩
      · exact classEq
      · exact absurd notThere (by decide +kernel)

end Walk
end CallTree
