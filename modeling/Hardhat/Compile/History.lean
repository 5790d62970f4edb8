import Hardhat.Compile.Incremental

namespace Hardhat.Compile

/-! # Histories of builds

A history is what happens to a project around the runs of `TASK_COMPILE_SOLIDITY`:
files are edited, added and removed, artifacts are deleted, and the task runs, to
completion or until it throws.  The artifacts of a job are saved as soon as the job is
compiled, while the cache is written only when the whole run completes.  A run that
throws after one job emitted therefore leaves artifacts that the cache does not
describe; once the edits of that run are reverted, the next run finds every entry
current and keeps an artifact compiled from a text the project no longer has.  A
removed file keeps its cache entry, so restoring it after one of its imports changed
does the same (`revertedAndRestoredHistories_keepStaleArtifacts`).

Nothing else leaves a stale artifact.  `Consistent` is what every history without those
two moves keeps: the cache is well keyed, every entry belongs to a present or a removed
source, and the build info of every artifact an entry lists records the entry's
configuration and an input whose texts, along the input's own imports from the entry's
source, hash to what the cache records.  A run that completes from such a state leaves
no stale artifact (`noStaleArtifacts_of_admissible`).  Content hashes are assumed
injective throughout.
-/

/-- A step of a history. -/
inductive Step where
  /-- The user writes new content to a source file of the project. -/
  | editFile (sourceName : String) (file : ProjectFile)
  /-- The user adds a source file. -/
  | addFile (sourceName : String) (file : ProjectFile)
  /-- The user removes a source file. -/
  | removeFile (sourceName : String)
  /-- The user deletes one artifact. -/
  | deleteArtifact (fullyQualifiedName : FullyQualifiedName)
  /-- `TASK_COMPILE_SOLIDITY` runs, with `--force` or without. -/
  | compile (force : Bool)

/-- The sources of the project and what the task left on disk. -/
structure World where
  sources : AList fun _ : String => ProjectFile
  buildState : BuildState

namespace World

/-- A project before its first build. -/
def initial (sources : AList fun _ : String => ProjectFile) : World := ⟨sources, emptyBuildState⟩

/-- One step of a history. -/
def step (env : Environment) (world : World) : Step → World
  | .editFile sourceName file => ⟨world.sources.replace sourceName file, world.buildState⟩
  | .addFile sourceName file => ⟨world.sources.insert sourceName file, world.buildState⟩
  | .removeFile sourceName => ⟨world.sources.erase sourceName, world.buildState⟩
  | .deleteArtifact fullyQualifiedName =>
      ⟨world.sources, ⟨world.buildState.solidityFilesCache,
        world.buildState.artifacts.deleteArtifact fullyQualifiedName⟩⟩
  | .compile force =>
      ⟨world.sources, (compileSolidity env world.sources world.buildState force).buildState⟩

/-- A whole history. -/
def run (env : Environment) (world : World) (steps : List Step) : World :=
  steps.foldl (step env) world

/-- `TASK_COMPILE_SOLIDITY` completes from this world. -/
def Completes (env : Environment) (world : World) (force : Bool) : Prop :=
  (compileSolidity env world.sources world.buildState force).result = .ok ()

end World

/-- No stale artifact: every artifact the store keeps for a file of the dependency graph
    was compiled with the configuration planned for the file, from an input holding the
    current text of the file and of every file it transitively imports. -/
def NoStaleArtifacts (env : Environment) (world : World) : Prop :=
  ∀ graph, createDependencyGraph env.reader env.projectRoot world.sources = .ok graph →
  ∀ file ∈ graph.files, ∀ contractName saved,
    world.buildState.artifacts.saved ⟨file.sourceName, contractName⟩ = some saved →
    ∃ job, createCompilationJobFromFile env.semver env.solidity graph file = .ok job ∧
      saved.buildInfo.solcVersion = job.getSolcConfig.version ∧
      saved.buildInfo.input.settings = job.getSolcConfig.settings ∧
      ∀ sourceName ∈ graph.transitiveClosure file.sourceName,
        saved.buildInfo.input.sources.lookup sourceName =
          (graph.getResolvedFile? sourceName).map (·.content.rawContent)

/-! ## Two histories that leave a stale artifact -/

/-- The two-file project where `B` is compiled by its own compiler, after `A`. -/
def overridingEnvironment : Environment :=
  { exampleEnvironment with solidity := ⟨[⟨"0.8.0", ""⟩], [("B", ⟨"0.8.1", ""⟩)]⟩ }

/-- Build; edit `A` and break `B`; run until the compiler rejects `B`, after `A`'s job
    emitted; revert both files. -/
def revertedHistory : List Step :=
  [.compile false, .editFile "A" ⟨"a1", 1⟩, .editFile "B" ⟨"bad", 1⟩, .compile false,
    .editFile "A" ⟨"a0", 2⟩, .editFile "B" ⟨"uses A", 2⟩]

def revertedWorld : World := (World.initial exampleSources).run overridingEnvironment revertedHistory

example :
    ((revertedWorld.step overridingEnvironment (.compile false)).buildState.artifacts.saved
      ⟨"A", "A"⟩).map (·.buildInfo.input.sources) = some [("A", "a1")] := by
  decide

/-- Build; remove the importer `B`; edit `A` and build; restore `B`. -/
def restoredHistory : List Step :=
  [.compile false, .removeFile "B", .editFile "A" ⟨"a1", 1⟩, .compile false,
    .addFile "B" ⟨"uses A", 2⟩]

def restoredWorld : World := (World.initial exampleSources).run exampleEnvironment restoredHistory

/-- After each history the next run completes without compiling anything.  After the
    reverted one it keeps the artifact of `A` compiled from the text `a1`; after the
    restoring one it keeps the artifact of `B` compiled against the text `a0` of `A`. -/
theorem revertedAndRestoredHistories_keepStaleArtifacts :
    (revertedWorld.Completes overridingEnvironment false ∧
      ¬ NoStaleArtifacts overridingEnvironment
        (revertedWorld.step overridingEnvironment (.compile false))) ∧
    (restoredWorld.Completes exampleEnvironment false ∧
      ¬ NoStaleArtifacts exampleEnvironment
        (restoredWorld.step exampleEnvironment (.compile false))) := by
  refine ⟨⟨rfl, fun noStale => ?_⟩, ⟨rfl, fun noStale => ?_⟩⟩
  · obtain ⟨job, -, -, -, texts⟩ := noStale _ rfl _ (List.mem_cons_self _ _) "A" _ rfl
    exact absurd (texts "A" (by decide)) (by decide)
  · obtain ⟨job, -, -, -, texts⟩ := noStale _ rfl _ (List.mem_cons_self _ _) "B" _ rfl
    exact absurd (texts "A" (by decide)) (by decide)

/-! ## Allowed histories -/

/-- What a step may do where it is taken, given the source names removed so far: a run
    that throws leaves the artifact store as it found it, and a removed source name is
    not added back. -/
def StepAllowed (env : Environment) (world : World) (removed : List String) : Step → Prop
  | .addFile sourceName _ => sourceName ∉ removed
  | .compile force => world.Completes env force ∨
      (compileSolidity env world.sources world.buildState force).buildState.artifacts =
        world.buildState.artifacts
  | _ => True

/-- The source names a step removes. -/
def Step.removes : Step → List String
  | .removeFile sourceName => [sourceName]
  | _ => []

/-- Every step of the history is allowed where it is taken. -/
def Admissible (env : Environment) : World → List String → List Step → Prop
  | _, _, [] => True
  | world, removed, step :: steps =>
      StepAllowed env world removed step ∧
        Admissible env (world.step env step) (step.removes ++ removed) steps

/-! ## Provenance of the stored artifacts -/

/-- The imports of the text a compiler input holds for a name (none for a name it does
    not hold). -/
def inputImports (reader : SourceReader) (input : CompilerInput) (sourceName : String) :
    List String :=
  ((input.sources.lookup sourceName).map reader.imports).getD []

/-- A build info records a compilation with the configuration of `entry`, whose input
    holds, for every name it reaches from the entry's source through its own imports, a
    text whose hash is the one `cache` records for that name. -/
def Provenant (env : Environment) (cache : SolidityFilesCache) (entry : CacheEntry)
    (buildInfo : BuildInfo) : Prop :=
  buildInfo.solcVersion = entry.solcConfig.version ∧
  buildInfo.input.settings = entry.solcConfig.settings ∧
  ∀ sourceName, Reaches (inputImports env.reader buildInfo.input) entry.sourceName sourceName →
    ∃ text, buildInfo.input.sources.lookup sourceName = some text ∧
      ∀ other, cache.getEntry (absolutePathOf env.projectRoot sourceName) = some other →
        env.reader.hash text = other.contentHash

/-- What every state of an allowed history keeps, given the source names removed so far. -/
structure Consistent (env : Environment) (world : World) (removed : List String) : Prop where
  keyed : WellKeyed env.projectRoot world.buildState.solidityFilesCache
  owned : ∀ absolutePath entry,
    world.buildState.solidityFilesCache.getEntry absolutePath = some entry →
      entry.sourceName ∈ world.sources ∨ entry.sourceName ∈ removed
  removedAbsent : ∀ sourceName ∈ removed, sourceName ∉ world.sources
  provenant : ∀ absolutePath entry,
    world.buildState.solidityFilesCache.getEntry absolutePath = some entry →
      entry.sourceName ∉ removed → ∀ contractName ∈ entry.artifacts, ∀ saved,
        world.buildState.artifacts.saved ⟨entry.sourceName, contractName⟩ = some saved →
          Provenant env world.buildState.solidityFilesCache entry saved.buildInfo

section Reach

variable {reader : SourceReader} {projectRoot : String}
  {sources : AList fun _ : String => ProjectFile} {graph : DependencyGraph}
  (created : createDependencyGraph reader projectRoot sources = .ok graph)
include created

/-- Where a compiler input holds the current text of a name, it sees the name's imports
    in the graph. -/
theorem inputImports_eq_importsOf {input : CompilerInput} {sourceName : String}
    (same : input.sources.lookup sourceName =
      (graph.getResolvedFile? sourceName).map (·.content.rawContent)) :
    inputImports reader input sourceName = graph.importsOf sourceName := by
  cases found : graph.getResolvedFile? sourceName with
  | none => simp [inputImports, DependencyGraph.importsOf, same, found]
  | some file =>
      simp only [inputImports, DependencyGraph.importsOf, same, found, Option.map_some',
        Option.getD_some]
      exact (resolved_of_mem_createDependencyGraph created
        (DependencyGraph.getResolvedFile?_eq_some.mp found).1).1.symm

variable (hashInjective : Function.Injective reader.hash) {cache : SolidityFilesCache}
  {input : CompilerInput} {root : String}
  (provenant : ∀ sourceName, Reaches (inputImports reader input) root sourceName →
    ∃ text, input.sources.lookup sourceName = some text ∧
      ∀ other, cache.getEntry (absolutePathOf projectRoot sourceName) = some other →
        reader.hash text = other.contentHash)
  (current : ∀ file ∈ graph.files, Reaches graph.importsOf root file.sourceName →
    ∃ entry, cache.getEntry file.absolutePath = some entry ∧ entry.contentHash = file.contentHash)
  (rootMem : root ∈ graph.sourceNames)
include hashInjective provenant current rootMem

/-- Against a cache current along the closure of `root`, an input provenant from `root`
    holds the current text of every name both reach. -/
theorem lookup_of_reaches {sourceName : String}
    (inputReaches : Reaches (inputImports reader input) root sourceName)
    (reaches : Reaches graph.importsOf root sourceName) :
    input.sources.lookup sourceName = (graph.getResolvedFile? sourceName).map (·.content.rawContent) := by
  obtain ⟨file, mem, rfl⟩ :=
    DependencyGraph.mem_sourceNames.mp (DependencyGraph.mem_sourceNames_of_reaches rootMem reaches)
  obtain ⟨text, found, hashed⟩ := provenant _ inputReaches
  obtain ⟨entry, entryFound, sameHash⟩ := current file mem reaches
  rw [absolutePath_of_mem_createDependencyGraph created mem] at entryFound
  have sameText : text = file.content.rawContent := hashInjective <| calc
    reader.hash text = entry.contentHash := hashed entry entryFound
    _ = file.contentHash := sameHash
    _ = reader.hash file.content.rawContent := (resolved_of_mem_createDependencyGraph created mem).2
  simp [found, sameText, DependencyGraph.getResolvedFile?_of_mem mem]

/-- What such an input reaches from `root`, the graph reaches. -/
theorem reaches_of_reaches_input {sourceName : String}
    (inputReaches : Reaches (inputImports reader input) root sourceName) :
    Reaches graph.importsOf root sourceName := by
  induction inputReaches with
  | refl => exact .refl
  | tail importerReaches imported reaches =>
      rw [inputImports_eq_importsOf created (lookup_of_reaches created hashInjective provenant
        current rootMem importerReaches reaches)] at imported
      exact .tail reaches imported

/-- Such an input and the graph reach the same names from `root`. -/
theorem reaches_input_iff {sourceName : String} :
    Reaches (inputImports reader input) root sourceName ↔ Reaches graph.importsOf root sourceName :=
  (Reaches.congr fun _ inputReaches =>
    (inputImports_eq_importsOf created (lookup_of_reaches created hashInjective provenant current
      rootMem inputReaches (reaches_of_reaches_input created hashInjective provenant current
        rootMem inputReaches))).symm).symm

end Reach

/-- The input of a merged job holds the current text of every name that a file it emits
    reaches through the input's imports, and the graph reaches the name too. -/
theorem Planned.reaches_of_reaches_mergedInput {env : Environment}
    {sources : AList fun _ : String => ProjectFile} {buildState : BuildState} {force : Bool}
    {plan : CompilationPlan} (planned : Planned env sources buildState force plan)
    {job : CompilationJob} {file : ResolvedFile} (mem : job ∈ plan.mergedCompilationJobs)
    (fileMem : file ∈ job.getResolvedFiles) (emits : job.emitsArtifacts file = true)
    {sourceName : String}
    (inputReaches : Reaches (inputImports env.reader (getInputFromCompilationJob job))
      file.sourceName sourceName) :
    Reaches plan.dependencyGraph.importsOf file.sourceName sourceName ∧
      ∃ dependency ∈ plan.dependencyGraph.files, dependency.sourceName = sourceName ∧
        (getInputFromCompilationJob job).sources.lookup sourceName =
          some dependency.content.rawContent := by
  induction inputReaches with
  | refl =>
      exact ⟨.refl, file, planned.mem_files mem fileMem, rfl, lookup_getInputFromCompilationJob fileMem⟩
  | tail _ imported induction =>
      obtain ⟨reaches, importer, importerMem, rfl, found⟩ := induction
      rw [inputImports_eq_importsOf planned.graph
        (by rw [found, DependencyGraph.getResolvedFile?_of_mem importerMem]; rfl)] at imported
      have nameReaches := Reaches.tail reaches imported
      obtain ⟨dependency, dependencyMem, rfl⟩ := DependencyGraph.mem_sourceNames.mp
        (DependencyGraph.mem_sourceNames_of_mem_importsOf imported)
      exact ⟨nameReaches, dependency, dependencyMem, rfl, lookup_getInputFromCompilationJob
        (planned.mem_getResolvedFiles_of_reaches mem fileMem emits dependencyMem nameReaches)⟩

/-- Against a cache current for the graph, an input whose reachable names hold their
    current texts is provenant. -/
theorem CacheCurrent.provenant_of_texts {env : Environment} {graph : DependencyGraph}
    {buildState : BuildState} (current : CacheCurrent env graph buildState)
    {sources : AList fun _ : String => ProjectFile}
    (created : createDependencyGraph env.reader env.projectRoot sources = .ok graph)
    {input : CompilerInput} {root : String}
    (texts : ∀ sourceName, Reaches (inputImports env.reader input) root sourceName →
      ∃ file ∈ graph.files, file.sourceName = sourceName ∧
        input.sources.lookup sourceName = some file.content.rawContent)
    (sourceName : String) (reaches : Reaches (inputImports env.reader input) root sourceName) :
    ∃ text, input.sources.lookup sourceName = some text ∧
      ∀ other, buildState.solidityFilesCache.getEntry (absolutePathOf env.projectRoot sourceName) =
        some other → env.reader.hash text = other.contentHash := by
  obtain ⟨file, mem, rfl, found⟩ := texts sourceName reaches
  refine ⟨_, found, fun other otherFound => ?_⟩
  obtain ⟨job, entry, -, entryFound, sameHash, -⟩ := current file mem
  rw [← absolutePath_of_mem_createDependencyGraph created mem, entryFound] at otherFound
  cases otherFound
  rw [sameHash, (resolved_of_mem_createDependencyGraph created mem).2]

/-! ## The invariant -/

namespace Consistent

variable {env : Environment} {world : World} {removed : List String}

/-- A project before its first build. -/
theorem initial (sources : AList fun _ : String => ProjectFile) :
    Consistent env (World.initial sources) [] where
  keyed := wellKeyed_createEmpty _
  owned _ _ found := by simp [World.initial, emptyBuildState] at found
  removedAbsent _ mem := absurd mem (List.not_mem_nil _)
  provenant _ _ found := by simp [World.initial, emptyBuildState] at found

variable (consistent : Consistent env world removed)
include consistent

theorem editFile (sourceName : String) (file : ProjectFile) :
    Consistent env ⟨world.sources.replace sourceName file, world.buildState⟩ removed where
  keyed := consistent.keyed
  owned path entry found := by
    simpa only [AList.mem_replace] using consistent.owned path entry found
  removedAbsent name mem := by
    simpa only [AList.mem_replace] using consistent.removedAbsent name mem
  provenant := consistent.provenant

theorem addFile {sourceName : String} (notRemoved : sourceName ∉ removed) (file : ProjectFile) :
    Consistent env ⟨world.sources.insert sourceName file, world.buildState⟩ removed where
  keyed := consistent.keyed
  owned path entry found := (consistent.owned path entry found).imp_left
    fun present => (AList.mem_insert _).mpr (.inr present)
  removedAbsent name mem := by
    rw [AList.mem_insert, not_or]
    exact ⟨fun same => notRemoved (same ▸ mem), consistent.removedAbsent name mem⟩
  provenant := consistent.provenant

theorem removeFile (sourceName : String) :
    Consistent env ⟨world.sources.erase sourceName, world.buildState⟩ (sourceName :: removed) where
  keyed := consistent.keyed
  owned path entry found := by
    rw [AList.mem_erase, List.mem_cons]
    by_cases same : entry.sourceName = sourceName
    · exact .inr (.inl same)
    · exact (consistent.owned path entry found).imp (⟨same, ·⟩) .inr
  removedAbsent name mem := by
    rw [AList.mem_erase, not_and_or, not_not]
    rcases List.mem_cons.mp mem with rfl | mem
    · exact .inl rfl
    · exact .inr (consistent.removedAbsent name mem)
  provenant path entry found notRemoved :=
    consistent.provenant path entry found fun mem => notRemoved (List.mem_cons_of_mem _ mem)

theorem deleteArtifact (fullyQualifiedName : FullyQualifiedName) :
    Consistent env ⟨world.sources, ⟨world.buildState.solidityFilesCache,
      world.buildState.artifacts.deleteArtifact fullyQualifiedName⟩⟩ removed where
  keyed := consistent.keyed
  owned := consistent.owned
  removedAbsent := consistent.removedAbsent
  provenant path entry found notRemoved contractName contractMem saved savedNow := by
    rw [Artifacts.saved_deleteArtifact] at savedNow
    split at savedNow
    · cases savedNow
    · exact consistent.provenant path entry found notRemoved contractName contractMem saved savedNow

end Consistent

namespace CompletedRun

variable {env : Environment} {sources : AList fun _ : String => ProjectFile}
  {buildState : BuildState} {force : Bool} {plan : CompilationPlan}
  {emitted : List ArtifactsEmittedForJob} {removed : List String}
  (run : CompletedRun env sources buildState force plan emitted)
include run

/-- The artifacts of a file a merged job emits are saved from its compilation, whose
    input holds the current text of every name the file reaches. -/
private theorem provenant_of_written (keyed : WellKeyed env.projectRoot buildState.solidityFilesCache)
    {job : CompilationJob} {file : ResolvedFile} {solcBuild : SolcBuild} {output : CompilerOutput}
    (mem : job ∈ plan.mergedCompilationJobs) (fileMem : file ∈ job.getResolvedFiles)
    (emits : job.emitsArtifacts file = true)
    (found : compilerOutput env.toolchain job = some (solcBuild, output))
    {contractName : String} (contractMem : contractName ∈ contractNames output file.sourceName)
    {saved : SavedArtifact}
    (savedNow : (compileSolidity env sources buildState force).buildState.artifacts.saved
      ⟨file.sourceName, contractName⟩ = some saved) :
    Provenant env (compileSolidity env sources buildState force).buildState.solidityFilesCache
      (cacheEntryFor file job.getSolcConfig (contractNames output file.sourceName)) saved.buildInfo := by
  obtain ⟨saved', savedNow', contractOutput, -, rfl⟩ :=
    run.saved_of_emitsArtifacts mem fileMem emits found contractMem
  rw [savedNow] at savedNow'
  cases savedNow'
  exact ⟨rfl, rfl, (run.cacheCurrent keyed).provenant_of_texts run.planned.graph fun _ reaches =>
    (run.planned.reaches_of_reaches_mergedInput mem fileMem emits reaches).2⟩

/-- An entry the run did not write belongs to a file whose whole closure was unchanged, and
    the artifacts it lists are those the store had: their provenance carries over. -/
private theorem provenant_of_kept (hashInjective : Function.Injective env.reader.hash)
    (consistent : Consistent env ⟨sources, buildState⟩ removed)
    {absolutePath : String} {entry : CacheEntry}
    (untouched : ∀ job ∈ plan.mergedCompilationJobs, ∀ file ∈ job.getResolvedFiles,
      job.emitsArtifacts file = true → file.absolutePath ≠ absolutePath)
    (kept : plan.solidityFilesCache.getEntry absolutePath = some entry)
    (notRemoved : entry.sourceName ∉ removed) {contractName : String}
    (contractMem : contractName ∈ entry.artifacts) {saved : SavedArtifact}
    (savedNow : (compileSolidity env sources buildState force).buildState.artifacts.saved
      ⟨entry.sourceName, contractName⟩ = some saved) :
    Provenant env (compileSolidity env sources buildState force).buildState.solidityFilesCache
      entry saved.buildInfo := by
  have previous := (getEntry_of_getEntry_invalidateCacheMissingArtifacts (run.planned.cache ▸ kept)).1
  obtain ⟨file, fileMem, named⟩ := DependencyGraph.mem_sourceNames.mp
    ((mem_sourceNames_of_createDependencyGraph run.planned.graph).mpr
      ((consistent.owned _ _ previous).resolve_right notRemoved))
  have rootMem := DependencyGraph.mem_sourceNames.mpr ⟨file, fileMem, rfl⟩
  have samePath : file.absolutePath = absolutePath := by
    rw [run.planned.absolutePath_eq fileMem, consistent.keyed _ _ previous, named]
  obtain ⟨job, created⟩ := createCompilationJobFromFile_of_errors_eq_nil run.planned.noErrors fileMem
  have dropped : job ∉ plan.filteredCompilationJobs := fun kept' => by
    obtain ⟨merged, mergedMem, -, inMerged, emits⟩ :=
      run.planned.exists_merged_of_mem_filtered fileMem created kept'
    exact untouched merged mergedMem file inMerged emits samePath
  have current : ∀ dependency ∈ plan.dependencyGraph.files,
      Reaches plan.dependencyGraph.importsOf file.sourceName dependency.sourceName →
      ∃ entry, buildState.solidityFilesCache.getEntry dependency.absolutePath = some entry ∧
        entry.contentHash = dependency.contentHash :=
    fun _ dependencyMem => run.planned.current_of_not_mem_filtered fileMem created dropped dependencyMem
  have notEmitted : ∀ other ∈ plan.mergedCompilationJobs, ∀ otherFile ∈ other.getResolvedFiles,
      other.emitsArtifacts otherFile = true → otherFile.sourceName ≠ entry.sourceName :=
    fun other otherMem otherFile otherFileMem emits sameName =>
      untouched other otherMem otherFile otherFileMem emits (by
        rw [run.planned.absolutePath_eq (run.planned.mem_files otherMem otherFileMem), sameName,
          ← named, ← run.planned.absolutePath_eq fileMem, samePath])
  have savedBefore := (run.saved_of_saved savedNow).2
  rw [run.saved_compileJobs_of_not_emitted notEmitted] at savedBefore
  obtain ⟨sameVersion, sameSettings, reachesBefore⟩ :=
    consistent.provenant _ _ previous notRemoved contractName contractMem saved savedBefore
  rw [← named] at reachesBefore
  refine ⟨sameVersion, sameSettings, (run.cacheCurrent consistent.keyed).provenant_of_texts
    run.planned.graph fun sourceName inputReaches => ?_⟩
  rw [← named] at inputReaches
  have reaches := reaches_of_reaches_input run.planned.graph hashInjective reachesBefore current
    rootMem inputReaches
  obtain ⟨dependency, dependencyMem, rfl⟩ := DependencyGraph.mem_sourceNames.mp
    (DependencyGraph.mem_sourceNames_of_reaches rootMem reaches)
  refine ⟨dependency, dependencyMem, rfl, ?_⟩
  rw [lookup_of_reaches run.planned.graph hashInjective reachesBefore current rootMem inputReaches
    reaches, DependencyGraph.getResolvedFile?_of_mem dependencyMem]
  rfl

/-- A completed run keeps the invariant. -/
theorem consistent (hashInjective : Function.Injective env.reader.hash)
    (consistent : Consistent env ⟨sources, buildState⟩ removed) :
    Consistent env ⟨sources, (compileSolidity env sources buildState force).buildState⟩ removed where
  keyed := run.wellKeyed consistent.keyed
  owned path entry found := by
    rcases run.getEntry_cases found with
      ⟨job, mem, file, fileMem, -, -, -, -, -, rfl⟩ | ⟨-, kept⟩
    · exact .inl ((mem_sourceNames_of_createDependencyGraph run.planned.graph).mp
        (DependencyGraph.mem_sourceNames.mpr ⟨file, run.planned.mem_files mem fileMem, rfl⟩))
    · exact consistent.owned path entry
        (getEntry_of_getEntry_invalidateCacheMissingArtifacts (run.planned.cache ▸ kept)).1
  removedAbsent := consistent.removedAbsent
  provenant path entry found notRemoved contractName contractMem saved savedNow := by
    rcases run.getEntry_cases found with
      ⟨job, mem, file, fileMem, emits, -, solcBuild, output, outputOf, rfl⟩ | ⟨untouched, kept⟩
    · exact run.provenant_of_written consistent.keyed mem fileMem emits outputOf contractMem savedNow
    · exact run.provenant_of_kept hashInjective consistent untouched kept notRemoved contractMem
        savedNow

end CompletedRun

namespace Consistent

variable {env : Environment} {world : World} {removed : List String}
  (hashInjective : Function.Injective env.reader.hash)
include hashInjective

/-- A run that completes keeps the invariant, and so does one that throws, when it leaves
    the store as it found it: it does not write the cache. -/
theorem compile (consistent : Consistent env world removed) {force : Bool}
    (allowed : world.Completes env force ∨
      (compileSolidity env world.sources world.buildState force).buildState.artifacts =
        world.buildState.artifacts) :
    Consistent env ⟨world.sources, (compileSolidity env world.sources world.buildState force).buildState⟩
      removed := by
  cases result : (compileSolidity env world.sources world.buildState force).result with
  | ok =>
      obtain ⟨plan, emitted, run⟩ := completedRun_of_ok result
      exact run.consistent hashInjective consistent
  | error error =>
      have sameArtifacts := allowed.resolve_left fun completes => by
        rw [World.Completes, result] at completes
        cases completes
      rw [BuildState.ext (compileSolidity_cache_of_error result) sameArtifacts]
      exact consistent

/-- Every allowed step keeps the invariant. -/
theorem step (consistent : Consistent env world removed) {step : Step}
    (allowed : StepAllowed env world removed step) :
    Consistent env (world.step env step) (step.removes ++ removed) := by
  cases step with
  | editFile sourceName file => exact consistent.editFile sourceName file
  | addFile sourceName file => exact consistent.addFile allowed file
  | removeFile sourceName => exact consistent.removeFile sourceName
  | deleteArtifact fullyQualifiedName => exact consistent.deleteArtifact fullyQualifiedName
  | compile force => exact consistent.compile hashInjective allowed

/-- Every allowed history keeps the invariant. -/
theorem run (steps : List Step) (admissible : Admissible env world removed steps)
    (consistent : Consistent env world removed) :
    ∃ removed', Consistent env (world.run env steps) removed' := by
  induction steps generalizing world removed with
  | nil => exact ⟨removed, consistent⟩
  | cons step steps induction =>
      exact induction admissible.2 (consistent.step hashInjective admissible.1)

/-- A run that completes from a consistent world leaves no stale artifact. -/
theorem noStaleArtifacts (consistent : Consistent env world removed) {force : Bool}
    (completes : world.Completes env force) :
    NoStaleArtifacts env (world.step env (.compile force)) := by
  obtain ⟨plan, emitted, run⟩ := completedRun_of_ok completes
  have after := run.consistent hashInjective consistent
  intro graph created file fileMem contractName saved savedNow
  obtain rfl : graph = plan.dependencyGraph := Except.ok.inj (created.symm.trans run.planned.graph)
  have rootMem := DependencyGraph.mem_sourceNames.mpr ⟨file, fileMem, rfl⟩
  obtain ⟨job, entry, created', entryFound, -, sameName, sameConfig, -⟩ :=
    run.cacheCurrent consistent.keyed file fileMem
  obtain ⟨⟨listing, listingMem, listingName, contractMem⟩, -⟩ := run.saved_of_saved savedNow
  obtain ⟨path, listingFound⟩ := SolidityFilesCache.mem_getEntries.mp listingMem
  rw [after.keyed _ _ listingFound, listingName, ← run.planned.absolutePath_eq fileMem,
    entryFound] at listingFound
  cases listingFound
  have notRemoved : file.sourceName ∉ removed := fun mem => consistent.removedAbsent _ mem
    ((mem_sourceNames_of_createDependencyGraph run.planned.graph).mp rootMem)
  obtain ⟨sameVersion, sameSettings, reachesInput⟩ := after.provenant _ _ entryFound
    (sameName ▸ notRemoved) contractName contractMem saved (sameName ▸ savedNow)
  rw [sameName] at reachesInput
  have current : ∀ dependency ∈ plan.dependencyGraph.files,
      Reaches plan.dependencyGraph.importsOf file.sourceName dependency.sourceName →
      ∃ entry, (compileSolidity env world.sources world.buildState force).buildState.solidityFilesCache.getEntry
        dependency.absolutePath = some entry ∧ entry.contentHash = dependency.contentHash :=
    fun dependency dependencyMem _ =>
      let ⟨_, entry, _, found, sameHash, _⟩ := run.cacheCurrent consistent.keyed dependency dependencyMem
      ⟨entry, found, sameHash⟩
  refine ⟨job, created', sameConfig ▸ sameVersion, sameConfig ▸ sameSettings, fun sourceName closureMem => ?_⟩
  have reaches := (DependencyGraph.mem_transitiveClosure_iff rootMem).mp closureMem
  exact lookup_of_reaches run.planned.graph hashInjective reachesInput current rootMem
    ((reaches_input_iff run.planned.graph hashInjective reachesInput current rootMem).mpr reaches) reaches

end Consistent

/-- No stale artifact is kept by a history that starts from an empty cache and store and
    in which every run that throws leaves the store as it found it and no removed source
    name is added back: after every run that completes, every artifact stored for a file
    of the dependency graph was compiled with the file's configuration, from an input
    holding the current text of the file and of everything it transitively imports. -/
theorem noStaleArtifacts_of_admissible {env : Environment}
    (hashInjective : Function.Injective env.reader.hash)
    (sources : AList fun _ : String => ProjectFile) (steps : List Step) (force : Bool)
    (admissible : Admissible env (World.initial sources) [] steps)
    (completes : ((World.initial sources).run env steps).Completes env force) :
    NoStaleArtifacts env (((World.initial sources).run env steps).step env (.compile force)) := by
  obtain ⟨removed, consistent⟩ :=
    Consistent.run hashInjective steps admissible (Consistent.initial sources)
  exact consistent.noStaleArtifacts hashInjective completes

/-- Build, edit `A`, remove `B`, add `C`, and build again. -/
def editedHistory : List Step :=
  [.compile false, .editFile "A" ⟨"a1", 1⟩, .removeFile "B", .addFile "C" ⟨"uses A", 1⟩]

theorem editedHistory_keepsNoStaleArtifact :
    Function.Injective exampleEnvironment.reader.hash ∧
      Admissible exampleEnvironment (World.initial exampleSources) [] editedHistory ∧
      ((World.initial exampleSources).run exampleEnvironment editedHistory).Completes
        exampleEnvironment false ∧
      NoStaleArtifacts exampleEnvironment
        (((World.initial exampleSources).run exampleEnvironment editedHistory).step
          exampleEnvironment (.compile false)) :=
  ⟨fun _ _ same => same, ⟨.inl rfl, trivial, trivial, show "C" ∉ ["B"] by decide, trivial⟩, rfl,
    noStaleArtifacts_of_admissible (fun _ _ same => same) exampleSources editedHistory false
      ⟨.inl rfl, trivial, trivial, show "C" ∉ ["B"] by decide, trivial⟩ rfl⟩

end Hardhat.Compile
