import Hardhat.Compile.Emit
import Hardhat.Compile.Progress

namespace Hardhat.Compile

/-! # The compile task

`TASK_COMPILE_SOLIDITY` builds the dependency graph of the project, drops the cache
entries whose artifacts are missing, plans one job per file, keeps the jobs one of
whose files changed, merges the jobs of equal configurations and compiles them.  When
the compilation completes it records an entry for every emitted file, removes the
artifacts no entry lists, and writes the cache; when it throws, the cache file on disk
is left as it was, while the artifacts already emitted stay in the store.

`compileSolidity_records_compiled` says what a completed run leaves in the cache: the
entry of every emitted file records the configuration of its merged job and the
contract names saved for it, every other entry is as the invalidation left it, and the
entries name every artifact the run saved.  No path is written twice, because a file
emits in the merged job of its own configuration only (`Planned.emitsOnce`).
-/

/-- What a run reads besides the project and the build state: the project root,
    `config.solidity`, and the helpers it calls. -/
structure Environment where
  projectRoot : String
  solidity : SolidityConfig
  semver : Semver
  reader : SourceReader
  toolchain : Toolchain

/-- What one run leaves for the next: the solidity files cache on disk and the
    artifacts directory. -/
@[ext] structure BuildState where
  solidityFilesCache : SolidityFilesCache
  artifacts : Artifacts

/-- A fresh project: no cache file and no artifacts. -/
def emptyBuildState : BuildState := ⟨SolidityFilesCache.createEmpty, Artifacts.empty⟩

/-- The values a run computes before compiling. -/
structure CompilationPlan where
  dependencyGraph : DependencyGraph
  solidityFilesCache : SolidityFilesCache
  compilationJobs : List CompilationJob
  filteredCompilationJobs : List CompilationJob
  mergedCompilationJobs : List CompilationJob

/-- `TASK_COMPILE_SOLIDITY_HANDLE_COMPILATION_JOBS_FAILURES`. -/
def handleCompilationJobsFailures (compilationJobsCreationErrors : List CompilationJobCreationError) :
    Except HardhatError Unit :=
  if compilationJobsCreationErrors.length > 0 then
    .error (.compilationJobsCreationFailure compilationJobsCreationErrors)
  else .ok ()

/-- The steps of `TASK_COMPILE_SOLIDITY` up to `TASK_COMPILE_SOLIDITY_MERGE_COMPILATION_JOBS`. -/
def planCompilation (env : Environment) (sources : AList fun _ : String => ProjectFile)
    (buildState : BuildState) (force : Bool) : Except HardhatError CompilationPlan := do
  let dependencyGraph ← createDependencyGraph env.reader env.projectRoot sources
  let solidityFilesCache := invalidateCacheMissingArtifacts buildState.solidityFilesCache
    buildState.artifacts dependencyGraph.getResolvedFiles
  let compilationJobsCreationResult := getCompilationJobs env.semver env.solidity dependencyGraph
  handleCompilationJobsFailures compilationJobsCreationResult.errors
  let compilationJobs := compilationJobsCreationResult.jobs
  let filteredCompilationJobs := filterCompilationJobs compilationJobs force solidityFilesCache
  let mergedCompilationJobs := mergeCompilationJobsWithoutBug filteredCompilationJobs
  pure ⟨dependencyGraph, solidityFilesCache, compilationJobs, filteredCompilationJobs,
    mergedCompilationJobs⟩

/-- The entry the cache update loop writes for an emitted file. -/
def cacheEntryFor (file : ResolvedFile) (solcConfig : SolcConfig) (artifactsEmitted : List String) :
    CacheEntry where
  lastModificationDate := file.lastModificationDate
  contentHash := file.contentHash
  sourceName := file.sourceName
  solcConfig := solcConfig
  imports := file.content.imports
  versionPragmas := file.content.versionPragmas
  artifacts := artifactsEmitted

/-- The inner loop of the cache update, over the files one job emitted. -/
def addArtifactsEmittedPerFile (solcConfig : SolcConfig) (solidityFilesCache : SolidityFilesCache)
    (artifactsEmittedPerFile : List ArtifactsEmittedForFile) : SolidityFilesCache :=
  artifactsEmittedPerFile.foldl (fun cache emitted =>
    cache.addFile emitted.file.absolutePath
      (cacheEntryFor emitted.file solcConfig emitted.artifactsEmitted)) solidityFilesCache

/-- The cache update loop of `TASK_COMPILE_SOLIDITY`, over the compiled jobs. -/
def addArtifactsEmittedPerJob (solidityFilesCache : SolidityFilesCache)
    (artifactsEmittedPerJob : List ArtifactsEmittedForJob) : SolidityFilesCache :=
  artifactsEmittedPerJob.foldl (fun cache emitted =>
    addArtifactsEmittedPerFile emitted.compilationJob.getSolcConfig cache
      emitted.artifactsEmittedPerFile) solidityFilesCache

/-- What a run leaves: the build state, the jobs the compiler ran on, and whether it
    completed. -/
structure CompileSolidityResult where
  buildState : BuildState
  compiledJobs : List CompilationJob
  result : Except HardhatError Unit

/-- `TASK_COMPILE_SOLIDITY`.  The cache is written only at the end, so a run that
    throws leaves the cache file as it was. -/
def compileSolidity (env : Environment) (sources : AList fun _ : String => ProjectFile)
    (buildState : BuildState) (force : Bool) : CompileSolidityResult :=
  match planCompilation env sources buildState force with
  | .error error => ⟨buildState, [], .error error⟩
  | .ok plan =>
      let compiled := compileJobs env.semver env.toolchain plan.mergedCompilationJobs
        buildState.artifacts
      match compiled.artifactsEmittedPerJob with
      | .error error =>
          ⟨⟨buildState.solidityFilesCache, compiled.artifacts⟩, compiled.compiledJobs, .error error⟩
      | .ok artifactsEmittedPerJob =>
          let solidityFilesCache :=
            addArtifactsEmittedPerJob plan.solidityFilesCache artifactsEmittedPerJob
          ⟨⟨solidityFilesCache, compiled.artifacts.removeObsoleteArtifacts solidityFilesCache.getEntries⟩,
            compiled.compiledJobs, .ok ()⟩

/-! ## The plan -/

/-- What a successful plan is made of. -/
structure Planned (env : Environment) (sources : AList fun _ : String => ProjectFile)
    (buildState : BuildState) (force : Bool) (plan : CompilationPlan) : Prop where
  graph : createDependencyGraph env.reader env.projectRoot sources = .ok plan.dependencyGraph
  cache : plan.solidityFilesCache = invalidateCacheMissingArtifacts buildState.solidityFilesCache
    buildState.artifacts plan.dependencyGraph.getResolvedFiles
  noErrors : (getCompilationJobs env.semver env.solidity plan.dependencyGraph).errors = []
  jobs : plan.compilationJobs = (getCompilationJobs env.semver env.solidity plan.dependencyGraph).jobs
  filtered : plan.filteredCompilationJobs =
    filterCompilationJobs plan.compilationJobs force plan.solidityFilesCache
  merged : plan.mergedCompilationJobs = mergeCompilationJobsWithoutBug plan.filteredCompilationJobs

variable {env : Environment} {sources : AList fun _ : String => ProjectFile}
  {buildState : BuildState} {force : Bool} {plan : CompilationPlan}

theorem planned_of_planCompilation (planned : planCompilation env sources buildState force = .ok plan) :
    Planned env sources buildState force plan := by
  unfold planCompilation at planned
  cases created : createDependencyGraph env.reader env.projectRoot sources with
  | error => simp [created, bind, Except.bind] at planned
  | ok graph =>
      simp only [created, bind, Except.bind, handleCompilationJobsFailures] at planned
      split at planned
      · cases planned
      · rename_i noErrors
        simp only [pure, Except.pure, Except.ok.injEq] at planned
        subst planned
        exact ⟨created, rfl, List.eq_nil_of_length_eq_zero (by simpa using noErrors), rfl, rfl, rfl⟩

namespace Planned

variable (planned : Planned env sources buildState force plan)
include planned

theorem absolutePath_eq {file : ResolvedFile} (mem : file ∈ plan.dependencyGraph.files) :
    file.absolutePath = absolutePathOf env.projectRoot file.sourceName :=
  absolutePath_of_mem_createDependencyGraph planned.graph mem

theorem mergedFrom : MergedFrom plan.filteredCompilationJobs plan.mergedCompilationJobs :=
  planned.merged ▸ mergedFrom_mergeCompilationJobsWithoutBug _

theorem mem_compilationJobs {job : CompilationJob} (mem : job ∈ plan.filteredCompilationJobs) :
    job ∈ plan.compilationJobs := by
  rw [planned.filtered, filterCompilationJobs] at mem
  split at mem
  · exact mem
  · exact List.mem_of_mem_filter mem

theorem drawnFrom {job : CompilationJob} (mem : job ∈ plan.mergedCompilationJobs) :
    job.DrawnFrom plan.dependencyGraph.files := by
  rw [planned.merged] at mem
  refine drawnFrom_mergeCompilationJobsWithoutBug (fun planned' mem' => ?_) _ mem
  obtain ⟨file, -, created⟩ := mem_getCompilationJobs_jobs.mp
    (planned.jobs ▸ planned.mem_compilationJobs mem')
  exact drawnFrom_of_createCompilationJobFromFile created

/-- A file of a merged job is a file of the graph. -/
theorem mem_files {job : CompilationJob} {file : ResolvedFile}
    (mem : job ∈ plan.mergedCompilationJobs) (fileMem : file ∈ job.getResolvedFiles) :
    file ∈ plan.dependencyGraph.files := by
  obtain ⟨entry, entryMem, rfl⟩ := List.mem_map.mp fileMem
  exact planned.drawnFrom mem entry entryMem

/-- A planned job that emits a file of the graph is the job planned for that file. -/
theorem createCompilationJobFromFile_of_emitsArtifacts {job : CompilationJob} {file : ResolvedFile}
    (mem : job ∈ plan.compilationJobs) (fileMem : file ∈ plan.dependencyGraph.files)
    (emits : job.emitsArtifacts file = true) :
    createCompilationJobFromFile env.semver env.solidity plan.dependencyGraph file = .ok job := by
  obtain ⟨owner, ownerMem, created⟩ := mem_getCompilationJobs_jobs.mp (planned.jobs ▸ mem)
  rw [emitsArtifacts_of_createCompilationJobFromFile ownerMem created, beq_iff_eq] at emits
  rwa [DependencyGraph.eq_of_sourceName_eq fileMem ownerMem emits]

/-- A file of a merged job that emits artifacts comes from the job planned for it,
    which was kept by the filter and has the merged job's configuration. -/
theorem exists_filtered_of_emitsArtifacts {job : CompilationJob} {file : ResolvedFile}
    (mem : job ∈ plan.mergedCompilationJobs) (fileMem : file ∈ job.getResolvedFiles)
    (emits : job.emitsArtifacts file = true) :
    ∃ planned' ∈ plan.filteredCompilationJobs, planned'.getSolcConfig = job.getSolcConfig ∧
      createCompilationJobFromFile env.semver env.solidity plan.dependencyGraph file = .ok planned' := by
  obtain ⟨planned', plannedMem, sameConfig, plannedEmits⟩ :=
    (planned.mergedFrom.emitsArtifacts file job mem).mp emits
  exact ⟨planned', plannedMem, sameConfig, planned.createCompilationJobFromFile_of_emitsArtifacts
    (planned.mem_compilationJobs plannedMem) (planned.mem_files mem fileMem) plannedEmits⟩

/-- No source name emits artifacts in two merged jobs. -/
theorem emitsOnce {job other : CompilationJob} {file : ResolvedFile}
    (mem : job ∈ plan.mergedCompilationJobs) (otherMem : other ∈ plan.mergedCompilationJobs)
    (fileMem : file ∈ job.getResolvedFiles) (emits : job.emitsArtifacts file = true)
    (otherEmits : other.emitsArtifacts file = true) : job = other := by
  obtain ⟨planned', -, sameConfig, created⟩ := planned.exists_filtered_of_emitsArtifacts mem fileMem emits
  obtain ⟨otherPlanned, otherPlannedMem, otherConfig, otherPlannedEmits⟩ :=
    (planned.mergedFrom.emitsArtifacts file other otherMem).mp otherEmits
  have same : otherPlanned = planned' := by
    have otherCreated := planned.createCompilationJobFromFile_of_emitsArtifacts
      (planned.mem_compilationJobs otherPlannedMem) (planned.mem_files mem fileMem) otherPlannedEmits
    rw [created] at otherCreated
    exact (Except.ok.inj otherCreated).symm
  subst same
  exact List.inj_on_of_nodup_map planned.mergedFrom.configsNodup mem otherMem
    (sameConfig.symm.trans otherConfig)

/-- The job planned for a file, when the filter keeps it, is merged into a job that
    compiles the file and emits it. -/
theorem exists_merged_of_mem_filtered {job : CompilationJob} {file : ResolvedFile}
    (fileMem : file ∈ plan.dependencyGraph.files)
    (created : createCompilationJobFromFile env.semver env.solidity plan.dependencyGraph file = .ok job)
    (kept : job ∈ plan.filteredCompilationJobs) :
    ∃ merged ∈ plan.mergedCompilationJobs, merged.getSolcConfig = job.getSolcConfig ∧
      file ∈ merged.getResolvedFiles ∧ merged.emitsArtifacts file = true := by
  obtain ⟨merged, mem, sameConfig⟩ := planned.mergedFrom.covers job kept
  have emits : job.emitsArtifacts file = true := by
    rw [emitsArtifacts_of_createCompilationJobFromFile fileMem created]
    exact beq_self_eq_true _
  have named : file.sourceName ∈ job.sourceNames := by
    rw [sourceNames_of_createCompilationJobFromFile fileMem created]
    exact DependencyGraph.root_mem_transitiveClosure
      (DependencyGraph.mem_sourceNames.mpr ⟨file, fileMem, rfl⟩)
  refine ⟨merged, mem, sameConfig, ?_,
    (planned.mergedFrom.emitsArtifacts file merged mem).mpr ⟨job, kept, sameConfig.symm, emits⟩⟩
  exact (CompilationJob.mem_getResolvedFiles (planned.drawnFrom mem)
    plan.dependencyGraph.sourceNamesNodup fileMem).mpr
      ((planned.mergedFrom.sourceNames file.sourceName merged mem).mpr
        ⟨job, kept, sameConfig.symm, named⟩)

/-- A merged job compiles every file of the graph that a file it emits reaches. -/
theorem mem_getResolvedFiles_of_reaches {job : CompilationJob} {file dependency : ResolvedFile}
    (mem : job ∈ plan.mergedCompilationJobs) (fileMem : file ∈ job.getResolvedFiles)
    (emits : job.emitsArtifacts file = true) (dependencyMem : dependency ∈ plan.dependencyGraph.files)
    (reaches : Reaches plan.dependencyGraph.importsOf file.sourceName dependency.sourceName) :
    dependency ∈ job.getResolvedFiles := by
  obtain ⟨planned', plannedMem, sameConfig, created⟩ :=
    planned.exists_filtered_of_emitsArtifacts mem fileMem emits
  have graphMem := planned.mem_files mem fileMem
  have named : dependency.sourceName ∈ planned'.sourceNames := by
    rw [sourceNames_of_createCompilationJobFromFile graphMem created,
      DependencyGraph.mem_transitiveClosure_iff (DependencyGraph.mem_sourceNames.mpr ⟨file, graphMem, rfl⟩)]
    exact reaches
  exact (CompilationJob.mem_getResolvedFiles (planned.drawnFrom mem)
    plan.dependencyGraph.sourceNamesNodup dependencyMem).mpr
      ((planned.mergedFrom.sourceNames dependency.sourceName job mem).mpr
        ⟨planned', plannedMem, sameConfig, named⟩)

/-- The files of a merged job are closed under imports: every name a file of the job
    imports is the source name of a file of the job. -/
theorem mem_getResolvedFiles_of_imported {job : CompilationJob} {file : ResolvedFile}
    (mem : job ∈ plan.mergedCompilationJobs) (fileMem : file ∈ job.getResolvedFiles)
    {imported : String} (importedMem : imported ∈ file.content.imports) :
    ∃ dependency ∈ job.getResolvedFiles, dependency.sourceName = imported := by
  have graphMem := planned.mem_files mem fileMem
  have inJob : ∀ {other : ResolvedFile}, other ∈ plan.dependencyGraph.files →
      (other ∈ job.getResolvedFiles ↔ other.sourceName ∈ job.sourceNames) := fun otherMem =>
    CompilationJob.mem_getResolvedFiles (planned.drawnFrom mem) plan.dependencyGraph.sourceNamesNodup
      otherMem
  obtain ⟨planned', plannedMem, sameConfig, named⟩ :=
    (planned.mergedFrom.sourceNames file.sourceName job mem).mp ((inJob graphMem).mp fileMem)
  obtain ⟨owner, ownerMem, created⟩ :=
    mem_getCompilationJobs_jobs.mp (planned.jobs ▸ planned.mem_compilationJobs plannedMem)
  have closure : ∀ name, name ∈ planned'.sourceNames ↔
      Reaches plan.dependencyGraph.importsOf owner.sourceName name := fun name => by
    rw [sourceNames_of_createCompilationJobFromFile ownerMem created,
      DependencyGraph.mem_transitiveClosure_iff (DependencyGraph.mem_sourceNames.mpr ⟨owner, ownerMem, rfl⟩)]
  have reaches : Reaches plan.dependencyGraph.importsOf owner.sourceName imported :=
    .tail ((closure _).mp named) (by rwa [DependencyGraph.importsOf_of_mem graphMem])
  obtain ⟨dependency, dependencyMem, rfl⟩ := DependencyGraph.mem_sourceNames.mp
    (plan.dependencyGraph.importsResolved file graphMem imported importedMem)
  exact ⟨dependency, (inJob dependencyMem).mpr ((planned.mergedFrom.sourceNames _ job mem).mpr
    ⟨planned', plannedMem, sameConfig, (closure _).mpr reaches⟩), rfl⟩

/-- A planned job the filter drops was not forced and needs no compilation. -/
theorem needsCompilation_of_not_mem_filtered {job : CompilationJob}
    (mem : job ∈ plan.compilationJobs) (dropped : job ∉ plan.filteredCompilationJobs) :
    force = false ∧ needsCompilation job plan.solidityFilesCache = false := by
  rw [planned.filtered, filterCompilationJobs] at dropped
  cases force with
  | true => exact absurd mem dropped
  | false =>
      simp only [Bool.false_eq_true, if_false, List.mem_filter, not_and, Bool.not_eq_true] at dropped
      exact ⟨rfl, dropped mem⟩

/-- When the filter drops the job planned for a file, every file of the file's closure
    has, in the cache the run started from, an entry with its content hash. -/
theorem current_of_not_mem_filtered {job : CompilationJob} {file dependency : ResolvedFile}
    (fileMem : file ∈ plan.dependencyGraph.files)
    (created : createCompilationJobFromFile env.semver env.solidity plan.dependencyGraph file = .ok job)
    (dropped : job ∉ plan.filteredCompilationJobs)
    (dependencyMem : dependency ∈ plan.dependencyGraph.files)
    (reaches : Reaches plan.dependencyGraph.importsOf file.sourceName dependency.sourceName) :
    ∃ entry, buildState.solidityFilesCache.getEntry dependency.absolutePath = some entry ∧
      entry.contentHash = dependency.contentHash := by
  have unchanged := needsCompilation_eq_false.mp (planned.needsCompilation_of_not_mem_filtered
    (planned.jobs ▸ mem_getCompilationJobs_jobs.mpr ⟨file, fileMem, created⟩) dropped).2
  have inJob : dependency ∈ job.getResolvedFiles := by
    rw [getResolvedFiles_of_createCompilationJobFromFile created]
    exact (DependencyGraph.mem_closureFiles fileMem).mpr ⟨dependencyMem, reaches⟩
  obtain ⟨entry, found, sameHash, -⟩ :=
    SolidityFilesCache.hasFileChanged_eq_false.mp (unchanged dependency inJob)
  exact ⟨entry, (getEntry_of_getEntry_invalidateCacheMissingArtifacts (planned.cache ▸ found)).1,
    sameHash⟩

/-- No merged job emits a file whose planned job the filter dropped. -/
theorem emitsArtifacts_eq_false_of_not_mem_filtered {job other : CompilationJob} {file : ResolvedFile}
    (fileMem : file ∈ plan.dependencyGraph.files)
    (created : createCompilationJobFromFile env.semver env.solidity plan.dependencyGraph file = .ok job)
    (dropped : job ∉ plan.filteredCompilationJobs) (otherMem : other ∈ plan.mergedCompilationJobs) :
    other.emitsArtifacts file = false := by
  rw [← Bool.not_eq_true]
  intro emits
  obtain ⟨planned', plannedMem, -, plannedEmits⟩ :=
    (planned.mergedFrom.emitsArtifacts file other otherMem).mp emits
  have plannedCreated := planned.createCompilationJobFromFile_of_emitsArtifacts
    (planned.mem_compilationJobs plannedMem) fileMem plannedEmits
  rw [created] at plannedCreated
  cases plannedCreated
  exact dropped plannedMem

end Planned

/-! ## The cache update loop -/

/-- The writes of the cache update loop, in order: the path and the entry of every
    emitted file. -/
def cacheWrites (artifactsEmittedPerJob : List ArtifactsEmittedForJob) : List (String × CacheEntry) :=
  artifactsEmittedPerJob.flatMap fun emitted => emitted.artifactsEmittedPerFile.map fun emittedFile =>
    (emittedFile.file.absolutePath,
      cacheEntryFor emittedFile.file emitted.compilationJob.getSolcConfig emittedFile.artifactsEmitted)

theorem addArtifactsEmittedPerJob_eq (cache : SolidityFilesCache) :
    ∀ artifactsEmittedPerJob : List ArtifactsEmittedForJob,
      addArtifactsEmittedPerJob cache artifactsEmittedPerJob =
        (cacheWrites artifactsEmittedPerJob).foldl (fun cache write => cache.addFile write.1 write.2)
          cache := by
  intro artifactsEmittedPerJob
  induction artifactsEmittedPerJob generalizing cache with
  | nil => rfl
  | cons emitted rest written =>
      simp only [addArtifactsEmittedPerJob, cacheWrites, List.flatMap_cons, List.foldl_append,
        List.foldl_map, List.foldl_cons] at written ⊢
      exact written _

/-! ## A completed run -/

/-- A run that completed: its plan, and the artifacts its compilation emitted. -/
structure CompletedRun (env : Environment) (sources : AList fun _ : String => ProjectFile)
    (buildState : BuildState) (force : Bool) (plan : CompilationPlan)
    (emitted : List ArtifactsEmittedForJob) : Prop where
  planCompiled : planCompilation env sources buildState force = .ok plan
  compiled : (compileJobs env.semver env.toolchain plan.mergedCompilationJobs
    buildState.artifacts).artifactsEmittedPerJob = .ok emitted

theorem completedRun_of_ok (completed : (compileSolidity env sources buildState force).result = .ok ()) :
    ∃ plan emitted, CompletedRun env sources buildState force plan emitted := by
  unfold compileSolidity at completed
  cases planned : planCompilation env sources buildState force with
  | error => simp [planned] at completed
  | ok plan =>
      simp only [planned] at completed
      cases compiled : (compileJobs env.semver env.toolchain plan.mergedCompilationJobs
          buildState.artifacts).artifactsEmittedPerJob with
      | error => simp [compiled] at completed
      | ok emitted => exact ⟨plan, emitted, planned, compiled⟩

/-- The jobs the compiler ran on are those the compilation of the merged jobs reached,
    whether or not it completed. -/
theorem compileSolidity_compiledJobs (planned : planCompilation env sources buildState force = .ok plan) :
    (compileSolidity env sources buildState force).compiledJobs =
      (compileJobs env.semver env.toolchain plan.mergedCompilationJobs
        buildState.artifacts).compiledJobs := by
  unfold compileSolidity
  simp only [planned]
  split <;> rfl

/-- A run that throws after planning throws what compiling the merged jobs throws. -/
theorem compileJobs_eq_error_of_compileSolidity
    (planned : planCompilation env sources buildState force = .ok plan) {error : HardhatError}
    (failed : (compileSolidity env sources buildState force).result = .error error) :
    (compileJobs env.semver env.toolchain plan.mergedCompilationJobs
      buildState.artifacts).artifactsEmittedPerJob = .error error := by
  unfold compileSolidity at failed
  simp only [planned] at failed
  cases compiled : (compileJobs env.semver env.toolchain plan.mergedCompilationJobs
      buildState.artifacts).artifactsEmittedPerJob with
  | error compileError =>
      simp only [compiled, Except.error.injEq] at failed
      rw [failed]
  | ok => simp [compiled] at failed

/-- A run whose compilation throws throws the same error. -/
theorem compileSolidity_result_of_compileJobs_error
    (planned : planCompilation env sources buildState force = .ok plan) {error : HardhatError}
    (failed : (compileJobs env.semver env.toolchain plan.mergedCompilationJobs
      buildState.artifacts).artifactsEmittedPerJob = .error error) :
    (compileSolidity env sources buildState force).result = .error error := by
  unfold compileSolidity
  simp only [planned, failed]

/-- A run that throws leaves the cache file as it was. -/
theorem compileSolidity_cache_of_error {error : HardhatError}
    (failed : (compileSolidity env sources buildState force).result = .error error) :
    (compileSolidity env sources buildState force).buildState.solidityFilesCache =
      buildState.solidityFilesCache := by
  unfold compileSolidity at failed ⊢
  cases planned : planCompilation env sources buildState force with
  | error => rfl
  | ok plan =>
      simp only [planned] at failed ⊢
      cases compiled : (compileJobs env.semver env.toolchain plan.mergedCompilationJobs
          buildState.artifacts).artifactsEmittedPerJob with
      | error => rfl
      | ok => simp [compiled] at failed

/-- A run whose dependency graph builds but in which some file gets no compiler stops at
    `TASK_COMPILE_SOLIDITY_HANDLE_COMPILATION_JOBS_FAILURES`: it throws the planning
    errors, which name exactly the files that get no compiler, in the order of the
    connected components; nothing is compiled, and the cache and the artifacts are as
    they were. -/
theorem compileSolidity_stops_at_planning_errors {graph : DependencyGraph}
    (graphBuilt : createDependencyGraph env.reader env.projectRoot sources = .ok graph)
    (unplannable : ∃ file ∈ graph.files, chosenCompiler env.semver env.solidity file.sourceName
      file.content.versionPragmas (versionRangeFor file (graph.closureFiles file)) = none) :
    ∃ errors, compileSolidity env sources buildState force =
        ⟨buildState, [], .error (.compilationJobsCreationFailure errors)⟩ ∧
      (errors.map (·.file)).Perm (graph.files.filter fun file => (chosenCompiler env.semver
        env.solidity file.sourceName file.content.versionPragmas
        (versionRangeFor file (graph.closureFiles file))).isNone) := by
  obtain ⟨file, member, unchosen⟩ := unplannable
  have named : file ∈ (getCompilationJobs env.semver env.solidity graph).errors.map (·.file) := by
    rw [map_file_getCompilationJobs_errors_perm.mem_iff]
    exact List.mem_filter.mpr ⟨member, by simp [unchosen]⟩
  have failing : (getCompilationJobs env.semver env.solidity graph).errors.length > 0 :=
    List.length_pos.mpr fun noErrors => by simp [noErrors] at named
  refine ⟨_, ?_, map_file_getCompilationJobs_errors_perm⟩
  simp only [compileSolidity, planCompilation, graphBuilt, bind, Except.bind,
    handleCompilationJobsFailures, if_pos failing]

section Emitted

variable {semver : Semver} {compilationJobs : List CompilationJob}
  {emitted : List ArtifactsEmittedForJob}
  (jobsOf : emitted.map (·.compilationJob) = sortCompilationJobs semver compilationJobs)
include jobsOf

theorem exists_emitted_of_mem {job : CompilationJob} (mem : job ∈ compilationJobs) :
    ∃ emittedJob ∈ emitted, emittedJob.compilationJob = job := by
  have sorted : job ∈ sortCompilationJobs semver compilationJobs :=
    (List.perm_insertionSort _ _).mem_iff.mpr mem
  rw [← jobsOf] at sorted
  exact List.mem_map.mp sorted

theorem mem_of_mem_emitted {emittedJob : ArtifactsEmittedForJob} (mem : emittedJob ∈ emitted) :
    emittedJob.compilationJob ∈ compilationJobs := by
  have sorted := List.mem_map_of_mem (·.compilationJob) mem
  rw [jobsOf] at sorted
  exact (List.perm_insertionSort _ _).mem_iff.mp sorted

variable {toolchain : Toolchain} (emittedFor : ∀ emittedJob ∈ emitted, ArtifactsEmittedFor toolchain emittedJob)
include emittedFor

/-- Every file a compiled job emits is written, with the job's configuration and the
    contract names of the job's output. -/
theorem mem_cacheWrites {job : CompilationJob} {file : ResolvedFile}
    (mem : job ∈ compilationJobs) (fileMem : file ∈ job.getResolvedFiles)
    (emits : job.emitsArtifacts file = true) :
    ∃ solcBuild output, compilerOutput toolchain job = some (solcBuild, output) ∧
      (file.absolutePath, cacheEntryFor file job.getSolcConfig (contractNames output file.sourceName)) ∈
        cacheWrites emitted := by
  obtain ⟨emittedJob, emittedMem, rfl⟩ := exists_emitted_of_mem jobsOf mem
  obtain ⟨solcBuild, output, found, perFile⟩ := emittedFor emittedJob emittedMem
  refine ⟨solcBuild, output, found, List.mem_flatMap.mpr ⟨emittedJob, emittedMem, ?_⟩⟩
  rw [perFile, List.map_map]
  exact List.mem_map_of_mem _ (List.mem_filter.mpr ⟨fileMem, emits⟩)

/-- Every written path is the path of a file a compiled job emits. -/
theorem exists_of_mem_cacheWrites {absolutePath : String}
    (mem : absolutePath ∈ (cacheWrites emitted).map (·.1)) :
    ∃ job ∈ compilationJobs, ∃ file ∈ job.getResolvedFiles,
      job.emitsArtifacts file = true ∧ file.absolutePath = absolutePath := by
  simp only [cacheWrites, List.map_flatMap, List.map_map, List.mem_flatMap] at mem
  obtain ⟨emittedJob, emittedMem, pathMem⟩ := mem
  obtain ⟨solcBuild, output, -, perFile⟩ := emittedFor emittedJob emittedMem
  rw [perFile, List.map_map] at pathMem
  obtain ⟨file, fileMem, rfl⟩ := List.mem_map.mp pathMem
  obtain ⟨fileMem, emits⟩ := List.mem_filter.mp fileMem
  exact ⟨_, mem_of_mem_emitted jobsOf emittedMem, file, fileMem, emits, rfl⟩

end Emitted

namespace Planned

variable (planned : Planned env sources buildState force plan) {emitted : List ArtifactsEmittedForJob}
  (jobsOf : emitted.map (·.compilationJob) = sortCompilationJobs env.semver plan.mergedCompilationJobs)
  (emittedFor : ∀ emittedJob ∈ emitted, ArtifactsEmittedFor env.toolchain emittedJob)
include planned jobsOf emittedFor

/-- The cache update loop writes every path once. -/
theorem nodup_cacheWrites : ((cacheWrites emitted).map (·.1)).Nodup := by
  have mergedNodup : plan.mergedCompilationJobs.Nodup :=
    List.Nodup.of_map _ planned.mergedFrom.configsNodup
  have jobsNodup : (emitted.map (·.compilationJob)).Nodup := by
    rw [jobsOf]
    exact (List.perm_insertionSort _ _).nodup_iff.mpr mergedNodup
  have sourceNamePath : ∀ emittedJob ∈ emitted, ∀ file ∈ emittedJob.compilationJob.getResolvedFiles,
      file.absolutePath = absolutePathOf env.projectRoot file.sourceName :=
    fun _ emittedMem _ fileMem =>
      planned.absolutePath_eq (planned.mem_files (mem_of_mem_emitted jobsOf emittedMem) fileMem)
  simp only [cacheWrites, List.map_flatMap, List.map_map]
  refine List.nodup_flatMap.mpr ⟨fun emittedJob emittedMem => ?_, ?_⟩
  · obtain ⟨solcBuild, output, -, perFile⟩ := emittedFor emittedJob emittedMem
    let job := emittedJob.compilationJob
    have paths : ((job.getResolvedFiles.filter job.emitsArtifacts).map (·.absolutePath)) =
        (((job.getResolvedFiles.filter job.emitsArtifacts).map (·.sourceName)).map
          (absolutePathOf env.projectRoot)) := by
      rw [List.map_map]
      exact List.map_congr_left fun file fileMem =>
        sourceNamePath emittedJob emittedMem file (List.mem_of_mem_filter fileMem)
    rw [perFile, List.map_map]
    simp only [Function.comp_def]
    rw [show (fun file : ResolvedFile => file.absolutePath) = (·.absolutePath) from rfl, paths]
    exact (job.nodup_getResolvedFiles_sourceNames.sublist ((List.filter_sublist _).map _)).map
      (absolutePathOf_injective env.projectRoot)
  · refine (List.Nodup.of_map _ jobsNodup).pairwise_of_forall_ne fun emittedJob emittedMem
      otherJob otherMem differ => ?_
    refine List.disjoint_left.mpr fun path pathMem otherPathMem => differ ?_
    obtain ⟨solcBuild, output, -, perFile⟩ := emittedFor emittedJob emittedMem
    obtain ⟨otherBuild, otherOutput, -, otherPerFile⟩ := emittedFor otherJob otherMem
    simp only [Function.comp_def, perFile, otherPerFile, List.map_map, List.mem_map,
      List.mem_filter] at pathMem otherPathMem
    obtain ⟨file, ⟨fileMem, emits⟩, rfl⟩ := pathMem
    obtain ⟨other, ⟨otherFileMem, otherEmits⟩, samePath⟩ := otherPathMem
    have sameName : other.sourceName = file.sourceName := absolutePathOf_injective env.projectRoot
      (by rw [← sourceNamePath _ otherMem _ otherFileMem, ← sourceNamePath _ emittedMem _ fileMem]
          exact samePath)
    have sameJob := planned.emitsOnce (mem_of_mem_emitted jobsOf emittedMem)
      (mem_of_mem_emitted jobsOf otherMem) fileMem emits
      ((CompilationJob.emitsArtifacts_congr _ sameName.symm).trans otherEmits)
    exact List.inj_on_of_nodup_map jobsNodup emittedMem otherMem sameJob

end Planned

namespace CompletedRun

variable {emitted : List ArtifactsEmittedForJob}
  (run : CompletedRun env sources buildState force plan emitted)
include run

/-- A completed run updated the cache and removed the obsolete artifacts. -/
theorem compileSolidity_eq :
    compileSolidity env sources buildState force =
      ⟨⟨addArtifactsEmittedPerJob plan.solidityFilesCache emitted,
        (compileJobs env.semver env.toolchain plan.mergedCompilationJobs
          buildState.artifacts).artifacts.removeObsoleteArtifacts
            (addArtifactsEmittedPerJob plan.solidityFilesCache emitted).getEntries⟩,
        (compileJobs env.semver env.toolchain plan.mergedCompilationJobs
          buildState.artifacts).compiledJobs, .ok ()⟩ := by
  unfold compileSolidity
  simp only [run.planCompiled, run.compiled]

theorem planned : Planned env sources buildState force plan :=
  planned_of_planCompilation run.planCompiled

theorem jobsOf :
    emitted.map (·.compilationJob) = sortCompilationJobs env.semver plan.mergedCompilationJobs :=
  (compileJobs_emits run.compiled).1

theorem emittedFor : ∀ emittedJob ∈ emitted, ArtifactsEmittedFor env.toolchain emittedJob :=
  (compileJobs_emits run.compiled).2.1

theorem overwrites :
    buildState.artifacts.Overwrites
      (compileJobs env.semver env.toolchain plan.mergedCompilationJobs buildState.artifacts).artifacts
      (fun name => ∃ job ∈ plan.mergedCompilationJobs, SavesArtifact env.toolchain job name)
      (fun name saved => ∃ job ∈ plan.mergedCompilationJobs, SavedBy env.toolchain job name saved) :=
  (compileJobs_emits run.compiled).2.2

theorem nodup_cacheWrites : ((cacheWrites emitted).map (·.1)).Nodup :=
  run.planned.nodup_cacheWrites run.jobsOf run.emittedFor

/-- The compilation leaves the artifacts of a source no merged job emits as they were. -/
theorem saved_compileJobs_of_not_emitted {fullyQualifiedName : FullyQualifiedName}
    (untouched : ∀ job ∈ plan.mergedCompilationJobs, ∀ file ∈ job.getResolvedFiles,
      job.emitsArtifacts file = true → file.sourceName ≠ fullyQualifiedName.sourceName) :
    (compileJobs env.semver env.toolchain plan.mergedCompilationJobs
      buildState.artifacts).artifacts.saved fullyQualifiedName =
        buildState.artifacts.saved fullyQualifiedName :=
  run.overwrites.saved_eq fun ⟨job, mem, _, _, _, ⟨file, fileMem, emits, sameName⟩, _⟩ =>
    untouched job mem file fileMem emits sameName

/-- The entry of a file a merged job emits records the job's configuration and the
    contract names of its output. -/
theorem getEntry_of_emitsArtifacts {job : CompilationJob} {file : ResolvedFile}
    (mem : job ∈ plan.mergedCompilationJobs) (fileMem : file ∈ job.getResolvedFiles)
    (emits : job.emitsArtifacts file = true) :
    ∃ solcBuild output, compilerOutput env.toolchain job = some (solcBuild, output) ∧
      (compileSolidity env sources buildState force).buildState.solidityFilesCache.getEntry
          file.absolutePath =
        some (cacheEntryFor file job.getSolcConfig (contractNames output file.sourceName)) := by
  obtain ⟨solcBuild, output, found, writeMem⟩ :=
    mem_cacheWrites run.jobsOf run.emittedFor mem fileMem emits
  refine ⟨solcBuild, output, found, ?_⟩
  rw [run.compileSolidity_eq, addArtifactsEmittedPerJob_eq]
  exact SolidityFilesCache.getEntry_foldl_addFile_of_mem _ _ run.nodup_cacheWrites writeMem

/-- A path no merged job emits keeps the entry the invalidation left. -/
theorem getEntry_of_not_emitted {absolutePath : String}
    (untouched : ∀ job ∈ plan.mergedCompilationJobs, ∀ file ∈ job.getResolvedFiles,
      job.emitsArtifacts file = true → file.absolutePath ≠ absolutePath) :
    (compileSolidity env sources buildState force).buildState.solidityFilesCache.getEntry
        absolutePath = plan.solidityFilesCache.getEntry absolutePath := by
  rw [run.compileSolidity_eq, addArtifactsEmittedPerJob_eq]
  refine SolidityFilesCache.getEntry_foldl_addFile_of_not_mem _ _ fun pathMem => ?_
  obtain ⟨job, mem, file, fileMem, emits, samePath⟩ :=
    exists_of_mem_cacheWrites run.jobsOf run.emittedFor pathMem
  exact untouched job mem file fileMem emits samePath

/-- An entry a completed run leaves was written for a file a merged job emits, or is the
    one the invalidation left at its path. -/
theorem getEntry_cases {absolutePath : String} {entry : CacheEntry}
    (found : (compileSolidity env sources buildState force).buildState.solidityFilesCache.getEntry
      absolutePath = some entry) :
    (∃ job ∈ plan.mergedCompilationJobs, ∃ file ∈ job.getResolvedFiles,
      job.emitsArtifacts file = true ∧ file.absolutePath = absolutePath ∧
      ∃ solcBuild output, compilerOutput env.toolchain job = some (solcBuild, output) ∧
        entry = cacheEntryFor file job.getSolcConfig (contractNames output file.sourceName)) ∨
    ((∀ job ∈ plan.mergedCompilationJobs, ∀ file ∈ job.getResolvedFiles,
      job.emitsArtifacts file = true → file.absolutePath ≠ absolutePath) ∧
      plan.solidityFilesCache.getEntry absolutePath = some entry) := by
  by_cases written : ∃ job ∈ plan.mergedCompilationJobs, ∃ file ∈ job.getResolvedFiles,
      job.emitsArtifacts file = true ∧ file.absolutePath = absolutePath
  · obtain ⟨job, mem, file, fileMem, emits, rfl⟩ := written
    obtain ⟨solcBuild, output, found', entryOf⟩ := run.getEntry_of_emitsArtifacts mem fileMem emits
    rw [entryOf] at found
    exact .inl ⟨job, mem, file, fileMem, emits, rfl, solcBuild, output, found', (Option.some.inj found).symm⟩
  · have untouched : ∀ job ∈ plan.mergedCompilationJobs, ∀ file ∈ job.getResolvedFiles,
        job.emitsArtifacts file = true → file.absolutePath ≠ absolutePath :=
      fun job mem file fileMem emits samePath => written ⟨job, mem, file, fileMem, emits, samePath⟩
    exact .inr ⟨untouched, run.getEntry_of_not_emitted untouched ▸ found⟩

/-- The entries written name every artifact the run saved. -/
theorem listed (fullyQualifiedName : FullyQualifiedName)
    (saves : ∃ job ∈ plan.mergedCompilationJobs, SavesArtifact env.toolchain job fullyQualifiedName) :
    ∃ entry ∈ (compileSolidity env sources buildState force).buildState.solidityFilesCache.getEntries,
      entry.sourceName = fullyQualifiedName.sourceName ∧
        fullyQualifiedName.contractName ∈ entry.artifacts := by
  obtain ⟨job, mem, solcBuild, output, found, ⟨file, fileMem, emits, sameName⟩, contractMem⟩ := saves
  obtain ⟨solcBuild', output', found', entry⟩ := run.getEntry_of_emitsArtifacts mem fileMem emits
  rw [found] at found'
  cases found'
  exact ⟨_, SolidityFilesCache.mem_getEntries.mpr ⟨_, entry⟩, sameName, sameName ▸ contractMem⟩

/-- An artifact a completed run leaves is one its compilation left, and an entry lists it. -/
theorem saved_of_saved {fullyQualifiedName : FullyQualifiedName} {saved : SavedArtifact}
    (savedNow : (compileSolidity env sources buildState force).buildState.artifacts.saved
      fullyQualifiedName = some saved) :
    (∃ entry ∈ (compileSolidity env sources buildState force).buildState.solidityFilesCache.getEntries,
      entry.sourceName = fullyQualifiedName.sourceName ∧
        fullyQualifiedName.contractName ∈ entry.artifacts) ∧
    (compileJobs env.semver env.toolchain plan.mergedCompilationJobs
      buildState.artifacts).artifacts.saved fullyQualifiedName = some saved := by
  rw [congrArg (·.buildState.artifacts) run.compileSolidity_eq,
    Artifacts.saved_removeObsoleteArtifacts] at savedNow
  split at savedNow
  · rw [run.compileSolidity_eq]
    exact ⟨‹_›, savedNow⟩
  · cases savedNow

/-- The store keeps, for every contract of a file a merged job emits, the artifact that
    job's compilation saved. -/
theorem saved_of_emitsArtifacts {job : CompilationJob} {file : ResolvedFile}
    {solcBuild : SolcBuild} {output : CompilerOutput}
    (mem : job ∈ plan.mergedCompilationJobs) (fileMem : file ∈ job.getResolvedFiles)
    (emits : job.emitsArtifacts file = true)
    (found : compilerOutput env.toolchain job = some (solcBuild, output))
    {contractName : String} (contractMem : contractName ∈ contractNames output file.sourceName) :
    ∃ saved, (compileSolidity env sources buildState force).buildState.artifacts.saved
        ⟨file.sourceName, contractName⟩ = some saved ∧
      SavedFrom (buildInfoOf job solcBuild output) (contractsOf output file.sourceName)
        ⟨file.sourceName, contractName⟩ saved := by
  have saves : SavesArtifact env.toolchain job ⟨file.sourceName, contractName⟩ :=
    ⟨solcBuild, output, found, ⟨file, fileMem, emits, rfl⟩, contractMem⟩
  obtain ⟨saved, savedNow, other, otherMem, otherBuild, otherOutput, otherFound,
    ⟨otherFile, -, otherEmits, otherName⟩, savedFrom⟩ := (run.overwrites _).1 ⟨job, mem, saves⟩
  have same := run.planned.emitsOnce mem otherMem fileMem emits
    ((CompilationJob.emitsArtifacts_congr other otherName.symm).trans otherEmits)
  subst same
  rw [found] at otherFound
  cases otherFound
  refine ⟨saved, ?_, savedFrom⟩
  rw [congrArg (·.buildState.artifacts) run.compileSolidity_eq]
  rw [Artifacts.saved_removeObsoleteArtifacts, if_pos]
  · exact savedNow
  · simpa only [run.compileSolidity_eq] using run.listed _ ⟨job, mem, saves⟩

end CompletedRun

/-- The cache records what was compiled.  When `TASK_COMPILE_SOLIDITY` completes, the
    entry of every file a merged job emits records the file's content hash, the job's
    configuration and the contract names of the job's output, whose artifacts are in
    the store, saved from that compilation; every other entry is as
    `invalidateCacheMissingArtifacts` left it; and the entries passed to
    `removeObsoleteArtifacts` name every artifact the run saved. -/
theorem compileSolidity_records_compiled
    (completed : (compileSolidity env sources buildState force).result = .ok ()) :
    ∃ plan, planCompilation env sources buildState force = .ok plan ∧
      let after := (compileSolidity env sources buildState force).buildState
      (∀ job ∈ plan.mergedCompilationJobs, ∀ file ∈ job.getResolvedFiles,
        job.emitsArtifacts file = true →
        ∃ solcBuild output, compilerOutput env.toolchain job = some (solcBuild, output) ∧
          after.solidityFilesCache.getEntry file.absolutePath =
            some (cacheEntryFor file job.getSolcConfig (contractNames output file.sourceName)) ∧
          ∀ contractName ∈ contractNames output file.sourceName, ∃ saved,
            after.artifacts.saved ⟨file.sourceName, contractName⟩ = some saved ∧
            SavedFrom (buildInfoOf job solcBuild output) (contractsOf output file.sourceName)
              ⟨file.sourceName, contractName⟩ saved) ∧
      (∀ absolutePath, (∀ job ∈ plan.mergedCompilationJobs, ∀ file ∈ job.getResolvedFiles,
          job.emitsArtifacts file = true → file.absolutePath ≠ absolutePath) →
        after.solidityFilesCache.getEntry absolutePath =
          (invalidateCacheMissingArtifacts buildState.solidityFilesCache buildState.artifacts
            plan.dependencyGraph.getResolvedFiles).getEntry absolutePath) ∧
      ∀ fullyQualifiedName : FullyQualifiedName,
        (∃ job ∈ plan.mergedCompilationJobs, SavesArtifact env.toolchain job fullyQualifiedName) →
        ∃ entry ∈ after.solidityFilesCache.getEntries,
          entry.sourceName = fullyQualifiedName.sourceName ∧
            fullyQualifiedName.contractName ∈ entry.artifacts := by
  obtain ⟨plan, emitted, run⟩ := completedRun_of_ok completed
  refine ⟨plan, run.planCompiled, fun job mem file fileMem emits => ?_,
    fun absolutePath untouched => ?_, run.listed⟩
  · obtain ⟨solcBuild, output, found, entry⟩ := run.getEntry_of_emitsArtifacts mem fileMem emits
    exact ⟨solcBuild, output, found, entry, fun _ => run.saved_of_emitsArtifacts mem fileMem emits found⟩
  · rw [run.getEntry_of_not_emitted untouched, run.planned.cache]

/-- A run completes only if it compiled every merged job cleanly: the compiler ran on all
    of them, in sorted order, and each had a solc version no older than 0.4.11, a compiler
    from `GET_SOLC_BUILD`, and no diagnostic of severity `error` in that compiler's output. -/
theorem compileSolidity_compiles_cleanly
    (completed : (compileSolidity env sources buildState force).result = .ok ()) :
    ∃ plan, planCompilation env sources buildState force = .ok plan ∧
      (compileSolidity env sources buildState force).compiledJobs =
        sortCompilationJobs env.semver plan.mergedCompilationJobs ∧
      ∀ job ∈ plan.mergedCompilationJobs, CompilesCleanly env.semver env.toolchain job := by
  obtain ⟨plan, emitted, run⟩ := completedRun_of_ok completed
  rw [run.compileSolidity_eq]
  exact ⟨plan, run.planCompiled, compileJobs_of_ok run.compiled⟩

/-- The store a completed run leaves holds nothing unlisted and nothing made up: every
    artifact in it is listed by an entry of the cache the run wrote, and it is either one
    that a job the compiler ran on saved under that name, or one the store already held
    under a name no such job saves. -/
theorem compileSolidity_leaves_only_listed_artifacts
    (completed : (compileSolidity env sources buildState force).result = .ok ()) :
    ∀ (fullyQualifiedName : FullyQualifiedName) (saved : SavedArtifact),
      (compileSolidity env sources buildState force).buildState.artifacts.saved
          fullyQualifiedName = some saved →
      (∃ entry ∈ (compileSolidity env sources buildState force).buildState.solidityFilesCache.getEntries,
        entry.sourceName = fullyQualifiedName.sourceName ∧
          fullyQualifiedName.contractName ∈ entry.artifacts) ∧
      ((∃ job ∈ (compileSolidity env sources buildState force).compiledJobs,
          SavedBy env.toolchain job fullyQualifiedName saved) ∨
        (¬ ∃ job ∈ (compileSolidity env sources buildState force).compiledJobs,
            SavesArtifact env.toolchain job fullyQualifiedName) ∧
          buildState.artifacts.saved fullyQualifiedName = some saved) := by
  intro fullyQualifiedName saved savedNow
  obtain ⟨plan, emitted, run⟩ := completedRun_of_ok completed
  obtain ⟨listed, compiled⟩ := run.saved_of_saved savedNow
  have compiledMem : ∀ job, job ∈ (compileSolidity env sources buildState force).compiledJobs ↔
      job ∈ plan.mergedCompilationJobs := fun job => by
    rw [run.compileSolidity_eq, (compileJobs_of_ok run.compiled).1]
    exact (List.perm_insertionSort _ _).mem_iff
  refine ⟨listed, ?_⟩
  by_cases saves : ∃ job ∈ plan.mergedCompilationJobs, SavesArtifact env.toolchain job fullyQualifiedName
  · obtain ⟨saved', found, job, mem, savedBy⟩ := (run.overwrites fullyQualifiedName).1 saves
    rw [compiled, Option.some.injEq] at found
    subst found
    exact .inl ⟨job, (compiledMem job).mpr mem, savedBy⟩
  · refine .inr ⟨fun ⟨job, mem, savesNow⟩ => saves ⟨job, (compiledMem job).mp mem, savesNow⟩, ?_⟩
    rw [← run.overwrites.saved_eq saves]
    exact compiled

/-- The merged plan splits the work of the kept jobs without loss or duplication.  The
    merged jobs have pairwise distinct configurations.  The file of a job the filter keeps
    is emitted by exactly one merged job, which has the kept job's configuration and
    holds every file of the file's import closure; the file of a dropped job is emitted
    by none. -/
theorem planCompilation_emits_each_kept_file_once
    (planned : planCompilation env sources buildState force = .ok plan) :
    (plan.mergedCompilationJobs.map (·.getSolcConfig)).Nodup ∧
    ∀ file ∈ plan.dependencyGraph.files, ∀ job,
      createCompilationJobFromFile env.semver env.solidity plan.dependencyGraph file = .ok job →
      (job ∈ plan.filteredCompilationJobs →
        ∃ merged ∈ plan.mergedCompilationJobs, merged.getSolcConfig = job.getSolcConfig ∧
          plan.dependencyGraph.closureFiles file ⊆ merged.getResolvedFiles ∧
          ∀ other ∈ plan.mergedCompilationJobs, other.emitsArtifacts file = true ↔ other = merged) ∧
      (job ∉ plan.filteredCompilationJobs →
        ∀ merged ∈ plan.mergedCompilationJobs, merged.emitsArtifacts file = false) := by
  have run := planned_of_planCompilation planned
  refine ⟨run.mergedFrom.configsNodup, fun file fileMem job created => ⟨fun kept => ?_,
    fun dropped _ mergedMem => run.emitsArtifacts_eq_false_of_not_mem_filtered fileMem created
      dropped mergedMem⟩⟩
  obtain ⟨merged, mergedMem, sameConfig, fileIn, emits⟩ :=
    run.exists_merged_of_mem_filtered fileMem created kept
  refine ⟨merged, mergedMem, sameConfig, fun dependency closureMem => ?_, fun other otherMem =>
    ⟨fun otherEmits => (run.emitsOnce mergedMem otherMem fileIn emits otherEmits).symm,
      fun same => same ▸ emits⟩⟩
  obtain ⟨dependencyMem, reaches⟩ := (DependencyGraph.mem_closureFiles fileMem).mp closureMem
  exact run.mem_getResolvedFiles_of_reaches mergedMem fileIn emits dependencyMem reaches

/-- The compiler gets every file it needs, as the project has it.  Every source in the
    input of a job a run plans to compile is the text of that file of the project, and
    every name it imports is a source of the same input. -/
theorem planCompilation_inputs_import_closed
    (planned : planCompilation env sources buildState force = .ok plan) :
    ∀ job ∈ plan.mergedCompilationJobs, ∀ sourceName text,
      (getInputFromCompilationJob job).sources.lookup sourceName = some text →
      (∃ projectFile, sources.lookup sourceName = some projectFile ∧ text = projectFile.rawContent) ∧
      ∀ imported ∈ env.reader.imports text,
        ∃ importedText, (getInputFromCompilationJob job).sources.lookup imported = some importedText := by
  intro job mem sourceName text found
  have run := planned_of_planCompilation planned
  obtain ⟨file, fileMem, rfl, rfl⟩ := exists_of_lookup_getInputFromCompilationJob found
  have graphMem := run.mem_files mem fileMem
  obtain ⟨projectFile, projectFound, resolved⟩ :=
    mem_resolveSources.mp (createDependencyGraph_files run.graph ▸ graphMem)
  refine ⟨⟨projectFile, projectFound, by rw [resolved]; rfl⟩, fun imported importedMem => ?_⟩
  rw [← (resolved_of_mem_createDependencyGraph run.graph graphMem).1] at importedMem
  obtain ⟨dependency, dependencyMem, rfl⟩ := run.mem_getResolvedFiles_of_imported mem fileMem importedMem
  exact ⟨_, lookup_getInputFromCompilationJob dependencyMem⟩

/-! ## A two-file project

`B` imports `A`; the compiler defines one contract per source, named after it, reports
an error on a source whose text is `bad`, and rejects an input with a source whose text is
`garbled`, as `compile` rejects an output it cannot parse.
-/

/-- A compiler that defines one contract per source, reports an error on the text `bad`
    and rejects the text `garbled`. -/
def echoCompiler (input : CompilerInput) : Option CompilerOutput :=
  if input.sources.any (·.2 == "garbled") then none
  else some ⟨if input.sources.any (·.2 == "bad") then [⟨"error", "ParserError", "", ""⟩] else [],
    input.sources.map fun source => (source.1, [(source.1, source.2)])⟩

def echoToolchain : Toolchain := ⟨quietToolchain.downloader, fun _ => echoCompiler, fun _ => echoCompiler⟩

/-- Content hashes are the texts themselves; the text `uses A` imports `A`. -/
def exampleReader : SourceReader :=
  ⟨id, fun text => if text = "uses A" then ["A"] else [], fun _ => []⟩

def exampleEnvironment : Environment :=
  ⟨"/project", ⟨[⟨"0.8.0", ""⟩], []⟩, lexicographicSemver, exampleReader, echoToolchain⟩

def exampleSources : AList fun _ : String => ProjectFile :=
  ⟨[⟨"A", ⟨"a0", 0⟩⟩, ⟨"B", ⟨"uses A", 0⟩⟩], show List.Nodup ["A", "B"] by decide⟩

example :
    let after := (compileSolidity exampleEnvironment exampleSources emptyBuildState false).buildState
    (after.solidityFilesCache.getEntry "/project/B").map (·.artifacts) = some ["B"] := by
  decide

theorem twoFileProject_records_compiled :
    (compileSolidity exampleEnvironment exampleSources emptyBuildState false).result = .ok () ∧
    ∃ plan, planCompilation exampleEnvironment exampleSources emptyBuildState false = .ok plan ∧
      let after := (compileSolidity exampleEnvironment exampleSources emptyBuildState false).buildState
      (∀ job ∈ plan.mergedCompilationJobs, ∀ file ∈ job.getResolvedFiles,
        job.emitsArtifacts file = true →
        ∃ solcBuild output, compilerOutput exampleEnvironment.toolchain job = some (solcBuild, output) ∧
          after.solidityFilesCache.getEntry file.absolutePath =
            some (cacheEntryFor file job.getSolcConfig (contractNames output file.sourceName)) ∧
          ∀ contractName ∈ contractNames output file.sourceName, ∃ saved,
            after.artifacts.saved ⟨file.sourceName, contractName⟩ = some saved ∧
            SavedFrom (buildInfoOf job solcBuild output) (contractsOf output file.sourceName)
              ⟨file.sourceName, contractName⟩ saved) ∧
      (∀ absolutePath, (∀ job ∈ plan.mergedCompilationJobs, ∀ file ∈ job.getResolvedFiles,
          job.emitsArtifacts file = true → file.absolutePath ≠ absolutePath) →
        after.solidityFilesCache.getEntry absolutePath =
          (invalidateCacheMissingArtifacts emptyBuildState.solidityFilesCache
            emptyBuildState.artifacts plan.dependencyGraph.getResolvedFiles).getEntry absolutePath) ∧
      ∀ fullyQualifiedName : FullyQualifiedName,
        (∃ job ∈ plan.mergedCompilationJobs,
          SavesArtifact exampleEnvironment.toolchain job fullyQualifiedName) →
        ∃ entry ∈ after.solidityFilesCache.getEntries,
          entry.sourceName = fullyQualifiedName.sourceName ∧
            fullyQualifiedName.contractName ∈ entry.artifacts :=
  ⟨rfl, compileSolidity_records_compiled rfl⟩

theorem twoFileProject_compiles_cleanly :
    (compileSolidity exampleEnvironment exampleSources emptyBuildState false).result = .ok () ∧
    ∃ plan, planCompilation exampleEnvironment exampleSources emptyBuildState false = .ok plan ∧
      (compileSolidity exampleEnvironment exampleSources emptyBuildState false).compiledJobs =
        sortCompilationJobs exampleEnvironment.semver plan.mergedCompilationJobs ∧
      ∀ job ∈ plan.mergedCompilationJobs,
        CompilesCleanly exampleEnvironment.semver exampleEnvironment.toolchain job :=
  ⟨rfl, compileSolidity_compiles_cleanly rfl⟩

theorem twoFileProject_emits_each_kept_file_once :
    ∃ plan, planCompilation exampleEnvironment exampleSources emptyBuildState false = .ok plan ∧
      (plan.mergedCompilationJobs.map (·.getSolcConfig)).Nodup ∧
      ∀ file ∈ plan.dependencyGraph.files, ∀ job, createCompilationJobFromFile
          exampleEnvironment.semver exampleEnvironment.solidity plan.dependencyGraph file = .ok job →
        (job ∈ plan.filteredCompilationJobs →
          ∃ merged ∈ plan.mergedCompilationJobs, merged.getSolcConfig = job.getSolcConfig ∧
            plan.dependencyGraph.closureFiles file ⊆ merged.getResolvedFiles ∧
            ∀ other ∈ plan.mergedCompilationJobs, other.emitsArtifacts file = true ↔ other = merged) ∧
        (job ∉ plan.filteredCompilationJobs →
          ∀ merged ∈ plan.mergedCompilationJobs, merged.emitsArtifacts file = false) :=
  ⟨_, rfl, @planCompilation_emits_each_kept_file_once exampleEnvironment exampleSources
    emptyBuildState false _ rfl⟩

/-- Both jobs of the two-file project have one configuration and merge into one job. -/
example :
    ((planCompilation exampleEnvironment exampleSources emptyBuildState false).toOption.map
      (·.mergedCompilationJobs.length)) = some 1 := by
  decide

theorem twoFileProject_inputs_import_closed :
    ∃ plan, planCompilation exampleEnvironment exampleSources emptyBuildState false = .ok plan ∧
      ∀ job ∈ plan.mergedCompilationJobs, ∀ sourceName text,
        (getInputFromCompilationJob job).sources.lookup sourceName = some text →
        (∃ projectFile, exampleSources.lookup sourceName = some projectFile ∧
          text = projectFile.rawContent) ∧
        ∀ imported ∈ exampleEnvironment.reader.imports text, ∃ importedText,
          (getInputFromCompilationJob job).sources.lookup imported = some importedText :=
  ⟨_, rfl, @planCompilation_inputs_import_closed exampleEnvironment exampleSources
    emptyBuildState false _ rfl⟩

theorem twoFileProject_leaves_only_listed_artifacts :
    (compileSolidity exampleEnvironment exampleSources emptyBuildState false).result = .ok () ∧
    ∀ (fullyQualifiedName : FullyQualifiedName) (saved : SavedArtifact),
      (compileSolidity exampleEnvironment exampleSources emptyBuildState false).buildState.artifacts.saved
          fullyQualifiedName = some saved →
      (∃ entry ∈ (compileSolidity exampleEnvironment exampleSources emptyBuildState
          false).buildState.solidityFilesCache.getEntries,
        entry.sourceName = fullyQualifiedName.sourceName ∧
          fullyQualifiedName.contractName ∈ entry.artifacts) ∧
      ((∃ job ∈ (compileSolidity exampleEnvironment exampleSources emptyBuildState false).compiledJobs,
          SavedBy exampleEnvironment.toolchain job fullyQualifiedName saved) ∨
        (¬ ∃ job ∈ (compileSolidity exampleEnvironment exampleSources emptyBuildState false).compiledJobs,
            SavesArtifact exampleEnvironment.toolchain job fullyQualifiedName) ∧
          emptyBuildState.artifacts.saved fullyQualifiedName = some saved) :=
  ⟨rfl, compileSolidity_leaves_only_listed_artifacts rfl⟩

/-- The two-file project with `A` rejected by the compiler. -/
def badSources : AList fun _ : String => ProjectFile :=
  ⟨[⟨"A", ⟨"bad", 0⟩⟩, ⟨"B", ⟨"uses A", 0⟩⟩], show List.Nodup ["A", "B"] by decide⟩

/-- The two-file project with `A` a text the compiler rejects. -/
def garbledSources : AList fun _ : String => ProjectFile :=
  ⟨[⟨"A", ⟨"garbled", 0⟩⟩, ⟨"B", ⟨"uses A", 0⟩⟩], show List.Nodup ["A", "B"] by decide⟩

/-- The two-file project with no compiler configured. -/
def noCompilerEnvironment : Environment := { exampleEnvironment with solidity := ⟨[], []⟩ }

theorem noCompiler_stops_at_planning_errors :
    ∃ graph, createDependencyGraph noCompilerEnvironment.reader noCompilerEnvironment.projectRoot
        exampleSources = .ok graph ∧
      (∃ file ∈ graph.files, chosenCompiler noCompilerEnvironment.semver noCompilerEnvironment.solidity
        file.sourceName file.content.versionPragmas (versionRangeFor file (graph.closureFiles file)) =
          none) ∧
      ∃ errors, compileSolidity noCompilerEnvironment exampleSources emptyBuildState false =
          ⟨emptyBuildState, [], .error (.compilationJobsCreationFailure errors)⟩ ∧
        (errors.map (·.file)).Perm (graph.files.filter fun file => (chosenCompiler
          noCompilerEnvironment.semver noCompilerEnvironment.solidity file.sourceName
          file.content.versionPragmas (versionRangeFor file (graph.closureFiles file))).isNone) :=
  ⟨_, rfl, ⟨_, List.mem_cons_self _ _, rfl⟩,
    compileSolidity_stops_at_planning_errors rfl ⟨_, List.mem_cons_self _ _, rfl⟩⟩

end Hardhat.Compile
