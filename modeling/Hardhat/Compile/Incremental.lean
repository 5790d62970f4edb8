import Hardhat.Compile.Task

namespace Hardhat.Compile

/-! # Incremental compilation

A completed run leaves the cache current for its dependency graph
(`CompletedRun.cacheCurrent`): every file has an entry that records its content hash,
its source name and the configuration planned for it, and every artifact the entry
lists is in the store.  From there the next run over the same source names recompiles
exactly the jobs of the files whose transitive closure holds a changed file, and
deleting the artifacts of one file drops its entry only, so that the next run
recompiles the jobs of every file whose closure holds it.

With `--force` a completed run recompiles every file of the graph, and it is a clean
build: it ends, and leaves the cache entries and artifacts of the project's files, as a
run from an empty cache and an empty store does.  The compile loop reads nothing of the
store (`compileJobs_sameRun`), which is what makes the two runs agree.  The cache never
drops the entry of a source name the project no longer has, so the artifacts of a
removed file survive every later run.

All of this assumes the cache was written by the task: every entry sits at the
absolute path of its own source name (`WellKeyed`).  An empty cache is, and every run
keeps it so.
-/

/-- Every entry of the cache sits at the absolute path of its own source name. -/
def WellKeyed (projectRoot : String) (cache : SolidityFilesCache) : Prop :=
  ∀ absolutePath entry, cache.getEntry absolutePath = some entry →
    absolutePath = absolutePathOf projectRoot entry.sourceName

/-- The cache and the store are current for a dependency graph: every file has an
    entry recording its content hash, its source name and the configuration planned
    for it, and every artifact the entry lists is in the store. -/
def CacheCurrent (env : Environment) (graph : DependencyGraph) (buildState : BuildState) : Prop :=
  ∀ file ∈ graph.files, ∃ job entry,
    createCompilationJobFromFile env.semver env.solidity graph file = .ok job ∧
    buildState.solidityFilesCache.getEntry file.absolutePath = some entry ∧
    entry.contentHash = file.contentHash ∧ entry.sourceName = file.sourceName ∧
    entry.solcConfig = job.getSolcConfig ∧
    ∀ contractName ∈ entry.artifacts,
      buildState.artifacts.artifactExists ⟨file.sourceName, contractName⟩ = true

variable {env : Environment} {sources : AList fun _ : String => ProjectFile}
  {buildState : BuildState} {force : Bool} {plan : CompilationPlan}
  {emitted : List ArtifactsEmittedForJob}

theorem wellKeyed_createEmpty (projectRoot : String) :
    WellKeyed projectRoot SolidityFilesCache.createEmpty := by
  intro _ _ found
  simp at found

theorem WellKeyed.invalidateCacheMissingArtifacts {projectRoot : String} {cache : SolidityFilesCache}
    (wellKeyed : WellKeyed projectRoot cache) (artifacts : Artifacts) (resolvedFiles : List ResolvedFile) :
    WellKeyed projectRoot (invalidateCacheMissingArtifacts cache artifacts resolvedFiles) :=
  fun path entry found => wellKeyed path entry (getEntry_of_getEntry_invalidateCacheMissingArtifacts found).1

namespace CompletedRun

variable (run : CompletedRun env sources buildState force plan emitted)
  (keyed : WellKeyed env.projectRoot buildState.solidityFilesCache)
include run keyed

/-- A completed run keeps every entry at the path of its source name. -/
theorem wellKeyed : WellKeyed env.projectRoot
    (compileSolidity env sources buildState force).buildState.solidityFilesCache := by
  intro path entry found
  rcases run.getEntry_cases found with ⟨job, mem, file, fileMem, -, rfl, -, -, -, rfl⟩ | ⟨-, kept⟩
  · exact run.planned.absolutePath_eq (run.planned.mem_files mem fileMem)
  · rw [run.planned.cache] at kept
    exact keyed.invalidateCacheMissingArtifacts _ _ path entry kept

omit keyed in
/-- The entry of a file whose planned job was kept is the one its merged job wrote. -/
private theorem cacheCurrent_of_kept {file : ResolvedFile} {job : CompilationJob}
    (fileMem : file ∈ plan.dependencyGraph.files)
    (created : createCompilationJobFromFile env.semver env.solidity plan.dependencyGraph file = .ok job)
    (kept : job ∈ plan.filteredCompilationJobs) :
    ∃ entry, (compileSolidity env sources buildState force).buildState.solidityFilesCache.getEntry
        file.absolutePath = some entry ∧
      entry.contentHash = file.contentHash ∧ entry.sourceName = file.sourceName ∧
      entry.solcConfig = job.getSolcConfig ∧
      ∀ contractName ∈ entry.artifacts,
        (compileSolidity env sources buildState force).buildState.artifacts.artifactExists
          ⟨file.sourceName, contractName⟩ = true := by
  obtain ⟨merged, mem, sameConfig, inMerged, emits⟩ :=
    run.planned.exists_merged_of_mem_filtered fileMem created kept
  obtain ⟨solcBuild, output, found, entryOf⟩ := run.getEntry_of_emitsArtifacts mem inMerged emits
  refine ⟨_, entryOf, rfl, rfl, sameConfig, fun contractName contractMem => ?_⟩
  obtain ⟨saved, savedNow, -⟩ := run.saved_of_emitsArtifacts mem inMerged emits found contractMem
  simp [Artifacts.artifactExists, savedNow]

/-- The entry of a file whose planned job was dropped is the one the cache had, and its
    artifacts were neither overwritten nor removed. -/
private theorem cacheCurrent_of_dropped {file : ResolvedFile} {job : CompilationJob}
    (fileMem : file ∈ plan.dependencyGraph.files)
    (created : createCompilationJobFromFile env.semver env.solidity plan.dependencyGraph file = .ok job)
    (dropped : job ∉ plan.filteredCompilationJobs) :
    ∃ entry, (compileSolidity env sources buildState force).buildState.solidityFilesCache.getEntry
        file.absolutePath = some entry ∧
      entry.contentHash = file.contentHash ∧ entry.sourceName = file.sourceName ∧
      entry.solcConfig = job.getSolcConfig ∧
      ∀ contractName ∈ entry.artifacts,
        (compileSolidity env sources buildState force).buildState.artifacts.artifactExists
          ⟨file.sourceName, contractName⟩ = true := by
  have jobMem : job ∈ plan.compilationJobs :=
    run.planned.jobs ▸ mem_getCompilationJobs_jobs.mpr ⟨file, fileMem, created⟩
  have unchanged := needsCompilation_eq_false.mp
    (run.planned.needsCompilation_of_not_mem_filtered jobMem dropped).2 file (by
      rw [getResolvedFiles_of_createCompilationJobFromFile created]
      exact (DependencyGraph.mem_closureFiles fileMem).mpr ⟨fileMem, .refl⟩)
  rw [emitsArtifacts_of_createCompilationJobFromFile fileMem created, beq_self_eq_true,
    if_pos rfl] at unchanged
  obtain ⟨entry, found, sameHash, sameConfig⟩ := SolidityFilesCache.hasFileChanged_eq_false.mp unchanged
  have notEmitted : ∀ other ∈ plan.mergedCompilationJobs, ∀ otherFile ∈ other.getResolvedFiles,
      other.emitsArtifacts otherFile = true → otherFile.sourceName ≠ file.sourceName :=
    fun other otherMem otherFile _ emits sameName => by
      rw [CompilationJob.emitsArtifacts_congr other sameName,
        run.planned.emitsArtifacts_eq_false_of_not_mem_filtered fileMem created dropped otherMem] at emits
      cases emits
  have kept : (compileSolidity env sources buildState force).buildState.solidityFilesCache.getEntry
      file.absolutePath = some entry := by
    rw [run.getEntry_of_not_emitted fun other otherMem otherFile otherFileMem emits samePath =>
      notEmitted other otherMem otherFile otherFileMem emits (absolutePathOf_injective env.projectRoot
        (by rw [← run.planned.absolutePath_eq (run.planned.mem_files otherMem otherFileMem),
          ← run.planned.absolutePath_eq fileMem, samePath]))]
    exact found
  obtain ⟨previous, notMissing⟩ := getEntry_of_getEntry_invalidateCacheMissingArtifacts
    (run.planned.cache ▸ found)
  have sameName : entry.sourceName = file.sourceName := absolutePathOf_injective env.projectRoot
    ((keyed _ _ previous).symm.trans (run.planned.absolutePath_eq fileMem))
  refine ⟨entry, kept, sameHash, sameName, (sameConfig _ rfl).symm, fun contractName contractMem => ?_⟩
  have existed : buildState.artifacts.artifactExists ⟨file.sourceName, contractName⟩ = true := by
    by_contra missing
    exact notMissing ⟨file, fileMem, rfl, entry, previous, contractName, contractMem,
      by simpa using missing⟩
  rw [congrArg (·.buildState.artifacts) run.compileSolidity_eq]
  simp only [Artifacts.artifactExists, Artifacts.saved_removeObsoleteArtifacts]
  have written : (addArtifactsEmittedPerJob plan.solidityFilesCache emitted).getEntry
      file.absolutePath = some entry := by
    simpa only [run.compileSolidity_eq] using kept
  rw [if_pos ⟨entry, SolidityFilesCache.mem_getEntries.mpr ⟨_, written⟩, sameName, contractMem⟩,
    run.saved_compileJobs_of_not_emitted notEmitted]
  exact existed

/-- A completed run leaves the cache and the store current for its dependency graph. -/
theorem cacheCurrent :
    CacheCurrent env plan.dependencyGraph (compileSolidity env sources buildState force).buildState := by
  intro file fileMem
  obtain ⟨job, created⟩ := createCompilationJobFromFile_of_errors_eq_nil run.planned.noErrors fileMem
  by_cases kept : job ∈ plan.filteredCompilationJobs
  · obtain ⟨entry, current⟩ := run.cacheCurrent_of_kept fileMem created kept
    exact ⟨job, entry, created, current⟩
  · obtain ⟨entry, current⟩ := run.cacheCurrent_of_dropped keyed fileMem created kept
    exact ⟨job, entry, created, current⟩

/-- An entry that names the source of a file the run emitted is that file's entry, so
    the artifacts the cache lists for its source name are the contract names of its
    output. -/
theorem listed_iff {job : CompilationJob} {file : ResolvedFile} {solcBuild : SolcBuild}
    {output : CompilerOutput} (mem : job ∈ plan.mergedCompilationJobs)
    (fileMem : file ∈ job.getResolvedFiles) (emits : job.emitsArtifacts file = true)
    (found : compilerOutput env.toolchain job = some (solcBuild, output)) (contractName : String) :
    (∃ entry ∈ (compileSolidity env sources buildState force).buildState.solidityFilesCache.getEntries,
        entry.sourceName = file.sourceName ∧ contractName ∈ entry.artifacts) ↔
      contractName ∈ contractNames output file.sourceName := by
  obtain ⟨solcBuild', output', found', written⟩ := run.getEntry_of_emitsArtifacts mem fileMem emits
  rw [found] at found'
  cases found'
  constructor
  · rintro ⟨entry, entryMem, sameName, listed⟩
    obtain ⟨path, atPath⟩ := SolidityFilesCache.mem_getEntries.mp entryMem
    have samePath : path = file.absolutePath := by
      rw [run.wellKeyed keyed path entry atPath, sameName,
        run.planned.absolutePath_eq (run.planned.mem_files mem fileMem)]
    rw [samePath, written] at atPath
    cases atPath
    exact listed
  · exact fun listed => ⟨_, SolidityFilesCache.mem_getEntries.mpr ⟨_, written⟩, rfl, listed⟩

/-- The artifacts a run leaves under the source name of a file it emitted are those its
    compilation saved for the contracts of the file's output, and no other. -/
theorem saved_of_emitted {job : CompilationJob} {file : ResolvedFile} {solcBuild : SolcBuild}
    {output : CompilerOutput} (mem : job ∈ plan.mergedCompilationJobs)
    (fileMem : file ∈ job.getResolvedFiles) (emits : job.emitsArtifacts file = true)
    (found : compilerOutput env.toolchain job = some (solcBuild, output)) (contractName : String) :
    (compileSolidity env sources buildState force).buildState.artifacts.saved
        ⟨file.sourceName, contractName⟩ =
      if contractName ∈ contractNames output file.sourceName then
        (compileJobs env.semver env.toolchain plan.mergedCompilationJobs
          buildState.artifacts).artifacts.saved ⟨file.sourceName, contractName⟩
      else none := by
  have listed := run.listed_iff keyed mem fileMem emits found contractName
  rw [run.compileSolidity_eq] at listed ⊢
  dsimp only at listed ⊢
  rw [Artifacts.saved_removeObsoleteArtifacts]
  exact if_congr listed rfl rfl

end CompletedRun

/-- A run that completes from a well-keyed cache leaves it well keyed and current for the
    run's dependency graph: every file has an entry at its path that records its content
    hash, its source name and the configuration planned for it, and every artifact the
    entry lists is in the store. -/
theorem compileSolidity_leaves_cache_current
    (keyed : WellKeyed env.projectRoot buildState.solidityFilesCache)
    (completed : (compileSolidity env sources buildState force).result = .ok ()) :
    ∃ graph, createDependencyGraph env.reader env.projectRoot sources = .ok graph ∧
      WellKeyed env.projectRoot (compileSolidity env sources buildState force).buildState.solidityFilesCache ∧
      CacheCurrent env graph (compileSolidity env sources buildState force).buildState := by
  obtain ⟨plan, emitted, run⟩ := completedRun_of_ok completed
  exact ⟨plan.dependencyGraph, run.planned.graph, run.wellKeyed keyed, run.cacheCurrent keyed⟩

theorem twoFileProject_leaves_cache_current :
    WellKeyed exampleEnvironment.projectRoot emptyBuildState.solidityFilesCache ∧
      (compileSolidity exampleEnvironment exampleSources emptyBuildState false).result = .ok () ∧
      ∃ graph, createDependencyGraph exampleEnvironment.reader exampleEnvironment.projectRoot
          exampleSources = .ok graph ∧
        WellKeyed exampleEnvironment.projectRoot
          (compileSolidity exampleEnvironment exampleSources emptyBuildState false).buildState.solidityFilesCache ∧
        CacheCurrent exampleEnvironment graph
          (compileSolidity exampleEnvironment exampleSources emptyBuildState false).buildState :=
  ⟨wellKeyed_createEmpty _, rfl, compileSolidity_leaves_cache_current (wellKeyed_createEmpty _) rfl⟩

/-! ## Rebuilding an unchanged project -/

/-- A cache current for a graph misses no artifact of the graph's files. -/
theorem CacheCurrent.not_missesArtifact {graph : DependencyGraph}
    (current : CacheCurrent env graph buildState) {file : ResolvedFile} (mem : file ∈ graph.files) :
    ¬ MissesArtifact buildState.solidityFilesCache buildState.artifacts file := by
  rintro ⟨entry, found, contractName, listed, missing⟩
  obtain ⟨-, entry', -, found', -, -, -, existing⟩ := current file mem
  rw [found, Option.some.injEq] at found'
  subst found'
  rw [getFullyQualifiedName, existing contractName listed] at missing
  cases missing

/-- Against a cache current for a graph, no job planned for that graph needs compilation. -/
theorem CacheCurrent.needsCompilation_planned_eq_false {graph : DependencyGraph}
    (current : CacheCurrent env graph buildState) {file : ResolvedFile} {job : CompilationJob}
    (mem : file ∈ graph.files)
    (created : createCompilationJobFromFile env.semver env.solidity graph file = .ok job) :
    needsCompilation job buildState.solidityFilesCache = false := by
  rw [needsCompilation_eq_false, getResolvedFiles_of_createCompilationJobFromFile created]
  intro dependency dependencyMem
  have dependencyGraphMem := ((DependencyGraph.mem_closureFiles mem).mp dependencyMem).1
  obtain ⟨dependencyJob, entry, createdDependency, found, sameHash, -, sameConfig, -⟩ :=
    current dependency dependencyGraphMem
  refine SolidityFilesCache.hasFileChanged_eq_false.mpr
    ⟨entry, found, sameHash, fun config given => ?_⟩
  split at given
  · -- the file itself: its entry records the configuration of its own job
    rename_i emits
    rw [emitsArtifacts_of_createCompilationJobFromFile mem created, beq_iff_eq] at emits
    obtain rfl := DependencyGraph.eq_of_sourceName_eq dependencyGraphMem mem emits
    rw [created, Except.ok.injEq] at createdDependency
    subst createdDependency
    exact (Option.some.inj given).symm.trans sameConfig.symm
  · cases given

/-- After a completed run from a well-keyed cache, planning the same project again without
    `--force` finds the same graph and the same jobs, keeps the cache the run wrote, and
    keeps no job to compile. -/
theorem CompletedRun.planCompilation_rebuild (run : CompletedRun env sources buildState force plan emitted)
    (keyed : WellKeyed env.projectRoot buildState.solidityFilesCache) :
    planCompilation env sources (compileSolidity env sources buildState force).buildState false =
      .ok ⟨plan.dependencyGraph, (compileSolidity env sources buildState force).buildState.solidityFilesCache,
        plan.compilationJobs, [], []⟩ := by
  have current := run.cacheCurrent keyed
  generalize (compileSolidity env sources buildState force).buildState = after at current ⊢
  have unchangedCache : invalidateCacheMissingArtifacts after.solidityFilesCache after.artifacts
      plan.dependencyGraph.getResolvedFiles = after.solidityFilesCache :=
    invalidateCacheMissingArtifacts_of_forall_not_missesArtifact fun _ mem =>
      current.not_missesArtifact mem
  have noJobs : filterCompilationJobs plan.compilationJobs false after.solidityFilesCache = [] := by
    rw [filterCompilationJobs, if_neg Bool.false_ne_true, List.filter_eq_nil_iff]
    intro job mem
    obtain ⟨file, fileMem, created⟩ := mem_getCompilationJobs_jobs.mp (run.planned.jobs ▸ mem)
    simp [current.needsCompilation_planned_eq_false fileMem created]
  simp only [planCompilation, run.planned.graph, bind, Except.bind, handleCompilationJobsFailures,
    run.planned.noErrors, unchangedCache, ← run.planned.jobs, noJobs]
  rfl

/-- Rebuilding an unchanged project changes nothing.  After a run that completes from a
    well-keyed cache, a second run over the same sources and configuration, without
    `--force`, completes without running the compiler on any job, and leaves the cache and
    the artifacts exactly as the first run left them. -/
theorem compileSolidity_rebuild_changes_nothing
    (keyed : WellKeyed env.projectRoot buildState.solidityFilesCache)
    (completed : (compileSolidity env sources buildState force).result = .ok ()) :
    compileSolidity env sources (compileSolidity env sources buildState force).buildState false =
      ⟨(compileSolidity env sources buildState force).buildState, [], .ok ()⟩ := by
  obtain ⟨plan, emitted, run⟩ := completedRun_of_ok completed
  have replanned := run.planCompilation_rebuild keyed
  have obsoleteRemoved : (compileSolidity env sources buildState force).buildState.artifacts.removeObsoleteArtifacts
      (compileSolidity env sources buildState force).buildState.solidityFilesCache.getEntries =
      (compileSolidity env sources buildState force).buildState.artifacts := by
    rw [run.compileSolidity_eq]
    exact Artifacts.removeObsoleteArtifacts_removeObsoleteArtifacts _
  generalize (compileSolidity env sources buildState force).buildState = after at replanned obsoleteRemoved ⊢
  have nothingCompiled : compileJobs env.semver env.toolchain [] after.artifacts =
      ⟨after.artifacts, [], [], .ok []⟩ := rfl
  simp only [compileSolidity, replanned, nothingCompiled, addArtifactsEmittedPerJob, List.foldl_nil,
    obsoleteRemoved]

theorem twoFileProject_rebuild_changes_nothing :
    WellKeyed exampleEnvironment.projectRoot emptyBuildState.solidityFilesCache ∧
      (compileSolidity exampleEnvironment exampleSources emptyBuildState false).result = .ok () ∧
      compileSolidity exampleEnvironment exampleSources
          (compileSolidity exampleEnvironment exampleSources emptyBuildState false).buildState false =
        ⟨(compileSolidity exampleEnvironment exampleSources emptyBuildState false).buildState, [], .ok ()⟩ :=
  ⟨wellKeyed_createEmpty _, rfl,
    compileSolidity_rebuild_changes_nothing (wellKeyed_createEmpty _) rfl⟩

/-! ## Forced runs and removed files -/

/-- Removing a source file from the project does not remove its artifacts.  The cache
    entry of a source name that is no longer a source of the project, at that name's path,
    survives a completed run unchanged, and so do the artifacts it lists, since
    `removeObsoleteArtifacts` keeps every artifact some entry lists. -/
theorem compileSolidity_keeps_removed_files {entry : CacheEntry}
    (completed : (compileSolidity env sources buildState force).result = .ok ())
    (removed : entry.sourceName ∉ sources)
    (cached : buildState.solidityFilesCache.getEntry (absolutePathOf env.projectRoot entry.sourceName) =
      some entry) :
    (compileSolidity env sources buildState force).buildState.solidityFilesCache.getEntry
        (absolutePathOf env.projectRoot entry.sourceName) = some entry ∧
      ∀ contractName ∈ entry.artifacts,
        (compileSolidity env sources buildState force).buildState.artifacts.saved
            ⟨entry.sourceName, contractName⟩ =
          buildState.artifacts.saved ⟨entry.sourceName, contractName⟩ := by
  obtain ⟨plan, emitted, run⟩ := completedRun_of_ok completed
  have otherName : ∀ file ∈ plan.dependencyGraph.files, file.sourceName ≠ entry.sourceName :=
    fun file mem same => removed ((mem_sourceNames_of_createDependencyGraph run.planned.graph).mp
      (DependencyGraph.mem_sourceNames.mpr ⟨file, mem, same⟩))
  have otherPath : ∀ file ∈ plan.dependencyGraph.files,
      file.absolutePath ≠ absolutePathOf env.projectRoot entry.sourceName := fun file mem same =>
    otherName file mem (absolutePathOf_injective _ ((run.planned.absolutePath_eq mem).symm.trans same))
  have kept : (compileSolidity env sources buildState force).buildState.solidityFilesCache.getEntry
      (absolutePathOf env.projectRoot entry.sourceName) = some entry := by
    rw [run.getEntry_of_not_emitted fun job mem file fileMem _ =>
        otherPath file (run.planned.mem_files mem fileMem),
      run.planned.cache, getEntry_invalidateCacheMissingArtifacts_of_not_missesArtifact
        fun ⟨file, mem, same, _⟩ => otherPath file mem same]
    exact cached
  have listedNow := SolidityFilesCache.mem_getEntries.mpr ⟨_, kept⟩
  refine ⟨kept, fun contractName listed => ?_⟩
  rw [run.compileSolidity_eq] at listedNow ⊢
  rw [Artifacts.saved_removeObsoleteArtifacts, if_pos ⟨entry, listedNow, rfl, listed⟩,
    run.saved_compileJobs_of_not_emitted fun job mem file fileMem _ =>
      otherName file (run.planned.mem_files mem fileMem)]

/-- Against a cache without entries every planned job needs compilation: its own file
    has no entry. -/
theorem filterCompilationJobs_createEmpty {graph : DependencyGraph} (artifacts : Artifacts) :
    filterCompilationJobs (getCompilationJobs env.semver env.solidity graph).jobs false
        (invalidateCacheMissingArtifacts SolidityFilesCache.createEmpty artifacts
          graph.getResolvedFiles) =
      (getCompilationJobs env.semver env.solidity graph).jobs := by
  simp only [filterCompilationJobs, Bool.false_eq_true, if_false]
  refine List.filter_eq_self.mpr fun job mem => ?_
  obtain ⟨file, fileMem, created⟩ := mem_getCompilationJobs_jobs.mp mem
  have noEntry : (invalidateCacheMissingArtifacts SolidityFilesCache.createEmpty artifacts
      graph.getResolvedFiles).getEntry file.absolutePath = none := by
    cases found : (invalidateCacheMissingArtifacts SolidityFilesCache.createEmpty artifacts
        graph.getResolvedFiles).getEntry file.absolutePath with
    | none => rfl
    | some entry =>
        have previous := (getEntry_of_getEntry_invalidateCacheMissingArtifacts found).1
        simp at previous
  have fileIn : file ∈ job.getResolvedFiles := by
    rw [getResolvedFiles_of_createCompilationJobFromFile created]
    exact (DependencyGraph.mem_closureFiles fileMem).mpr ⟨fileMem, .refl⟩
  exact List.any_eq_true.mpr ⟨file, fileIn, by simp [SolidityFilesCache.hasFileChanged, noEntry]⟩

/-- A forced plan merges the jobs a plan from a fresh build state merges, and fails as
    that one fails. -/
theorem planCompilation_force_eq_fresh :
    (planCompilation env sources buildState true).map (·.mergedCompilationJobs) =
      (planCompilation env sources emptyBuildState false).map (·.mergedCompilationJobs) := by
  unfold planCompilation
  cases createDependencyGraph env.reader env.projectRoot sources with
  | error => rfl
  | ok graph =>
      simp only [bind, Except.bind, handleCompilationJobsFailures]
      split
      · rfl
      · simp only [emptyBuildState, filterCompilationJobs_createEmpty]
        rfl

/-- Two runs whose plans merge the same jobs end the same way and compile the same jobs,
    whatever stores they start from. -/
theorem compileSolidity_eq_of_mergedCompilationJobs {sources' : AList fun _ : String => ProjectFile}
    {buildState' : BuildState} {force' : Bool}
    (sameJobs : (planCompilation env sources buildState force).map (·.mergedCompilationJobs) =
      (planCompilation env sources' buildState' force').map (·.mergedCompilationJobs)) :
    (compileSolidity env sources buildState force).result =
        (compileSolidity env sources' buildState' force').result ∧
      (compileSolidity env sources buildState force).compiledJobs =
        (compileSolidity env sources' buildState' force').compiledJobs := by
  unfold compileSolidity
  cases first : planCompilation env sources buildState force <;>
    cases second : planCompilation env sources' buildState' force' <;>
    simp only [first, second, Except.map, Except.error.injEq, Except.ok.injEq, reduceCtorEq] at sameJobs
  · subst sameJobs
    exact ⟨rfl, rfl⟩
  · rename_i plan plan'
    have same : SameRun buildState.artifacts buildState'.artifacts
        (compileJobs env.semver env.toolchain plan.mergedCompilationJobs buildState.artifacts)
        (compileJobs env.semver env.toolchain plan.mergedCompilationJobs buildState'.artifacts) :=
      compileJobs_sameRun _ _ _
    dsimp only
    rw [← sameJobs, ← same.artifactsEmittedPerJob]
    cases (compileJobs env.semver env.toolchain plan.mergedCompilationJobs
        buildState.artifacts).artifactsEmittedPerJob <;> exact ⟨rfl, same.compiledJobs⟩

/-- A forced run is a clean build.  From any cache whose entries sit at the paths of
    their own source names, and any store, a `--force` run ends as a run from an empty
    cache and an empty store ends, and compiles the same jobs; when it completes, it
    leaves the same cache entry and the same artifacts as that run for every file of the
    project. -/
theorem compileSolidity_force_is_clean_build
    (keyed : WellKeyed env.projectRoot buildState.solidityFilesCache) :
    (compileSolidity env sources buildState true).result =
        (compileSolidity env sources emptyBuildState false).result ∧
      (compileSolidity env sources buildState true).compiledJobs =
        (compileSolidity env sources emptyBuildState false).compiledJobs ∧
      ((compileSolidity env sources buildState true).result = .ok () →
        ∃ graph, createDependencyGraph env.reader env.projectRoot sources = .ok graph ∧
          ∀ file ∈ graph.files,
            (compileSolidity env sources buildState true).buildState.solidityFilesCache.getEntry
                file.absolutePath =
              (compileSolidity env sources emptyBuildState false).buildState.solidityFilesCache.getEntry
                file.absolutePath ∧
            ∀ contractName,
              (compileSolidity env sources buildState true).buildState.artifacts.saved
                  ⟨file.sourceName, contractName⟩ =
                (compileSolidity env sources emptyBuildState false).buildState.artifacts.saved
                  ⟨file.sourceName, contractName⟩) := by
  have sameJobs := @planCompilation_force_eq_fresh env sources buildState
  obtain ⟨sameResult, sameCompiled⟩ := compileSolidity_eq_of_mergedCompilationJobs sameJobs
  refine ⟨sameResult, sameCompiled, fun completed => ?_⟩
  obtain ⟨plan, emitted, run⟩ := completedRun_of_ok completed
  obtain ⟨plan', emitted', run'⟩ := completedRun_of_ok (sameResult ▸ completed)
  simp only [run.planCompiled, run'.planCompiled, Except.map, Except.ok.injEq] at sameJobs
  refine ⟨plan.dependencyGraph, run.planned.graph, fun file fileMem => ?_⟩
  obtain ⟨job, created⟩ := createCompilationJobFromFile_of_errors_eq_nil run.planned.noErrors fileMem
  have kept : job ∈ plan.filteredCompilationJobs := by
    rw [run.planned.filtered, filterCompilationJobs, if_pos rfl, run.planned.jobs]
    exact mem_getCompilationJobs_jobs.mpr ⟨file, fileMem, created⟩
  obtain ⟨merged, mergedMem, -, fileIn, emits⟩ :=
    run.planned.exists_merged_of_mem_filtered fileMem created kept
  have mergedMem' : merged ∈ plan'.mergedCompilationJobs := sameJobs ▸ mergedMem
  obtain ⟨solcBuild, output, found, entry⟩ := run.getEntry_of_emitsArtifacts mergedMem fileIn emits
  obtain ⟨solcBuild', output', found', entry'⟩ :=
    run'.getEntry_of_emitsArtifacts mergedMem' fileIn emits
  rw [found] at found'
  cases found'
  refine ⟨entry.trans entry'.symm, fun contractName => ?_⟩
  have emptyKeyed : WellKeyed env.projectRoot emptyBuildState.solidityFilesCache :=
    wellKeyed_createEmpty _
  rw [run.saved_of_emitted keyed mergedMem fileIn emits found,
    run'.saved_of_emitted emptyKeyed mergedMem' fileIn emits found, ← sameJobs]
  split_ifs with contractMem
  · rcases (compileJobs_sameRun plan.mergedCompilationJobs buildState.artifacts
        emptyBuildState.artifacts).sameSaves ⟨file.sourceName, contractName⟩ with
      ⟨-, untouched⟩ | same
    · obtain ⟨saved, savedNow, -⟩ := run'.saved_of_emitsArtifacts mergedMem' fileIn emits found contractMem
      rw [run'.saved_of_emitted emptyKeyed mergedMem' fileIn emits found, if_pos contractMem,
        ← sameJobs, untouched] at savedNow
      cases savedNow
    · exact same
  · rfl

/-- The two-file project without `B`. -/
def onlyASources : AList fun _ : String => ProjectFile :=
  ⟨[⟨"A", ⟨"a0", 0⟩⟩], List.nodup_singleton _⟩

/-- The build state the two-file project leaves. -/
def twoFileBuildState : BuildState :=
  (compileSolidity exampleEnvironment exampleSources emptyBuildState false).buildState

example :
    (compileSolidity exampleEnvironment onlyASources twoFileBuildState false).buildState.artifacts.artifactExists
      ⟨"B", "B"⟩ = true := by
  decide

/-- The entry the two-file project leaves for `B`. -/
def entryOfB : CacheEntry := ⟨0, "uses A", "B", ⟨"0.8.0", ""⟩, ["A"], [], ["B"]⟩

theorem removingB_keeps_its_artifacts :
    ∃ entry, ((compileSolidity exampleEnvironment onlyASources twoFileBuildState false).result = .ok () ∧
      entry.sourceName ∉ onlyASources ∧
      twoFileBuildState.solidityFilesCache.getEntry
        (absolutePathOf exampleEnvironment.projectRoot entry.sourceName) = some entry) ∧
    (compileSolidity exampleEnvironment onlyASources twoFileBuildState false).buildState.solidityFilesCache.getEntry
        (absolutePathOf exampleEnvironment.projectRoot entry.sourceName) = some entry ∧
      ∀ contractName ∈ entry.artifacts,
        (compileSolidity exampleEnvironment onlyASources twoFileBuildState false).buildState.artifacts.saved
            ⟨entry.sourceName, contractName⟩ =
          twoFileBuildState.artifacts.saved ⟨entry.sourceName, contractName⟩ :=
  have hypotheses : (compileSolidity exampleEnvironment onlyASources twoFileBuildState false).result =
        .ok () ∧ entryOfB.sourceName ∉ onlyASources ∧
      twoFileBuildState.solidityFilesCache.getEntry
        (absolutePathOf exampleEnvironment.projectRoot entryOfB.sourceName) = some entryOfB :=
    ⟨rfl, by decide, rfl⟩
  ⟨entryOfB, hypotheses, compileSolidity_keeps_removed_files hypotheses.1 hypotheses.2.1 hypotheses.2.2⟩

theorem twoFileProject_force_is_clean_build :
    WellKeyed exampleEnvironment.projectRoot twoFileBuildState.solidityFilesCache ∧
    (compileSolidity exampleEnvironment exampleSources twoFileBuildState true).result =
        (compileSolidity exampleEnvironment exampleSources emptyBuildState false).result ∧
      (compileSolidity exampleEnvironment exampleSources twoFileBuildState true).compiledJobs =
        (compileSolidity exampleEnvironment exampleSources emptyBuildState false).compiledJobs ∧
      ((compileSolidity exampleEnvironment exampleSources twoFileBuildState true).result = .ok () →
        ∃ graph, createDependencyGraph exampleEnvironment.reader exampleEnvironment.projectRoot
            exampleSources = .ok graph ∧
          ∀ file ∈ graph.files,
            (compileSolidity exampleEnvironment exampleSources twoFileBuildState true).buildState.solidityFilesCache.getEntry
                file.absolutePath =
              (compileSolidity exampleEnvironment exampleSources emptyBuildState false).buildState.solidityFilesCache.getEntry
                file.absolutePath ∧
            ∀ contractName,
              (compileSolidity exampleEnvironment exampleSources twoFileBuildState true).buildState.artifacts.saved
                  ⟨file.sourceName, contractName⟩ =
                (compileSolidity exampleEnvironment exampleSources emptyBuildState false).buildState.artifacts.saved
                  ⟨file.sourceName, contractName⟩) :=
  have keyed : WellKeyed exampleEnvironment.projectRoot twoFileBuildState.solidityFilesCache := by
    obtain ⟨_, _, run⟩ := completedRun_of_ok
      (show (compileSolidity exampleEnvironment exampleSources emptyBuildState false).result = .ok ()
        from rfl)
    exact run.wellKeyed (wellKeyed_createEmpty _)
  ⟨keyed, compileSolidity_force_is_clean_build keyed⟩

/-! ## Two graphs over the same source names -/

/-- The content hash of a source name differs between two dependency graphs. -/
def contentChanged (graph graph' : DependencyGraph) (sourceName : String) : Bool :=
  (graph.getResolvedFile? sourceName).map (·.contentHash) !=
    (graph'.getResolvedFile? sourceName).map (·.contentHash)

/-- Filtering two lists of files with the same source names by a property of the
    names keeps files of the same contents. -/
private theorem map_content_filter_eq {P : String → Prop} [DecidablePred P] :
    ∀ {files files' : List ResolvedFile}, files.map (·.sourceName) = files'.map (·.sourceName) →
      (∀ file ∈ files, ∀ file' ∈ files', file.sourceName = file'.sourceName →
        P file.sourceName → file.content = file'.content) →
      (files.filter fun file => decide (P file.sourceName)).map (·.content) =
        (files'.filter fun file => decide (P file.sourceName)).map (·.content)
  | [], [], _, _ => rfl
  | file :: files, file' :: files', sameNames, same => by
      simp only [List.map_cons, List.cons.injEq] at sameNames
      have rest := map_content_filter_eq sameNames.2 fun other otherMem other' otherMem' =>
        same other (List.mem_cons_of_mem _ otherMem) other' (List.mem_cons_of_mem _ otherMem')
      by_cases holds : P file.sourceName
      · have holds' : P file'.sourceName := sameNames.1 ▸ holds
        simp only [List.filter_cons, holds, holds', decide_True, if_true, List.map_cons, rest,
          same file (List.mem_cons_self _ _) file' (List.mem_cons_self _ _) sameNames.1 holds]
      · have holds' : ¬ P file'.sourceName := sameNames.1 ▸ holds
        simp only [List.filter_cons, holds, holds', decide_False, Bool.false_eq_true, if_false, rest]

section SameSources

variable {reader : SourceReader} {projectRoot : String}
  {sources sources' : AList fun _ : String => ProjectFile} {graph graph' : DependencyGraph}
  (created : createDependencyGraph reader projectRoot sources = .ok graph)
  (created' : createDependencyGraph reader projectRoot sources' = .ok graph')
include created created'

/-- Files of the same content hash have the same content, when hashes are injective. -/
theorem content_eq_of_contentHash_eq (hashInjective : Function.Injective reader.hash)
    {file file' : ResolvedFile} (mem : file ∈ graph.files) (mem' : file' ∈ graph'.files)
    (sameHash : file.contentHash = file'.contentHash) : file.content = file'.content := by
  rw [createDependencyGraph_files created] at mem
  rw [createDependencyGraph_files created'] at mem'
  obtain ⟨projectFile, -, fileEq⟩ := mem_resolveSources.mp mem
  obtain ⟨projectFile', -, fileEq'⟩ := mem_resolveSources.mp mem'
  rw [fileEq, fileEq'] at sameHash ⊢
  simp only [SourceReader.resolveFile] at sameHash ⊢
  rw [hashInjective sameHash]

variable (sameNames : sources'.keys = sources.keys)
include sameNames

theorem sourceNames_eq_of_keys_eq : graph'.sourceNames = graph.sourceNames := by
  rw [DependencyGraph.sourceNames, DependencyGraph.sourceNames, createDependencyGraph_files created,
    createDependencyGraph_files created', resolveSources_sourceNames, resolveSources_sourceNames,
    sameNames]

/-- A file of the second graph has a file of its source name and path in the first. -/
theorem exists_mem_of_keys_eq {file' : ResolvedFile} (mem' : file' ∈ graph'.files) :
    ∃ file ∈ graph.files, file.sourceName = file'.sourceName ∧
      file.absolutePath = file'.absolutePath := by
  have named : file'.sourceName ∈ graph.sourceNames :=
    sourceNames_eq_of_keys_eq created created' sameNames ▸
      DependencyGraph.mem_sourceNames.mpr ⟨file', mem', rfl⟩
  obtain ⟨file, mem, sameName⟩ := DependencyGraph.mem_sourceNames.mp named
  refine ⟨file, mem, sameName, ?_⟩
  rw [createDependencyGraph_files created] at mem
  rw [createDependencyGraph_files created'] at mem'
  obtain ⟨_, -, fileEq⟩ := mem_resolveSources.mp mem
  obtain ⟨_, -, fileEq'⟩ := mem_resolveSources.mp mem'
  rw [fileEq, fileEq']
  simp only [SourceReader.resolveFile, sameName]

/-- The compiler chosen for a file depends only on its closure: when no file of the
    closure changed its content hash, both graphs give the file the same configuration. -/
theorem getSolcConfig_eq_of_unchanged (hashInjective : Function.Injective reader.hash)
    {semver : Semver} {solidity : SolidityConfig} {file file' : ResolvedFile}
    {job job' : CompilationJob} (mem : file ∈ graph.files) (mem' : file' ∈ graph'.files)
    (sameName : file.sourceName = file'.sourceName)
    (unchanged : ∀ name ∈ graph'.transitiveClosure file'.sourceName,
      contentChanged graph graph' name = false)
    (createdJob : createCompilationJobFromFile semver solidity graph file = .ok job)
    (createdJob' : createCompilationJobFromFile semver solidity graph' file' = .ok job') :
    job.getSolcConfig = job'.getSolcConfig := by
  have rootMem' : file'.sourceName ∈ graph'.sourceNames :=
    DependencyGraph.mem_sourceNames.mpr ⟨file', mem', rfl⟩
  have inGraph' : ∀ name ∈ graph'.transitiveClosure file'.sourceName, name ∈ graph'.sourceNames :=
    fun _ nameMem => DependencyGraph.mem_sourceNames_of_reaches rootMem'
      (DependencyGraph.reaches_of_mem_transitiveClosure nameMem)
  -- along the closure, the two graphs hold files of the same content
  have sameContent : ∀ name ∈ graph'.transitiveClosure file'.sourceName, ∀ other ∈ graph.files,
      ∀ other' ∈ graph'.files, other.sourceName = name → other'.sourceName = name →
      other.content = other'.content := by
    intro name nameMem other otherMem other' otherMem' named named'
    have same := unchanged name nameMem
    rw [contentChanged, DependencyGraph.getResolvedFile?_eq_some.mpr ⟨otherMem, named⟩,
      DependencyGraph.getResolvedFile?_eq_some.mpr ⟨otherMem', named'⟩] at same
    simp only [Option.map_some', bne_eq_false_iff_eq, Option.some.injEq] at same
    exact content_eq_of_contentHash_eq created created' hashInjective otherMem otherMem' same
  have sameClosure : graph.transitiveClosure file'.sourceName =
      graph'.transitiveClosure file'.sourceName := by
    refine DependencyGraph.transitiveClosure_eq_of_importsOf
      (sourceNames_eq_of_keys_eq created created' sameNames).symm rootMem' fun name nameMem => ?_
    obtain ⟨other', otherMem', named'⟩ := DependencyGraph.mem_sourceNames.mp (inGraph' name nameMem)
    obtain ⟨other, otherMem, named, -⟩ := exists_mem_of_keys_eq created created' sameNames otherMem'
    rw [← named', DependencyGraph.importsOf_of_mem otherMem', ← named,
      DependencyGraph.importsOf_of_mem otherMem,
      sameContent _ (named' ▸ nameMem) other otherMem other' otherMem' (named.trans named') named']
  have sameRange : versionRangeFor file (graph.closureFiles file) =
      versionRangeFor file' (graph'.closureFiles file') := by
    have closureContents : (graph.closureFiles file).map (·.content) =
        (graph'.closureFiles file').map (·.content) := by
      rw [DependencyGraph.closureFiles, DependencyGraph.closureFiles, sameName, sameClosure]
      refine map_content_filter_eq ?_ fun other otherMem other' otherMem' named inClosure =>
        sameContent _ inClosure other otherMem other' otherMem' rfl named.symm
      exact (sourceNames_eq_of_keys_eq created created' sameNames).symm
    have fileContent : file.content = file'.content :=
      sameContent _ (DependencyGraph.root_mem_transitiveClosure rootMem') file mem file' mem'
        sameName rfl
    have pragmas := congrArg (fun contents => contents.flatMap (·.versionPragmas)) closureContents
    simp only [List.flatMap_map] at pragmas
    simp only [versionRangeFor, fileContent, pragmas]
  have chosen := (createCompilationJobFromFile_eq_ok createdJob).1
  have chosen' := (createCompilationJobFromFile_eq_ok createdJob').1
  rw [sameName, sameRange, (sameContent _ (DependencyGraph.root_mem_transitiveClosure rootMem')
    file mem file' mem' sameName rfl), chosen'] at chosen
  exact (Option.some.inj chosen).symm

end SameSources

/-- Whether a source name changed, read off the files of that name in the two graphs. -/
theorem contentChanged_of_mem {graph graph' : DependencyGraph} {file file' : ResolvedFile}
    (mem : file ∈ graph.files) (mem' : file' ∈ graph'.files)
    (sameName : file.sourceName = file'.sourceName) :
    contentChanged graph graph' file'.sourceName = (file.contentHash != file'.contentHash) := by
  rw [contentChanged, DependencyGraph.getResolvedFile?_eq_some.mpr ⟨mem, sameName⟩,
    DependencyGraph.getResolvedFile?_of_mem mem']
  rfl

/-! ## The next run -/

section NextRun

variable {graph : DependencyGraph} {sources' : AList fun _ : String => ProjectFile}
  {graph' : DependencyGraph}
  (created : createDependencyGraph env.reader env.projectRoot sources = .ok graph)
  (created' : createDependencyGraph env.reader env.projectRoot sources' = .ok graph')
  (sameNames : sources'.keys = sources.keys)
include created created' sameNames

/-- When the cache and the store are current for a graph, the next run over the same
    source names drops no entry of its files: each keeps the content hash and the
    configuration of the file of its name in the first graph. -/
theorem CacheCurrent.getEntry_invalidateCacheMissingArtifacts_of_keys_eq
    (current : CacheCurrent env graph buildState) {file' : ResolvedFile} (mem' : file' ∈ graph'.files) :
    ∃ file ∈ graph.files, file.sourceName = file'.sourceName ∧ ∃ job entry,
      createCompilationJobFromFile env.semver env.solidity graph file = .ok job ∧
      (invalidateCacheMissingArtifacts buildState.solidityFilesCache buildState.artifacts
        graph'.getResolvedFiles).getEntry file'.absolutePath = some entry ∧
      entry.contentHash = file.contentHash ∧ entry.solcConfig = job.getSolcConfig := by
  obtain ⟨file, mem, sameName, samePath⟩ := exists_mem_of_keys_eq created created' sameNames mem'
  obtain ⟨job, entry, createdJob, found, sameHash, -, sameConfig, existing⟩ := current file mem
  refine ⟨file, mem, sameName, job, entry, createdJob, ?_, sameHash, sameConfig⟩
  rw [getEntry_invalidateCacheMissingArtifacts_of_not_missesArtifact ?_, ← samePath, found]
  rintro ⟨other, otherMem, otherPath, previous, otherFound, contractName, contractMem, missing⟩
  have otherName : other.sourceName = file.sourceName := absolutePathOf_injective env.projectRoot (by
    rw [← absolutePath_of_mem_createDependencyGraph created' otherMem,
      ← absolutePath_of_mem_createDependencyGraph created mem, otherPath, samePath])
  rw [otherPath, ← samePath, found, Option.some.injEq] at otherFound
  subst otherFound
  simp only [getFullyQualifiedName, otherName, existing contractName contractMem] at missing
  cases missing

/-- In the next run, a job needs compilation exactly when a file of its closure changed. -/
theorem needsCompilation_eq_true_iff (hashInjective : Function.Injective env.reader.hash)
    (current : CacheCurrent env graph buildState) {file' : ResolvedFile} {job' : CompilationJob}
    (mem' : file' ∈ graph'.files)
    (createdJob' : createCompilationJobFromFile env.semver env.solidity graph' file' = .ok job') :
    needsCompilation job' (invalidateCacheMissingArtifacts buildState.solidityFilesCache
        buildState.artifacts graph'.getResolvedFiles) = true ↔
      ∃ sourceName ∈ graph'.transitiveClosure file'.sourceName,
        contentChanged graph graph' sourceName = true := by
  have closureMem : ∀ dependency, dependency ∈ graph'.closureFiles file' ↔
      dependency ∈ graph'.files ∧ dependency.sourceName ∈ graph'.transitiveClosure file'.sourceName :=
    fun _ => by simp [DependencyGraph.closureFiles]
  rw [needsCompilation, List.any_eq_true, getResolvedFiles_of_createCompilationJobFromFile createdJob']
  constructor
  · rintro ⟨dependency, dependencyMem, changed⟩
    by_contra unchanged
    simp only [not_exists, not_and, Bool.not_eq_true] at unchanged
    obtain ⟨dependencyGraphMem, inClosure⟩ := (closureMem dependency).mp dependencyMem
    obtain ⟨previous, previousMem, sameName, job, entry, createdJob, found, sameHash, sameConfig⟩ :=
      current.getEntry_invalidateCacheMissingArtifacts_of_keys_eq created created' sameNames dependencyGraphMem
    have sameContentHash : previous.contentHash = dependency.contentHash := by
      simpa [contentChanged_of_mem previousMem dependencyGraphMem sameName] using
        unchanged _ inClosure
    refine absurd (SolidityFilesCache.hasFileChanged_eq_false.mpr ⟨entry, found,
      sameHash.trans sameContentHash, fun config given => ?_⟩) (by simpa using changed)
    split at given
    · rename_i emits
      rw [emitsArtifacts_of_createCompilationJobFromFile mem' createdJob', beq_iff_eq] at emits
      have isFile := DependencyGraph.eq_of_sourceName_eq dependencyGraphMem mem' emits
      subst isFile
      cases given
      exact (sameConfig.trans (getSolcConfig_eq_of_unchanged created created' sameNames
        hashInjective previousMem mem' sameName unchanged createdJob createdJob')).symm
    · cases given
  · rintro ⟨sourceName, inClosure, changed⟩
    have named : sourceName ∈ graph'.sourceNames := DependencyGraph.mem_sourceNames_of_reaches
      (DependencyGraph.mem_sourceNames.mpr ⟨file', mem', rfl⟩)
      (DependencyGraph.reaches_of_mem_transitiveClosure inClosure)
    obtain ⟨dependency, dependencyMem, rfl⟩ := DependencyGraph.mem_sourceNames.mp named
    refine ⟨dependency, (closureMem dependency).mpr ⟨dependencyMem, inClosure⟩, ?_⟩
    obtain ⟨previous, previousMem, sameName, job, entry, -, found, sameHash, -⟩ :=
      current.getEntry_invalidateCacheMissingArtifacts_of_keys_eq created created' sameNames dependencyMem
    rw [contentChanged_of_mem previousMem dependencyMem sameName, bne_iff_ne] at changed
    rw [← Bool.not_eq_false]
    intro unchanged
    obtain ⟨entry', found', sameHash', -⟩ := SolidityFilesCache.hasFileChanged_eq_false.mp unchanged
    rw [found, Option.some.injEq] at found'
    subst found'
    exact changed (sameHash.symm.trans sameHash')

end NextRun

/-- Incremental invalidation is exact.  After a run that completes, a next run over the
    same source names and the same configuration, with the artifacts the first run left,
    keeps exactly the jobs of the files whose transitive closure holds a file whose
    content hash changed; when none changed, the compiler runs on no job at all. -/
theorem filterCompilationJobs_after_completed_run
    (hashInjective : Function.Injective env.reader.hash)
    (keyed : WellKeyed env.projectRoot buildState.solidityFilesCache)
    (completed : (compileSolidity env sources buildState force).result = .ok ())
    {dependencyGraph : DependencyGraph}
    (graph : createDependencyGraph env.reader env.projectRoot sources = .ok dependencyGraph)
    {sources' : AList fun _ : String => ProjectFile} (sameNames : sources'.keys = sources.keys)
    {plan' : CompilationPlan}
    (planned : planCompilation env sources' (compileSolidity env sources buildState force).buildState
      false = .ok plan') :
    (∀ job, job ∈ plan'.filteredCompilationJobs ↔
      ∃ file ∈ plan'.dependencyGraph.files,
        createCompilationJobFromFile env.semver env.solidity plan'.dependencyGraph file = .ok job ∧
        ∃ sourceName ∈ plan'.dependencyGraph.transitiveClosure file.sourceName,
          contentChanged dependencyGraph plan'.dependencyGraph sourceName = true) ∧
    ((∀ sourceName, contentChanged dependencyGraph plan'.dependencyGraph sourceName = false) →
      (compileSolidity env sources' (compileSolidity env sources buildState force).buildState
        false).compiledJobs = []) := by
  obtain ⟨plan, emitted, run⟩ := completedRun_of_ok completed
  have sameGraph : plan.dependencyGraph = dependencyGraph := by
    have first := run.planned.graph
    rw [graph] at first
    exact (Except.ok.inj first).symm
  have current := sameGraph ▸ run.cacheCurrent keyed
  have next := planned_of_planCompilation planned
  have kept : ∀ job, job ∈ plan'.filteredCompilationJobs ↔
      ∃ file ∈ plan'.dependencyGraph.files,
        createCompilationJobFromFile env.semver env.solidity plan'.dependencyGraph file = .ok job ∧
        ∃ sourceName ∈ plan'.dependencyGraph.transitiveClosure file.sourceName,
          contentChanged dependencyGraph plan'.dependencyGraph sourceName = true := by
    intro job
    rw [next.filtered, next.jobs, next.cache, filterCompilationJobs, if_neg Bool.false_ne_true,
      List.mem_filter, mem_getCompilationJobs_jobs]
    constructor
    · rintro ⟨⟨file, mem, createdJob⟩, needed⟩
      exact ⟨file, mem, createdJob, (needsCompilation_eq_true_iff graph next.graph sameNames
        hashInjective current mem createdJob).mp needed⟩
    · rintro ⟨file, mem, createdJob, changed⟩
      exact ⟨⟨file, mem, createdJob⟩, (needsCompilation_eq_true_iff graph next.graph sameNames
        hashInjective current mem createdJob).mpr changed⟩
  refine ⟨kept, fun unchanged => ?_⟩
  have noJobs : plan'.filteredCompilationJobs = [] :=
    List.eq_nil_iff_forall_not_mem.mpr fun job mem => by
      obtain ⟨_, _, _, sourceName, _, changed⟩ := (kept job).mp mem
      rw [unchanged sourceName] at changed
      cases changed
  rw [compileSolidity_compiledJobs planned, next.merged, noJobs]
  rfl

/-- The first build of the two-file project. -/
def exampleFirstBuild : CompileSolidityResult :=
  compileSolidity exampleEnvironment exampleSources emptyBuildState false

/-- The two-file project after `B` was rewritten to import nothing. -/
def exampleEditedSources : AList fun _ : String => ProjectFile :=
  ⟨[⟨"A", ⟨"a0", 0⟩⟩, ⟨"B", ⟨"b1", 1⟩⟩], show List.Nodup ["A", "B"] by decide⟩

example : (compileSolidity exampleEnvironment exampleSources exampleFirstBuild.buildState
    false).compiledJobs = [] := by
  rfl

/-- Only the job of `B` is kept: `A` is unchanged and its closure holds nothing else. -/
example :
    (planCompilation exampleEnvironment exampleEditedSources exampleFirstBuild.buildState
      false).toOption.map (fun plan => plan.filteredCompilationJobs.map (·.sourceNames)) =
      some [["B"]] := by
  rfl

theorem editingB_recompiles_only_B :
    ∃ dependencyGraph plan',
      createDependencyGraph exampleEnvironment.reader exampleEnvironment.projectRoot exampleSources =
        .ok dependencyGraph ∧
      planCompilation exampleEnvironment exampleEditedSources exampleFirstBuild.buildState false =
        .ok plan' ∧
      (∀ job, job ∈ plan'.filteredCompilationJobs ↔
        ∃ file ∈ plan'.dependencyGraph.files,
          createCompilationJobFromFile exampleEnvironment.semver exampleEnvironment.solidity
            plan'.dependencyGraph file = .ok job ∧
          ∃ sourceName ∈ plan'.dependencyGraph.transitiveClosure file.sourceName,
            contentChanged dependencyGraph plan'.dependencyGraph sourceName = true) ∧
      ((∀ sourceName, contentChanged dependencyGraph plan'.dependencyGraph sourceName = false) →
        (compileSolidity exampleEnvironment exampleEditedSources exampleFirstBuild.buildState
          false).compiledJobs = []) :=
  ⟨_, _, rfl, rfl, filterCompilationJobs_after_completed_run Function.injective_id
    (wellKeyed_createEmpty _) (by rfl) (by rfl) (by rfl) (by rfl)⟩

/-- The first build of the two-file project with its entry of `B` naming another source,
    `C`, at the path of `B`: a cache the task never writes. -/
def misKeyedBuildState : BuildState :=
  ⟨exampleFirstBuild.buildState.solidityFilesCache.addFile "/project/B"
    { entryOfB with sourceName := "C" }, exampleFirstBuild.buildState.artifacts⟩

theorem not_wellKeyed_misKeyedBuildState :
    ¬ WellKeyed exampleEnvironment.projectRoot misKeyedBuildState.solidityFilesCache := fun keyed =>
  absurd (keyed "/project/B" { entryOfB with sourceName := "C" } (by simp [misKeyedBuildState]))
    (by decide)

/-- The run from that cache compiles nothing, since the entry of `B` records its hash and
    configuration, and completes; it then keeps the artifacts the entries list by their
    own source names, so it deletes the artifact of `B`. -/
def misKeyedFirstBuild : CompileSolidityResult :=
  compileSolidity exampleEnvironment exampleSources misKeyedBuildState false

/-- Without a well-keyed cache, an unchanged project is compiled again: the run from the
    mis-keyed cache completes without compiling, and the next run over the same sources
    compiles the job of `B`, whose artifact the first run deleted. -/
theorem misKeyedCache_recompiles_unchanged_project :
    ¬ WellKeyed exampleEnvironment.projectRoot misKeyedBuildState.solidityFilesCache ∧
    misKeyedFirstBuild.result = .ok () ∧ misKeyedFirstBuild.compiledJobs = [] ∧
    misKeyedFirstBuild.buildState.artifacts.artifactExists ⟨"B", "B"⟩ = false ∧
    (compileSolidity exampleEnvironment exampleSources misKeyedFirstBuild.buildState
      false).compiledJobs.map (·.sourceNames) = [["A", "B"]] :=
  ⟨not_wellKeyed_misKeyedBuildState, rfl, rfl, rfl, rfl⟩

/-! ## Deleting the artifacts of a file -/

/-- The entry of a path lists at least one artifact. -/
def listsArtifact (cache : SolidityFilesCache) (absolutePath : String) : Bool :=
  (cache.getEntry absolutePath).any fun entry => entry.artifacts ≠ []

section Deletion

variable {graph : DependencyGraph}
  (created : createDependencyGraph env.reader env.projectRoot sources = .ok graph)
  (current : CacheCurrent env graph buildState) {file : ResolvedFile} (fileMem : file ∈ graph.files)
include created current fileMem

omit created in
/-- After the artifacts of `file` are deleted, the invalidation drops the entry of `file`
    when it lists an artifact, and no other entry. -/
theorem getEntry_invalidateCacheMissingArtifacts_deleteArtifactsOf (absolutePath : String) :
    (invalidateCacheMissingArtifacts buildState.solidityFilesCache
        (buildState.artifacts.deleteArtifactsOf file.sourceName) graph.getResolvedFiles).getEntry
        absolutePath =
      if absolutePath = file.absolutePath ∧
          listsArtifact buildState.solidityFilesCache file.absolutePath = true
      then none else buildState.solidityFilesCache.getEntry absolutePath := by
  obtain ⟨job, entry, -, found, -, -, -, existing⟩ := current file fileMem
  have dropped : (∃ other ∈ graph.getResolvedFiles, other.absolutePath = absolutePath ∧
      MissesArtifact buildState.solidityFilesCache
        (buildState.artifacts.deleteArtifactsOf file.sourceName) other) ↔
      absolutePath = file.absolutePath ∧
        listsArtifact buildState.solidityFilesCache file.absolutePath = true := by
    rw [listsArtifact, found]
    constructor
    · rintro ⟨other, otherMem, rfl, otherEntry, otherFound, contractName, contractMem, missing⟩
      obtain ⟨-, otherEntry', -, otherFound', -, -, -, otherExisting⟩ := current other otherMem
      rw [otherFound, Option.some.injEq] at otherFound'
      subst otherFound'
      by_cases same : other.sourceName = file.sourceName
      · have isFile := DependencyGraph.eq_of_sourceName_eq otherMem fileMem same
        subst isFile
        rw [found, Option.some.injEq] at otherFound
        subst otherFound
        exact ⟨rfl, by simpa using List.ne_nil_of_mem contractMem⟩
      · simp only [getFullyQualifiedName, Artifacts.artifactExists, Artifacts.saved_deleteArtifactsOf,
          same, if_false] at missing
        simp only [Artifacts.artifactExists] at otherExisting
        rw [otherExisting contractName contractMem] at missing
        cases missing
    · rintro ⟨rfl, listed⟩
      simp only [Option.any_some, decide_eq_true_eq] at listed
      obtain ⟨contractName, contractMem⟩ := List.exists_mem_of_ne_nil _ listed
      exact ⟨file, fileMem, rfl, entry, found, contractName, contractMem, by
        simp [getFullyQualifiedName, Artifacts.artifactExists]⟩
  split_ifs with deleted
  · exact getEntry_invalidateCacheMissingArtifacts_of_missesArtifact (dropped.mpr deleted)
  · exact getEntry_invalidateCacheMissingArtifacts_of_not_missesArtifact (mt dropped.mp deleted)

/-- After the artifacts of `file` are deleted, a file of a job counts as changed exactly
    when it is `file` and the entry of `file` listed an artifact. -/
theorem hasFileChanged_deleteArtifactsOf {other : ResolvedFile} {job : CompilationJob}
    (otherMem : other ∈ graph.files)
    (createdJob : createCompilationJobFromFile env.semver env.solidity graph other = .ok job)
    {dependency : ResolvedFile} (dependencyMem : dependency ∈ graph.files) :
    (invalidateCacheMissingArtifacts buildState.solidityFilesCache
        (buildState.artifacts.deleteArtifactsOf file.sourceName) graph.getResolvedFiles).hasFileChanged
        dependency.absolutePath dependency.contentHash
        (if job.emitsArtifacts dependency then some job.getSolcConfig else none) =
      (decide (dependency = file) && listsArtifact buildState.solidityFilesCache file.absolutePath) := by
  obtain ⟨dependencyJob, entry, dependencyCreated, found, sameHash, -, sameConfig, -⟩ :=
    current dependency dependencyMem
  have configured : ∀ config, (if job.emitsArtifacts dependency then some job.getSolcConfig
      else none) = some config → config = entry.solcConfig := by
    intro config given
    split at given
    · rename_i emits
      rw [emitsArtifacts_of_createCompilationJobFromFile otherMem createdJob, beq_iff_eq] at emits
      have isOther := DependencyGraph.eq_of_sourceName_eq dependencyMem otherMem emits
      subst isOther
      rw [dependencyCreated] at createdJob
      cases createdJob
      cases given
      exact sameConfig.symm
    · cases given
  have kept : ¬ (dependency.absolutePath = file.absolutePath ∧
      listsArtifact buildState.solidityFilesCache file.absolutePath = true) →
      (invalidateCacheMissingArtifacts buildState.solidityFilesCache
        (buildState.artifacts.deleteArtifactsOf file.sourceName) graph.getResolvedFiles).hasFileChanged
        dependency.absolutePath dependency.contentHash
        (if job.emitsArtifacts dependency then some job.getSolcConfig else none) = false :=
    fun notDropped => SolidityFilesCache.hasFileChanged_eq_false.mpr ⟨entry, by
      rw [getEntry_invalidateCacheMissingArtifacts_deleteArtifactsOf current fileMem, if_neg notDropped,
        found], sameHash, configured⟩
  by_cases same : dependency = file
  · subst same
    cases listed : listsArtifact buildState.solidityFilesCache dependency.absolutePath
    · simpa using kept (by simp [listed])
    · rw [SolidityFilesCache.hasFileChanged,
        getEntry_invalidateCacheMissingArtifacts_deleteArtifactsOf current fileMem, if_pos ⟨rfl, listed⟩]
      simp
  · have differs : dependency.absolutePath ≠ file.absolutePath := fun samePath =>
      same (DependencyGraph.eq_of_sourceName_eq dependencyMem fileMem
        (absolutePathOf_injective env.projectRoot (by
          rw [← absolutePath_of_mem_createDependencyGraph created dependencyMem,
            ← absolutePath_of_mem_createDependencyGraph created fileMem, samePath])))
    simpa [same] using kept fun dropped => differs dropped.1

/-- After the artifacts of `file` are deleted, a job needs compilation exactly when the
    entry of `file` listed an artifact and `file` is in the job's closure. -/
theorem needsCompilation_deleteArtifactsOf {other : ResolvedFile} {job : CompilationJob}
    (otherMem : other ∈ graph.files)
    (createdJob : createCompilationJobFromFile env.semver env.solidity graph other = .ok job) :
    needsCompilation job (invalidateCacheMissingArtifacts buildState.solidityFilesCache
        (buildState.artifacts.deleteArtifactsOf file.sourceName) graph.getResolvedFiles) =
      (listsArtifact buildState.solidityFilesCache file.absolutePath &&
        decide (file.sourceName ∈ graph.transitiveClosure other.sourceName)) := by
  have files : job.getResolvedFiles = graph.closureFiles other := by
    simp [CompilationJob.getResolvedFiles, (createCompilationJobFromFile_eq_ok createdJob).2,
      List.map_map, Function.comp_def]
  have closureMem : ∀ dependency, dependency ∈ graph.closureFiles other ↔
      dependency ∈ graph.files ∧ dependency.sourceName ∈ graph.transitiveClosure other.sourceName :=
    fun _ => by simp [DependencyGraph.closureFiles]
  rw [Bool.eq_iff_iff, needsCompilation, List.any_eq_true, files, Bool.and_eq_true,
    decide_eq_true_eq]
  constructor
  · rintro ⟨dependency, dependencyMem, changed⟩
    rw [hasFileChanged_deleteArtifactsOf created current fileMem otherMem createdJob
      ((closureMem dependency).mp dependencyMem).1, Bool.and_eq_true, decide_eq_true_eq] at changed
    obtain ⟨rfl, listed⟩ := changed
    exact ⟨listed, ((closureMem _).mp dependencyMem).2⟩
  · rintro ⟨listed, inClosure⟩
    refine ⟨file, (closureMem file).mpr ⟨fileMem, inClosure⟩, ?_⟩
    rw [hasFileChanged_deleteArtifactsOf created current fileMem otherMem createdJob fileMem, listed]
    simp

end Deletion

/-- Deleting the artifacts of `A` in the two-file project, where `B` imports `A`: the
    next run keeps the job of `A` and the job of `B`, whose closure holds `A`.  After the
    first build from the mis-keyed cache, the next run also drops the entry of `B`,
    whose artifact that build deleted. -/
theorem deletingArtifactsOfA_recompiles_B :
    (exampleFirstBuild.result = .ok () ∧
      (planCompilation exampleEnvironment exampleSources
        ⟨exampleFirstBuild.buildState.solidityFilesCache,
          exampleFirstBuild.buildState.artifacts.deleteArtifactsOf "A"⟩ false).toOption.map
        (fun plan => plan.filteredCompilationJobs.map (·.sourceNames)) = some [["A"], ["A", "B"]]) ∧
    (¬ WellKeyed exampleEnvironment.projectRoot misKeyedBuildState.solidityFilesCache ∧
      misKeyedFirstBuild.result = .ok () ∧
      misKeyedFirstBuild.buildState.solidityFilesCache.getEntry "/project/B" =
        some { entryOfB with sourceName := "C" } ∧
      (planCompilation exampleEnvironment exampleSources
        ⟨misKeyedFirstBuild.buildState.solidityFilesCache,
          misKeyedFirstBuild.buildState.artifacts.deleteArtifactsOf "A"⟩ false).toOption.map
        (fun plan => plan.solidityFilesCache.getEntry "/project/B") = some none) :=
  ⟨⟨rfl, rfl⟩, not_wellKeyed_misKeyedBuildState, rfl, rfl, rfl⟩

/-- Deleting the artifacts of a file recompiles the files that include it.  After a run
    that completes, delete the artifacts of one file and run again with nothing else
    changed: the invalidation drops the entry of that file when it lists an artifact,
    and no other entry; the jobs kept are then the jobs of every file whose transitive
    closure holds that file, and none when its entry listed no artifact. -/
theorem filterCompilationJobs_after_deleting_artifacts
    (keyed : WellKeyed env.projectRoot buildState.solidityFilesCache)
    (completed : (compileSolidity env sources buildState force).result = .ok ())
    {dependencyGraph : DependencyGraph}
    (graph : createDependencyGraph env.reader env.projectRoot sources = .ok dependencyGraph)
    {file : ResolvedFile} (fileMem : file ∈ dependencyGraph.files) {plan' : CompilationPlan}
    (planned : planCompilation env sources
      ⟨(compileSolidity env sources buildState force).buildState.solidityFilesCache,
        (compileSolidity env sources buildState force).buildState.artifacts.deleteArtifactsOf
          file.sourceName⟩ false = .ok plan') :
    let after := (compileSolidity env sources buildState force).buildState
    (∀ absolutePath, plan'.solidityFilesCache.getEntry absolutePath =
      if absolutePath = file.absolutePath ∧
          listsArtifact after.solidityFilesCache file.absolutePath = true
      then none else after.solidityFilesCache.getEntry absolutePath) ∧
    ∀ job, job ∈ plan'.filteredCompilationJobs ↔
      listsArtifact after.solidityFilesCache file.absolutePath = true ∧
        ∃ other ∈ dependencyGraph.files,
          createCompilationJobFromFile env.semver env.solidity dependencyGraph other = .ok job ∧
          file.sourceName ∈ dependencyGraph.transitiveClosure other.sourceName := by
  intro after
  obtain ⟨plan, emitted, run⟩ := completedRun_of_ok completed
  have sameGraph : plan.dependencyGraph = dependencyGraph := by
    have first := run.planned.graph
    rw [graph] at first
    exact (Except.ok.inj first).symm
  have current : CacheCurrent env dependencyGraph after := sameGraph ▸ run.cacheCurrent keyed
  have next := planned_of_planCompilation planned
  have sameGraph' : plan'.dependencyGraph = dependencyGraph := by
    have second := next.graph
    rw [graph] at second
    exact (Except.ok.inj second).symm
  refine ⟨fun absolutePath => ?_, fun job => ?_⟩
  · rw [next.cache, sameGraph']
    exact getEntry_invalidateCacheMissingArtifacts_deleteArtifactsOf current fileMem absolutePath
  · rw [next.filtered, next.jobs, next.cache, sameGraph', filterCompilationJobs,
      if_neg Bool.false_ne_true, List.mem_filter, mem_getCompilationJobs_jobs]
    constructor
    · rintro ⟨⟨other, otherMem, createdJob⟩, needed⟩
      rw [needsCompilation_deleteArtifactsOf graph current fileMem otherMem createdJob,
        Bool.and_eq_true, decide_eq_true_eq] at needed
      exact ⟨needed.1, other, otherMem, createdJob, needed.2⟩
    · rintro ⟨listed, other, otherMem, createdJob, inClosure⟩
      refine ⟨⟨other, otherMem, createdJob⟩, ?_⟩
      rw [needsCompilation_deleteArtifactsOf graph current fileMem otherMem createdJob, listed]
      simpa using inClosure

/-- The resolved file `A` of the two-file project. -/
def exampleFileA : ResolvedFile := exampleReader.resolveFile "/project" "A" ⟨"a0", 0⟩

theorem deletingArtifactsOfA_recompiles_closure :
    ∃ dependencyGraph plan',
      createDependencyGraph exampleEnvironment.reader exampleEnvironment.projectRoot exampleSources =
        .ok dependencyGraph ∧ exampleFileA ∈ dependencyGraph.files ∧
      planCompilation exampleEnvironment exampleSources
        ⟨exampleFirstBuild.buildState.solidityFilesCache,
          exampleFirstBuild.buildState.artifacts.deleteArtifactsOf exampleFileA.sourceName⟩ false =
        .ok plan' ∧
      let after := exampleFirstBuild.buildState
      (∀ absolutePath, plan'.solidityFilesCache.getEntry absolutePath =
        if absolutePath = exampleFileA.absolutePath ∧
            listsArtifact after.solidityFilesCache exampleFileA.absolutePath = true
        then none else after.solidityFilesCache.getEntry absolutePath) ∧
      ∀ job, job ∈ plan'.filteredCompilationJobs ↔
        listsArtifact after.solidityFilesCache exampleFileA.absolutePath = true ∧
          ∃ other ∈ dependencyGraph.files,
            createCompilationJobFromFile exampleEnvironment.semver exampleEnvironment.solidity
              dependencyGraph other = .ok job ∧
            exampleFileA.sourceName ∈ dependencyGraph.transitiveClosure other.sourceName :=
  ⟨_, _, rfl, by decide, rfl, filterCompilationJobs_after_deleting_artifacts
    (wellKeyed_createEmpty _) (by rfl) (by rfl) (by decide) (by rfl)⟩

end Hardhat.Compile
