import Hardhat.Compile.CompilationJob

namespace Hardhat.Compile

/-! # Job planning

`TASK_COMPILE_SOLIDITY_GET_COMPILATION_JOBS` splits the dependency graph in its connected
components and asks `createCompilationJobFromFile` for the job of every file of each.  That function is not in `src/`
and is modelled from the spec (§4.4 steps A and B): the file's compiler is its
override, or the configured compiler of the newest version that satisfies the
pragmas of the file and of its transitive dependencies; its job compiles the file
and its transitive dependencies and emits the artifacts of the file only.

The compiler chosen for a file depends on nothing but its source name, its pragmas
and those of its transitive dependencies (`getCompilerConfigForFile_eq_ok`).  The
components only decide the order of the jobs and of the errors: `getCompilationJobs_perm`
says that they are those of the files of the graph, in another order.
-/

/-- Modelled from the spec: the semantic-versioning functions the planner and the
    compile loop call (`semver.compare`, `semver.satisfies`, `semver.intersects`), a
    version range being given by its pragmas. -/
structure Semver where
  compare : String → String → Ordering
  satisfies : String → List String → Bool
  intersects : List String → List String → Bool

namespace Semver

/-- `semver.lt`. -/
def lt (semver : Semver) (version other : String) : Bool :=
  semver.compare version other == .lt

/-- `semver.maxSatisfying`: the newest of `versions` that satisfies the range, the
    first of them among equal versions. -/
def maxSatisfying (semver : Semver) (versions : List String) (versionRange : List String) :
    Option String :=
  versions.foldl (fun newest version =>
    if semver.satisfies version versionRange then
      match newest with
      | some best => if semver.compare version best = .gt then some version else newest
      | none => some version
    else newest) none

end Semver

section Planning

variable (semver : Semver) (solidity : SolidityConfig)

/-- The compiler the configuration chooses for a source name with these pragmas,
    whose transitive dependencies give this version range. -/
def chosenCompiler (sourceName : String) (versionPragmas versionRange : List String) :
    Option SolcConfig :=
  match solidity.overrides.lookup sourceName with
  | some overriddenCompiler =>
      if semver.satisfies overriddenCompiler.version versionPragmas then some overriddenCompiler
      else none
  | none =>
      (semver.maxSatisfying (solidity.compilers.map (·.version)) versionRange).bind
        fun matchingVersion => solidity.compilers.find? (·.version == matchingVersion)

/-- Modelled from the spec: the planning error of a file (§4.4 step A): an override
    its pragmas reject, a direct import and then a transitive dependency whose pragmas
    do not intersect the file's, or else no configured compiler. -/
def getCompilationJobCreationError (file : ResolvedFile)
    (directDependencies transitiveDependencies : List ResolvedFile) :
    CompilationJobCreationError :=
  let incompatible := fun dependency : ResolvedFile =>
    !semver.intersects file.content.versionPragmas dependency.content.versionPragmas
  if (solidity.overrides.lookup file.sourceName).isSome then
    ⟨.incompatibleOverridenSolcVersion, file⟩
  else if directDependencies.any incompatible then ⟨.directlyImportsIncompatibleFile, file⟩
  else if transitiveDependencies.any incompatible then ⟨.indirectlyImportsIncompatibleFile, file⟩
  else ⟨.noCompatibleSolcVersionFound, file⟩

/-- The pragmas of a file and of its transitive dependencies. -/
def versionRangeFor (file : ResolvedFile) (transitiveDependencies : List ResolvedFile) :
    List String :=
  file.content.versionPragmas ++ transitiveDependencies.flatMap (·.content.versionPragmas)

/-- Modelled from the spec: `getCompilerConfigForFile` (§4.4 step A). -/
def getCompilerConfigForFile (file : ResolvedFile)
    (directDependencies transitiveDependencies : List ResolvedFile) :
    Except CompilationJobCreationError SolcConfig :=
  match chosenCompiler semver solidity file.sourceName file.content.versionPragmas
      (versionRangeFor file transitiveDependencies) with
  | some compilerConfig => .ok compilerConfig
  | none => .error
      (getCompilationJobCreationError semver solidity file directDependencies transitiveDependencies)

/-- Modelled from the spec: `createCompilationJobFromFile` (§4.4 step B). -/
def createCompilationJobFromFile (graph : DependencyGraph) (file : ResolvedFile) :
    Except CompilationJobCreationError CompilationJob :=
  let directDependencies := graph.getDependencies file
  let transitiveDependencies := graph.closureFiles file
  (getCompilerConfigForFile semver solidity file directDependencies transitiveDependencies).map
    fun compilerConfig =>
      { solidityConfig := compilerConfig
        filesToCompile := transitiveDependencies.map fun dependency =>
          (dependency, dependency.sourceName == file.sourceName)
        sourceNamesNodup := by
          simpa [List.map_map, Function.comp_def] using graph.closureFiles_sourceNames_nodup file }

/-- The planned jobs and the planning errors of a run. -/
structure CompilationJobsCreationResult where
  jobs : List CompilationJob
  errors : List CompilationJobCreationError

/-- Modelled from the spec: `createCompilationJobsFromConnectedComponent` (§4.4): the job,
    or the error, of every file of a component, each planned against the whole graph.
    The job of a file always emits the file, so the source's check that it does keeps
    every job. -/
def createCompilationJobsFromConnectedComponent (graph : DependencyGraph)
    (connectedComponent : List ResolvedFile) : CompilationJobsCreationResult where
  jobs := connectedComponent.filterMap fun file =>
    (createCompilationJobFromFile semver solidity graph file).toOption
  errors := connectedComponent.filterMap fun file =>
    match createCompilationJobFromFile semver solidity graph file with
    | .ok _ => none
    | .error error => some error

/-- `TASK_COMPILE_SOLIDITY_GET_COMPILATION_JOBS`: the jobs and the errors of every
    connected component of the graph, concatenated in the order of the components. -/
def getCompilationJobs (graph : DependencyGraph) : CompilationJobsCreationResult :=
  let compilationJobsCreationResults := graph.getConnectedComponents.map
    (createCompilationJobsFromConnectedComponent semver solidity graph)
  ⟨compilationJobsCreationResults.flatMap (·.jobs),
    compilationJobsCreationResults.flatMap (·.errors)⟩

variable {semver solidity}

theorem getCompilerConfigForFile_eq_ok {file : ResolvedFile}
    {directDependencies transitiveDependencies : List ResolvedFile} {compilerConfig : SolcConfig} :
    getCompilerConfigForFile semver solidity file directDependencies transitiveDependencies =
        .ok compilerConfig ↔
      chosenCompiler semver solidity file.sourceName file.content.versionPragmas
        (versionRangeFor file transitiveDependencies) = some compilerConfig := by
  unfold getCompilerConfigForFile
  split <;> simp_all

variable {graph : DependencyGraph} {file : ResolvedFile} {job : CompilationJob}

theorem createCompilationJobFromFile_eq_ok
    (created : createCompilationJobFromFile semver solidity graph file = .ok job) :
    chosenCompiler semver solidity file.sourceName file.content.versionPragmas
        (versionRangeFor file (graph.closureFiles file)) = some job.getSolcConfig ∧
      job.filesToCompile = (graph.closureFiles file).map fun dependency =>
        (dependency, dependency.sourceName == file.sourceName) := by
  unfold createCompilationJobFromFile at created
  cases configured : getCompilerConfigForFile semver solidity file (graph.getDependencies file)
      (graph.closureFiles file) with
  | error => simp [configured, Except.map] at created
  | ok compilerConfig =>
      simp only [configured, Except.map, Except.ok.injEq] at created
      subst created
      exact ⟨getCompilerConfigForFile_eq_ok.mp configured, rfl⟩

theorem drawnFrom_of_createCompilationJobFromFile
    (created : createCompilationJobFromFile semver solidity graph file = .ok job) :
    job.DrawnFrom graph.files := by
  intro entry mem
  rw [(createCompilationJobFromFile_eq_ok created).2] at mem
  obtain ⟨dependency, dependencyMem, rfl⟩ := List.mem_map.mp mem
  exact (List.mem_filter.mp dependencyMem).1

/-- The planned job of a file compiles the file's closure. -/
theorem getResolvedFiles_of_createCompilationJobFromFile
    (created : createCompilationJobFromFile semver solidity graph file = .ok job) :
    job.getResolvedFiles = graph.closureFiles file := by
  simp [CompilationJob.getResolvedFiles, (createCompilationJobFromFile_eq_ok created).2,
    Function.comp_def]

/-- The planned job of a file emits the artifacts of that file and of no other. -/
theorem emitsArtifacts_of_createCompilationJobFromFile (mem : file ∈ graph.files)
    (created : createCompilationJobFromFile semver solidity graph file = .ok job)
    (other : ResolvedFile) : job.emitsArtifacts other = (other.sourceName == file.sourceName) := by
  rw [CompilationJob.emitsArtifacts_eq_any, (createCompilationJobFromFile_eq_ok created).2]
  by_cases same : other.sourceName = file.sourceName
  · have fileMem : file ∈ graph.closureFiles file :=
      (DependencyGraph.mem_closureFiles mem).mpr ⟨mem, .refl⟩
    rw [same, beq_self_eq_true]
    exact List.any_eq_true.mpr ⟨(file, true), List.mem_map.mpr ⟨file, fileMem, by simp⟩, by simp⟩
  · have differs : (other.sourceName == file.sourceName) = false := by simpa using same
    rw [differs]
    refine List.any_eq_false.mpr fun entry entryMem marked => ?_
    obtain ⟨dependency, -, rfl⟩ := List.mem_map.mp entryMem
    simp only [Bool.and_eq_true, beq_iff_eq] at marked
    exact same (marked.1.symm.trans marked.2)

theorem sourceNames_of_createCompilationJobFromFile (mem : file ∈ graph.files)
    (created : createCompilationJobFromFile semver solidity graph file = .ok job) :
    job.sourceNames = graph.transitiveClosure file.sourceName := by
  rw [CompilationJob.sourceNames, (createCompilationJobFromFile_eq_ok created).2,
    DependencyGraph.transitiveClosure_eq_filter
      (DependencyGraph.mem_sourceNames.mpr ⟨file, mem, rfl⟩)]
  simp [List.map_map, Function.comp_def, DependencyGraph.closureFiles,
    DependencyGraph.sourceNames, List.filter_map]

@[simp] theorem getCompilationJobCreationError_file {file : ResolvedFile}
    {directDependencies transitiveDependencies : List ResolvedFile} :
    (getCompilationJobCreationError semver solidity file directDependencies
      transitiveDependencies).file = file := by
  unfold getCompilationJobCreationError
  dsimp only
  split_ifs <;> rfl

/-- A file whose job cannot be planned gets no compiler, and its error names it. -/
theorem createCompilationJobFromFile_eq_error {error : CompilationJobCreationError}
    (failed : createCompilationJobFromFile semver solidity graph file = .error error) :
    chosenCompiler semver solidity file.sourceName file.content.versionPragmas
        (versionRangeFor file (graph.closureFiles file)) = none ∧ error.file = file := by
  unfold createCompilationJobFromFile getCompilerConfigForFile at failed
  cases chosen : chosenCompiler semver solidity file.sourceName file.content.versionPragmas
      (versionRangeFor file (graph.closureFiles file)) with
  | some => simp [chosen, Except.map] at failed
  | none =>
      simp only [chosen, Except.map, Except.error.injEq] at failed
      exact ⟨rfl, failed ▸ getCompilationJobCreationError_file⟩

/-- Planning the components in turn plans the files of the flattened components in one
    pass. -/
theorem getCompilationJobs_eq :
    getCompilationJobs semver solidity graph = createCompilationJobsFromConnectedComponent
      semver solidity graph graph.getConnectedComponents.flatten := by
  simp only [getCompilationJobs, createCompilationJobsFromConnectedComponent,
    List.filterMap_flatten, List.flatMap_def, List.map_map]
  rfl

section Component

variable {files files' : List ResolvedFile}

theorem mem_createCompilationJobsFromConnectedComponent_jobs :
    job ∈ (createCompilationJobsFromConnectedComponent semver solidity graph files).jobs ↔
      ∃ file ∈ files, createCompilationJobFromFile semver solidity graph file = .ok job := by
  simp only [createCompilationJobsFromConnectedComponent, List.mem_filterMap]
  refine exists_congr fun file => and_congr_right fun _ => ?_
  cases createCompilationJobFromFile semver solidity graph file <;> simp [Except.toOption]

/-- The planning errors of a list of files name exactly the files for which the
    configuration chooses no compiler, in the order of the list. -/
theorem map_file_createCompilationJobsFromConnectedComponent_errors :
    (createCompilationJobsFromConnectedComponent semver solidity graph files).errors.map (·.file) =
      files.filter fun file => (chosenCompiler semver solidity file.sourceName
        file.content.versionPragmas (versionRangeFor file (graph.closureFiles file))).isNone := by
  induction files with
  | nil => rfl
  | cons file files induction =>
      simp only [createCompilationJobsFromConnectedComponent] at induction ⊢
      rw [List.filterMap_cons, List.filter_cons]
      cases created : createCompilationJobFromFile semver solidity graph file with
      | ok job => simp [(createCompilationJobFromFile_eq_ok created).1, induction]
      | error error =>
          obtain ⟨chosen, rfl⟩ := createCompilationJobFromFile_eq_error created
          simp [chosen, induction]

/-- Planning reorders nothing but the files: two orders of the same files give the same
    jobs and the same errors, in other orders. -/
theorem createCompilationJobsFromConnectedComponent_perm (perm : files.Perm files') :
    (createCompilationJobsFromConnectedComponent semver solidity graph files).jobs.Perm
        (createCompilationJobsFromConnectedComponent semver solidity graph files').jobs ∧
      (createCompilationJobsFromConnectedComponent semver solidity graph files).errors.Perm
        (createCompilationJobsFromConnectedComponent semver solidity graph files').errors :=
  ⟨perm.filterMap _, perm.filterMap _⟩

end Component

/-- The planned jobs and errors are those of the files of the graph, in the order of the
    connected components. -/
theorem getCompilationJobs_perm :
    (getCompilationJobs semver solidity graph).jobs.Perm
        (createCompilationJobsFromConnectedComponent semver solidity graph graph.files).jobs ∧
      (getCompilationJobs semver solidity graph).errors.Perm
        (createCompilationJobsFromConnectedComponent semver solidity graph graph.files).errors := by
  rw [getCompilationJobs_eq]
  exact createCompilationJobsFromConnectedComponent_perm graph.flatten_getConnectedComponents_perm

theorem mem_getCompilationJobs_jobs :
    job ∈ (getCompilationJobs semver solidity graph).jobs ↔
      ∃ file ∈ graph.files, createCompilationJobFromFile semver solidity graph file = .ok job := by
  rw [getCompilationJobs_perm.1.mem_iff, mem_createCompilationJobsFromConnectedComponent_jobs]

/-- The planning errors name exactly the files for which the configuration chooses no
    compiler, in the order of the connected components. -/
theorem map_file_getCompilationJobs_errors_perm :
    ((getCompilationJobs semver solidity graph).errors.map (·.file)).Perm
      (graph.files.filter fun file => (chosenCompiler semver solidity file.sourceName
        file.content.versionPragmas (versionRangeFor file (graph.closureFiles file))).isNone) := by
  rw [← map_file_createCompilationJobsFromConnectedComponent_errors]
  exact getCompilationJobs_perm.2.map _

theorem createCompilationJobFromFile_of_errors_eq_nil
    (noErrors : (getCompilationJobs semver solidity graph).errors = []) (mem : file ∈ graph.files) :
    ∃ job, createCompilationJobFromFile semver solidity graph file = .ok job := by
  have none := @map_file_getCompilationJobs_errors_perm semver solidity graph
  rw [noErrors, List.map_nil, List.nil_perm, List.filter_eq_nil_iff] at none
  cases created : createCompilationJobFromFile semver solidity graph file with
  | error error =>
      obtain ⟨chosen, -⟩ := createCompilationJobFromFile_eq_error created
      exact absurd (by simp [chosen]) (none file mem)
  | ok job => exact ⟨job, rfl⟩

end Planning

end Hardhat.Compile
