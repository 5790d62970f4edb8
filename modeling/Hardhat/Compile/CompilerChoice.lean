import Hardhat.Compile.Task

namespace Hardhat.Compile

/-! # The compiler a file gets

`TASK_COMPILE_SOLIDITY_GET_COMPILATION_JOB_FOR_FILE` plans the job of a file with
`createCompilationJobFromFile`.  A file with an override gets the override, provided it
satisfies the file's own version pragmas; the pragmas of the file's dependencies are not
consulted.  A file without an override gets the configured compiler whose version
`semver.maxSatisfying` picks for the pragmas of the file and of its transitive
dependencies.

Over a comparator that is a total preorder, `maxSatisfying` returns a version that
satisfies the range and that no satisfying version exceeds (`maxSatisfying_newest`), so
a file gets a compiler exactly when some configured compiler satisfies its range, and
then one of the newest (`createCompilationJobFromFile_chooses_newest`).  When no
override is configured and a version satisfies a list of pragmas exactly when it
satisfies each part, every file a planned job compiles has pragmas its version
satisfies (`planCompilation_compiles_compatible_files`).
-/

namespace Semver

variable {semver : Semver} {versionRange : List String}

/-- A version satisfies a list of pragmas exactly when it satisfies each part of it. -/
def Conjunctive (semver : Semver) : Prop :=
  ∀ version versionRange versionRange', semver.satisfies version (versionRange ++ versionRange') =
    (semver.satisfies version versionRange && semver.satisfies version versionRange')

/-- One step of the fold of `maxSatisfying`. -/
def maxSatisfyingStep (semver : Semver) (versionRange : List String) (newest : Option String)
    (version : String) : Option String :=
  if semver.satisfies version versionRange then
    match newest with
    | some best => if semver.compare version best = .gt then some version else newest
    | none => some version
  else newest

theorem maxSatisfyingStep_eq_none {newest : Option String} {version : String} :
    maxSatisfyingStep semver versionRange newest version = none ↔
      newest = none ∧ semver.satisfies version versionRange = false := by
  unfold maxSatisfyingStep
  cases newest <;> cases semver.satisfies version versionRange <;> simp
  split <;> simp

theorem foldl_maxSatisfyingStep_eq_none {versions : List String} {newest : Option String} :
    versions.foldl (maxSatisfyingStep semver versionRange) newest = none ↔
      newest = none ∧ ∀ version ∈ versions, semver.satisfies version versionRange = false := by
  induction versions generalizing newest with
  | nil => simp
  | cons version versions induction =>
      rw [List.foldl_cons, induction, maxSatisfyingStep_eq_none, List.forall_mem_cons, and_assoc]

@[simp] theorem maxSatisfyingStep_none {version : String} :
    maxSatisfyingStep semver versionRange none version =
      if semver.satisfies version versionRange then some version else none :=
  rfl

@[simp] theorem maxSatisfyingStep_some {best version : String} :
    maxSatisfyingStep semver versionRange (some best) version =
      if semver.satisfies version versionRange ∧ semver.compare version best = .gt then some version
      else some best := by
  unfold maxSatisfyingStep
  by_cases satisfied : semver.satisfies version versionRange <;> simp [satisfied]

/-- A step keeps the version it started from or takes a satisfying one. -/
theorem maxSatisfyingStep_eq_some {newest : Option String} {version chosen : String}
    (found : maxSatisfyingStep semver versionRange newest version = some chosen) :
    newest = some chosen ∨ chosen = version ∧ semver.satisfies version versionRange = true := by
  cases newest with
  | none =>
      rw [maxSatisfyingStep_none] at found
      split_ifs at found with satisfied
      exact .inr ⟨(Option.some.inj found).symm, satisfied⟩
  | some best =>
      rw [maxSatisfyingStep_some] at found
      split_ifs at found with newer
      · exact .inr ⟨(Option.some.inj found).symm, newer.1⟩
      · exact .inl found

/-- The fold keeps the version it started from or a satisfying version of the list. -/
theorem foldl_maxSatisfyingStep_mem {versions : List String} {newest : Option String}
    {chosen : String}
    (found : versions.foldl (maxSatisfyingStep semver versionRange) newest = some chosen) :
    newest = some chosen ∨ chosen ∈ versions ∧ semver.satisfies chosen versionRange = true := by
  induction versions generalizing newest with
  | nil => exact .inl found
  | cons version versions induction =>
      rcases induction found with same | ⟨mem, satisfied⟩
      · rcases maxSatisfyingStep_eq_some same with same | ⟨rfl, satisfied⟩
        · exact .inl same
        · exact .inr ⟨List.mem_cons_self _ _, satisfied⟩
      · exact .inr ⟨List.mem_cons_of_mem _ mem, satisfied⟩

section Newest

variable (totalPreorder : semver.TotalPreorder)
include totalPreorder

/-- A step keeps a version that neither the version it read, when that satisfies the
    range, nor the version it started from exceeds. -/
theorem maxSatisfyingStep_bound {newest : Option String} {version chosen : String}
    (stepped : maxSatisfyingStep semver versionRange newest version = some chosen) :
    (semver.satisfies version versionRange = true → semver.compare version chosen ≠ .gt) ∧
      ∀ best, newest = some best → semver.compare best chosen ≠ .gt := by
  cases newest with
  | none =>
      rw [maxSatisfyingStep_none] at stepped
      split_ifs at stepped
      cases stepped
      exact ⟨fun _ => totalPreorder.refl _, nofun⟩
  | some best =>
      rw [maxSatisfyingStep_some] at stepped
      split_ifs at stepped with newer <;> cases stepped
      · refine ⟨fun _ => totalPreorder.refl _, fun _ same => ?_⟩
        cases same
        rw [← totalPreorder.swap, newer.2]
        decide
      · exact ⟨fun satisfied greater => newer ⟨satisfied, greater⟩,
          fun _ same => Option.some.inj same ▸ totalPreorder.refl _⟩

/-- No satisfying version of the list, and not the version the fold started from,
    exceeds the version it keeps. -/
theorem foldl_maxSatisfyingStep_bound {versions : List String} {newest : Option String}
    {chosen : String}
    (found : versions.foldl (maxSatisfyingStep semver versionRange) newest = some chosen) :
    (∀ version ∈ versions, semver.satisfies version versionRange = true →
        semver.compare version chosen ≠ .gt) ∧
      ∀ best, newest = some best → semver.compare best chosen ≠ .gt := by
  induction versions generalizing newest with
  | nil =>
      cases found
      exact ⟨nofun, fun _ same => Option.some.inj same ▸ totalPreorder.refl _⟩
  | cons version versions induction =>
      obtain ⟨bound, earlier⟩ := induction found
      cases stepped : maxSatisfyingStep semver versionRange newest version with
      | none =>
          obtain ⟨rfl, unsatisfied⟩ := maxSatisfyingStep_eq_none.mp stepped
          refine ⟨?_, nofun⟩
          rintro other (_ | ⟨_, mem⟩) satisfied
          · exact absurd satisfied (by simp [unsatisfied])
          · exact bound other mem satisfied
      | some kept =>
          have below := earlier kept stepped
          obtain ⟨versionBelow, bestBelow⟩ := maxSatisfyingStep_bound totalPreorder stepped
          refine ⟨?_, fun best same => totalPreorder.trans _ _ _ (bestBelow best same) below⟩
          rintro other (_ | ⟨_, mem⟩) satisfied
          · exact totalPreorder.trans _ _ _ (versionBelow satisfied) below
          · exact bound other mem satisfied

/-- `semver.maxSatisfying` returns a version of the list that satisfies the range and
    that no satisfying version of the list exceeds. -/
theorem maxSatisfying_newest {versions : List String} {chosen : String}
    (found : semver.maxSatisfying versions versionRange = some chosen) :
    chosen ∈ versions ∧ semver.satisfies chosen versionRange = true ∧
      ∀ version ∈ versions, semver.satisfies version versionRange = true →
        semver.compare version chosen ≠ .gt := by
  obtain ⟨mem, satisfied⟩ := (foldl_maxSatisfyingStep_mem found).resolve_left nofun
  exact ⟨mem, satisfied, (foldl_maxSatisfyingStep_bound totalPreorder found).1⟩

end Newest

end Semver

section Planning

variable {semver : Semver} {solidity : SolidityConfig} {graph : DependencyGraph}
  {file : ResolvedFile}

theorem exists_createCompilationJobFromFile_iff :
    (∃ job, createCompilationJobFromFile semver solidity graph file = .ok job) ↔
      ∃ compilerConfig, chosenCompiler semver solidity file.sourceName file.content.versionPragmas
        (versionRangeFor file (graph.closureFiles file)) = some compilerConfig := by
  constructor
  · rintro ⟨job, created⟩
    exact ⟨_, (createCompilationJobFromFile_eq_ok created).1⟩
  · rintro ⟨compilerConfig, chosen⟩
    cases created : createCompilationJobFromFile semver solidity graph file with
    | ok job => exact ⟨job, rfl⟩
    | error => simp [(createCompilationJobFromFile_eq_error created).1] at chosen

/-- Without an override, a file gets a compiler exactly when a configured compiler
    satisfies its range. -/
theorem exists_chosenCompiler_iff {sourceName : String} {versionPragmas versionRange : List String}
    (noOverride : solidity.overrides.lookup sourceName = none) :
    (∃ compilerConfig,
        chosenCompiler semver solidity sourceName versionPragmas versionRange = some compilerConfig) ↔
      ∃ compiler ∈ solidity.compilers, semver.satisfies compiler.version versionRange = true := by
  rw [chosenCompiler, noOverride]
  constructor
  · rintro ⟨compilerConfig, chosen⟩
    obtain ⟨version, found, -⟩ := Option.bind_eq_some.mp chosen
    obtain ⟨member, satisfied⟩ := (Semver.foldl_maxSatisfyingStep_mem found).resolve_left nofun
    obtain ⟨compiler, mem, rfl⟩ := List.mem_map.mp member
    exact ⟨compiler, mem, satisfied⟩
  · rintro ⟨compiler, mem, satisfied⟩
    cases found : semver.maxSatisfying (solidity.compilers.map (·.version)) versionRange with
    | none =>
        have := (Semver.foldl_maxSatisfyingStep_eq_none.mp found).2 _ (List.mem_map_of_mem _ mem)
        simp [satisfied] at this
    | some version =>
        obtain ⟨configured, configuredMem, rfl⟩ :=
          List.mem_map.mp ((Semver.foldl_maxSatisfyingStep_mem found).resolve_left nofun).1
        cases listed : solidity.compilers.find? (·.version == configured.version) with
        | none => exact absurd (beq_self_eq_true _) (List.find?_eq_none.mp listed configured configuredMem)
        | some compilerConfig => exact ⟨compilerConfig, by simp [listed]⟩

/-- The compiler a file gets.  Without an override, the file gets a job exactly when a
    configured compiler satisfies the pragmas of the file and of its transitive
    dependencies, and the job's compiler is a configured compiler of a version no other
    satisfying configured compiler exceeds.  With an override, the file gets a job
    exactly when the override satisfies the file's own pragmas, and the job uses the
    override. -/
theorem createCompilationJobFromFile_chooses_newest (totalPreorder : semver.TotalPreorder)
    (graph : DependencyGraph) (file : ResolvedFile) :
    (solidity.overrides.lookup file.sourceName = none →
      ((∃ job, createCompilationJobFromFile semver solidity graph file = .ok job) ↔
        ∃ compiler ∈ solidity.compilers,
          semver.satisfies compiler.version (versionRangeFor file (graph.closureFiles file)) = true) ∧
      ∀ job, createCompilationJobFromFile semver solidity graph file = .ok job →
        job.getSolcConfig ∈ solidity.compilers ∧
        semver.satisfies job.getSolcConfig.version (versionRangeFor file (graph.closureFiles file)) =
          true ∧
        ∀ compiler ∈ solidity.compilers,
          semver.satisfies compiler.version (versionRangeFor file (graph.closureFiles file)) = true →
          semver.compare compiler.version job.getSolcConfig.version ≠ .gt) ∧
    ∀ override, solidity.overrides.lookup file.sourceName = some override →
      ((∃ job, createCompilationJobFromFile semver solidity graph file = .ok job) ↔
        semver.satisfies override.version file.content.versionPragmas = true) ∧
      ∀ job, createCompilationJobFromFile semver solidity graph file = .ok job →
        job.getSolcConfig = override := by
  refine ⟨fun noOverride => ⟨exists_createCompilationJobFromFile_iff.trans
      (exists_chosenCompiler_iff noOverride), fun job created => ?_⟩,
    fun override overridden => ⟨?_, fun job created => ?_⟩⟩
  · have chosen := (createCompilationJobFromFile_eq_ok created).1
    rw [chosenCompiler, noOverride] at chosen
    obtain ⟨version, found, listed⟩ := Option.bind_eq_some.mp chosen
    obtain ⟨-, satisfied, newest⟩ := Semver.maxSatisfying_newest totalPreorder found
    have sameVersion : job.getSolcConfig.version = version := by
      simpa using List.find?_some listed
    rw [sameVersion]
    exact ⟨List.mem_of_find?_eq_some listed, satisfied,
      fun compiler member => newest _ (List.mem_map_of_mem _ member)⟩
  · rw [exists_createCompilationJobFromFile_iff, chosenCompiler, overridden]
    dsimp only
    split_ifs with satisfied <;> simp [satisfied]
  · have chosen := (createCompilationJobFromFile_eq_ok created).1
    rw [chosenCompiler, overridden] at chosen
    dsimp only at chosen
    split_ifs at chosen
    exact (Option.some.inj chosen).symm

section Compatible

variable (conjunctive : semver.Conjunctive)
include conjunctive

/-- A version satisfying the pragmas of a file and of its transitive dependencies
    satisfies those of each of them. -/
theorem satisfies_of_versionRangeFor {version : String} {dependencies : List ResolvedFile}
    (satisfied : semver.satisfies version (versionRangeFor file dependencies) = true) :
    semver.satisfies version file.content.versionPragmas = true ∧
      ∀ dependency ∈ dependencies,
        semver.satisfies version dependency.content.versionPragmas = true := by
  rw [versionRangeFor, conjunctive, Bool.and_eq_true] at satisfied
  refine ⟨satisfied.1, ?_⟩
  have each := satisfied.2
  clear satisfied
  induction dependencies with
  | nil => nofun
  | cons dependency dependencies induction =>
      rw [List.flatMap_cons, conjunctive, Bool.and_eq_true] at each
      rintro other (_ | ⟨_, mem⟩)
      · exact each.1
      · exact induction each.2 other mem

/-- Without an override, the job planned for a file compiles only files whose pragmas its
    version satisfies. -/
theorem satisfies_of_createCompilationJobFromFile {job : CompilationJob}
    (noOverride : solidity.overrides.lookup file.sourceName = none)
    (created : createCompilationJobFromFile semver solidity graph file = .ok job) :
    ∀ input ∈ job.getResolvedFiles,
      semver.satisfies job.getSolcConfig.version input.content.versionPragmas = true := by
  have chosen := (createCompilationJobFromFile_eq_ok created).1
  rw [chosenCompiler, noOverride] at chosen
  obtain ⟨version, found, listed⟩ := Option.bind_eq_some.mp chosen
  have sameVersion : job.getSolcConfig.version = version := by
    simpa using List.find?_some listed
  have satisfied := (Semver.foldl_maxSatisfyingStep_mem found).resolve_left nofun |>.2
  rw [getResolvedFiles_of_createCompilationJobFromFile created, sameVersion]
  exact (satisfies_of_versionRangeFor conjunctive satisfied).2

end Compatible

end Planning

/-- When no override is configured and a version satisfies a list of pragmas exactly when
    it satisfies each part of it, every job a run plans to compile has a version that
    satisfies the version pragmas of every file it compiles. -/
theorem planCompilation_compiles_compatible_files {env : Environment}
    {sources : AList fun _ : String => ProjectFile} {buildState : BuildState} {force : Bool}
    {plan : CompilationPlan} (conjunctive : env.semver.Conjunctive)
    (noOverrides : env.solidity.overrides = [])
    (planned : planCompilation env sources buildState force = .ok plan) :
    ∀ job ∈ plan.mergedCompilationJobs, ∀ input ∈ job.getResolvedFiles,
      env.semver.satisfies job.getSolcConfig.version input.content.versionPragmas = true := by
  have planned := planned_of_planCompilation planned
  intro job mem input inputMem
  have named : input.sourceName ∈ job.sourceNames :=
    (CompilationJob.mem_getResolvedFiles (planned.drawnFrom mem) plan.dependencyGraph.sourceNamesNodup
      (planned.mem_files mem inputMem)).mp inputMem
  obtain ⟨planned', plannedMem, sameConfig, plannedNamed⟩ :=
    (planned.mergedFrom.sourceNames input.sourceName job mem).mp named
  obtain ⟨file, fileMem, created⟩ :=
    mem_getCompilationJobs_jobs.mp (planned.jobs ▸ planned.mem_compilationJobs plannedMem)
  have inputPlanned : input ∈ planned'.getResolvedFiles :=
    (CompilationJob.mem_getResolvedFiles (drawnFrom_of_createCompilationJobFromFile created)
      plan.dependencyGraph.sourceNamesNodup (planned.mem_files mem inputMem)).mpr plannedNamed
  rw [← sameConfig]
  exact satisfies_of_createCompilationJobFromFile conjunctive (by simp [noOverrides]) created
    input inputPlanned


/-- A comparator of versions that reads pragmas: versions compare character by character,
    and a pragma names the least version it admits. -/
def minimumVersionSemver : Semver :=
  { lexicographicSemver with
    satisfies := fun version versionPragmas =>
      versionPragmas.all fun pragma => cmp pragma.data version.data ≠ .gt }

theorem minimumVersionSemver_totalPreorder : minimumVersionSemver.TotalPreorder :=
  ⟨lexicographicSemver_totalPreorder.swap, lexicographicSemver_totalPreorder.trans⟩

theorem minimumVersionSemver_conjunctive : minimumVersionSemver.Conjunctive :=
  fun _ _ _ => List.all_append

/-- Compilers `0.7.0` and `0.8.0`, and `0.7.5` for `B`. -/
def overriddenCompilers : SolidityConfig :=
  ⟨[⟨"0.7.0", ""⟩, ⟨"0.8.0", ""⟩], [("B", ⟨"0.7.5", ""⟩)]⟩

/-- A file that admits `0.6.0` and later. -/
def lowPragmaFile : ResolvedFile := ⟨"A", "/project/A", ⟨"", [], ["0.6.0"]⟩, "", 0⟩

/-- A file that admits `0.7.0` and later, with an override. -/
def overriddenFile : ResolvedFile := ⟨"B", "/project/B", ⟨"", [], ["0.7.0"]⟩, "", 0⟩

/-- The graph of the two files, neither importing the other. -/
def pragmaGraph : DependencyGraph :=
  ⟨[lowPragmaFile, overriddenFile], by decide, by decide⟩

/-- `A` gets the newest compiler, `B` its override; a file that admits no configured
    version gets none. -/
example :
    (createCompilationJobFromFile minimumVersionSemver overriddenCompilers pragmaGraph
        lowPragmaFile).toOption.map (·.getSolcConfig) = some ⟨"0.8.0", ""⟩ ∧
      (createCompilationJobFromFile minimumVersionSemver overriddenCompilers pragmaGraph
        overriddenFile).toOption.map (·.getSolcConfig) = some ⟨"0.7.5", ""⟩ ∧
      (createCompilationJobFromFile minimumVersionSemver overriddenCompilers pragmaGraph
        { lowPragmaFile with content := ⟨"", [], ["0.9.0"]⟩ }).toOption.map (·.getSolcConfig) =
        none := by
  decide

theorem twoCompilers_choose_newest :
    minimumVersionSemver.TotalPreorder ∧
    overriddenCompilers.overrides.lookup lowPragmaFile.sourceName = none ∧
    overriddenCompilers.overrides.lookup overriddenFile.sourceName = some ⟨"0.7.5", ""⟩ ∧
    (((∃ job, createCompilationJobFromFile minimumVersionSemver overriddenCompilers pragmaGraph
          lowPragmaFile = .ok job) ↔
        ∃ compiler ∈ overriddenCompilers.compilers, minimumVersionSemver.satisfies compiler.version
          (versionRangeFor lowPragmaFile (pragmaGraph.closureFiles lowPragmaFile)) = true) ∧
      ∀ job, createCompilationJobFromFile minimumVersionSemver overriddenCompilers pragmaGraph
          lowPragmaFile = .ok job →
        job.getSolcConfig ∈ overriddenCompilers.compilers ∧
        minimumVersionSemver.satisfies job.getSolcConfig.version
          (versionRangeFor lowPragmaFile (pragmaGraph.closureFiles lowPragmaFile)) = true ∧
        ∀ compiler ∈ overriddenCompilers.compilers, minimumVersionSemver.satisfies compiler.version
            (versionRangeFor lowPragmaFile (pragmaGraph.closureFiles lowPragmaFile)) = true →
          minimumVersionSemver.compare compiler.version job.getSolcConfig.version ≠ .gt) ∧
    ((∃ job, createCompilationJobFromFile minimumVersionSemver overriddenCompilers pragmaGraph
          overriddenFile = .ok job) ↔
        minimumVersionSemver.satisfies "0.7.5" overriddenFile.content.versionPragmas = true) ∧
      ∀ job, createCompilationJobFromFile minimumVersionSemver overriddenCompilers pragmaGraph
          overriddenFile = .ok job → job.getSolcConfig = ⟨"0.7.5", ""⟩ :=
  ⟨minimumVersionSemver_totalPreorder, rfl, rfl,
    (@createCompilationJobFromFile_chooses_newest minimumVersionSemver overriddenCompilers
      minimumVersionSemver_totalPreorder pragmaGraph lowPragmaFile).1 rfl,
    (@createCompilationJobFromFile_chooses_newest minimumVersionSemver overriddenCompilers
      minimumVersionSemver_totalPreorder pragmaGraph overriddenFile).2 _ rfl⟩

/-- Content hashes are the texts; `uses A` imports `A` and admits `0.7.0` and later, every
    other text admits `0.6.0` and later. -/
def pragmaReader : SourceReader :=
  ⟨id, fun text => if text = "uses A" then ["A"] else [],
    fun text => if text = "uses A" then ["0.7.0"] else ["0.6.0"]⟩

/-- The two-file project planned by a comparator that reads pragmas, with compilers
    `0.6.5` and `0.8.0`. -/
def pragmaEnvironment : Environment :=
  { exampleEnvironment with
    solidity := ⟨[⟨"0.6.5", ""⟩, ⟨"0.8.0", ""⟩], []⟩
    semver := minimumVersionSemver
    reader := pragmaReader }

theorem twoFileProject_compiles_compatible_files :
    ∃ plan, planCompilation pragmaEnvironment exampleSources emptyBuildState false = .ok plan ∧
      (pragmaEnvironment.semver.Conjunctive ∧ pragmaEnvironment.solidity.overrides = []) ∧
      ∀ job ∈ plan.mergedCompilationJobs, ∀ input ∈ job.getResolvedFiles,
        pragmaEnvironment.semver.satisfies job.getSolcConfig.version
          input.content.versionPragmas = true :=
  ⟨_, rfl, ⟨minimumVersionSemver_conjunctive, rfl⟩,
    @planCompilation_compiles_compatible_files pragmaEnvironment exampleSources emptyBuildState false
      _ minimumVersionSemver_conjunctive rfl rfl⟩

end Hardhat.Compile
