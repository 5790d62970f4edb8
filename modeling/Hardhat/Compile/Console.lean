import Hardhat.Compile.Incremental
import Hardhat.Compile.Diagnostics

namespace Hardhat.Compile

/-! # What the compile task prints

`TASK_COMPILE_SOLIDITY` prints through its log subtasks.  Planning prints nothing.  A
plan without jobs prints `Nothing to compile` through `LOG_NOTHING_TO_COMPILE`.  Every
job prints, in the order `COMPILE_SOLC` and `CHECK_ERRORS` run them, the download message
of `GET_SOLC_BUILD` once the build index knows its version, unless its compiler is
downloaded, the progress message of
`LOG_RUN_COMPILER_START`, and the diagnostics of the compiler output.  A job that throws
prints what came before the throw, and the loop stops there.  A completed run with jobs
ends with `Compilation finished successfully`.

`compileJobConsole_snd` ties the console to the run: a job returns in the console model
exactly when `compileJob` returns.  Six facts follow.  Every job the compiler ran on has
the diagnostics of its output printed as one block, or else the compiler rejected its
input and the run throws the protocol error
(`compileSolidityConsole_prints_every_diagnostic`), and a run that throws
`COMPILE_FAILURE` ends its output with the diagnostics of a compiler output that has an
error (`compileSolidityConsole_shows_compile_failure`).  A run never prints the download
message of a version downloaded before it, and prints it at most once when the downloader
gets the native build of the version (`compileSolidityConsole_downloads_once`).  A second
run over an unchanged project prints only `Nothing to compile`
(`compileSolidityConsole_rebuild_prints_nothing_to_compile`), and a `--force` run prints
what a clean build prints (`compileSolidityConsole_force_prints_clean_build`).  The success
message is printed exactly when the run completes having compiled some job
(`compileSolidityConsole_success_iff`): every other line the task prints is a download
message, a progress message or a diagnostic (`JobLine`).
-/

/-- Whether `GET_SOLC_BUILD` got the native build of the version from the downloader. -/
def downloadsCompiler (downloader : CompilerDownloader) (solcVersion : String) : Bool :=
  match downloader.getDownloadedCompilerPath false solcVersion with
  | .ok (some _) => true
  | _ => false

/-- Modelled from the spec: the compilers directory after `GET_SOLC_BUILD` for a version
    (§4.6 steps 2 and 3).  The native build of the version is there once the downloader
    returned its path, even when it fails its probe; after a failed download and the
    solcjs fallback it is still missing, so the next job of the version asks for it
    again. -/
def afterDownload (downloader : CompilerDownloader) (isCompilerDownloaded : String → Bool)
    (solcVersion : String) : String → Bool :=
  fun version => version == solcVersion && downloadsCompiler downloader solcVersion ||
    isCompilerDownloaded version

section Console

variable (semver : Semver) (toolchain : Toolchain) (pluralize : Nat → String → String)

/-- What `TASK_COMPILE_SOLIDITY_COMPILE_JOB` prints for the job at an index of the sorted
    jobs, and whether it returns rather than throws.  `GET_SOLC_BUILD` prints the download
    message once the build index knows the version. -/
def compileJobConsole (isCompilerDownloaded : String → Bool) (compilationJobs : List CompilationJob)
    (compilationJobIndex : Nat) (compilationJob : CompilationJob) : List ConsoleLine × Bool :=
  let solcVersion := compilationJob.getSolcConfig.version
  if semver.lt solcVersion firstSolcVersionSupported then ([], false)
  else
    match toolchain.downloader.getCompilerBuild solcVersion with
    | .error _ => ([], false)
    | .ok _ =>
        let downloadLines := logDownloadCompilerStart (isCompilerDownloaded solcVersion) solcVersion
        match getSolcBuild toolchain.downloader solcVersion with
        | .error _ => (downloadLines, false)
        | .ok solcBuild =>
            let startLines := ((logRunCompilerStart compilationJobs compilationJobIndex).map
              fun message => ConsoleLine.log (message.text pluralize)).toList
            match runCompiler toolchain solcBuild (getInputFromCompilationJob compilationJob) with
            | none => (downloadLines ++ startLines, false)
            | some output =>
                let checked := checkErrors output
                (downloadLines ++ startLines ++ checked.1, checked.2.isOk)

/-- What the loop of `TASK_COMPILE_SOLIDITY_COMPILE_JOBS` prints from an index, up to the
    job that throws. -/
def compileJobsConsoleFrom (sortedCompilationJobs : List CompilationJob) :
    (String → Bool) → Nat → List CompilationJob → List ConsoleLine
  | _, _, [] => []
  | isCompilerDownloaded, compilationJobIndex, compilationJob :: compilationJobs =>
      let current := compileJobConsole semver toolchain pluralize isCompilerDownloaded
        sortedCompilationJobs compilationJobIndex compilationJob
      current.1 ++ if current.2 then
          compileJobsConsoleFrom sortedCompilationJobs
            (afterDownload toolchain.downloader isCompilerDownloaded
              compilationJob.getSolcConfig.version)
            (compilationJobIndex + 1) compilationJobs
        else []

/-- What `TASK_COMPILE_SOLIDITY_COMPILE_JOBS` prints. -/
def compileJobsConsole (isCompilerDownloaded : String → Bool) (quiet : Bool)
    (compilationJobs : List CompilationJob) : List ConsoleLine :=
  if compilationJobs.length = 0 then logNothingToCompile quiet
  else
    let sortedCompilationJobs := sortCompilationJobs semver compilationJobs
    compileJobsConsoleFrom semver toolchain pluralize sortedCompilationJobs isCompilerDownloaded 0
      sortedCompilationJobs

end Console

/-- What `TASK_COMPILE_SOLIDITY` prints, the compilers downloaded before the run being
    `isCompilerDownloaded`: nothing when planning throws, else what the compilation
    prints, and then `LOG_COMPILATION_RESULT` when the run completes. -/
def compileSolidityConsole (env : Environment) (pluralize : Nat → String → String)
    (isCompilerDownloaded : String → Bool) (sources : AList fun _ : String => ProjectFile)
    (buildState : BuildState) (force quiet : Bool) : List ConsoleLine :=
  match planCompilation env sources buildState force with
  | .error _ => []
  | .ok plan =>
      compileJobsConsole env.semver env.toolchain pluralize isCompilerDownloaded quiet
          plan.mergedCompilationJobs ++
        match (compileSolidity env sources buildState force).result with
        | .ok _ => logCompilationResult plan.mergedCompilationJobs
        | .error _ => []

/-- The two-file project prints the download message, one progress message for its one
    job, and the success message. -/
example :
    compileSolidityConsole exampleEnvironment
        (fun count word => if count = 1 then word else word ++ "s") (fun _ => false)
        exampleSources emptyBuildState false false =
      [.log "Downloading compiler 0.8.0", .log "Compiling 2 files with 0.8.0",
        .log "Compilation finished successfully"] := rfl

section Run

variable {semver : Semver} {toolchain : Toolchain} {pluralize : Nat → String → String}

/-- The console of a job whose compiler `GET_SOLC_BUILD` provides and runs on its input:
    the download message, the progress message and the diagnostics; it returns when no
    diagnostic is an error. -/
theorem compileJobConsole_of_built (isCompilerDownloaded : String → Bool)
    {compilationJobs : List CompilationJob} {compilationJobIndex : Nat}
    {compilationJob : CompilationJob} {solcBuild : SolcBuild} {output : CompilerOutput}
    (supported : semver.lt compilationJob.getSolcConfig.version firstSolcVersionSupported = false)
    (built : getSolcBuild toolchain.downloader compilationJob.getSolcConfig.version = .ok solcBuild)
    (ran : runCompiler toolchain solcBuild (getInputFromCompilationJob compilationJob) = some output) :
    compileJobConsole semver toolchain pluralize isCompilerDownloaded compilationJobs
        compilationJobIndex compilationJob =
      (logDownloadCompilerStart (isCompilerDownloaded compilationJob.getSolcConfig.version)
          compilationJob.getSolcConfig.version ++
        ((logRunCompilerStart compilationJobs compilationJobIndex).map
          fun message => ConsoleLine.log (message.text pluralize)).toList ++
        logCompilationErrors output, !hasCompilationErrors output) := by
  unfold compileJobConsole checkErrors
  cases indexed : toolchain.downloader.getCompilerBuild compilationJob.getSolcConfig.version with
  | error => rw [getSolcBuild_of_getCompilerBuild_eq_error indexed] at built; cases built
  | ok =>
      simp only [supported, Bool.false_eq_true, if_false, indexed, built, ran]
      cases hasCompilationErrors output <;> rfl

/-- A job returns in the console model exactly when `compileJob` returns. -/
theorem compileJobConsole_snd (isCompilerDownloaded : String → Bool)
    (compilationJobs : List CompilationJob) (compilationJobIndex : Nat)
    (compilationJob : CompilationJob) (artifacts : Artifacts) :
    (compileJobConsole semver toolchain pluralize isCompilerDownloaded compilationJobs
        compilationJobIndex compilationJob).2 =
      (compileJob semver toolchain compilationJobs compilationJobIndex compilationJob
        artifacts).artifactsEmittedPerJob.isOk := by
  unfold compileJobConsole compileJob checkErrors
  dsimp only
  split_ifs
  · rfl
  · cases indexed : toolchain.downloader.getCompilerBuild compilationJob.getSolcConfig.version with
    | error => rw [getSolcBuild_of_getCompilerBuild_eq_error indexed]; rfl
    | ok =>
        cases getSolcBuild toolchain.downloader compilationJob.getSolcConfig.version with
        | error => rfl
        | ok solcBuild =>
            dsimp only
            cases runCompiler toolchain solcBuild (getInputFromCompilationJob compilationJob) with
            | none => rfl
            | some output =>
                dsimp only
                split_ifs <;> rfl

/-- `compileJob` throws `COMPILE_FAILURE` only after running the compiler, on an output
    with an error. -/
theorem compileJob_eq_compileFailure {compilationJobs : List CompilationJob}
    {compilationJobIndex : Nat} {compilationJob : CompilationJob} {artifacts : Artifacts}
    (failed : (compileJob semver toolchain compilationJobs compilationJobIndex compilationJob
      artifacts).artifactsEmittedPerJob = .error .compileFailure) :
    ∃ solcBuild output,
      semver.lt compilationJob.getSolcConfig.version firstSolcVersionSupported = false ∧
      getSolcBuild toolchain.downloader compilationJob.getSolcConfig.version = .ok solcBuild ∧
      runCompiler toolchain solcBuild (getInputFromCompilationJob compilationJob) = some output ∧
      hasCompilationErrors output = true ∧
      (compileJob semver toolchain compilationJobs compilationJobIndex compilationJob
        artifacts).compiledJobs = [compilationJob] := by
  unfold compileJob at failed ⊢
  dsimp only at failed ⊢
  split_ifs at failed ⊢ with unsupported
  · cases failed
  · cases built : getSolcBuild toolchain.downloader compilationJob.getSolcConfig.version with
    | error error =>
        rw [built] at failed
        cases failed
        simpa using getSolcBuild_eq_error built
    | ok solcBuild =>
        rw [built] at failed
        dsimp only at failed ⊢
        cases ran : runCompiler toolchain solcBuild (getInputFromCompilationJob compilationJob) with
        | none => rw [ran] at failed; cases failed
        | some output =>
            rw [ran] at failed
            dsimp only at failed ⊢
            split_ifs at failed ⊢ with errors
            exact ⟨solcBuild, output, Bool.eq_false_iff.mpr unsupported, rfl, ran, errors, rfl⟩

/-- When the loop of `COMPILE_JOBS` throws `COMPILE_FAILURE`, what it printed ends with the
    diagnostics of a job it compiled, whose compiler output has an error. -/
theorem compileJobsConsoleFrom_of_compileFailure (sortedCompilationJobs : List CompilationJob) :
    ∀ (isCompilerDownloaded : String → Bool) (compilationJobIndex : Nat)
      (compilationJobs : List CompilationJob) (artifacts : Artifacts),
      (compileJobsFrom semver toolchain sortedCompilationJobs compilationJobIndex compilationJobs
        artifacts).artifactsEmittedPerJob = .error .compileFailure →
      ∃ job ∈ (compileJobsFrom semver toolchain sortedCompilationJobs compilationJobIndex
          compilationJobs artifacts).compiledJobs, ∃ solcBuild output,
        compilerOutput toolchain job = some (solcBuild, output) ∧
        hasCompilationErrors output = true ∧
        ∃ before, compileJobsConsoleFrom semver toolchain pluralize sortedCompilationJobs
          isCompilerDownloaded compilationJobIndex compilationJobs =
            before ++ logCompilationErrors output
  | _, _, [], _, failed => by simp [compileJobsFrom] at failed
  | isCompilerDownloaded, compilationJobIndex, compilationJob :: compilationJobs, artifacts,
      failed => by
      have returned := @compileJobConsole_snd semver toolchain pluralize isCompilerDownloaded
        sortedCompilationJobs compilationJobIndex compilationJob artifacts
      unfold compileJobsFrom at failed ⊢
      unfold compileJobsConsoleFrom
      dsimp only at failed ⊢
      cases current : (compileJob semver toolchain sortedCompilationJobs compilationJobIndex
          compilationJob artifacts).artifactsEmittedPerJob with
      | error error =>
          rw [current] at failed
          cases failed
          dsimp only
          obtain ⟨solcBuild, output, supported, built, ran, errors, compiled⟩ :=
            compileJob_eq_compileFailure current
          refine ⟨compilationJob, by rw [compiled]; exact List.mem_singleton_self _, solcBuild, output,
            compilerOutput_eq_some built ran, errors, ?_⟩
          rw [compileJobConsole_of_built isCompilerDownloaded supported built ran]
          simp only [errors, Bool.not_true, Bool.false_eq_true, if_false, List.append_nil]
          exact ⟨_, rfl⟩
      | ok emittedNow =>
          rw [current] at failed returned
          simp only [Except.isOk, Except.toBool] at returned
          dsimp only at failed ⊢
          simp only [returned, if_true]
          have laterFailed : (compileJobsFrom semver toolchain sortedCompilationJobs
              (compilationJobIndex + 1) compilationJobs
              (compileJob semver toolchain sortedCompilationJobs compilationJobIndex compilationJob
                artifacts).artifacts).artifactsEmittedPerJob = .error .compileFailure := by
            revert failed
            cases (compileJobsFrom semver toolchain sortedCompilationJobs
              (compilationJobIndex + 1) compilationJobs
              (compileJob semver toolchain sortedCompilationJobs compilationJobIndex compilationJob
                artifacts).artifacts).artifactsEmittedPerJob <;>
              simp [Except.map]
          obtain ⟨job, jobMem, solcBuild, output, found, errors, before, console⟩ :=
            compileJobsConsoleFrom_of_compileFailure sortedCompilationJobs _ _ _ _ laterFailed
          exact ⟨job, List.mem_append_right _ jobMem, solcBuild, output, found, errors, _,
            by rw [console, List.append_assoc]⟩

/-- Planning throws nothing the compilation throws. -/
theorem planCompilation_ne_compileFailure {env : Environment}
    {sources : AList fun _ : String => ProjectFile} {buildState : BuildState} {force : Bool} :
    planCompilation env sources buildState force ≠ .error .compileFailure := by
  intro planned
  unfold planCompilation at planned
  cases created : createDependencyGraph env.reader env.projectRoot sources with
  | error error =>
      rw [created] at planned
      cases planned
      unfold createDependencyGraph at created
      split at created <;> cases created
  | ok graph =>
      rw [created] at planned
      simp only [bind, Except.bind, handleCompilationJobsFailures] at planned
      split_ifs at planned <;> cases planned

end Run

/-- A failed compilation is never silent.  When `TASK_COMPILE_SOLIDITY` throws
    `COMPILE_FAILURE`, one of the jobs the compiler ran on has an output with an error,
    and what the run printed ends with the diagnostics of that output, which
    `CHECK_ERRORS` prints before it throws. -/
theorem compileSolidityConsole_shows_compile_failure {env : Environment}
    {sources : AList fun _ : String => ProjectFile} {buildState : BuildState} {force : Bool}
    (pluralize : Nat → String → String) (isCompilerDownloaded : String → Bool) (quiet : Bool)
    (failed : (compileSolidity env sources buildState force).result = .error .compileFailure) :
    ∃ job ∈ (compileSolidity env sources buildState force).compiledJobs, ∃ solcBuild output,
      compilerOutput env.toolchain job = some (solcBuild, output) ∧
      hasCompilationErrors output = true ∧
      ∃ before, compileSolidityConsole env pluralize isCompilerDownloaded sources buildState force
        quiet = before ++ logCompilationErrors output := by
  cases planned : planCompilation env sources buildState force with
  | error error =>
      unfold compileSolidity at failed
      rw [planned] at failed
      cases failed
      exact absurd planned planCompilation_ne_compileFailure
  | ok plan =>
      have compiledFailed := compileJobs_eq_error_of_compileSolidity planned failed
      have nonempty : plan.mergedCompilationJobs.length ≠ 0 := fun empty => by
        simp [compileJobs, empty] at compiledFailed
      rw [compileJobs, if_neg nonempty] at compiledFailed
      obtain ⟨job, jobMem, solcBuild, output, found, errors, before, console⟩ :=
        @compileJobsConsoleFrom_of_compileFailure env.semver env.toolchain pluralize _
          isCompilerDownloaded _ _ _ compiledFailed
      refine ⟨job, ?_, solcBuild, output, found, errors, before, ?_⟩
      · rw [compileSolidity_compiledJobs planned, compileJobs, if_neg nonempty]
        exact jobMem
      · unfold compileSolidityConsole compileJobsConsole
        rw [planned, failed]
        simp only [if_neg nonempty, console, List.append_nil]

theorem badProject_shows_compile_failure :
    (compileSolidity exampleEnvironment badSources emptyBuildState false).result =
        .error .compileFailure ∧
      ∃ job ∈ (compileSolidity exampleEnvironment badSources emptyBuildState false).compiledJobs,
        ∃ solcBuild output,
          compilerOutput exampleEnvironment.toolchain job = some (solcBuild, output) ∧
          hasCompilationErrors output = true ∧
          ∃ before, compileSolidityConsole exampleEnvironment (fun _ word => word) (fun _ => false)
            badSources emptyBuildState false false = before ++ logCompilationErrors output :=
  ⟨rfl, compileSolidityConsole_shows_compile_failure _ _ _ rfl⟩

/-! ## Diagnostics -/

section Diagnostics

variable {semver : Semver} {toolchain : Toolchain} {pluralize : Nat → String → String}

/-- A job the compiler ran on prints the diagnostics of its output as one block, unless
    the compiler rejected its input, and then the job throws the protocol error. -/
theorem compileJobConsole_prints_diagnostics (isCompilerDownloaded : String → Bool)
    {compilationJobs : List CompilationJob} {compilationJobIndex : Nat}
    {compilationJob job : CompilationJob} {artifacts : Artifacts}
    (compiled : job ∈ (compileJob semver toolchain compilationJobs compilationJobIndex compilationJob
      artifacts).compiledJobs) :
    (∃ solcBuild output, compilerOutput toolchain job = some (solcBuild, output) ∧
      logCompilationErrors output <:+: (compileJobConsole semver toolchain pluralize
        isCompilerDownloaded compilationJobs compilationJobIndex compilationJob).1) ∨
    compilerOutput toolchain job = none ∧
      (compileJob semver toolchain compilationJobs compilationJobIndex compilationJob
        artifacts).artifactsEmittedPerJob = .error .compilerProtocol := by
  unfold compileJob at compiled
  dsimp only at compiled
  split_ifs at compiled with unsupported
  · cases compiled
  · cases built : getSolcBuild toolchain.downloader compilationJob.getSolcConfig.version with
    | error => rw [built] at compiled; cases compiled
    | ok solcBuild =>
        rw [built] at compiled
        dsimp only at compiled
        cases ran : runCompiler toolchain solcBuild (getInputFromCompilationJob compilationJob) with
        | none =>
            rw [ran] at compiled
            obtain rfl := List.mem_singleton.mp compiled
            refine .inr ⟨by simp only [compilerOutput, built, ran, Option.map_none'], ?_⟩
            simp only [compileJob, if_neg unsupported, built, ran]
        | some output =>
            rw [ran] at compiled
            have same : job = compilationJob := by
              dsimp only at compiled
              split_ifs at compiled <;> exact List.mem_singleton.mp compiled
            subst same
            refine .inl ⟨solcBuild, output, compilerOutput_eq_some built ran, ?_⟩
            rw [compileJobConsole_of_built isCompilerDownloaded (Bool.eq_false_iff.mpr unsupported)
              built ran]
            exact (List.suffix_append _ _).isInfix

/-- Every job the loop of `COMPILE_JOBS` ran the compiler on has the diagnostics of its
    output printed as one block, the job that throws included, unless the compiler
    rejected its input and the loop throws the protocol error. -/
theorem compileJobsConsoleFrom_prints_diagnostics (sortedCompilationJobs : List CompilationJob) :
    ∀ (isCompilerDownloaded : String → Bool) (compilationJobIndex : Nat)
      (compilationJobs : List CompilationJob) (artifacts : Artifacts) (job : CompilationJob),
      job ∈ (compileJobsFrom semver toolchain sortedCompilationJobs compilationJobIndex compilationJobs
        artifacts).compiledJobs →
      (∃ solcBuild output, compilerOutput toolchain job = some (solcBuild, output) ∧
        logCompilationErrors output <:+: compileJobsConsoleFrom semver toolchain pluralize
          sortedCompilationJobs isCompilerDownloaded compilationJobIndex compilationJobs) ∨
      compilerOutput toolchain job = none ∧
        (compileJobsFrom semver toolchain sortedCompilationJobs compilationJobIndex compilationJobs
          artifacts).artifactsEmittedPerJob = .error .compilerProtocol
  | _, _, [], _, _, compiled => absurd compiled (List.not_mem_nil _)
  | isCompilerDownloaded, compilationJobIndex, compilationJob :: compilationJobs, artifacts, job,
      compiled => by
      have returned := @compileJobConsole_snd semver toolchain pluralize isCompilerDownloaded
        sortedCompilationJobs compilationJobIndex compilationJob artifacts
      have printedNow : (compileJobConsole semver toolchain pluralize isCompilerDownloaded
          sortedCompilationJobs compilationJobIndex compilationJob).1 <:+: compileJobsConsoleFrom
            semver toolchain pluralize sortedCompilationJobs isCompilerDownloaded compilationJobIndex
            (compilationJob :: compilationJobs) := by
        unfold compileJobsConsoleFrom
        exact (List.prefix_append _ _).isInfix
      unfold compileJobsFrom at compiled ⊢
      dsimp only at compiled ⊢
      cases emittedNow : (compileJob semver toolchain sortedCompilationJobs compilationJobIndex
          compilationJob artifacts).artifactsEmittedPerJob with
      | error =>
          rw [emittedNow] at compiled
          rcases compileJobConsole_prints_diagnostics isCompilerDownloaded compiled with
            ⟨solcBuild, output, found, printed⟩ | ⟨missing, rejected⟩
          · exact .inl ⟨solcBuild, output, found, printed.trans printedNow⟩
          · exact .inr ⟨missing, emittedNow.symm.trans rejected⟩
      | ok =>
          rw [emittedNow] at compiled returned
          dsimp only at compiled
          rcases List.mem_append.mp compiled with now | later
          · rcases compileJobConsole_prints_diagnostics isCompilerDownloaded now with
              ⟨solcBuild, output, found, printed⟩ | ⟨-, rejected⟩
            · exact .inl ⟨solcBuild, output, found, printed.trans printedNow⟩
            · rw [emittedNow] at rejected
              cases rejected
          · rcases compileJobsConsoleFrom_prints_diagnostics sortedCompilationJobs
                (afterDownload toolchain.downloader isCompilerDownloaded
                  compilationJob.getSolcConfig.version) _ _ _ _ later with
              ⟨solcBuild, output, found, printed⟩ | ⟨missing, rejected⟩
            · refine .inl ⟨solcBuild, output, found, printed.trans ?_⟩
              simp only [compileJobsConsoleFrom, returned, Except.isOk, Except.toBool, if_true]
              exact (List.suffix_append _ _).isInfix
            · exact .inr ⟨missing, by rw [rejected]; rfl⟩

end Diagnostics

/-- No diagnostic is lost.  Every job the compiler ran on during a run of
    `TASK_COMPILE_SOLIDITY`, whether the run completes or throws, has a compiler output
    whose diagnostics, warnings included, the run prints as one block; or else the
    compiler rejected the job's input, and the run throws the protocol error. -/
theorem compileSolidityConsole_prints_every_diagnostic (env : Environment)
    (pluralize : Nat → String → String) (isCompilerDownloaded : String → Bool)
    (sources : AList fun _ : String => ProjectFile) (buildState : BuildState) (force quiet : Bool) :
    ∀ job ∈ (compileSolidity env sources buildState force).compiledJobs,
      (∃ solcBuild output, compilerOutput env.toolchain job = some (solcBuild, output) ∧
        logCompilationErrors output <:+:
          compileSolidityConsole env pluralize isCompilerDownloaded sources buildState force quiet) ∨
      compilerOutput env.toolchain job = none ∧
        (compileSolidity env sources buildState force).result = .error .compilerProtocol := by
  intro job compiled
  cases planned : planCompilation env sources buildState force with
  | error =>
      unfold compileSolidity at compiled
      rw [planned] at compiled
      cases compiled
  | ok plan =>
      rw [compileSolidity_compiledJobs planned, compileJobs] at compiled
      split_ifs at compiled with empty
      · cases compiled
      · rcases @compileJobsConsoleFrom_prints_diagnostics env.semver env.toolchain pluralize _
          isCompilerDownloaded _ _ _ _ compiled with ⟨solcBuild, output, found, printed⟩ | ⟨missing, rejected⟩
        · refine .inl ⟨solcBuild, output, found, printed.trans ?_⟩
          unfold compileSolidityConsole compileJobsConsole
          rw [planned]
          simp only [if_neg empty]
          exact (List.prefix_append _ _).isInfix
        · refine .inr ⟨missing, compileSolidity_result_of_compileJobs_error planned ?_⟩
          rw [compileJobs, if_neg empty]
          exact rejected

theorem badProject_prints_every_diagnostic :
    ∃ job ∈ (compileSolidity exampleEnvironment badSources emptyBuildState false).compiledJobs,
      (∃ solcBuild output, compilerOutput exampleEnvironment.toolchain job = some (solcBuild, output) ∧
        logCompilationErrors output <:+:
          compileSolidityConsole exampleEnvironment (fun _ word => word) (fun _ => false) badSources
            emptyBuildState false false) ∨
      compilerOutput exampleEnvironment.toolchain job = none ∧
        (compileSolidity exampleEnvironment badSources emptyBuildState false).result =
          .error .compilerProtocol := by
  have nonempty : (compileSolidity exampleEnvironment badSources emptyBuildState false).compiledJobs ≠ [] :=
    List.ne_nil_of_length_pos (by decide)
  exact ⟨_, List.head_mem nonempty,
    compileSolidityConsole_prints_every_diagnostic _ _ _ _ _ _ _ _ (List.head_mem nonempty)⟩

/-! ## The download message -/

section Downloads

variable {semver : Semver} {toolchain : Toolchain} {pluralize : Nat → String → String}
  {version : String}

/-- A printed line that does not start with `D` is no download message. -/
theorem log_ne_download {text : String} (first : text.data.head? ≠ some 'D') :
    ConsoleLine.log text ≠ .log ("Downloading compiler " ++ version) := by
  intro same
  cases same
  apply first
  rw [String.data_append]
  rfl

theorem eq_of_download_eq {other : String}
    (same : ConsoleLine.log ("Downloading compiler " ++ other) =
      .log ("Downloading compiler " ++ version)) : other = version := by
  have data := congrArg String.data (ConsoleLine.log.inj same)
  simp only [String.data_append] at data
  exact String.ext (List.append_cancel_left data)

theorem count_logDownloadCompilerStart (downloaded : Bool) (solcVersion : String) :
    (logDownloadCompilerStart downloaded solcVersion).count
        (.log ("Downloading compiler " ++ version)) ≤
      if downloaded = false ∧ solcVersion = version then 1 else 0 := by
  unfold logDownloadCompilerStart
  cases downloaded
  · simp only [Bool.false_eq_true, if_false, true_and]
    split_ifs with same
    · exact List.count_le_length _ _
    · exact (List.count_eq_zero.mpr fun mem =>
        same (eq_of_download_eq (List.mem_singleton.mp mem).symm)).le
  · simp

/-- Diagnostics are never download messages. -/
theorem count_logCompilationErrors (output : CompilerOutput) :
    (logCompilationErrors output).count (.log ("Downloading compiler " ++ version)) = 0 := by
  refine List.count_eq_zero.mpr fun printed => ?_
  rcases mem_logCompilationErrors printed with ⟨_, ⟨⟩⟩ | ⟨_, ⟨⟩⟩ | empty
  exact log_ne_download (by decide) empty.symm

/-- A job prints the download message of a version only when that version is its own
    and was not downloaded before it. -/
theorem count_compileJobConsole (isCompilerDownloaded : String → Bool)
    (compilationJobs : List CompilationJob) (compilationJobIndex : Nat)
    (compilationJob : CompilationJob) :
    (compileJobConsole semver toolchain pluralize isCompilerDownloaded compilationJobs
        compilationJobIndex compilationJob).1.count (.log ("Downloading compiler " ++ version)) ≤
      if isCompilerDownloaded compilationJob.getSolcConfig.version = false ∧
          compilationJob.getSolcConfig.version = version then 1 else 0 := by
  have started : ∀ message? : Option RunCompilerStartMessage,
      (message?.map fun message => ConsoleLine.log (message.text pluralize)).toList.count
        (.log ("Downloading compiler " ++ version)) = 0 := by
    rintro (_ | message)
    · rfl
    · refine List.count_eq_zero.mpr fun mem => log_ne_download ?_ (List.mem_singleton.mp mem).symm
      simp [RunCompilerStartMessage.text, String.data_append]
  unfold compileJobConsole
  dsimp only
  by_cases unsupported : semver.lt compilationJob.getSolcConfig.version firstSolcVersionSupported
  · rw [if_pos unsupported]
    exact Nat.zero_le _
  · rw [if_neg unsupported]
    cases toolchain.downloader.getCompilerBuild compilationJob.getSolcConfig.version with
    | error => exact Nat.zero_le _
    | ok =>
        dsimp only
        cases getSolcBuild toolchain.downloader compilationJob.getSolcConfig.version with
        | error => exact count_logDownloadCompilerStart _ _
        | ok solcBuild =>
            dsimp only
            cases runCompiler toolchain solcBuild (getInputFromCompilationJob compilationJob) with
            | none =>
                simp only [List.count_append, started, add_zero]
                exact count_logDownloadCompilerStart _ _
            | some output =>
                simp only [checkErrors, List.count_append, started, count_logCompilationErrors,
                  add_zero]
                exact count_logDownloadCompilerStart _ _

/-- The loop prints the download message of a version not at all when the version was
    downloaded before it, and at most once when the downloader gets its native build: a
    job that prints it leaves that build downloaded for every later job.  Without the
    native build each job of the version may print it. -/
theorem count_compileJobsConsoleFrom (sortedCompilationJobs : List CompilationJob) :
    ∀ (isCompilerDownloaded : String → Bool) (compilationJobIndex : Nat)
      (compilationJobs : List CompilationJob),
      (compileJobsConsoleFrom semver toolchain pluralize sortedCompilationJobs isCompilerDownloaded
          compilationJobIndex compilationJobs).count (.log ("Downloading compiler " ++ version)) ≤
        if isCompilerDownloaded version then 0
        else if downloadsCompiler toolchain.downloader version then 1 else compilationJobs.length
  | _, _, [] => Nat.zero_le _
  | isCompilerDownloaded, compilationJobIndex, compilationJob :: compilationJobs => by
      have current := @count_compileJobConsole semver toolchain pluralize version
        isCompilerDownloaded sortedCompilationJobs compilationJobIndex compilationJob
      have later := count_compileJobsConsoleFrom sortedCompilationJobs
        (afterDownload toolchain.downloader isCompilerDownloaded compilationJob.getSolcConfig.version)
        (compilationJobIndex + 1) compilationJobs
      have tail : ∀ (returns : Bool) (rest : List ConsoleLine),
          (if returns then rest else []).count (.log ("Downloading compiler " ++ version)) ≤
            rest.count (.log ("Downloading compiler " ++ version)) := by
        intro returns rest
        cases returns <;> simp
      unfold compileJobsConsoleFrom
      rw [List.count_append, List.length_cons]
      refine (Nat.add_le_add current (tail _ _)).trans ?_
      by_cases same : compilationJob.getSolcConfig.version = version
      · subst same
        have downloadedNow : afterDownload toolchain.downloader isCompilerDownloaded
            compilationJob.getSolcConfig.version compilationJob.getSolcConfig.version =
            (downloadsCompiler toolchain.downloader compilationJob.getSolcConfig.version ||
              isCompilerDownloaded compilationJob.getSolcConfig.version) := by
          simp [afterDownload]
        rw [downloadedNow] at later
        revert current later
        cases isCompilerDownloaded compilationJob.getSolcConfig.version <;>
          cases downloadsCompiler toolchain.downloader compilationJob.getSolcConfig.version <;>
          simp only [and_true, if_true, if_false, Bool.false_eq_true, Bool.or_false, Bool.or_true,
            Bool.true_eq_false, false_and] <;> omega
      · have downloadedNow : afterDownload toolchain.downloader isCompilerDownloaded
            compilationJob.getSolcConfig.version version = isCompilerDownloaded version := by
          simp [afterDownload, Ne.symm same]
        rw [downloadedNow] at later
        simp only [same, and_false, if_false, zero_add]
        refine later.trans ?_
        split_ifs <;> omega

/-- A single line that does not start with `D` is no download message. -/
theorem count_singleton_log {text : String} (first : text.data.head? ≠ some 'D') :
    [ConsoleLine.log text].count (.log ("Downloading compiler " ++ version)) = 0 :=
  List.count_eq_zero.mpr fun mem => log_ne_download first (List.mem_singleton.mp mem).symm

theorem count_logNothingToCompile (quiet : Bool) :
    (logNothingToCompile quiet).count (.log ("Downloading compiler " ++ version)) = 0 := by
  unfold logNothingToCompile
  split_ifs
  · exact count_singleton_log (by decide)
  · rfl

theorem count_logCompilationResult (compilationJobs : List CompilationJob) :
    (logCompilationResult compilationJobs).count (.log ("Downloading compiler " ++ version)) = 0 := by
  unfold logCompilationResult
  split_ifs
  · exact count_singleton_log (by decide)
  · rfl

theorem count_compileJobsConsole (isCompilerDownloaded : String → Bool) (quiet : Bool)
    (compilationJobs : List CompilationJob) :
    (compileJobsConsole semver toolchain pluralize isCompilerDownloaded quiet
        compilationJobs).count (.log ("Downloading compiler " ++ version)) ≤
      if isCompilerDownloaded version then 0
      else if downloadsCompiler toolchain.downloader version then 1 else compilationJobs.length := by
  unfold compileJobsConsole
  by_cases empty : compilationJobs.length = 0
  · rw [if_pos empty, count_logNothingToCompile]
    exact Nat.zero_le _
  · rw [if_neg empty, ← (List.perm_insertionSort (compilesBefore semver) compilationJobs).length_eq]
    exact count_compileJobsConsoleFrom _ _ _ _

/-- What a run prints holds the download message of a version no more often than the
    loop allows. -/
theorem count_compileSolidityConsole (env : Environment) (pluralize : Nat → String → String)
    (isCompilerDownloaded : String → Bool) (sources : AList fun _ : String => ProjectFile)
    (buildState : BuildState) (force quiet : Bool) (version : String) :
    ∃ jobs, (compileSolidityConsole env pluralize isCompilerDownloaded sources buildState force
        quiet).count (.log ("Downloading compiler " ++ version)) ≤
      if isCompilerDownloaded version then 0
      else if downloadsCompiler env.toolchain.downloader version then 1 else jobs := by
  unfold compileSolidityConsole
  cases planCompilation env sources buildState force with
  | error => exact ⟨0, Nat.zero_le _⟩
  | ok plan =>
      refine ⟨plan.mergedCompilationJobs.length, ?_⟩
      dsimp only
      rw [List.count_append]
      cases (compileSolidity env sources buildState force).result with
      | ok => rw [count_logCompilationResult, add_zero]; exact count_compileJobsConsole _ _ _
      | error => rw [List.count_nil, add_zero]; exact count_compileJobsConsole _ _ _

end Downloads

/-- A toolchain whose native downloads fail, so that every job runs the solcjs build. -/
def solcjsOnlyToolchain : Toolchain :=
  { quietToolchain with
    downloader := ⟨fun version => .ok (version, .linux),
      fun solcjs version => .ok (if solcjs then some (version, .wasm) else none), fun _ => true⟩ }

/-- With the native build never downloaded, both jobs of 0.8.0 print the download
    message. -/
example :
    (compileJobsConsole lexicographicSemver solcjsOnlyToolchain (fun _ word => word) (fun _ => false)
      false threeJobs).count (.log "Downloading compiler 0.8.0") = 2 := by
  decide

/-! ## Rebuilding -/

/-- Compiling twice prints `Nothing to compile` the second time.  After a run that completes
    from a well-keyed cache, a run over the same project without `--force` prints exactly
    what `LOG_NOTHING_TO_COMPILE` prints, whatever compilers are downloaded. -/
theorem compileSolidityConsole_rebuild_prints_nothing_to_compile {env : Environment}
    {sources : AList fun _ : String => ProjectFile} {buildState : BuildState} {force : Bool}
    (keyed : WellKeyed env.projectRoot buildState.solidityFilesCache)
    (completed : (compileSolidity env sources buildState force).result = .ok ())
    (pluralize : Nat → String → String) (isCompilerDownloaded : String → Bool) (quiet : Bool) :
    compileSolidityConsole env pluralize isCompilerDownloaded sources
        (compileSolidity env sources buildState force).buildState false quiet =
      logNothingToCompile quiet := by
  obtain ⟨plan, emitted, run⟩ := completedRun_of_ok completed
  unfold compileSolidityConsole
  rw [run.planCompilation_rebuild keyed]
  cases (compileSolidity env sources (compileSolidity env sources buildState force).buildState
      false).result <;>
    simp [compileJobsConsole, logCompilationResult]

theorem twoFileProject_rebuild_prints_nothing_to_compile :
    WellKeyed exampleEnvironment.projectRoot emptyBuildState.solidityFilesCache ∧
      (compileSolidity exampleEnvironment exampleSources emptyBuildState false).result = .ok () ∧
      compileSolidityConsole exampleEnvironment (fun _ word => word) (fun _ => false) exampleSources
          (compileSolidity exampleEnvironment exampleSources emptyBuildState false).buildState
          false false =
        logNothingToCompile false :=
  ⟨wellKeyed_createEmpty _, rfl,
    @compileSolidityConsole_rebuild_prints_nothing_to_compile exampleEnvironment exampleSources
      emptyBuildState false (wellKeyed_createEmpty _) rfl _ _ _⟩

/-! ## Forced runs -/

/-- Two runs whose plans merge the same jobs print the same lines, whatever caches and
    stores they start from. -/
theorem compileSolidityConsole_eq_of_mergedCompilationJobs {env : Environment}
    {sources sources' : AList fun _ : String => ProjectFile} {buildState buildState' : BuildState}
    {force force' : Bool} (pluralize : Nat → String → String) (isCompilerDownloaded : String → Bool)
    (quiet : Bool)
    (sameJobs : (planCompilation env sources buildState force).map (·.mergedCompilationJobs) =
      (planCompilation env sources' buildState' force').map (·.mergedCompilationJobs)) :
    compileSolidityConsole env pluralize isCompilerDownloaded sources buildState force quiet =
      compileSolidityConsole env pluralize isCompilerDownloaded sources' buildState' force' quiet := by
  have sameResult := (compileSolidity_eq_of_mergedCompilationJobs sameJobs).1
  unfold compileSolidityConsole
  rw [sameResult]
  cases first : planCompilation env sources buildState force <;>
    cases second : planCompilation env sources' buildState' force' <;>
    simp only [first, second, Except.map, Except.error.injEq, Except.ok.injEq, reduceCtorEq] at sameJobs
  · rfl
  · simp only [sameJobs]

/-- A forced run prints what a clean build prints.  What a `--force` run of
    `TASK_COMPILE_SOLIDITY` prints depends on neither the cache nor the store it starts
    from: it is what a run from an empty cache and an empty store prints. -/
theorem compileSolidityConsole_force_prints_clean_build (env : Environment)
    (pluralize : Nat → String → String) (isCompilerDownloaded : String → Bool)
    (sources : AList fun _ : String => ProjectFile) (buildState : BuildState) (quiet : Bool) :
    compileSolidityConsole env pluralize isCompilerDownloaded sources buildState true quiet =
      compileSolidityConsole env pluralize isCompilerDownloaded sources emptyBuildState false quiet :=
  compileSolidityConsole_eq_of_mergedCompilationJobs pluralize isCompilerDownloaded quiet
    planCompilation_force_eq_fresh

/-! ## The success message -/

/-- The lines the compile loop prints: download messages, progress messages, and the lines
    of `LOG_COMPILATION_ERRORS`. -/
def JobLine (pluralize : Nat → String → String) (line : ConsoleLine) : Prop :=
  (∃ version, line = .log ("Downloading compiler " ++ version)) ∨
    (∃ message : RunCompilerStartMessage, line = .log (message.text pluralize)) ∨
    (∃ text, line = .warn text) ∨ (∃ text, line = .error text) ∨ line = .log ""

section Success

variable {semver : Semver} {toolchain : Toolchain} {pluralize : Nat → String → String}

theorem JobLine.ne_success {line : ConsoleLine} (jobLine : JobLine pluralize line) :
    line ≠ .log "Compilation finished successfully" := by
  rintro rfl
  rcases jobLine with ⟨_, download⟩ | ⟨message, progress⟩ | ⟨_, ⟨⟩⟩ | ⟨_, ⟨⟩⟩ | empty
  · exact log_ne_download (by decide) download
  · have prefixed : "Compiling ".data <+: (message.text pluralize).data := by
      simp only [RunCompilerStartMessage.text, String.data_append, List.append_assoc]
      exact List.prefix_append _ _
    rw [← ConsoleLine.log.inj progress] at prefixed
    exact absurd prefixed (by decide)
  · exact absurd empty (by decide)

/-- Every line a job prints is a line of the compile loop. -/
theorem jobLine_of_mem_compileJobConsole {isCompilerDownloaded : String → Bool}
    {compilationJobs : List CompilationJob} {compilationJobIndex : Nat}
    {compilationJob : CompilationJob} {line : ConsoleLine}
    (printed : line ∈ (compileJobConsole semver toolchain pluralize isCompilerDownloaded
      compilationJobs compilationJobIndex compilationJob).1) :
    JobLine pluralize line := by
  have download : ∀ {downloaded : Bool}, line ∈ logDownloadCompilerStart downloaded
      compilationJob.getSolcConfig.version → JobLine pluralize line := fun listed => by
    unfold logDownloadCompilerStart at listed
    split_ifs at listed
    · cases listed
    · exact .inl ⟨_, List.mem_singleton.mp listed⟩
  have progress : line ∈ ((logRunCompilerStart compilationJobs compilationJobIndex).map
      fun message => ConsoleLine.log (message.text pluralize)).toList → JobLine pluralize line :=
    fun started => by
      simp only [Option.mem_toList, Option.mem_def, Option.map_eq_some'] at started
      obtain ⟨message, -, rfl⟩ := started
      exact .inr (.inl ⟨message, rfl⟩)
  unfold compileJobConsole at printed
  dsimp only at printed
  split_ifs at printed
  · cases printed
  · split at printed
    · cases printed
    · split at printed
      · exact download printed
      · split at printed
        · rcases List.mem_append.mp printed with listed | started
          · exact download listed
          · exact progress started
        · simp only [checkErrors, List.mem_append] at printed
          rcases printed with (listed | started) | diagnostic
          · exact download listed
          · exact progress started
          · exact .inr (.inr (mem_logCompilationErrors diagnostic))

/-- Every line the loop of `COMPILE_JOBS` prints is a line of the compile loop. -/
theorem jobLine_of_mem_compileJobsConsoleFrom (sortedCompilationJobs : List CompilationJob)
    {line : ConsoleLine} :
    ∀ (isCompilerDownloaded : String → Bool) (compilationJobIndex : Nat)
      (compilationJobs : List CompilationJob),
      line ∈ compileJobsConsoleFrom semver toolchain pluralize sortedCompilationJobs
        isCompilerDownloaded compilationJobIndex compilationJobs →
      JobLine pluralize line
  | _, _, [], printed => absurd printed (List.not_mem_nil _)
  | isCompilerDownloaded, compilationJobIndex, compilationJob :: compilationJobs, printed => by
      unfold compileJobsConsoleFrom at printed
      dsimp only at printed
      rcases List.mem_append.mp printed with current | later
      · exact jobLine_of_mem_compileJobConsole current
      · split_ifs at later
        · exact jobLine_of_mem_compileJobsConsoleFrom sortedCompilationJobs _ _ _ later
        · cases later

/-- `COMPILE_JOBS` never prints the success message. -/
theorem success_not_mem_compileJobsConsole (isCompilerDownloaded : String → Bool) (quiet : Bool)
    (compilationJobs : List CompilationJob) :
    ConsoleLine.log "Compilation finished successfully" ∉
      compileJobsConsole semver toolchain pluralize isCompilerDownloaded quiet compilationJobs := by
  unfold compileJobsConsole
  split_ifs
  · unfold logNothingToCompile
    split_ifs <;> decide
  · exact fun printed => (jobLine_of_mem_compileJobsConsoleFrom _ _ _ _ printed).ne_success rfl

end Success

/-- `Compilation finished successfully` is printed exactly when the run completes having run
    the compiler on some job: a run that throws never prints it, whatever it printed
    before the throw, and neither does a run with nothing to compile. -/
theorem compileSolidityConsole_success_iff (env : Environment) (pluralize : Nat → String → String)
    (isCompilerDownloaded : String → Bool) (sources : AList fun _ : String => ProjectFile)
    (buildState : BuildState) (force quiet : Bool) :
    ConsoleLine.log "Compilation finished successfully" ∈
        compileSolidityConsole env pluralize isCompilerDownloaded sources buildState force quiet ↔
      (compileSolidity env sources buildState force).result = .ok () ∧
        (compileSolidity env sources buildState force).compiledJobs ≠ [] := by
  unfold compileSolidityConsole
  cases planned : planCompilation env sources buildState force with
  | error error =>
      have failed : (compileSolidity env sources buildState force).result = .error error := by
        unfold compileSolidity
        rw [planned]
      simp [failed]
  | ok plan =>
      dsimp only
      rw [List.mem_append, or_iff_right (success_not_mem_compileJobsConsole _ _ _)]
      cases result : (compileSolidity env sources buildState force).result with
      | error => simp
      | ok =>
          obtain ⟨plan', emitted, run⟩ := completedRun_of_ok result
          rw [run.planCompiled, Except.ok.injEq] at planned
          subst planned
          have sortedLength : (sortCompilationJobs env.semver plan'.mergedCompilationJobs).length =
              plan'.mergedCompilationJobs.length := (List.perm_insertionSort _ _).length_eq
          rw [compileSolidity_compiledJobs run.planCompiled, (compileJobs_of_ok run.compiled).1,
            ← List.length_pos, sortedLength]
          unfold logCompilationResult
          split_ifs with nonempty <;> simp [nonempty]

end Hardhat.Compile
