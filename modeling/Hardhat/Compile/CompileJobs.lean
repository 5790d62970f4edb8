import Hardhat.Compile.Cache
import Mathlib.Data.List.Sort

namespace Hardhat.Compile

/-! # Compiling the jobs

`TASK_COMPILE_SOLIDITY_COMPILE_JOBS` sorts the merged jobs by solc version and runs
`TASK_COMPILE_SOLIDITY_COMPILE_JOB` on each in turn: build the compiler input, check
the version and obtain a compiler (`COMPILE_SOLC`, `GET_SOLC_BUILD`), print the
progress message of `LOG_RUN_COMPILER_START`, run the compiler, stop at an output
with errors (`CHECK_ERRORS`) and save the artifacts of the files the job emits
(`EMIT_ARTIFACTS`).  A job that throws stops the loop, with the artifacts of the
jobs before it already saved.

The compiler downloader and the compilers themselves are parameters, and each can fail:
a call of the downloader throws an acquisition error, which `GET_SOLC_BUILD` lets
through, and a compiler can reject its input, which stops the job after its progress
message.
-/

/-- `CompilerPlatform` of the downloader. -/
inductive CompilerPlatform
  | linux
  | windows
  | macos
  | wasm
deriving DecidableEq, Repr

/-- Modelled from the spec: the compiler downloader (§4.6).  `getCompilerBuild` gives the
    long version and the platform of a version in the build index;
    `getDownloadedCompilerPath` downloads the compiler of a version, the solcjs build when
    forced, and gives its path and platform, or none when the download fails.  Both throw
    an acquisition error.  `checkSolcBinary` is the `--version` probe of a native binary,
    which catches every failure of the probe and answers false. -/
structure CompilerDownloader where
  getCompilerBuild : String → Except AcquisitionError (String × CompilerPlatform)
  getDownloadedCompilerPath :
    Bool → String → Except AcquisitionError (Option (String × CompilerPlatform))
  checkSolcBinary : String → Bool

/-- The compilers the task runs: the downloader, and the native and solcjs compilers,
    each a function from the path of a compiler and an input to its output, none when
    `compile` rejects. -/
structure Toolchain where
  downloader : CompilerDownloader
  runSolc : String → CompilerInput → Option CompilerOutput
  runSolcjs : String → CompilerInput → Option CompilerOutput

/-- `COMPILE_TASK_FIRST_SOLC_VERSION_SUPPORTED`. -/
def firstSolcVersionSupported : String := "0.4.11"

/-- The solcjs fallback of `TASK_COMPILE_SOLIDITY_GET_SOLC_BUILD`: the forced solcjs
    download of the version, `CANT_GET_COMPILER` when it fails. -/
def getSolcjsBuild (downloader : CompilerDownloader) (solcVersion longVersion : String) :
    Except HardhatError SolcBuild :=
  match downloader.getDownloadedCompilerPath true solcVersion with
  | .error error => .error (.compilerAcquisition error)
  | .ok none => .error (.cantGetCompiler solcVersion)
  | .ok (some (solcjsCompilerPath, _)) => .ok ⟨solcjsCompilerPath, true, solcVersion, longVersion⟩

/-- `TASK_COMPILE_SOLIDITY_GET_SOLC_BUILD`: the downloaded compiler, unless it is a
    native binary that fails its probe or cannot be downloaded, in which case the
    solcjs build of the same version.  The errors of the downloader go through. -/
def getSolcBuild (downloader : CompilerDownloader) (solcVersion : String) :
    Except HardhatError SolcBuild :=
  match downloader.getCompilerBuild solcVersion with
  | .error error => .error (.compilerAcquisition error)
  | .ok (longVersion, desiredPlatform) =>
      match downloader.getDownloadedCompilerPath false solcVersion with
      | .error error => .error (.compilerAcquisition error)
      | .ok none =>
          if desiredPlatform = .wasm then .error (.cantGetCompiler solcVersion)
          else getSolcjsBuild downloader solcVersion longVersion
      | .ok (some (compilerPath, platform)) =>
          if platform ≠ .wasm ∧ downloader.checkSolcBinary compilerPath = false then
            getSolcjsBuild downloader solcVersion longVersion
          else .ok ⟨compilerPath, false, solcVersion, longVersion⟩

/-- The downloaded native compiler can be used: it downloads, and it is a WASM build or
    passes its `--version` probe. -/
def NativeUsable (downloader : CompilerDownloader) (solcVersion : String) : Prop :=
  ∃ compilerPath platform,
    downloader.getDownloadedCompilerPath false solcVersion = .ok (some (compilerPath, platform)) ∧
      (platform = .wasm ∨ downloader.checkSolcBinary compilerPath = true)

/-- A call of the downloader for the version threw the acquisition error. -/
def AcquisitionThrew (downloader : CompilerDownloader) (solcVersion : String)
    (error : AcquisitionError) : Prop :=
  downloader.getCompilerBuild solcVersion = .error error ∨
    downloader.getDownloadedCompilerPath false solcVersion = .error error ∨
    downloader.getDownloadedCompilerPath true solcVersion = .error error

/-- What the solcjs fallback returns and throws. -/
theorem getSolcjsBuild_spec (downloader : CompilerDownloader) (solcVersion longVersion : String) :
    (∀ solcBuild, getSolcjsBuild downloader solcVersion longVersion = .ok solcBuild →
      solcBuild.version = solcVersion ∧ solcBuild.longVersion = longVersion ∧
        solcBuild.isSolcJs = true ∧ ∃ platform,
          downloader.getDownloadedCompilerPath true solcVersion =
            .ok (some (solcBuild.compilerPath, platform))) ∧
    ∀ error, getSolcjsBuild downloader solcVersion longVersion = .error error →
      error = .cantGetCompiler solcVersion ∧
          downloader.getDownloadedCompilerPath true solcVersion = .ok none ∨
        ∃ acquisitionError, error = .compilerAcquisition acquisitionError ∧
          downloader.getDownloadedCompilerPath true solcVersion = .error acquisitionError := by
  unfold getSolcjsBuild
  rcases downloader.getDownloadedCompilerPath true solcVersion with _ | _ | ⟨_, _⟩ <;> simp

/-- `GET_SOLC_BUILD` throws the error of the build index before it downloads anything. -/
theorem getSolcBuild_of_getCompilerBuild_eq_error {downloader : CompilerDownloader}
    {solcVersion : String} {error : AcquisitionError}
    (failed : downloader.getCompilerBuild solcVersion = .error error) :
    getSolcBuild downloader solcVersion = .error (.compilerAcquisition error) := by
  simp only [getSolcBuild, failed]

/-- `GET_SOLC_BUILD` throws acquisition errors only. -/
theorem getSolcBuild_eq_error {downloader : CompilerDownloader} {solcVersion : String}
    {error : HardhatError} (failed : getSolcBuild downloader solcVersion = .error error) :
    error = .cantGetCompiler solcVersion ∨
      ∃ acquisitionError, error = .compilerAcquisition acquisitionError := by
  unfold getSolcBuild getSolcjsBuild at failed
  repeat' split at failed
  all_goals cases failed <;> simp

/-- A downloader whose own build for the platform is the solcjs one: that build counts as
    a usable native compiler and is returned with `isSolcJs = false`. -/
example :
    getSolcBuild ⟨fun version => .ok (version, .wasm),
        fun _ version => .ok (some ("soljson-v" ++ version ++ ".js", .wasm)), fun _ => false⟩
        "0.8.0" =
      .ok ⟨"soljson-v0.8.0.js", false, "0.8.0", "0.8.0"⟩ :=
  rfl

/-- Modelled from the spec: `getInputFromCompilationJob` (§4.7): the job's files by
    source name, and the settings of its configuration. -/
def getInputFromCompilationJob (compilationJob : CompilationJob) : CompilerInput where
  language := "Solidity"
  sources := compilationJob.getResolvedFiles.map fun file => (file.sourceName, file.content.rawContent)
  settings := compilationJob.getSolcConfig.settings

/-- The input of a job maps each of its files to the file's text. -/
theorem lookup_getInputFromCompilationJob {compilationJob : CompilationJob} {file : ResolvedFile}
    (mem : file ∈ compilationJob.getResolvedFiles) :
    (getInputFromCompilationJob compilationJob).sources.lookup file.sourceName =
      some file.content.rawContent := by
  have nodup := compilationJob.nodup_getResolvedFiles_sourceNames
  simp only [getInputFromCompilationJob]
  generalize compilationJob.getResolvedFiles = files at mem nodup
  induction files with
  | nil => exact absurd mem (List.not_mem_nil _)
  | cons head rest induction =>
      rw [List.map_cons, List.nodup_cons] at nodup
      rcases List.mem_cons.mp mem with rfl | restMem
      · exact List.lookup_cons_self
      · have differs : file.sourceName ≠ head.sourceName := fun same =>
          nodup.1 (same ▸ List.mem_map_of_mem _ restMem)
        rw [List.map_cons, List.lookup_cons, beq_false_of_ne differs]
        exact induction restMem nodup.2

/-- Every source of the input of a job is one of its files, with the file's text. -/
theorem exists_of_lookup_getInputFromCompilationJob {compilationJob : CompilationJob}
    {sourceName text : String}
    (found : (getInputFromCompilationJob compilationJob).sources.lookup sourceName = some text) :
    ∃ file ∈ compilationJob.getResolvedFiles, file.sourceName = sourceName ∧
      file.content.rawContent = text := by
  simp only [getInputFromCompilationJob] at found
  generalize compilationJob.getResolvedFiles = files at found ⊢
  induction files with
  | nil => cases found
  | cons head rest induction =>
      rw [List.map_cons, List.lookup_cons] at found
      split at found
      · rename_i same
        exact ⟨head, List.mem_cons_self _ _, (beq_iff_eq.mp same).symm, Option.some.inj found⟩
      · obtain ⟨file, mem, named, text⟩ := induction found
        exact ⟨file, List.mem_cons_of_mem _ mem, named, text⟩

/-- Modelled from the spec: `getArtifactFromContractOutput`. -/
def getArtifactFromContractOutput (sourceName contractName contractOutput : String) : Artifact :=
  ⟨contractName, sourceName, contractOutput⟩

/-- `hasCompilationErrors`. -/
def hasCompilationErrors (output : CompilerOutput) : Bool :=
  output.errors.any (·.severity == "error")

/-- The artifacts emitted for one file. -/
structure ArtifactsEmittedForFile where
  file : ResolvedFile
  artifactsEmitted : List String

/-- The artifacts emitted by one compiled job. -/
structure ArtifactsEmittedForJob where
  compilationJob : CompilationJob
  artifactsEmittedPerFile : List ArtifactsEmittedForFile

/-- The inner loop of `EMIT_ARTIFACTS`: the artifact of every contract of a source. -/
def emitContracts (pathToBuildInfo : BuildInfo) (sourceName : String) :
    List (String × String) → Artifacts → Artifacts × List String
  | [], artifacts => (artifacts, [])
  | (contractName, contractOutput) :: contracts, artifacts =>
      let artifact := getArtifactFromContractOutput sourceName contractName contractOutput
      let (artifacts, artifactsEmitted) := emitContracts pathToBuildInfo sourceName contracts
        (artifacts.saveArtifactAndDebugFile artifact pathToBuildInfo)
      (artifacts, artifact.contractName :: artifactsEmitted)

/-- The outer loop of `EMIT_ARTIFACTS`, over the resolved files of the job. -/
def emitFiles (compilationJob : CompilationJob) (output : CompilerOutput) (pathToBuildInfo : BuildInfo) :
    List ResolvedFile → Artifacts → Artifacts × List ArtifactsEmittedForFile
  | [], artifacts => (artifacts, [])
  | file :: files, artifacts =>
      if !compilationJob.emitsArtifacts file then
        emitFiles compilationJob output pathToBuildInfo files artifacts
      else
        let (artifacts, artifactsEmitted) := emitContracts pathToBuildInfo file.sourceName
          ((output.contracts.lookup file.sourceName).getD []) artifacts
        let (artifacts, artifactsEmittedPerFile) :=
          emitFiles compilationJob output pathToBuildInfo files artifacts
        (artifacts, ⟨file, artifactsEmitted⟩ :: artifactsEmittedPerFile)

/-- `TASK_COMPILE_SOLIDITY_EMIT_ARTIFACTS`. -/
def emitArtifacts (compilationJob : CompilationJob) (input : CompilerInput)
    (output : CompilerOutput) (solcBuild : SolcBuild) (artifacts : Artifacts) :
    Artifacts × List ArtifactsEmittedForFile :=
  let pathToBuildInfo := Artifacts.saveBuildInfo compilationJob.getSolcConfig.version
    solcBuild.longVersion input output
  emitFiles compilationJob output pathToBuildInfo compilationJob.getResolvedFiles artifacts

/-- The message `LOG_RUN_COMPILER_START` prints: how many files emit artifacts with
    a solc version. -/
structure RunCompilerStartMessage where
  count : Nat
  solcVersion : String
deriving DecidableEq, Repr

/-- The printed text, `pluralize` of `util/strings` being a parameter. -/
def RunCompilerStartMessage.text (pluralize : Nat → String → String)
    (message : RunCompilerStartMessage) : String :=
  "Compiling " ++ toString message.count ++ " " ++ pluralize message.count "file" ++ " with " ++
    message.solcVersion

/-- The counting loop of `LOG_RUN_COMPILER_START`: the files that emit artifacts in the
    jobs from the logged one on, up to the first job of another version. -/
def countEmittingFiles (solcVersion : String) : List CompilationJob → Nat
  | [] => 0
  | job :: jobs =>
      if job.getSolcConfig.version ≠ solcVersion then 0
      else (job.getResolvedFiles.filter job.emitsArtifacts).length +
        countEmittingFiles solcVersion jobs

/-- `TASK_COMPILE_SOLIDITY_LOG_RUN_COMPILER_START`: a message for the first job and
    for every job whose version differs from the previous job's. -/
def logRunCompilerStart (compilationJobs : List CompilationJob) (compilationJobIndex : Nat) :
    Option RunCompilerStartMessage :=
  match compilationJobs[compilationJobIndex]? with
  | none => none
  | some compilationJob =>
      let solcVersion := compilationJob.getSolcConfig.version
      let shouldLog := compilationJobIndex == 0 ||
        (compilationJobs[compilationJobIndex - 1]?.map (·.getSolcConfig.version)) != some solcVersion
      if shouldLog then
        some ⟨countEmittingFiles solcVersion (compilationJobs.drop compilationJobIndex), solcVersion⟩
      else none

/-- What compiling jobs did: the store after it, the progress messages printed, the
    jobs the compiler ran on, and the artifacts emitted per job or the error it
    stopped at. -/
structure CompileJobsResult where
  artifacts : Artifacts
  startMessages : List RunCompilerStartMessage
  compiledJobs : List CompilationJob
  artifactsEmittedPerJob : Except HardhatError (List ArtifactsEmittedForJob)

section Compile

variable (semver : Semver) (toolchain : Toolchain)

/-- `TASK_COMPILE_SOLIDITY_RUN_SOLCJS` or `TASK_COMPILE_SOLIDITY_RUN_SOLC`, as the build
    is solcjs or native: none when `compile` rejects. -/
def runCompiler (solcBuild : SolcBuild) (input : CompilerInput) : Option CompilerOutput :=
  if solcBuild.isSolcJs then toolchain.runSolcjs solcBuild.compilerPath input
  else toolchain.runSolc solcBuild.compilerPath input

/-- `TASK_COMPILE_SOLIDITY_COMPILE_JOB` on the job at an index of the sorted jobs:
    `COMPILE_SOLC` (version check, `GET_SOLC_BUILD`, the progress message, the
    compiler, whose rejection goes through), then `CHECK_ERRORS` and `EMIT_ARTIFACTS`. -/
def compileJob (compilationJobs : List CompilationJob) (compilationJobIndex : Nat)
    (compilationJob : CompilationJob) (artifacts : Artifacts) : CompileJobsResult :=
  let input := getInputFromCompilationJob compilationJob
  let solcVersion := compilationJob.getSolcConfig.version
  if semver.lt solcVersion firstSolcVersionSupported then
    ⟨artifacts, [], [], .error (.compileTaskUnsupportedSolcVersion solcVersion
      firstSolcVersionSupported)⟩
  else
    match getSolcBuild toolchain.downloader solcVersion with
    | .error error => ⟨artifacts, [], [], .error error⟩
    | .ok solcBuild =>
        let startMessages := (logRunCompilerStart compilationJobs compilationJobIndex).toList
        match runCompiler toolchain solcBuild input with
        | none => ⟨artifacts, startMessages, [compilationJob], .error .compilerProtocol⟩
        | some output =>
            if hasCompilationErrors output then
              ⟨artifacts, startMessages, [compilationJob], .error .compileFailure⟩
            else
              let (artifacts, artifactsEmittedPerFile) :=
                emitArtifacts compilationJob input output solcBuild artifacts
              ⟨artifacts, startMessages, [compilationJob],
                .ok [⟨compilationJob, artifactsEmittedPerFile⟩]⟩

/-- The loop of `TASK_COMPILE_SOLIDITY_COMPILE_JOBS` over the sorted jobs, from an index. -/
def compileJobsFrom (sortedCompilationJobs : List CompilationJob) :
    Nat → List CompilationJob → Artifacts → CompileJobsResult
  | _, [], artifacts => ⟨artifacts, [], [], .ok []⟩
  | compilationJobIndex, compilationJob :: compilationJobs, artifacts =>
      let current := compileJob semver toolchain sortedCompilationJobs compilationJobIndex
        compilationJob artifacts
      match current.artifactsEmittedPerJob with
      | .error error => ⟨current.artifacts, current.startMessages, current.compiledJobs, .error error⟩
      | .ok emitted =>
          let later := compileJobsFrom sortedCompilationJobs (compilationJobIndex + 1)
            compilationJobs current.artifacts
          ⟨later.artifacts, current.startMessages ++ later.startMessages,
            current.compiledJobs ++ later.compiledJobs,
            later.artifactsEmittedPerJob.map (emitted ++ ·)⟩

/-- The comparator of the sort of `TASK_COMPILE_SOLIDITY_COMPILE_JOBS`, as the order a
    stable sort keeps: a job stays before another unless its version compares greater. -/
def compilesBefore (job other : CompilationJob) : Prop :=
  semver.compare job.getSolcConfig.version other.getSolcConfig.version ≠ .gt

instance : DecidableRel (compilesBefore semver) := fun _ _ =>
  inferInstanceAs (Decidable (_ ≠ _))

/-- The sorted jobs.  `Array.prototype.sort` is stable; insertion sort is a stable
    sort, so it gives the same order. -/
def sortCompilationJobs (compilationJobs : List CompilationJob) : List CompilationJob :=
  compilationJobs.insertionSort (compilesBefore semver)

/-- `TASK_COMPILE_SOLIDITY_COMPILE_JOBS`. -/
def compileJobs (compilationJobs : List CompilationJob) (artifacts : Artifacts) :
    CompileJobsResult :=
  if compilationJobs.length = 0 then ⟨artifacts, [], [], .ok []⟩
  else
    let sortedCompilationJobs := sortCompilationJobs semver compilationJobs
    compileJobsFrom semver toolchain sortedCompilationJobs 0 sortedCompilationJobs artifacts

end Compile

section Inversion

variable {semver : Semver} {toolchain : Toolchain}

/-- What `COMPILE_SOLC` and `CHECK_ERRORS` require of a job before `EMIT_ARTIFACTS` runs:
    a solc version no older than `COMPILE_TASK_FIRST_SOLC_VERSION_SUPPORTED`, a compiler
    from `GET_SOLC_BUILD`, an output of that compiler on the job's input, and no
    diagnostic of severity `error` in it. -/
def CompilesCleanly (semver : Semver) (toolchain : Toolchain) (compilationJob : CompilationJob) :
    Prop :=
  semver.lt compilationJob.getSolcConfig.version firstSolcVersionSupported = false ∧
    ∃ solcBuild output,
      getSolcBuild toolchain.downloader compilationJob.getSolcConfig.version = .ok solcBuild ∧
      runCompiler toolchain solcBuild (getInputFromCompilationJob compilationJob) = some output ∧
      hasCompilationErrors output = false

/-- Whether `COMPILE_SOLC` gets as far as running the compiler on the job: its solc
    version is supported and `GET_SOLC_BUILD` returns a compiler. -/
def reachesCompiler (semver : Semver) (toolchain : Toolchain) (compilationJob : CompilationJob) :
    Bool :=
  !semver.lt compilationJob.getSolcConfig.version firstSolcVersionSupported &&
    (getSolcBuild toolchain.downloader compilationJob.getSolcConfig.version).isOk

/-- A job that completes passed the checks of `COMPILE_SOLC` and `CHECK_ERRORS`, ran the
    compiler on its input, printed its progress message, and saved the artifacts
    `EMIT_ARTIFACTS` saves. -/
theorem compileJob_eq_of_ok {compilationJobs : List CompilationJob} {compilationJobIndex : Nat}
    {compilationJob : CompilationJob} {artifacts : Artifacts} {emitted : List ArtifactsEmittedForJob}
    (completed : (compileJob semver toolchain compilationJobs compilationJobIndex compilationJob
      artifacts).artifactsEmittedPerJob = .ok emitted) :
    CompilesCleanly semver toolchain compilationJob ∧
    ∃ solcBuild output,
      getSolcBuild toolchain.downloader compilationJob.getSolcConfig.version = .ok solcBuild ∧
      runCompiler toolchain solcBuild (getInputFromCompilationJob compilationJob) = some output ∧
      compileJob semver toolchain compilationJobs compilationJobIndex compilationJob artifacts =
        let emittedNow := emitArtifacts compilationJob (getInputFromCompilationJob compilationJob)
          output solcBuild artifacts
        ⟨emittedNow.1, (logRunCompilerStart compilationJobs compilationJobIndex).toList,
          [compilationJob], .ok [⟨compilationJob, emittedNow.2⟩]⟩ := by
  unfold compileJob at completed
  dsimp only at completed
  by_cases supported : semver.lt compilationJob.getSolcConfig.version firstSolcVersionSupported
  · simp [supported] at completed
  · rw [if_neg supported] at completed
    cases built : getSolcBuild toolchain.downloader compilationJob.getSolcConfig.version with
    | error => rw [built] at completed; cases completed
    | ok solcBuild =>
        rw [built] at completed
        dsimp only at completed
        cases ran : runCompiler toolchain solcBuild (getInputFromCompilationJob compilationJob) with
        | none => rw [ran] at completed; cases completed
        | some output =>
            rw [ran] at completed
            dsimp only at completed
            by_cases clean : hasCompilationErrors output
            · rw [if_pos clean] at completed
              cases completed
            · refine ⟨⟨Bool.eq_false_iff.mpr supported, solcBuild, output, built, ran,
                Bool.eq_false_iff.mpr clean⟩, solcBuild, output, rfl, ran, ?_⟩
              unfold compileJob
              simp only [if_neg supported, built, ran, if_neg clean]

/-- A job that completes ran the compiler on its input, printed its progress message,
    and saved the artifacts `EMIT_ARTIFACTS` saves. -/
theorem compileJob_of_ok {compilationJobs : List CompilationJob} {compilationJobIndex : Nat}
    {compilationJob : CompilationJob} {artifacts : Artifacts} {emitted : List ArtifactsEmittedForJob}
    (completed : (compileJob semver toolchain compilationJobs compilationJobIndex compilationJob
      artifacts).artifactsEmittedPerJob = .ok emitted) :
    ∃ solcBuild output,
      getSolcBuild toolchain.downloader compilationJob.getSolcConfig.version = .ok solcBuild ∧
      runCompiler toolchain solcBuild (getInputFromCompilationJob compilationJob) = some output ∧
      compileJob semver toolchain compilationJobs compilationJobIndex compilationJob artifacts =
        let emittedNow := emitArtifacts compilationJob (getInputFromCompilationJob compilationJob)
          output solcBuild artifacts
        ⟨emittedNow.1, (logRunCompilerStart compilationJobs compilationJobIndex).toList,
          [compilationJob], .ok [⟨compilationJob, emittedNow.2⟩]⟩ :=
  (compileJob_eq_of_ok completed).2

/-- A job that completes compiled cleanly. -/
theorem compileJob_compilesCleanly {compilationJobs : List CompilationJob}
    {compilationJobIndex : Nat} {compilationJob : CompilationJob} {artifacts : Artifacts}
    {emitted : List ArtifactsEmittedForJob}
    (completed : (compileJob semver toolchain compilationJobs compilationJobIndex compilationJob
      artifacts).artifactsEmittedPerJob = .ok emitted) :
    CompilesCleanly semver toolchain compilationJob :=
  (compileJob_eq_of_ok completed).1

/-- A job that throws did not compile cleanly, and the compiler ran on it exactly when it
    got that far. -/
theorem compileJob_of_error {compilationJobs : List CompilationJob}
    {compilationJobIndex : Nat} {compilationJob : CompilationJob} {artifacts : Artifacts}
    {error : HardhatError}
    (failed : (compileJob semver toolchain compilationJobs compilationJobIndex compilationJob
      artifacts).artifactsEmittedPerJob = .error error) :
    ¬ CompilesCleanly semver toolchain compilationJob ∧
      (compileJob semver toolchain compilationJobs compilationJobIndex compilationJob
        artifacts).compiledJobs =
        if reachesCompiler semver toolchain compilationJob then [compilationJob] else [] := by
  unfold compileJob at failed ⊢
  dsimp only at failed ⊢
  by_cases supported : semver.lt compilationJob.getSolcConfig.version firstSolcVersionSupported
  · simp [supported, CompilesCleanly, reachesCompiler]
  · cases built : getSolcBuild toolchain.downloader compilationJob.getSolcConfig.version with
    | error => simp [supported, built, CompilesCleanly, reachesCompiler, Except.isOk, Except.toBool]
    | ok solcBuild =>
        simp only [supported, built, Bool.false_eq_true, if_false] at failed ⊢
        cases ran : runCompiler toolchain solcBuild (getInputFromCompilationJob compilationJob) with
        | none => simp [supported, built, ran, CompilesCleanly, reachesCompiler, Except.isOk,
            Except.toBool]
        | some output =>
            simp only [ran] at failed ⊢
            by_cases clean : hasCompilationErrors output
            · simp [supported, built, ran, clean, CompilesCleanly, reachesCompiler, Except.isOk,
                Except.toBool]
            · simp [clean] at failed

/-- When the loop completes, it compiled every job, in order, and printed the progress
    message of every index. -/
theorem compileJobsFrom_of_ok {sortedCompilationJobs : List CompilationJob} :
    ∀ {compilationJobIndex : Nat} {compilationJobs : List CompilationJob} {artifacts : Artifacts}
      {emitted : List ArtifactsEmittedForJob},
      (compileJobsFrom semver toolchain sortedCompilationJobs compilationJobIndex compilationJobs
        artifacts).artifactsEmittedPerJob = .ok emitted →
      (compileJobsFrom semver toolchain sortedCompilationJobs compilationJobIndex compilationJobs
          artifacts).compiledJobs = compilationJobs ∧
        (compileJobsFrom semver toolchain sortedCompilationJobs compilationJobIndex compilationJobs
          artifacts).startMessages =
          (List.range' compilationJobIndex compilationJobs.length).filterMap
            (logRunCompilerStart sortedCompilationJobs)
  | _, [], _, _ => by simp [compileJobsFrom]
  | compilationJobIndex, compilationJob :: compilationJobs, artifacts, emitted => by
      intro completed
      unfold compileJobsFrom at completed ⊢
      cases current : (compileJob semver toolchain sortedCompilationJobs compilationJobIndex
          compilationJob artifacts).artifactsEmittedPerJob with
      | error => simp [current] at completed
      | ok emittedNow =>
          obtain ⟨solcBuild, output, -, -, ran⟩ := compileJob_of_ok current
          simp only [current] at completed ⊢
          cases later : (compileJobsFrom semver toolchain sortedCompilationJobs
              (compilationJobIndex + 1) compilationJobs
              (compileJob semver toolchain sortedCompilationJobs compilationJobIndex compilationJob
                artifacts).artifacts).artifactsEmittedPerJob with
          | error => simp [later, Except.map] at completed
          | ok emittedLater =>
              obtain ⟨compiledLater, messagesLater⟩ := compileJobsFrom_of_ok later
              rw [compiledLater, messagesLater, ran]
              simp only [List.length_cons, List.range'_succ, List.filterMap_cons]
              constructor
              · rfl
              · cases logRunCompilerStart sortedCompilationJobs compilationJobIndex <;> rfl

/-- One iteration of the loop: when the loop completes, the first job completed and so
    did the loop over the rest, from the store the first job left. -/
theorem compileJobsFrom_cons_of_ok {sortedCompilationJobs : List CompilationJob}
    {compilationJobIndex : Nat} {compilationJob : CompilationJob}
    {compilationJobs : List CompilationJob} {artifacts : Artifacts}
    {emitted : List ArtifactsEmittedForJob}
    (completed : (compileJobsFrom semver toolchain sortedCompilationJobs compilationJobIndex
      (compilationJob :: compilationJobs) artifacts).artifactsEmittedPerJob = .ok emitted) :
    ∃ emittedNow emittedLater,
      (compileJob semver toolchain sortedCompilationJobs compilationJobIndex compilationJob
        artifacts).artifactsEmittedPerJob = .ok emittedNow ∧
      (compileJobsFrom semver toolchain sortedCompilationJobs (compilationJobIndex + 1) compilationJobs
        (compileJob semver toolchain sortedCompilationJobs compilationJobIndex compilationJob
          artifacts).artifacts).artifactsEmittedPerJob = .ok emittedLater ∧
      emitted = emittedNow ++ emittedLater := by
  unfold compileJobsFrom at completed
  cases current : (compileJob semver toolchain sortedCompilationJobs compilationJobIndex
      compilationJob artifacts).artifactsEmittedPerJob with
  | error => simp [current] at completed
  | ok emittedNow =>
      simp only [current] at completed
      cases later : (compileJobsFrom semver toolchain sortedCompilationJobs (compilationJobIndex + 1)
          compilationJobs (compileJob semver toolchain sortedCompilationJobs compilationJobIndex
            compilationJob artifacts).artifacts).artifactsEmittedPerJob with
      | error => simp [later, Except.map] at completed
      | ok emittedLater =>
          simp only [later, Except.map, Except.ok.injEq] at completed
          exact ⟨emittedNow, emittedLater, rfl, rfl, completed.symm⟩

/-- When the loop completes, every job it went through compiled cleanly. -/
theorem compileJobsFrom_compilesCleanly {sortedCompilationJobs : List CompilationJob} :
    ∀ {compilationJobIndex : Nat} {compilationJobs : List CompilationJob} {artifacts : Artifacts}
      {emitted : List ArtifactsEmittedForJob},
      (compileJobsFrom semver toolchain sortedCompilationJobs compilationJobIndex compilationJobs
        artifacts).artifactsEmittedPerJob = .ok emitted →
      ∀ job ∈ compilationJobs, CompilesCleanly semver toolchain job
  | _, [], _, _, _ => nofun
  | _, _ :: _, _, _, completed => by
      obtain ⟨_, _, current, later, -⟩ := compileJobsFrom_cons_of_ok completed
      rintro job (_ | ⟨_, mem⟩)
      · exact compileJob_compilesCleanly current
      · exact compileJobsFrom_compilesCleanly later job mem

/-- When the loop throws, it threw at the first job that does not compile cleanly: every
    job before it did, and the compiler ran on those jobs and on the failing one when it
    got that far. -/
theorem compileJobsFrom_of_error {sortedCompilationJobs : List CompilationJob} :
    ∀ {compilationJobIndex : Nat} {compilationJobs : List CompilationJob} {artifacts : Artifacts}
      {error : HardhatError},
      (compileJobsFrom semver toolchain sortedCompilationJobs compilationJobIndex compilationJobs
        artifacts).artifactsEmittedPerJob = .error error →
      ∃ before failing after, compilationJobs = before ++ failing :: after ∧
        (∀ job ∈ before, CompilesCleanly semver toolchain job) ∧
        ¬ CompilesCleanly semver toolchain failing ∧
        (compileJobsFrom semver toolchain sortedCompilationJobs compilationJobIndex compilationJobs
          artifacts).compiledJobs =
          before ++ if reachesCompiler semver toolchain failing then [failing] else []
  | _, [], _, _, failed => by simp [compileJobsFrom] at failed
  | compilationJobIndex, compilationJob :: compilationJobs, artifacts, _, failed => by
      unfold compileJobsFrom at failed ⊢
      cases current : (compileJob semver toolchain sortedCompilationJobs compilationJobIndex
          compilationJob artifacts).artifactsEmittedPerJob with
      | error =>
          obtain ⟨unclean, compiled⟩ := compileJob_of_error current
          simp only [current]
          exact ⟨[], compilationJob, compilationJobs, rfl, nofun, unclean, compiled⟩
      | ok emittedNow =>
          obtain ⟨solcBuild, output, -, -, ran⟩ := compileJob_of_ok current
          simp only [current] at failed ⊢
          cases later : (compileJobsFrom semver toolchain sortedCompilationJobs
              (compilationJobIndex + 1) compilationJobs
              (compileJob semver toolchain sortedCompilationJobs compilationJobIndex compilationJob
                artifacts).artifacts).artifactsEmittedPerJob with
          | ok => simp [later, Except.map] at failed
          | error laterError =>
              obtain ⟨before, failing, after, split, clean, unclean, compiled⟩ :=
                compileJobsFrom_of_error later
              refine ⟨compilationJob :: before, failing, after, by rw [split]; rfl, ?_, unclean, ?_⟩
              · rintro job (_ | ⟨_, mem⟩)
                · exact compileJob_compilesCleanly current
                · exact clean job mem
              · rw [compiled, ran]
                rfl

/-- When `TASK_COMPILE_SOLIDITY_COMPILE_JOBS` completes, it ran the compiler on every
    job, in sorted order, and every job compiled cleanly. -/
theorem compileJobs_of_ok {compilationJobs : List CompilationJob} {artifacts : Artifacts}
    {emitted : List ArtifactsEmittedForJob}
    (completed : (compileJobs semver toolchain compilationJobs artifacts).artifactsEmittedPerJob =
      .ok emitted) :
    (compileJobs semver toolchain compilationJobs artifacts).compiledJobs =
        sortCompilationJobs semver compilationJobs ∧
      ∀ job ∈ compilationJobs, CompilesCleanly semver toolchain job := by
  by_cases empty : compilationJobs.length = 0
  · rw [List.length_eq_zero] at empty
    subst empty
    exact ⟨rfl, nofun⟩
  · simp only [compileJobs, empty, if_false] at completed ⊢
    refine ⟨(compileJobsFrom_of_ok completed).1, fun job mem =>
      compileJobsFrom_compilesCleanly completed job ?_⟩
    exact (List.perm_insertionSort _ compilationJobs).mem_iff.mpr mem

/-- When `TASK_COMPILE_SOLIDITY_COMPILE_JOBS` throws, it threw at the first sorted job
    that does not compile cleanly, having run the compiler on the jobs before it. -/
theorem compileJobs_of_error {compilationJobs : List CompilationJob} {artifacts : Artifacts}
    {error : HardhatError}
    (failed : (compileJobs semver toolchain compilationJobs artifacts).artifactsEmittedPerJob =
      .error error) :
    ∃ before failing after, sortCompilationJobs semver compilationJobs = before ++ failing :: after ∧
      (∀ job ∈ before, CompilesCleanly semver toolchain job) ∧
      ¬ CompilesCleanly semver toolchain failing ∧
      (compileJobs semver toolchain compilationJobs artifacts).compiledJobs =
        before ++ if reachesCompiler semver toolchain failing then [failing] else [] := by
  by_cases empty : compilationJobs.length = 0
  · simp [compileJobs, empty] at failed
  · simp only [compileJobs, empty, if_false] at failed ⊢
    exact compileJobsFrom_of_error failed

end Inversion

end Hardhat.Compile
