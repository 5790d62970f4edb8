import Hardhat.Compile.CompileJobs

namespace Hardhat.Compile

/-! # What compiling saves

`TASK_COMPILE_SOLIDITY_EMIT_ARTIFACTS` saves, for every file a job emits, the
artifact of every contract the compiler output gives for that file, each pointing
at the build info of the compilation.  `Artifacts.Overwrites` says how a store
changes under such saves: the names it selects get an artifact of a given kind,
every other name keeps its artifact.  The emission loops, one job, and the loop of
`TASK_COMPILE_SOLIDITY_COMPILE_JOBS` are each proved to overwrite the store in this
sense, and the artifacts emitted per job are computed.
-/

/-- The contracts the compiler output gives for a source, with their outputs. -/
def contractsOf (output : CompilerOutput) (sourceName : String) : List (String × String) :=
  (output.contracts.lookup sourceName).getD []

/-- The names of the contracts the compiler output gives for a source. -/
def contractNames (output : CompilerOutput) (sourceName : String) : List String :=
  (contractsOf output sourceName).map (·.1)

/-- The artifact saved under a name is one of `contracts` of that name, with its
    debug file pointing at `buildInfo`. -/
def SavedFrom (buildInfo : BuildInfo) (contracts : List (String × String))
    (fullyQualifiedName : FullyQualifiedName) (saved : SavedArtifact) : Prop :=
  ∃ contractOutput, (fullyQualifiedName.contractName, contractOutput) ∈ contracts ∧
    saved = ⟨getArtifactFromContractOutput fullyQualifiedName.sourceName
      fullyQualifiedName.contractName contractOutput, buildInfo⟩

namespace Artifacts

/-- `after` is `before` with an artifact that `allowed` admits saved under every name
    `emits` selects, and every other name as it was. -/
def Overwrites (before after : Artifacts) (emits : FullyQualifiedName → Prop)
    (allowed : FullyQualifiedName → SavedArtifact → Prop) : Prop :=
  ∀ fullyQualifiedName,
    (emits fullyQualifiedName →
      ∃ saved, after.saved fullyQualifiedName = some saved ∧ allowed fullyQualifiedName saved) ∧
    (¬ emits fullyQualifiedName → after.saved fullyQualifiedName = before.saved fullyQualifiedName)

namespace Overwrites

variable {before middle after : Artifacts} {emits emits' : FullyQualifiedName → Prop}
  {allowed allowed' : FullyQualifiedName → SavedArtifact → Prop}

/-- No save at all. -/
theorem of_forall_not {artifacts : Artifacts} (unselected : ∀ name, ¬ emits name) :
    Overwrites artifacts artifacts emits allowed :=
  fun name => ⟨fun selected => absurd selected (unselected name), fun _ => rfl⟩

/-- Two rounds of saves: the later round wins on the names it selects. -/
theorem trans (first : Overwrites before middle emits allowed)
    (second : Overwrites middle after emits' allowed) :
    Overwrites before after (fun name => emits name ∨ emits' name) allowed := by
  intro name
  refine ⟨fun selected => ?_, fun unselected => ?_⟩
  · by_cases later : emits' name
    · exact (second name).1 later
    · rw [(second name).2 later]
      exact (first name).1 (selected.resolve_right later)
  · rw [(second name).2 fun later => unselected (.inr later),
      (first name).2 fun earlier => unselected (.inl earlier)]

theorem mono (overwrites : Overwrites before after emits allowed)
    (sameNames : ∀ name, emits name ↔ emits' name)
    (weaker : ∀ name saved, emits name → allowed name saved → allowed' name saved) :
    Overwrites before after emits' allowed' := by
  intro name
  refine ⟨fun selected => ?_, fun unselected => (overwrites name).2 (mt (sameNames name).mp unselected)⟩
  obtain ⟨saved, found, admitted⟩ := (overwrites name).1 ((sameNames name).mpr selected)
  exact ⟨saved, found, weaker name saved ((sameNames name).mpr selected) admitted⟩

/-- What a store keeps under a name no save selects. -/
theorem saved_eq (overwrites : Overwrites before after emits allowed)
    {name : FullyQualifiedName} (unselected : ¬ emits name) :
    after.saved name = before.saved name :=
  (overwrites name).2 unselected

/-- A save of one artifact. -/
theorem saveArtifactAndDebugFile (artifacts : Artifacts) (artifact : Artifact)
    (buildInfo : BuildInfo) :
    Overwrites artifacts (artifacts.saveArtifactAndDebugFile artifact buildInfo)
      (· = getFullyQualifiedName artifact.sourceName artifact.contractName)
      (fun _ saved => saved = ⟨artifact, buildInfo⟩) := by
  intro name
  refine ⟨fun selected => ⟨_, by rw [saved_saveArtifactAndDebugFile, if_pos selected], rfl⟩,
    fun unselected => ?_⟩
  rw [saved_saveArtifactAndDebugFile, if_neg unselected]

end Overwrites

/-- Two stores changed by the same saves: under every name, neither store changed, or
    both hold the same artifact. -/
def SameSaves (before after before' after' : Artifacts) : Prop :=
  ∀ fullyQualifiedName,
    (after.saved fullyQualifiedName = before.saved fullyQualifiedName ∧
        after'.saved fullyQualifiedName = before'.saved fullyQualifiedName) ∨
      after.saved fullyQualifiedName = after'.saved fullyQualifiedName

namespace SameSaves

variable {before middle after before' middle' after' : Artifacts}

theorem refl (before before' : Artifacts) : SameSaves before before before' before' :=
  fun _ => .inl ⟨rfl, rfl⟩

theorem trans (first : SameSaves before middle before' middle')
    (second : SameSaves middle after middle' after') : SameSaves before after before' after' := by
  intro name
  rcases second name with ⟨same, same'⟩ | equal
  · rw [same, same']
    exact first name
  · exact .inr equal

/-- One save, made on two stores. -/
theorem saveArtifactAndDebugFile (before before' : Artifacts) (artifact : Artifact)
    (buildInfo : BuildInfo) :
    SameSaves before (before.saveArtifactAndDebugFile artifact buildInfo)
      before' (before'.saveArtifactAndDebugFile artifact buildInfo) := by
  intro name
  simp only [saved_saveArtifactAndDebugFile]
  split_ifs
  · exact .inr rfl
  · exact .inl ⟨rfl, rfl⟩

end SameSaves

end Artifacts

section Emission

variable (buildInfo : BuildInfo) (sourceName : String)

theorem emitContracts_snd :
    ∀ (contracts : List (String × String)) (artifacts : Artifacts),
      (emitContracts buildInfo sourceName contracts artifacts).2 = contracts.map (·.1)
  | [], _ => rfl
  | (_, _) :: contracts, _ => congrArg (_ :: ·) (emitContracts_snd contracts _)

/-- The inner emission loop saves the artifact of every contract of the list. -/
theorem overwrites_emitContracts :
    ∀ (contracts : List (String × String)) (artifacts : Artifacts),
      artifacts.Overwrites (emitContracts buildInfo sourceName contracts artifacts).1
        (fun name => name.sourceName = sourceName ∧ name.contractName ∈ contracts.map (·.1))
        (SavedFrom buildInfo contracts)
  | [], artifacts => Artifacts.Overwrites.of_forall_not (by simp)
  | (contractName, contractOutput) :: contracts, artifacts => by
      let contracts' := (contractName, contractOutput) :: contracts
      have first : artifacts.Overwrites (artifacts.saveArtifactAndDebugFile
            (getArtifactFromContractOutput sourceName contractName contractOutput) buildInfo)
          (· = getFullyQualifiedName sourceName contractName) (SavedFrom buildInfo contracts') :=
        (Artifacts.Overwrites.saveArtifactAndDebugFile _ _ _).mono (fun _ => Iff.rfl)
          (by rintro name saved rfl rfl; exact ⟨contractOutput, List.mem_cons_self _ _, rfl⟩)
      have rest : Artifacts.Overwrites _ _ _ (SavedFrom buildInfo contracts') :=
        (overwrites_emitContracts contracts (artifacts.saveArtifactAndDebugFile
          (getArtifactFromContractOutput sourceName contractName contractOutput) buildInfo)).mono (fun _ => Iff.rfl)
          fun _ _ _ ⟨other, mem, same⟩ => ⟨other, List.mem_cons_of_mem _ mem, same⟩
      refine (first.trans rest).mono (fun name => ?_) fun _ _ _ => id
      cases name
      simp only [getFullyQualifiedName, FullyQualifiedName.mk.injEq, contracts', List.map_cons,
        List.mem_cons]
      exact and_or_left.symm

variable (compilationJob : CompilationJob) (output : CompilerOutput)

/-- The outer emission loop reports the files that emit, each with the contract names
    of its output. -/
theorem emitFiles_snd :
    ∀ (files : List ResolvedFile) (artifacts : Artifacts),
      (emitFiles compilationJob output buildInfo files artifacts).2 =
        (files.filter compilationJob.emitsArtifacts).map fun file =>
          ⟨file, contractNames output file.sourceName⟩
  | [], _ => rfl
  | file :: files, artifacts => by
      by_cases emits : compilationJob.emitsArtifacts file = true
      · rw [List.filter_cons_of_pos emits]
        simp only [emitFiles, emits, Bool.not_true, Bool.false_eq_true, if_false, List.map_cons,
          emitContracts_snd, contractNames, contractsOf]
        exact congrArg _ (emitFiles_snd files _)
      · rw [List.filter_cons_of_neg emits]
        simp only [emitFiles, emits, Bool.not_false, if_true]
        exact emitFiles_snd files artifacts

/-- The outer emission loop saves, for every file that emits, the artifacts of the
    contracts the output gives for it. -/
theorem overwrites_emitFiles :
    ∀ (files : List ResolvedFile) (artifacts : Artifacts),
      artifacts.Overwrites (emitFiles compilationJob output buildInfo files artifacts).1
        (fun name => (∃ file ∈ files, compilationJob.emitsArtifacts file = true ∧
            file.sourceName = name.sourceName) ∧
          name.contractName ∈ contractNames output name.sourceName)
        (fun name => SavedFrom buildInfo (contractsOf output name.sourceName) name)
  | [], artifacts => Artifacts.Overwrites.of_forall_not (by simp)
  | file :: files, artifacts => by
      by_cases emits : compilationJob.emitsArtifacts file = true
      · simp only [emitFiles, emits, Bool.not_true, Bool.false_eq_true, if_false]
        have first : Artifacts.Overwrites _ _ _
            (fun name => SavedFrom buildInfo (contractsOf output name.sourceName) name) :=
          (overwrites_emitContracts buildInfo file.sourceName (contractsOf output file.sourceName)
            artifacts).mono (fun _ => Iff.rfl) fun name _ selected admitted => by
              rwa [selected.1]
        refine (first.trans (overwrites_emitFiles files _)).mono (fun name => ?_) fun _ _ _ => id
        simp only [List.mem_cons, exists_eq_or_imp, emits, true_and, contractNames]
        constructor
        · rintro (⟨same, mem⟩ | ⟨later, mem⟩)
          · exact ⟨.inl same.symm, same ▸ mem⟩
          · exact ⟨.inr later, mem⟩
        · rintro ⟨first | later, mem⟩
          · exact .inl ⟨first.symm, first ▸ mem⟩
          · exact .inr ⟨later, mem⟩
      · simp only [emitFiles, emits, Bool.not_false, if_true]
        refine (overwrites_emitFiles files artifacts).mono (fun name => ?_) fun _ _ _ => id
        simp only [List.mem_cons, exists_eq_or_imp, emits, Bool.false_eq_true, false_and, false_or]

/-- The inner emission loop makes the same saves from any store. -/
theorem sameSaves_emitContracts :
    ∀ (contracts : List (String × String)) (artifacts artifacts' : Artifacts),
      artifacts.SameSaves (emitContracts buildInfo sourceName contracts artifacts).1
        artifacts' (emitContracts buildInfo sourceName contracts artifacts').1
  | [], artifacts, artifacts' => Artifacts.SameSaves.refl artifacts artifacts'
  | (_, _) :: contracts, artifacts, artifacts' =>
      (Artifacts.SameSaves.saveArtifactAndDebugFile artifacts artifacts' _ buildInfo).trans
        (sameSaves_emitContracts contracts _ _)

/-- The outer emission loop makes the same saves from any store. -/
theorem sameSaves_emitFiles :
    ∀ (files : List ResolvedFile) (artifacts artifacts' : Artifacts),
      artifacts.SameSaves (emitFiles compilationJob output buildInfo files artifacts).1
        artifacts' (emitFiles compilationJob output buildInfo files artifacts').1
  | [], artifacts, artifacts' => Artifacts.SameSaves.refl artifacts artifacts'
  | file :: files, artifacts, artifacts' => by
      by_cases emits : compilationJob.emitsArtifacts file = true
      · simp only [emitFiles, emits, Bool.not_true, Bool.false_eq_true, if_false]
        exact (sameSaves_emitContracts buildInfo file.sourceName _ artifacts artifacts').trans
          (sameSaves_emitFiles files _ _)
      · simp only [emitFiles, emits, Bool.not_false, if_true]
        exact sameSaves_emitFiles files artifacts artifacts'

end Emission

/-- The compiler output of a job whose compiler the downloader can provide and does not
    reject the job's input. -/
def compilerOutput (toolchain : Toolchain) (compilationJob : CompilationJob) :
    Option (SolcBuild × CompilerOutput) :=
  match getSolcBuild toolchain.downloader compilationJob.getSolcConfig.version with
  | .ok solcBuild =>
      (runCompiler toolchain solcBuild (getInputFromCompilationJob compilationJob)).map
        (solcBuild, ·)
  | .error _ => none

/-- The build info `EMIT_ARTIFACTS` saves for a job compiled by a build. -/
def buildInfoOf (compilationJob : CompilationJob) (solcBuild : SolcBuild)
    (output : CompilerOutput) : BuildInfo :=
  Artifacts.saveBuildInfo compilationJob.getSolcConfig.version solcBuild.longVersion
    (getInputFromCompilationJob compilationJob) output

/-- Compiling the job saves an artifact under the name: a file of the job with that
    source name emits, and the output has a contract of that name for it. -/
def SavesArtifact (toolchain : Toolchain) (compilationJob : CompilationJob)
    (fullyQualifiedName : FullyQualifiedName) : Prop :=
  ∃ solcBuild output, compilerOutput toolchain compilationJob = some (solcBuild, output) ∧
    (∃ file ∈ compilationJob.getResolvedFiles, compilationJob.emitsArtifacts file = true ∧
      file.sourceName = fullyQualifiedName.sourceName) ∧
    fullyQualifiedName.contractName ∈ contractNames output fullyQualifiedName.sourceName

/-- The artifact is one that compiling the job saves under the name. -/
def SavedBy (toolchain : Toolchain) (compilationJob : CompilationJob)
    (fullyQualifiedName : FullyQualifiedName) (saved : SavedArtifact) : Prop :=
  ∃ solcBuild output, compilerOutput toolchain compilationJob = some (solcBuild, output) ∧
    (∃ file ∈ compilationJob.getResolvedFiles, compilationJob.emitsArtifacts file = true ∧
      file.sourceName = fullyQualifiedName.sourceName) ∧
    SavedFrom (buildInfoOf compilationJob solcBuild output)
      (contractsOf output fullyQualifiedName.sourceName) fullyQualifiedName saved

/-- The artifacts emitted for a job: its files that emit, with the contract names of
    its output. -/
def ArtifactsEmittedFor (toolchain : Toolchain) (emitted : ArtifactsEmittedForJob) : Prop :=
  ∃ solcBuild output, compilerOutput toolchain emitted.compilationJob = some (solcBuild, output) ∧
    emitted.artifactsEmittedPerFile =
      (emitted.compilationJob.getResolvedFiles.filter emitted.compilationJob.emitsArtifacts).map
        fun file => ⟨file, contractNames output file.sourceName⟩

section Compiled

variable {semver : Semver} {toolchain : Toolchain}

theorem compilerOutput_eq_some {compilationJob : CompilationJob} {solcBuild : SolcBuild}
    {output : CompilerOutput}
    (built : getSolcBuild toolchain.downloader compilationJob.getSolcConfig.version = .ok solcBuild)
    (ran : runCompiler toolchain solcBuild (getInputFromCompilationJob compilationJob) = some output) :
    compilerOutput toolchain compilationJob = some (solcBuild, output) := by
  simp only [compilerOutput, built, ran, Option.map_some']

/-- A job that completes emits its files and saves their artifacts. -/
theorem compileJob_emits {compilationJobs : List CompilationJob} {compilationJobIndex : Nat}
    {compilationJob : CompilationJob} {artifacts : Artifacts} {emitted : List ArtifactsEmittedForJob}
    (completed : (compileJob semver toolchain compilationJobs compilationJobIndex compilationJob
      artifacts).artifactsEmittedPerJob = .ok emitted) :
    (∃ emittedNow, emitted = [emittedNow] ∧ emittedNow.compilationJob = compilationJob ∧
      ArtifactsEmittedFor toolchain emittedNow) ∧
    artifacts.Overwrites (compileJob semver toolchain compilationJobs compilationJobIndex
        compilationJob artifacts).artifacts
      (SavesArtifact toolchain compilationJob) (SavedBy toolchain compilationJob) := by
  obtain ⟨solcBuild, _, built, compiled, ran⟩ := compileJob_of_ok completed
  have output := compilerOutput_eq_some built compiled
  rw [ran] at completed ⊢
  simp only [Except.ok.injEq] at completed
  subst completed
  refine ⟨⟨_, rfl, rfl, solcBuild, _, output, emitFiles_snd _ _ _ _ _⟩, ?_⟩
  refine (overwrites_emitFiles _ _ _ _ artifacts).mono (fun name => ?_) ?_
  · refine ⟨fun saves => ⟨solcBuild, _, output, saves⟩, fun ⟨_, _, found, saves⟩ => ?_⟩
    rw [output] at found
    cases found
    exact saves
  · rintro name saved ⟨owner, -⟩ admitted
    exact ⟨solcBuild, _, output, owner, admitted⟩

/-- When the loop of `TASK_COMPILE_SOLIDITY_COMPILE_JOBS` completes, it emitted every job
    in order, and the store holds, under every name some job saves, an artifact one of
    those jobs saved. -/
theorem compileJobsFrom_emits {sortedCompilationJobs : List CompilationJob} :
    ∀ {compilationJobIndex : Nat} {compilationJobs : List CompilationJob} {artifacts : Artifacts}
      {emitted : List ArtifactsEmittedForJob},
      (compileJobsFrom semver toolchain sortedCompilationJobs compilationJobIndex compilationJobs
        artifacts).artifactsEmittedPerJob = .ok emitted →
      emitted.map (·.compilationJob) = compilationJobs ∧
        (∀ emittedJob ∈ emitted, ArtifactsEmittedFor toolchain emittedJob) ∧
        artifacts.Overwrites (compileJobsFrom semver toolchain sortedCompilationJobs
            compilationJobIndex compilationJobs artifacts).artifacts
          (fun name => ∃ job ∈ compilationJobs, SavesArtifact toolchain job name)
          (fun name saved => ∃ job ∈ compilationJobs, SavedBy toolchain job name saved)
  | _, [], artifacts, emitted => by
      intro completed
      simp only [compileJobsFrom, Except.ok.injEq] at completed
      subst completed
      exact ⟨rfl, nofun, Artifacts.Overwrites.of_forall_not (by simp)⟩
  | compilationJobIndex, compilationJob :: compilationJobs, artifacts, emitted => by
      intro completed
      unfold compileJobsFrom at completed ⊢
      cases current : (compileJob semver toolchain sortedCompilationJobs compilationJobIndex
          compilationJob artifacts).artifactsEmittedPerJob with
      | error => simp [current] at completed
      | ok emittedNow =>
          obtain ⟨⟨now, rfl, nowJob, nowEmitted⟩, nowOverwrites⟩ := compileJob_emits current
          simp only [current] at completed ⊢
          cases later : (compileJobsFrom semver toolchain sortedCompilationJobs
              (compilationJobIndex + 1) compilationJobs
              (compileJob semver toolchain sortedCompilationJobs compilationJobIndex compilationJob
                artifacts).artifacts).artifactsEmittedPerJob with
          | error => simp [later, Except.map] at completed
          | ok emittedLater =>
              simp only [later, Except.map, Except.ok.injEq] at completed
              subst completed
              obtain ⟨laterJobs, laterEmitted, laterOverwrites⟩ := compileJobsFrom_emits later
              refine ⟨by simp [nowJob, laterJobs], ?_, ?_⟩
              · rintro emittedJob (here | ⟨_, there⟩)
                · exact nowEmitted
                · exact laterEmitted emittedJob there
              · let savedByAny := fun name saved =>
                  ∃ job ∈ compilationJob :: compilationJobs, SavedBy toolchain job name saved
                have now : Artifacts.Overwrites _ _ _ savedByAny := nowOverwrites.mono
                  (fun _ => Iff.rfl) fun _ _ _ saves => ⟨compilationJob, List.mem_cons_self _ _, saves⟩
                have rest : Artifacts.Overwrites _ _ _ savedByAny := laterOverwrites.mono
                  (fun _ => Iff.rfl) fun _ _ _ ⟨job, mem, saves⟩ =>
                    ⟨job, List.mem_cons_of_mem _ mem, saves⟩
                exact (now.trans rest).mono (by simp) fun _ _ _ => id

/-- When `TASK_COMPILE_SOLIDITY_COMPILE_JOBS` completes, it emitted every job (in sorted
    order), and the store holds, under every name some job saves, an artifact one of
    the jobs saved. -/
theorem compileJobs_emits {compilationJobs : List CompilationJob} {artifacts : Artifacts}
    {emitted : List ArtifactsEmittedForJob}
    (completed : (compileJobs semver toolchain compilationJobs artifacts).artifactsEmittedPerJob =
      .ok emitted) :
    emitted.map (·.compilationJob) = sortCompilationJobs semver compilationJobs ∧
      (∀ emittedJob ∈ emitted, ArtifactsEmittedFor toolchain emittedJob) ∧
      artifacts.Overwrites (compileJobs semver toolchain compilationJobs artifacts).artifacts
        (fun name => ∃ job ∈ compilationJobs, SavesArtifact toolchain job name)
        (fun name saved => ∃ job ∈ compilationJobs, SavedBy toolchain job name saved) := by
  by_cases empty : compilationJobs.length = 0
  · rw [List.length_eq_zero] at empty
    subst empty
    simp only [compileJobs, List.length_nil, if_true, Except.ok.injEq] at completed
    subst completed
    exact ⟨rfl, nofun, Artifacts.Overwrites.of_forall_not (by simp)⟩
  · simp only [compileJobs, empty, if_false] at completed ⊢
    obtain ⟨jobs, emittedFor, overwrites⟩ := compileJobsFrom_emits completed
    have sameMembers : ∀ job, job ∈ sortCompilationJobs semver compilationJobs ↔ job ∈ compilationJobs :=
      fun _ => (List.perm_insertionSort _ compilationJobs).mem_iff
    refine ⟨jobs, emittedFor, overwrites.mono (fun name => ?_) fun name saved _ => ?_⟩
    · exact exists_congr fun job => and_congr_left fun _ => sameMembers job
    · exact fun ⟨job, mem, saves⟩ => ⟨job, (sameMembers job).mp mem, saves⟩

/-- Two runs of the compile loop from different stores: they print the same messages,
    compile the same jobs, end the same way, and make the same saves. -/
structure SameRun (artifacts artifacts' : Artifacts) (result result' : CompileJobsResult) :
    Prop where
  startMessages : result.startMessages = result'.startMessages
  compiledJobs : result.compiledJobs = result'.compiledJobs
  artifactsEmittedPerJob : result.artifactsEmittedPerJob = result'.artifactsEmittedPerJob
  sameSaves : artifacts.SameSaves result.artifacts artifacts' result'.artifacts

/-- Compiling a job reads nothing of the store. -/
theorem compileJob_sameRun (compilationJobs : List CompilationJob) (compilationJobIndex : Nat)
    (compilationJob : CompilationJob) (artifacts artifacts' : Artifacts) :
    SameRun artifacts artifacts'
      (compileJob semver toolchain compilationJobs compilationJobIndex compilationJob artifacts)
      (compileJob semver toolchain compilationJobs compilationJobIndex compilationJob artifacts') := by
  unfold compileJob
  dsimp only
  split_ifs
  · exact ⟨rfl, rfl, rfl, .refl artifacts artifacts'⟩
  · cases getSolcBuild toolchain.downloader compilationJob.getSolcConfig.version with
    | error => exact ⟨rfl, rfl, rfl, .refl artifacts artifacts'⟩
    | ok solcBuild =>
        dsimp only
        cases runCompiler toolchain solcBuild (getInputFromCompilationJob compilationJob) with
        | none => exact ⟨rfl, rfl, rfl, .refl artifacts artifacts'⟩
        | some output =>
            dsimp only
            split_ifs
            · exact ⟨rfl, rfl, rfl, .refl artifacts artifacts'⟩
            · refine ⟨rfl, rfl, ?_, sameSaves_emitFiles _ _ _ _ _ _⟩
              simp only [emitArtifacts, emitFiles_snd]

/-- The loop of `TASK_COMPILE_SOLIDITY_COMPILE_JOBS` reads nothing of the store. -/
theorem compileJobsFrom_sameRun (sortedCompilationJobs : List CompilationJob) :
    ∀ (compilationJobIndex : Nat) (compilationJobs : List CompilationJob)
      (artifacts artifacts' : Artifacts),
      SameRun artifacts artifacts'
        (compileJobsFrom semver toolchain sortedCompilationJobs compilationJobIndex compilationJobs
          artifacts)
        (compileJobsFrom semver toolchain sortedCompilationJobs compilationJobIndex compilationJobs
          artifacts')
  | _, [], artifacts, artifacts' => ⟨rfl, rfl, rfl, .refl artifacts artifacts'⟩
  | compilationJobIndex, compilationJob :: compilationJobs, artifacts, artifacts' => by
      have current : SameRun artifacts artifacts'
          (compileJob semver toolchain sortedCompilationJobs compilationJobIndex compilationJob
            artifacts)
          (compileJob semver toolchain sortedCompilationJobs compilationJobIndex compilationJob
            artifacts') :=
        compileJob_sameRun _ _ _ _ _
      have later := compileJobsFrom_sameRun sortedCompilationJobs (compilationJobIndex + 1)
        compilationJobs
        (compileJob semver toolchain sortedCompilationJobs compilationJobIndex compilationJob
          artifacts).artifacts
        (compileJob semver toolchain sortedCompilationJobs compilationJobIndex compilationJob
          artifacts').artifacts
      unfold compileJobsFrom
      dsimp only
      rw [← current.artifactsEmittedPerJob]
      cases (compileJob semver toolchain sortedCompilationJobs compilationJobIndex compilationJob
          artifacts).artifactsEmittedPerJob with
      | error => exact ⟨current.startMessages, current.compiledJobs, rfl, current.sameSaves⟩
      | ok =>
          exact ⟨by rw [current.startMessages, later.startMessages],
            by rw [current.compiledJobs, later.compiledJobs], by rw [later.artifactsEmittedPerJob],
            current.sameSaves.trans later.sameSaves⟩

/-- `TASK_COMPILE_SOLIDITY_COMPILE_JOBS` reads nothing of the store. -/
theorem compileJobs_sameRun (compilationJobs : List CompilationJob) (artifacts artifacts' : Artifacts) :
    SameRun artifacts artifacts' (compileJobs semver toolchain compilationJobs artifacts)
      (compileJobs semver toolchain compilationJobs artifacts') := by
  unfold compileJobs
  split_ifs
  · exact ⟨rfl, rfl, rfl, .refl artifacts artifacts'⟩
  · exact compileJobsFrom_sameRun _ _ _ _ _

end Compiled

end Hardhat.Compile
