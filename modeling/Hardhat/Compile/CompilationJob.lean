import Hardhat.Compile.Graph

namespace Hardhat.Compile

/-! # Compilation jobs and their merge

`compilation-job.ts` is not in `src/`; the job and the merge of jobs with equal
configurations (`mergeCompilationJobsWithoutBug`) are modelled from the spec (§3,
§4.4).  A job is a configuration and its files to compile, one entry per source
name, each marked with whether it emits artifacts.

The lemmas describe a job by its source names and by `emitsArtifacts`: adding a
file adds its name and ORs its flag, a merge unions the names and ORs the flags,
and merging a list of jobs gives one job per configuration that holds exactly the
files of the jobs with that configuration.
-/

/-- Modelled from the spec: `CompilationJob`, with the invariant of its `Map` from
    source name to file: one entry per source name. -/
structure CompilationJob where
  solidityConfig : SolcConfig
  filesToCompile : List (ResolvedFile × Bool)
  sourceNamesNodup : (filesToCompile.map (·.1.sourceName)).Nodup

namespace CompilationJob

def getSolcConfig (job : CompilationJob) : SolcConfig := job.solidityConfig

def getResolvedFiles (job : CompilationJob) : List ResolvedFile :=
  job.filesToCompile.map (·.1)

def sourceNames (job : CompilationJob) : List String :=
  job.filesToCompile.map (·.1.sourceName)

def emitsArtifacts (job : CompilationJob) (file : ResolvedFile) : Bool :=
  ((job.filesToCompile.find? (·.1.sourceName == file.sourceName)).map (·.2)).getD false

/-- `new CompilationJob(solidityConfig)`. -/
def empty (solidityConfig : SolcConfig) : CompilationJob :=
  ⟨solidityConfig, [], List.nodup_nil⟩

/-- `Map.set` on the files to compile: the entry of the file's source name is
    replaced in place, or added at the end. -/
def setFileToCompile (file : ResolvedFile) (emitsArtifacts : Bool) :
    List (ResolvedFile × Bool) → List (ResolvedFile × Bool)
  | [] => [(file, emitsArtifacts)]
  | entry :: rest =>
      if entry.1.sourceName = file.sourceName then (file, emitsArtifacts) :: rest
      else entry :: setFileToCompile file emitsArtifacts rest

theorem map_sourceName_setFileToCompile (file : ResolvedFile) (emits : Bool) :
    ∀ files : List (ResolvedFile × Bool),
      (setFileToCompile file emits files).map (·.1.sourceName) =
        if file.sourceName ∈ files.map (·.1.sourceName) then files.map (·.1.sourceName)
        else files.map (·.1.sourceName) ++ [file.sourceName]
  | [] => by simp [setFileToCompile]
  | entry :: rest => by
      by_cases same : entry.1.sourceName = file.sourceName
      · simp [setFileToCompile, same]
      · have differs : file.sourceName ≠ entry.1.sourceName := Ne.symm same
        simp only [setFileToCompile, same, if_false, List.map_cons,
          map_sourceName_setFileToCompile file emits rest, List.mem_cons, differs, false_or]
        split <;> rfl

theorem find?_setFileToCompile (file : ResolvedFile) (emits : Bool) (sourceName : String) :
    ∀ files : List (ResolvedFile × Bool),
      (setFileToCompile file emits files).find? (·.1.sourceName == sourceName) =
        if file.sourceName = sourceName then some (file, emits)
        else files.find? (·.1.sourceName == sourceName)
  | [] => by by_cases same : file.sourceName = sourceName <;> simp [setFileToCompile, same]
  | entry :: rest => by
      by_cases same : entry.1.sourceName = file.sourceName
      · by_cases found : file.sourceName = sourceName
        · simp [setFileToCompile, same, found]
        · simp [setFileToCompile, same, found, List.find?_cons]
      · simp only [setFileToCompile, same, if_false, List.find?_cons,
          find?_setFileToCompile file emits sourceName rest]
        by_cases found : entry.1.sourceName = sourceName
        · have differs : file.sourceName ≠ sourceName := fun eq => same (found.trans eq.symm)
          simp [found, differs]
        · have skipped : (entry.1.sourceName == sourceName) = false := by simpa using found
          simp [skipped]

theorem mem_of_mem_setFileToCompile {file : ResolvedFile} {emits : Bool}
    {entry : ResolvedFile × Bool} :
    ∀ {files : List (ResolvedFile × Bool)},
      entry ∈ setFileToCompile file emits files → entry ∈ files ∨ entry = (file, emits)
  | [], mem => by simp_all [setFileToCompile]
  | head :: rest, mem => by
      unfold setFileToCompile at mem
      split at mem
      · simp only [List.mem_cons] at mem ⊢
        tauto
      · simp only [List.mem_cons] at mem ⊢
        rcases mem with rfl | mem
        · exact .inl (.inl rfl)
        · rcases mem_of_mem_setFileToCompile mem with mem | rfl
          · exact .inl (.inr mem)
          · exact .inr rfl

/-- `addFileToCompile`: a file is added when its source name is absent, and replaces
    the present entry when it emits artifacts. -/
def addFileToCompile (job : CompilationJob) (file : ResolvedFile) (emitsArtifacts : Bool) :
    CompilationJob :=
  if file.sourceName ∈ job.sourceNames ∧ emitsArtifacts = false then job
  else
    { solidityConfig := job.solidityConfig
      filesToCompile := setFileToCompile file emitsArtifacts job.filesToCompile
      sourceNamesNodup := by
        rw [map_sourceName_setFileToCompile]
        split
        · exact job.sourceNamesNodup
        · exact job.sourceNamesNodup.append (List.nodup_singleton _)
            (List.disjoint_singleton.mpr ‹_›) }

/-- Add every entry of a list of files to compile, in order. -/
def addFilesToCompile (job : CompilationJob) (files : List (ResolvedFile × Bool)) :
    CompilationJob :=
  files.foldl (fun merged fileToCompile => merged.addFileToCompile fileToCompile.1 fileToCompile.2)
    job

/-- `merge`: a new job with the configuration of `other`, holding the files of `job`
    and then those of `other`. -/
def merge (job other : CompilationJob) : CompilationJob :=
  ((empty other.getSolcConfig).addFilesToCompile job.filesToCompile).addFilesToCompile
    other.filesToCompile

/-- Every file of the job is one of `files`. -/
def DrawnFrom (job : CompilationJob) (files : List ResolvedFile) : Prop :=
  ∀ entry ∈ job.filesToCompile, entry.1 ∈ files

/-- The files of a job have distinct source names. -/
theorem nodup_getResolvedFiles_sourceNames (job : CompilationJob) :
    (job.getResolvedFiles.map (·.sourceName)).Nodup := by
  simpa [getResolvedFiles, List.map_map, Function.comp_def] using job.sourceNamesNodup

section Lemmas

variable {job other : CompilationJob} {file : ResolvedFile}

@[simp] theorem getSolcConfig_addFileToCompile (emits : Bool) :
    (job.addFileToCompile file emits).getSolcConfig = job.getSolcConfig := by
  unfold addFileToCompile
  split <;> rfl

@[simp] theorem getSolcConfig_addFilesToCompile (files : List (ResolvedFile × Bool)) :
    (job.addFilesToCompile files).getSolcConfig = job.getSolcConfig := by
  induction files generalizing job with
  | nil => rfl
  | cons entry rest added =>
      simp only [addFilesToCompile, List.foldl_cons] at added ⊢
      rw [added, getSolcConfig_addFileToCompile]

@[simp] theorem getSolcConfig_merge : (job.merge other).getSolcConfig = other.getSolcConfig := by
  simp [merge]; rfl

theorem mem_sourceNames_addFileToCompile (emits : Bool) {sourceName : String} :
    sourceName ∈ (job.addFileToCompile file emits).sourceNames ↔
      sourceName ∈ job.sourceNames ∨ sourceName = file.sourceName := by
  unfold addFileToCompile
  split
  · rename_i present
    constructor
    · exact .inl
    · rintro (mem | rfl)
      · exact mem
      · exact present.1
  · simp only [sourceNames, map_sourceName_setFileToCompile]
    split <;> simp_all

theorem emitsArtifacts_addFileToCompile (emits : Bool) (other : ResolvedFile) :
    (job.addFileToCompile file emits).emitsArtifacts other =
      (job.emitsArtifacts other || (other.sourceName == file.sourceName && emits)) := by
  unfold addFileToCompile
  split
  · rename_i present
    simp [present.2]
  · rename_i notKept
    simp only [emitsArtifacts, find?_setFileToCompile]
    by_cases same : file.sourceName = other.sourceName
    · simp only [same, if_true, Option.map_some', Option.getD_some, beq_self_eq_true,
        Bool.true_and]
      cases emits with
      | true => simp
      | false =>
          have absent : other.sourceName ∉ job.sourceNames := by
            simpa [same] using notKept
          have none : job.filesToCompile.find? (·.1.sourceName == other.sourceName) = none :=
            List.find?_eq_none.mpr fun entry mem named =>
              absent (List.mem_map.mpr ⟨entry, mem, by simpa using named⟩)
          simp [none]
    · have differs : (other.sourceName == file.sourceName) = false := by
        simpa using Ne.symm same
      simp [same, differs]

theorem mem_sourceNames_addFilesToCompile (files : List (ResolvedFile × Bool))
    {sourceName : String} :
    sourceName ∈ (job.addFilesToCompile files).sourceNames ↔
      sourceName ∈ job.sourceNames ∨ sourceName ∈ files.map (·.1.sourceName) := by
  induction files generalizing job with
  | nil => simp [addFilesToCompile]
  | cons entry rest added =>
      simp only [addFilesToCompile, List.foldl_cons] at added ⊢
      rw [added, mem_sourceNames_addFileToCompile]
      simp only [List.map_cons, List.mem_cons]
      tauto

theorem emitsArtifacts_addFilesToCompile (files : List (ResolvedFile × Bool))
    (other : ResolvedFile) :
    (job.addFilesToCompile files).emitsArtifacts other =
      (job.emitsArtifacts other ||
        files.any fun entry => entry.1.sourceName == other.sourceName && entry.2) := by
  induction files generalizing job with
  | nil => simp [addFilesToCompile]
  | cons entry rest added =>
      simp only [addFilesToCompile, List.foldl_cons] at added ⊢
      rw [added, emitsArtifacts_addFileToCompile, List.any_cons, Bool.or_assoc]
      congr 2
      rw [Bool.beq_comm]

/-- Whether a job emits a file depends on the file's source name only. -/
theorem emitsArtifacts_congr (job : CompilationJob) {file other : ResolvedFile}
    (same : file.sourceName = other.sourceName) :
    job.emitsArtifacts file = job.emitsArtifacts other := by
  simp only [emitsArtifacts, same]

/-- With one entry per source name, a job emits a file exactly when some entry of
    the file's source name is marked. -/
theorem emitsArtifacts_eq_any (job : CompilationJob) (other : ResolvedFile) :
    job.emitsArtifacts other =
      job.filesToCompile.any fun entry => entry.1.sourceName == other.sourceName && entry.2 := by
  obtain ⟨config, files, nodup⟩ := job
  simp only [emitsArtifacts]
  induction files with
  | nil => rfl
  | cons entry rest found =>
      simp only [List.map_cons, List.nodup_cons, List.mem_map] at nodup
      simp only [List.find?_cons, List.any_cons]
      by_cases same : entry.1.sourceName = other.sourceName
      · have noOther : (rest.any fun entry => entry.1.sourceName == other.sourceName && entry.2)
            = false := by
          simp only [List.any_eq_false, Bool.and_eq_true, beq_iff_eq, not_and]
          intro later mem named
          exact absurd ⟨later, mem, named.trans same.symm⟩ nodup.1
        simp [same, noOther]
      · have skipped : (entry.1.sourceName == other.sourceName) = false := by simpa using same
        simp [skipped, found nodup.2]

theorem mem_sourceNames_merge {sourceName : String} :
    sourceName ∈ (job.merge other).sourceNames ↔
      sourceName ∈ job.sourceNames ∨ sourceName ∈ other.sourceNames := by
  rw [merge, mem_sourceNames_addFilesToCompile, mem_sourceNames_addFilesToCompile]
  simp [empty, sourceNames]

theorem emitsArtifacts_merge (file : ResolvedFile) :
    (job.merge other).emitsArtifacts file = (job.emitsArtifacts file || other.emitsArtifacts file) := by
  rw [merge, emitsArtifacts_addFilesToCompile, emitsArtifacts_addFilesToCompile,
    emitsArtifacts_eq_any job, emitsArtifacts_eq_any other]
  simp [empty, emitsArtifacts]

theorem drawnFrom_addFileToCompile {files : List ResolvedFile} (drawn : job.DrawnFrom files)
    (mem : file ∈ files) (emits : Bool) : (job.addFileToCompile file emits).DrawnFrom files := by
  unfold addFileToCompile
  split
  · exact drawn
  · intro entry entryMem
    rcases mem_of_mem_setFileToCompile entryMem with old | rfl
    · exact drawn entry old
    · exact mem

theorem drawnFrom_addFilesToCompile {files : List ResolvedFile} (drawn : job.DrawnFrom files)
    {added : List (ResolvedFile × Bool)} (addedDrawn : ∀ entry ∈ added, entry.1 ∈ files) :
    (job.addFilesToCompile added).DrawnFrom files := by
  induction added generalizing job with
  | nil => exact drawn
  | cons entry rest addedAll =>
      simp only [List.mem_cons, forall_eq_or_imp] at addedDrawn
      exact addedAll (drawnFrom_addFileToCompile drawn addedDrawn.1 _) addedDrawn.2

theorem drawnFrom_merge {files : List ResolvedFile} (drawn : job.DrawnFrom files)
    (otherDrawn : other.DrawnFrom files) : (job.merge other).DrawnFrom files :=
  drawnFrom_addFilesToCompile
    (drawnFrom_addFilesToCompile (fun _ mem => by simp [empty] at mem) drawn) otherDrawn

theorem mem_getResolvedFiles {files : List ResolvedFile} (drawn : job.DrawnFrom files)
    (nodup : (files.map (·.sourceName)).Nodup) (mem : file ∈ files) :
    file ∈ job.getResolvedFiles ↔ file.sourceName ∈ job.sourceNames := by
  simp only [getResolvedFiles, sourceNames, List.mem_map]
  constructor
  · rintro ⟨entry, entryMem, rfl⟩
    exact ⟨entry, entryMem, rfl⟩
  · rintro ⟨entry, entryMem, named⟩
    exact ⟨entry, entryMem, List.inj_on_of_nodup_map nodup (drawn entry entryMem) mem named⟩

end Lemmas

end CompilationJob

/-- Modelled from the spec: `mergeCompilationJobsWithoutBug` (§4.4 step B): a job
    is merged into the job of an equal configuration, and starts a new one
    otherwise. -/
def mergeCompilationJobsWithoutBug (compilationJobs : List CompilationJob) :
    List CompilationJob :=
  compilationJobs.foldl (fun mergedJobs job =>
    if mergedJobs.any (·.getSolcConfig == job.getSolcConfig) then
      mergedJobs.map fun merged =>
        if merged.getSolcConfig = job.getSolcConfig then merged.merge job else merged
    else mergedJobs ++ [job]) []

/-- Every job of `merged` has property `P` exactly when a job of `jobs` with its
    configuration has it. -/
def Collects (P : CompilationJob → Prop) (jobs merged : List CompilationJob) : Prop :=
  ∀ m ∈ merged, P m ↔ ∃ job ∈ jobs, job.getSolcConfig = m.getSolcConfig ∧ P job

/-- `merged` holds one job per configuration of `jobs`, with the source names and
    the emitting files of all the jobs of that configuration. -/
structure MergedFrom (jobs merged : List CompilationJob) : Prop where
  configsNodup : (merged.map (·.getSolcConfig)).Nodup
  config : ∀ m ∈ merged, ∃ job ∈ jobs, job.getSolcConfig = m.getSolcConfig
  covers : ∀ job ∈ jobs, ∃ m ∈ merged, m.getSolcConfig = job.getSolcConfig
  sourceNames : ∀ name, Collects (name ∈ ·.sourceNames) jobs merged
  emitsArtifacts : ∀ file, Collects (·.emitsArtifacts file = true) jobs merged

namespace MergedFrom

variable {jobs merged : List CompilationJob} {job : CompilationJob}

/-- The job a merged job becomes when `job` is merged into the job of its configuration. -/
private def mergeInto (job m : CompilationJob) : CompilationJob :=
  if m.getSolcConfig = job.getSolcConfig then m.merge job else m

@[simp] private theorem getSolcConfig_mergeInto (m : CompilationJob) :
    (mergeInto job m).getSolcConfig = m.getSolcConfig := by
  unfold mergeInto
  split <;> simp_all

private theorem exists_append_singleton {Q : CompilationJob → Prop} :
    (∃ other ∈ jobs ++ [job], Q other) ↔ (∃ other ∈ jobs, Q other) ∨ Q job := by
  simp only [List.mem_append, List.mem_singleton, or_and_right, exists_or, exists_eq_left]

private theorem collects_mergeInto {P : CompilationJob → Prop}
    (mergeP : ∀ m, P (m.merge job) ↔ P m ∨ P job) (collects : Collects P jobs merged) :
    Collects P (jobs ++ [job]) (merged.map (mergeInto job)) := by
  simp only [Collects, List.mem_map, forall_exists_index, and_imp, forall_apply_eq_imp_iff₂,
    getSolcConfig_mergeInto]
  intro m mem
  rw [exists_append_singleton, ← collects m mem]
  unfold mergeInto
  split
  · rename_i same
    rw [mergeP, same]
    simp
  · rename_i differs
    simp [Ne.symm differs]

private theorem collects_append {P : CompilationJob → Prop} (collects : Collects P jobs merged)
    (covers : ∀ other ∈ jobs, ∃ m ∈ merged, m.getSolcConfig = other.getSolcConfig)
    (absent : ∀ m ∈ merged, m.getSolcConfig ≠ job.getSolcConfig) :
    Collects P (jobs ++ [job]) (merged ++ [job]) := by
  intro m mem
  rw [exists_append_singleton]
  rcases List.mem_append.mp mem with mem | same
  · simp [← collects m mem, Ne.symm (absent m mem)]
  · rw [List.mem_singleton.mp same]
    constructor
    · exact fun holds => .inr ⟨rfl, holds⟩
    · rintro (⟨other, otherMem, sameConfig, -⟩ | ⟨-, holds⟩)
      · obtain ⟨m, mMem, mConfig⟩ := covers other otherMem
        exact absurd (mConfig.trans sameConfig) (absent m mMem)
      · exact holds

theorem nil : MergedFrom [] [] :=
  ⟨List.nodup_nil, nofun, nofun, fun _ => nofun, fun _ => nofun⟩

/-- One step of `mergeCompilationJobsWithoutBug`. -/
theorem step (mergedFrom : MergedFrom jobs merged) :
    MergedFrom (jobs ++ [job])
      (if merged.any (·.getSolcConfig == job.getSolcConfig) then merged.map (mergeInto job)
        else merged ++ [job]) := by
  split
  · rename_i present
    obtain ⟨m, mem, same⟩ : ∃ m ∈ merged, m.getSolcConfig = job.getSolcConfig := by
      simpa using present
    refine ⟨?_, ?_, ?_, fun name => ?_, fun file => ?_⟩
    · simpa [List.map_map, Function.comp_def] using mergedFrom.configsNodup
    · simp only [List.mem_map, forall_exists_index, and_imp, forall_apply_eq_imp_iff₂,
        getSolcConfig_mergeInto]
      intro m mem
      obtain ⟨other, otherMem, same⟩ := mergedFrom.config m mem
      exact ⟨other, List.mem_append_left _ otherMem, same⟩
    · intro other otherMem
      rcases List.mem_append.mp otherMem with otherMem | isJob
      · obtain ⟨m, mem, same⟩ := mergedFrom.covers other otherMem
        exact ⟨_, List.mem_map_of_mem _ mem, (getSolcConfig_mergeInto m).trans same⟩
      · rw [List.mem_singleton.mp isJob]
        exact ⟨_, List.mem_map_of_mem _ mem, (getSolcConfig_mergeInto m).trans same⟩
    · exact collects_mergeInto (fun _ => CompilationJob.mem_sourceNames_merge)
        (mergedFrom.sourceNames name)
    · exact collects_mergeInto (fun _ => by simp [CompilationJob.emitsArtifacts_merge])
        (mergedFrom.emitsArtifacts file)
  · rename_i absentAny
    have absent : ∀ m ∈ merged, m.getSolcConfig ≠ job.getSolcConfig := by
      simpa using absentAny
    refine ⟨?_, ?_, ?_, fun name => ?_, fun file => ?_⟩
    · simpa [List.nodup_append] using
        ⟨mergedFrom.configsNodup, fun m mem same => absent m mem same⟩
    · intro m mem
      rcases List.mem_append.mp mem with mem | same
      · obtain ⟨other, otherMem, same⟩ := mergedFrom.config m mem
        exact ⟨other, List.mem_append_left _ otherMem, same⟩
      · exact ⟨job, by simp, by rw [List.mem_singleton.mp same]⟩
    · intro other otherMem
      rcases List.mem_append.mp otherMem with otherMem | same
      · obtain ⟨m, mem, same⟩ := mergedFrom.covers other otherMem
        exact ⟨m, List.mem_append_left _ mem, same⟩
      · exact ⟨job, by simp, by rw [List.mem_singleton.mp same]⟩
    · exact collects_append (mergedFrom.sourceNames name) mergedFrom.covers absent
    · exact collects_append (mergedFrom.emitsArtifacts file) mergedFrom.covers absent

end MergedFrom

theorem mergedFrom_mergeCompilationJobsWithoutBug (compilationJobs : List CompilationJob) :
    MergedFrom compilationJobs (mergeCompilationJobsWithoutBug compilationJobs) := by
  suffices ∀ (done : List CompilationJob) (merged : List CompilationJob), MergedFrom done merged →
      MergedFrom (done ++ compilationJobs) (compilationJobs.foldl (fun mergedJobs job =>
        if mergedJobs.any (·.getSolcConfig == job.getSolcConfig) then
          mergedJobs.map fun merged =>
            if merged.getSolcConfig = job.getSolcConfig then merged.merge job else merged
        else mergedJobs ++ [job]) merged) from
    this [] [] MergedFrom.nil
  induction compilationJobs with
  | nil => simp
  | cons job rest mergedAll =>
      intro done merged mergedFrom
      simpa using mergedAll (done ++ [job]) _ mergedFrom.step

theorem drawnFrom_mergeCompilationJobsWithoutBug {files : List ResolvedFile}
    {compilationJobs : List CompilationJob} (drawn : ∀ job ∈ compilationJobs, job.DrawnFrom files) :
    ∀ m ∈ mergeCompilationJobsWithoutBug compilationJobs, m.DrawnFrom files := by
  suffices ∀ merged : List CompilationJob, (∀ m ∈ merged, m.DrawnFrom files) →
      ∀ m ∈ compilationJobs.foldl (fun mergedJobs job =>
        if mergedJobs.any (·.getSolcConfig == job.getSolcConfig) then
          mergedJobs.map fun merged =>
            if merged.getSolcConfig = job.getSolcConfig then merged.merge job else merged
        else mergedJobs ++ [job]) merged, m.DrawnFrom files from this [] nofun
  induction compilationJobs with
  | nil => simp
  | cons job rest drawnAll =>
      simp only [List.mem_cons, forall_eq_or_imp] at drawn
      intro merged mergedDrawn
      refine drawnAll drawn.2 _ fun m mem => ?_
      dsimp only at mem
      split at mem
      · obtain ⟨old, oldMem, rfl⟩ := List.mem_map.mp mem
        split
        · exact CompilationJob.drawnFrom_merge (mergedDrawn old oldMem) drawn.1
        · exact mergedDrawn old oldMem
      · rcases List.mem_append.mp mem with mem | isJob
        · exact mergedDrawn m mem
        · rw [List.mem_singleton.mp isJob]
          exact drawn.1

end Hardhat.Compile
