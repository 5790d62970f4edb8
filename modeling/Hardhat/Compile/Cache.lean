import Hardhat.Compile.Planner
import Hardhat.Compile.Store

namespace Hardhat.Compile

/-! # Cache invalidation and the job filter

`invalidateCacheMissingArtifacts` drops the cache entry of a file when an artifact
it lists is missing from the store; `needsCompilation` and
`TASK_COMPILE_SOLIDITY_FILTER_COMPILATION_JOBS` keep the jobs one of whose files
changed.  `getEntry_invalidateCacheMissingArtifacts` says exactly which entries the
invalidation drops.
-/

/-- The inner loop of `invalidateCacheMissingArtifacts`: the entry of `file` is
    removed at the first listed artifact that is not in the store. -/
def removeEntryOnMissingArtifact (artifacts : Artifacts) (file : ResolvedFile)
    (solidityFilesCache : SolidityFilesCache) : List String → SolidityFilesCache
  | [] => solidityFilesCache
  | emittedArtifact :: emittedArtifacts =>
      if !artifacts.artifactExists (getFullyQualifiedName file.sourceName emittedArtifact) then
        solidityFilesCache.removeEntry file.absolutePath
      else removeEntryOnMissingArtifact artifacts file solidityFilesCache emittedArtifacts

/-- The body of the loop of `invalidateCacheMissingArtifacts`, for one file. -/
def invalidateFile (artifacts : Artifacts) (solidityFilesCache : SolidityFilesCache)
    (file : ResolvedFile) : SolidityFilesCache :=
  match solidityFilesCache.getEntry file.absolutePath with
  | none => solidityFilesCache
  | some cacheEntry =>
      removeEntryOnMissingArtifact artifacts file solidityFilesCache cacheEntry.artifacts

/-- `invalidateCacheMissingArtifacts`. -/
def invalidateCacheMissingArtifacts (solidityFilesCache : SolidityFilesCache)
    (artifacts : Artifacts) (resolvedFiles : List ResolvedFile) : SolidityFilesCache :=
  resolvedFiles.foldl (invalidateFile artifacts) solidityFilesCache

/-- `needsCompilation`: some file of the job changed, its configuration counting for
    the files that emit artifacts only. -/
def needsCompilation (job : CompilationJob) (cache : SolidityFilesCache) : Bool :=
  job.getResolvedFiles.any fun file =>
    cache.hasFileChanged file.absolutePath file.contentHash
      (if job.emitsArtifacts file then some job.getSolcConfig else none)

/-- `TASK_COMPILE_SOLIDITY_FILTER_COMPILATION_JOBS`. -/
def filterCompilationJobs (compilationJobs : List CompilationJob) (force : Bool)
    (solidityFilesCache : SolidityFilesCache) : List CompilationJob :=
  if force then compilationJobs
  else compilationJobs.filter fun job => needsCompilation job solidityFilesCache

/-- A job needs no compilation exactly when none of its files changed, the
    configuration counting for the files it emits. -/
theorem needsCompilation_eq_false {job : CompilationJob} {cache : SolidityFilesCache} :
    needsCompilation job cache = false ↔ ∀ file ∈ job.getResolvedFiles,
      cache.hasFileChanged file.absolutePath file.contentHash
        (if job.emitsArtifacts file then some job.getSolcConfig else none) = false := by
  simp [needsCompilation]

/-- The cache entry of a file lists a contract whose artifact is not in the store. -/
def MissesArtifact (cache : SolidityFilesCache) (artifacts : Artifacts) (file : ResolvedFile) :
    Prop :=
  ∃ cacheEntry, cache.getEntry file.absolutePath = some cacheEntry ∧
    ∃ emittedArtifact ∈ cacheEntry.artifacts,
      artifacts.artifactExists (getFullyQualifiedName file.sourceName emittedArtifact) = false

instance (cache : SolidityFilesCache) (artifacts : Artifacts) :
    DecidablePred (MissesArtifact cache artifacts) := fun file =>
  match found : cache.getEntry file.absolutePath with
  | some cacheEntry =>
      decidable_of_iff (∃ emittedArtifact ∈ cacheEntry.artifacts,
          artifacts.artifactExists (getFullyQualifiedName file.sourceName emittedArtifact) = false)
        (by simp [MissesArtifact, found])
  | none => isFalse (by simp [MissesArtifact, found])

section Invalidation

variable {artifacts : Artifacts}

theorem removeEntryOnMissingArtifact_eq (file : ResolvedFile) (cache : SolidityFilesCache) :
    ∀ emittedArtifacts : List String,
      removeEntryOnMissingArtifact artifacts file cache emittedArtifacts =
        if ∃ emittedArtifact ∈ emittedArtifacts,
            artifacts.artifactExists (getFullyQualifiedName file.sourceName emittedArtifact) = false
        then cache.removeEntry file.absolutePath else cache
  | [] => by simp [removeEntryOnMissingArtifact]
  | emittedArtifact :: emittedArtifacts => by
      rw [removeEntryOnMissingArtifact, removeEntryOnMissingArtifact_eq file cache emittedArtifacts]
      by_cases missing : artifacts.artifactExists
          (getFullyQualifiedName file.sourceName emittedArtifact) = false
      · simp [missing]
      · simp [missing]

/-- One file of the loop: its entry is dropped exactly when it misses an artifact. -/
theorem getEntry_invalidateFile (cache : SolidityFilesCache) (file : ResolvedFile)
    (absolutePath : String) :
    (invalidateFile artifacts cache file).getEntry absolutePath =
      if file.absolutePath = absolutePath ∧ MissesArtifact cache artifacts file then none
      else cache.getEntry absolutePath := by
  unfold invalidateFile
  cases found : cache.getEntry file.absolutePath with
  | none => simp [MissesArtifact, found]
  | some cacheEntry =>
      simp only [removeEntryOnMissingArtifact_eq, MissesArtifact, found, Option.some.injEq,
        exists_eq_left']
      by_cases same : file.absolutePath = absolutePath
      · subst same
        split <;> simp_all
      · split <;> simp [same, Ne.symm same]

theorem missesArtifact_invalidateFile {cache : SolidityFilesCache} {file other : ResolvedFile} :
    MissesArtifact (invalidateFile artifacts cache file) artifacts other ↔
      ¬ (file.absolutePath = other.absolutePath ∧ MissesArtifact cache artifacts file) ∧
        MissesArtifact cache artifacts other := by
  by_cases dropped : file.absolutePath = other.absolutePath ∧ MissesArtifact cache artifacts file
  · simp only [dropped, and_self, not_true_eq_false, false_and, iff_false]
    rintro ⟨cacheEntry, found, -⟩
    rw [getEntry_invalidateFile, if_pos dropped] at found
    cases found
  · have unchanged : (invalidateFile artifacts cache file).getEntry other.absolutePath =
        cache.getEntry other.absolutePath := by
      rw [getEntry_invalidateFile, if_neg dropped]
    simp only [dropped, not_false_eq_true, true_and]
    simp only [MissesArtifact, unchanged]

/-- The invalidation keeps the entry of every path at which no listed file misses an
    artifact. -/
theorem getEntry_invalidateCacheMissingArtifacts_of_not_missesArtifact {absolutePath : String} :
    ∀ {cache : SolidityFilesCache} {resolvedFiles : List ResolvedFile},
      (¬ ∃ file ∈ resolvedFiles, file.absolutePath = absolutePath ∧
        MissesArtifact cache artifacts file) →
      (invalidateCacheMissingArtifacts cache artifacts resolvedFiles).getEntry absolutePath =
        cache.getEntry absolutePath
  | _, [], _ => rfl
  | cache, file :: rest, kept => by
      have keptNow : ¬ (file.absolutePath = absolutePath ∧ MissesArtifact cache artifacts file) :=
        fun missing => kept ⟨file, List.mem_cons_self _ _, missing⟩
      have keptLater : ¬ ∃ other ∈ rest, other.absolutePath = absolutePath ∧
          MissesArtifact (invalidateFile artifacts cache file) artifacts other :=
        fun ⟨other, mem, samePath, missing⟩ => kept
          ⟨other, List.mem_cons_of_mem _ mem, samePath, (missesArtifact_invalidateFile.mp missing).2⟩
      rw [invalidateCacheMissingArtifacts, List.foldl_cons, ← invalidateCacheMissingArtifacts,
        getEntry_invalidateCacheMissingArtifacts_of_not_missesArtifact keptLater,
        getEntry_invalidateFile, if_neg keptNow]

/-- The invalidation adds no entry. -/
theorem getEntry_invalidateCacheMissingArtifacts_of_none {absolutePath : String} :
    ∀ {cache : SolidityFilesCache} {resolvedFiles : List ResolvedFile},
      cache.getEntry absolutePath = none →
      (invalidateCacheMissingArtifacts cache artifacts resolvedFiles).getEntry absolutePath = none
  | _, [], missing => missing
  | cache, file :: rest, missing => by
      rw [invalidateCacheMissingArtifacts, List.foldl_cons, ← invalidateCacheMissingArtifacts]
      refine getEntry_invalidateCacheMissingArtifacts_of_none ?_
      rw [getEntry_invalidateFile]
      split_ifs
      exacts [rfl, missing]

/-- The invalidation drops the entry of every path at which a listed file misses an
    artifact. -/
theorem getEntry_invalidateCacheMissingArtifacts_of_missesArtifact {absolutePath : String} :
    ∀ {cache : SolidityFilesCache} {resolvedFiles : List ResolvedFile},
      (∃ file ∈ resolvedFiles, file.absolutePath = absolutePath ∧
        MissesArtifact cache artifacts file) →
      (invalidateCacheMissingArtifacts cache artifacts resolvedFiles).getEntry absolutePath = none
  | _, [], ⟨_, mem, _⟩ => absurd mem (List.not_mem_nil _)
  | cache, file :: rest, ⟨other, mem, samePath, missing⟩ => by
      rw [invalidateCacheMissingArtifacts, List.foldl_cons, ← invalidateCacheMissingArtifacts]
      by_cases droppedNow : file.absolutePath = absolutePath ∧ MissesArtifact cache artifacts file
      · refine getEntry_invalidateCacheMissingArtifacts_of_none ?_
        rw [getEntry_invalidateFile, if_pos droppedNow]
      · rcases List.mem_cons.mp mem with rfl | later
        · exact absurd ⟨samePath, missing⟩ droppedNow
        · refine getEntry_invalidateCacheMissingArtifacts_of_missesArtifact ⟨other, later, samePath, ?_⟩
          exact missesArtifact_invalidateFile.mpr ⟨fun ⟨same, missesNow⟩ =>
            droppedNow ⟨same.trans samePath, missesNow⟩, missing⟩

/-- `invalidateCacheMissingArtifacts` drops the entry of a path exactly when a listed
    file at that path has an entry that lists an artifact missing from the store; it
    adds and changes no entry, and leaves the other paths alone. -/
theorem getEntry_invalidateCacheMissingArtifacts (solidityFilesCache : SolidityFilesCache)
    (artifacts : Artifacts) (resolvedFiles : List ResolvedFile) (absolutePath : String) :
    (invalidateCacheMissingArtifacts solidityFilesCache artifacts resolvedFiles).getEntry
        absolutePath =
      if ∃ file ∈ resolvedFiles, file.absolutePath = absolutePath ∧
          MissesArtifact solidityFilesCache artifacts file
      then none else solidityFilesCache.getEntry absolutePath := by
  split_ifs with dropped
  · exact getEntry_invalidateCacheMissingArtifacts_of_missesArtifact dropped
  · exact getEntry_invalidateCacheMissingArtifacts_of_not_missesArtifact dropped

/-- When no listed file misses an artifact, the invalidation removes nothing. -/
theorem invalidateCacheMissingArtifacts_of_forall_not_missesArtifact {cache : SolidityFilesCache} :
    ∀ {resolvedFiles : List ResolvedFile},
      (∀ file ∈ resolvedFiles, ¬ MissesArtifact cache artifacts file) →
      invalidateCacheMissingArtifacts cache artifacts resolvedFiles = cache
  | [], _ => rfl
  | file :: resolvedFiles, present => by
      have kept : invalidateFile artifacts cache file = cache := by
        unfold invalidateFile
        cases found : cache.getEntry file.absolutePath with
        | none => rfl
        | some cacheEntry =>
            dsimp only
            rw [removeEntryOnMissingArtifact_eq, if_neg fun ⟨emittedArtifact, listed, missing⟩ =>
              present file (List.mem_cons_self _ _) ⟨cacheEntry, found, emittedArtifact, listed, missing⟩]
      rw [invalidateCacheMissingArtifacts, List.foldl_cons, kept]
      exact invalidateCacheMissingArtifacts_of_forall_not_missesArtifact
        fun other mem => present other (List.mem_cons_of_mem _ mem)

/-- An entry that survives the invalidation is the entry the cache had. -/
theorem getEntry_of_getEntry_invalidateCacheMissingArtifacts {cache : SolidityFilesCache}
    {resolvedFiles : List ResolvedFile} {absolutePath : String} {entry : CacheEntry}
    (found : (invalidateCacheMissingArtifacts cache artifacts resolvedFiles).getEntry absolutePath =
      some entry) :
    cache.getEntry absolutePath = some entry ∧
      ¬ ∃ file ∈ resolvedFiles, file.absolutePath = absolutePath ∧
        MissesArtifact cache artifacts file := by
  by_cases dropped : ∃ file ∈ resolvedFiles, file.absolutePath = absolutePath ∧
      MissesArtifact cache artifacts file
  · rw [getEntry_invalidateCacheMissingArtifacts_of_missesArtifact dropped] at found
    cases found
  · rw [getEntry_invalidateCacheMissingArtifacts_of_not_missesArtifact dropped] at found
    exact ⟨found, dropped⟩

end Invalidation

end Hardhat.Compile
