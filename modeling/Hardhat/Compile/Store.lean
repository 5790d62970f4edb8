import Hardhat.Compile.Types
import Mathlib.Data.List.AList
import Mathlib.Logic.Function.Basic

namespace Hardhat.Compile

/-! # The solidity files cache and the artifact store

Both stores live outside `src/` and are modelled from the spec.  The cache
(`utils/solidity-files-cache.ts`, §4.5) is the `files` record of the cache file,
keyed by absolute path.  The artifact store (`internal/artifacts.ts`, §6) keeps the
artifact saved under each fully qualified name together with the build info its
debug file points to, so that an artifact tells which compilation produced it.
-/

/-- Modelled from the spec: `SolidityFilesCache`, the `files` record keyed by
    absolute path. -/
structure SolidityFilesCache where
  files : AList fun _ : String => CacheEntry

namespace SolidityFilesCache

/-- `SolidityFilesCache.createEmpty`. -/
def createEmpty : SolidityFilesCache := ⟨∅⟩

def getEntry (cache : SolidityFilesCache) (file : String) : Option CacheEntry :=
  cache.files.lookup file

def removeEntry (cache : SolidityFilesCache) (file : String) : SolidityFilesCache :=
  ⟨cache.files.erase file⟩

def addFile (cache : SolidityFilesCache) (absolutePath : String) (entry : CacheEntry) :
    SolidityFilesCache :=
  ⟨cache.files.insert absolutePath entry⟩

/-- `getEntries`: `Object.values` of the record. -/
def getEntries (cache : SolidityFilesCache) : List CacheEntry :=
  cache.files.entries.map (·.2)

/-- `hasFileChanged`: no entry, another content hash, or (when a configuration is
    given) another configuration. -/
def hasFileChanged (cache : SolidityFilesCache) (absolutePath contentHash : String)
    (solcConfig : Option SolcConfig) : Bool :=
  match cache.getEntry absolutePath with
  | none => true
  | some cacheEntry =>
      cacheEntry.contentHash != contentHash ||
        match solcConfig with
        | some config => config != cacheEntry.solcConfig
        | none => false

variable {cache : SolidityFilesCache}

@[simp] theorem getEntry_createEmpty (file : String) : createEmpty.getEntry file = none :=
  AList.lookup_empty file

@[simp] theorem getEntry_removeEntry (removed file : String) :
    (cache.removeEntry removed).getEntry file =
      if file = removed then none else cache.getEntry file := by
  split
  · subst file
    exact AList.lookup_erase _ _
  · exact AList.lookup_erase_ne ‹_›

@[simp] theorem getEntry_addFile (absolutePath file : String) (entry : CacheEntry) :
    (cache.addFile absolutePath entry).getEntry file =
      if file = absolutePath then some entry else cache.getEntry file := by
  split
  · subst file
    exact AList.lookup_insert _
  · exact AList.lookup_insert_ne ‹_›

theorem mem_getEntries {entry : CacheEntry} :
    entry ∈ cache.getEntries ↔ ∃ file, cache.getEntry file = some entry := by
  simp only [getEntries, List.mem_map, getEntry]
  constructor
  · rintro ⟨⟨file, entry⟩, mem, rfl⟩
    exact ⟨file, AList.mem_lookup_iff.mpr mem⟩
  · rintro ⟨file, found⟩
    exact ⟨⟨file, entry⟩, AList.mem_lookup_iff.mp found, rfl⟩

/-- A file is unchanged exactly when its entry records its content hash and, when a
    configuration is given, that configuration. -/
theorem hasFileChanged_eq_false {absolutePath contentHash : String}
    {solcConfig : Option SolcConfig} :
    cache.hasFileChanged absolutePath contentHash solcConfig = false ↔
      ∃ cacheEntry, cache.getEntry absolutePath = some cacheEntry ∧
        cacheEntry.contentHash = contentHash ∧
        ∀ config, solcConfig = some config → config = cacheEntry.solcConfig := by
  unfold hasFileChanged
  cases cache.getEntry absolutePath with
  | none => simp
  | some cacheEntry => cases solcConfig <;> simp

/-- A sequence of writes leaves a path no write names as it was. -/
theorem getEntry_foldl_addFile_of_not_mem {path : String} :
    ∀ (writes : List (String × CacheEntry)) (cache : SolidityFilesCache),
      path ∉ writes.map (·.1) →
      (writes.foldl (fun cache write => cache.addFile write.1 write.2) cache).getEntry path =
        cache.getEntry path
  | [], _, _ => rfl
  | write :: writes, cache, absent => by
      simp only [List.map_cons, List.mem_cons, not_or] at absent
      rw [List.foldl_cons, getEntry_foldl_addFile_of_not_mem writes _ absent.2, getEntry_addFile,
        if_neg absent.1]

/-- A sequence of writes to distinct paths leaves every path with its write. -/
theorem getEntry_foldl_addFile_of_mem {path : String} {entry : CacheEntry} :
    ∀ (writes : List (String × CacheEntry)) (cache : SolidityFilesCache),
      (writes.map (·.1)).Nodup → (path, entry) ∈ writes →
      (writes.foldl (fun cache write => cache.addFile write.1 write.2) cache).getEntry path =
        some entry
  | [], _, _, mem => absurd mem (List.not_mem_nil _)
  | write :: writes, cache, nodup, mem => by
      rw [List.map_cons, List.nodup_cons] at nodup
      rw [List.foldl_cons]
      rcases List.mem_cons.mp mem with rfl | later
      · rw [getEntry_foldl_addFile_of_not_mem writes _ nodup.1, getEntry_addFile, if_pos rfl]
      · exact getEntry_foldl_addFile_of_mem writes _ nodup.2 later

end SolidityFilesCache

/-- An artifact as the store keeps it: the artifact, and the build info its debug
    file points to. -/
structure SavedArtifact where
  artifact : Artifact
  buildInfo : BuildInfo
deriving DecidableEq, Repr

/-- Modelled from the spec: the artifact store, the artifact saved under each fully
    qualified name. -/
structure Artifacts where
  saved : FullyQualifiedName → Option SavedArtifact

namespace Artifacts

/-- An empty artifacts directory. -/
def empty : Artifacts := ⟨fun _ => none⟩

def artifactExists (artifacts : Artifacts) (fullyQualifiedName : FullyQualifiedName) : Bool :=
  (artifacts.saved fullyQualifiedName).isSome

/-- `saveBuildInfo`: the build info of one compilation, which later artifacts point to. -/
def saveBuildInfo (solcVersion solcLongVersion : String) (input : CompilerInput)
    (output : CompilerOutput) : BuildInfo :=
  ⟨solcVersion, solcLongVersion, input, output⟩

/-- `saveArtifactAndDebugFile`: the artifact, under its fully qualified name, with
    a debug file pointing to the build info. -/
def saveArtifactAndDebugFile (artifacts : Artifacts) (artifact : Artifact)
    (buildInfo : BuildInfo) : Artifacts :=
  ⟨Function.update artifacts.saved
    (getFullyQualifiedName artifact.sourceName artifact.contractName) (some ⟨artifact, buildInfo⟩)⟩

/-- `removeObsoleteArtifacts`: only the artifacts some cache entry lists are kept. -/
def removeObsoleteArtifacts (artifacts : Artifacts) (validArtifacts : List CacheEntry) :
    Artifacts :=
  ⟨fun fullyQualifiedName =>
    if validArtifacts.any fun entry => entry.sourceName == fullyQualifiedName.sourceName &&
        entry.artifacts.contains fullyQualifiedName.contractName then
      artifacts.saved fullyQualifiedName
    else none⟩

/-- The user deletes the files of one artifact. -/
def deleteArtifact (artifacts : Artifacts) (fullyQualifiedName : FullyQualifiedName) :
    Artifacts :=
  ⟨Function.update artifacts.saved fullyQualifiedName none⟩

/-- The user deletes the artifacts of one source file (its directory of artifacts). -/
def deleteArtifactsOf (artifacts : Artifacts) (sourceName : String) : Artifacts :=
  ⟨fun fullyQualifiedName =>
    if fullyQualifiedName.sourceName = sourceName then none else artifacts.saved fullyQualifiedName⟩

variable {artifacts : Artifacts}

@[simp] theorem saved_deleteArtifactsOf (sourceName : String) (fullyQualifiedName : FullyQualifiedName) :
    (artifacts.deleteArtifactsOf sourceName).saved fullyQualifiedName =
      if fullyQualifiedName.sourceName = sourceName then none
      else artifacts.saved fullyQualifiedName :=
  rfl

@[simp] theorem saved_saveArtifactAndDebugFile (artifact : Artifact) (buildInfo : BuildInfo)
    (fullyQualifiedName : FullyQualifiedName) :
    (artifacts.saveArtifactAndDebugFile artifact buildInfo).saved fullyQualifiedName =
      if fullyQualifiedName = getFullyQualifiedName artifact.sourceName artifact.contractName
      then some ⟨artifact, buildInfo⟩ else artifacts.saved fullyQualifiedName :=
  Function.update_apply _ _ _ _

theorem saved_removeObsoleteArtifacts {validArtifacts : List CacheEntry}
    {fullyQualifiedName : FullyQualifiedName} :
    (artifacts.removeObsoleteArtifacts validArtifacts).saved fullyQualifiedName =
      if ∃ entry ∈ validArtifacts, entry.sourceName = fullyQualifiedName.sourceName ∧
          fullyQualifiedName.contractName ∈ entry.artifacts then
        artifacts.saved fullyQualifiedName
      else none := by
  simp [removeObsoleteArtifacts]

/-- Removing the artifacts no entry lists a second time removes nothing more. -/
theorem removeObsoleteArtifacts_removeObsoleteArtifacts (validArtifacts : List CacheEntry) :
    (artifacts.removeObsoleteArtifacts validArtifacts).removeObsoleteArtifacts validArtifacts =
      artifacts.removeObsoleteArtifacts validArtifacts := by
  simp only [removeObsoleteArtifacts, mk.injEq]
  funext fullyQualifiedName
  split_ifs <;> rfl

@[simp] theorem saved_deleteArtifact (deleted fullyQualifiedName : FullyQualifiedName) :
    (artifacts.deleteArtifact deleted).saved fullyQualifiedName =
      if fullyQualifiedName = deleted then none else artifacts.saved fullyQualifiedName :=
  Function.update_apply _ _ _ _

end Artifacts

end Hardhat.Compile
