import Mathlib.Data.List.Basic

namespace Hardhat.Compile

/-! # Data of the Solidity compile task

The records that `builtin-tasks/compile.ts` passes between its subtasks: resolved
files, compiler configurations, compiler input and output, cache entries, build
infos and artifacts.  Maps of the source (`Record`s and `Map`s keyed by a string)
are association lists; opaque JSON payloads (solc settings, a contract's output)
are strings.
-/

/-- A compiler configuration of `config.solidity`: the exact solc version and the
    settings object forwarded to the compiler. -/
structure SolcConfig where
  version : String
  settings : String
deriving DecidableEq, Repr

/-- The user configuration `config.solidity`: the configured compilers, and the
    compilers fixed for single source names by `overrides`. -/
structure SolidityConfig where
  compilers : List SolcConfig
  overrides : List (String × SolcConfig)
deriving DecidableEq, Repr

/-- What the parser extracts from a source file, with the text itself. -/
structure FileContent where
  rawContent : String
  imports : List String
  versionPragmas : List String
deriving DecidableEq, Repr

/-- `ResolvedFile` of the resolver: a file of the dependency graph. -/
structure ResolvedFile where
  sourceName : String
  absolutePath : String
  content : FileContent
  contentHash : String
  lastModificationDate : Nat
deriving DecidableEq, Repr

/-- The Standard JSON input of solc: the `sources` map (source name to content)
    and the settings of the job's configuration. -/
structure CompilerInput where
  language : String
  sources : List (String × String)
  settings : String
deriving DecidableEq, Repr

/-- A diagnostic of the compiler output. -/
structure CompilerError where
  severity : String
  type : String
  message : String
  formattedMessage : String
deriving DecidableEq, Repr

/-- The relevant fields of the Standard JSON output: the diagnostics, and for each
    source name the contracts it defines, each with its output. -/
structure CompilerOutput where
  errors : List CompilerError
  contracts : List (String × List (String × String))
deriving DecidableEq, Repr

/-- `SolcBuild`: a compiler as `TASK_COMPILE_SOLIDITY_GET_SOLC_BUILD` returns it. -/
structure SolcBuild where
  compilerPath : String
  isSolcJs : Bool
  version : String
  longVersion : String
deriving DecidableEq, Repr

/-- A build info, as `artifacts.saveBuildInfo` records it for one compilation. -/
structure BuildInfo where
  solcVersion : String
  solcLongVersion : String
  input : CompilerInput
  output : CompilerOutput
deriving DecidableEq, Repr

/-- The artifact of one contract, as `getArtifactFromContractOutput` builds it. -/
structure Artifact where
  contractName : String
  sourceName : String
  contractOutput : String
deriving DecidableEq, Repr

/-- A fully qualified contract name, `sourceName:contractName`. -/
structure FullyQualifiedName where
  sourceName : String
  contractName : String
deriving DecidableEq, Repr

/-- `getFullyQualifiedName` of `utils/contract-names`. -/
def getFullyQualifiedName (sourceName contractName : String) : FullyQualifiedName :=
  ⟨sourceName, contractName⟩

/-- A record of the `files` map of the solidity files cache, keyed by absolute path. -/
structure CacheEntry where
  lastModificationDate : Nat
  contentHash : String
  sourceName : String
  solcConfig : SolcConfig
  imports : List String
  versionPragmas : List String
  artifacts : List String
deriving DecidableEq, Repr

/-- `CompilationJobCreationErrorReason`. -/
inductive CompilationJobCreationErrorReason
  | noCompatibleSolcVersionFound
  | incompatibleOverridenSolcVersion
  | directlyImportsIncompatibleFile
  | indirectlyImportsIncompatibleFile
  | otherError
deriving DecidableEq, Repr

/-- `CompilationJobCreationError`: why no job could be planned for a file. -/
structure CompilationJobCreationError where
  reason : CompilationJobCreationErrorReason
  file : ResolvedFile
deriving DecidableEq, Repr

/-- Modelled from the spec: the acquisition errors a call of the compiler downloader
    throws (§4.6, §7), `CANT_GET_COMPILER` apart, which the task throws itself: a
    download whose digest does not match the build index, and a version the build
    index has no build of for the platform. -/
inductive AcquisitionError
  | verifyFailed (version : String)
  | platformUnsupported (version : String)
deriving DecidableEq, Repr

/-- The errors the compile task throws.  `compilerAcquisition` is an error of the
    downloader that `GET_SOLC_BUILD` lets through, and `compilerProtocol` the rejection
    of `compile` on an output that is not valid JSON (§4.7, §7 Protocol). -/
inductive HardhatError
  | fileNotFound (sourceName : String)
  | importedFileNotFound (imported : String) (fromSourceName : String)
  | compilationJobsCreationFailure (errors : List CompilationJobCreationError)
  | compileTaskUnsupportedSolcVersion (version : String) (firstSupportedVersion : String)
  | cantGetCompiler (version : String)
  | compilerAcquisition (error : AcquisitionError)
  | compilerProtocol
  | compileFailure
deriving DecidableEq, Repr

end Hardhat.Compile
