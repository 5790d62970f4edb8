import Hardhat.Compile.Types
import Mathlib.Data.List.AList
import Mathlib.Data.Finset.Card

namespace Hardhat.Compile

/-! # Resolution and the dependency graph

The task resolves every source name of the project and builds the dependency graph
of the resolved files (`TASK_COMPILE_SOLIDITY_GET_DEPENDENCY_GRAPH`).  The resolver,
the parser and the graph live outside `src/`; they are modelled from the spec: a
file's hash, imports and pragmas are functions of its text, and the graph holds one
file per source name, closed under imports.

The transitive closure of a file's imports is computed by iterating one expansion
step as many times as the graph has files.  `mem_transitiveClosure_iff` proves that
this is exactly the set of source names reachable through imports, and
`transitiveClosure_eq_of_importsOf` that it only depends on the imports of the files
it reaches.  The connected components of the graph, which the planner creates its jobs
from, are found the same way, with imports followed in both directions;
`flatten_getConnectedComponents_perm` proves that they partition the files.
-/

/-- A source file of the project: its text and its modification time. -/
structure ProjectFile where
  rawContent : String
  lastModificationDate : Nat
deriving DecidableEq, Repr

/-- Modelled from the spec: the Source Reader and the parser (§4.1).  The content
    hash, the imports and the version pragmas are functions of the text. -/
structure SourceReader where
  hash : String → String
  imports : String → List String
  versionPragmas : String → List String

/-- Modelled from the spec: the absolute path of a project source name. -/
def absolutePathOf (projectRoot sourceName : String) : String :=
  projectRoot ++ "/" ++ sourceName

theorem absolutePathOf_injective (projectRoot : String) :
    Function.Injective (absolutePathOf projectRoot) := by
  intro sourceName other same
  apply String.ext
  have sameData := congrArg String.data same
  simp only [absolutePathOf, String.data_append] at sameData
  exact List.append_cancel_left sameData

namespace SourceReader

/-- Modelled from the spec: `Resolver.resolveSourceName` on a project file, which
    reads the file and parses it. -/
def resolveFile (reader : SourceReader) (projectRoot sourceName : String)
    (file : ProjectFile) : ResolvedFile where
  sourceName := sourceName
  absolutePath := absolutePathOf projectRoot sourceName
  content := ⟨file.rawContent, reader.imports file.rawContent,
    reader.versionPragmas file.rawContent⟩
  contentHash := reader.hash file.rawContent
  lastModificationDate := file.lastModificationDate

end SourceReader

/-- `name` is `root`, or is imported by a file reachable from `root`.  The edges are
    given by `importsOf`, so the same relation serves the dependency graph and the
    sources of a compiler input. -/
inductive Reaches (importsOf : String → List String) (root : String) : String → Prop
  | refl : Reaches importsOf root root
  | tail {importer name : String} :
      Reaches importsOf root importer → name ∈ importsOf importer → Reaches importsOf root name

/-- Reachability only reads the imports of the names it reaches. -/
theorem Reaches.congr {importsOf importsOf' : String → List String} {root : String}
    (same : ∀ name, Reaches importsOf root name → importsOf' name = importsOf name)
    {name : String} : Reaches importsOf' root name ↔ Reaches importsOf root name := by
  constructor
  · intro reaches
    induction reaches with
    | refl => exact .refl
    | tail _ imported reachesImporter =>
        exact .tail reachesImporter (same _ reachesImporter ▸ imported)
  · intro reaches
    induction reaches with
    | refl => exact .refl
    | @tail importer _ reachesImporter imported reachesImporter' =>
        exact .tail reachesImporter' ((same importer reachesImporter).symm ▸ imported)

/-- Modelled from the spec: the `DependencyGraph` of a run (§3, §4.3), with its
    invariants: one file per source name, and every import names a file of the
    graph. -/
structure DependencyGraph where
  files : List ResolvedFile
  sourceNamesNodup : (files.map (·.sourceName)).Nodup
  importsResolved :
    ∀ file ∈ files, ∀ name ∈ file.content.imports, name ∈ files.map (·.sourceName)

namespace DependencyGraph

variable (graph : DependencyGraph)

def getResolvedFiles : List ResolvedFile := graph.files

def sourceNames : List String := graph.files.map (·.sourceName)

def getResolvedFile? (sourceName : String) : Option ResolvedFile :=
  graph.files.find? (·.sourceName == sourceName)

/-- The imports of the file of a source name (none for a name not in the graph). -/
def importsOf (sourceName : String) : List String :=
  ((graph.getResolvedFile? sourceName).map (·.content.imports)).getD []

/-- `getDependencies`: the files a file imports directly. -/
def getDependencies (file : ResolvedFile) : List ResolvedFile :=
  graph.files.filter (·.sourceName ∈ file.content.imports)

/-- One expansion step: the names already reached and the names they import. -/
def closureStep (current : List String) : List String :=
  graph.sourceNames.filter fun name =>
    name ∈ current ∨ ∃ importer ∈ current, name ∈ graph.importsOf importer

/-- The source names reachable from `sourceName` through imports, itself included:
    `{f} ∪ getTransitiveDependencies f` of the spec, by source name. -/
def transitiveClosure (sourceName : String) : List String :=
  graph.closureStep^[graph.files.length] [sourceName]

/-- The files of the transitive closure of a file, in graph order. -/
def closureFiles (file : ResolvedFile) : List ResolvedFile :=
  graph.files.filter (·.sourceName ∈ graph.transitiveClosure file.sourceName)

/-- One expansion step of the search for a connected component: the names already
    reached, the names they import and the names of the files that import one of them. -/
def componentStep (current : List String) : List String :=
  graph.sourceNames.filter fun name => name ∈ current ∨
    ∃ other ∈ current, name ∈ graph.importsOf other ∨ other ∈ graph.importsOf name

/-- The source names joined to `sourceName` by a path of imports taken either way. -/
def connectedSourceNames (sourceName : String) : List String :=
  graph.componentStep^[graph.files.length] [sourceName]

/-- The components of the files not yet placed: the first of them with the files joined
    to it, in graph order, then the components of the files left.  Each call places a
    file at least, so as much fuel as files is enough. -/
def connectedComponentsOf : Nat → List ResolvedFile → List (List ResolvedFile)
  | 0, _ => []
  | _ + 1, [] => []
  | fuel + 1, file :: files =>
      let connected := fun other : ResolvedFile =>
        decide (other.sourceName ∈ graph.connectedSourceNames file.sourceName)
      (file :: files.filter connected) ::
        connectedComponentsOf fuel (files.filter fun other => !connected other)

/-- Modelled from the spec: `getConnectedComponents` (§4.3), the weakly connected
    components of the graph, each the list of its files. -/
def getConnectedComponents : List (List ResolvedFile) :=
  graph.connectedComponentsOf graph.files.length graph.files

variable {graph}

theorem eq_of_sourceName_eq {file other : ResolvedFile} (mem : file ∈ graph.files)
    (otherMem : other ∈ graph.files) (same : file.sourceName = other.sourceName) :
    file = other :=
  List.inj_on_of_nodup_map graph.sourceNamesNodup mem otherMem same

theorem getResolvedFile?_eq_some {sourceName : String} {file : ResolvedFile} :
    graph.getResolvedFile? sourceName = some file ↔
      file ∈ graph.files ∧ file.sourceName = sourceName := by
  constructor
  · intro found
    exact ⟨List.mem_of_find?_eq_some found, by simpa using List.find?_some found⟩
  · rintro ⟨mem, rfl⟩
    cases found : graph.getResolvedFile? file.sourceName with
    | none =>
        exact absurd mem (by simpa using List.find?_eq_none.mp found file)
    | some other =>
        have otherMem := List.mem_of_find?_eq_some found
        have same : other.sourceName = file.sourceName := by
          simpa using List.find?_some found
        rw [eq_of_sourceName_eq otherMem mem same]

theorem getResolvedFile?_of_mem {file : ResolvedFile} (mem : file ∈ graph.files) :
    graph.getResolvedFile? file.sourceName = some file :=
  getResolvedFile?_eq_some.mpr ⟨mem, rfl⟩

theorem mem_sourceNames {sourceName : String} :
    sourceName ∈ graph.sourceNames ↔ ∃ file ∈ graph.files, file.sourceName = sourceName := by
  simp [sourceNames]

theorem importsOf_of_mem {file : ResolvedFile} (mem : file ∈ graph.files) :
    graph.importsOf file.sourceName = file.content.imports := by
  simp [importsOf, getResolvedFile?_of_mem mem]

theorem mem_sourceNames_of_mem_importsOf {importer name : String}
    (imported : name ∈ graph.importsOf importer) : name ∈ graph.sourceNames := by
  cases found : graph.getResolvedFile? importer with
  | none => simp [importsOf, found] at imported
  | some file =>
      simp only [importsOf, found, Option.map_some', Option.getD_some] at imported
      exact graph.importsResolved file (getResolvedFile?_eq_some.mp found).1 name imported

/-- What the graph reaches from one of its names is one of its names. -/
theorem mem_sourceNames_of_reaches {root name : String} (rootMem : root ∈ graph.sourceNames)
    (reaches : Reaches graph.importsOf root name) : name ∈ graph.sourceNames := by
  cases reaches with
  | refl => exact rootMem
  | tail _ imported => exact mem_sourceNames_of_mem_importsOf imported

section Closure

variable {root : String}

theorem closureStep_congr {current current' : List String}
    (same : ∀ name, name ∈ current ↔ name ∈ current') :
    graph.closureStep current = graph.closureStep current' :=
  List.filter_congr fun name _ => by simp only [same]

theorem mem_closureStep {current : List String} {name : String} :
    name ∈ graph.closureStep current ↔ name ∈ graph.sourceNames ∧
      (name ∈ current ∨ ∃ importer ∈ current, name ∈ graph.importsOf importer) := by
  simp [closureStep]

private theorem iterate_closureStep_subset (rootMem : root ∈ graph.sourceNames) :
    ∀ steps, ∀ name ∈ graph.closureStep^[steps] [root], name ∈ graph.sourceNames
  | 0 => by simpa using rootMem
  | steps + 1 => by
      rw [Function.iterate_succ_apply']
      exact fun name mem => (mem_closureStep.mp mem).1

private theorem iterate_closureStep_mono (rootMem : root ∈ graph.sourceNames) (steps : ℕ)
    {name : String} (mem : name ∈ graph.closureStep^[steps] [root]) :
    name ∈ graph.closureStep^[steps + 1] [root] := by
  rw [Function.iterate_succ_apply']
  exact mem_closureStep.mpr ⟨iterate_closureStep_subset rootMem steps name mem, .inl mem⟩

/-- A growing chain of finite sets that stays the same once it stops growing and
    never holds more than `bound` elements has stopped growing by step `bound`. -/
private theorem chain_stable {sets : ℕ → Finset String} (bound : ℕ)
    (mono : ∀ steps, sets steps ⊆ sets (steps + 1))
    (stays : ∀ steps, sets steps = sets (steps + 1) → sets (steps + 1) = sets (steps + 2))
    (nonempty : (sets 0).Nonempty) (bounded : ∀ steps, (sets steps).card ≤ bound) :
    sets bound = sets (bound + 1) := by
  have grows : ∀ steps, sets steps = sets (steps + 1) ∨ steps + 2 ≤ (sets (steps + 1)).card := by
    intro steps
    induction steps with
    | zero =>
        by_cases same : sets 0 = sets 1
        · exact .inl same
        · have larger := Finset.card_lt_card ((mono 0).ssubset_of_ne same)
          have := nonempty.card_pos
          exact .inr (by omega)
    | succ steps grown =>
        by_cases same : sets (steps + 1) = sets (steps + 2)
        · exact .inl same
        · have larger := Finset.card_lt_card ((mono (steps + 1)).ssubset_of_ne same)
          rcases grown with stable | large
          · exact absurd (stays steps stable) same
          · exact .inr (by omega)
  rcases grows bound with stable | large
  · exact stable
  · have := bounded (bound + 1)
    omega

/-- After as many steps as the graph has files, one more step adds nothing. -/
theorem closureStep_transitiveClosure (rootMem : root ∈ graph.sourceNames) (name : String) :
    name ∈ graph.closureStep (graph.transitiveClosure root) ↔
      name ∈ graph.transitiveClosure root := by
  let sets : ℕ → Finset String := fun steps => (graph.closureStep^[steps] [root]).toFinset
  have stable : sets graph.files.length = sets (graph.files.length + 1) := by
    refine chain_stable graph.files.length (fun steps name mem => ?_) (fun steps same => ?_)
      ⟨root, by simp [sets]⟩ (fun steps => ?_)
    · simp only [sets, List.mem_toFinset] at mem ⊢
      exact iterate_closureStep_mono rootMem steps mem
    · have sameMembers : ∀ name, name ∈ graph.closureStep^[steps] [root] ↔
          name ∈ graph.closureStep^[steps + 1] [root] := by
        intro name
        simpa [sets] using congrArg (name ∈ ·) same
      have next : graph.closureStep^[steps + 1 + 1] [root] =
          graph.closureStep^[steps + 1] [root] := by
        rw [Function.iterate_succ_apply' _ (steps + 1)]
        conv_rhs => rw [Function.iterate_succ_apply']
        exact closureStep_congr fun name => (sameMembers name).symm
      simp only [sets, next]
    · calc (sets steps).card
          ≤ graph.sourceNames.toFinset.card := Finset.card_le_card fun name mem => by
            simp only [sets, List.mem_toFinset] at mem ⊢
            exact iterate_closureStep_subset rootMem steps name mem
        _ ≤ graph.files.length := by
            simpa [sourceNames] using List.toFinset_card_le graph.sourceNames
  have := congrArg (name ∈ ·) stable
  simp only [sets, List.mem_toFinset, Function.iterate_succ_apply'] at this
  exact Iff.of_eq this.symm

theorem root_mem_transitiveClosure (rootMem : root ∈ graph.sourceNames) :
    root ∈ graph.transitiveClosure root := by
  suffices ∀ steps, root ∈ graph.closureStep^[steps] [root] from this _
  intro steps
  induction steps with
  | zero => simp
  | succ steps mem => exact iterate_closureStep_mono rootMem steps mem

theorem reaches_of_mem_transitiveClosure {name : String}
    (mem : name ∈ graph.transitiveClosure root) : Reaches graph.importsOf root name := by
  suffices ∀ steps, ∀ name ∈ graph.closureStep^[steps] [root],
      Reaches graph.importsOf root name from this _ name mem
  intro steps
  induction steps with
  | zero => simp [Reaches.refl]
  | succ steps reachesAll =>
      intro name mem
      rw [Function.iterate_succ_apply'] at mem
      rcases (mem_closureStep.mp mem).2 with earlier | ⟨importer, importerMem, imported⟩
      · exact reachesAll name earlier
      · exact .tail (reachesAll importer importerMem) imported

/-- The closure of imports is exactly the set of names reachable through imports. -/
theorem mem_transitiveClosure_iff (rootMem : root ∈ graph.sourceNames) {name : String} :
    name ∈ graph.transitiveClosure root ↔ Reaches graph.importsOf root name := by
  refine ⟨reaches_of_mem_transitiveClosure, fun reaches => ?_⟩
  induction reaches with
  | refl => exact root_mem_transitiveClosure rootMem
  | @tail importer name _ imported importerMem =>
      exact (closureStep_transitiveClosure rootMem name).mp
        (mem_closureStep.mpr ⟨mem_sourceNames_of_mem_importsOf imported,
          .inr ⟨importer, importerMem, imported⟩⟩)

theorem transitiveClosure_eq_filter (rootMem : root ∈ graph.sourceNames) :
    graph.transitiveClosure root =
      graph.sourceNames.filter (· ∈ graph.transitiveClosure root) := by
  have nonempty : graph.files.length ≠ 0 := by
    obtain ⟨file, mem, -⟩ := mem_sourceNames.mp rootMem
    exact List.length_pos_of_mem mem |>.ne'
  obtain ⟨steps, length⟩ := Nat.exists_eq_succ_of_ne_zero nonempty
  have unfold : graph.transitiveClosure root =
      graph.closureStep (graph.closureStep^[steps] [root]) := by
    rw [transitiveClosure, length, Function.iterate_succ_apply']
  conv_lhs => rw [unfold]
  refine List.filter_congr fun name nameMem => ?_
  simp only [unfold, mem_closureStep, nameMem, true_and]

/-- Two graphs over the same source names whose files import the same names along
    the closure of `root` have the same closure of `root`. -/
theorem transitiveClosure_eq_of_importsOf {other : DependencyGraph}
    (sameNames : other.sourceNames = graph.sourceNames) (rootMem : root ∈ graph.sourceNames)
    (sameImports : ∀ name ∈ graph.transitiveClosure root,
      other.importsOf name = graph.importsOf name) :
    other.transitiveClosure root = graph.transitiveClosure root := by
  have otherRootMem : root ∈ other.sourceNames := sameNames ▸ rootMem
  have sameMembers : ∀ name, name ∈ other.transitiveClosure root ↔
      name ∈ graph.transitiveClosure root := by
    intro name
    rw [mem_transitiveClosure_iff rootMem, mem_transitiveClosure_iff otherRootMem]
    exact Reaches.congr fun name reaches =>
      sameImports name ((mem_transitiveClosure_iff rootMem).mpr reaches)
  rw [transitiveClosure_eq_filter otherRootMem, transitiveClosure_eq_filter rootMem, sameNames]
  exact List.filter_congr fun name _ => by simp only [sameMembers]

theorem mem_closureFiles {file dependency : ResolvedFile} (mem : file ∈ graph.files) :
    dependency ∈ graph.closureFiles file ↔
      dependency ∈ graph.files ∧ Reaches graph.importsOf file.sourceName dependency.sourceName := by
  rw [closureFiles, List.mem_filter, decide_eq_true_iff,
    mem_transitiveClosure_iff (mem_sourceNames.mpr ⟨file, mem, rfl⟩)]

theorem closureFiles_sourceNames_nodup (file : ResolvedFile) :
    ((graph.closureFiles file).map (·.sourceName)).Nodup :=
  graph.sourceNamesNodup.sublist ((List.filter_sublist _).map _)

end Closure

/-- The component loop splits the files it is given: flattened, its components are those
    files in another order. -/
theorem flatten_connectedComponentsOf_perm :
    ∀ (fuel : Nat) (files : List ResolvedFile), files.length ≤ fuel →
      (graph.connectedComponentsOf fuel files).flatten.Perm files
  | 0, [], _ => .nil
  | 0, _ :: _, enough => absurd enough (by simp)
  | _ + 1, [], _ => .nil
  | fuel + 1, file :: files, enough => by
      let connected := fun other : ResolvedFile =>
        decide (other.sourceName ∈ graph.connectedSourceNames file.sourceName)
      have rest := flatten_connectedComponentsOf_perm fuel
        (files.filter fun other => !connected other)
        ((List.length_filter_le _ _).trans (Nat.le_of_succ_le_succ enough))
      simp only [connectedComponentsOf, List.flatten_cons, List.cons_append]
      exact ((rest.append_left _).trans (List.filter_append_perm connected files)).cons file

/-- Every file of the graph is in exactly one connected component. -/
theorem flatten_getConnectedComponents_perm : graph.getConnectedComponents.flatten.Perm graph.files :=
  flatten_connectedComponentsOf_perm _ _ le_rfl

end DependencyGraph

section Create

variable (reader : SourceReader) (projectRoot : String)

/-- The files resolved from the project's sources, in the order of the sources. -/
def resolveSources (sources : AList fun _ : String => ProjectFile) : List ResolvedFile :=
  sources.entries.map fun source => reader.resolveFile projectRoot source.1 source.2

theorem resolveSources_sourceNames (sources : AList fun _ : String => ProjectFile) :
    (resolveSources reader projectRoot sources).map (·.sourceName) = sources.keys := by
  simp [resolveSources, SourceReader.resolveFile, AList.keys, List.keys]

/-- The first import of a resolved file that names no file of the list, with its importer. -/
def findUnresolvedImport (files : List ResolvedFile) : Option (String × String) :=
  files.findSome? fun file =>
    (file.content.imports.find? (· ∉ files.map (·.sourceName))).map (·, file.sourceName)

theorem importsResolved_of_findUnresolvedImport {files : List ResolvedFile}
    (none : findUnresolvedImport files = none) :
    ∀ file ∈ files, ∀ name ∈ file.content.imports, name ∈ files.map (·.sourceName) := by
  intro file mem name imported
  have noneHere := List.findSome?_eq_none_iff.mp none file mem
  simp only [Option.map_eq_none'] at noneHere
  simpa using List.find?_eq_none.mp noneHere name imported

/-- Modelled from the spec: `TASK_COMPILE_SOLIDITY_GET_DEPENDENCY_GRAPH` when every
    source of the project is a root: each source is resolved, and an import that
    names no source of the project fails the run. -/
def createDependencyGraph (sources : AList fun _ : String => ProjectFile) :
    Except HardhatError DependencyGraph :=
  match found : findUnresolvedImport (resolveSources reader projectRoot sources) with
  | some (imported, importer) => .error (.importedFileNotFound imported importer)
  | none => .ok
      { files := resolveSources reader projectRoot sources
        sourceNamesNodup := by
          rw [resolveSources_sourceNames]
          exact sources.keys_nodup
        importsResolved := importsResolved_of_findUnresolvedImport found }

variable {reader projectRoot}

theorem createDependencyGraph_files {sources : AList fun _ : String => ProjectFile}
    {graph : DependencyGraph}
    (created : createDependencyGraph reader projectRoot sources = .ok graph) :
    graph.files = resolveSources reader projectRoot sources := by
  unfold createDependencyGraph at created
  split at created
  · cases created
  · cases created
    rfl

theorem mem_resolveSources {sources : AList fun _ : String => ProjectFile}
    {file : ResolvedFile} :
    file ∈ resolveSources reader projectRoot sources ↔ ∃ projectFile,
      sources.lookup file.sourceName = some projectFile ∧
        file = reader.resolveFile projectRoot file.sourceName projectFile := by
  simp only [resolveSources, List.mem_map]
  constructor
  · rintro ⟨⟨sourceName, projectFile⟩, entryMem, rfl⟩
    exact ⟨projectFile, AList.mem_lookup_iff.mpr entryMem, rfl⟩
  · rintro ⟨projectFile, found, same⟩
    exact ⟨⟨file.sourceName, projectFile⟩, AList.mem_lookup_iff.mp found, same.symm⟩

/-- The source names of a created graph are those of the project. -/
theorem mem_sourceNames_of_createDependencyGraph {sources : AList fun _ : String => ProjectFile}
    {graph : DependencyGraph} (created : createDependencyGraph reader projectRoot sources = .ok graph)
    {sourceName : String} : sourceName ∈ graph.sourceNames ↔ sourceName ∈ sources := by
  rw [DependencyGraph.sourceNames, createDependencyGraph_files created, resolveSources_sourceNames,
    AList.mem_keys]

/-- A file of a created graph holds what the reader makes of its text. -/
theorem resolved_of_mem_createDependencyGraph {sources : AList fun _ : String => ProjectFile}
    {graph : DependencyGraph} (created : createDependencyGraph reader projectRoot sources = .ok graph)
    {file : ResolvedFile} (mem : file ∈ graph.files) :
    file.content.imports = reader.imports file.content.rawContent ∧
      file.contentHash = reader.hash file.content.rawContent := by
  rw [createDependencyGraph_files created] at mem
  obtain ⟨_, _, same⟩ := mem_resolveSources.mp mem
  rw [same]
  exact ⟨rfl, rfl⟩

/-- A file of a created graph sits at the absolute path of its source name. -/
theorem absolutePath_of_mem_createDependencyGraph {sources : AList fun _ : String => ProjectFile}
    {graph : DependencyGraph} (created : createDependencyGraph reader projectRoot sources = .ok graph)
    {file : ResolvedFile} (mem : file ∈ graph.files) :
    file.absolutePath = absolutePathOf projectRoot file.sourceName := by
  rw [createDependencyGraph_files created] at mem
  obtain ⟨_, _, same⟩ := mem_resolveSources.mp mem
  rw [same]
  rfl

end Create

end Hardhat.Compile
