import Hardhat.Compile.Types

namespace Hardhat.Compile

/-! # The message of a planning failure

When some file gets no compilation job, `TASK_COMPILE_SOLIDITY_HANDLE_COMPILATION_JOBS_FAILURES`
throws `COMPILATION_JOBS_CREATION_FAILURE` with the text that
`TASK_COMPILE_SOLIDITY_GET_COMPILATION_JOBS_FAILURE_REASONS` builds from the errors.  That
subtask sorts the errors by reason, pushing each on the list of its reason, and then
writes one section per list that is not empty, in a fixed order (overridden compilers,
no compatible compiler, incompatible direct imports, incompatible transitive
dependencies, other errors), each listing its errors in the order they came, and ends
with a hint.

The message lists every error at the start of a line
(`getCompilationJobsFailureReasons_lists_every_error`), and it depends on the errors of
each reason and their order only, however errors of different reasons are interleaved
(`getCompilationJobsFailureReasons_eq_of_filter_eq`).

`pluralize` of `util/strings` is a parameter.  The import path of a transitive
dependency is only logged, and is left out.
-/

/-- `TransitiveDependency`: a file that a file reaches through its imports. -/
structure TransitiveDependency where
  dependency : ResolvedFile
deriving DecidableEq, Repr

/-- The `extra` object of a planning error: the incompatible direct imports and the
    incompatible transitive dependencies, each absent unless the error carries it. -/
structure CompilationJobCreationErrorExtra where
  incompatibleDirectImports : Option (List ResolvedFile)
  incompatibleIndirectImports : Option (List TransitiveDependency)
deriving DecidableEq, Repr

/-- A planning error with its optional `extra` object, as the failure message reads it. -/
structure CompilationJobCreationErrorWithExtra extends CompilationJobCreationError where
  extra : Option CompilationJobCreationErrorExtra
deriving DecidableEq, Repr

/-! ## Sorting the errors by reason -/

/-- The five lists the loop of `GET_COMPILATION_JOBS_FAILURE_REASONS` fills. -/
structure ErrorsByReason where
  noCompatibleSolc : List CompilationJobCreationErrorWithExtra
  incompatibleOverridenSolc : List CompilationJobCreationErrorWithExtra
  directlyImportsIncompatibleFile : List CompilationJobCreationErrorWithExtra
  indirectlyImportsIncompatibleFile : List CompilationJobCreationErrorWithExtra
  other : List CompilationJobCreationErrorWithExtra

namespace ErrorsByReason

/-- Before the loop: five empty lists. -/
def empty : ErrorsByReason := ⟨[], [], [], [], []⟩

/-- One iteration of the loop: the error is pushed on the list of its reason. -/
def push (errors : ErrorsByReason) (error : CompilationJobCreationErrorWithExtra) :
    ErrorsByReason :=
  match error.reason with
  | .noCompatibleSolcVersionFound =>
      { errors with noCompatibleSolc := errors.noCompatibleSolc ++ [error] }
  | .incompatibleOverridenSolcVersion =>
      { errors with incompatibleOverridenSolc := errors.incompatibleOverridenSolc ++ [error] }
  | .directlyImportsIncompatibleFile =>
      { errors with
        directlyImportsIncompatibleFile := errors.directlyImportsIncompatibleFile ++ [error] }
  | .indirectlyImportsIncompatibleFile =>
      { errors with
        indirectlyImportsIncompatibleFile := errors.indirectlyImportsIncompatibleFile ++ [error] }
  | .otherError => { errors with other := errors.other ++ [error] }

/-- The list that holds the errors of a reason. -/
def ofReason (errors : ErrorsByReason) :
    CompilationJobCreationErrorReason → List CompilationJobCreationErrorWithExtra
  | .noCompatibleSolcVersionFound => errors.noCompatibleSolc
  | .incompatibleOverridenSolcVersion => errors.incompatibleOverridenSolc
  | .directlyImportsIncompatibleFile => errors.directlyImportsIncompatibleFile
  | .indirectlyImportsIncompatibleFile => errors.indirectlyImportsIncompatibleFile
  | .otherError => errors.other

theorem ext_ofReason {errors errors' : ErrorsByReason}
    (same : ∀ reason, errors.ofReason reason = errors'.ofReason reason) : errors = errors' := by
  have noCompatible := same .noCompatibleSolcVersionFound
  have overriden := same .incompatibleOverridenSolcVersion
  have direct := same .directlyImportsIncompatibleFile
  have indirect := same .indirectlyImportsIncompatibleFile
  have other := same .otherError
  cases errors
  cases errors'
  simp_all [ofReason]

@[simp] theorem ofReason_empty (reason : CompilationJobCreationErrorReason) :
    empty.ofReason reason = [] := by
  cases reason <;> rfl

theorem ofReason_push (errors : ErrorsByReason) (error : CompilationJobCreationErrorWithExtra)
    (reason : CompilationJobCreationErrorReason) :
    (errors.push error).ofReason reason =
      errors.ofReason reason ++ if error.reason = reason then [error] else [] := by
  unfold push
  split <;> rename_i errorReason <;> cases reason <;> simp [ofReason, errorReason]

end ErrorsByReason

/-- The loop of `GET_COMPILATION_JOBS_FAILURE_REASONS` over the errors.  A reason outside
    the five counts as `OTHER_ERROR`; the model has no such reason. -/
def sortErrorsByReason (errors : List CompilationJobCreationErrorWithExtra) : ErrorsByReason :=
  errors.foldl ErrorsByReason.push ErrorsByReason.empty

/-- The loop puts every error on the list of its reason, keeping their order. -/
theorem ofReason_sortErrorsByReason (errors : List CompilationJobCreationErrorWithExtra)
    (reason : CompilationJobCreationErrorReason) :
    (sortErrorsByReason errors).ofReason reason = errors.filter (·.reason = reason) := by
  suffices pushed : ∀ sorted : ErrorsByReason,
      (errors.foldl ErrorsByReason.push sorted).ofReason reason =
        sorted.ofReason reason ++ errors.filter (·.reason = reason) by
    simpa using pushed ErrorsByReason.empty
  induction errors with
  | nil => simp
  | cons error errors induction =>
      intro sorted
      rw [List.foldl_cons, induction, ErrorsByReason.ofReason_push, List.filter_cons]
      split <;> simp_all

/-! ## The text -/

/-- `Array.prototype.join`: the items, with the separator between each two. -/
def join (separator : String) : List String → String
  | [] => ""
  | [item] => item
  | item :: items => item ++ separator ++ join separator items

/-- A file as the message names it: its source name, then its version pragmas. -/
def describeFile (file : ResolvedFile) : String :=
  file.sourceName ++ " (" ++ join " " file.content.versionPragmas ++ ")"

/-- What follows a listed file that imports, or depends on, incompatible files
    (`relation` is `imports` or `depends on`): the first two, and how many others. -/
def importsText (pluralize : Nat → String → String) (relation : String) : List String → String
  | [] => ""
  | [first] => " " ++ relation ++ " " ++ first
  | [first, second] => " " ++ relation ++ " " ++ first ++ " and " ++ second
  | first :: second :: others =>
      " " ++ relation ++ " " ++ first ++ ", " ++ second ++ " and " ++ toString others.length ++
        " other " ++ pluralize others.length "file" ++ ". Use --verbose to see the full list."

/-- `directImportsText`, from `error.extra?.incompatibleDirectImports ?? []`. -/
def directImportsText (pluralize : Nat → String → String)
    (error : CompilationJobCreationErrorWithExtra) : String :=
  importsText pluralize "imports"
    (((error.extra.bind (·.incompatibleDirectImports)).getD []).map describeFile)

/-- `indirectImportsText`, from `error.extra?.incompatibleIndirectImports ?? []`. -/
def indirectImportsText (pluralize : Nat → String → String)
    (error : CompilationJobCreationErrorWithExtra) : String :=
  importsText pluralize "depends on"
    (((error.extra.bind (·.incompatibleIndirectImports)).getD []).map
      fun transitive => describeFile transitive.dependency)

/-- The line of an error in the first four sections: its file, then `text`. -/
def errorLine (text : String) (error : CompilationJobCreationErrorWithExtra) : String :=
  "  * " ++ describeFile error.file ++ text ++ "\n"

def incompatibleOverridenSolcHeading : String :=
  "The compiler version for the following files is fixed through an override in your config file to a version that is incompatible with their Solidity version pragmas.\n\n"

def noCompatibleSolcHeading : String :=
  "The Solidity version pragma statement in these files don\x27t match any of the configured compilers in your config. Change the pragma or configure additional compiler versions in your hardhat config.\n\n"

def directlyImportsIncompatibleFileHeading : String :=
  "These files import other files that use a different and incompatible version of Solidity:\n\n"

def indirectlyImportsIncompatibleFileHeading : String :=
  "These files depend on other files that use a different and incompatible version of Solidity:\n\n"

def otherHeading : String :=
  "These files and its dependencies cannot be compiled with your config. This can happen because they have incompatible Solidity pragmas, or don\x27t match any of your configured Solidity compilers.\n\n"

def closingHint : String :=
  "To learn more, run the command again with --verbose\n\nRead about compiler configuration at https://hardhat.org/config\n"

/-- One of the first four sections, appended to the message when it has errors: the
    heading, the line of each error, and a blank line. -/
def appendSection (errorMessage heading : String)
    (line : CompilationJobCreationErrorWithExtra → String)
    (errors : List CompilationJobCreationErrorWithExtra) : String :=
  if errors.length > 0 then
    errors.foldl (fun errorMessage error => errorMessage ++ line error) (errorMessage ++ heading) ++
      "\n"
  else errorMessage

/-- `TASK_COMPILE_SOLIDITY_GET_COMPILATION_JOBS_FAILURE_REASONS`. -/
def getCompilationJobsFailureReasons (pluralize : Nat → String → String)
    (errors : List CompilationJobCreationErrorWithExtra) : String :=
  let sorted := sortErrorsByReason errors
  let errorMessage := appendSection "" incompatibleOverridenSolcHeading (errorLine "")
    sorted.incompatibleOverridenSolc
  let errorMessage := appendSection errorMessage noCompatibleSolcHeading (errorLine "")
    sorted.noCompatibleSolc
  let errorMessage := appendSection errorMessage directlyImportsIncompatibleFileHeading
    (fun error => errorLine (directImportsText pluralize error) error)
    sorted.directlyImportsIncompatibleFile
  let errorMessage := appendSection errorMessage indirectlyImportsIncompatibleFileHeading
    (fun error => errorLine (indirectImportsText pluralize error) error)
    sorted.indirectlyImportsIncompatibleFile
  let errorMessage :=
    if sorted.other.length > 0 then
      errorMessage ++ otherHeading ++
        join "\n" (sorted.other.map fun error => "  * " ++ error.file.sourceName) ++ "\n\n"
    else errorMessage
  errorMessage ++ closingHint

/-! ## Every error is listed -/

/-- The text lists the name: one of its lines starts with `  * ` and the name. -/
def Listed (message name : String) : Prop :=
  ∃ before after, message = before ++ "\n  * " ++ name ++ after

/-- The text ends a line. -/
def EndsLine (text : String) : Prop :=
  ∃ body, text = body ++ "\n"

section Listing

variable {message name text : String}

theorem Listed.append (listed : Listed message name) (more : String) :
    Listed (message ++ more) name := by
  obtain ⟨before, after, rfl⟩ := listed
  exact ⟨before, after ++ more, by simp only [String.append_assoc]⟩

theorem EndsLine.of_getLast (last : text.data.getLast? = some '\n') : EndsLine text :=
  ⟨⟨text.data.dropLast⟩, String.ext (List.dropLast_append_getLast? _ last).symm⟩

theorem EndsLine.append (more : String) (ends : EndsLine text) : EndsLine (more ++ text) := by
  obtain ⟨body, rfl⟩ := ends
  exact ⟨more ++ body, (String.append_assoc _ _ _).symm⟩

/-- A listed item that starts right after the end of a line is listed. -/
theorem EndsLine.listed (ends : EndsLine text) (name after : String) :
    Listed (text ++ ("  * " ++ name ++ after)) name := by
  obtain ⟨body, rfl⟩ := ends
  refine ⟨body, after, ?_⟩
  simp only [String.append_assoc]
  rfl

theorem foldl_append_eq {α : Type} (line : α → String) :
    ∀ (items : List α) (text : String),
      items.foldl (fun text item => text ++ line item) text =
        text ++ items.foldl (fun text item => text ++ line item) ""
  | [], text => (String.append_empty text).symm
  | item :: items, text => by
      rw [List.foldl_cons, List.foldl_cons, foldl_append_eq line items (text ++ line item),
        foldl_append_eq line items ("" ++ line item), String.empty_append, String.append_assoc]

theorem EndsLine.foldl {α : Type} {line : α → String} (lines : ∀ item, EndsLine (line item)) :
    ∀ (items : List α) {text : String}, EndsLine text →
      EndsLine (items.foldl (fun text item => text ++ line item) text)
  | [], _, ends => ends
  | item :: items, _, _ => EndsLine.foldl lines items ((lines item).append _)

theorem Listed.appendSection (listed : Listed message name) (heading : String)
    (line : CompilationJobCreationErrorWithExtra → String)
    (errors : List CompilationJobCreationErrorWithExtra) :
    Listed (appendSection message heading line errors) name := by
  unfold Hardhat.Compile.appendSection
  split
  · rw [foldl_append_eq, String.append_assoc message heading]
    exact (listed.append _).append _
  · exact listed

theorem listed_appendSection {heading : String} (headingEnds : EndsLine heading)
    (text : CompilationJobCreationErrorWithExtra → String)
    {errors : List CompilationJobCreationErrorWithExtra} {error : CompilationJobCreationErrorWithExtra}
    (mem : error ∈ errors) (message : String) :
    Listed (appendSection message heading (fun error => errorLine (text error) error) errors)
      error.file.sourceName := by
  rw [appendSection, if_pos (List.length_pos_of_mem mem)]
  refine Listed.append ?_ "\n"
  obtain ⟨before, after, rfl⟩ := List.append_of_mem mem
  have ends : EndsLine (before.foldl (fun message error => message ++ errorLine (text error) error)
      (message ++ heading)) :=
    EndsLine.foldl (fun _ => ⟨_, rfl⟩) before (headingEnds.append message)
  rw [List.foldl_append, List.foldl_cons, foldl_append_eq _ after]
  obtain ⟨body, afterHeading⟩ := ends
  rw [afterHeading]
  have listed := EndsLine.listed ⟨body, rfl⟩ error.file.sourceName
    (" (" ++ join " " error.file.content.versionPragmas ++ ")" ++ text error ++ "\n" ++
      after.foldl (fun message error => message ++ errorLine (text error) error) "")
  simpa only [errorLine, describeFile, String.append_assoc] using listed

/-- An item of the last section, in its list joined by line breaks after a text that
    ends a line, is listed. -/
theorem listed_join {lead : String} (ends : EndsLine lead) (suffix : String)
    {error : CompilationJobCreationErrorWithExtra} :
    ∀ {others : List CompilationJobCreationErrorWithExtra}, error ∈ others →
      Listed (lead ++ join "\n" (others.map fun error => "  * " ++ error.file.sourceName) ++ suffix)
        error.file.sourceName
  | [_], .head _ => by
      simpa only [List.map_cons, List.map_nil, join, String.append_assoc] using ends.listed _ suffix
  | other :: next :: others, mem => by
      have joined : join "\n" ((other :: next :: others).map fun error => "  * " ++ error.file.sourceName) =
          "  * " ++ other.file.sourceName ++ "\n" ++
            join "\n" ((next :: others).map fun error => "  * " ++ error.file.sourceName) := rfl
      rw [joined]
      rcases List.mem_cons.mp mem with rfl | later
      · simpa only [String.append_assoc] using ends.listed _
          ("\n" ++ join "\n" ((next :: others).map fun error => "  * " ++ error.file.sourceName) ++ suffix)
      · simpa only [String.append_assoc] using
          listed_join (⟨_, rfl⟩ : EndsLine (lead ++ ("  * " ++ other.file.sourceName) ++ "\n"))
            suffix later

end Listing

/-- The message lists every error: a line of it starts with `  * ` and the source name
    of the error's file. -/
theorem getCompilationJobsFailureReasons_lists_every_error (pluralize : Nat → String → String)
    {errors : List CompilationJobCreationErrorWithExtra} {error : CompilationJobCreationErrorWithExtra}
    (mem : error ∈ errors) :
    Listed (getCompilationJobsFailureReasons pluralize errors) error.file.sourceName := by
  have sorted : error ∈ (sortErrorsByReason errors).ofReason error.reason := by
    rw [ofReason_sortErrorsByReason]
    exact List.mem_filter.mpr ⟨mem, decide_eq_true rfl⟩
  unfold getCompilationJobsFailureReasons
  dsimp only
  refine Listed.append ?_ closingHint
  generalize sortErrorsByReason errors = groups at sorted
  have otherSection : ∀ message, Listed message error.file.sourceName →
      Listed (if groups.other.length > 0 then
        message ++ otherHeading ++
          join "\n" (groups.other.map fun error => "  * " ++ error.file.sourceName) ++ "\n\n"
      else message) error.file.sourceName := fun message listed => by
    split
    · exact ((listed.append _).append _).append _
    · exact listed
  cases reason : error.reason <;> rw [reason] at sorted <;>
    simp only [ErrorsByReason.ofReason] at sorted
  · exact otherSection _ (((listed_appendSection
      (EndsLine.of_getLast (by decide) : EndsLine noCompatibleSolcHeading) _ sorted _).appendSection
      _ _ _).appendSection _ _ _)
  · exact otherSection _ ((((listed_appendSection
      (EndsLine.of_getLast (by decide) : EndsLine incompatibleOverridenSolcHeading) _ sorted _).appendSection
      _ _ _).appendSection _ _ _).appendSection _ _ _)
  · exact otherSection _ ((listed_appendSection
      (EndsLine.of_getLast (by decide) : EndsLine directlyImportsIncompatibleFileHeading) _ sorted _).appendSection
      _ _ _)
  · exact otherSection _ (listed_appendSection
      (EndsLine.of_getLast (by decide) : EndsLine indirectlyImportsIncompatibleFileHeading) _ sorted _)
  · rw [if_pos (List.length_pos_of_mem sorted)]
    exact listed_join ((EndsLine.of_getLast (by decide) : EndsLine otherHeading).append _) "\n\n" sorted


/-- The message depends on the errors of each reason, in their order, only. -/
theorem getCompilationJobsFailureReasons_eq_of_filter_eq (pluralize : Nat → String → String)
    {errors errors' : List CompilationJobCreationErrorWithExtra}
    (sameReasons : ∀ reason, errors.filter (·.reason = reason) = errors'.filter (·.reason = reason)) :
    getCompilationJobsFailureReasons pluralize errors =
      getCompilationJobsFailureReasons pluralize errors' := by
  have sorted : sortErrorsByReason errors = sortErrorsByReason errors' :=
    ErrorsByReason.ext_ofReason fun reason => by
      rw [ofReason_sortErrorsByReason, ofReason_sortErrorsByReason, sameReasons]
  simp only [getCompilationJobsFailureReasons, sorted]

/-! ## Two planning errors -/

/-- A project file with its version pragmas. -/
def pragmaFile (sourceName : String) (versionPragmas : List String) : ResolvedFile :=
  ⟨sourceName, "/project/" ++ sourceName, ⟨"", [], versionPragmas⟩, "", 0⟩

/-- `A` imports `B`, whose pragma none of the compilers satisfies. -/
def directImportError : CompilationJobCreationErrorWithExtra :=
  ⟨⟨.directlyImportsIncompatibleFile, pragmaFile "A" ["^0.8.0"]⟩,
    some ⟨some [pragmaFile "B" ["^0.5.0"]], none⟩⟩

/-- No compiler satisfies the pragma of `B`. -/
def noCompatibleError : CompilationJobCreationErrorWithExtra :=
  ⟨⟨.noCompatibleSolcVersionFound, pragmaFile "B" ["^0.5.0"]⟩, none⟩

set_option maxRecDepth 8000 in
example :
    getCompilationJobsFailureReasons (fun _ word => word) [directImportError, noCompatibleError] =
      noCompatibleSolcHeading ++ "  * B (^0.5.0)\n\n" ++ directlyImportsIncompatibleFileHeading ++
        "  * A (^0.8.0) imports B (^0.5.0)\n\n" ++ closingHint := by
  decide

theorem directImportError_listed :
    directImportError ∈ [directImportError, noCompatibleError] ∧
      Listed (getCompilationJobsFailureReasons (fun _ word => word)
        [directImportError, noCompatibleError]) "A" :=
  ⟨List.mem_cons_self _ _,
    getCompilationJobsFailureReasons_lists_every_error _ (List.mem_cons_self _ _)⟩

theorem twoPlanningErrors_reversed_same_message :
    (∀ reason, [directImportError, noCompatibleError].filter (·.reason = reason) =
      [noCompatibleError, directImportError].filter (·.reason = reason)) ∧
    getCompilationJobsFailureReasons (fun _ word => word) [directImportError, noCompatibleError] =
      getCompilationJobsFailureReasons (fun _ word => word) [noCompatibleError, directImportError] :=
  ⟨fun reason => by cases reason <;> decide,
    getCompilationJobsFailureReasons_eq_of_filter_eq _ fun reason => by cases reason <;> decide⟩

end Hardhat.Compile
