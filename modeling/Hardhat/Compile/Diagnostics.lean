import Hardhat.Compile.CompileJobs
import Mathlib.Data.List.Infix

namespace Hardhat.Compile

/-! # Compiler diagnostics on the console

`TASK_COMPILE_SOLIDITY_CHECK_ERRORS` prints the diagnostics of a compiler output with
`TASK_COMPILE_SOLIDITY_LOG_COMPILATION_ERRORS` and then throws `COMPILE_FAILURE` when one
of them has severity `error`.  Each diagnostic takes one line, in red for an error and
in yellow otherwise; an internal compiler error whose formatted message is only its
heading is printed as its type and message instead
(`getFormattedInternalCompilerErrorMessage`), and a note follows the diagnostics when
one of them is a call of an unsupported `console.log` method.

The text of an internal compiler error is cut at the end and trimmed as the source
intends: it never starts with white space and never ends with a colon or white space
(`getFormattedInternalCompilerErrorMessage_trimmed`).
-/

/-- A line printed on the console: by `console.log`, by `console.warn` in yellow, or by
    `console.error` in red. -/
inductive ConsoleLine
  | log (text : String)
  | warn (text : String)
  | error (text : String)
deriving DecidableEq, Repr

/-- The characters JavaScript's `\s` matches and `String.prototype.trim` removes: white
    space and line terminators. -/
def isJsWhitespace (c : Char) : Bool :=
  c = '\t' || c = '\n' || c = '\x0b' || c = '\x0c' || c = '\r' || c = ' ' || c = '\xa0' ||
    c = '\u1680' || ('\u2000' ≤ c && c ≤ '\u200a') || c = '\u2028' || c = '\u2029' ||
    c = '\u202f' || c = '\u205f' || c = '\u3000' || c = '\ufeff'

/-- `String.prototype.trim`. -/
def trim (text : String) : String :=
  ⟨((text.data.dropWhile isJsWhitespace).reverse.dropWhile isJsWhitespace).reverse⟩

/-- A colon, or a character `\s` matches. -/
def isColonOrWhitespace (c : Char) : Bool :=
  c = ':' || isJsWhitespace c

/-- `text.replace(/[:\s]*$/g, "")`: the longest run of colons and white space that ends
    the text is removed (the run at the end is the first match, and the empty match at
    the very end that follows it changes nothing). -/
def removeTrailingColonsAndWhitespace (text : String) : String :=
  ⟨(text.data.reverse.dropWhile isColonOrWhitespace).reverse⟩

/-- `String.prototype.includes`. -/
def includes (text searchString : String) : Bool :=
  decide (searchString.data <:+: text.data)

/-- `getFormattedInternalCompilerErrorMessage`: nothing for a diagnostic whose formatted
    message is not the bare heading of an internal compiler error; for one that is, its
    type and message, cut and trimmed. -/
def getFormattedInternalCompilerErrorMessage (error : CompilerError) : Option String :=
  if trim error.formattedMessage ≠ "InternalCompilerError:" then none
  else some (trim (removeTrailingColonsAndWhitespace (error.type ++ ": " ++ error.message)))

/-- `isConsoleLogError`.  A diagnostic's message is always a string in the model. -/
def isConsoleLogError (error : CompilerError) : Bool :=
  error.type == "TypeError" && includes error.message "log" &&
    includes error.message "type(library console)"

/-- The note printed after diagnostics that call an unsupported `console.log` method. -/
def consoleLogNote : String :=
  "The console.log call you made isn\u2019t supported. See https://hardhat.org/console-log for the list of supported methods."

/-- `TASK_COMPILE_SOLIDITY_LOG_COMPILATION_ERRORS`.  An output without diagnostics, the
    source's `output?.errors === undefined` included, prints nothing. -/
def logCompilationErrors (output : CompilerOutput) : List ConsoleLine :=
  output.errors.map (fun error =>
    if error.severity = "error" then
      .error ((getFormattedInternalCompilerErrorMessage error).getD error.formattedMessage)
    else .warn error.formattedMessage) ++
  if output.errors.any isConsoleLogError then [.error consoleLogNote, .log ""] else []

/-- `TASK_COMPILE_SOLIDITY_CHECK_ERRORS`: the lines it prints, and whether it throws. -/
def checkErrors (output : CompilerOutput) : List ConsoleLine × Except HardhatError Unit :=
  (logCompilationErrors output, if hasCompilationErrors output then .error .compileFailure else .ok ())

/-- `TASK_COMPILE_SOLIDITY_LOG_NOTHING_TO_COMPILE`, the one log subtask that reads `quiet`. -/
def logNothingToCompile (quiet : Bool) : List ConsoleLine :=
  if !quiet then [.log "Nothing to compile"] else []

/-- `TASK_COMPILE_SOLIDITY_LOG_DOWNLOAD_COMPILER_START`. -/
def logDownloadCompilerStart (isCompilerDownloaded : Bool) (solcVersion : String) :
    List ConsoleLine :=
  if isCompilerDownloaded then [] else [.log ("Downloading compiler " ++ solcVersion)]

/-- `TASK_COMPILE_SOLIDITY_LOG_COMPILATION_RESULT`. -/
def logCompilationResult (compilationJobs : List CompilationJob) : List ConsoleLine :=
  if compilationJobs.length > 0 then [.log "Compilation finished successfully"] else []

/-- `LOG_COMPILATION_ERRORS` prints warnings, errors, and the empty line after the
    `console.log` note, and nothing else. -/
theorem mem_logCompilationErrors {output : CompilerOutput} {line : ConsoleLine}
    (printed : line ∈ logCompilationErrors output) :
    (∃ text, line = .warn text) ∨ (∃ text, line = .error text) ∨ line = .log "" := by
  simp only [logCompilationErrors, List.mem_append, List.mem_map] at printed
  rcases printed with ⟨error, -, diagnostic⟩ | note
  · split at diagnostic
    · exact .inr (.inl ⟨_, diagnostic.symm⟩)
    · exact .inl ⟨_, diagnostic.symm⟩
  · split at note
    · simp only [List.mem_cons, List.mem_singleton, List.not_mem_nil, or_false] at note
      rcases note with note | note
      · exact .inr (.inl ⟨_, note⟩)
      · exact .inr (.inr note)
    · cases note

/-! ## The text of an internal compiler error -/

section Trim

variable {characters : List Char}

/-- The last character left after dropping a run at the end satisfies no longer the
    predicate. -/
theorem getLast?_reverse_dropWhile {p : Char → Bool} {last : Char}
    (found : last ∈ ((characters.reverse.dropWhile p).reverse).getLast?) : p last = false := by
  rw [List.getLast?_reverse] at found
  have first := List.head?_dropWhile_not p characters.reverse
  rw [Option.mem_def.mp found] at first
  exact first

/-- Dropping a run at the start keeps the last character, when one is left. -/
theorem getLast?_dropWhile {p : Char → Bool} {last : Char}
    (found : last ∈ (characters.dropWhile p).getLast?) : last ∈ characters.getLast? := by
  have whole := List.takeWhile_append_dropWhile p characters
  have nonempty : characters.dropWhile p ≠ [] := fun empty => by simp [empty] at found
  rw [← whole, List.getLast?_append_of_ne_nil _ nonempty]
  exact found

/-- Trimming a text that does not end with white space only drops white space at its
    start. -/
theorem trim_eq_dropWhile {text : String}
    (noTrailing : ∀ last ∈ text.data.getLast?, isJsWhitespace last = false) :
    trim text = ⟨text.data.dropWhile isJsWhitespace⟩ := by
  unfold trim
  congr
  have kept : ∀ first ∈ (text.data.dropWhile isJsWhitespace).reverse.head?,
      isJsWhitespace first = false := fun first found => by
    rw [List.head?_reverse] at found
    exact noTrailing first (getLast?_dropWhile found)
  cases reversed : (text.data.dropWhile isJsWhitespace).reverse with
  | nil => exact (List.reverse_eq_nil_iff.mp reversed).symm
  | cons first rest =>
      rw [reversed] at kept
      rw [List.dropWhile_cons_of_neg (by simpa using kept first rfl), ← reversed, List.reverse_reverse]

end Trim

/-- The text printed for an internal compiler error neither starts with white space nor
    ends with a colon or white space. -/
theorem getFormattedInternalCompilerErrorMessage_trimmed {error : CompilerError} {text : String}
    (formatted : getFormattedInternalCompilerErrorMessage error = some text) :
    (∀ first ∈ text.data.head?, isJsWhitespace first = false) ∧
      ∀ last ∈ text.data.getLast?, last ≠ ':' ∧ isJsWhitespace last = false := by
  unfold getFormattedInternalCompilerErrorMessage at formatted
  split at formatted
  · cases formatted
  · rw [Option.some.injEq] at formatted
    subst formatted
    have cut : ∀ last ∈ (removeTrailingColonsAndWhitespace
        (error.type ++ ": " ++ error.message)).data.getLast?, isColonOrWhitespace last = false :=
      fun _ found => getLast?_reverse_dropWhile found
    rw [trim_eq_dropWhile fun last found => (Bool.or_eq_false_iff.mp (cut last found)).2]
    refine ⟨fun first found => ?_, fun last found => ?_⟩
    · have dropped := List.head?_dropWhile_not isJsWhitespace
        (removeTrailingColonsAndWhitespace (error.type ++ ": " ++ error.message)).data
      rw [Option.mem_def.mp found] at dropped
      exact dropped
    · simpa [isColonOrWhitespace, not_or] using cut last (getLast?_dropWhile found)

/-- An internal compiler error reported with a bare heading, whose message ends in a
    colon. -/
def bareInternalCompilerError : CompilerError :=
  ⟨"error", "InternalCompilerError", "Invalid opcode: ", " InternalCompilerError: "⟩

theorem bareInternalCompilerError_trimmed :
    getFormattedInternalCompilerErrorMessage bareInternalCompilerError =
        some "InternalCompilerError: Invalid opcode" ∧
      (∀ first ∈ "InternalCompilerError: Invalid opcode".data.head?, isJsWhitespace first = false) ∧
      ∀ last ∈ "InternalCompilerError: Invalid opcode".data.getLast?,
        last ≠ ':' ∧ isJsWhitespace last = false :=
  ⟨by decide, @getFormattedInternalCompilerErrorMessage_trimmed bareInternalCompilerError _ (by decide)⟩

example :
    logCompilationErrors ⟨[bareInternalCompilerError], []⟩ =
      [.error "InternalCompilerError: Invalid opcode"] := by
  decide

end Hardhat.Compile
