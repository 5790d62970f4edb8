import Hardhat.Compile.CompileJobs
import Mathlib.Data.List.Lex
import Mathlib.Data.String.Basic
import Mathlib.Order.Compare

namespace Hardhat.Compile

/-! # Compilation order and progress messages

`TASK_COMPILE_SOLIDITY_COMPILE_JOBS` compiles the jobs sorted by version, and
`LOG_RUN_COMPILER_START` prints a message at the first job of every run of equal
versions, counting the emitting files up to the next version change.  The count is
right only because the sort makes the jobs of one version contiguous; that needs a
comparator that orders versions as a total preorder and calls two versions equal
only when they are the same string.

`startMessagesAfter` restates the messages over the indices as a recursion over
the sorted list; `startMessagesAfter_spec` is the induction that counts them.
-/

/-- `semver.compare` is the three-way comparator of a total preorder: swapping the
    versions swaps the result, and "not greater" is transitive. -/
structure Semver.TotalPreorder (semver : Semver) : Prop where
  swap : ∀ version other, (semver.compare version other).swap = semver.compare other version
  trans : ∀ version middle other, semver.compare version middle ≠ .gt →
    semver.compare middle other ≠ .gt → semver.compare version other ≠ .gt

/-- The files of a job that emit artifacts, as the counting loop counts them. -/
def emittingFiles (job : CompilationJob) : List ResolvedFile :=
  job.getResolvedFiles.filter job.emitsArtifacts

/-- The progress messages of the jobs of a list, the job before them having version
    `previous`. -/
def startMessagesAfter : Option String → List CompilationJob → List RunCompilerStartMessage
  | _, [] => []
  | previous, job :: jobs =>
      (if previous ≠ some job.getSolcConfig.version then
        [⟨countEmittingFiles job.getSolcConfig.version (job :: jobs), job.getSolcConfig.version⟩]
      else []) ++ startMessagesAfter (some job.getSolcConfig.version) jobs

section Order

variable {semver : Semver} (totalPreorder : semver.TotalPreorder)
  (identical : ∀ version other, semver.compare version other = .eq → version = other)

include totalPreorder in
theorem Semver.TotalPreorder.total (version other : String) :
    semver.compare version other ≠ .gt ∨ semver.compare other version ≠ .gt := by
  by_cases greater : semver.compare version other = .gt
  · right
    rw [← totalPreorder.swap, greater]
    decide
  · exact .inl greater

include totalPreorder in
theorem Semver.TotalPreorder.refl (version : String) : semver.compare version version ≠ .gt :=
  (totalPreorder.total version version).elim id id

include totalPreorder identical in
/-- Two versions each not greater than the other are the same version. -/
theorem eq_of_compare_ne_gt {version other : String} (notGreater : semver.compare version other ≠ .gt)
    (notLess : semver.compare other version ≠ .gt) : version = other := by
  apply identical
  cases compared : semver.compare version other with
  | lt =>
      have := totalPreorder.swap version other
      rw [compared] at this
      exact absurd this.symm notLess
  | eq => rfl
  | gt => exact absurd compared notGreater

include totalPreorder in
/-- The sorted jobs are in nondecreasing version order. -/
theorem sorted_sortCompilationJobs (compilationJobs : List CompilationJob) :
    (sortCompilationJobs semver compilationJobs).Sorted (compilesBefore semver) := by
  haveI : IsTotal CompilationJob (compilesBefore semver) :=
    ⟨fun job other => totalPreorder.total _ _⟩
  haveI : IsTrans CompilationJob (compilesBefore semver) :=
    ⟨fun job middle other => totalPreorder.trans _ _ _⟩
  exact List.sorted_insertionSort _ _

/-- The message at the first job after `done`: printed exactly when the version changes. -/
theorem logRunCompilerStart_length (done : List CompilationJob) (job : CompilationJob)
    (jobs : List CompilationJob) :
    logRunCompilerStart (done ++ job :: jobs) done.length =
      if done.getLast?.map (·.getSolcConfig.version) ≠ some job.getSolcConfig.version then
        some ⟨countEmittingFiles job.getSolcConfig.version (job :: jobs), job.getSolcConfig.version⟩
      else none := by
  rcases List.eq_nil_or_concat done with rfl | ⟨before, last, rfl⟩
  · simp [logRunCompilerStart]
  · have shape : before ++ [last] ++ job :: jobs = before ++ last :: job :: jobs := by simp
    have atJob : (before ++ last :: job :: jobs)[before.length + 1]? = some job := by
      rw [List.getElem?_append_right (by omega)]
      simp
    have atLast : (before ++ last :: job :: jobs)[before.length]? = some last := by
      rw [List.getElem?_append_right (by omega)]
      simp
    have rest : (before ++ last :: job :: jobs).drop (before.length + 1) = job :: jobs := by
      rw [List.drop_append_eq_append_drop]
      simp
    simp only [List.concat_eq_append, shape, logRunCompilerStart, List.length_append, List.length_singleton, atJob,
      Nat.add_sub_cancel, atLast, rest, List.getLast?_append, List.getLast?_singleton]
    simp

/-- The messages over the indices of the jobs after `done` are `startMessagesAfter`. -/
theorem filterMap_logRunCompilerStart (done : List CompilationJob) :
    ∀ jobs : List CompilationJob,
      (List.range' done.length jobs.length).filterMap (logRunCompilerStart (done ++ jobs)) =
        startMessagesAfter (done.getLast?.map (·.getSolcConfig.version)) jobs
  | [] => rfl
  | job :: jobs => by
      have lastJob : (done ++ [job]).getLast? = some job := by simp
      have later := filterMap_logRunCompilerStart (done ++ [job]) jobs
      simp only [List.length_append, List.length_singleton, List.append_assoc,
        List.singleton_append, lastJob, Option.map_some'] at later
      rw [List.length_cons, List.range'_succ, List.filterMap_cons, logRunCompilerStart_length,
        startMessagesAfter, ← later]
      by_cases changed : done.getLast?.map (·.getSolcConfig.version) ≠ some job.getSolcConfig.version
      · rw [if_pos changed, if_pos changed]
        rfl
      · rw [if_neg changed, if_neg changed]
        rfl

include totalPreorder identical in
/-- Over a sorted list whose versions are all at least `solcVersion`, the counting loop
    counts every emitting file of the jobs of that version. -/
theorem countEmittingFiles_eq_sum {solcVersion : String} :
    ∀ {jobs : List CompilationJob}, jobs.Pairwise (compilesBefore semver) →
      (∀ job ∈ jobs, semver.compare solcVersion job.getSolcConfig.version ≠ .gt) →
      countEmittingFiles solcVersion jobs =
        ((jobs.filter (·.getSolcConfig.version = solcVersion)).flatMap emittingFiles).length
  | [], _, _ => rfl
  | job :: jobs, sorted, atLeast => by
      rw [List.pairwise_cons] at sorted
      simp only [List.mem_cons, forall_eq_or_imp] at atLeast
      by_cases same : job.getSolcConfig.version = solcVersion
      · simp [countEmittingFiles, same, emittingFiles,
          countEmittingFiles_eq_sum sorted.2 atLeast.2]
      · have none : jobs.filter (·.getSolcConfig.version = solcVersion) = [] := by
          refine List.filter_eq_nil_iff.mpr fun later laterMem laterSame => same ?_
          have laterSame : later.getSolcConfig.version = solcVersion := by simpa using laterSame
          refine eq_of_compare_ne_gt totalPreorder identical ?_ atLeast.1
          simpa [compilesBefore, laterSame] using sorted.1 later laterMem
        simp [countEmittingFiles, same, none]

include totalPreorder identical in
/-- The messages of a sorted list after a job of version `previous`, every version of
    the list being at least `previous`: one message per version other than
    `previous`, counting the emitting files of all the jobs of that version. -/
theorem startMessagesAfter_spec :
    ∀ (previous : Option String) {jobs : List CompilationJob},
      jobs.Pairwise (compilesBefore semver) →
      (∀ version, previous = some version →
        ∀ job ∈ jobs, semver.compare version job.getSolcConfig.version ≠ .gt) →
      ((startMessagesAfter previous jobs).map (·.solcVersion)).Nodup ∧
        (∀ version, version ∈ (startMessagesAfter previous jobs).map (·.solcVersion) ↔
          (∃ job ∈ jobs, job.getSolcConfig.version = version) ∧ previous ≠ some version) ∧
        ∀ message ∈ startMessagesAfter previous jobs,
          message.count = ((jobs.filter (·.getSolcConfig.version = message.solcVersion)).flatMap
            emittingFiles).length
  | _, [], _, _ => by simp [startMessagesAfter]
  | previous, job :: jobs, sorted, atLeast => by
      have sortedTail := (List.pairwise_cons.mp sorted).2
      have afterJob : ∀ later ∈ jobs,
          semver.compare job.getSolcConfig.version later.getSolcConfig.version ≠ .gt :=
        (List.pairwise_cons.mp sorted).1
      obtain ⟨nodup, mem, count⟩ := startMessagesAfter_spec (some job.getSolcConfig.version)
        sortedTail (by rintro version ⟨⟩; exact afterJob)
      -- a later message is never of the version of `job`, so it counts the same jobs
      have countLater : ∀ message ∈ startMessagesAfter (some job.getSolcConfig.version) jobs,
          message.count = (((job :: jobs).filter (·.getSolcConfig.version = message.solcVersion)).flatMap
            emittingFiles).length := by
        intro message messageMem
        have differs : job.getSolcConfig.version ≠ message.solcVersion := fun same =>
          ((mem _).mp (List.mem_map_of_mem _ messageMem)).2 (congrArg some same)
        simp [List.filter_cons, differs, count message messageMem]
      by_cases logged : previous ≠ some job.getSolcConfig.version
      · simp only [startMessagesAfter, logged, ne_eq, not_false_eq_true, if_true,
          List.singleton_append, List.map_cons, List.nodup_cons, List.mem_cons, forall_eq_or_imp]
        refine ⟨⟨fun jobMem => ((mem _).mp jobMem).2 rfl, nodup⟩, fun version => ?_, ?_, countLater⟩
        · rw [mem]
          constructor
          · rintro (rfl | ⟨⟨later, laterMem, rfl⟩, differs⟩)
            · exact ⟨⟨job, .inl rfl, rfl⟩, logged⟩
            · refine ⟨⟨later, .inr laterMem, rfl⟩, fun isPrevious => ?_⟩
              have := eq_of_compare_ne_gt totalPreorder identical (afterJob later laterMem)
                (atLeast _ isPrevious job (List.mem_cons_self _ _))
              exact differs (congrArg some this)
          · rintro ⟨⟨other, otherMem, rfl⟩, notPrevious⟩
            by_cases same : other.getSolcConfig.version = job.getSolcConfig.version
            · exact .inl same
            · rcases otherMem with rfl | laterMem
              · exact absurd rfl same
              · exact .inr ⟨⟨other, laterMem, rfl⟩, fun isJob => same (Option.some.inj isJob).symm⟩
        · exact countEmittingFiles_eq_sum totalPreorder identical sorted
            (fun other otherMem => by
              rcases List.mem_cons.mp otherMem with rfl | laterMem
              · exact totalPreorder.refl _
              · exact afterJob other laterMem)
      · have isPrevious : previous = some job.getSolcConfig.version := by simpa using logged
        subst isPrevious
        simp only [startMessagesAfter, ne_eq, not_true_eq_false, if_false, List.nil_append]
        refine ⟨nodup, fun version => ?_, countLater⟩
        rw [mem]
        constructor
        · rintro ⟨⟨later, laterMem, rfl⟩, differs⟩
          exact ⟨⟨later, List.mem_cons_of_mem _ laterMem, rfl⟩, differs⟩
        · rintro ⟨⟨other, otherMem, rfl⟩, differs⟩
          rcases List.mem_cons.mp otherMem with rfl | laterMem
          · exact absurd rfl differs
          · exact ⟨⟨other, laterMem, rfl⟩, differs⟩

/-- A comparator of versions: the lexicographic order of their characters. -/
def lexicographicSemver : Semver :=
  ⟨fun version other => cmp version.data other.data, fun _ _ => true, fun _ _ => true⟩

theorem lexicographicSemver_totalPreorder : lexicographicSemver.TotalPreorder where
  swap version other := cmp_swap version.data other.data
  trans version middle other := by
    simp only [lexicographicSemver, ne_eq, cmp_eq_gt_iff, not_lt]
    exact le_trans

theorem lexicographicSemver_identical (version other : String) :
    lexicographicSemver.compare version other = .eq → version = other := fun same =>
  String.ext ((cmp_eq_eq_iff _ _).mp same)

/-- A toolchain whose downloads succeed and whose compilers print nothing. -/
def quietToolchain : Toolchain where
  downloader := ⟨fun version => .ok (version, .linux), fun _ version => .ok (some (version, .linux)),
    fun _ => true⟩
  runSolc _ _ := some ⟨[], []⟩
  runSolcjs _ _ := some ⟨[], []⟩

/-- The job of one file without imports. -/
def singleFileJob (version sourceName : String) : CompilationJob where
  solidityConfig := ⟨version, ""⟩
  filesToCompile := [(⟨sourceName, "/project/" ++ sourceName, ⟨"", [], []⟩, "", 0⟩, true)]
  sourceNamesNodup := List.nodup_singleton _

def threeJobs : List CompilationJob :=
  [singleFileJob "0.8.0" "A", singleFileJob "0.7.0" "B", singleFileJob "0.8.0" "C"]

example : (compileJobs lexicographicSemver quietToolchain threeJobs Artifacts.empty).startMessages =
    [⟨1, "0.7.0"⟩, ⟨2, "0.8.0"⟩] := by
  decide

end Order

end Hardhat.Compile
