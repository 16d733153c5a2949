import OliCompiler.Proofs.Commands.Asking
import OliCompiler.Proofs.Commands.Sessions
import OliCompiler.Proofs.Files.Trees
import OliCompiler.Proofs.Stages.Outcomes

/-!
The commands agree with each other, and those that fail touch nothing. A check, a listing of tokens and an
outline accept exactly the files that the stages they need accept; a build fails exactly if a check of the
same file does, and for the same reason; and only a build or a compilation that succeeds writes a file.
-/

namespace OliCompiler.Command

variable {tree : FileTree} {input : String} {args : List String} {command : Command} {tell : Bool}
  {directory : Option String} {α : Type} {action : Action Unit} {inspection : Inspection}

/-- A reading of arguments: the command that they ask for, or why they ask for none. -/
abbrev Reading := List String → Except Refusal Command

/-- What arguments lead to by a reading of them: the report of the command, and the files that it leaves. -/
def outcome (reading : Reading) (tree : FileTree) (args : List String) : Report × FileTree :=
  (perform FileTree.host (reading args)).run tree

variable {reading : Reading}

/-- Whether the file at a path is a source file that compiles. -/
def Compiles (tree : FileTree) (input : String) (compilation : Compilation) : Prop :=
  ∃ source, Loads tree input source ∧ compile source = .ok compilation

/-- Whether all commands on a path can be asked for, unless the path is empty. -/
def Askable (input : String) : Prop :=
  input ≠ "" → (∀ inspection, ∃ args, ofArgs args = .ok (.inspect inspection input)) ∧
    ∀ directory ≠ some "", ∀ options, ∃ args, ofArgs args = .ok (.build input directory options)

/-- What the commands and the compilation of a file make of one path on one tree of files, by whatever reading
of arguments. -/
structure Coherent (reading : Reading) (tree : FileTree) (input : String) : Prop where
  /-- A check succeeds exactly if the file compiles. -/
  check_accepts : ∀ args, reading args = .ok (.inspect .check input) →
    ((outcome reading tree args).1.status = 0 ↔ ∃ compilation, Compiles tree input compilation)
  /-- A check that fails tells why. -/
  check_tells : ∀ args, reading args = .ok (.inspect .check input) → (outcome reading tree args).1.status ≠ 0 →
    ∃ error, (outcome reading tree args).1.complaint = some (.compile error)
  /-- A build that has where to write fails as a check does, unless it is silent. -/
  build_agrees : ∀ args args' directory options, reading args = .ok (.build input directory options) →
    reading args' = .ok (.inspect .check input) → options.silent = false →
    tree.Writable (Path.output input directory) →
    ((outcome reading tree args).1.status = 0 ↔ (outcome reading tree args').1.status = 0) ∧
      (outcome reading tree args).1.complaint = (outcome reading tree args').1.complaint
  /-- An outline succeeds exactly if the file loads, scans and parses. -/
  parse_accepts : ∀ args, reading args = .ok (.inspect .parse input) →
    ((outcome reading tree args).1.status = 0 ↔ ∃ source program, Loads tree input source ∧
      (scan source).errors = [] ∧ parse (scan source).tokens = .ok program)
  /-- A listing of tokens succeeds exactly if the file loads and scans. -/
  tokenize_accepts : ∀ args, reading args = .ok (.inspect .tokenize input) →
    ((outcome reading tree args).1.status = 0 ↔ ∃ source, Loads tree input source ∧ (scan source).errors = [])
  /-- The commands that are no builds change nothing. -/
  inspection_keeps : ∀ args inspection, reading args = .ok (.inspect inspection input) →
    (outcome reading tree args).2 = tree
  /-- A build that comes to no file to write changes nothing. -/
  build_keeps : ∀ args directory options, reading args = .ok (.build input directory options) →
    (¬∃ compilation, Compiles tree input compilation) →
    (outcome reading tree args).1.status ≠ 0 ∧ (outcome reading tree args).2 = tree
  /-- A build that succeeds writes what it compiled, and no more. -/
  build_writes : ∀ args directory options, reading args = .ok (.build input directory options) →
    (outcome reading tree args).1.status = 0 → ∃ compilation, Compiles tree input compilation ∧
      tree.Written (Path.output input directory) compilation.llvm (outcome reading tree args).2
  /-- A compilation of the file that fails before it writes changes nothing. -/
  compileFile_keeps : ∀ directory error tree',
    (FileTree.host.compileFile input directory).run.run tree = (.error error, tree') →
    error ≠ .io .write (Path.output input directory) → tree' = tree
  /-- A compilation of the file that succeeds writes what it compiled, and no more. -/
  compileFile_writes : ∀ directory output tree',
    (FileTree.host.compileFile input directory).run.run tree = (.ok output, tree') →
    output = Path.output input directory ∧ ∃ source compilation, tree.readText input = some source ∧
      compile source = .ok compilation ∧ tree.Written output compilation.llvm tree'

/-! ## From sessions to reports -/

theorem outcome_of_asked (asked : reading args = .ok command) : outcome reading tree args =
    (report (((session FileTree.host command).run.run "").run tree).1,
      (((session FileTree.host command).run.run "").run tree).2) := by
  rw [outcome, asked]
  rfl

/-- A command that follows an action reports how the action ended. -/
theorem Follows.outcome_eq (follows : Follows tell (session FileTree.host command) action)
    (asked : reading args = .ok command) (tree : FileTree) : ∃ output, outcome reading tree args =
      (report (endingOf tell (action.run.run tree).1, output), (action.run.run tree).2) := by
  obtain ⟨output, ends⟩ := follows "" tree
  exact ⟨output, by rw [outcome_of_asked asked, ends]⟩

theorem report_status {result : Except CompileError Unit} {output : String} :
    (report (endingOf tell result, output)).status = 0 ↔ result = .ok () := by
  rcases result with error | _ <;> cases tell <;> simp [endingOf, report]

theorem report_complaint {result : Except CompileError Unit} {output : String} :
    (report (endingOf true result, output)).complaint =
      match result with
      | .ok () => none
      | .error error => some (.compile error) := by
  rcases result with error | _ <;> rfl

theorem Follows.status (follows : Follows tell (session FileTree.host command) action)
    (asked : reading args = .ok command) :
    (outcome reading tree args).1.status = 0 ↔ (action.run.run tree).1 = .ok () := by
  obtain ⟨output, ends⟩ := follows.outcome_eq asked tree
  rw [ends, report_status]

theorem Follows.complaint (follows : Follows true (session FileTree.host command) action)
    (asked : reading args = .ok command) : (outcome reading tree args).1.complaint =
      match (action.run.run tree).1 with
      | .ok () => none
      | .error error => some (.compile error) := by
  obtain ⟨output, ends⟩ := follows.outcome_eq asked tree
  rw [ends, report_complaint]

theorem Follows.files (follows : Follows tell (session FileTree.host command) action)
    (asked : reading args = .ok command) :
    (outcome reading tree args).2 = (action.run.run tree).2 := by
  obtain ⟨output, ends⟩ := follows.outcome_eq asked tree
  rw [ends]

/-! ## Inspections -/

theorem run_keeps (input : String) : Keeps (runFile FileTree.host input) := by
  refine (attempt_keeps fun tree => by rw [load_run]).bind fun source => ?_
  refine (attempt_keeps fun tree => rfl).bind fun compilation output tree => ?_
  split <;> rfl

/-- An inspection through a stage succeeds exactly if the file loads and passes the stage. -/
theorem inspecting_eq_ok {stage : String → Except CompileError α} :
    ((inspecting stage input).run.run tree).1 = .ok () ↔
      ∃ source, Loads tree input source ∧ ∃ value, stage source = .ok value := by
  rw [inspecting_run]
  rcases loaded : sourceOf tree input with error | source
  · refine ⟨nofun, fun ⟨source, loads, _⟩ => ?_⟩
    cases loaded.symm.trans (sourceOf_eq_ok.mpr loads)
  · have entered : Except.ok source >>= stage = stage source := rfl
    rw [entered]
    constructor
    · intro ended
      rcases passed : stage source with error | value <;> rw [passed] at ended
      · cases ended
      · exact ⟨source, sourceOf_eq_ok.mp loaded, value, passed⟩
    · rintro ⟨source', loads, value, passed⟩
      cases loaded.symm.trans (sourceOf_eq_ok.mpr loads)
      rw [passed]
      rfl

theorem tokenize_eq_ok {source : String} :
    (∃ tokens, tokenize source = .ok tokens) ↔ (scan source).errors = [] := by
  by_cases clean : (scan source).errors = [] <;> simp [tokenize, clean]

theorem parseSource_eq_ok {source : String} {program : Program} : parseSource source = .ok program ↔
    (scan source).errors = [] ∧ parse (scan source).tokens = .ok program := by
  by_cases clean : (scan source).errors = []
  · rw [parseSource_of_clean clean]
    rcases parse (scan source).tokens with _ | _ <;> simp [Except.mapError, clean]
  · have refused : tokenize source = .error (.lexical (scan source).errors) := by simp [tokenize, clean]
    rw [parseSource, refused]
    refine iff_of_false ?_ fun read => clean read.1
    intro read
    cases read

theorem check_status (asked : reading args = .ok (.inspect .check input)) :
    (outcome reading tree args).1.status = 0 ↔ ∃ compilation, Compiles tree input compilation := by
  rw [(check_follows input).status asked, inspecting_eq_ok]
  exact ⟨fun ⟨source, loads, compilation, compiled⟩ => ⟨compilation, source, loads, compiled⟩,
    fun ⟨compilation, source, loads, compiled⟩ => ⟨source, loads, compilation, compiled⟩⟩

theorem check_told (asked : reading args = .ok (.inspect .check input))
    (failed : (outcome reading tree args).1.status ≠ 0) :
    ∃ error, (outcome reading tree args).1.complaint = some (.compile error) := by
  rw [ne_eq, (check_follows input).status asked] at failed
  rw [(check_follows input).complaint asked]
  rcases ended : ((inspecting compile input).run.run tree).1 with error | _
  · exact ⟨error, rfl⟩
  · exact absurd ended failed

theorem parse_status (asked : reading args = .ok (.inspect .parse input)) :
    (outcome reading tree args).1.status = 0 ↔ ∃ source program, Loads tree input source ∧
      (scan source).errors = [] ∧ parse (scan source).tokens = .ok program := by
  rw [(parse_follows input).status asked, inspecting_eq_ok]
  simp only [parseSource_eq_ok, exists_and_left]

theorem tokenize_status (asked : reading args = .ok (.inspect .tokenize input)) :
    (outcome reading tree args).1.status = 0 ↔ ∃ source, Loads tree input source ∧ (scan source).errors = [] := by
  rw [(tokenize_follows input).status asked, inspecting_eq_ok]
  simp only [tokenize_eq_ok]

theorem inspection_files (asked : reading args = .ok (.inspect inspection input)) :
    (outcome reading tree args).2 = tree := by
  cases inspection with
  | check => rw [(check_follows input).files asked, inspecting_run]
  | tokenize => rw [(tokenize_follows input).files asked, inspecting_run]
  | parse => rw [(parse_follows input).files asked, inspecting_run]
  | run =>
    rw [outcome_of_asked asked]
    exact run_keeps input "" tree

/-! ## Builds -/

theorem compiles_iff {compilation : Compilation} :
    Compiles tree input compilation ↔ sourceOf tree input >>= compile = .ok compilation := by
  constructor
  · rintro ⟨source, loads, compiled⟩
    rw [sourceOf_eq_ok.mpr loads]
    exact compiled
  · intro compiled
    rcases loaded : sourceOf tree input with error | source <;> rw [loaded] at compiled
    · cases compiled
    · exact ⟨source, sourceOf_eq_ok.mp loaded, compiled⟩

/-- Where there is where to write, a build comes to what an inspection by compiling comes to. -/
theorem building_result (writable : tree.Writable (Path.output input directory)) :
    ((building input directory).run.run tree).1 = ((inspecting compile input).run.run tree).1 := by
  rw [building_run, inspecting_run]
  rcases sourceOf tree input >>= compile with error | compilation
  · rfl
  · have writes := writable.writeText compilation.llvm
    dsimp only [writingOf]
    rcases reached : tree.writeText (Path.output input directory) compilation.llvm with ⟨_ | _, _⟩ <;>
      rw [reached] at writes
    · cases writes
    · rfl

theorem building_failed (failed : ¬∃ compilation, Compiles tree input compilation) (directory : Option String) :
    ∃ error, (building input directory).run.run tree = (.error error, tree) := by
  rw [building_run]
  rcases reached : sourceOf tree input >>= compile with error | compilation
  · exact ⟨error, rfl⟩
  · exact absurd ⟨compilation, compiles_iff.mpr reached⟩ failed

theorem writingOf_written {tree' : FileTree} {path text : String}
    (ended : writingOf tree path text = (.ok (), tree')) : tree.Written path text tree' := by
  have writes := writingOf_eq_ok.mp ended
  have written := FileTree.writeText_written (congrArg Prod.fst writes)
  rwa [writes] at written

theorem building_written (built : ((building input directory).run.run tree).1 = .ok ()) :
    ∃ compilation, Compiles tree input compilation ∧
      tree.Written (Path.output input directory) compilation.llvm
        ((building input directory).run.run tree).2 := by
  rw [building_run] at built ⊢
  rcases reached : sourceOf tree input >>= compile with error | compilation <;> rw [reached] at built
  · cases built
  · refine ⟨compilation, compiles_iff.mpr reached, ?_⟩
    dsimp only at built ⊢
    rcases writes : writingOf tree (Path.output input directory) compilation.llvm with ⟨_, tree'⟩
    rw [writes] at built
    obtain rfl : _ = Except.ok () := built
    exact writingOf_written writes

variable {options : BuildOptions}

theorem build_agreement {args' : List String}
    (asked : reading args = .ok (.build input directory options))
    (asked' : reading args' = .ok (.inspect .check input)) (told : options.silent = false)
    (writable : tree.Writable (Path.output input directory)) :
    ((outcome reading tree args).1.status = 0 ↔ (outcome reading tree args').1.status = 0) ∧
      (outcome reading tree args).1.complaint = (outcome reading tree args').1.complaint := by
  have follows := build_follows input directory options
  have reports : options.reportsErrors = true := by simp [BuildOptions.reportsErrors, told]
  rw [reports] at follows
  rw [follows.status asked, follows.complaint asked, (check_follows input).status asked',
    (check_follows input).complaint asked', building_result writable]
  exact ⟨.rfl, rfl⟩

theorem build_failure (asked : reading args = .ok (.build input directory options))
    (failed : ¬∃ compilation, Compiles tree input compilation) :
    (outcome reading tree args).1.status ≠ 0 ∧ (outcome reading tree args).2 = tree := by
  have follows := build_follows input directory options
  obtain ⟨error, ends⟩ := building_failed failed directory
  rw [ne_eq, follows.status asked, follows.files asked, ends]
  exact ⟨nofun, rfl⟩

theorem build_success (asked : reading args = .ok (.build input directory options))
    (succeeded : (outcome reading tree args).1.status = 0) : ∃ compilation, Compiles tree input compilation ∧
      tree.Written (Path.output input directory) compilation.llvm (outcome reading tree args).2 := by
  have follows := build_follows input directory options
  rw [follows.status asked] at succeeded
  rw [follows.files asked]
  exact building_written succeeded

/-! ## The compilation of a file -/

theorem compileFile_failure {tree' : FileTree} {error : CompileError}
    (ended : (FileTree.host.compileFile input directory).run.run tree = (.error error, tree'))
    (early : error ≠ .io .write (Path.output input directory)) : tree' = tree := by
  rw [compileFile_run] at ended
  rcases reached : textOf tree input >>= compile with error' | compilation <;> rw [reached] at ended
  · cases ended
    rfl
  · dsimp only [writingOf] at ended
    rcases writes : tree.writeText (Path.output input directory) compilation.llvm with ⟨_ | _, written⟩ <;>
      rw [writes] at ended
    · cases ended
      exact absurd rfl early
    · cases ended

theorem compileFile_success {tree' : FileTree} {output : String}
    (ended : (FileTree.host.compileFile input directory).run.run tree = (.ok output, tree')) :
    output = Path.output input directory ∧ ∃ source compilation, tree.readText input = some source ∧
      compile source = .ok compilation ∧ tree.Written output compilation.llvm tree' := by
  rw [compileFile_run] at ended
  rcases loaded : textOf tree input with error | source <;> rw [loaded] at ended
  · cases ended
  have entered : Except.ok source >>= compile = compile source := rfl
  rw [entered] at ended
  rcases compiled : compile source with error | compilation <;> rw [compiled] at ended
  · cases ended
  dsimp only at ended
  rcases writes : writingOf tree (Path.output input directory) compilation.llvm with ⟨error | _, written⟩ <;>
    rw [writes] at ended
  · cases ended
  · cases ended
    exact ⟨rfl, source, compilation, textOf_eq_ok.mp loaded, compiled, writingOf_written writes⟩

/-- Every path but the empty one can be asked about; and on every tree of files the commands agree, and
failures touch nothing. -/
theorem commands_coherent (tree : FileTree) (input : String) :
    Askable input ∧ ∀ reading, Coherent reading tree input := by
  refine ⟨fun named => ⟨fun inspection => ⟨_, ofArgs_inspection inspection named⟩,
    fun directory held options => ⟨_, ofArgs_build directory options named held⟩⟩, fun reading => ?_⟩
  exact {
    check_accepts := fun _ => check_status
    check_tells := fun _ => check_told
    build_agrees := fun _ _ _ _ => build_agreement
    parse_accepts := fun _ => parse_status
    tokenize_accepts := fun _ => tokenize_status
    inspection_keeps := fun _ _ => inspection_files
    build_keeps := fun _ _ _ => build_failure
    build_writes := fun _ _ _ => build_success
    compileFile_keeps := fun _ _ _ => compileFile_failure
    compileFile_writes := fun _ _ _ => compileFile_success }

end OliCompiler.Command
