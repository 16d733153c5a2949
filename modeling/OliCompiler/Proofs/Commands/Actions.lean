import OliCompiler.Command.Session

/-!
The actions on files that the commands perform, as functions from the files before to what comes of the
action and the files after it.
-/

namespace OliCompiler.Command

variable {α β : Type}

/-- An action on a tree of files that may fail. -/
abbrev Action (α : Type) := ExceptT CompileError (StateM FileTree) α

theorem action_bind (action : Action α) (next : α → Action β) (tree : FileTree) :
    (action >>= next).run.run tree =
      match action.run.run tree with
      | (.ok value, tree') => (next value).run.run tree'
      | (.error error, tree') => (.error error, tree') := by
  rw [ExceptT.run_bind, StateT.run_bind]
  rcases action.run.run tree with ⟨_ | _, _⟩ <;> rfl

theorem settled_bind (result : Except CompileError α) (next : α → Action β) (tree : FileTree) :
    (settled result >>= next).run.run tree =
      match result with
      | .ok value => (next value).run.run tree
      | .error error => (.error error, tree) := by
  rw [action_bind]
  rcases result with _ | _ <;> rfl

/-! ## Reading -/

/-- The text of a file, or that it cannot be read. -/
def textOf (tree : FileTree) (input : String) : Except CompileError String :=
  match tree.readText input with
  | some source => .ok source
  | none => .error (.io .read input)

theorem textOf_eq_ok {tree : FileTree} {input source : String} :
    textOf tree input = .ok source ↔ tree.readText input = some source := by
  unfold textOf
  split <;> simp_all

theorem readSource_run (tree : FileTree) (input : String) :
    (FileTree.host.readSource input).run.run tree = (textOf tree input, tree) := by
  have asked : (liftM (FileTree.host.readText input) : Action _).run.run tree =
      (.ok (tree.readText input), tree) := rfl
  rw [Host.readSource, action_bind, asked, textOf]
  rcases tree.readText input with _ | _ <;> rfl

/-- Whether a path is that of a source file and the file has the given text. -/
def Loads (tree : FileTree) (input source : String) : Prop :=
  Path.isSource input = true ∧ tree.readText input = some source

/-- The text of a source file, or why there is none. -/
def sourceOf (tree : FileTree) (input : String) : Except CompileError String :=
  if Path.isSource input then textOf tree input else .error (.extension input)

theorem sourceOf_eq_ok {tree : FileTree} {input source : String} :
    sourceOf tree input = .ok source ↔ Loads tree input source := by
  unfold sourceOf Loads
  split <;> simp_all [textOf_eq_ok]

theorem load_run (tree : FileTree) (input : String) :
    (load FileTree.host input).run.run tree = (sourceOf tree input, tree) := by
  unfold load sourceOf
  split
  · exact readSource_run tree input
  · rfl

/-! ## Writing -/

/-- What comes of writing a compiled file. -/
def writingOf (tree : FileTree) (path text : String) : Except CompileError Unit × FileTree :=
  match tree.writeText path text with
  | (true, tree') => (.ok (), tree')
  | (false, tree') => (.error (.io .write path), tree')

theorem writeOutput_run (tree : FileTree) (path text : String) :
    (FileTree.host.writeOutput path text).run.run tree = writingOf tree path text := by
  have asked : (liftM (FileTree.host.writeText path text) : Action _).run.run tree =
      (.ok (tree.writeText path text).1, (tree.writeText path text).2) := rfl
  rw [Host.writeOutput, action_bind, asked, writingOf]
  rcases tree.writeText path text with ⟨_ | _, _⟩ <;> rfl

theorem writingOf_eq_ok {tree tree' : FileTree} {path text : String} :
    writingOf tree path text = (.ok (), tree') ↔ tree.writeText path text = (true, tree') := by
  unfold writingOf
  rcases tree.writeText path text with ⟨_ | _, _⟩ <;> simp

theorem writingOf_snd (tree : FileTree) (path text : String) :
    (writingOf tree path text).2 = (tree.writeText path text).2 := by
  unfold writingOf
  rcases tree.writeText path text with ⟨_ | _, _⟩ <;> rfl

/-! ## What the commands do -/

/-- Takes a source file through a stage. -/
def inspecting (stage : String → Except CompileError α) (input : String) : Action Unit := do
  let source ← load FileTree.host input
  let _ ← settled (stage source)
  return ()

theorem inspecting_run (stage : String → Except CompileError α) (tree : FileTree) (input : String) :
    (inspecting stage input).run.run tree = ((sourceOf tree input >>= stage).map fun _ => (), tree) := by
  rw [inspecting, action_bind, load_run]
  rcases sourceOf tree input with error | source
  · rfl
  · have entered : Except.ok source >>= stage = stage source := rfl
    dsimp only
    rw [settled_bind, entered]
    rcases stage source with _ | _ <;> rfl

/-- Compiles a source file into the file that belongs to it. -/
def building (input : String) (directory : Option String) : Action Unit := do
  let source ← load FileTree.host input
  let compilation ← settled (compile source)
  FileTree.host.writeOutput (Path.output input directory) compilation.llvm

theorem building_run (tree : FileTree) (input : String) (directory : Option String) :
    (building input directory).run.run tree =
      match sourceOf tree input >>= compile with
      | .ok compilation => writingOf tree (Path.output input directory) compilation.llvm
      | .error error => (.error error, tree) := by
  rw [building, action_bind, load_run]
  rcases sourceOf tree input with error | source
  · rfl
  · have entered : Except.ok source >>= compile = compile source := rfl
    dsimp only
    rw [settled_bind, entered]
    rcases compile source with error | compilation
    · rfl
    · exact writeOutput_run tree _ _

theorem compileFile_run (tree : FileTree) (input : String) (directory : Option String) :
    (FileTree.host.compileFile input directory).run.run tree =
      match textOf tree input >>= compile with
      | .ok compilation =>
        let ended := writingOf tree (Path.output input directory) compilation.llvm
        (ended.1.map fun _ => Path.output input directory, ended.2)
      | .error error => (.error error, tree) := by
  rw [Host.compileFile, action_bind, readSource_run]
  rcases textOf tree input with error | source
  · rfl
  · have entered : Except.ok source >>= compile = compile source := rfl
    rw [entered]
    refine (settled_bind (compile source) _ tree).trans ?_
    rcases compile source with error | compilation
    · rfl
    · dsimp only
      rw [action_bind, writeOutput_run]
      rcases writingOf tree (Path.output input directory) compilation.llvm with ⟨_ | _, _⟩ <;> rfl

end OliCompiler.Command
