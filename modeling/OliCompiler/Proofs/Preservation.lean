import OliCompiler.Proofs.Commands.Actions
import OliCompiler.Proofs.Files.Locations
import OliCompiler.Proofs.Paths.Outputs
import OliCompiler.Proofs.Stages.Outcomes

/-!
What becomes of the input when a file is compiled. It can only be lost where the path of the compiled file
leads to the input itself, which takes an input that has the extension of compiled files. There it is lost if
the compilation succeeds, and is at the mercy of the device if the write fails.
-/

namespace OliCompiler

/-! ## Compiled texts -/

theorem parse_semicolon {token : Token} {rest : List Token} (first : token.kind = .semicolon) :
    parse (token :: rest) = .error ⟨.topLevel .semicolon, token.line, token.span⟩ := by
  obtain ⟨kind, value, position, span⟩ := token
  cases first
  rfl

theorem scan_semicolon {source : String} {text : List Char} (opens : source.toList = ';' :: text) :
    ∃ token rest, (scan source).tokens = token :: rest ∧ token.kind = .semicolon := by
  have first : Lexeme.take ';' text = (⟨.symbol .semicolon, [';']⟩, text) := by
    cases text <;> rfl
  rw [scan, opens, Lexeme.all_cons, first]
  exact ⟨_, _, rfl, rfl⟩

theorem compile_semicolon {source : String} {text : List Char} (opens : source.toList = ';' :: text) :
    ∃ error, compile source = .error error := by
  obtain ⟨token, rest, tokens, first⟩ := scan_semicolon opens
  by_cases clean : (scan source).errors = []
  · have failed : parse (scan source).tokens = .error ⟨.topLevel .semicolon, token.line, token.span⟩ := by
      rw [tokens, parse_semicolon first]
    exact ⟨_, compile_of_parse_error clean failed⟩
  · exact ⟨_, compile_of_errors clean⟩

theorem llvm_semicolon (module : Ir.Module) : ∃ text, module.llvm.toList = ';' :: text := by
  have opens : "; ModuleID = '".toList = ';' :: " ModuleID = '".toList := rfl
  simp only [Ir.Module.llvm, Ir.Module.llvmLines, Text.unlines, List.cons_append, List.map_cons, String.join_cons,
    String.toList_append, opens]
  exact ⟨_, rfl⟩

/-- No source text is the one that it is compiled to. -/
theorem llvm_ne_source {source : String} {compilation : Compilation}
    (compiled : compile source = .ok compilation) : compilation.llvm ≠ source := by
  rintro rfl
  obtain ⟨text, opens⟩ := llvm_semicolon compilation.module
  obtain ⟨error, failed⟩ := compile_semicolon opens
  cases compiled.symm.trans failed

namespace FileTree

open Command

variable {tree tree' : FileTree} {input path other : String} {directory : Option String} {bytes : List UInt8}
  {result : Except CompileError String} {place : Location}

theorem readText_congr (same : tree.locate path = tree.locate other) :
    tree.readText path = tree.readText other := by
  rw [readText, readText, read, read, same]

theorem readText_of_read (held : tree.read path = some bytes) :
    tree.readText path = String.fromUTF8? ⟨bytes.toArray⟩ := by
  rw [readText, held]
  rfl

/-- Whether a compilation of a file came to write, and the place to write to was that of its input. -/
structure Overwrites (tree' : FileTree) (input : String) (directory : Option String)
    (result : Except CompileError String) : Prop where
  reached : result = .ok (Path.output input directory) ∨ result = .error (.io .write (Path.output input directory))
  meets : tree'.locate (Path.output input directory) = tree'.locate input

/-- What a compilation of a file does: it fails and changes nothing, or it comes to write what it compiled. -/
theorem compileFile_cases (ended : (host.compileFile input directory).run.run tree = (result, tree')) :
    (∃ error, result = .error error) ∧ tree' = tree ∨
    ∃ source compilation, tree.readText input = some source ∧ compile source = .ok compilation ∧
      tree' = (tree.writeText (Path.output input directory) compilation.llvm).2 ∧
      (result = .ok (Path.output input directory) ∧
        (tree.writeText (Path.output input directory) compilation.llvm).1 = true ∨
      result = .error (.io .write (Path.output input directory))) := by
  rw [compileFile_run] at ended
  cases loaded : textOf tree input with
  | error error =>
    rw [loaded] at ended
    cases ended
    exact .inl ⟨⟨_, rfl⟩, rfl⟩
  | ok source =>
    have entered : textOf tree input >>= compile = compile source := by rw [loaded]; rfl
    rw [entered] at ended
    cases compiled : compile source with
    | error error =>
      rw [compiled] at ended
      cases ended
      exact .inl ⟨⟨_, rfl⟩, rfl⟩
    | ok compilation =>
      rw [compiled] at ended
      refine .inr ⟨source, compilation, textOf_eq_ok.mp loaded, compiled, ?_⟩
      dsimp only [writingOf] at ended
      rcases written : tree.writeText (Path.output input directory) compilation.llvm with ⟨_ | _, tree''⟩ <;>
        rw [written] at ended
      · cases ended
        exact ⟨rfl, .inr rfl⟩
      · cases ended
        exact ⟨rfl, .inl ⟨rfl, rfl⟩⟩

/-- A path that led somewhere leads there also behind a compilation. -/
theorem locate_compileFile (ended : (host.compileFile input directory).run.run tree = (result, tree'))
    (located : tree.locate path = some place) : tree'.locate path = some place := by
  rcases compileFile_cases ended with ⟨_, same⟩ | ⟨_, _, _, _, same, _⟩ <;> rw [same]
  · exact located
  · exact locate_writeText located

/-- An input that is written over is lost: what was written to it is no source text. -/
theorem read_overwritten {source : String} {compilation : Compilation} (held : tree.read input = some bytes)
    (loaded : tree.readText input = some source) (compiled : compile source = .ok compilation)
    (done : (tree.writeText path compilation.llvm).1 = true)
    (meets : (tree.writeText path compilation.llvm).2.locate path =
      (tree.writeText path compilation.llvm).2.locate input) :
    (tree.writeText path compilation.llvm).2.read input ≠ some bytes := by
  intro kept
  -- Were the file kept, the text compiled would be the text that it is compiled to.
  obtain ⟨_, _, holds, _⟩ := writeText_written done
  have same : some compilation.llvm = some source := by
    rw [← holds, readText_congr meets, readText_of_read kept, ← readText_of_read held, loaded]
  exact llvm_ne_source compiled (Option.some.inj same)

/-- Only an input with the extension of compiled files can be written over. -/
theorem Overwrites.extension (lost : Overwrites tree' input directory result)
    (named : (Path.fileName? input).isSome = true) (located : tree'.locate input = some place) :
    Path.extension? input = some Path.outputExtension := by
  obtain ⟨name, named⟩ := Option.isSome_iff_exists.mp named
  have front := locate_eq_append (Path.components_of_fileName named) located
  have front' := locate_eq_append (Path.components_output named directory) (lost.meets.trans located)
  have same : name = Path.outputName name := by
    have ends := congrArg List.getLast? (front.symm.trans front')
    simpa using ends
  have present := (Path.isFileName_of_fileName named).present
  rw [Path.extension?, named, Option.bind_some, same, Path.splitName_outputName name present, Option.map_some,
    String.ofList_toList]

/-- A compilation that does not come to write over its input keeps it. -/
theorem compileFile_keeps (held : tree.read input = some bytes)
    (ended : (host.compileFile input directory).run.run tree = (result, tree'))
    (apart : ¬Overwrites tree' input directory result) : tree'.read input = some bytes := by
  rcases compileFile_cases ended with ⟨_, same⟩ | ⟨_, _, _, _, same, outcome⟩
  · rwa [same]
  · rw [same] at apart ⊢
    exact read_writeText held fun meets => apart ⟨outcome.imp_left And.left, meets.symm⟩

/-- A compilation of a file keeps the file if it has a name without the extension of compiled files; and in
any case unless it comes to write over it. Where it does and succeeds, the file is lost. -/
theorem compileFile_preserves (held : tree.read input = some bytes)
    (ended : (host.compileFile input directory).run.run tree = (result, tree')) :
    ((Path.fileName? input).isSome = true → Path.extension? input ≠ some Path.outputExtension →
      tree'.read input = some bytes) ∧
    (¬Overwrites tree' input directory result → tree'.read input = some bytes) ∧
    ∀ output, result = .ok output → tree'.locate output = tree'.locate input →
      tree'.read input ≠ some bytes := by
  refine ⟨fun named other => ?_, compileFile_keeps held ended, fun output succeeded meets => ?_⟩
  · refine compileFile_keeps held ended fun lost => ?_
    obtain ⟨place, located, _⟩ := read_eq_some.mp held
    exact other (lost.extension named (locate_compileFile ended located))
  · rcases compileFile_cases ended with ⟨⟨_, failed⟩, _⟩ | ⟨_, _, loaded, compiled, same, ⟨written, done⟩ | failed⟩
    · cases succeeded.symm.trans failed
    · obtain rfl := Except.ok.inj (succeeded.symm.trans written)
      rw [same] at meets ⊢
      exact read_overwritten held loaded compiled done meets
    · cases succeeded.symm.trans failed

/-- A source file is still there when it has been compiled. -/
theorem compileFile_preserves_source :
    (single "a.oli" "fn main() \x7b return 0; \x7d").read "a.oli" =
      some "fn main() \x7b return 0; \x7d".toUTF8.toList ∧
    ((host.compileFile "a.oli" none).run.run (single "a.oli" "fn main() \x7b return 0; \x7d")).2.read "a.oli" =
      some "fn main() \x7b return 0; \x7d".toUTF8.toList := by
  have held : (single "a.oli" "fn main() \x7b return 0; \x7d").read "a.oli" =
      some "fn main() \x7b return 0; \x7d".toUTF8.toList := by decide +kernel
  have named : (Path.fileName? "a.oli").isSome = true := by decide +kernel
  have other : Path.extension? "a.oli" ≠ some Path.outputExtension := by decide +kernel
  exact ⟨held, (compileFile_preserves held rfl).1 named other⟩

/-- A program with the extension of compiled files is lost too where the write breaks off. -/
example : ((host.compileFile "a.ll" none).run.run
    { single "a.ll" "fn main() \x7b return 0; \x7d" with faults := [some (.brokenOff [59])] }).2.read "a.ll" =
      some [59] := by
  decide +kernel

/-- A program with the extension of compiled files is lost when it is compiled. -/
theorem not_forall_compileFile_preserves : ¬∀ (tree tree' : FileTree) (input : String) (directory : Option String)
    (result : Except CompileError String) (bytes : List UInt8), tree.read input = some bytes →
    (host.compileFile input directory).run.run tree = (result, tree') → tree'.read input = some bytes := by
  intro all
  have held : (single "a.ll" "fn main() \x7b return 0; \x7d").read "a.ll" =
      some "fn main() \x7b return 0; \x7d".toUTF8.toList := by decide +kernel
  have kept := all _ _ "a.ll" none _ _ held rfl
  revert kept
  decide +kernel

end FileTree

end OliCompiler
