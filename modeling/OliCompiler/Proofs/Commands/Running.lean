import OliCompiler.Proofs.Commands
import OliCompiler.Proofs.Output.Formats
import OliCompiler.Proofs.Safety

/-!
Running a file. The command prints what the run gives with its value. A run that a fault ends gives no
text, so what it printed before is lost.
-/

namespace OliCompiler.Command

open Machine (printingsOf)

variable {reading : Reading} {tree : FileTree} {input : String} {args : List String} {compilation : Compilation}

/-- What a run of a file that compiles reports. -/
theorem run_outcome (asked : reading args = .ok (.inspect .run input)) (compiles : Compiles tree input compilation) :
    outcome reading tree args = (match Machine.run compilation.module {} with
      | .ok execution => ⟨statusOf execution.exitCode, execution.output, none⟩
      | .error fault => ⟨1, "", some (.run fault)⟩, tree) := by
  obtain ⟨source, loads, compiled⟩ := compiles
  have settles : ((settled (compile source) : Action Compilation).run.run tree) = (.ok compilation, tree) := by
    rw [compiled]
    rfl
  rw [outcome_of_asked asked, session, runFile, session_bind, attempt_run, load_run, sourceOf_eq_ok.mpr loads]
  dsimp only [endingOf]
  rw [session_bind, attempt_run, settles]
  dsimp only [endingOf]
  cases Machine.run compilation.module {} with
  | ok execution =>
    exact congrArg (fun output => ((⟨statusOf execution.exitCode, output, none⟩ : Report), tree))
      String.empty_append
  | error fault => rfl

/-- A run that gives a value reports all that was printed, and one that a fault ends reports the fault and
nothing of it. So all is told exactly if there was a value or nothing was printed. -/
theorem run_prints (asked : reading args = .ok (.inspect .run input)) (compiles : Compiles tree input compilation) :
    (∀ execution, Machine.run compilation.module {} = .ok execution →
      (outcome reading tree args).1 =
        ⟨statusOf execution.exitCode, String.join (printingsOf compilation.module {}), none⟩) ∧
    (∀ fault, Machine.run compilation.module {} = .error fault →
      (outcome reading tree args).1 = ⟨1, "", some (.run fault)⟩) ∧
    ((outcome reading tree args).1.output = String.join (printingsOf compilation.module {}) ↔
      (∃ execution, Machine.run compilation.module {} = .ok execution) ∨
        String.join (printingsOf compilation.module {}) = "") := by
  rw [run_outcome asked compiles]
  cases ran : Machine.run compilation.module {} with
  | ok execution =>
    have output := Machine.run_output ran
    refine ⟨?_, nofun, iff_of_true output (.inl ⟨execution, rfl⟩)⟩
    rintro _ ⟨⟩
    rw [← output]
  | error fault =>
    refine ⟨nofun, ?_, ?_⟩
    · rintro _ ⟨⟩
      rfl
    · constructor
      · exact fun same => .inr same.symm
      · rintro (⟨_, ⟨⟩⟩ | silent)
        exact silent.symm

section

open Machine Ir

/-- A text that prints seven and then divides by zero. -/
def sevenSource : String := "fn main() \x7b print(7); return 1 / 0; \x7d"

/-- A directory with the text as its one file. -/
def sevenFile : FileTree where
  entries := [([['a', '.', 'o', 'l', 'i']], .file (sevenSource.toList.flatMap String.utf8EncodeChar))]
  current := []

private def sevenDivision : Instr := ⟨some ⟨1⟩, .arith .sdiv (.int 1) (.int 0)⟩

private def sevenBlock : Block where
  id := ⟨0⟩
  hint := some "entry"
  instrs := [⟨some ⟨0⟩, .call printerName [.global formatName, .int 7]⟩, sevenDivision]
  terminator := some (.ret (.reg ⟨1⟩))

private def sevenMain : Ir.Function := ⟨entryName, [], .i32, [sevenBlock], false, false⟩

/-- What the file is compiled to. -/
def seven : Module where
  name := entryName
  globals := [⟨formatName, .array .i8 4, .text printFormat, true⟩]
  functions := [Lower.printer, sevenMain]

private def sevenStart : Config :=
  ⟨⟨.ofFunction sevenMain, sevenBlock, sevenBlock.instrs, ∅, 0, 0⟩, [], .initial seven⟩

private def sevenPrinted : Config :=
  ⟨(sevenStart.frame.goOn [sevenDivision]).assign (some ⟨0⟩) (.int 2), [], sevenStart.store.print "7\n"⟩

variable {depth : Nat}

theorem printer_of_seven : (Image.ofModule seven).routine? printerName = some (.ofFunction Lower.printer) := by
  rw [Image.routine?_ofModule]
  rfl

theorem printed_seven : printed (Image.ofModule seven).module [.ptr (.global formatName), .int 7] =
    .ok "7\n" := by
  decide +kernel

theorem sevenStart_step : sevenStart.step (.ofModule seven) depth = .ok (.running sevenPrinted) := by
  have step := @step_call (.ofModule seven) depth sevenStart _ _ _ _ _ rfl rfl
  rw [enter_printer printer_of_seven rfl, printed_seven] at step
  exact step

theorem sevenPrinted_step :
    sevenPrinted.step (.ofModule seven) depth = .error (.divisionByZero entryName) :=
  @step_arith _ _ sevenPrinted [] _ .sdiv (.int 1) (.int 0) 1 0 rfl rfl rfl

theorem enter_seven : enter (.ofModule seven) (depth + 1) (.initial seven) 0 entryName [] =
    .ok (.opened sevenStart.frame, sevenStart.store) := by
  have found : (Image.ofModule seven).routine? entryName = some (.ofFunction sevenMain) := by
    rw [Image.routine?_ofModule]
    rfl
  rw [enter, found]
  rfl

theorem run_seven (steps : Nat) :
    run seven ⟨steps + 2, depth + 1⟩ = .error (.divisionByZero entryName) := by
  have runs : runFrom (.ofModule seven) ⟨steps + 2, depth + 1⟩ (steps + 2) sevenStart =
      .error (.divisionByZero entryName) := by
    rw [runFrom, sevenStart_step]
    dsimp only [bind, Except.bind]
    rw [runFrom, sevenPrinted_step]
    rfl
  rw [run, enter_seven]
  exact runs

theorem printingsOf_seven (steps : Nat) : printingsOf seven ⟨steps + 2, depth + 1⟩ = ["7\n"] := by
  have first : sevenStart.text? (.ofModule seven) = some "7\n" := by
    have calls := @text?_call (.ofModule seven) sevenStart _ _ _ _ _ rfl rfl
    rw [callText, printer_of_seven, if_pos ⟨rfl, rfl⟩, printed_seven] at calls
    exact calls
  have prints : printings (.ofModule seven) (depth + 1) (steps + 2) sevenStart = ["7\n"] := by
    rw [printings, sevenStart_step, first]
    dsimp only
    rw [printings, @sevenPrinted_step (depth + 1), text?_of_error (@sevenPrinted_step (depth + 1))]
    rfl
  rw [printingsOf, enter_seven]
  exact prints

/-- Two steps are within the limits of the command. -/
theorem printingsOf_default : printingsOf seven {} = ["7\n"] := printingsOf_seven 9999998

theorem run_default : run seven {} = .error (.divisionByZero entryName) := run_seven 9999998

theorem sevenFile_compiles :
    ∃ compilation, Compiles sevenFile "a.oli" compilation ∧ compilation.module = seven := by
  have loads : Loads sevenFile "a.oli" sevenSource := ⟨by decide +kernel, by decide +kernel⟩
  have compiled : (compile sevenSource).toOption.map (·.module) = some seven := by decide +kernel
  cases result : compile sevenSource with
  | error => simp [result, Except.toOption] at compiled
  | ok compilation =>
    rw [result] at compiled
    exact ⟨compilation, ⟨_, loads, result⟩, Option.some.inj compiled⟩

/-- A file that divides by zero behind a print runs without a text. -/
theorem run_prints_seven : ∃ compilation, Compiles sevenFile "a.oli" compilation ∧
    String.join (printingsOf compilation.module {}) = "7\n" ∧
    (outcome ofArgs sevenFile ["run", "a.oli"]).1 = ⟨1, "", some (.run (.divisionByZero entryName))⟩ := by
  obtain ⟨compilation, compiles, module⟩ := sevenFile_compiles
  refine ⟨compilation, compiles, ?_, ?_⟩
  · rw [module, printingsOf_default]
    rfl
  · refine (run_prints (by decide) compiles).2.1 _ ?_
    rw [module, run_default]

/-- What was printed before a fault is not reported. -/
theorem not_forall_run_prints : ¬∀ (tree : FileTree) (args : List String) (input : String)
    (compilation : Compilation) (fault : Fault), ofArgs args = .ok (.inspect .run input) →
    Compiles tree input compilation → run compilation.module {} = .error fault → Expected {} (.error fault) →
    printingsOf compilation.module {} ≠ [] →
    (outcome ofArgs tree args).1.output = String.join (printingsOf compilation.module {}) := by
  intro all
  obtain ⟨compilation, compiles, module⟩ := sevenFile_compiles
  have asked : ofArgs ["run", "a.oli"] = .ok (.inspect .run "a.oli") := by decide
  have failed : run compilation.module {} = .error (.divisionByZero entryName) := by
    rw [module, run_default]
  have prints : printingsOf compilation.module {} ≠ [] := by
    rw [module, printingsOf_default]
    exact List.cons_ne_nil _ _
  have same := all _ _ _ _ _ asked compiles failed trivial prints
  rw [run_outcome asked compiles, failed, module, printingsOf_default] at same
  exact absurd same (by decide)

end

end OliCompiler.Command
