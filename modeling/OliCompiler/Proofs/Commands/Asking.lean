import Mathlib.Data.List.TakeDrop
import OliCompiler.Command.Arguments

/-!
Arguments for every command. Each command on a path, but the empty one, is what some arguments ask for:
its flags in full, its directory, and the path behind two dashes.
-/

namespace OliCompiler

/-- Whether a flag is set. -/
def BuildOptions.has (options : BuildOptions) : Command.Flag → Bool
  | .emitTokens => options.emitTokens
  | .emitTree => options.emitTree
  | .emitCode => options.emitCode
  | .quiet => options.quiet
  | .silent => options.silent

/-- The name of the command. -/
def Inspection.word : Inspection → String
  | check => "check"
  | tokenize => "tokenize"
  | parse => "parse"
  | run => "run"

namespace Command

variable {given : Given} {flags : List Flag} {rest : List String} {directory input : String}

/-- Arguments that ask for a command. -/
def asking : Command → List String
  | .build input directory options =>
    "build" :: ((Flag.all.filter options.has).map (fun flag => "--" ++ flag.long) ++
      (directory.toList.map (fun directory => "--out-dir=" ++ directory) ++ ["--", input]))
  | .inspect inspection input => [inspection.word, "--", input]

theorem formOf_flag (flag : Flag) : formOf ("--" ++ flag.long) = .long flag.long none := by
  cases flag <;> decide

theorem formOf_directory (directory : String) :
    formOf ("--out-dir=" ++ directory) = .long "out-dir" (some directory) := by
  have spelled : ("--out-dir=" ++ directory).toList =
      '-' :: '-' :: 'o' :: 'u' :: 't' :: '-' :: 'd' :: 'i' :: 'r' :: '=' :: directory.toList := by
    rw [String.toList_append]
    rfl
  rw [formOf, spelled]
  simp [List.span_eq_takeWhile_dropWhile]

theorem readLong_flag (given : Given) (flag : Flag) :
    readLong true given flag.long none = (do return (← given.addFlag flag, false)) := by
  cases flag <;> rfl

/-- Flags are read one after the other, each of them once. -/
theorem readArgs_flags (distinct : flags.Nodup) (new : ∀ flag ∈ flags, flag ∉ given.flags) :
    readArgs true given (flags.map (fun flag => "--" ++ flag.long) ++ rest) =
      readArgs true { given with flags := flags.reverse ++ given.flags } rest := by
  induction flags generalizing given with
  | nil => rfl
  | cons flag flags ih =>
    obtain ⟨apart, distinct⟩ := List.nodup_cons.mp distinct
    have added : given.addFlag flag = .ok { given with flags := flag :: given.flags } := by
      simp [Given.addFlag, new flag List.mem_cons_self]
    have others := @ih { given with flags := flag :: given.flags } distinct fun other among => by
      simp only [List.mem_cons, not_or]
      exact ⟨fun same => apart (same ▸ among), new other (List.mem_cons_of_mem _ among)⟩
    rw [List.map_cons, List.cons_append, readArgs, formOf_flag]
    dsimp only
    rw [readLong_flag, added]
    refine others.trans ?_
    simp

theorem readArgs_directory (free : given.directory = none) (named : directory ≠ "") :
    readArgs true given (("--out-dir=" ++ directory) :: rest) =
      readArgs true { given with directory := some directory } rest := by
  have added : given.addDirectory directory = .ok { given with directory := some directory } := by
    simp [Given.addDirectory, free, named]
  have read : readLong true given "out-dir" (some directory) =
      (do return (← given.addDirectory directory, false)) := rfl
  rw [added] at read
  rw [readArgs, formOf_directory]
  dsimp only
  rw [read]
  rfl

theorem readArgs_input {build : Bool} (free : given.input = none) (named : input ≠ "") :
    readArgs build given ["--", input] = .ok { given with input := some input } := by
  have escape : formOf "--" = .escape := by decide
  have added : given.addInput input = .ok { given with input := some input } := by
    simp [Given.addInput, free, named]
  rw [readArgs, escape]
  simp [added]

theorem mem_all (flag : Flag) : flag ∈ Flag.all := by
  cases flag <;> decide

theorem ofArgs_inspection (inspection : Inspection) (named : input ≠ "") :
    ofArgs (asking (.inspect inspection input)) = .ok (.inspect inspection input) := by
  have asked : ofArgs (asking (.inspect inspection input)) = ofName inspection.word ["--", input] := by
    cases inspection <;> rfl
  have read : readArgs (decide (inspection.word = "build")) ⟨none, none, []⟩ ["--", input] =
      .ok ⟨some input, none, []⟩ := readArgs_input rfl named
  rw [asked, ofName, read]
  cases inspection <;> rfl

/-- Flags are set exactly if they are among those read. -/
theorem contains_flags (options : BuildOptions) (flag : Flag) :
    ((Flag.all.filter options.has).reverse ++ []).contains flag = options.has flag := by
  rw [Bool.eq_iff_iff]
  simp [mem_all flag]

theorem readArgs_build (directory : Option String) (options : BuildOptions) (named : input ≠ "")
    (held : directory ≠ some "") :
    readArgs true ⟨none, none, []⟩ ((Flag.all.filter options.has).map (fun flag => "--" ++ flag.long) ++
      (directory.toList.map (fun directory => "--out-dir=" ++ directory) ++ ["--", input])) =
      .ok ⟨some input, directory, (Flag.all.filter options.has).reverse ++ []⟩ := by
  have distinct : Flag.all.Nodup := by decide
  rw [readArgs_flags (distinct.filter _) fun _ _ => List.not_mem_nil]
  cases directory with
  | none => exact readArgs_input rfl named
  | some directory =>
    refine (readArgs_directory rfl fun empty => held (empty ▸ rfl)).trans ?_
    exact readArgs_input rfl named

theorem ofArgs_build (directory : Option String) (options : BuildOptions) (named : input ≠ "")
    (held : directory ≠ some "") :
    ofArgs (asking (.build input directory options)) = .ok (.build input directory options) := by
  have asked : ofArgs (asking (.build input directory options)) = ofName "build" _ := rfl
  rw [asked, ofName]
  change (readArgs true _ _ >>= _) = _
  rw [readArgs_build directory options named held]
  change Except.ok (build input directory ⟨_, _, _, _, _⟩) = _
  simp only [contains_flags]
  rfl

end Command

end OliCompiler
