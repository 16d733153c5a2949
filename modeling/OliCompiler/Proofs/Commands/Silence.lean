import OliCompiler.Proofs.Commands

/-!
Silent builds. A silent build ends and leaves files as one that tells what it does, and it never
complains; but the listings that were asked for are printed all the same.
-/

namespace OliCompiler.Command

variable {α β : Type} {tree : FileTree} {input text : String} {directory : Option String} {options : BuildOptions}
  {args args' : List String} {tell : Bool} {rest : Session (StateM FileTree) α}

/-! ## What a session prints -/

/-- Whether a session on given files prints a text, behind what was printed before it. -/
def Prints (tree : FileTree) (session : Session (StateM FileTree) α) (text : String) : Prop :=
  ∀ output, ((session.run.run output).run tree).1.2 = output ++ text

theorem prints_nothing (value : α) : Prints tree (pure value) "" := fun _ => String.append_empty.symm

/-- A line printed first. -/
theorem Prints.saying {line : String} (prints : Prints tree rest text) :
    Prints tree (say line >>= fun _ => rest) (line ++ "\n" ++ text) := by
  intro output
  have said : (((say line >>= fun _ => rest).run.run output).run tree) =
      (rest.run.run (output ++ line ++ "\n")).run tree := rfl
  rw [said, prints, String.append_assoc, String.append_assoc, String.append_assoc]

/-- Lines printed first, one for each item of a list. -/
theorem Prints.listing {items : List β} {line : β → String} (prints : Prints tree rest text) :
    Prints tree (items.forM (fun item => say (line item)) >>= fun _ => rest)
      (String.join (items.map fun item => line item ++ "\n") ++ text) := by
  induction items with
  | nil =>
    rw [List.map_nil, String.join_nil, String.empty_append]
    exact prints
  | cons item items ih =>
    have unrolled : (item :: items).forM (fun item => (say (line item) : Session (StateM FileTree) Unit)) =
        say (line item) >>= fun _ => items.forM fun item => say (line item) := rfl
    rw [unrolled, bind_assoc, List.map_cons, String.join_cons, String.append_assoc]
    exact ih.saying

/-- An action attempted first prints nothing; what is printed then is printed only if it succeeds. -/
theorem Prints.attempting {action : Action β} {next : β → Session (StateM FileTree) α}
    (failed : ∀ error, (action.run.run tree).1 = .error error → text = "")
    (succeeded : ∀ value, (action.run.run tree).1 = .ok value →
      Prints (action.run.run tree).2 (next value) text) : Prints tree (attempt tell action >>= next) text := by
  intro output
  rw [session_bind, attempt_run]
  rcases reached : action.run.run tree with ⟨error | value, tree'⟩
  · rw [failed error (by rw [reached]), String.append_empty]
    rfl
  · have prints := succeeded value (by rw [reached])
    rw [reached] at prints
    exact prints output

/-- What is printed first on a condition. -/
theorem Prints.either {yes : Session (StateM FileTree) α} {asked : Prop} [Decidable asked] {more : String}
    (prints : Prints tree rest text) (printing : Prints tree rest text → Prints tree yes (more ++ text)) :
    Prints tree (if asked then yes else rest) ((if asked then more else "") ++ text) := by
  split
  · exact printing prints
  · rwa [String.empty_append]

/-! ## Listings -/

def tokensText (source : String) : String :=
  "\n=== Tokens ===" ++ "\n" ++ String.join ((scan source).tokens.map fun token => token.shortLine ++ "\n")

def treeText (compilation : Compilation) : String :=
  "\n=== AST ===" ++ "\n" ++ (compilation.program.outline.layout 0 ++ "\n")

def codeText (compilation : Compilation) : String :=
  "\n=== Oli IR ===" ++ "\n" ++ (compilation.module.listing ++ "\n")

/-- The listings of a compilation that the options of a build ask for. -/
def listingsOf (options : BuildOptions) (compilation : Compilation) : String :=
  (if options.emitTree then treeText compilation else "") ++
    (if options.emitCode then codeText compilation else "")

/-- The listings that a build comes to print. -/
def listings (tree : FileTree) (input : String) (options : BuildOptions) : String :=
  match sourceOf tree input with
  | .error _ => ""
  | .ok source =>
    (if options.emitTokens then tokensText source else "") ++
      match compile source with
      | .error _ => ""
      | .ok compilation => listingsOf options compilation

/-- A silent build prints the listings that it comes to, and nothing else. -/
theorem silent_prints (silent : options.silent = true) :
    Prints tree (buildFile FileTree.host input directory options) (listings tree input options) := by
  have progress : options.reportsProgress = false := by simp [BuildOptions.reportsProgress, silent]
  unfold buildFile listings
  simp only [progress, Bool.false_eq_true, if_false]
  refine Prints.attempting (fun error failed => ?_) fun source loaded => ?_
  · rw [load_run] at failed
    dsimp only at failed
    rw [failed]
  · rw [load_run] at loaded ⊢
    dsimp only at loaded ⊢
    rw [loaded]
    dsimp only
    refine Prints.either ?_ fun rest => ?_
    · refine Prints.attempting (fun error failed => ?_) fun compilation compiled => ?_
      · have failed : compile source = .error error := failed
        rw [failed]
      · have compiled : compile source = .ok compilation := compiled
        change Prints tree _ _
        rw [compiled]
        dsimp only
        refine Prints.either ?_ fun rest => ?_
        · have written : Prints tree (attempt options.reportsErrors
              (FileTree.host.writeOutput (Path.output input directory) compilation.llvm) >>=
                fun _ => pure ()) "" :=
            .attempting (fun _ _ => rfl) fun _ _ => prints_nothing ()
          split
          · simpa only [codeText, String.append_empty] using written.saying.saying
          · exact written
        · simpa only [treeText, String.append_assoc] using rest.saying.saying
    · simpa only [tokensText, String.append_assoc] using rest.listing.saying

/-! ## Silent builds -/

theorem headed_ne (line body : String) : line ++ "\n" ++ body ≠ "" := by
  intro empty
  have spelled := congrArg String.toList empty
  simp at spelled

/-- Whether a build comes to a listing that was asked for. -/
def Lists (tree : FileTree) (input : String) (options : BuildOptions) : Prop :=
  options.emitTokens = true ∧ (∃ source, Loads tree input source) ∨
    (options.emitTree = true ∨ options.emitCode = true) ∧ ∃ compilation, Compiles tree input compilation

theorem shown_eq_empty (asked : Bool) (text : String) (shown : text ≠ "") :
    (if asked = true then text else "") = "" ↔ ¬asked = true := by
  split <;> simp [*]

theorem listings_eq_empty : listings tree input options = "" ↔ ¬Lists tree input options := by
  unfold listings Lists
  simp only [← sourceOf_eq_ok, compiles_iff]
  rcases sourceOf tree input with error | source
  · have stopped : (Except.error error : Except CompileError String) >>= compile = .error error := rfl
    simp [stopped]
  · have entered : Except.ok source >>= compile = compile source := rfl
    have tokens := shown_eq_empty options.emitTokens (tokensText source) (headed_ne _ _)
    rw [entered]
    dsimp only
    rw [String.append_eq_empty_iff, tokens]
    rcases compile source with error | compilation
    · simp
    · have tree := shown_eq_empty options.emitTree (treeText compilation) (headed_ne _ _)
      have code := shown_eq_empty options.emitCode (codeText compilation) (headed_ne _ _)
      dsimp only
      rw [listingsOf, String.append_eq_empty_iff, tree, code]
      simp

theorem report_status_eq {result : Except CompileError Unit} {output : String} :
    (report (endingOf tell result, output)).status =
      match result with
      | .ok () => 0
      | .error _ => 1 := by
  rcases result with error | _ <;> cases tell <;> rfl

theorem report_output (ended : Except Ending Unit × String) : (report ended).output = ended.2 := by
  rcases ended with ⟨⟨_ | _⟩ | _, _⟩ <;> rfl

theorem report_quiet {result : Except CompileError Unit} {output : String} :
    (report (endingOf false result, output)).complaint = none := by
  rcases result with error | _ <;> rfl

variable {reading : Reading}

theorem silent_output (asked : reading args = .ok (.build input directory options))
    (silent : options.silent = true) : (outcome reading tree args).1.output = listings tree input options := by
  rw [outcome_of_asked asked, report_output]
  exact (silent_prints silent "").trans String.empty_append

/-- By whatever reading of arguments, a silent build complains of nothing, and it ends and leaves the files as
the same build does that is not silent. It prints nothing exactly if it comes to no listing that was asked for. -/
theorem silent_build (tree : FileTree) (asked : reading args = .ok (.build input directory options))
    (silent : options.silent = true)
    (asked' : reading args' = .ok (.build input directory { options with silent := false })) :
    (outcome reading tree args).1.complaint = none ∧
      (outcome reading tree args).1.status = (outcome reading tree args').1.status ∧
      (outcome reading tree args).2 = (outcome reading tree args').2 ∧
      ((outcome reading tree args).1.output = "" ↔ ¬Lists tree input options) := by
  have follows := build_follows input directory options
  have hushed : options.reportsErrors = false := by simp [BuildOptions.reportsErrors, silent]
  rw [hushed] at follows
  obtain ⟨output, ends⟩ := follows.outcome_eq asked tree
  have follows' := build_follows input directory { options with silent := false }
  obtain ⟨output', ends'⟩ := follows'.outcome_eq asked' tree
  refine ⟨?_, ?_, ?_, ?_⟩
  · rw [ends, report_quiet]
  · rw [ends, ends', report_status_eq, report_status_eq]
  · rw [ends, ends']
  · rw [silent_output asked silent, listings_eq_empty]

/-- Where there is no file, a silent build that was asked for the tokens prints nothing. -/
theorem silent_build_missing :
    ofArgs ["build", "-s", "--emit-tokens", "a.oli"] =
      .ok (.build "a.oli" none ⟨true, false, false, false, true⟩) ∧
    ofArgs ["build", "--emit-tokens", "a.oli"] =
      .ok (.build "a.oli" none ⟨true, false, false, false, false⟩) ∧
    (outcome ofArgs ⟨[], [], []⟩ ["build", "-s", "--emit-tokens", "a.oli"]).1.complaint = none ∧
    (outcome ofArgs ⟨[], [], []⟩ ["build", "-s", "--emit-tokens", "a.oli"]).1.status =
      (outcome ofArgs ⟨[], [], []⟩ ["build", "--emit-tokens", "a.oli"]).1.status ∧
    (outcome ofArgs ⟨[], [], []⟩ ["build", "-s", "--emit-tokens", "a.oli"]).1.output = "" := by
  have asked : ofArgs ["build", "-s", "--emit-tokens", "a.oli"] =
      .ok (.build "a.oli" none ⟨true, false, false, false, true⟩) := by decide
  have asked' : ofArgs ["build", "--emit-tokens", "a.oli"] =
      .ok (.build "a.oli" none ⟨true, false, false, false, false⟩) := by decide
  have missing : FileTree.readText ⟨[], [], []⟩ "a.oli" = none := by decide
  have unlisted : ¬Lists ⟨[], [], []⟩ "a.oli" ⟨true, false, false, false, true⟩ := by
    simp [Lists, Compiles, Loads, missing]
  obtain ⟨hushed, status, _, printed⟩ := silent_build ⟨[], [], []⟩ asked rfl asked'
  exact ⟨asked, asked', hushed, status, printed.mpr unlisted⟩

/-- A silent build that is asked for the tokens prints them. -/
theorem not_forall_silent_build : ¬∀ (tree : FileTree) (args : List String) (input : String)
    (directory : Option String) (options : BuildOptions), ofArgs args = .ok (.build input directory options) →
    options.silent = true →
    (outcome ofArgs tree args).1.output = "" ∧ (outcome ofArgs tree args).1.complaint = none := by
  intro all
  have asked : ofArgs ["build", "--silent", "--emit-tokens", "a.oli"] =
      .ok (.build "a.oli" none ⟨true, false, false, false, true⟩) := by decide
  have loads : Loads (.single "a.oli" "fn main() \x7b return 0; \x7d") "a.oli" "fn main() \x7b return 0; \x7d" :=
    ⟨by decide +kernel, by decide +kernel⟩
  have prints := (all (.single "a.oli" "fn main() \x7b return 0; \x7d") _ _ _ _ asked rfl).1
  rw [silent_output asked rfl, listings_eq_empty] at prints
  exact prints (.inl ⟨rfl, _, loads⟩)

end OliCompiler.Command
