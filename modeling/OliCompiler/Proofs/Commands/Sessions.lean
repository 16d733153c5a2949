import OliCompiler.Proofs.Commands.Actions

/-!
Sessions without what they print. A session follows an action on files if it ends as the action does and
leaves the same files, whatever else it prints; so all that matters of a command is the action that it
follows.
-/

namespace OliCompiler.Command

variable {α β : Type}

/-- How a session ends that tells the failure of its action or keeps it quiet. -/
def endingOf (tell : Bool) : Except CompileError α → Except Ending α
  | .ok value => .ok value
  | .error error => .error (if tell then .complain (.compile error) else .exit 1)

/-- Whether a session ends as an action does and leaves the same files. -/
def Follows (tell : Bool) (session : Session (StateM FileTree) α) (action : Action α) : Prop :=
  ∀ output tree, ∃ output', (session.run.run output).run tree =
    ((endingOf tell (action.run.run tree).1, output'), (action.run.run tree).2)

/-- Whether a session leaves all files as they are. -/
def Keeps (session : Session (StateM FileTree) α) : Prop :=
  ∀ output tree, ((session.run.run output).run tree).2 = tree

variable {tell : Bool} {leading rest : Session (StateM FileTree) α} {action : Action α}

/-! ## In a row -/

theorem session_bind (session : Session (StateM FileTree) α) (next : α → Session (StateM FileTree) β)
    (output : String) (tree : FileTree) : ((session >>= next).run.run output).run tree =
      match (session.run.run output).run tree with
      | ((.ok value, output'), tree') => ((next value).run.run output').run tree'
      | ((.error ending, output'), tree') => ((.error ending, output'), tree') := by
  rw [ExceptT.run_bind, StateT.run_bind, StateT.run_bind]
  rcases (session.run.run output).run tree with ⟨⟨_ | _, _⟩, _⟩ <;> rfl

theorem Follows.bind {next : α → Session (StateM FileTree) β} {next' : α → Action β}
    (first : Follows tell leading action) (others : ∀ value, Follows tell (next value) (next' value)) :
    Follows tell (leading >>= next) (action >>= next') := by
  intro output tree
  obtain ⟨output', ends⟩ := first output tree
  rw [session_bind, action_bind, ends]
  rcases action.run.run tree with ⟨error | value, tree'⟩
  · exact ⟨output', rfl⟩
  · exact others value output' tree'

theorem Keeps.bind {next : α → Session (StateM FileTree) β} (first : Keeps leading)
    (others : ∀ value, Keeps (next value)) : Keeps (leading >>= next) := by
  intro output tree
  have kept := first output tree
  rw [session_bind]
  rcases reached : (leading.run.run output).run tree with ⟨⟨ending | value, output'⟩, tree'⟩ <;>
    rw [reached] at kept
  · exact kept
  · exact (others value output' tree').trans kept

/-! ## What only prints -/

theorem say_follows (line : String) : Follows tell (say line) (pure ()) :=
  fun _ _ => ⟨_, rfl⟩

/-- A line printed first. -/
theorem Follows.saying {line : String} (follows : Follows tell rest action) :
    Follows tell (say line >>= fun _ => rest) action := by
  have both := (say_follows line).bind fun _ => follows
  rwa [pure_bind] at both

/-- Lines printed first, one for each item of a list. -/
theorem Follows.listing {items : List β} {line : β → String} (follows : Follows tell rest action) :
    Follows tell (items.forM (fun item => say (line item)) >>= fun _ => rest) action := by
  induction items with
  | nil => exact follows
  | cons item items ih =>
    have unrolled : (item :: items).forM (fun item => (say (line item) : Session (StateM FileTree) Unit)) =
        say (line item) >>= fun _ => items.forM fun item => say (line item) := rfl
    rw [unrolled, bind_assoc]
    exact ih.saying

/-- What is done first on a condition, if it prints and no more. -/
theorem Follows.either {yes : Session (StateM FileTree) α} {asked : Prop} [Decidable asked]
    (follows : Follows tell rest action) (printing : Follows tell rest action → Follows tell yes action) :
    Follows tell (if asked then yes else rest) action := by
  split
  · exact printing follows
  · exact follows

/-- What is done after an action, if it prints and no more. -/
theorem Follows.ended {leading : Session (StateM FileTree) Unit} {action : Action Unit}
    {next : Unit → Session (StateM FileTree) Unit} (first : Follows tell leading action)
    (printing : Follows tell (next ()) (pure ())) : Follows tell (leading >>= next) action := by
  have both : Follows tell (leading >>= next) (action >>= pure) := first.bind fun _ => printing
  rwa [bind_pure] at both

/-! ## What is attempted -/

theorem attempt_run (tell : Bool) (action : Action α) (output : String) (tree : FileTree) :
    ((attempt tell action).run.run output).run tree =
      ((endingOf tell (action.run.run tree).1, output), (action.run.run tree).2) := by
  have lifted : ((ExceptT.lift (StateT.lift action.run) : Session (StateM FileTree) _).run.run output).run
      tree = ((.ok (action.run.run tree).1, output), (action.run.run tree).2) := rfl
  rw [attempt, session_bind, lifted]
  rcases action.run.run tree with ⟨_ | _, _⟩ <;> cases tell <;> rfl

theorem attempt_follows (tell : Bool) (action : Action α) : Follows tell (attempt tell action) action :=
  fun output tree => ⟨output, attempt_run tell action output tree⟩

theorem attempt_keeps (kept : ∀ tree, (action.run.run tree).2 = tree) : Keeps (attempt tell action) :=
  fun output tree => (congrArg Prod.snd (attempt_run tell action output tree)).trans (kept tree)

/-! ## The commands -/

theorem build_follows (input : String) (directory : Option String) (options : BuildOptions) :
    Follows options.reportsErrors (session FileTree.host (.build input directory options))
      (building input directory) := by
  refine (attempt_follows _ _).bind fun source => ?_
  refine .either ?_ fun rest => rest.saying
  refine .either ?_ fun rest => rest.listing.saying
  refine (attempt_follows _ _).bind fun compilation => ?_
  refine .either ?_ fun rest => rest.saying.saying
  refine .either ?_ fun rest => rest.saying.saying
  refine (attempt_follows _ _).ended ?_
  refine .either (fun output tree => ⟨output, rfl⟩) fun _ => .saying fun output tree => ⟨_, rfl⟩

theorem check_follows (input : String) :
    Follows true (session FileTree.host (.inspect .check input)) (inspecting compile input) :=
  (attempt_follows _ _).bind fun _ => .saying <| (attempt_follows _ _).bind fun _ => say_follows _

theorem tokenize_follows (input : String) :
    Follows true (session FileTree.host (.inspect .tokenize input)) (inspecting tokenize input) :=
  (attempt_follows _ _).bind fun _ => .listing <| (attempt_follows _ _).bind fun _ output _ => ⟨output, rfl⟩

theorem parse_follows (input : String) :
    Follows true (session FileTree.host (.inspect .parse input)) (inspecting parseSource input) :=
  (attempt_follows _ _).bind fun _ => (attempt_follows _ _).bind fun _ => say_follows _

end OliCompiler.Command
