import OliCompiler.Proofs.Scope.Acceptance
import OliCompiler.Proofs.Spans.Rules
import OliCompiler.Proofs.Stages.Names

/-!
Where the lowering stops. Its faults are about names, calls and jumps of the program, and each stands
where such a node does.
-/

namespace OliCompiler

/-- The spans of what an event is about. -/
def Event.spans : Event → List Span
  | .declare name | .use name => [name.span]
  | .call callee _ span => [callee.span, span]
  | .break _ span | .continue _ span => [span]

section

variable {known : List String} {name : Ident} {fault : LowerError}

theorem functionFault?_span (found : functionFault? known name = some fault) :
    fault.span? = some name.span := by
  unfold functionFault? at found
  split_ifs at found <;> cases found <;> rfl

theorem globalFault?_span {functions : List String}
    (found : globalFault? functions known name = some fault) : fault.span? = some name.span := by
  unfold globalFault? at found
  split_ifs at found <;> cases found <;> rfl

theorem Event.fault?_span {symbols : Symbols} {event : Event}
    (found : event.fault? symbols known = some fault) : ∃ span ∈ event.spans, fault.span? = some span := by
  cases event with
  | declare name =>
    rw [Event.fault?] at found
    split_ifs at found <;> cases found <;> exact ⟨name.span, List.mem_cons_self, rfl⟩
  | use name =>
    rw [Event.fault?] at found
    split_ifs at found
    cases found
    exact ⟨name.span, List.mem_cons_self, rfl⟩
  | call callee count span =>
    have whole : span ∈ Event.spans (.call callee count span) := by simp [Event.spans]
    rw [Event.fault?] at found
    split_ifs at found
    · cases found
      exact ⟨span, whole, rfl⟩
    · split at found
      · cases found
        exact ⟨callee.span, List.mem_cons_self, rfl⟩
      · split_ifs at found
        cases found
        exact ⟨span, whole, rfl⟩
  | «break» inLoop span | «continue» inLoop span =>
    rw [Event.fault?] at found
    split_ifs at found
    cases found
    exact ⟨span, List.mem_cons_self, rfl⟩

end

/-- Whether what some events are about stands where some nodes do. -/
def Shows (nodes : List Node) (events : List Event) : Prop :=
  ∀ event ∈ events, ∀ span ∈ event.spans, ∃ node ∈ nodes, node.span = span

namespace Shows

variable {nodes nodes' : List Node} {events events' : List Event}

theorem mono (shows' : Shows nodes events) (among : nodes ⊆ nodes') : Shows nodes' events := by
  intro event member span listed
  obtain ⟨node, present, same⟩ := shows' event member span listed
  exact ⟨node, among present, same⟩

theorem nil : Shows nodes [] := List.forall_mem_nil _

theorem append (one : Shows nodes events) (other : Shows nodes events') : Shows nodes (events ++ events') :=
  List.forall_mem_append.mpr ⟨one, other⟩

/-- Events in parts are shown by nodes in parts. -/
theorem join (one : Shows nodes events) (other : Shows nodes' events') :
    Shows (nodes ++ nodes') (events ++ events') :=
  (one.mono (List.subset_append_left _ _)).append (other.mono (List.subset_append_right _ _))

end Shows

mutual

theorem Expr.shows : ∀ expr : Expr, Shows expr.nodes expr.events
  | .int _ _ => .nil
  | .var name => by
    refine List.forall_mem_singleton.mpr (List.forall_mem_singleton.mpr ?_)
    exact ⟨.expr (.var name), List.mem_cons_self, rfl⟩
  | .call callee args span => by
    refine List.forall_mem_cons.mpr ⟨?_, (Expr.showsOfAll args).mono ?_⟩
    · refine List.forall_mem_cons.mpr ⟨⟨.name callee, by simp [Expr.nodes], rfl⟩, ?_⟩
      exact List.forall_mem_singleton.mpr ⟨.expr (.call callee args span), List.mem_cons_self, rfl⟩
    · exact List.subset_cons_of_subset _ (List.subset_cons_self _ _)
  | .binary _ left right => (left.shows.join right.shows).mono (List.subset_cons_self _ _)

theorem Expr.showsOfAll : ∀ args : List Expr, Shows (Expr.nodesOfAll args) (Expr.eventsOfAll args)
  | [] => .nil
  | arg :: args => arg.shows.join (Expr.showsOfAll args)

end

theorem Binding.declaration_shows (binding : Binding) : Shows binding.nodes binding.declaration := by
  refine (binding.value.shows.mono (List.subset_cons_self _ _)).append ?_
  refine List.forall_mem_singleton.mpr (List.forall_mem_singleton.mpr ?_)
  exact ⟨.name binding.name, List.mem_cons_self, rfl⟩

theorem Binding.assignment_shows (binding : Binding) : Shows binding.nodes binding.assignment := by
  refine List.forall_mem_cons.mpr ⟨?_, binding.value.shows.mono (List.subset_cons_self _ _)⟩
  exact List.forall_mem_singleton.mpr ⟨.name binding.name, List.mem_cons_self, rfl⟩

mutual

theorem Stmt.shows : ∀ (stmt : Stmt) (inLoop : Bool), Shows stmt.nodes (stmt.events inLoop)
  | .declare binding, _ => binding.declaration_shows
  | .assign binding, _ => binding.assignment_shows
  | .return value, _ => value.shows
  | .expr value, _ => value.shows
  | .if condition body tail, inLoop =>
    condition.shows.join ((Stmt.showsOfAll body inLoop).join (tail.shows inLoop))
  | .while condition body, _ => condition.shows.join (Stmt.showsOfAll body true)
  | .for init condition update body, _ => by
    have parts := (Stmt.showsOfAll body true).join update.assignment_shows
    refine init.declaration_shows.join (condition.shows.join (parts.mono ?_))
    -- The update stands before the body and is lowered behind it.
    exact List.append_subset.mpr ⟨List.subset_append_right _ _, List.subset_append_left _ _⟩
  | .break span, _ =>
    List.forall_mem_singleton.mpr (List.forall_mem_singleton.mpr ⟨.jump span, List.mem_cons_self, rfl⟩)
  | .continue span, _ =>
    List.forall_mem_singleton.mpr (List.forall_mem_singleton.mpr ⟨.jump span, List.mem_cons_self, rfl⟩)

theorem Tail.shows : ∀ (tail : Tail) (inLoop : Bool), Shows tail.nodes (tail.events inLoop)
  | .none, _ => .nil
  | .elseIf condition body tail, inLoop =>
    condition.shows.join ((Stmt.showsOfAll body inLoop).join (tail.shows inLoop))
  | .else body, inLoop => Stmt.showsOfAll body inLoop

theorem Stmt.showsOfAll : ∀ (stmts : List Stmt) (inLoop : Bool),
    Shows (Stmt.nodesOfAll stmts) (Stmt.eventsOfAll inLoop stmts)
  | [], _ => .nil
  | stmt :: stmts, inLoop => (stmt.shows inLoop).join (Stmt.showsOfAll stmts inLoop)

end

theorem Function.shows_body (function : Function) :
    Shows function.nodes (Stmt.eventsOfAll false function.body) := by
  refine (Stmt.showsOfAll function.body false).mono ?_
  exact List.subset_cons_of_subset _ (List.subset_cons_of_subset _ (List.subset_append_right _ _))

theorem Function.shows (function : Function) : Shows function.nodes function.events := by
  refine Shows.append (List.forall_mem_map.mpr fun param listed => ?_) function.shows_body
  refine List.forall_mem_singleton.mpr ⟨.name param, ?_, rfl⟩
  refine List.mem_cons_of_mem _ (List.mem_cons_of_mem _ (List.mem_append_left _ ?_))
  exact List.mem_map_of_mem listed

namespace Program

variable {program : Program}

theorem function_nodes {function : Function} (listed : function ∈ program.functions ++ program.main.toList) :
    function.nodes ⊆ program.nodes := by
  intro node member
  exact List.mem_append_left _ (List.mem_flatMap.mpr ⟨function, listed, member⟩)

theorem global_nodes {binding : Binding} (listed : binding ∈ program.globals) :
    binding.nodes ⊆ program.nodes := by
  intro node member
  exact List.mem_append_right _ (List.mem_flatMap.mpr ⟨binding, listed, member⟩)

theorem bodies_shown : ∀ events ∈ program.bodies, Shows program.nodes events := by
  refine List.forall_mem_append.mpr ⟨?_, List.forall_mem_append.mpr ⟨?_, ?_⟩⟩
  · refine List.forall_mem_map.mpr fun binding listed => ?_
    exact (binding.value.shows.mono (List.subset_cons_self _ _)).mono (global_nodes listed)
  · refine List.forall_mem_map.mpr fun main found => ?_
    exact main.shows_body.mono (function_nodes (List.mem_append_right _ found))
  · refine List.forall_mem_map.mpr fun function listed => ?_
    exact function.shows.mono (function_nodes (List.mem_append_left _ listed))

theorem nameFaults_shown : ∀ fault ∈ program.nameFaults, ∃ node ∈ program.nodes,
    fault.span? = some node.span := by
  refine List.forall_mem_append.mpr ⟨fun fault member => ?_, fun fault member => ?_⟩
  · obtain ⟨known, name, listed, found⟩ := mem_faultsAlong member
    obtain ⟨function, present, rfl⟩ := List.mem_map.mp listed
    refine ⟨.name function.name, ?_, functionFault?_span found⟩
    exact function_nodes (List.mem_append_left _ present) (by simp [Function.nodes])
  · obtain ⟨known, name, listed, found⟩ := mem_faultsAlong member
    obtain ⟨binding, present, rfl⟩ := List.mem_map.mp listed
    exact ⟨.name binding.name, global_nodes present List.mem_cons_self, globalFault?_span found⟩

theorem faults_shown : ∀ fault ∈ program.faults, ∀ span ∈ fault.span?, ∃ node ∈ program.nodes,
    node.span = span := by
  refine List.forall_mem_append.mpr ⟨?_, List.forall_mem_append.mpr ⟨?_, ?_⟩⟩
  · split
    · exact List.forall_mem_nil _
    · exact List.forall_mem_singleton.mpr fun span none => by cases none
  · intro fault member span placed
    obtain ⟨node, present, same⟩ := nameFaults_shown fault member
    exact ⟨node, present, Option.some.inj (same.symm.trans placed)⟩
  · intro fault member span placed
    obtain ⟨events, body, inside⟩ := List.mem_flatMap.mp member
    obtain ⟨known, event, listed, found⟩ := mem_faultsAlong inside
    obtain ⟨span', about, same⟩ := Event.fault?_span found
    obtain rfl := Option.some.inj (same.symm.trans placed)
    exact bodies_shown events body event listed span' about

end Program

/-- The fault of a lowering stands where a node of the program does, if it stands anywhere. -/
theorem lower_error_shown {program : Program} {fault : LowerError}
    (failed : lower program = .error fault) :
    ∀ span ∈ fault.span?, ∃ node ∈ program.nodes, node.span = span := by
  have first : program.faults.head? = some fault := by
    rw [← faultOf_resolve, ← faultOf_lower, faultOf_eq_some, failed]
  exact Program.faults_shown fault (List.mem_of_head? first)

end OliCompiler
