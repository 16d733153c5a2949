import OliCompiler.Proofs.Printing.Source
import OliCompiler.Proofs.Scope.Acceptance

/-!
What the lowering finds wrong in a program that can be written. Such a program declares no keyword and
leaves no loop from outside of it, so none of its faults is about these.
-/

namespace OliCompiler

/-- Whether a fault is about what the reading has checked before, or about a block that is left open. -/
def LowerError.isRechecked : LowerError → Bool
  | reservedName _ _ | breakOutsideLoop _ | continueOutsideLoop _ | unterminatedBlock _ _ => true
  | _ => false

/-- Whether an event declares no keyword and leaves no loop from outside. -/
def Event.Lawful : Event → Prop
  | .declare name => isReserved name.name = false
  | .break inLoop _ | .continue inLoop _ => inLoop = true
  | .use _ | .call _ _ _ => True

section

variable {known : List String} {name : Ident} {fault : LowerError}

theorem functionFault?_isRechecked (unreserved : isReserved name.name = false)
    (found : functionFault? known name = some fault) : fault.isRechecked = false := by
  unfold functionFault? at found
  rw [unreserved, if_neg Bool.false_ne_true] at found
  split_ifs at found
  · cases found
    rfl
  · cases found
    rfl

theorem globalFault?_isRechecked {functions : List String} (unreserved : isReserved name.name = false)
    (found : globalFault? functions known name = some fault) : fault.isRechecked = false := by
  unfold globalFault? at found
  rw [unreserved, if_neg Bool.false_ne_true] at found
  split_ifs at found
  · cases found
    rfl
  · cases found
    rfl

theorem Event.fault?_isRechecked {symbols : Symbols} {event : Event} (lawful : event.Lawful)
    (found : event.fault? symbols known = some fault) : fault.isRechecked = false := by
  cases event with
  | declare name =>
    have unreserved : isReserved name.name = false := lawful
    rw [Event.fault?, unreserved, if_neg Bool.false_ne_true] at found
    split_ifs at found
    cases found
    rfl
  | use name =>
    rw [Event.fault?] at found
    split_ifs at found
    cases found
    rfl
  | call callee count span =>
    rw [Event.fault?] at found
    split_ifs at found
    · cases found
      rfl
    · split at found
      · cases found
        rfl
      · split_ifs at found
        cases found
        rfl
  | «break» inLoop span | «continue» inLoop span =>
    obtain rfl : inLoop = true := lawful
    cases found

end

theorem mem_faultsAlong {α : Type} {declared : α → List String}
    {fault? : List String → α → Option LowerError} {known : List String} {items : List α}
    {fault : LowerError} (member : fault ∈ faultsAlong declared fault? known items) :
    ∃ known, ∃ item ∈ items, fault? known item = some fault := by
  induction items generalizing known with
  | nil => cases member
  | cons item items ih =>
    rcases List.mem_append.mp member with here | behind
    · exact ⟨known, item, List.mem_cons_self, Option.mem_toList.mp here⟩
    · obtain ⟨known, item, listed, found⟩ := ih behind
      exact ⟨known, item, List.mem_cons_of_mem _ listed, found⟩

mutual

theorem Expr.events_lawful : ∀ expr : Expr, ∀ event ∈ expr.events, event.Lawful
  | .int _ _ => List.forall_mem_nil _
  | .var _ => List.forall_mem_singleton.mpr trivial
  | .call _ args _ => List.forall_mem_cons.mpr ⟨trivial, Expr.eventsOfAll_lawful args⟩
  | .binary _ left right =>
    List.forall_mem_append.mpr ⟨Expr.events_lawful left, Expr.events_lawful right⟩

theorem Expr.eventsOfAll_lawful : ∀ args : List Expr, ∀ event ∈ Expr.eventsOfAll args, event.Lawful
  | [] => List.forall_mem_nil _
  | arg :: args => List.forall_mem_append.mpr ⟨Expr.events_lawful arg, Expr.eventsOfAll_lawful args⟩

end

theorem Binding.declaration_lawful {binding : Binding} (printable : binding.Printable) :
    ∀ event ∈ binding.declaration, event.Lawful :=
  List.forall_mem_append.mpr
    ⟨binding.value.events_lawful, List.forall_mem_singleton.mpr printable.1.2⟩

theorem Binding.assignment_lawful (binding : Binding) :
    ∀ event ∈ binding.assignment, event.Lawful :=
  List.forall_mem_cons.mpr ⟨trivial, binding.value.events_lawful⟩

mutual

theorem Stmt.events_lawful : ∀ {stmt : Stmt} {inLoop : Bool}, stmt.Printable inLoop →
    ∀ event ∈ stmt.events inLoop, event.Lawful
  | .declare _, _, printable => Binding.declaration_lawful printable
  | .assign binding, _, _ => binding.assignment_lawful
  | .return value, _, _ => value.events_lawful
  | .expr value, _, _ => value.events_lawful
  | .if condition _ _, _, ⟨_, body, tail⟩ =>
    List.forall_mem_append.mpr ⟨condition.events_lawful,
      List.forall_mem_append.mpr ⟨Stmt.eventsOfAll_lawful body, Tail.events_lawful tail⟩⟩
  | .while condition _, _, ⟨_, body⟩ =>
    List.forall_mem_append.mpr ⟨condition.events_lawful, Stmt.eventsOfAll_lawful body⟩
  | .for _ condition update _, _, ⟨init, _, _, body⟩ =>
    List.forall_mem_append.mpr ⟨Binding.declaration_lawful init,
      List.forall_mem_append.mpr ⟨condition.events_lawful,
        List.forall_mem_append.mpr ⟨Stmt.eventsOfAll_lawful body, update.assignment_lawful⟩⟩⟩
  | .break _, _, inside => List.forall_mem_singleton.mpr inside
  | .continue _, _, inside => List.forall_mem_singleton.mpr inside

theorem Tail.events_lawful : ∀ {tail : Tail} {inLoop : Bool}, tail.Printable inLoop →
    ∀ event ∈ tail.events inLoop, event.Lawful
  | .none, _, _ => List.forall_mem_nil _
  | .elseIf condition _ _, _, ⟨_, body, tail⟩ =>
    List.forall_mem_append.mpr ⟨condition.events_lawful,
      List.forall_mem_append.mpr ⟨Stmt.eventsOfAll_lawful body, Tail.events_lawful tail⟩⟩
  | .else _, _, body => Stmt.eventsOfAll_lawful body

theorem Stmt.eventsOfAll_lawful : ∀ {stmts : List Stmt} {inLoop : Bool},
    Stmt.AllPrintable inLoop stmts → ∀ event ∈ Stmt.eventsOfAll inLoop stmts, event.Lawful
  | [], _, _ => List.forall_mem_nil _
  | _ :: _, _, ⟨first, others⟩ =>
    List.forall_mem_append.mpr ⟨Stmt.events_lawful first, Stmt.eventsOfAll_lawful others⟩

end

theorem Function.events_lawful {function : Function} (printable : function.Printable) :
    ∀ event ∈ function.events, event.Lawful := by
  refine List.forall_mem_append.mpr ⟨?_, Stmt.eventsOfAll_lawful printable.body⟩
  intro event member
  obtain ⟨param, listed, rfl⟩ := List.mem_map.mp member
  exact (printable.params param listed).2

namespace Program

variable {program : Program} (printable : program.Printable)

include printable

theorem bodies_lawful : ∀ events ∈ program.bodies, ∀ event ∈ events, event.Lawful := by
  refine List.forall_mem_append.mpr ⟨?_, List.forall_mem_append.mpr ⟨?_, ?_⟩⟩
  · intro events member
    obtain ⟨binding, _, rfl⟩ := List.mem_map.mp member
    exact binding.value.events_lawful
  · intro events member
    obtain ⟨main, found, rfl⟩ := List.mem_map.mp member
    exact Stmt.eventsOfAll_lawful (printable.main main (Option.mem_toList.mp found)).1.body
  · intro events member
    obtain ⟨function, listed, rfl⟩ := List.mem_map.mp member
    exact Function.events_lawful (printable.functions function listed).1

theorem nameFaults_isRechecked : ∀ fault ∈ program.nameFaults, fault.isRechecked = false := by
  refine List.forall_mem_append.mpr ⟨?_, ?_⟩
  · intro fault member
    obtain ⟨known, name, listed, found⟩ := mem_faultsAlong member
    obtain ⟨function, present, rfl⟩ := List.mem_map.mp listed
    exact functionFault?_isRechecked (printable.functions function present).1.name.2 found
  · intro fault member
    obtain ⟨known, name, listed, found⟩ := mem_faultsAlong member
    obtain ⟨binding, present, rfl⟩ := List.mem_map.mp listed
    exact globalFault?_isRechecked (printable.globals binding present).1.2 found

theorem faults_isRechecked : ∀ fault ∈ program.faults, fault.isRechecked = false := by
  refine List.forall_mem_append.mpr ⟨?_, List.forall_mem_append.mpr ⟨?_, ?_⟩⟩
  · split
    · exact List.forall_mem_nil _
    · exact List.forall_mem_singleton.mpr rfl
  · exact nameFaults_isRechecked printable
  · intro fault member
    obtain ⟨events, body, inside⟩ := List.mem_flatMap.mp member
    obtain ⟨known, event, listed, found⟩ := mem_faultsAlong inside
    exact event.fault?_isRechecked (bodies_lawful printable events body event listed) found

end Program

/-- The lowering of a program that can be written finds none of the faults checked before. -/
theorem lower_isRechecked {program : Program} {fault : LowerError} (printable : program.Printable)
    (failed : lower program = .error fault) : fault.isRechecked = false := by
  have first : program.faults.head? = some fault := by
    rw [← faultOf_resolve, ← faultOf_lower, faultOf_eq_some, failed]
  exact program.faults_isRechecked printable fault (List.mem_of_head? first)

end OliCompiler
