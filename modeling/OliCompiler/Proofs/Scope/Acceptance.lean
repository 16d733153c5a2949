import OliCompiler.Proofs.Lowering.Module
import OliCompiler.Proofs.Scope.Reports
import OliCompiler.Proofs.Tables
import Mathlib.Data.List.Induction

/-!
Which programs are lowered: those that keep the rules of scope. Any other is refused with the first of
its faults.
-/

namespace OliCompiler

section

variable {α : Type} {declared : α → List String} {fault? : List String → α → Option LowerError}
  {known : List String} {items : List α}

/-- There are no faults exactly if there is none at any place. -/
theorem faultsAlong_eq_nil : faultsAlong declared fault? known items = [] ↔
    ∀ before item after, items = before ++ item :: after →
      fault? (known ++ before.flatMap declared) item = none := by
  induction items generalizing known with
  | nil => simp
  | cons first items ih =>
    rw [faultsAlong, List.append_eq_nil_iff, Option.toList_eq_nil_iff, ih]
    constructor
    · rintro ⟨none, others⟩ before item after split
      rcases List.cons_eq_append_iff.mp split with ⟨rfl, same⟩ | ⟨before, rfl, rfl⟩
      · cases same
        simpa using none
      · simpa using others before item after rfl
    · intro all
      refine ⟨by simpa using all [] first items rfl, ?_⟩
      rintro before item after rfl
      simpa using all (first :: before) item after rfl

/-- Names are distinct exactly if none is among those before it. -/
theorem nodup_flatMap_iff (single : ∀ item, (declared item).Nodup) :
    (items.flatMap declared).Nodup ↔
      ∀ before item after, items = before ++ item :: after →
        ∀ name ∈ declared item, name ∉ before.flatMap declared := by
  constructor
  · rintro distinct before item after rfl name here earlier
    rw [List.flatMap_append, List.flatMap_cons] at distinct
    exact List.disjoint_of_nodup_append distinct earlier (List.mem_append_left _ here)
  · intro fresh
    induction items using List.reverseRecOn with
    | nil => exact List.nodup_nil
    | append_singleton items item ih =>
      rw [List.flatMap_append, List.flatMap_singleton]
      refine List.Nodup.append (ih ?_) (single item) ?_
      · rintro before earlier after rfl
        exact fresh before earlier (after ++ [item]) (by simp)
      · intro name earlier here
        exact fresh items item [] rfl name here earlier

/-- Names keep a rule and are distinct exactly if none has a fault behind those before it. -/
theorem nameFaultsAlong_eq_nil {rule : Ident → Prop} {fault? : List String → Ident → Option LowerError}
    (each : ∀ known name, fault? known name = none ↔ rule name ∧ name.name ∉ known)
    (names : List Ident) :
    faultsAlong (fun name => [name.name]) fault? [] names = [] ↔
      (∀ name ∈ names, rule name) ∧ (names.map Ident.name).Nodup := by
  have same : names.map Ident.name = names.flatMap fun name => [name.name] := by
    rw [List.map_eq_flatMap]
  rw [faultsAlong_eq_nil, same, nodup_flatMap_iff fun _ => List.nodup_singleton _]
  simp only [each, List.nil_append, List.mem_singleton, forall_eq]
  constructor
  · intro all
    refine ⟨fun name member => ?_, fun before name after split => (all before name after split).2⟩
    obtain ⟨before, after, split⟩ := List.append_of_mem member
    exact (all before name after split).1
  · rintro ⟨kept, fresh⟩ before name after split
    exact ⟨kept name (split ▸ List.mem_append_right _ List.mem_cons_self),
      fresh before name after split⟩

end

theorem functionFault?_eq_none {known : List String} {name : Ident} :
    functionFault? known name = none ↔ Available name.name ∧ name.name ∉ known := by
  unfold functionFault?
  constructor
  · intro none
    split_ifs at none with reserved clash present
    obtain ⟨notEntry, notPrinter⟩ := not_or.mp clash
    exact ⟨⟨Bool.eq_false_iff.mpr reserved, notEntry, notPrinter⟩, present⟩
  · rintro ⟨available, absent⟩
    simp [available.unreserved, available.notEntry, available.notPrinter, absent]

theorem globalFault?_eq_none {functions known : List String} {name : Ident} :
    globalFault? functions known name = none ↔
      (Available name.name ∧ name.name ∉ functions) ∧ name.name ∉ known := by
  unfold globalFault?
  constructor
  · intro none
    split_ifs at none with reserved clash present
    obtain ⟨notEntry, notPrinter, apart⟩ : name.name ≠ entryName ∧ name.name ≠ printerName ∧
        name.name ∉ functions := by simpa only [not_or] using clash
    exact ⟨⟨⟨Bool.eq_false_iff.mpr reserved, notEntry, notPrinter⟩, apart⟩, present⟩
  · rintro ⟨⟨available, apart⟩, absent⟩
    simp [available.unreserved, available.notEntry, available.notPrinter, apart, absent]

variable {symbols : Symbols} {locals : List String} {events : List Event}

theorem declare_fault?_eq_none {name : Ident} :
    (Event.declare name).fault? symbols locals = none ↔
      isReserved name.name = false ∧ name.name ∉ locals := by
  unfold Event.fault?
  by_cases reserved : isReserved name.name = true
  · simp [reserved]
  · by_cases present : name.name ∈ locals <;> simp [reserved, present]

theorem use_fault?_eq_none {name : Ident} :
    (Event.use name).fault? symbols locals = none ↔
      name.name ∈ locals ∨ name.name ∈ symbols.globals := by
  constructor
  · intro none
    by_contra absent
    rw [Event.fault?, if_neg absent] at none
    cases none
  · exact fun known => if_pos known

theorem call_fault?_eq_none {callee : Ident} {count : Nat} {span : Span} :
    (Event.call callee count span).fault? symbols locals = none ↔
      (callee.name = printName ∧ count = 1) ∨
        (callee.name ≠ printName ∧ symbols.functions.lookup callee.name = some count) := by
  by_cases printer : callee.name = printName
  · simp [Event.fault?, printer]
  · cases found : symbols.functions.lookup callee.name with
    | none => simp [Event.fault?, printer, found]
    | some arity => simp [Event.fault?, printer, found, eq_comm]

theorem break_fault?_eq_none {inLoop : Bool} {span : Span} :
    (Event.break inLoop span).fault? symbols locals = none ↔ inLoop = true := by
  cases inLoop <;> simp [Event.fault?]

theorem continue_fault?_eq_none {inLoop : Bool} {span : Span} :
    (Event.continue inLoop span).fault? symbols locals = none ↔ inLoop = true := by
  cases inLoop <;> simp [Event.fault?]

theorem distinct_iff_fresh : (declaredBy events).Nodup ↔
    ∀ before name after, events = before ++ .declare name :: after →
      name.name ∉ declaredBy before := by
  have single : ∀ event : Event, event.declared.Nodup := by
    intro event
    cases event <;> simp [Event.declared]
  unfold declaredBy
  rw [nodup_flatMap_iff single]
  constructor
  · intro fresh before name after split
    exact fresh before (.declare name) after split name.name (List.mem_singleton_self _)
  · intro fresh before event after split name here
    cases event with
    | declare declared =>
      obtain rfl := List.mem_singleton.mp here
      exact fresh before declared after split
    | _ => cases here

/-- A body has no fault exactly if it keeps the rules. -/
theorem bodyFaults_eq_nil {callable : String → Nat → Prop}
    (calls : ∀ callee count, callable callee count ↔
      (callee = printName ∧ count = 1) ∨
        (callee ≠ printName ∧ symbols.functions.lookup callee = some count)) :
    bodyFaults symbols [] events = [] ↔ BodyScoped callable symbols.globals events := by
  unfold bodyFaults
  rw [faultsAlong_eq_nil]
  constructor
  · intro none
    have place : ∀ event ∈ events, ∃ locals, event.fault? symbols locals = Option.none := by
      intro event member
      obtain ⟨before, after, split⟩ := List.append_of_mem member
      exact ⟨_, none before event after split⟩
    constructor
    case unreserved =>
      intro name member
      obtain ⟨_, kept⟩ := place _ member
      exact (declare_fault?_eq_none.mp kept).1
    case distinct =>
      refine distinct_iff_fresh.mpr fun before name after split => ?_
      exact (declare_fault?_eq_none.mp (none before _ after split)).2
    case known =>
      intro before name after split
      exact use_fault?_eq_none.mp (none before _ after split)
    case calls =>
      intro callee count span member
      obtain ⟨_, kept⟩ := place _ member
      exact (calls callee.name count).mpr (call_fault?_eq_none.mp kept)
    case breaks =>
      intro inLoop span member
      obtain ⟨_, kept⟩ := place _ member
      exact break_fault?_eq_none.mp kept
    case continues =>
      intro inLoop span member
      obtain ⟨_, kept⟩ := place _ member
      exact continue_fault?_eq_none.mp kept
  · intro rules before event after split
    have member : event ∈ events := split ▸ List.mem_append_right _ List.mem_cons_self
    cases event with
    | declare name =>
      exact declare_fault?_eq_none.mpr ⟨rules.unreserved name member,
        distinct_iff_fresh.mp rules.distinct before name after split⟩
    | use name => exact use_fault?_eq_none.mpr (rules.known before name after split)
    | call callee count span =>
      exact call_fault?_eq_none.mpr ((calls _ _).mp (rules.calls callee count span member))
    | «break» inLoop span => exact break_fault?_eq_none.mpr (rules.breaks inLoop span member)
    | «continue» inLoop span =>
      exact continue_fault?_eq_none.mpr (rules.continues inLoop span member)

namespace Program

variable {program : Program}

theorem callable_iff_lookup (distinct : (program.functions.map (·.name.name)).Nodup)
    (callee : String) (count : Nat) :
    program.Callable callee count ↔ (callee = printName ∧ count = 1) ∨
      (callee ≠ printName ∧ program.symbols.functions.lookup callee = some count) := by
  have keys : (program.symbols.functions.map Prod.fst).Nodup := by
    simpa [symbols, Function.comp_def] using distinct
  rw [lookup_eq_some_iff_mem keys]
  simp [Callable, Declares, symbols]

/-- A program has no fault exactly if it keeps the rules. -/
theorem faults_eq_nil : program.faults = [] ↔ program.WellScoped := by
  unfold faults nameFaults WellScoped
  rw [List.append_eq_nil_iff, List.append_eq_nil_iff, List.append_eq_nil_iff,
    nameFaultsAlong_eq_nil (fun _ _ => functionFault?_eq_none),
    nameFaultsAlong_eq_nil (fun _ _ => globalFault?_eq_none), List.flatMap_eq_nil_iff]
  simp only [List.map_map, List.forall_mem_map, Function.comp_def]
  constructor
  · rintro ⟨main, ⟨⟨functions, functionsDistinct⟩, globals, globalsDistinct⟩, bodies⟩
    refine ⟨by simpa [Option.isSome_iff_ne_none] using main, functions, functionsDistinct,
      fun binding member => (globals binding member).1, globalsDistinct, ?_, ?_⟩
    · intro binding member function present same
      exact (globals binding member).2 (List.mem_map.mpr ⟨function, present, same.symm⟩)
    · intro events member
      exact (bodyFaults_eq_nil (callable_iff_lookup functionsDistinct)).mp (bodies events member)
  · intro rules
    refine ⟨by simp [rules.main], ⟨⟨rules.functions, rules.functionsDistinct⟩, ?_,
      rules.globalsDistinct⟩, ?_⟩
    · intro binding member
      refine ⟨rules.globals binding member, fun present => ?_⟩
      obtain ⟨function, listed, same⟩ := List.mem_map.mp present
      exact rules.apart binding member function listed same.symm
    · intro events member
      exact (bodyFaults_eq_nil (callable_iff_lookup rules.functionsDistinct)).mpr
        (rules.bodies events member)

end Program

/-- The code generator refuses what the settling of names refuses, and nothing else. -/
theorem faultOf_lower (program : Program) : faultOf (lower program) = faultOf (resolve program) := by
  cases resolved : resolve program with
  | ok settled =>
    obtain ⟨module, lowered, _⟩ := Lower.lower_of_resolve resolved
    rw [lowered]
    rfl
  | error error =>
    unfold lower
    rw [resolved]
    rfl

/-- A program is lowered exactly if it keeps the rules of scope, and otherwise the error is the first of
its faults. -/
theorem lower_accepts_wellScoped (program : Program) :
    ((∃ module, lower program = .ok module) ↔ program.WellScoped) ∧
      ∀ error, lower program = .error error ↔ program.faults.head? = some error := by
  have first : faultOf (lower program) = program.faults.head? :=
    (faultOf_lower program).trans (faultOf_resolve program)
  constructor
  · rw [← Program.faults_eq_nil, ← List.head?_eq_none_iff, ← first, faultOf_eq_none]
  · intro error
    rw [← first, faultOf_eq_some]

section

private def printIdent : Ident := ⟨printName, default⟩

/-- A program that has a function `print` without parameters and calls it without arguments. -/
def printsNothing : Program where
  functions := [⟨printIdent, [], [.return (.int 0 default)], default⟩]
  globals := []
  main := some {
    name := ⟨entryName, default⟩
    params := []
    body := [.return (.call printIdent [] default)]
    span := default }

private theorem printsNothing_bodies :
    printsNothing.bodies = [[.call printIdent 0 default], []] := rfl

/-- The name `print` never means a function of the program, so a call of such a function with as many
arguments as it has parameters may be refused. -/
theorem not_forall_lower_ok_iff_scopedBy :
    ¬∀ program : Program, (∀ main, program.main = some main → main.params = []) →
      ((∃ module, lower program = .ok module) ↔ program.ScopedBy fun callee count =>
        (callee = printName ∧ count = 1) ∨ program.Declares callee count) := by
  intro accepts
  have rules : printsNothing.ScopedBy fun callee count =>
      (callee = printName ∧ count = 1) ∨ printsNothing.Declares callee count := by
    constructor
    case main => rfl
    case functions =>
      intro function member
      obtain rfl := List.mem_singleton.mp member
      constructor <;> decide
    case functionsDistinct => exact List.nodup_singleton _
    case globals => exact List.forall_mem_nil _
    case globalsDistinct => exact List.nodup_nil
    case apart => exact List.forall_mem_nil _
    case bodies =>
      have declares : printsNothing.Declares printName 0 :=
        ⟨_, List.mem_singleton_self _, rfl, rfl⟩
      rw [printsNothing_bodies]
      simp only [List.forall_mem_cons]
      refine ⟨?_, ?_, List.forall_mem_nil _⟩
      · constructor
        case distinct => exact List.nodup_nil
        case known =>
          intro before name after split
          have member : .use name ∈ [Event.call printIdent 0 default] :=
            split ▸ List.mem_append_right _ List.mem_cons_self
          cases List.mem_singleton.mp member
        case calls =>
          intro callee count span member
          obtain ⟨rfl, rfl, rfl⟩ := Event.call.inj (List.mem_singleton.mp member)
          exact .inr declares
        all_goals simp
      · constructor <;> simp [declaredBy]
  obtain ⟨module, lowered⟩ := (accepts printsNothing (by rintro _ ⟨⟩; rfl)).mpr rules
  have refused : (lower printsNothing).isOk = false := by decide +kernel
  rw [lowered] at refused
  cases refused

end

end OliCompiler
