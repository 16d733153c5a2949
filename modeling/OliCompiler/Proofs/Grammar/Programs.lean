import OliCompiler.Parse.Program
import OliCompiler.Proofs.Grammar.Statements

/-!
The reader of programs accepts exactly the grammar, and the tree that it gives is the only one that the
grammar has for the tokens.
-/

namespace OliCompiler

namespace Grammar

variable {program between extended : Program} {definition : Function} {item : Item}
  {items first rest : List Item} {tokens : List Token}

theorem Extends.unique {extended' : Program} (one : Extends program items extended)
    (other : Extends program items extended') : extended = extended' := by
  obtain ⟨functions, globals, main⟩ := extended
  obtain ⟨functions', globals', main'⟩ := extended'
  have sameMain : main.toList = main'.toList := one.main.trans other.main.symm
  congr 1
  · exact one.functions.trans other.functions.symm
  · exact one.globals.trans other.globals.symm
  · cases main <;> cases main' <;> simp_all

theorem Extends.nil (program : Program) : Extends program [] program where
  functions := by simp
  globals := by simp
  main := by simp
  bare := by simp

theorem Extends.append (one : Extends program first between)
    (others : Extends between rest extended) : Extends program (first ++ rest) extended where
  functions := by
    rw [others.functions, one.functions, List.filterMap_append, List.filter_append,
      List.append_assoc]
  globals := by rw [others.globals, one.globals, List.filterMap_append, List.append_assoc]
  main := by
    rw [others.main, one.main, List.filterMap_append, List.filter_append, List.append_assoc]
  bare := by
    intro function member
    rw [List.filterMap_append, List.mem_append] at member
    rcases member with member | member
    · exact one.bare function member
    · exact others.bare function member

theorem Extends.global (program : Program) (binding : Binding) :
    Extends program [.global binding] { program with globals := program.globals ++ [binding] } where
  functions := by simp [Item.function?]
  globals := by simp [Item.global?]
  main := by simp [Item.function?]
  bare := by simp [Item.function?]

theorem Extends.plain (plain : isEntry definition = false) :
    Extends program [.function definition]
      { program with functions := program.functions ++ [definition] } where
  functions := by simp [Item.function?, plain]
  globals := by simp [Item.global?]
  main := by simp [Item.function?, plain]
  bare := by simp [Item.function?, plain]

theorem Extends.entry (entry : isEntry definition = true) (absent : program.main = none)
    (bare : definition.params = []) :
    Extends program [.function definition] { program with main := some definition } where
  functions := by simp [Item.function?, entry]
  globals := by simp [Item.global?]
  main := by simp [Item.function?, entry, absent]
  bare := by simp [Item.function?, bare]

/-- An entry function can be added only where there is none. -/
theorem Extends.entry_inv (entry : isEntry definition = true)
    (whole : Extends program (.function definition :: items) extended) :
    program.main = none ∧ definition.params = [] := by
  have single := congrArg List.length whole.main
  refine ⟨?_, whole.bare definition (by simp [Item.function?]) entry⟩
  cases present : program.main with
  | none => rfl
  | some other =>
    cases main : extended.main <;> simp [present, main, Item.function?, entry] at single

/-- What comes behind a definition extends the program that the definition gives. -/
theorem Extends.split (whole : Extends program (item :: items) extended) :
    ∃ between, Extends program [item] between ∧ Extends between items extended := by
  obtain ⟨between, one⟩ : ∃ between, Extends program [item] between := by
    cases item with
    | global binding => exact ⟨_, .global program binding⟩
    | function definition =>
      cases entry : isEntry definition with
      | false => exact ⟨_, .plain entry⟩
      | true =>
        obtain ⟨absent, bare⟩ := whole.entry_inv entry
        exact ⟨_, .entry entry absent bare⟩
  refine ⟨between, one, ?_⟩
  rw [← List.singleton_append] at whole
  constructor
  · rw [whole.functions, one.functions, List.filterMap_append, List.filter_append,
      List.append_assoc]
  · rw [whole.globals, one.globals, List.filterMap_append, List.append_assoc]
  · rw [whole.main, one.main, List.filterMap_append, List.filter_append, List.append_assoc]
  · intro function member
    exact whole.bare function (by rw [List.filterMap_append]; exact List.mem_append_right _ member)

theorem FunctionForm.begins (form : FunctionForm tokens definition) :
    ∃ token rest, tokens = token :: rest ∧ token.kind = .keyword .fn := by
  cases form with
  | mk begins => exact ⟨_, _, rfl, begins⟩

theorem FunctionForm.length_pos (form : FunctionForm tokens definition) : 0 < tokens.length := by
  obtain ⟨_, _, rfl, _⟩ := form.begins
  exact Nat.succ_pos _

theorem LetForm.begins {binding : Binding} (form : LetForm tokens binding) :
    ∃ token rest, tokens = token :: rest ∧ token.kind = .keyword .let := by
  cases form with
  | mk begins => exact ⟨_, _, rfl, begins⟩

theorem LetForm.length_pos {binding : Binding} (form : LetForm tokens binding) :
    0 < tokens.length := by
  obtain ⟨_, _, rfl, _⟩ := form.begins
  exact Nat.succ_pos _

end Grammar

namespace Cursor

theorem eofOf_kind (tokens : List Token) : (eofOf tokens).kind = .endOfFile := by
  rw [eofOf]
  cases found : tokens.find? fun token => token.kind = .endOfFile with
  | some token => simpa using List.find?_some found
  | none => cases tokens.getLast? <;> rfl

theorem ofTokens_proper (tokens : List Token) : (ofTokens tokens).Proper where
  eof := eofOf_kind tokens
  ahead := by
    intro token member
    simpa using List.all_eq_true.mp List.all_takeWhile token member

end Cursor

namespace Parser

open Cursor Grammar

variable {cursor cursor' : Cursor} {budget : Nat} {tokens : List Token} {names : List Ident}
  {definition : Function} {program extended : Program} {items : List Item}

theorem paramsWithin_sound (proper : cursor.Proper)
    (reads : paramsWithin budget cursor = .ok names cursor') :
    ∃ tokens, Passes cursor tokens cursor' ∧ ParamsForm tokens names := by
  induction budget generalizing cursor cursor' names with
  | zero => exact absurd reads unexpected_ne_ok
  | succ budget ih =>
    rw [paramsWithin, check_bind] at reads
    by_cases closes : cursor.current.kind = .closeParen
    · rw [decide_eq_true closes, if_pos rfl] at reads
      obtain ⟨rfl, rfl⟩ := pure_ok.mp reads
      exact ⟨[], .refl cursor, .nil⟩
    · rw [decide_eq_false closes, if_neg Bool.false_ne_true] at reads
      obtain ⟨name, first, named, reads⟩ := bind_ok.mp reads
      obtain ⟨token, passes, identifier, rfl⟩ := (declaredName_ok proper).mp named
      have properFirst := passes.proper proper
      rcases consume_eq .comma (by decide) properFirst with
        ⟨separates, one, consumed⟩ | ⟨_, kept⟩
      · rw [bind_eq consumed, if_pos rfl] at reads
        obtain ⟨others, second, more, reads⟩ := bind_ok.mp reads
        obtain ⟨tokens, passesRest, form⟩ := ih (one.proper properFirst) more
        obtain ⟨rfl, rfl⟩ := pure_ok.mp reads
        exact ⟨_, passes.append (one.append passesRest), .cons identifier separates form⟩
      · rw [bind_eq kept, if_neg Bool.false_ne_true] at reads
        obtain ⟨rfl, rfl⟩ := pure_ok.mp reads
        exact ⟨_, passes, .last identifier⟩

theorem paramsWithin_complete (form : ParamsForm tokens names) :
    ∀ {budget : Nat} {cursor : Cursor}, cursor.Proper → Passes cursor tokens cursor' →
    cursor'.current.kind = .closeParen → tokens.length + 1 ≤ budget →
    paramsWithin budget cursor = .ok names cursor' := by
  induction form with
  | nil =>
    intro budget cursor proper passes closes enough
    obtain ⟨budget, rfl⟩ := Nat.exists_eq_add_one_of_ne_zero (show budget ≠ 0 by omega)
    obtain rfl := passes.eq_self
    rw [paramsWithin, check_bind, closes]
    rfl
  | last named =>
    intro budget cursor proper passes closes enough
    obtain ⟨budget, rfl⟩ := Nat.exists_eq_add_one_of_ne_zero (show budget ≠ 0 by omega)
    have open_ : cursor.current.kind ≠ .closeParen := by
      rw [passes.current, named]
      decide
    rw [paramsWithin, check_bind, decide_eq_false open_, if_neg Bool.false_ne_true,
      bind_eq ((declaredName_ok proper).mpr ⟨_, passes, named, rfl⟩),
      bind_eq (consume_keeps (closes ▸ by decide))]
    rfl
  | cons named separates others ih =>
    intro budget cursor proper passes closes enough
    obtain ⟨budget, rfl⟩ := Nat.exists_eq_add_one_of_ne_zero (show budget ≠ 0 by omega)
    obtain ⟨first, one, behind⟩ := passes.cons
    obtain ⟨second, comma, passesRest⟩ := behind.cons
    have open_ : cursor.current.kind ≠ .closeParen := by
      rw [passes.current, named]
      decide
    have properSecond := comma.proper (one.proper proper)
    simp only [List.length_cons] at enough
    rw [paramsWithin, check_bind, decide_eq_false open_, if_neg Bool.false_ne_true,
      bind_eq ((declaredName_ok proper).mpr ⟨_, one, named, rfl⟩),
      bind_eq (consume_passes comma separates), if_pos rfl,
      bind_eq (ih properSecond passesRest closes (by omega))]
    rfl

theorem function_sound (proper : cursor.Proper) (reads : function cursor = .ok definition cursor') :
    ∃ tokens, Passes cursor tokens cursor' ∧ FunctionForm tokens definition := by
  obtain ⟨start, first, begun, reads⟩ := bind_ok.mp reads
  obtain ⟨one, begins⟩ := (expect_ok proper (by decide)).mp begun
  have properFirst := one.proper proper
  obtain ⟨name, second, named, reads⟩ := bind_ok.mp reads
  obtain ⟨token, passes, identifier, rfl⟩ := (declaredName_ok properFirst).mp named
  have properSecond := passes.proper properFirst
  obtain ⟨names, fifth, listed, reads⟩ := bind_ok.mp reads
  obtain ⟨opening, third, opened, listed⟩ := bind_ok.mp listed
  obtain ⟨two, opens⟩ := (expect_ok properSecond (by decide)).mp opened
  have properThird := two.proper properSecond
  rw [get_bind] at listed
  obtain ⟨names, fourth, inside, listed⟩ := bind_ok.mp listed
  obtain ⟨tokens, passesParams, form⟩ := paramsWithin_sound properThird inside
  have properFourth := passesParams.proper properThird
  obtain ⟨closing, behind, closed, listed⟩ := bind_ok.mp listed
  obtain ⟨last, closes⟩ := (expect_ok properFourth (by decide)).mp closed
  obtain ⟨rfl, rfl⟩ := pure_ok.mp listed
  obtain ⟨⟨body, close⟩, sixth, enclosed, reads⟩ := bind_ok.mp reads
  obtain ⟨block, passesBlock, blocks⟩ := block_sound (last.proper properFourth) enclosed
  obtain ⟨rfl, rfl⟩ := pure_ok.mp reads
  exact ⟨_, one.append (passes.append (two.append (passesParams.append (last.append passesBlock)))),
    .mk begins identifier opens form closes blocks⟩

theorem function_complete (form : FunctionForm tokens definition) (proper : cursor.Proper)
    (passes : Passes cursor tokens cursor') : function cursor = .ok definition cursor' := by
  cases form with
  | @mk _ _ _ _ _ _ names _ _ begins named opens form closes blocks =>
    obtain ⟨first, one, behind⟩ := passes.cons
    have properFirst := one.proper proper
    obtain ⟨second, name, behind⟩ := behind.cons
    have properSecond := name.proper properFirst
    obtain ⟨third, two, behind⟩ := behind.cons
    have properThird := two.proper properSecond
    obtain ⟨fourth, passesParams, behind⟩ := behind.split
    have properFourth := passesParams.proper properThird
    obtain ⟨fifth, last, passesBlock⟩ := behind.cons
    have inside := paramsWithin_complete form properThird passesParams (last.current ▸ closes)
      (show _ ≤ third.ahead.length + 1 by rw [passesParams.length]; omega)
    have listed : params second = .ok names fifth := by
      rw [params, bind_eq ((expect_ok properSecond (by decide)).mpr ⟨two, opens⟩), get_bind,
        bind_eq inside, bind_eq ((expect_ok properFourth (by decide)).mpr ⟨last, closes⟩)]
      rfl
    rw [function, bind_eq ((expect_ok proper (by decide)).mpr ⟨one, begins⟩),
      bind_eq ((declaredName_ok properFirst).mpr ⟨_, name, named, rfl⟩), bind_eq listed,
      bind_eq (block_complete blocks (last.proper properFourth) passesBlock)]
    rfl

theorem addFunction_ok :
    addFunction program definition cursor = .ok extended cursor' ↔
      Extends program [.function definition] extended ∧ cursor = cursor' := by
  cases entry : isEntry definition with
  | false =>
    have named : definition.name.name ≠ "main" := of_decide_eq_false entry
    rw [addFunction, if_neg named, pure_ok]
    constructor
    · rintro ⟨rfl, rfl⟩
      exact ⟨.plain entry, rfl⟩
    · rintro ⟨one, rfl⟩
      exact ⟨(Extends.plain entry).unique one, rfl⟩
  | true =>
    have named : definition.name.name = "main" := of_decide_eq_true entry
    rw [addFunction, if_pos named, get_bind]
    constructor
    · intro adds
      cases main : program.main with
      | some other =>
        rw [main] at adds
        cases adds
      | none =>
        rw [main] at adds
        cases bare : definition.params with
        | nil =>
          rw [bare] at adds
          cases adds
          exact ⟨.entry entry main bare, rfl⟩
        | cons first rest =>
          obtain ⟨last, ends⟩ := Option.isSome_iff_exists.mp (by simp : (first :: rest).getLast?.isSome)
          rw [bare, List.head?_cons, ends] at adds
          cases adds
    · rintro ⟨one, rfl⟩
      obtain ⟨absent, bare⟩ := one.entry_inv entry
      rw [← (Extends.entry entry absent bare).unique one, absent, bare]
      rfl

theorem itemsWithin_sound (proper : cursor.Proper) (enough : cursor.ahead.length < budget)
    (reads : itemsWithin program budget cursor = .ok extended cursor') :
    ∃ items, ItemsForm cursor.ahead items ∧ Extends program items extended := by
  induction budget generalizing cursor program with
  | zero => omega
  | succ budget ih =>
    rw [itemsWithin, peek_bind] at reads
    cases ahead : cursor.current.kind with
    | endOfFile =>
      simp only [ahead, pure_ok] at reads
      obtain ⟨rfl, rfl⟩ := reads
      rw [proper.ahead_eq_nil ahead]
      exact ⟨[], .nil, .nil program⟩
    | keyword word =>
      cases word with
      | fn =>
        simp only [ahead] at reads
        obtain ⟨definition, first, defined, reads⟩ := bind_ok.mp reads
        obtain ⟨between, second, added, reads⟩ := bind_ok.mp reads
        obtain ⟨one, rfl⟩ := addFunction_ok.mp added
        obtain ⟨tokens, passes, form⟩ := function_sound proper defined
        have shorter := passes.length
        have positive := form.length_pos
        obtain ⟨items, others, rest⟩ := ih (passes.proper proper) (by omega) reads
        rw [passes.ahead]
        exact ⟨_, .function form others, one.append rest⟩
      | «let» =>
        simp only [ahead] at reads
        obtain ⟨binding, first, declared, reads⟩ := bind_ok.mp reads
        obtain ⟨tokens, passes, form⟩ := letDeclaration_sound proper declared
        have shorter := passes.length
        have positive := form.length_pos
        obtain ⟨items, others, rest⟩ := ih (passes.proper proper) (by omega) reads
        rw [passes.ahead]
        exact ⟨_, .global form others, (Extends.global program binding).append rest⟩
      | _ =>
        simp only [ahead] at reads
        exact absurd reads fail_ne_ok
    | _ =>
      simp only [ahead] at reads
      exact absurd reads fail_ne_ok

theorem itemsWithin_complete (form : ItemsForm tokens items) (whole : Extends program items extended)
    (proper : cursor.Proper) (all : cursor.ahead = tokens) (enough : tokens.length < budget) :
    ∃ cursor', itemsWithin program budget cursor = .ok extended cursor' := by
  obtain ⟨budget, rfl⟩ := Nat.exists_eq_add_one_of_ne_zero (show budget ≠ 0 by omega)
  induction form generalizing cursor program budget with
  | nil =>
    obtain rfl := (Extends.nil program).unique whole
    refine ⟨cursor, ?_⟩
    rw [itemsWithin, peek_bind, proper.current_of_nil all]
    rfl
  | @function first rest definition items form others ih =>
    obtain ⟨between, one, behind⟩ := whole.split
    obtain ⟨middle, passes, ahead⟩ := exists_passes all
    have positive := form.length_pos
    have defined := function_complete form proper passes
    obtain ⟨token, others', rfl, begins⟩ := form.begins
    rw [List.length_append] at enough
    obtain ⟨budget, rfl⟩ := Nat.exists_eq_add_one_of_ne_zero (show budget ≠ 0 by omega)
    obtain ⟨cursor', reads⟩ := ih behind (passes.proper proper) ahead budget (by omega)
    refine ⟨cursor', ?_⟩
    rw [itemsWithin, peek_bind, passes.current, begins]
    exact (bind_eq defined).trans ((bind_eq (addFunction_ok.mpr ⟨one, rfl⟩)).trans reads)
  | @global first rest binding items form others ih =>
    obtain ⟨between, one, behind⟩ := whole.split
    obtain rfl := (Extends.global program binding).unique one
    obtain ⟨middle, passes, ahead⟩ := exists_passes all
    have positive := form.length_pos
    have declared := letDeclaration_complete form proper passes
    obtain ⟨token, others', rfl, begins⟩ := form.begins
    rw [List.length_append] at enough
    obtain ⟨budget, rfl⟩ := Nat.exists_eq_add_one_of_ne_zero (show budget ≠ 0 by omega)
    obtain ⟨cursor', reads⟩ := ih behind (passes.proper proper) ahead budget (by omega)
    refine ⟨cursor', ?_⟩
    rw [itemsWithin, peek_bind, passes.current, begins]
    exact (bind_eq declared).trans reads

end Parser

open Grammar OliCompiler.Parser

theorem parse_eq_ok {tokens : List Token} {program : Program} : parse tokens = .ok program ↔
    ProgramForm (tokens.takeWhile fun token => token.kind ≠ .endOfFile) program := by
  have proper := Cursor.ofTokens_proper tokens
  rw [parse]
  constructor
  · intro reads
    cases result : Parser.program (.ofTokens tokens) with
    | error error cursor =>
      rw [result] at reads
      cases reads
    | ok found cursor =>
      rw [result] at reads
      cases reads
      rw [Parser.program, get_bind] at result
      exact itemsWithin_sound proper (Nat.lt_succ_self _) result
  · rintro ⟨items, form, whole⟩
    obtain ⟨cursor, reads⟩ := itemsWithin_complete form whole proper rfl (Nat.lt_succ_self _)
    have result : Parser.program (.ofTokens tokens) = .ok program cursor := by
      rw [Parser.program, get_bind]
      exact reads
    rw [result]

/-- Tokens are read as a program exactly if those before the end of the file have a form, and then the
program is the only one of that form. -/
theorem parse_accepts_grammar (tokens : List Token) :
    ((∃ program, parse tokens = .ok program) ↔
      ∃ program, ProgramForm (tokens.takeWhile fun token => token.kind ≠ .endOfFile) program) ∧
    ∀ program, parse tokens = .ok program → ∀ other,
      ProgramForm (tokens.takeWhile fun token => token.kind ≠ .endOfFile) other ↔
        other = program := by
  refine ⟨exists_congr fun program => parse_eq_ok, ?_⟩
  intro program reads other
  rw [← parse_eq_ok, reads, Except.ok.injEq, eq_comm]

end OliCompiler
