import OliCompiler.Proofs.Grammar.Programs
import OliCompiler.Proofs.Printing.Source

/-!
A program that is printed as source text and read again is the same program, but for where things
stand.
-/

namespace OliCompiler

open Printing Grammar Scanning

namespace Printing

/-- Whether tokens are those of words. -/
def Spells (tokens : List Token) (words : List Word) : Prop :=
  tokens.map content = words.map Word.content

variable {tokens rest : List Token} {first others words : List Word} {word : Word}

theorem Spells.nil (spells : Spells tokens []) : tokens = [] := List.map_eq_nil_iff.mp spells

theorem Spells.cons (spells : Spells tokens (word :: words)) :
    ∃ token behind, tokens = token :: behind ∧ token.kind = word.kind ∧ token.value = word.value ∧
      Spells behind words := by
  obtain ⟨token, behind, rfl, same, spelled⟩ := List.map_eq_cons_iff.mp spells
  exact ⟨token, behind, rfl, congrArg Prod.fst same, congrArg Prod.snd same, spelled⟩

theorem Spells.append (spells : Spells tokens (first ++ others)) :
    ∃ before behind, tokens = before ++ behind ∧ Spells before first ∧ Spells behind others := by
  rw [Spells, List.map_append] at spells
  exact List.map_eq_append_iff.mp spells

theorem Spells.single (spells : Spells tokens [word]) :
    ∃ token, tokens = [token] ∧ token.kind = word.kind ∧ token.value = word.value := by
  obtain ⟨token, behind, rfl, kind, value, none⟩ := spells.cons
  rw [none.nil]
  exact ⟨token, rfl, kind, value⟩

theorem Spells.parens (spells : Spells tokens (parens words)) :
    ∃ opening inside closing, tokens = opening :: (inside ++ [closing]) ∧
      opening.kind = .openParen ∧ Spells inside words ∧ closing.kind = .closeParen := by
  obtain ⟨opening, behind, rfl, opens, _, enclosed⟩ := spells.cons
  obtain ⟨inside, last, rfl, spelled, ends⟩ := enclosed.append
  obtain ⟨closing, rfl, closes, _⟩ := ends.single
  exact ⟨opening, inside, closing, rfl, opens, spelled, closes⟩

theorem Spells.braces (spells : Spells tokens (braces words)) :
    ∃ opening inside closing, tokens = opening :: (inside ++ [closing]) ∧
      opening.kind = .openBrace ∧ Spells inside words ∧ closing.kind = .closeBrace := by
  obtain ⟨opening, behind, rfl, opens, _, enclosed⟩ := spells.cons
  obtain ⟨inside, last, rfl, spelled, ends⟩ := enclosed.append
  obtain ⟨closing, rfl, closes, _⟩ := ends.single
  exact ⟨opening, inside, closing, rfl, opens, spelled, closes⟩

theorem nameOf_eq {token : Token} {text : String} (spelled : token.value = some text) :
    nameOf token = ⟨text, token.span⟩ := by
  rw [nameOf, Token.text, spelled]
  rfl

/-- An integer without a sign is written as a numeral that denotes it. -/
theorem numeral_of_natural {value : Int32} (natural : 0 ≤ value) :
    Numeral (toString value.toInt.toNat).toList value := by
  have positive : 0 ≤ value.toInt := Int32.le_iff_toInt_le.mp natural
  have bounded : value.toInt < 2147483648 := value.toInt_lt
  have denotes : numberOf (toString value.toInt.toNat).toList = value.toInt.toNat :=
    (value_eq _).symm.trans (value_of_numeral _)
  have same : Int32.ofInt (numberOf (toString value.toInt.toNat).toList) = value := by
    rw [denotes, Int.toNat_of_nonneg positive, Int32.ofInt_toInt]
  have fits : numberOf (toString value.toInt.toNat).toList ≤ 2147483647 := by
    rw [denotes]
    omega
  have numeral := Numeral.plain (numeral_ne_nil _) (digits_of_numeral _) fits
  rwa [same] at numeral

end Printing

mutual

theorem Expr.form_of_words : ∀ {expr : Expr} {level : Nat} {tokens : List Token}, expr.Printable →
    level ≤ 3 → Spells tokens (expr.words level) →
    ∃ value, ExprForm level tokens value ∧ value.bare = expr.bare
  | .int value _, level, tokens, printable, bound, spells => by
    obtain ⟨token, rfl, kind, spelled⟩ := spells.single
    have denotes : Numeral token.text.toList value := by
      rw [Token.text, spelled]
      exact numeral_of_natural printable
    exact ⟨_, (ExprForm.int kind denotes).loosen bound (Nat.le_refl 3), rfl⟩
  | .var name, level, tokens, printable, bound, spells => by
    obtain ⟨token, rfl, kind, spelled⟩ := spells.single
    refine ⟨_, (ExprForm.var kind).loosen bound (Nat.le_refl 3), ?_⟩
    rw [nameOf_eq spelled]
    rfl
  | .call callee args _, level, tokens, ⟨_, printable⟩, bound, spells => by
    obtain ⟨token, behind, rfl, kind, spelled, enclosed⟩ := spells.cons
    obtain ⟨opening, inside, closing, rfl, opens, spelledArgs, closes⟩ := enclosed.parens
    obtain ⟨values, form, same⟩ := Expr.form_of_args printable spelledArgs
    refine ⟨_, (ExprForm.call kind opens form closes).loosen bound (Nat.le_refl 3), ?_⟩
    rw [nameOf_eq spelled, Expr.bare, same]
    rfl
  | .binary op left right, level, tokens, ⟨printableLeft, printableRight⟩, bound, spells => by
    have low := levelOf_le op
    have whole : ∀ {tokens}, Spells tokens
        (left.words (levelOf op) ++ .fixed (.operator op) :: right.words (levelOf op + 1)) →
        ∃ value, ExprForm (levelOf op) tokens value ∧ value.bare = (Expr.binary op left right).bare := by
      intro tokens spells
      obtain ⟨before, behind, rfl, spellsLeft, spelled⟩ := spells.append
      obtain ⟨sign, behind, rfl, joins, _, spellsRight⟩ := spelled.cons
      obtain ⟨a, first, sameLeft⟩ := Expr.form_of_words printableLeft (by omega) spellsLeft
      obtain ⟨b, second, sameRight⟩ := Expr.form_of_words printableRight (by omega) spellsRight
      refine ⟨_, .binary first joins second, ?_⟩
      rw [Expr.bare, sameLeft, sameRight]
      rfl
    rw [Expr.words] at spells
    by_cases looser : levelOf op < level
    · rw [if_pos looser] at spells
      obtain ⟨opening, inside, closing, rfl, opens, spelled, closes⟩ := spells.parens
      obtain ⟨value, form, same⟩ := whole spelled
      have enclosed := ExprForm.paren opens (form.loosen (Nat.zero_le _) (by omega)) closes
      exact ⟨value, enclosed.loosen bound (Nat.le_refl 3), same⟩
    · rw [if_neg looser] at spells
      obtain ⟨value, form, same⟩ := whole spells
      exact ⟨value, form.loosen (by omega) (by omega), same⟩

theorem Expr.form_of_args : ∀ {args : List Expr} {tokens : List Token}, Expr.AllPrintable args →
    Spells tokens (Expr.wordsOfArgs args) →
    ∃ values, ArgsForm tokens values ∧ Expr.bareAll values = Expr.bareAll args
  | [], _, _, spells => by
    rw [spells.nil]
    exact ⟨[], .nil, rfl⟩
  | [arg], _, printable, spells => by
    obtain ⟨value, form, same⟩ := Expr.form_of_words printable.1 (Nat.zero_le 3) spells
    exact ⟨[value], .last form, congrArg ([·]) same⟩
  | arg :: next :: args, _, ⟨printable, others⟩, spells => by
    obtain ⟨before, behind, rfl, spelled, joined⟩ := spells.append
    obtain ⟨comma, behind, rfl, separates, _, spelledArgs⟩ := joined.cons
    obtain ⟨value, form, same⟩ := Expr.form_of_words printable (Nat.zero_le 3) spelled
    obtain ⟨values, forms, sames⟩ := Expr.form_of_args others spelledArgs
    refine ⟨value :: values, .cons form separates forms, ?_⟩
    rw [Expr.bareAll, same, sames]
    rfl

end

theorem Binding.form_of_words {binding : Binding} {tokens : List Token} (printable : binding.Printable)
    (spells : Spells tokens binding.words) :
    ∃ found, BindingForm tokens found ∧ found.bare = binding.bare := by
  obtain ⟨token, behind, rfl, kind, spelled, others⟩ := spells.cons
  obtain ⟨sign, behind, rfl, assigns, _, spelledValue⟩ := others.cons
  obtain ⟨value, form, same⟩ := Expr.form_of_words printable.2 (Nat.zero_le 3) spelledValue
  refine ⟨_, .mk kind assigns form, ?_⟩
  rw [nameOf_eq spelled, Binding.bare, same]
  rfl

theorem Binding.form_of_let {binding : Binding} {tokens : List Token} (printable : binding.Printable)
    (spells : Spells tokens binding.wordsOfLet) :
    ∃ found, LetForm tokens found ∧ found.bare = binding.bare := by
  obtain ⟨word, behind, rfl, begins, _, others⟩ := spells.cons
  obtain ⟨inside, last, rfl, spelled, ends⟩ := others.append
  obtain ⟨stop, rfl, stops, _⟩ := ends.single
  obtain ⟨found, form, same⟩ := Binding.form_of_words printable spelled
  exact ⟨found, .mk begins form stops, same⟩

theorem Stmt.form_of_body {body : List Stmt} {inLoop : Bool} {tokens : List Token}
    (all : ∀ {tokens}, Spells tokens (Stmt.wordsOfAll body) →
      ∃ found, StmtsForm inLoop tokens found ∧ Stmt.bareAll found = Stmt.bareAll body)
    (spells : Spells tokens (braces (Stmt.wordsOfAll body))) :
    ∃ found close, BlockForm inLoop tokens found close ∧
      Stmt.bareAll found = Stmt.bareAll body := by
  obtain ⟨opening, inside, closing, rfl, opens, spelled, closes⟩ := spells.braces
  obtain ⟨found, form, same⟩ := all spelled
  exact ⟨found, closing.span, .mk opens form closes, same⟩

mutual

theorem Stmt.form_of_words : ∀ {stmt : Stmt} {inLoop : Bool} {tokens : List Token},
    stmt.Printable inLoop → Spells tokens stmt.words →
    ∃ found, StmtForm inLoop tokens found ∧ found.bare = stmt.bare
  | .declare binding, inLoop, tokens, printable, spells => by
    obtain ⟨found, form, same⟩ := Binding.form_of_let printable spells
    exact ⟨_, .declare form, congrArg Stmt.declare same⟩
  | .assign binding, inLoop, tokens, printable, spells => by
    obtain ⟨inside, last, rfl, spelled, ends⟩ := spells.append
    obtain ⟨stop, rfl, stops, _⟩ := ends.single
    obtain ⟨found, form, same⟩ := Binding.form_of_words printable spelled
    exact ⟨_, .assign form stops, congrArg Stmt.assign same⟩
  | .return value, inLoop, tokens, printable, spells => by
    obtain ⟨word, behind, rfl, begins, _, others⟩ := spells.cons
    obtain ⟨inside, last, rfl, spelled, ends⟩ := others.append
    obtain ⟨stop, rfl, stops, _⟩ := ends.single
    obtain ⟨found, form, same⟩ := Expr.form_of_words printable (Nat.zero_le 3) spelled
    exact ⟨_, .return begins form stops, congrArg Stmt.return same⟩
  | .expr value, inLoop, tokens, printable, spells => by
    obtain ⟨inside, last, rfl, spelled, ends⟩ := spells.append
    obtain ⟨stop, rfl, stops, _⟩ := ends.single
    obtain ⟨found, form, same⟩ := Expr.form_of_words printable (Nat.zero_le 3) spelled
    exact ⟨_, .expr form stops, congrArg Stmt.expr same⟩
  | .if condition body tail, inLoop, tokens, ⟨printable, printableBody, printableTail⟩, spells => by
    obtain ⟨word, behind, rfl, begins, _, others⟩ := spells.cons
    obtain ⟨test, behind, rfl, spelled, others⟩ := others.append
    obtain ⟨block, rest, rfl, spelledBody, spelledTail⟩ := others.append
    obtain ⟨found, form, same⟩ := Expr.form_of_words printable (Nat.zero_le 3) spelled
    obtain ⟨stmts, close, blocks, sames⟩ := Stmt.form_of_body (Stmt.form_of_all printableBody) spelledBody
    obtain ⟨follower, follows, sameTail⟩ := Tail.form_of_words printableTail spelledTail
    refine ⟨_, .if begins form blocks follows, ?_⟩
    rw [Stmt.bare, same, sames, sameTail]
    rfl
  | .while condition body, inLoop, tokens, ⟨printable, printableBody⟩, spells => by
    obtain ⟨word, behind, rfl, begins, _, others⟩ := spells.cons
    obtain ⟨opening, behind, rfl, opens, _, others⟩ := others.cons
    obtain ⟨test, behind, rfl, spelled, others⟩ := others.append
    obtain ⟨closing, block, rfl, closes, _, spelledBody⟩ := others.cons
    obtain ⟨found, form, same⟩ := Expr.form_of_words printable (Nat.zero_le 3) spelled
    obtain ⟨stmts, close, blocks, sames⟩ := Stmt.form_of_body (Stmt.form_of_all printableBody) spelledBody
    refine ⟨_, .while begins opens form closes blocks, ?_⟩
    rw [Stmt.bare, same, sames]
    rfl
  | .for init condition update body, inLoop, tokens,
      ⟨printableInit, printable, printableUpdate, printableBody⟩, spells => by
    obtain ⟨word, behind, rfl, begins, _, others⟩ := spells.cons
    obtain ⟨opening, behind, rfl, opens, _, others⟩ := others.cons
    obtain ⟨letWord, behind, rfl, declares, _, others⟩ := others.cons
    obtain ⟨start, behind, rfl, spelledInit, others⟩ := others.append
    obtain ⟨stop, behind, rfl, stops, _, others⟩ := others.cons
    obtain ⟨test, behind, rfl, spelled, others⟩ := others.append
    obtain ⟨stop', behind, rfl, stops', _, others⟩ := others.cons
    obtain ⟨next, behind, rfl, spelledUpdate, others⟩ := others.append
    obtain ⟨closing, block, rfl, closes, _, spelledBody⟩ := others.cons
    obtain ⟨first, starts, sameInit⟩ := Binding.form_of_words printableInit spelledInit
    obtain ⟨found, form, same⟩ := Expr.form_of_words printable (Nat.zero_le 3) spelled
    obtain ⟨later, updates, sameUpdate⟩ := Binding.form_of_words printableUpdate spelledUpdate
    obtain ⟨stmts, close, blocks, sames⟩ := Stmt.form_of_body (Stmt.form_of_all printableBody) spelledBody
    refine ⟨_, .for begins opens (.present declares) starts stops form stops' updates closes blocks, ?_⟩
    rw [Stmt.bare, sameInit, same, sameUpdate, sames]
    rfl
  | .break _, inLoop, tokens, printable, spells => by
    obtain ⟨word, behind, rfl, begins, _, others⟩ := spells.cons
    obtain ⟨stop, rfl, stops, _⟩ := others.single
    obtain rfl : inLoop = true := printable
    exact ⟨_, .break begins stops, rfl⟩
  | .continue _, inLoop, tokens, printable, spells => by
    obtain ⟨word, behind, rfl, begins, _, others⟩ := spells.cons
    obtain ⟨stop, rfl, stops, _⟩ := others.single
    obtain rfl : inLoop = true := printable
    exact ⟨_, .continue begins stops, rfl⟩

theorem Tail.form_of_words : ∀ {tail : Tail} {inLoop : Bool} {tokens : List Token},
    tail.Printable inLoop → Spells tokens tail.words →
    ∃ found, TailForm inLoop tokens found ∧ found.bare = tail.bare
  | .none, _, _, _, spells => by
    rw [spells.nil]
    exact ⟨_, .none, rfl⟩
  | .elseIf condition body tail, inLoop, tokens, ⟨printable, printableBody, printableTail⟩, spells => by
    obtain ⟨word, behind, rfl, begins, _, others⟩ := spells.cons
    obtain ⟨word', behind, rfl, continues, _, others⟩ := others.cons
    obtain ⟨test, behind, rfl, spelled, others⟩ := others.append
    obtain ⟨block, rest, rfl, spelledBody, spelledTail⟩ := others.append
    obtain ⟨found, form, same⟩ := Expr.form_of_words printable (Nat.zero_le 3) spelled
    obtain ⟨stmts, close, blocks, sames⟩ := Stmt.form_of_body (Stmt.form_of_all printableBody) spelledBody
    obtain ⟨follower, follows, sameTail⟩ := Tail.form_of_words printableTail spelledTail
    refine ⟨_, .elseIf begins continues form blocks follows, ?_⟩
    rw [Tail.bare, same, sames, sameTail]
    rfl
  | .else body, inLoop, tokens, printable, spells => by
    obtain ⟨word, behind, rfl, begins, _, others⟩ := spells.cons
    obtain ⟨stmts, close, blocks, sames⟩ := Stmt.form_of_body (Stmt.form_of_all printable) others
    exact ⟨_, .else begins blocks, congrArg Tail.else sames⟩

theorem Stmt.form_of_all : ∀ {stmts : List Stmt} {inLoop : Bool} {tokens : List Token},
    Stmt.AllPrintable inLoop stmts → Spells tokens (Stmt.wordsOfAll stmts) →
    ∃ found, StmtsForm inLoop tokens found ∧ Stmt.bareAll found = Stmt.bareAll stmts
  | [], _, _, _, spells => by
    rw [spells.nil]
    exact ⟨[], .nil, rfl⟩
  | stmt :: stmts, _, _, ⟨printable, others⟩, spells => by
    obtain ⟨before, behind, rfl, spelled, spelledRest⟩ := spells.append
    obtain ⟨found, form, same⟩ := Stmt.form_of_words printable spelled
    obtain ⟨rest, forms, sames⟩ := Stmt.form_of_all others spelledRest
    refine ⟨found :: rest, .cons form forms, ?_⟩
    rw [Stmt.bareAll, same, sames]
    rfl

end

theorem Ident.form_of_params : ∀ {params : List Ident} {tokens : List Token},
    Spells tokens (Ident.wordsOfParams params) →
    ∃ found, ParamsForm tokens found ∧ found.map Ident.bare = params.map Ident.bare
  | [], _, spells => by
    rw [spells.nil]
    exact ⟨[], .nil, rfl⟩
  | [param], _, spells => by
    obtain ⟨token, rfl, kind, spelled⟩ := spells.single
    refine ⟨_, .last kind, ?_⟩
    rw [nameOf_eq spelled]
    rfl
  | param :: next :: params, _, spells => by
    obtain ⟨token, behind, rfl, kind, spelled, others⟩ := spells.cons
    obtain ⟨comma, rest, rfl, separates, _, spelledRest⟩ := others.cons
    obtain ⟨found, form, same⟩ := Ident.form_of_params spelledRest
    refine ⟨_, .cons kind separates form, ?_⟩
    rw [nameOf_eq spelled, List.map_cons, same]
    rfl

theorem Function.form_of_words {function : Function} {tokens : List Token}
    (printable : function.Printable) (spells : Spells tokens function.words) :
    ∃ found, FunctionForm tokens found ∧ found.bare = function.bare := by
  obtain ⟨word, behind, rfl, begins, _, others⟩ := spells.cons
  obtain ⟨token, behind, rfl, kind, spelled, others⟩ := others.cons
  obtain ⟨front, block, rfl, enclosed, spelledBody⟩ := others.append
  obtain ⟨opening, inside, closing, rfl, opens, spelledParams, closes⟩ := enclosed.parens
  obtain ⟨params, form, same⟩ := Ident.form_of_params spelledParams
  obtain ⟨body, close, blocks, sames⟩ := Stmt.form_of_body (Stmt.form_of_all printable.body) spelledBody
  rw [List.cons_append, List.append_assoc, List.singleton_append]
  refine ⟨_, .mk begins kind opens form closes blocks, ?_⟩
  rw [nameOf_eq spelled, Function.bare, same, sames]
  rfl

theorem Function.isEntry_of_bare {found function : Function} (same : found.bare = function.bare) :
    isEntry found = isEntry function := by
  have names : found.name.name = function.name.name := congrArg (·.name.name) same
  rw [isEntry, isEntry, names]

theorem Function.params_of_bare {found function : Function} (same : found.bare = function.bare)
    (none : function.params = []) : found.params = [] := by
  have params : found.params.map Ident.bare = function.params.map Ident.bare :=
    congrArg Function.params same
  rwa [none, List.map_nil, List.map_eq_nil_iff] at params

namespace Grammar

variable {tokens first rest : List Token} {items others : List Item}

theorem ItemsForm.append (form : ItemsForm first items) (behind : ItemsForm rest others) :
    ItemsForm (first ++ rest) (items ++ others) := by
  induction form with
  | nil => exact behind
  | function form _ ih =>
    rw [List.append_assoc, List.cons_append]
    exact .function form ih
  | global form _ ih =>
    rw [List.append_assoc, List.cons_append]
    exact .global form ih

/-- Definitions of one sort that are printed one after the other are read one after the other. -/
theorem items_of_words {α : Type} {words : α → List Word} {item : α → Item} {bare : α → α}
    {definitions : List α}
    (each : ∀ definition ∈ definitions, ∀ tokens, Spells tokens (words definition) →
      ∃ found, ItemsForm tokens [item found] ∧ bare found = bare definition)
    (spells : Spells tokens (definitions.flatMap words)) :
    ∃ found : List α, ItemsForm tokens (found.map item) ∧ found.map bare = definitions.map bare := by
  induction definitions generalizing tokens with
  | nil =>
    rw [spells.nil]
    exact ⟨[], .nil, rfl⟩
  | cons definition definitions ih =>
    rw [List.flatMap_cons] at spells
    obtain ⟨before, behind, rfl, spelled, spelledRest⟩ := spells.append
    obtain ⟨found, form, same⟩ := each definition List.mem_cons_self before spelled
    obtain ⟨rest, forms, sames⟩ :=
      ih (fun other member => each other (List.mem_cons_of_mem definition member)) spelledRest
    refine ⟨found :: rest, form.append forms, ?_⟩
    rw [List.map_cons, same, sames]
    rfl

theorem function_of_words {definition : Function} (printable : definition.Printable)
    (spells : Spells tokens definition.words) :
    ∃ found, ItemsForm tokens [.function found] ∧ found.bare = definition.bare := by
  obtain ⟨found, form, same⟩ := Function.form_of_words printable spells
  exact ⟨found, List.append_nil tokens ▸ .function form .nil, same⟩

theorem global_of_words {binding : Binding} (printable : binding.Printable)
    (spells : Spells tokens binding.wordsOfLet) :
    ∃ found, ItemsForm tokens [.global found] ∧ found.bare = binding.bare := by
  obtain ⟨found, form, same⟩ := Binding.form_of_let printable spells
  exact ⟨found, List.append_nil tokens ▸ .global form .nil, same⟩

/-- Globals, functions and last the entry function make up a program. -/
theorem extends_empty {globals : List Binding} {functions : List Function} {main : Option Function}
    (plain : ∀ function ∈ functions, isEntry function = false)
    (entry : ∀ function ∈ main, isEntry function = true ∧ function.params = []) :
    Extends .empty (globals.map .global ++ (functions.map .function ++ main.toList.map .function))
      ⟨functions, globals, main⟩ := by
  have found : (globals.map Item.global ++ (functions.map Item.function ++
      main.toList.map Item.function)).filterMap Item.function? = functions ++ main.toList := by
    simp [List.filterMap_append, List.filterMap_map, Function.comp_def, Item.function?]
  have bindings : (globals.map Item.global ++ (functions.map Item.function ++
      main.toList.map Item.function)).filterMap Item.global? = globals := by
    simp [List.filterMap_append, List.filterMap_map, Function.comp_def, Item.global?]
  have functionsPlain : functions.filter isEntry = [] :=
    List.filter_eq_nil_iff.mpr fun function member => by simp [plain function member]
  have functionsKept : functions.filter (fun function => !isEntry function) = functions :=
    List.filter_eq_self.mpr fun function member => by simp [plain function member]
  have mainKept : main.toList.filter isEntry = main.toList :=
    List.filter_eq_self.mpr fun function member => (entry function (Option.mem_toList.mp member)).1
  have mainApart : main.toList.filter (fun function => !isEntry function) = [] :=
    List.filter_eq_nil_iff.mpr fun function member => by
      simp [(entry function (Option.mem_toList.mp member)).1]
  constructor
  · rw [found, List.filter_append, functionsKept, mainApart, List.append_nil]
    rfl
  · rw [bindings]
    rfl
  · rw [found, List.filter_append, functionsPlain, mainKept]
    rfl
  · rw [found]
    intro function member isEntry
    rcases List.mem_append.mp member with member | member
    · rw [plain function member] at isEntry
      cases isEntry
    · exact (entry function (Option.mem_toList.mp member)).2

end Grammar

/-- The tokens of the words of a program have the form of a program that is the same but for where
things stand. -/
theorem Program.form_of_words {program : Program} {tokens : List Token} (printable : program.Printable)
    (spells : Spells tokens program.words) :
    ∃ found, ProgramForm tokens found ∧ found.bare = program.bare := by
  obtain ⟨first, behind, rfl, spelledGlobals, others⟩ := spells.append
  obtain ⟨middle, last, rfl, spelledFunctions, spelledMain⟩ := others.append
  obtain ⟨globals, formGlobals, sameGlobals⟩ :=
    items_of_words (fun binding member _ => global_of_words (printable.globals binding member))
      spelledGlobals
  obtain ⟨functions, formFunctions, sameFunctions⟩ :=
    items_of_words (fun function member _ => function_of_words (printable.functions function member).1)
      spelledFunctions
  obtain ⟨main, formMain, sameMain⟩ :
      ∃ main : Option Function, ItemsForm last (main.toList.map .function) ∧
        main.map Function.bare = program.main.map Function.bare := by
    cases present : program.main with
    | none =>
      rw [present] at spelledMain
      rw [spelledMain.nil]
      exact ⟨none, .nil, rfl⟩
    | some function =>
      rw [present] at spelledMain
      obtain ⟨found, form, same⟩ := function_of_words (printable.main function present).1
        (by simpa using spelledMain)
      exact ⟨some found, form, congrArg some same⟩
  have plain : ∀ function ∈ functions, isEntry function = false := by
    intro function member
    obtain ⟨original, listed, same⟩ :=
      List.mem_map.mp (sameFunctions ▸ List.mem_map_of_mem member)
    rw [← Function.isEntry_of_bare same]
    exact decide_eq_false (printable.functions original listed).2
  have entry : ∀ function ∈ main, isEntry function = true ∧ function.params = [] := by
    intro function member
    obtain rfl : main = some function := member
    obtain ⟨original, present, same⟩ := Option.map_eq_some_iff.mp sameMain.symm
    obtain ⟨_, named, none⟩ := printable.main original present
    rw [Function.isEntry_of_bare same.symm]
    exact ⟨decide_eq_true named, Function.params_of_bare same.symm none⟩
  refine ⟨⟨functions, globals, main⟩, ?_, ?_⟩
  · exact ⟨_, formGlobals.append (formFunctions.append formMain), extends_empty plain entry⟩
  · rw [Program.bare, sameFunctions, sameGlobals, sameMain]
    rfl

/-- The tokens of words hold no end of the file. -/
theorem takeWhile_words {tokens : List Token} {eof : Token} {words : List Word}
    (legal : AllLegal words) (spells : Spells tokens words) (ends : eof.kind = .endOfFile) :
    (tokens ++ [eof]).takeWhile (fun token => token.kind ≠ .endOfFile) = tokens := by
  have solid : ∀ token ∈ tokens, decide (token.kind ≠ .endOfFile) = true := by
    intro token member
    obtain ⟨word, listed, same⟩ := List.mem_map.mp (spells ▸ List.mem_map_of_mem member)
    have kind : word.kind = token.kind := congrArg Prod.fst same
    rw [← kind]
    exact decide_eq_true (legal word listed).kind_ne
  rw [List.takeWhile_append_of_pos solid, List.takeWhile_cons_of_neg (by simp [ends]),
    List.append_nil]

/-- The source text of a program holds no lexical fault, and it is read as the same program. -/
theorem parse_source (program : Program) (printable : program.Printable) :
    (scan program.source).errors = [] ∧
    ∃ found, parse (scan program.source).tokens = .ok found ∧ found.bare = program.bare := by
  have legal := Program.words_legal printable
  obtain ⟨noErrors, tokens, eof, scanned, ends, spells⟩ := scan_layout legal
  obtain ⟨found, form, same⟩ := Program.form_of_words printable spells
  refine ⟨noErrors, found, ?_, same⟩
  rw [Program.source, scanned, parse_eq_ok, takeWhile_words legal spells ends]
  exact form

section

private def named (name : String) : Ident := ⟨name, default⟩

private def number (value : Int32) : Expr := .int value default

/-- A program with a group on the right of an operator, with `else if` and with a loop that is left. -/
def bisection : Program where
  globals := [⟨named "limit", .binary (.arith .sub) (number 9)
    (.binary (.arith .sub) (number 4) (number 1))⟩]
  functions := [{
    name := named "half"
    params := [named "n"]
    body := [
      .if (.binary (.compare .eq) (.var (named "n")) (number 0)) [.return (number 0)]
        (.elseIf (.binary (.compare .eq) (.var (named "n")) (number 1)) [.return (number 0)] .none),
      .return (.binary (.arith .div) (.var (named "n")) (number 2))]
    span := default }]
  main := some {
    name := named "main"
    params := []
    body := [
      .while (.var (named "limit")) [
        .assign ⟨named "limit", .call (named "half") [.var (named "limit")] default⟩,
        .break default]]
    span := default }

theorem bisection_printable : bisection.Printable where
  globals := by
    simp only [bisection, List.forall_mem_singleton, Binding.Printable, Expr.Printable, number]
    decide
  functions := by
    simp only [bisection, List.forall_mem_singleton]
    refine ⟨⟨by decide, by decide, ?_⟩, by decide⟩
    simp only [Stmt.AllPrintable, Stmt.Printable, Tail.Printable, Expr.Printable, number]
    decide
  main := by
    rintro function ⟨⟩
    refine ⟨⟨by decide, by decide, ?_⟩, by decide, rfl⟩
    simp only [Stmt.AllPrintable, Stmt.Printable, Binding.Printable, Expr.Printable,
      Expr.AllPrintable]
    decide

theorem parse_source_bisection : (scan bisection.source).errors = [] ∧
    ∃ found, parse (scan bisection.source).tokens = .ok found ∧ found.bare = bisection.bare :=
  parse_source bisection bisection_printable

end

end OliCompiler
