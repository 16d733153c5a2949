import OliCompiler.Parse.Program
import OliCompiler.Proofs.Grammar.Cursors
import OliCompiler.Proofs.Printing.Source

/-!
Where tokens stand does not matter to readers: with nothing known of the places of tokens, a reader
gives the same tree or the same fault, with nothing known of its places.
-/

namespace OliCompiler

/-- The token with nothing known of where it stands. -/
def Token.bare (token : Token) : Token := ⟨token.kind, token.value, default, default⟩

@[simp]
theorem Token.bare_kind (token : Token) : token.bare.kind = token.kind := rfl

/-- The fault with nothing known of where it stands. -/
def ParseError.bare (error : ParseError) : ParseError := ⟨error.cause, default, default⟩

namespace Cursor

def bare (cursor : Cursor) : Cursor :=
  ⟨cursor.passed.map Token.bare, cursor.ahead.map Token.bare, cursor.eof.bare⟩

variable (cursor : Cursor)

theorem current_bare : cursor.bare.current = cursor.current.bare := by
  obtain ⟨passed, ahead, eof⟩ := cursor
  cases ahead <;> rfl

theorem following_bare : cursor.bare.following = cursor.following.bare := by
  obtain ⟨passed, ahead, eof⟩ := cursor
  rcases ahead with _ | ⟨first, _ | ⟨second, ahead⟩⟩ <;> rfl

theorem advance_bare : cursor.bare.advance = cursor.advance.bare := by
  obtain ⟨passed, ahead, eof⟩ := cursor
  cases ahead <;> rfl

theorem length_ahead_bare : cursor.bare.ahead.length = cursor.ahead.length :=
  List.length_map Token.bare

/-- Without places every token stands on the same line. -/
theorem lineOf_bare (span : Span) : cursor.bare.lineOf span = default := by
  unfold lineOf
  split
  · rename_i token found
    have member : token ∈ cursor.passed.map Token.bare :=
      List.mem_reverse.mp (List.mem_of_find?_eq_some found)
    obtain ⟨_, _, rfl⟩ := List.mem_map.mp member
    rfl
  · rw [current_bare]
    rfl

end Cursor

namespace Parser

/-- Whether a reader does without places what another one does with them. -/
def Mirrors {α : Type} (bare : α → α) (reader reader' : Parser α) : Prop :=
  ∀ cursor, reader' cursor.bare = match reader cursor with
    | .ok value behind => .ok (bare value) behind.bare
    | .error error behind => .error error.bare behind.bare

section

variable {α β : Type} {bare : α → α} {bare' : β → β} {reader reader' : Parser α}

theorem Mirrors.bind {next next' : α → Parser β} (first : Mirrors bare reader reader')
    (rest : ∀ value, Mirrors bare' (next value) (next' (bare value))) :
    Mirrors bare' (reader >>= next) (reader' >>= next') := by
  intro cursor
  have one := first cursor
  cases given : reader cursor with
  | ok value behind =>
    rw [given] at one
    rw [bind_eq given, bind_eq one]
    exact rest value behind
  | error error behind =>
    rw [given] at one
    simp only [Bind.bind, EStateM.bind, given, one]

theorem pure_mirrors (value : α) : Mirrors bare (pure value) (pure (bare value)) := fun _ => rfl

theorem fail_mirrors (cause : ParseError.Cause) (token : Token) :
    Mirrors bare (fail cause token) (fail cause token.bare) := fun _ => rfl

theorem get_mirrors : Mirrors Cursor.bare (get : Parser Cursor) get := fun _ => rfl

theorem peek_mirrors : Mirrors Token.bare peek peek :=
  get_mirrors.bind fun cursor => cursor.current_bare ▸ pure_mirrors cursor.current

theorem peekFollowing_mirrors : Mirrors Token.bare peekFollowing peekFollowing :=
  get_mirrors.bind fun cursor => cursor.following_bare ▸ pure_mirrors cursor.following

theorem advance_mirrors : Mirrors Token.bare advance advance := by
  intro cursor
  have passed : advance cursor.bare = .ok cursor.bare.current cursor.bare.advance := rfl
  rw [passed, cursor.current_bare, cursor.advance_bare]
  rfl

theorem unexpected_mirrors (expected : ParseError.Expectation) :
    Mirrors bare (unexpected expected) (unexpected expected) :=
  peek_mirrors.bind fun token => fail_mirrors (.unexpected expected token.kind) token

theorem check_mirrors (kind : Token.Kind) : Mirrors id (check kind) (check kind) :=
  peek_mirrors.bind fun _ => pure_mirrors _

end

theorem expect_mirrors (kind : Token.Kind) : Mirrors Token.bare (expect kind) (expect kind) := by
  refine (check_mirrors kind).bind fun ahead => ?_
  cases ahead with
  | true => exact advance_mirrors
  | false => exact unexpected_mirrors _

theorem consume_mirrors (kind : Token.Kind) : Mirrors id (consume kind) (consume kind) := by
  refine (check_mirrors kind).bind fun ahead => ?_
  cases ahead with
  | true => exact advance_mirrors.bind fun _ => pure_mirrors true
  | false => exact pure_mirrors false

theorem ident_mirrors : Mirrors Ident.bare ident ident := by
  refine (check_mirrors .identifier).bind fun ahead => ?_
  cases ahead with
  | true => exact advance_mirrors.bind fun token => pure_mirrors (Ident.mk token.text token.span)
  | false => exact unexpected_mirrors _

theorem declaredName_mirrors (role : ParseError.Role) :
    Mirrors Ident.bare (declaredName role) (declaredName role) := by
  refine peek_mirrors.bind fun token => ?_
  rw [Token.bare_kind]
  cases token.kind with
  | keyword word => exact fail_mirrors (.reservedName word role) token
  | _ => exact ident_mirrors

theorem integer_mirrors : Mirrors Expr.bare integer integer := by
  refine advance_mirrors.bind fun token => ?_
  have text : token.bare.text = token.text := rfl
  rw [text]
  cases Decimal.int32? token.text.toList with
  | none => exact fail_mirrors (.invalidInteger token.text) token
  | some value => exact pure_mirrors (Expr.int value token.span)

mutual

theorem exprWithin_mirrors : ∀ budget least : Nat,
    Mirrors Expr.bare (exprWithin least budget) (exprWithin least budget)
  | 0, _ => unexpected_mirrors .expression
  | budget + 1, least =>
    (operandWithin_mirrors budget).bind fun left => climbWithin_mirrors budget least left

theorem climbWithin_mirrors : ∀ (budget least : Nat) (left : Expr),
    Mirrors Expr.bare (climbWithin least left budget) (climbWithin least left.bare budget)
  | 0, _, left => pure_mirrors left
  | budget + 1, least, left => by
    refine peek_mirrors.bind fun token => ?_
    rw [Token.bare_kind]
    cases token.kind.operator? with
    | none => exact pure_mirrors left
    | some op =>
      by_cases loose : op.precedence < least
      · simp only [if_pos loose]
        exact pure_mirrors left
      · simp only [if_neg loose]
        refine advance_mirrors.bind fun _ => ?_
        refine (exprWithin_mirrors budget op.rightPrecedence).bind fun right => ?_
        exact climbWithin_mirrors budget least (.binary op left right)

theorem operandWithin_mirrors : ∀ budget : Nat,
    Mirrors Expr.bare (operandWithin budget) (operandWithin budget)
  | 0 => unexpected_mirrors .expression
  | budget + 1 => by
    refine peek_mirrors.bind fun token => ?_
    rw [Token.bare_kind]
    cases token.kind with
    | openParen =>
      refine advance_mirrors.bind fun _ => (exprWithin_mirrors budget 0).bind fun value => ?_
      exact (expect_mirrors .closeParen).bind fun _ => pure_mirrors value
    | integer => exact integer_mirrors
    | identifier =>
      refine ident_mirrors.bind fun name => (consume_mirrors .openParen).bind fun call => ?_
      cases call with
      | true =>
        refine (argumentsWithin_mirrors budget).bind fun args => ?_
        refine (expect_mirrors .closeParen).bind fun close => ?_
        exact pure_mirrors (Expr.call name args (name.span.merge close.span))
      | false => exact pure_mirrors (Expr.var name)
    | _ => exact unexpected_mirrors .expression

theorem argumentsWithin_mirrors : ∀ budget : Nat,
    Mirrors Expr.bareAll (argumentsWithin budget) (argumentsWithin budget)
  | 0 => unexpected_mirrors .expression
  | budget + 1 => by
    refine (check_mirrors .closeParen).bind fun closes => ?_
    cases closes with
    | true => exact pure_mirrors []
    | false =>
      refine (exprWithin_mirrors budget 0).bind fun arg => (consume_mirrors .comma).bind fun more => ?_
      cases more with
      | true =>
        exact (argumentsWithin_mirrors budget).bind fun args => pure_mirrors (arg :: args)
      | false =>
        refine (check_mirrors .closeParen).bind fun closes => ?_
        cases closes with
        | true => exact pure_mirrors [arg]
        | false => exact unexpected_mirrors .commaOrClose

end

theorem expr_mirrors : Mirrors Expr.bare expr expr := by
  refine get_mirrors.bind fun cursor => ?_
  have budget : exprBudget cursor.bare = exprBudget cursor := by
    rw [exprBudget, exprBudget, cursor.length_ahead_bare]
  rw [budget]
  exact exprWithin_mirrors (exprBudget cursor) 0

theorem declaration_mirrors : Mirrors Binding.bare declaration declaration :=
  (declaredName_mirrors .variable).bind fun name => (expect_mirrors .assign).bind fun _ =>
    expr_mirrors.bind fun value => pure_mirrors (Binding.mk name value)

theorem assignment_mirrors : Mirrors Binding.bare assignment assignment :=
  ident_mirrors.bind fun name => (expect_mirrors .assign).bind fun _ =>
    expr_mirrors.bind fun value => pure_mirrors (Binding.mk name value)

theorem letDeclaration_mirrors : Mirrors Binding.bare letDeclaration letDeclaration :=
  (expect_mirrors (.keyword .let)).bind fun _ => declaration_mirrors.bind fun binding =>
    (expect_mirrors .semicolon).bind fun _ => pure_mirrors binding

theorem braced_mirrors {α : Type} {bare : α → α} {content : Parser α}
    (inside : Mirrors bare content content) :
    Mirrors (Prod.map bare fun _ => default) (braced content) (braced content) :=
  (expect_mirrors .openBrace).bind fun _ => inside.bind fun value =>
    (expect_mirrors .closeBrace).bind fun close => pure_mirrors (value, close.span)

theorem jump_mirrors (word : Keyword) (inLoop : Bool) {stmt : Span → Stmt}
    (same : ∀ span, (stmt span).bare = stmt default) :
    Mirrors Stmt.bare (jump word inLoop stmt) (jump word inLoop stmt) := by
  refine advance_mirrors.bind fun token => ?_
  cases inLoop with
  | true =>
    refine (expect_mirrors .semicolon).bind fun _ => ?_
    have placed : Mirrors Stmt.bare _ _ := pure_mirrors (stmt token.span)
    rwa [same] at placed
  | false => exact fail_mirrors (.outsideLoop word) token

theorem exprThen_mirrors {stmt : Expr → Stmt} (same : ∀ value, (stmt value).bare = stmt value.bare) :
    Mirrors Stmt.bare (exprThen stmt) (exprThen stmt) := by
  refine expr_mirrors.bind fun value => (expect_mirrors .semicolon).bind fun _ => ?_
  rw [← same]
  exact pure_mirrors (stmt value)

mutual

theorem stmtWithin_mirrors : ∀ (budget : Nat) (inLoop : Bool),
    Mirrors Stmt.bare (stmtWithin inLoop budget) (stmtWithin inLoop budget)
  | 0, _ => unexpected_mirrors .expression
  | budget + 1, inLoop => by
    refine peek_mirrors.bind fun token => ?_
    rw [Token.bare_kind]
    cases token.kind with
    | keyword word =>
      cases word with
      | «if» =>
        refine advance_mirrors.bind fun _ => expr_mirrors.bind fun condition => ?_
        refine (braced_mirrors (stmtsWithin_mirrors budget inLoop)).bind fun (body, _) => ?_
        refine (tailWithin_mirrors budget inLoop).bind fun tail => ?_
        exact pure_mirrors (Stmt.if condition body tail)
      | «return» => exact advance_mirrors.bind fun _ => exprThen_mirrors fun _ => rfl
      | «let» => exact letDeclaration_mirrors.bind fun binding => pure_mirrors (Stmt.declare binding)
      | «for» =>
        refine advance_mirrors.bind fun _ => (expect_mirrors .openParen).bind fun _ => ?_
        refine (consume_mirrors (.keyword .let)).bind fun _ => declaration_mirrors.bind fun init => ?_
        refine (expect_mirrors .semicolon).bind fun _ => expr_mirrors.bind fun condition => ?_
        refine (expect_mirrors .semicolon).bind fun _ => assignment_mirrors.bind fun update => ?_
        refine (expect_mirrors .closeParen).bind fun _ => ?_
        refine (braced_mirrors (stmtsWithin_mirrors budget true)).bind fun (body, _) => ?_
        exact pure_mirrors (Stmt.for init condition update body)
      | «while» =>
        refine advance_mirrors.bind fun _ => (expect_mirrors .openParen).bind fun _ => ?_
        refine expr_mirrors.bind fun condition => (expect_mirrors .closeParen).bind fun _ => ?_
        refine (braced_mirrors (stmtsWithin_mirrors budget true)).bind fun (body, _) => ?_
        exact pure_mirrors (Stmt.while condition body)
      | «break» => exact jump_mirrors .break inLoop fun _ => rfl
      | «continue» => exact jump_mirrors .continue inLoop fun _ => rfl
      | «else» | fn => exact exprThen_mirrors fun _ => rfl
    | identifier =>
      refine peekFollowing_mirrors.bind fun next => ?_
      rw [Token.bare_kind]
      by_cases assigns : next.kind = .assign
      · simp only [if_pos assigns]
        refine assignment_mirrors.bind fun binding => (expect_mirrors .semicolon).bind fun _ => ?_
        exact pure_mirrors (Stmt.assign binding)
      · simp only [if_neg assigns]
        exact exprThen_mirrors fun _ => rfl
    | _ => exact exprThen_mirrors fun _ => rfl

theorem stmtsWithin_mirrors : ∀ (budget : Nat) (inLoop : Bool),
    Mirrors Stmt.bareAll (stmtsWithin inLoop budget) (stmtsWithin inLoop budget)
  | 0, _ => pure_mirrors []
  | budget + 1, inLoop => by
    -- All kinds but two begin a statement; its reading is mirrored once for them all.
    have another : Mirrors Stmt.bareAll
        (do return (← stmtWithin inLoop budget) :: (← stmtsWithin inLoop budget))
        (do return (← stmtWithin inLoop budget) :: (← stmtsWithin inLoop budget)) :=
      (stmtWithin_mirrors budget inLoop).bind fun stmt =>
        (stmtsWithin_mirrors budget inLoop).bind fun stmts => pure_mirrors (stmt :: stmts)
    refine peek_mirrors.bind fun token => ?_
    rw [Token.bare_kind]
    cases token.kind with
    | closeBrace | endOfFile => exact pure_mirrors []
    | _ => exact another

theorem tailWithin_mirrors : ∀ (budget : Nat) (inLoop : Bool),
    Mirrors Tail.bare (tailWithin inLoop budget) (tailWithin inLoop budget)
  | 0, _ => pure_mirrors Tail.none
  | budget + 1, inLoop => by
    refine (consume_mirrors (.keyword .else)).bind fun follows => ?_
    cases follows with
    | true =>
      refine (consume_mirrors (.keyword .if)).bind fun tests => ?_
      cases tests with
      | true =>
        refine expr_mirrors.bind fun condition => ?_
        refine (braced_mirrors (stmtsWithin_mirrors budget inLoop)).bind fun (body, _) => ?_
        refine (tailWithin_mirrors budget inLoop).bind fun tail => ?_
        exact pure_mirrors (Tail.elseIf condition body tail)
      | false =>
        refine (braced_mirrors (stmtsWithin_mirrors budget inLoop)).bind fun (body, _) => ?_
        exact pure_mirrors (Tail.else body)
    | false => exact pure_mirrors Tail.none

end

theorem block_mirrors (inLoop : Bool) :
    Mirrors (Prod.map Stmt.bareAll fun _ => default) (block inLoop) (block inLoop) := by
  refine get_mirrors.bind fun cursor => ?_
  rw [cursor.length_ahead_bare]
  exact braced_mirrors (stmtsWithin_mirrors _ inLoop)

theorem paramsWithin_mirrors : ∀ budget : Nat,
    Mirrors (List.map Ident.bare) (paramsWithin budget) (paramsWithin budget)
  | 0 => unexpected_mirrors .identifier
  | budget + 1 => by
    refine (check_mirrors .closeParen).bind fun closes => ?_
    cases closes with
    | true => exact pure_mirrors []
    | false =>
      refine (declaredName_mirrors .parameter).bind fun name => ?_
      refine (consume_mirrors .comma).bind fun more => ?_
      cases more with
      | true => exact (paramsWithin_mirrors budget).bind fun names => pure_mirrors (name :: names)
      | false => exact pure_mirrors [name]

theorem params_mirrors : Mirrors (List.map Ident.bare) params params := by
  refine (expect_mirrors .openParen).bind fun _ => get_mirrors.bind fun cursor => ?_
  rw [cursor.length_ahead_bare]
  exact (paramsWithin_mirrors _).bind fun names => (expect_mirrors .closeParen).bind fun _ =>
    pure_mirrors names

theorem function_mirrors : Mirrors Function.bare function function :=
  (expect_mirrors (.keyword .fn)).bind fun start => (declaredName_mirrors .function).bind fun name =>
    params_mirrors.bind fun params => (block_mirrors false).bind fun (body, close) =>
      pure_mirrors (Function.mk name params body (start.span.merge close))

theorem addFunction_mirrors (program : Program) (function : Function) :
    Mirrors Program.bare (addFunction program function) (addFunction program.bare function.bare) := by
  have head : function.bare.params.head? = function.params.head?.map Ident.bare := List.head?_map
  have last : function.bare.params.getLast? = function.params.getLast?.map Ident.bare :=
    List.getLast?_map
  have name : function.bare.name.name = function.name.name := rfl
  unfold addFunction
  rw [name]
  by_cases entry : function.name.name = "main"
  · simp only [if_pos entry, head, last]
    refine get_mirrors.bind fun cursor => ?_
    -- A fault of `main` has the line of the first token passed that starts where the name does.
    rw [cursor.lineOf_bare]
    obtain ⟨functions, globals, main⟩ := program
    cases main with
    | some main => exact fun _ => rfl
    | none =>
      cases function.params.head? with
      | none => exact pure_mirrors (Program.mk functions globals (some function))
      | some first =>
        cases function.params.getLast? with
        | none => exact pure_mirrors (Program.mk functions globals (some function))
        | some last => exact fun _ => rfl
  · simp only [if_neg entry]
    have added : ({ program with functions := program.functions ++ [function] } : Program).bare =
        { program.bare with functions := program.bare.functions ++ [function.bare] } := by
      simp [Program.bare]
    rw [← added]
    exact pure_mirrors _

theorem itemsWithin_mirrors : ∀ (budget : Nat) (program : Program),
    Mirrors Program.bare (itemsWithin program budget) (itemsWithin program.bare budget)
  | 0, program => pure_mirrors program
  | budget + 1, program => by
    refine peek_mirrors.bind fun token => ?_
    rw [Token.bare_kind]
    cases token.kind with
    | endOfFile => exact pure_mirrors program
    | keyword word =>
      cases word with
      | fn =>
        exact function_mirrors.bind fun function => (addFunction_mirrors program function).bind
          fun program => itemsWithin_mirrors budget program
      | «let» =>
        refine letDeclaration_mirrors.bind fun binding => ?_
        have added : ({ program with globals := program.globals ++ [binding] } : Program).bare =
            { program.bare with globals := program.bare.globals ++ [binding.bare] } := by
          simp [Program.bare]
        rw [← added]
        exact itemsWithin_mirrors budget _
      | _ => exact fail_mirrors _ token
    | _ => exact fail_mirrors _ token

theorem program_mirrors : Mirrors Program.bare program program := by
  refine get_mirrors.bind fun cursor => ?_
  rw [cursor.length_ahead_bare]
  exact itemsWithin_mirrors _ .empty

end Parser

theorem Cursor.eofOf_bare (tokens : List Token) :
    (eofOf (tokens.map Token.bare)).bare = (eofOf tokens).bare := by
  have ends : ((fun token : Token => decide (token.kind = .endOfFile)) ∘ Token.bare) =
      fun token => decide (token.kind = .endOfFile) := rfl
  unfold eofOf
  rw [List.find?_map, List.getLast?_map, ends]
  cases tokens.find? fun token => token.kind = .endOfFile with
  | some token => rfl
  | none => cases tokens.getLast? <;> rfl

theorem Cursor.ofTokens_bare (tokens : List Token) :
    (ofTokens (tokens.map Token.bare)).bare = (ofTokens tokens).bare := by
  have ends : ((fun token : Token => decide (token.kind ≠ .endOfFile)) ∘ Token.bare) =
      fun token => decide (token.kind ≠ .endOfFile) := rfl
  have twice : Token.bare ∘ Token.bare = Token.bare := rfl
  unfold ofTokens bare
  rw [List.takeWhile_map, ends, List.map_map, twice, eofOf_bare]

/-- What a list of tokens is read as, with nothing known of places. -/
theorem parse_bare (tokens : List Token) :
    ((parse tokens).mapError ParseError.bare).map Program.bare =
      match Parser.program (Cursor.ofTokens tokens).bare with
      | .ok program _ => .ok program
      | .error error _ => .error error := by
  rw [Parser.program_mirrors, parse]
  cases Parser.program (Cursor.ofTokens tokens) <;> rfl

/-- Tokens that differ in their places only are read alike. -/
theorem parse_congr {tokens tokens' : List Token}
    (same : tokens.map Printing.content = tokens'.map Printing.content) :
    ((parse tokens).mapError ParseError.bare).map Program.bare =
      ((parse tokens').mapError ParseError.bare).map Program.bare := by
  have bare : Token.bare = (fun (kind, value) => ⟨kind, value, default, default⟩) ∘ Printing.content :=
    rfl
  have alike : tokens.map Token.bare = tokens'.map Token.bare := by
    rw [bare, ← List.map_map, ← List.map_map, same]
  rw [parse_bare, parse_bare, ← Cursor.ofTokens_bare tokens, alike, Cursor.ofTokens_bare]

end OliCompiler
