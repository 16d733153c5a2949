import OliCompiler.Proofs.Lookahead.Cursors

/-!
Readers of expressions and statements are local. A budget is taken from the number of all tokens ahead,
but one that is not spent does not show; and where a statement is told by its second token, its first is
passed before anything else.
-/

namespace OliCompiler

namespace Cursor

variable {cursor middle other : Cursor} {token : Token}

theorem Passes.following_eq (passes : Passes cursor [token] middle) : cursor.following = middle.current := by
  rw [Cursor.following, Cursor.current, passes.ahead, passes.eof]
  rfl

end Cursor

namespace Parser

open Cursor Grammar

variable {α β : Type} {reader : Parser α} {next : α → Parser β} {cursor middle behind : Cursor}
  {tokens : List Token} {outcome : Except ParseError α}

/-- Whether a local reader passes a token at least. -/
def Moves (reader : Parser α) (cursor : Cursor) : Prop :=
  ∃ outcome token tokens behind, Run reader cursor outcome (token :: tokens) behind

theorem Moves.local (moves : Moves reader cursor) : Local reader cursor := by
  obtain ⟨outcome, token, tokens, behind, run⟩ := moves
  exact ⟨outcome, token :: tokens, behind, run⟩

theorem Moves.bind (proper : cursor.Proper) (first : Moves reader cursor)
    (rest : ∀ value middle, middle.Proper → Local (next value) middle) :
    Moves (reader >>= next) cursor := by
  obtain ⟨outcome, token, tokens, middle, run⟩ := first
  cases outcome with
  | error error => exact ⟨.error error, token, tokens, middle, run.stop⟩
  | ok value =>
    obtain ⟨outcome, others, behind, runOn⟩ := rest value middle (run.passes.proper proper)
    exact ⟨outcome, token, tokens ++ others, behind, run.bind runOn⟩

theorem ident_moves (proper : cursor.Proper) (named : cursor.current.kind = .identifier) :
    Moves ident cursor := by
  obtain ⟨outcome, tokens, behind, run⟩ := ident_local proper
  have reads := (ident_ok proper).mpr ⟨_, proper.passes (by simp [named]), named, rfl⟩
  have same : ending outcome behind = ending (.ok _) cursor.advance := run.reads.symm.trans reads
  obtain ⟨rfl, rfl⟩ := ending_inj same
  obtain rfl := run.passes.unique (proper.passes (by simp [named]))
  exact ⟨_, _, _, _, run⟩

theorem peek_moves {next : Token → Parser β} (moves : Moves (next cursor.current) cursor) :
    Moves (peek >>= next) cursor := by
  obtain ⟨outcome, token, tokens, behind, run⟩ := moves
  refine ⟨outcome, token, tokens, behind, run.reads, run.passes, run.blames, fun other resumes => ?_⟩
  obtain ⟨behind', same, reads⟩ := run.again other resumes
  refine ⟨behind', same, ?_⟩
  rw [peek_bind, resumes.current, ← run.passes.current]
  exact reads

/-- To look at the second token is local if the first is passed in either case. -/
theorem peekFollowing_moves {next : Token → Parser β} (moves : Moves (next cursor.following) cursor) :
    Moves (peekFollowing >>= next) cursor := by
  obtain ⟨outcome, token, tokens, behind, run⟩ := moves
  obtain ⟨middle, one, rest⟩ := run.passes.cons
  refine ⟨outcome, token, tokens, behind, run.reads, run.passes, run.blames, fun other resumes => ?_⟩
  obtain ⟨behind', same, reads⟩ := run.again other resumes
  obtain ⟨middle', one', _⟩ := same.cons
  have near : [middle.current] <+: tokens ++ [behind.current] := rest.begins_current
  have resumes : Resumes cursor ([token] ++ [middle.current]) other :=
    resumes.shorten ((List.prefix_append_right_inj [token]).mpr near)
  have seen : other.following = cursor.following := by
    rw [one.following_eq, one'.following_eq, resumes.current_behind one one']
  refine ⟨behind', same, ?_⟩
  rw [peekFollowing_bind, seen]
  exact reads

/-- Taking a sufficient budget from the tokens ahead is local if the reader is within every budget. -/
theorem Run.budgeted {reader : Nat → Parser α} {needs : Cursor → Nat}
    (enough : ∀ {cursor : Cursor} {budget : Nat}, cursor.Proper → needs cursor ≤ budget →
      reader budget cursor = reader (needs cursor) cursor) (proper : cursor.Proper)
    (within : ∀ budget, Local (reader budget) cursor)
    (run : Run (reader (needs cursor)) cursor outcome tokens behind) :
    Run (do reader (needs (← get))) cursor outcome tokens behind where
  reads := run.reads
  passes := run.passes
  blames := run.blames
  again := by
    intro other resumes
    -- The other cursor may have more or fewer tokens ahead, so both are compared within one budget.
    obtain ⟨outcome', tokens', behind', run'⟩ := within (max (needs cursor) (needs other))
    have reads := run'.reads
    rw [enough proper (Nat.le_max_left _ _), run.reads] at reads
    obtain ⟨rfl, rfl⟩ := ending_inj reads
    obtain rfl := run.passes.unique run'.passes
    obtain ⟨behind', same, reads⟩ := run'.again other resumes
    rw [enough resumes.proper (Nat.le_max_right _ _)] at reads
    exact ⟨behind', same, reads⟩

theorem Local.budgeted {reader : Nat → Parser α} {needs : Cursor → Nat}
    (enough : ∀ {cursor : Cursor} {budget : Nat}, cursor.Proper → needs cursor ≤ budget →
      reader budget cursor = reader (needs cursor) cursor) (proper : cursor.Proper)
    (within : ∀ budget, Local (reader budget) cursor) : Local (do reader (needs (← get))) cursor := by
  obtain ⟨outcome, tokens, behind, run⟩ := within (needs cursor)
  exact ⟨outcome, tokens, behind, run.budgeted enough proper within⟩

/-- What is read behind a name: nothing, or the arguments of a call. -/
theorem named_local {arguments : Parser (List Expr)} (name : Ident)
    (inside : ∀ {cursor : Cursor}, cursor.Proper → Local arguments cursor) (proper : cursor.Proper) :
    Local (do
      if ← consume .openParen then
        let args ← arguments
        let close ← expect .closeParen
        return .call name args (name.span.merge close.span)
      else
        return .var name : Parser Expr) cursor := by
  refine (consume_local .openParen proper).bind proper fun called _ proper _ => ?_
  cases called with
  | true =>
    refine (inside proper).bind proper fun args _ proper _ => ?_
    exact (expect_local .closeParen proper).bind proper fun close _ _ _ => pure_local _
  | false => exact pure_local _

mutual

theorem exprWithin_local : ∀ (budget least : Nat) {cursor : Cursor}, cursor.Proper →
    Local (exprWithin least budget) cursor
  | 0, _, _, proper => unexpected_local .expression proper
  | budget + 1, least, _, proper =>
    (operandWithin_local budget proper).bind proper fun left _ proper _ =>
      climbWithin_local budget least left proper

theorem climbWithin_local : ∀ (budget least : Nat) (left : Expr) {cursor : Cursor}, cursor.Proper →
    Local (climbWithin least left budget) cursor
  | 0, _, left, _, _ => pure_local left
  | budget + 1, least, left, cursor, proper => by
    refine peek_local proper ?_
    cases cursor.current.kind.operator? with
    | none => exact pure_local left
    | some op =>
      by_cases loose : op.precedence < least
      · simp only [if_pos loose]
        exact pure_local left
      · simp only [if_neg loose]
        refine (advance_local proper).bind proper fun _ _ proper _ => ?_
        refine (exprWithin_local budget op.rightPrecedence proper).bind proper fun right _ proper _ => ?_
        exact climbWithin_local budget least (.binary op left right) proper

theorem operandWithin_local : ∀ (budget : Nat) {cursor : Cursor}, cursor.Proper →
    Local (operandWithin budget) cursor
  | 0, _, proper => unexpected_local .expression proper
  | budget + 1, cursor, proper => by
    refine peek_local proper ?_
    cases cursor.current.kind with
    | openParen =>
      refine (advance_local proper).bind proper fun _ _ proper _ => ?_
      refine (exprWithin_local budget 0 proper).bind proper fun value _ proper _ => ?_
      exact (expect_local .closeParen proper).bind proper fun _ _ _ _ => pure_local value
    | integer => exact integer_local proper
    | identifier =>
      exact (ident_local proper).bind proper fun name _ proper _ =>
        named_local name (argumentsWithin_local budget) proper
    | _ => exact unexpected_local .expression proper

theorem argumentsWithin_local : ∀ (budget : Nat) {cursor : Cursor}, cursor.Proper →
    Local (argumentsWithin budget) cursor
  | 0, _, proper => unexpected_local .expression proper
  | budget + 1, cursor, proper => by
    refine check_local proper (pure_local []) ?_
    refine (exprWithin_local budget 0 proper).bind proper fun arg _ proper _ => ?_
    refine (consume_local .comma proper).bind proper fun more _ proper _ => ?_
    cases more with
    | true =>
      exact (argumentsWithin_local budget proper).bind proper fun args _ _ _ => pure_local (arg :: args)
    | false => exact check_local proper (pure_local [arg]) (unexpected_local .commaOrClose proper)

end

/-- The tokens ahead are enough of a budget for an expression: more do not change what is read. -/
theorem exprWithin_enough {budget : Nat} (proper : cursor.Proper) (enough : exprBudget cursor ≤ budget) :
    exprWithin 0 budget cursor = exprWithin 0 (exprBudget cursor) cursor := by
  rw [Layered.expr_agrees proper (Nat.lt_succ_self _) enough,
    Layered.expr_agrees proper (Nat.lt_succ_self _) (Nat.le_refl (exprBudget cursor))]

variable (proper : cursor.Proper)

include proper

theorem expr_local : Local expr cursor :=
  .budgeted exprWithin_enough proper fun budget => exprWithin_local budget 0 proper

theorem expr_moves (named : cursor.current.kind = .identifier) : Moves expr cursor := by
  have operand (budget : Nat) : Moves (operandWithin (budget + 1)) cursor := by
    refine peek_moves ?_
    simp only [named]
    exact (ident_moves proper named).bind proper fun name _ proper =>
      named_local name (argumentsWithin_local budget) proper
  have within : Moves (exprWithin 0 (exprBudget cursor)) cursor :=
    (operand _).bind proper fun left _ proper => climbWithin_local _ 0 left proper
  obtain ⟨outcome, token, tokens, behind, run⟩ := within
  exact ⟨outcome, token, tokens, behind,
    run.budgeted exprWithin_enough proper fun budget => exprWithin_local budget 0 proper⟩

theorem declaration_local : Local declaration cursor :=
  (declaredName_local .variable proper).bind proper fun _ _ proper _ =>
    (expect_local .assign proper).bind proper fun _ _ proper _ =>
      (expr_local proper).bind proper fun _ _ _ _ => pure_local _

theorem assignment_local : Local assignment cursor :=
  (ident_local proper).bind proper fun _ _ proper _ =>
    (expect_local .assign proper).bind proper fun _ _ proper _ =>
      (expr_local proper).bind proper fun _ _ _ _ => pure_local _

theorem assignment_moves (named : cursor.current.kind = .identifier) : Moves assignment cursor :=
  (ident_moves proper named).bind proper fun _ _ proper =>
    (expect_local .assign proper).bind proper fun _ _ proper _ =>
      (expr_local proper).bind proper fun _ _ _ _ => pure_local _

theorem letDeclaration_local : Local letDeclaration cursor :=
  (expect_local (.keyword .let) proper).bind proper fun _ _ proper _ =>
    (declaration_local proper).bind proper fun binding _ proper _ =>
      (expect_local .semicolon proper).bind proper fun _ _ _ _ => pure_local binding

theorem braced_local {content : Parser α}
    (inside : ∀ {cursor : Cursor}, cursor.Proper → Local content cursor) : Local (braced content) cursor :=
  (expect_local .openBrace proper).bind proper fun _ _ proper _ =>
    (inside proper).bind proper fun _ _ proper _ =>
      (expect_local .closeBrace proper).bind proper fun _ _ _ _ => pure_local _

theorem jump_local (word : Keyword) (inLoop : Bool) (stmt : Span → Stmt) :
    Local (jump word inLoop stmt) cursor := by
  refine advance_then_local proper fun middle proper member => ?_
  cases inLoop with
  | true => exact (expect_local .semicolon proper).bind proper fun _ _ _ _ => pure_local _
  | false => exact fail_local member (by simp)

theorem exprThen_local (stmt : Expr → Stmt) : Local (exprThen stmt) cursor :=
  (expr_local proper).bind proper fun value _ proper _ =>
    (expect_local .semicolon proper).bind proper fun _ _ _ _ => pure_local (stmt value)

theorem exprThen_moves (stmt : Expr → Stmt) (named : cursor.current.kind = .identifier) :
    Moves (exprThen stmt) cursor :=
  (expr_moves proper named).bind proper fun value _ proper =>
    (expect_local .semicolon proper).bind proper fun _ _ _ _ => pure_local (stmt value)

/-- What begins with an identifier is told by the sign behind it. -/
theorem identified_moves (named : cursor.current.kind = .identifier) :
    Moves (do
      if (← peekFollowing).kind = .assign then
        let binding ← assignment
        let _ ← expect .semicolon
        return .assign binding
      else
        exprThen .expr) cursor := by
  refine peekFollowing_moves ?_
  by_cases assigns : cursor.following.kind = .assign
  · rw [if_pos assigns]
    exact (assignment_moves proper named).bind proper fun binding _ proper =>
      (expect_local .semicolon proper).bind proper fun _ _ _ _ => pure_local (Stmt.assign binding)
  · rw [if_neg assigns]
    exact exprThen_moves proper .expr named

omit proper in
mutual

theorem stmtWithin_local : ∀ (budget : Nat) (inLoop : Bool) {cursor : Cursor}, cursor.Proper →
    Local (stmtWithin inLoop budget) cursor
  | 0, _, _, proper => unexpected_local .expression proper
  | budget + 1, inLoop, cursor, proper => by
    refine peek_local proper ?_
    cases ahead : cursor.current.kind with
    | keyword word =>
      cases word with
      | «if» =>
        refine (advance_local proper).bind proper fun _ _ proper _ => ?_
        refine (expr_local proper).bind proper fun condition _ proper _ => ?_
        refine (braced_local proper (stmtsWithin_local budget inLoop)).bind proper
          fun _ _ proper _ => ?_
        exact (tailWithin_local budget inLoop proper).bind proper fun _ _ _ _ => pure_local _
      | «return» =>
        exact (advance_local proper).bind proper fun _ _ proper _ => exprThen_local proper .return
      | «let» => exact (letDeclaration_local proper).bind proper fun _ _ _ _ => pure_local _
      | «for» =>
        refine (advance_local proper).bind proper fun _ _ proper _ => ?_
        refine (expect_local .openParen proper).bind proper fun _ _ proper _ => ?_
        refine (consume_local (.keyword .let) proper).bind proper fun _ _ proper _ => ?_
        refine (declaration_local proper).bind proper fun _ _ proper _ => ?_
        refine (expect_local .semicolon proper).bind proper fun _ _ proper _ => ?_
        refine (expr_local proper).bind proper fun _ _ proper _ => ?_
        refine (expect_local .semicolon proper).bind proper fun _ _ proper _ => ?_
        refine (assignment_local proper).bind proper fun _ _ proper _ => ?_
        refine (expect_local .closeParen proper).bind proper fun _ _ proper _ => ?_
        exact (braced_local proper (stmtsWithin_local budget true)).bind proper
          fun _ _ _ _ => pure_local _
      | «while» =>
        refine (advance_local proper).bind proper fun _ _ proper _ => ?_
        refine (expect_local .openParen proper).bind proper fun _ _ proper _ => ?_
        refine (expr_local proper).bind proper fun _ _ proper _ => ?_
        refine (expect_local .closeParen proper).bind proper fun _ _ proper _ => ?_
        exact (braced_local proper (stmtsWithin_local budget true)).bind proper
          fun _ _ _ _ => pure_local _
      | «break» => exact jump_local proper .break inLoop .break
      | «continue» => exact jump_local proper .continue inLoop .continue
      | fn | «else» => exact exprThen_local proper .expr
    | identifier => exact (identified_moves proper ahead).local
    | _ => exact exprThen_local proper .expr

theorem stmtsWithin_local : ∀ (budget : Nat) (inLoop : Bool) {cursor : Cursor}, cursor.Proper →
    Local (stmtsWithin inLoop budget) cursor
  | 0, _, _, _ => pure_local []
  | budget + 1, inLoop, cursor, proper => by
    have another : Local (do return (← stmtWithin inLoop budget) :: (← stmtsWithin inLoop budget))
        cursor :=
      (stmtWithin_local budget inLoop proper).bind proper fun stmt _ proper _ =>
        (stmtsWithin_local budget inLoop proper).bind proper fun stmts _ _ _ =>
          pure_local (stmt :: stmts)
    refine peek_local proper ?_
    cases cursor.current.kind with
    | closeBrace | endOfFile => exact pure_local []
    | _ => exact another

theorem tailWithin_local : ∀ (budget : Nat) (inLoop : Bool) {cursor : Cursor}, cursor.Proper →
    Local (tailWithin inLoop budget) cursor
  | 0, _, _, _ => pure_local Tail.none
  | budget + 1, inLoop, cursor, proper => by
    refine (consume_local (.keyword .else) proper).bind proper fun goesOn _ proper _ => ?_
    cases goesOn with
    | false => exact pure_local Tail.none
    | true =>
      refine (consume_local (.keyword .if) proper).bind proper fun tests _ proper _ => ?_
      cases tests with
      | true =>
        refine (expr_local proper).bind proper fun condition _ proper _ => ?_
        refine (braced_local proper (stmtsWithin_local budget inLoop)).bind proper
          fun _ _ proper _ => ?_
        exact (tailWithin_local budget inLoop proper).bind proper fun _ _ _ _ => pure_local _
      | false =>
        exact (braced_local proper (stmtsWithin_local budget inLoop)).bind proper
          fun _ _ _ _ => pure_local _

end

end Parser

end OliCompiler
