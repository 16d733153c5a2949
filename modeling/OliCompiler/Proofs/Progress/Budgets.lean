import OliCompiler.Proofs.Progress.Loops

/-!
Budgets of the readers of expressions. One more of a sufficient budget does not change what is read, nor
does any more of it, so a reader can take its budget from the tokens ahead.
-/

namespace OliCompiler.Parser

open Cursor Grammar

variable {cursor middle : Cursor} {budget least : Nat} {left : Expr}

/-- What one more of a sufficient budget does not change in the reading of expressions. -/
structure SparedExprs (budget : Nat) : Prop where
  expr : ∀ {least cursor}, Cursor.Proper cursor → 3 * cursor.ahead.length + 2 ≤ budget →
    exprWithin least (budget + 1) cursor = exprWithin least budget cursor
  climb : ∀ {least left cursor}, Cursor.Proper cursor → 3 * cursor.ahead.length ≤ budget →
    climbWithin least left (budget + 1) cursor = climbWithin least left budget cursor
  operand : ∀ {cursor}, Cursor.Proper cursor → 3 * cursor.ahead.length + 1 ≤ budget →
    operandWithin (budget + 1) cursor = operandWithin budget cursor
  arguments : ∀ {cursor}, Cursor.Proper cursor → 3 * cursor.ahead.length + 3 ≤ budget →
    argumentsWithin (budget + 1) cursor = argumentsWithin budget cursor

theorem exprWithin_spared (spared : SparedExprs budget) (proper : cursor.Proper)
    (enough : 3 * cursor.ahead.length + 2 ≤ budget + 1) :
    exprWithin least (budget + 2) cursor = exprWithin least (budget + 1) cursor := by
  refine bind_congr_at (spared.operand proper (by omega)) fun left middle reads => ?_
  obtain ⟨tokens, passes⟩ := (operandWithin_local (budget + 1) proper).passes reads
  have shorter := passes.length
  exact spared.climb (passes.proper proper) (by omega)

theorem climbWithin_spared (spared : SparedExprs budget) (proper : cursor.Proper)
    (enough : 3 * cursor.ahead.length ≤ budget + 1) :
    climbWithin least left (budget + 2) cursor = climbWithin least left (budget + 1) cursor := by
  by_cases stops : Stops least cursor
  · rw [climb_stops stops, climb_stops stops]
  · obtain ⟨op, ahead, tight⟩ : ∃ op, cursor.current.kind = .operator op ∧ least ≤ levelOf op := by
      simpa [Stops] using stops
    have fewer := proper.length_advance (by simp [ahead])
    rw [climb_goes ahead tight, climb_goes ahead tight]
    refine bind_congr_at (spared.expr proper.advance (by omega)) fun right middle reads => ?_
    obtain ⟨tokens, passes⟩ := (exprWithin_local (budget + 1) _ proper.advance).passes reads
    have shorter := passes.length
    exact spared.climb (passes.proper proper.advance) (by omega)

theorem operandWithin_spared (spared : SparedExprs budget) (proper : cursor.Proper)
    (enough : 3 * cursor.ahead.length + 1 ≤ budget + 1) :
    operandWithin (budget + 2) cursor = operandWithin (budget + 1) cursor := by
  rw [operandWithin, operandWithin, peek_bind, peek_bind]
  cases ahead : cursor.current.kind with
  | openParen =>
    have fewer := proper.length_advance (by simp [ahead])
    simp only [advance_bind]
    exact bind_congr_at (spared.expr proper.advance (by omega)) fun _ _ _ => rfl
  | identifier =>
    refine bind_congr_at rfl fun name middle reads => ?_
    obtain ⟨token, passes, _⟩ := (ident_ok proper).mp reads
    have fewer := passes.length
    rw [List.length_singleton] at fewer
    have proper := passes.proper proper
    refine (consume_local .openParen proper).bind_congr proper fun called _ proper less => ?_
    cases called with
    | false => rfl
    | true => exact bind_congr_at (spared.arguments proper (by omega)) fun _ _ _ => rfl
  | _ => rfl

theorem argumentsWithin_spared (spared : SparedExprs budget) (proper : cursor.Proper)
    (enough : 3 * cursor.ahead.length + 3 ≤ budget + 1) :
    argumentsWithin (budget + 2) cursor = argumentsWithin (budget + 1) cursor := by
  rw [argumentsWithin, argumentsWithin, check_bind, check_bind]
  by_cases closes : cursor.current.kind = .closeParen
  · simp only [closes, decide_true, if_true]
  · simp only [closes, decide_false, Bool.false_eq_true, if_false]
    refine bind_congr_at (spared.expr proper (by omega)) fun arg middle reads => ?_
    obtain ⟨proper, fewer, _⟩ := exprWithin_passes proper (Nat.zero_le 3) (by omega) reads
    refine (consume_local .comma proper).bind_congr proper fun more _ proper less => ?_
    cases more with
    | false => rfl
    | true => exact bind_congr_at (spared.arguments proper (by omega)) fun _ _ _ => rfl

theorem sparedExprs (budget : Nat) : SparedExprs budget := by
  induction budget with
  | zero =>
    constructor
    case climb =>
      intro least left cursor proper enough
      have none : cursor.ahead = [] := List.length_eq_zero_iff.mp (by omega)
      have stops : Stops least cursor := by
        intro op ahead
        rw [proper.current_of_nil none] at ahead
        cases ahead
      rw [climb_stops stops, climb_stops stops]
    all_goals exact fun _ enough => absurd enough (by omega)
  | succ budget ih =>
    exact {
      expr := exprWithin_spared ih
      climb := climbWithin_spared ih
      operand := operandWithin_spared ih
      arguments := argumentsWithin_spared ih }

/-! Readers with the budget that the tokens ahead ask for. -/

/-- Reads an operand and what is joined to it by operators of at least a precedence. -/
def exprFrom (least : Nat) : Parser Expr := do
  exprWithin least (exprBudget (← get))

/-- Reads the operators of at least a precedence behind `left`. -/
def climb (least : Nat) (left : Expr) : Parser Expr := do
  climbWithin least left (3 * (← get).ahead.length)

/-- Reads the arguments of a call up to its closing parenthesis. -/
def arguments : Parser (List Expr) := do
  argumentsWithin (3 * (← get).ahead.length + 3)

/-- Reads a statement. -/
def stmt (inLoop : Bool) : Parser Stmt := do
  stmtWithin inLoop (2 * (← get).ahead.length + 1)

/-- Reads statements up to a closing brace or the end of the file. -/
def stmts (inLoop : Bool) : Parser (List Stmt) := do
  stmtsWithin inLoop (2 * (← get).ahead.length + 1)

/-- Reads declared names up to a closing parenthesis. -/
def names : Parser (List Ident) := do
  paramsWithin ((← get).ahead.length + 1)

/-- Reads definitions to the end of the file and adds them to a program. -/
def items (program : Program) : Parser Program := do
  itemsWithin program ((← get).ahead.length + 1)

theorem exprWithin_eq (proper : cursor.Proper) (enough : 3 * cursor.ahead.length + 2 ≤ budget) :
    exprWithin least budget cursor = exprFrom least cursor :=
  eq_of_spared (fun budget enough => (sparedExprs budget).expr proper enough) enough

theorem climbWithin_eq (proper : cursor.Proper) (enough : 3 * cursor.ahead.length ≤ budget) :
    climbWithin least left budget cursor = climb least left cursor :=
  eq_of_spared (fun budget enough => (sparedExprs budget).climb proper enough) enough

theorem argumentsWithin_eq (proper : cursor.Proper) (enough : 3 * cursor.ahead.length + 3 ≤ budget) :
    argumentsWithin budget cursor = arguments cursor :=
  eq_of_spared (fun budget enough => (sparedExprs budget).arguments proper enough) enough

theorem stmtWithin_eq {inLoop : Bool} (proper : cursor.Proper) (solid : cursor.current.kind ≠ .endOfFile)
    (enough : 2 * cursor.ahead.length ≤ budget) : stmtWithin inLoop budget cursor = stmt inLoop cursor := by
  have fewer := proper.length_advance solid
  have more (budget : Nat) (enough : 2 * cursor.ahead.length ≤ budget) :
      stmtWithin inLoop (budget + 1) cursor = stmtWithin inLoop budget cursor :=
    (spared budget).stmt proper (by omega) enough
  exact (eq_of_spared more enough).trans (more _ (Nat.le_refl _)).symm

theorem stmtsWithin_eq {inLoop : Bool} (proper : cursor.Proper) (enough : 2 * cursor.ahead.length < budget) :
    stmtsWithin inLoop budget cursor = stmts inLoop cursor :=
  eq_of_spared (fun budget enough => (spared budget).stmts proper enough) enough

theorem paramsWithin_eq (proper : cursor.Proper) (enough : cursor.ahead.length < budget) :
    paramsWithin budget cursor = names cursor :=
  eq_of_spared (fun _ enough => paramsWithin_spared proper enough) enough

theorem itemsWithin_eq {program : Program} (proper : cursor.Proper) (enough : cursor.ahead.length < budget) :
    itemsWithin program budget cursor = items program cursor :=
  eq_of_spared (fun _ enough => itemsWithin_spared proper enough) enough

end OliCompiler.Parser
