import OliCompiler.Proofs.Progress.Budgets

/-!
The loops of the readers: operators behind an operand, arguments, parameters, statements, and the
definitions of a program. What is within a budget that suffices for the tokens ahead reads as the loop does.
-/

namespace OliCompiler.Parser

open Cursor Grammar

/-- Goes over the operators behind an operand; the first one that binds too loosely ends the loop. -/
def operatorLoop (least : Nat) : Loop Expr where
  goesOn kind := kind.operator?.isSome
  round left := do
    match (← peek).kind.operator? with
    | none => return (left, false)
    | some op =>
      if op.precedence < least then
        return (left, false)
      else
        let _ ← advance
        let right ← exprFrom op.rightPrecedence
        return (.binary op left right, true)

/-- Goes over the arguments of a call up to the closing parenthesis. -/
def argumentLoop : Loop (List Expr) where
  goesOn kind := kind ≠ .closeParen
  round args := do
    let arg ← expr
    if ← consume .comma then
      return (args ++ [arg], true)
    else if ← check .closeParen then
      return (args ++ [arg], true)
    else
      unexpected .commaOrClose

/-- Goes over the parameters of a function up to the closing parenthesis or behind one without a comma. -/
def paramLoop : Loop (List Ident) where
  goesOn kind := kind ≠ .closeParen
  round names := do
    let name ← declaredName .parameter
    let more ← consume .comma
    return (names ++ [name], more)

/-- Goes over statements up to the closing brace or the end of the file. -/
def stmtLoop (inLoop : Bool) : Loop (List Stmt) where
  goesOn kind := kind ≠ .closeBrace ∧ kind ≠ .endOfFile
  round stmts := do
    let stmt ← stmt inLoop
    return (stmts ++ [stmt], true)

/-- Goes over the definitions of a program up to the end of the file. -/
def itemLoop : Loop Program where
  goesOn kind := kind ≠ .endOfFile
  round program := do
    let token ← peek
    match token.kind with
    | .keyword .fn =>
      let program ← addFunction program (← function)
      return (program, true)
    | .keyword .let =>
      let binding ← letDeclaration
      return ({ program with globals := program.globals ++ [binding] }, true)
    | found => fail (.topLevel found) token

variable {α : Type} {cursor middle cursor' : Cursor} {budget least : Nat} {left value : Expr} {inLoop : Bool}
  {read : List α} {reader : Parser (List α)}

/-- Reads further items behind those that have been read. -/
def further (read : List α) (reader : Parser (List α)) : Parser (List α) := do
  let rest ← reader
  return read ++ rest

theorem further_nil : further [] reader = reader := by
  simp [further]

theorem further_pure (rest : List α) : further read (pure rest) = pure (read ++ rest) := by
  simp [further]

theorem further_bind {β : Type} {first : Parser β} {next : β → Parser (List α)} :
    further read (first >>= next) = first >>= fun value => further read (next value) := by
  simp [further]

theorem further_cons (item : α) :
    further read (do return item :: (← reader)) = further (read ++ [item]) reader := by
  simp [further]

theorem further_stops (reads : reader cursor = .ok [] cursor') :
    further read reader cursor = .ok read cursor' := by
  rw [further, bind_eq reads, List.append_nil]
  rfl

theorem further_congr {reader' : Parser (List α)} (same : reader cursor = reader' cursor) :
    further read reader cursor = further read reader' cursor :=
  bind_congr_at same fun _ _ _ => rfl

/-- What is read with a budget that suffices passes a token at least. -/
theorem exprFrom_passes (proper : cursor.Proper) (bound : least ≤ 3)
    (reads : exprFrom least cursor = .ok value cursor') :
    ∃ token tokens, Passes cursor (token :: tokens) cursor' := by
  obtain ⟨tokens, passes, form, _⟩ := (soundWithin _).expr proper bound (Nat.le_refl _) reads
  obtain ⟨token, rest, rfl, _⟩ := form.begins
  exact ⟨token, rest, passes⟩

theorem operatorLoop_gains (least : Nat) : (operatorLoop least).Gains := by
  intro left left' cursor middle proper goes reads
  simp only [operatorLoop, peek_bind] at goes reads
  cases ahead : cursor.current.kind.operator? with
  | none => simp [ahead] at goes
  | some op =>
    simp only [ahead] at reads
    split at reads
    · cases (pure_ok.mp reads).1
    · have solid : cursor.current.kind ≠ .endOfFile := by
        rw [Token.Kind.operator?_eq_some.mp ahead]
        simp
      rw [advance_bind] at reads
      obtain ⟨right, behind, second, reads⟩ := bind_ok.mp reads
      obtain ⟨_, rfl⟩ := pure_ok.mp reads
      obtain ⟨token, tokens, passes⟩ :=
        exprFrom_passes proper.advance op.rightPrecedence_le second
      exact ⟨_, _, (proper.passes solid).append passes⟩

theorem argumentLoop_gains : argumentLoop.Gains := by
  intro args args' cursor middle proper _ reads
  obtain ⟨arg, behind, first, reads⟩ := bind_ok.mp reads
  obtain ⟨token, tokens, passes⟩ := exprFrom_passes proper (Nat.zero_le 3) first
  obtain ⟨more, last, second, reads⟩ := bind_ok.mp reads
  obtain ⟨others, rest⟩ := (consume_local .comma (passes.proper proper)).passes second
  cases more with
  | true =>
    obtain ⟨_, rfl⟩ := pure_ok.mp reads
    exact ⟨_, _, passes.append rest⟩
  | false =>
    rw [if_neg Bool.false_ne_true, check_bind] at reads
    split at reads
    · obtain ⟨_, rfl⟩ := pure_ok.mp reads
      exact ⟨_, _, passes.append rest⟩
    · exact absurd reads unexpected_ne_ok

theorem paramLoop_gains : paramLoop.Gains := by
  intro names names' cursor middle proper _ reads
  obtain ⟨name, behind, first, reads⟩ := bind_ok.mp reads
  obtain ⟨token, passes, _⟩ := (declaredName_ok proper).mp first
  obtain ⟨more, last, second, reads⟩ := bind_ok.mp reads
  obtain ⟨others, rest⟩ := (consume_local .comma (passes.proper proper)).passes second
  obtain ⟨_, rfl⟩ := pure_ok.mp reads
  exact ⟨_, _, passes.append rest⟩

theorem stmtLoop_gains (inLoop : Bool) : (stmtLoop inLoop).Gains := by
  intro stmts stmts' cursor middle proper _ reads
  obtain ⟨stmt, behind, first, reads⟩ := bind_ok.mp reads
  obtain ⟨tokens, passes, form⟩ := (soundStmts _).stmt proper first
  obtain ⟨token, rest, rfl, _⟩ := form.begins
  obtain ⟨_, rfl⟩ := pure_ok.mp reads
  exact ⟨_, _, passes⟩

/-- A round over a definition passes its tokens, and it is never the last one by its own word. -/
theorem itemLoop_round {program program' : Program} {again : Bool} (proper : cursor.Proper)
    (reads : itemLoop.round program cursor = .ok (program', again) middle) :
    again = true ∧ ∃ token tokens, Passes cursor (token :: tokens) middle := by
  simp only [itemLoop, peek_bind] at reads
  cases ahead : cursor.current.kind with
  | keyword word =>
    cases word with
    | fn =>
      simp only [ahead] at reads
      obtain ⟨definition, behind, first, reads⟩ := bind_ok.mp reads
      obtain ⟨tokens, passes, form⟩ := function_sound proper first
      obtain ⟨token, rest, rfl, _⟩ := form.begins
      obtain ⟨extended, last, adds, reads⟩ := bind_ok.mp reads
      obtain ⟨_, rfl⟩ := addFunction_ok.mp adds
      obtain ⟨same, rfl⟩ := pure_ok.mp reads
      exact ⟨(Prod.mk.inj same).2.symm, _, _, passes⟩
    | «let» =>
      simp only [ahead] at reads
      obtain ⟨binding, behind, first, reads⟩ := bind_ok.mp reads
      obtain ⟨tokens, passes, form⟩ := letDeclaration_sound proper first
      obtain ⟨token, rest, rfl, _⟩ := form.begins
      obtain ⟨same, rfl⟩ := pure_ok.mp reads
      exact ⟨(Prod.mk.inj same).2.symm, _, _, passes⟩
    | _ =>
      simp only [ahead] at reads
      exact absurd reads fail_ne_ok
  | _ =>
    simp only [ahead] at reads
    exact absurd reads fail_ne_ok

theorem itemLoop_gains : itemLoop.Gains := fun _ _ _ _ proper _ reads => (itemLoop_round proper reads).2

theorem operatorLoop_unfolds (least : Nat) : (operatorLoop least).Unfolds (climb least) := by
  intro left cursor proper
  cases ahead : cursor.current.kind.operator? with
  | none =>
    have stops : Stops least cursor := by
      intro op same
      rw [Token.Kind.operator?_eq_some.mpr same] at ahead
      cases ahead
    rw [climb, get_bind, climb_stops stops]
    simp [operatorLoop, ahead]
  | some op =>
    have known := Token.Kind.operator?_eq_some.mp ahead
    have goes : (operatorLoop least).goesOn cursor.current.kind = true := by simp [operatorLoop, ahead]
    rw [if_pos goes, climb, get_bind]
    by_cases loose : op.precedence < least
    · have stops : Stops least cursor := by
        intro op' same
        rw [known] at same
        cases same
        rwa [← op.precedence_eq]
      have ends : (operatorLoop least).round left cursor = .ok (left, false) cursor := by
        simp only [operatorLoop, peek_bind, ahead, if_pos loose]
        rfl
      rw [climb_stops stops, bind_eq ends]
      rfl
    · have fewer := proper.length_advance (by simp [known])
      obtain ⟨budget, enough⟩ := Nat.exists_eq_add_one_of_ne_zero (show 3 * cursor.ahead.length ≠ 0 by omega)
      have tight : least ≤ levelOf op := by rw [← op.precedence_eq]; exact Nat.le_of_not_lt loose
      rw [enough, climb_goes known tight, ← op.rightPrecedence_eq]
      simp only [operatorLoop, bind_assoc, peek_bind, ahead, if_neg loose, advance_bind, pure_bind, if_true]
      refine bind_congr_at (exprWithin_eq proper.advance (show _ ≤ budget by omega))
        fun right middle reads => ?_
      obtain ⟨properMiddle, fewer', _⟩ :=
        exprWithin_passes proper.advance op.rightPrecedence_le (by omega) reads
      exact climbWithin_eq properMiddle (by omega)

theorem arguments_stops (closes : cursor.current.kind = .closeParen) :
    arguments cursor = .ok [] cursor := by
  rw [arguments, get_bind, argumentsWithin, check_bind, closes]
  rfl

theorem argumentLoop_unfolds : argumentLoop.Unfolds fun args => further args arguments := by
  intro args cursor proper
  by_cases closes : cursor.current.kind = .closeParen
  · have stops : argumentLoop.goesOn cursor.current.kind = false := by simp [argumentLoop, closes]
    rw [stops, if_neg Bool.false_ne_true]
    exact further_stops (arguments_stops closes)
  · have goes : argumentLoop.goesOn cursor.current.kind = true := by simp [argumentLoop, closes]
    rw [goes, if_pos rfl]
    show further args (argumentsWithin (3 * cursor.ahead.length + 2 + 1)) cursor = _
    rw [argumentsWithin, further_bind, check_bind, decide_eq_false closes, if_neg Bool.false_ne_true,
      further_bind]
    simp only [argumentLoop, bind_assoc]
    refine bind_congr_at rfl fun arg middle reads => ?_
    obtain ⟨properMiddle, fewer, _⟩ := exprWithin_passes proper (Nat.zero_le 3) (Nat.le_refl _) reads
    rw [further_bind]
    refine (consume_local .comma properMiddle).bind_congr properMiddle fun more behind proper less => ?_
    cases more with
    | true =>
      simp only [if_true, pure_bind]
      rw [← further_cons]
      refine further_congr (bind_congr_at ?_ fun _ _ _ => rfl)
      exact argumentsWithin_eq proper (by omega)
    | false =>
      simp only [Bool.false_eq_true, if_false, bind_assoc]
      rw [further_bind, check_bind, check_bind]
      by_cases closed : behind.current.kind = .closeParen
      · simp only [closed, decide_true, if_true, pure_bind, further_pure]
        exact (further_stops (arguments_stops closed)).symm
      · simp only [closed, decide_false, Bool.false_eq_true, if_false]
        rfl

theorem paramLoop_unfolds : paramLoop.Unfolds fun read => further read names := by
  intro read cursor proper
  show further read (paramsWithin (cursor.ahead.length + 1)) cursor = _
  rw [paramsWithin, further_bind, check_bind]
  by_cases closes : cursor.current.kind = .closeParen
  · have stops : paramLoop.goesOn cursor.current.kind = false := by simp [paramLoop, closes]
    rw [stops, if_neg Bool.false_ne_true, decide_eq_true closes, if_pos rfl, further_pure, List.append_nil]
    rfl
  · have goes : paramLoop.goesOn cursor.current.kind = true := by simp [paramLoop, closes]
    rw [goes, if_pos rfl, decide_eq_false closes, if_neg Bool.false_ne_true, further_bind]
    simp only [paramLoop, bind_assoc, pure_bind]
    refine bind_congr_at rfl fun name middle reads => ?_
    obtain ⟨token, passes, _⟩ := (declaredName_ok proper).mp reads
    have fewer := passes.length
    rw [List.length_singleton] at fewer
    rw [further_bind]
    have properMiddle := passes.proper proper
    refine (consume_local .comma properMiddle).bind_congr properMiddle fun more behind proper less => ?_
    cases more with
    | true =>
      simp only [if_true]
      rw [← further_cons]
      refine further_congr (bind_congr_at ?_ fun _ _ _ => rfl)
      exact paramsWithin_eq proper (by omega)
    | false =>
      simp only [Bool.false_eq_true, if_false, further_pure]

theorem stmtLoop_unfolds (inLoop : Bool) :
    (stmtLoop inLoop).Unfolds fun read => further read (stmts inLoop) := by
  intro read cursor proper
  by_cases ends : cursor.current.kind = .closeBrace ∨ cursor.current.kind = .endOfFile
  · have stops : (stmtLoop inLoop).goesOn cursor.current.kind = false := by
      rcases ends with same | same <;> simp [stmtLoop, same]
    rw [stops, if_neg Bool.false_ne_true]
    exact further_stops (stmts_stops ends)
  · obtain ⟨noBrace, noEnd⟩ := not_or.mp ends
    have goes : (stmtLoop inLoop).goesOn cursor.current.kind = true := by simp [stmtLoop, noBrace, noEnd]
    have fewer := proper.length_advance noEnd
    rw [goes, if_pos rfl]
    show further read (stmtsWithin inLoop (2 * cursor.ahead.length + 1)) cursor = _
    rw [further_congr (stmts_goes noBrace noEnd), further_bind]
    simp only [stmtLoop, bind_assoc, pure_bind, if_true]
    refine bind_congr_at (stmtWithin_eq proper noEnd (Nat.le_refl _)) fun stmt middle reads => ?_
    obtain ⟨tokens, passes, form⟩ := (soundStmts _).stmt proper reads
    obtain ⟨token, rest, rfl, _⟩ := form.begins
    have fewer' := passes.length
    rw [List.length_cons] at fewer'
    rw [← further_cons]
    refine further_congr (bind_congr_at ?_ fun _ _ _ => rfl)
    exact stmtsWithin_eq (passes.proper proper) (by omega)

theorem itemLoop_unfolds : itemLoop.Unfolds items := by
  intro program cursor proper
  show itemsWithin program (cursor.ahead.length + 1) cursor = _
  rw [itemsWithin, peek_bind]
  simp only [itemLoop, bind_assoc, peek_bind]
  cases ahead : cursor.current.kind with
  | endOfFile => rfl
  | keyword word =>
    cases word with
    | fn =>
      simp only [bind_assoc, pure_bind, if_true]
      refine bind_congr_at rfl fun definition middle reads => ?_
      obtain ⟨tokens, passes, form⟩ := function_sound proper reads
      have fewer := passes.length
      have some := form.length_pos
      refine bind_congr_at rfl fun extended behind adds => ?_
      obtain ⟨_, rfl⟩ := addFunction_ok.mp adds
      exact itemsWithin_eq (passes.proper proper) (by omega)
    | «let» =>
      simp only [bind_assoc, pure_bind, if_true]
      refine bind_congr_at rfl fun binding middle reads => ?_
      obtain ⟨tokens, passes, form⟩ := letDeclaration_sound proper reads
      have fewer := passes.length
      have some := form.length_pos
      exact itemsWithin_eq (passes.proper proper) (by omega)
    | _ => rfl
  | _ => rfl

end OliCompiler.Parser
