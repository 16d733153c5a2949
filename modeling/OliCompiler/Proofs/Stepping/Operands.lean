import OliCompiler.Proofs.Grammar.Expressions

/-!
The first operands of an expression. An expression is a row of operands with operators between them, so a
sum of two operands is all of it exactly if no operator stands behind the second one.
-/

namespace OliCompiler

mutual

/-- The number of operators in an expression. -/
def Expr.operations : Expr → Nat
  | .int _ _ | .var _ => 0
  | .call _ args _ => Expr.operationsOfAll args
  | .binary _ left right => left.operations + (right.operations + 1)

def Expr.operationsOfAll : List Expr → Nat
  | [] => 0
  | arg :: args => arg.operations + Expr.operationsOfAll args

end

namespace Grammar

variable {tokens rest first more : List Token} {token sign operand : Token} {level : Nat} {value value' : Expr}
  {op : BinaryOp} {number : Int32}

/-- The number of operators among tokens. -/
def operators (tokens : List Token) : Nat := tokens.countP (·.kind.isOperator)

theorem operators_append : operators (first ++ rest) = operators first + operators rest :=
  List.countP_append

theorem operators_cons_operator (joins : sign.kind = .operator op) :
    operators (sign :: tokens) = operators tokens + 1 :=
  List.countP_cons_of_pos (by simp only [joins]; rfl)

theorem operators_cons {kind : Token.Kind} (is : token.kind = kind) (plain : kind.isOperator = false) :
    operators (token :: tokens) = operators tokens :=
  List.countP_cons_of_neg (by simp only [is, plain]; decide)

theorem operators_delimited {opening closing : Token} (opens : opening.kind = .openParen)
    (closes : closing.kind = .closeParen) : operators (opening :: (tokens ++ [closing])) = operators tokens := by
  have none : operators [closing] = 0 := operators_cons closes rfl
  rw [operators_cons opens rfl, operators_append, none, Nat.add_zero]

mutual

/-- Each operator among the tokens of an expression is one in its tree. -/
theorem ExprForm.operators_eq : ∀ {level : Nat} {tokens : List Token} {value : Expr},
    ExprForm level tokens value → operators tokens = value.operations
  | _, _, _, .binary first joins second => by
    rw [operators_append, operators_cons_operator joins, first.operators_eq, second.operators_eq,
      Expr.operations]
  | _, _, _, .tighter _ form => form.operators_eq
  | _, _, _, .paren opens form closes => (operators_delimited opens closes).trans form.operators_eq
  | _, _, _, .int literal _ => operators_cons literal rfl
  | _, _, _, .var named => operators_cons named rfl
  | _, _, _, .call named opens form closes => by
    rw [operators_cons named rfl, operators_delimited opens closes, form.operators_eq, Expr.operations]

theorem ArgsForm.operators_eq : ∀ {tokens : List Token} {args : List Expr},
    ArgsForm tokens args → operators tokens = Expr.operationsOfAll args
  | _, _, .nil => rfl
  | _, _, .last form => form.operators_eq
  | _, _, .cons form separates others => by
    rw [operators_append, operators_cons separates rfl, form.operators_eq, others.operators_eq,
      Expr.operationsOfAll]

end

/-! ## Rows of operands -/

/-- Operands with operators between them. -/
inductive Row : List Token → Prop where
  | last {tokens : List Token} {value : Expr} (form : ExprForm 3 tokens value) : Row tokens
  | more {first rest : List Token} {sign : Token} {op : BinaryOp} {value : Expr}
    (form : ExprForm 3 first value) (joins : sign.kind = .operator op) (others : Row rest) :
    Row (first ++ sign :: rest)

theorem Row.append (one : Row first) (joins : sign.kind = .operator op) (other : Row rest) :
    Row (first ++ sign :: rest) := by
  induction one with
  | last form => exact .more form joins other
  | more form joins' _ ih =>
    rw [List.append_assoc, List.cons_append]
    exact .more form joins' ih

/-- An expression is a row of operands, however its operators group. -/
theorem ExprForm.row : ∀ {level : Nat} {tokens : List Token} {value : Expr},
    ExprForm level tokens value → level ≤ 3 → Row tokens
  | _, _, _, @ExprForm.binary op _ _ _ _ _ first joins second, bound =>
    (first.row bound).append joins (second.row (Nat.succ_le_succ (levelOf_le op)))
  | _, _, _, .tighter loose form, _ => form.row loose
  | _, _, _, .paren opens form closes, _ => .last (.paren opens form closes)
  | _, _, _, .int literal denotes, _ => .last (.int literal denotes)
  | _, _, _, .var named, _ => .last (.var named)
  | _, _, _, .call named opens form closes, _ => .last (.call named opens form closes)

/-- What an operand that begins with a token goes on with. -/
def GoesOn (token : Token) (rest : List Token) : Prop :=
  (token.kind = .integer → rest = []) ∧
    (token.kind = .identifier → ∀ next ∈ rest.head?, next.kind = .openParen)

theorem ExprForm.goesOn (form : ExprForm level tokens value) (tight : level = 3) :
    ∃ token rest, tokens = token :: rest ∧ GoesOn token rest := by
  cases form with
  | @binary op => exact absurd (levelOf_le op) (by omega)
  | tighter loose => omega
  | paren opens => exact ⟨_, _, rfl, by simp [GoesOn, opens]⟩
  | int literal => exact ⟨_, _, rfl, by simp [GoesOn]⟩
  | var => exact ⟨_, _, rfl, by simp [GoesOn]⟩
  | call named opens => exact ⟨_, _, rfl, by simp [GoesOn, named, opens]⟩

/-- A row begins with an operand, and then there is an operator or no more. -/
theorem Row.begins (row : Row (token :: tokens)) : ∃ rest behind, tokens = rest ++ behind ∧
    GoesOn token rest ∧ (behind = [] ∨ ∃ sign op others, behind = sign :: others ∧
      sign.kind = .operator op ∧ Row others) := by
  generalize whole : token :: tokens = all at row
  cases row with
  | last form =>
    obtain ⟨token', rest, rfl, goesOn⟩ := form.goesOn rfl
    cases whole
    exact ⟨tokens, [], (List.append_nil _).symm, goesOn, .inl rfl⟩
  | @more first others sign op value form joins row =>
    obtain ⟨token', rest, rfl, goesOn⟩ := form.goesOn rfl
    cases whole
    exact ⟨rest, sign :: others, rfl, goesOn, .inr ⟨sign, op, others, rfl, joins, row⟩⟩

/-- Behind a numeral a row goes on with an operator. -/
theorem Row.after_integer (row : Row (token :: tokens)) (literal : token.kind = .integer) :
    ∀ next ∈ tokens.head?, ∃ op, next.kind = .operator op := by
  obtain ⟨rest, behind, rfl, goesOn, cases⟩ := row.begins
  obtain rfl := goesOn.1 literal
  rcases cases with rfl | ⟨sign, op, others, rfl, joins, _⟩
  · nofun
  · rintro next ⟨⟩
    exact ⟨op, joins⟩

/-- Behind a variable and an operator a row goes on as another one. -/
theorem Row.after_variable (row : Row (token :: sign :: tokens)) (named : token.kind = .identifier)
    (joins : sign.kind = .operator op) : Row tokens := by
  obtain ⟨rest, behind, split, goesOn, cases⟩ := row.begins
  have called := goesOn.2 named
  cases rest with
  | nil =>
    rcases cases with rfl | ⟨sign', op', others, rfl, _, row⟩
    · cases split
    · cases split
      exact row
  | cons next rest =>
    cases split
    cases joins.symm.trans (called sign rfl)

/-! ## A variable and a number -/

/-- Tokens are those of one expression at most. -/
theorem ExprForm.unique (form : ExprForm 0 tokens value) (form' : ExprForm 0 tokens value')
    (inner : ∀ token ∈ tokens, token.kind ≠ .endOfFile) : value = value' := by
  let eof : Token := ⟨.endOfFile, none, .first, .point 0⟩
  have proper : (Cursor.mk [] tokens eof).Proper := ⟨rfl, inner⟩
  have all : (Cursor.mk [] tokens eof).ahead = tokens ++ [] := (List.append_nil tokens).symm
  obtain ⟨cursor, passes, ahead⟩ := Cursor.exists_passes all
  have ends : Parser.EndsExpr cursor.current.kind := by
    rw [(passes.proper proper).current_of_nil ahead]
    decide
  have reads := Parser.expr_complete form proper passes ends
  have reads' := Parser.expr_complete form' proper passes ends
  cases reads.symm.trans reads'
  rfl

/-- The tokens of a variable, an operator and a number. -/
theorem exprForm_step (named : token.kind = .identifier) (joins : sign.kind = .operator op)
    (literal : operand.kind = .integer) (denotes : Numeral operand.text.toList number) :
    ExprForm 0 [token, sign, operand] (.binary op (.var (nameOf token)) (.int number operand.span)) := by
  have bound := levelOf_le op
  have left : ExprForm (levelOf op) [token] (.var (nameOf token)) :=
    (ExprForm.var named).loosen (by omega) (by omega)
  have right : ExprForm (levelOf op + 1) [operand] (.int number operand.span) :=
    (ExprForm.int literal denotes).loosen (by omega) (by omega)
  exact (ExprForm.binary left joins right).loosen (Nat.zero_le _) (by omega)

/-- An expression that begins with a variable, an operator and a number is their operation exactly if there
is no more of it; otherwise an operator follows. -/
theorem ExprForm.step_iff (form : ExprForm 0 (token :: sign :: operand :: more) value)
    (named : token.kind = .identifier) (joins : sign.kind = .operator op) (literal : operand.kind = .integer)
    (denotes : Numeral operand.text.toList number) :
    (value = .binary op (.var (nameOf token)) (.int number operand.span) ↔ more = []) ∧
      ∀ next ∈ more.head?, ∃ op', next.kind = .operator op' := by
  have after := ((form.row (Nat.zero_le 3)).after_variable named joins).after_integer literal
  refine ⟨⟨?_, ?_⟩, after⟩
  · rintro rfl
    have counted := form.operators_eq
    rw [operators_cons named rfl, operators_cons_operator joins, operators_cons literal rfl] at counted
    cases more with
    | nil => rfl
    | cons next more =>
      obtain ⟨op', joins'⟩ := after next rfl
      rw [operators_cons_operator joins'] at counted
      simp [Expr.operations] at counted
  · rintro rfl
    refine form.unique (exprForm_step named joins literal denotes) ?_
    simp [named, joins, literal]

end Grammar

end OliCompiler
