import OliCompiler.Proofs.Grammar.Cursors

/-!
Readers of expressions read forms of expressions, and they read every form. An operator is taken only
where its left side is of the operator's own level, and climbing stops before the first one that binds
too loosely.
-/

namespace OliCompiler

theorem Grammar.levelOf_le (op : BinaryOp) : levelOf op ≤ 2 := by
  rcases op with op | op <;> cases op <;> decide

open Grammar in
theorem BinaryOp.precedence_eq (op : BinaryOp) : op.precedence = levelOf op := by
  rcases op with op | op <;> cases op <;> rfl

open Grammar in
theorem BinaryOp.rightPrecedence_eq (op : BinaryOp) : op.rightPrecedence = levelOf op + 1 :=
  congrArg (· + 1) op.precedence_eq

theorem BinaryOp.rightPrecedence_le (op : BinaryOp) : op.rightPrecedence ≤ 3 :=
  op.rightPrecedence_eq ▸ Nat.succ_le_succ (Grammar.levelOf_le op)

theorem Token.Kind.operator?_eq_some {kind : Token.Kind} {op : BinaryOp} :
    kind.operator? = some op ↔ kind = .operator op := by
  cases kind <;> simp [Token.Kind.operator?]

namespace Grammar

variable {tokens : List Token} {level least : Nat} {value : Expr} {args : List Expr}

/-- Whether an expression may begin with a token of a kind. -/
def BeginsExpr (kind : Token.Kind) : Prop :=
  kind = .openParen ∨ kind = .integer ∨ kind = .identifier

instance : DecidablePred BeginsExpr := fun _ => inferInstanceAs (Decidable (_ ∨ _))

theorem ExprForm.begins (form : ExprForm level tokens value) :
    ∃ token rest, tokens = token :: rest ∧ BeginsExpr token.kind := by
  induction form using ExprForm.rec (motive_2 := fun _ _ _ => True) with
  | binary _ _ _ ih =>
    obtain ⟨token, rest, rfl, begins⟩ := ih
    exact ⟨token, _, rfl, begins⟩
  | tighter _ _ ih => exact ih
  | paren opens => exact ⟨_, _, rfl, .inl opens⟩
  | int literal _ => exact ⟨_, _, rfl, .inr (.inl literal)⟩
  | var named | call named => exact ⟨_, _, rfl, .inr (.inr named)⟩
  | nil | last | cons => trivial

theorem ExprForm.length_pos (form : ExprForm level tokens value) : 0 < tokens.length := by
  obtain ⟨_, _, rfl, _⟩ := form.begins
  exact Nat.succ_pos _

mutual

/-- No sign of assignment stands inside an expression. -/
theorem ExprForm.ne_assign : ∀ {level : Nat} {tokens : List Token} {value : Expr},
    ExprForm level tokens value → ∀ token ∈ tokens, token.kind ≠ .assign
  | _, _, _, .binary first joins second => by
    have left := first.ne_assign
    have right := second.ne_assign
    grind
  | _, _, _, .tighter _ form => form.ne_assign
  | _, _, _, .paren opens form closes => by
    have inside := form.ne_assign
    grind
  | _, _, _, .int literal _ => by simp [literal]
  | _, _, _, .var named => by simp [named]
  | _, _, _, .call named opens form closes => by
    have inside := form.ne_assign
    grind

theorem ArgsForm.ne_assign : ∀ {tokens : List Token} {args : List Expr},
    ArgsForm tokens args → ∀ token ∈ tokens, token.kind ≠ .assign
  | _, _, .nil => by simp
  | _, _, .last form => form.ne_assign
  | _, _, .cons form separates others => by
    have first := form.ne_assign
    have rest := others.ne_assign
    grind

end

theorem ExprForm.loosen (form : ExprForm level tokens value) (looser : least ≤ level)
    (bound : level ≤ 3) : ExprForm least tokens value := by
  induction looser with
  | refl => exact form
  | @step level _ ih => exact ih (.tighter bound form) (Nat.le_of_succ_le bound)

/-- A cursor before an expression has a token ahead that can begin one. -/
theorem ExprForm.begins_current {cursor cursor' : Cursor} (form : ExprForm level tokens value)
    (passes : cursor.Passes tokens cursor') : BeginsExpr cursor.current.kind := by
  obtain ⟨token, rest, rfl, begins⟩ := form.begins
  exact passes.current ▸ begins

theorem ExprForm.current_ne {cursor cursor' : Cursor} {kind : Token.Kind}
    (form : ExprForm level tokens value) (passes : cursor.Passes tokens cursor')
    (other : ¬BeginsExpr kind) : cursor.current.kind ≠ kind := by
  rintro rfl
  exact other (form.begins_current passes)

end Grammar

namespace Parser

open Cursor Grammar

variable {cursor middle cursor' : Cursor} {budget least level : Nat} {value left : Expr} {op : BinaryOp}
  {tokens : List Token}

/-- Whether no operator ahead of a cursor binds at least as tightly as asked. -/
def Stops (least : Nat) (cursor : Cursor) : Prop :=
  ∀ op, cursor.current.kind = .operator op → levelOf op < least

theorem climb_stops (stops : Stops least cursor) :
    climbWithin least left budget cursor = .ok left cursor := by
  cases budget with
  | zero => rfl
  | succ budget =>
    rw [climbWithin, peek_bind]
    cases ahead : cursor.current.kind.operator? with
    | none => rfl
    | some op =>
      have loose := stops op (Token.Kind.operator?_eq_some.mp ahead)
      rw [← op.precedence_eq] at loose
      simp only [if_pos loose]
      rfl

theorem climb_goes (ahead : cursor.current.kind = .operator op) (tight : least ≤ levelOf op) :
    climbWithin least left (budget + 1) cursor =
      (exprWithin (levelOf op + 1) budget >>= fun right =>
        climbWithin least (.binary op left right) budget) cursor.advance := by
  have known : cursor.current.kind.operator? = some op := Token.Kind.operator?_eq_some.mpr ahead
  rw [climbWithin, peek_bind, known]
  simp only [op.precedence_eq, if_neg (Nat.not_lt.mpr tight), op.rightPrecedence_eq]
  rfl

theorem integer_ok (proper : cursor.Proper) (literal : cursor.current.kind = .integer) :
    integer cursor = .ok value cursor' ↔ ∃ token, Passes cursor [token] cursor' ∧
      ∃ number, Numeral token.text.toList number ∧ .int number token.span = value := by
  rw [integer, advance_bind]
  have passes := proper.passes (by simp [literal])
  cases denoted : Decimal.int32? cursor.current.text.toList with
  | none =>
    constructor
    · intro reads
      exact absurd reads fail_ne_ok
    · rintro ⟨token, other, number, denotes, _⟩
      rw [← other.current, ← int32?_eq_some, denoted] at denotes
      cases denotes
  | some number =>
    constructor
    · intro reads
      obtain ⟨rfl, rfl⟩ := pure_ok.mp reads
      exact ⟨_, passes, number, int32?_eq_some.mp denoted, rfl⟩
    · rintro ⟨token, other, number', denotes, rfl⟩
      rw [← other.current, ← int32?_eq_some, denoted] at denotes
      cases denotes
      rw [← other.current, ← other.advance]
      rfl

/-- Whether a reader of expressions has read one of at least a level and stopped rightly. -/
def ReadsExpr (least : Nat) (cursor : Cursor) (value : Expr) (cursor' : Cursor) : Prop :=
  ∃ tokens, Passes cursor tokens cursor' ∧ ExprForm least tokens value ∧ Stops least cursor'

/-- What the readers of expressions give within a budget that suffices for the tokens ahead. -/
structure SoundWithin (budget : Nat) : Prop where
  expr : ∀ {least cursor value cursor'}, Cursor.Proper cursor → least ≤ 3 →
    3 * cursor.ahead.length + 2 ≤ budget → exprWithin least budget cursor = .ok value cursor' →
    ReadsExpr least cursor value cursor'
  climb : ∀ {least level start left tokens cursor value cursor'}, Cursor.Proper cursor →
    3 * cursor.ahead.length ≤ budget → climbWithin least left budget cursor = .ok value cursor' →
    least ≤ level → level ≤ 3 → Passes start tokens cursor → ExprForm level tokens left →
    Stops (level + 1) cursor → ReadsExpr least start value cursor'
  operand : ∀ {cursor value cursor'}, Cursor.Proper cursor → 3 * cursor.ahead.length + 1 ≤ budget →
    operandWithin budget cursor = .ok value cursor' →
    ∃ tokens, Passes cursor tokens cursor' ∧ ExprForm 3 tokens value
  arguments : ∀ {cursor args cursor'}, Cursor.Proper cursor → 3 * cursor.ahead.length + 3 ≤ budget →
    argumentsWithin budget cursor = .ok args cursor' →
    ∃ tokens, Passes cursor tokens cursor' ∧ ArgsForm tokens args

theorem stops_of_gt (bound : 3 ≤ least) : Stops least cursor := by
  intro op _
  have := levelOf_le op
  omega

theorem exprWithin_sound (sound : SoundWithin budget) (proper : cursor.Proper) (bound : least ≤ 3)
    (enough : 3 * cursor.ahead.length + 2 ≤ budget + 1)
    (reads : exprWithin least (budget + 1) cursor = .ok value cursor') :
    ReadsExpr least cursor value cursor' := by
  obtain ⟨left, middle, first, rest⟩ := bind_ok.mp reads
  obtain ⟨tokens, passes, form⟩ := sound.operand proper (by omega) first
  have shorter := passes.length
  exact sound.climb (passes.proper proper) (by omega) rest bound (Nat.le_refl 3) passes form
    (stops_of_gt (by decide))

theorem climbWithin_sound {start : Cursor} (sound : SoundWithin budget) (proper : cursor.Proper)
    (enough : 3 * cursor.ahead.length ≤ budget + 1)
    (reads : climbWithin least left (budget + 1) cursor = .ok value cursor') (looser : least ≤ level)
    (bound : level ≤ 3) (passes : Passes start tokens cursor) (form : ExprForm level tokens left)
    (fits : Stops (level + 1) cursor) : ReadsExpr least start value cursor' := by
  by_cases stops : Stops least cursor
  · rw [climb_stops stops] at reads
    cases reads
    exact ⟨tokens, passes, form.loosen looser bound, stops⟩
  · -- the operator ahead binds no tighter than the left side allows, so that side is of its level
    obtain ⟨op, ahead, tight⟩ : ∃ op, cursor.current.kind = .operator op ∧ least ≤ levelOf op := by
      simpa [Stops] using stops
    have one := proper.passes (by simp [ahead])
    have less := one.length
    have own := form.loosen (Nat.le_of_lt_succ (fits op ahead)) bound
    rw [climb_goes ahead tight] at reads
    obtain ⟨right, behind, second, rest⟩ := bind_ok.mp reads
    obtain ⟨more, passesRight, formRight, stopsRight⟩ :=
      sound.expr (one.proper proper) (Nat.succ_le_succ (levelOf_le op)) (by simp at less; omega) second
    have joined := passes.append (one.append passesRight)
    have shorter := passesRight.length
    exact sound.climb ((passesRight.proper (one.proper proper))) (by simp at less; omega) rest tight
      (by have := levelOf_le op; omega) joined (.binary own ahead formRight) stopsRight

theorem operandWithin_sound (sound : SoundWithin budget) (proper : cursor.Proper)
    (enough : 3 * cursor.ahead.length + 1 ≤ budget + 1)
    (reads : operandWithin (budget + 1) cursor = .ok value cursor') :
    ∃ tokens, Passes cursor tokens cursor' ∧ ExprForm 3 tokens value := by
  rw [operandWithin, peek_bind] at reads
  cases ahead : cursor.current.kind with
  | openParen =>
    have one := proper.passes (by simp [ahead])
    have less := one.length
    simp only [ahead, advance_bind, bind_ok, pure_ok] at reads
    obtain ⟨inside, middle, first, closing, behind, second, rfl, rfl⟩ := reads
    obtain ⟨tokens, passes, form, _⟩ :=
      sound.expr (one.proper proper) (Nat.zero_le 3) (by simp at less; omega) first
    obtain ⟨closed, closes⟩ :=
      (expect_ok (passes.proper (one.proper proper)) (by decide)).mp second
    exact ⟨_, one.append (passes.append closed), .paren ahead form closes⟩
  | integer =>
    simp only [ahead] at reads
    obtain ⟨token, passes, number, denotes, rfl⟩ := (integer_ok proper ahead).mp reads
    exact ⟨_, passes, .int (passes.current ▸ ahead) denotes⟩
  | identifier =>
    simp only [ahead] at reads
    obtain ⟨name, middle, first, rest⟩ := bind_ok.mp reads
    obtain ⟨token, passes, named, rfl⟩ := (ident_ok proper).mp first
    have properMiddle := passes.proper proper
    have less := passes.length
    rcases consume_eq .openParen (by decide) properMiddle with
      ⟨opens, one, consumed⟩ | ⟨_, kept⟩
    · rw [bind_eq consumed] at rest
      simp only [if_true, bind_ok, pure_ok] at rest
      obtain ⟨args, behind, second, closing, last, third, rfl, rfl⟩ := rest
      have lessToo := one.length
      obtain ⟨tokens, passesArgs, form⟩ :=
        sound.arguments (one.proper properMiddle) (by simp at less lessToo; omega) second
      obtain ⟨closed, closes⟩ :=
        (expect_ok (passesArgs.proper (one.proper properMiddle)) (by decide)).mp third
      exact ⟨_, passes.append (one.append (passesArgs.append closed)), .call named opens form closes⟩
    · rw [bind_eq kept] at rest
      simp only [Bool.false_eq_true, if_false, pure_ok] at rest
      obtain ⟨rfl, rfl⟩ := rest
      exact ⟨_, passes, .var named⟩
  | _ =>
    simp only [ahead] at reads
    exact absurd reads unexpected_ne_ok

theorem argumentsWithin_sound {args : List Expr} (sound : SoundWithin budget) (proper : cursor.Proper)
    (enough : 3 * cursor.ahead.length + 3 ≤ budget + 1)
    (reads : argumentsWithin (budget + 1) cursor = .ok args cursor') :
    ∃ tokens, Passes cursor tokens cursor' ∧ ArgsForm tokens args := by
  rw [argumentsWithin, check_bind] at reads
  by_cases closes : cursor.current.kind = .closeParen
  · simp only [closes, decide_true, if_true, pure_ok] at reads
    obtain ⟨rfl, rfl⟩ := reads
    exact ⟨[], .refl cursor, .nil⟩
  · simp only [closes, decide_false, Bool.false_eq_true, if_false] at reads
    obtain ⟨arg, middle, first, rest⟩ := bind_ok.mp reads
    obtain ⟨tokens, passes, form, _⟩ := sound.expr proper (Nat.zero_le 3) (by omega) first
    have properMiddle := passes.proper proper
    have less := passes.length
    rcases consume_eq .comma (by decide) properMiddle with
      ⟨separates, one, consumed⟩ | ⟨_, kept⟩
    · rw [bind_eq consumed] at rest
      simp only [if_true, bind_ok, pure_ok] at rest
      obtain ⟨others, behind, second, rfl, rfl⟩ := rest
      have lessToo := one.length
      obtain ⟨more, passesOthers, formOthers⟩ :=
        sound.arguments (one.proper properMiddle) (by simp at lessToo; omega) second
      exact ⟨_, passes.append (one.append passesOthers), .cons form separates formOthers⟩
    · rw [bind_eq kept] at rest
      simp only [Bool.false_eq_true, if_false, check_bind] at rest
      by_cases closed : middle.current.kind = .closeParen
      · simp only [closed, decide_true, if_true, pure_ok] at rest
        obtain ⟨rfl, rfl⟩ := rest
        exact ⟨tokens, passes, .last form⟩
      · simp only [closed, decide_false, Bool.false_eq_true, if_false] at rest
        exact absurd rest unexpected_ne_ok

theorem soundWithin : ∀ budget, SoundWithin budget
  | 0 => {
    expr := fun _ _ enough => absurd enough (by omega)
    climb := by
      intro least level start left tokens cursor value cursor' proper enough reads looser bound passes
        form _
      have none : cursor.ahead = [] := List.length_eq_zero_iff.mp (by omega)
      have stops : Stops least cursor := by
        intro op ahead
        rw [proper.current_of_nil none] at ahead
        cases ahead
      cases reads
      exact ⟨tokens, passes, form.loosen looser bound, stops⟩
    operand := fun _ enough => absurd enough (by omega)
    arguments := fun _ enough => absurd enough (by omega) }
  | budget + 1 => {
    expr := exprWithin_sound (soundWithin budget)
    climb := climbWithin_sound (soundWithin budget)
    operand := operandWithin_sound (soundWithin budget)
    arguments := argumentsWithin_sound (soundWithin budget) }

/-- What is read as an expression is the form of one. -/
theorem expr_sound (proper : cursor.Proper) (reads : expr cursor = .ok value cursor') :
    ∃ tokens, Passes cursor tokens cursor' ∧ ExprForm 0 tokens value := by
  rw [expr, get_bind] at reads
  obtain ⟨tokens, passes, form, _⟩ :=
    (soundWithin _).expr proper (Nat.zero_le 3) (Nat.le_refl _) reads
  exact ⟨tokens, passes, form⟩

/-- Whether a token of a kind ends an expression before it. -/
def EndsExpr (kind : Token.Kind) : Prop := kind.operator? = none ∧ kind ≠ .openParen

instance : DecidablePred EndsExpr := fun _ => inferInstanceAs (Decidable (_ ∧ _))

theorem stops_of_endsExpr (ends : EndsExpr cursor.current.kind) : Stops least cursor := by
  intro op ahead
  rw [EndsExpr, Token.Kind.operator?_eq_some.mpr ahead] at ends
  cases ends.1

/-- Whether, wherever tokens of a level stand before what cannot go on with them, reading them is the
same as climbing on from a tree. -/
def ReadsAs (level : Nat) (tokens : List Token) (value : Expr) : Prop :=
  ∀ ⦃least budget : Nat⦄ ⦃cursor cursor' : Cursor⦄, least ≤ level → cursor.Proper →
    Passes cursor tokens cursor' → Stops (level + 1) cursor' → cursor'.current.kind ≠ .openParen →
    3 * tokens.length ≤ budget → ∃ budget', budget ≤ budget' + tokens.length ∧
      exprWithin least budget cursor = climbWithin least value budget' cursor'

/-- Whether arguments are read wherever they stand before a closing parenthesis. -/
def ReadsArgs (tokens : List Token) (args : List Expr) : Prop :=
  ∀ ⦃budget : Nat⦄ ⦃cursor cursor' : Cursor⦄, cursor.Proper → Passes cursor tokens cursor' →
    cursor'.current.kind = .closeParen → 3 * tokens.length + 1 ≤ budget →
    argumentsWithin budget cursor = .ok args cursor'

theorem ReadsAs.expr (as : ReadsAs level tokens value) (proper : cursor.Proper)
    (passes : Passes cursor tokens cursor') (ends : EndsExpr cursor'.current.kind)
    (enough : 3 * tokens.length ≤ budget) : exprWithin 0 budget cursor = .ok value cursor' := by
  obtain ⟨_, _, reads⟩ :=
    as (Nat.zero_le level) proper passes (stops_of_endsExpr ends) ends.2 enough
  rw [reads, climb_stops (stops_of_endsExpr ends)]

/-- An operand is read as it is, if it is read at all. -/
theorem readsAs_operand (nonempty : tokens ≠ [])
    (operand : ∀ ⦃budget : Nat⦄ ⦃cursor cursor' : Cursor⦄, cursor.Proper →
      Passes cursor tokens cursor' → cursor'.current.kind ≠ .openParen →
      3 * tokens.length ≤ budget + 2 → operandWithin (budget + 1) cursor = .ok value cursor') :
    ReadsAs 3 tokens value := by
  intro least budget cursor cursor' _ proper passes _ other enough
  have positive := List.length_pos_iff.mpr nonempty
  obtain ⟨budget, rfl⟩ := Nat.exists_eq_add_of_le' (show 2 ≤ budget by omega)
  refine ⟨budget + 1, by omega, ?_⟩
  rw [exprWithin, bind_eq (operand proper passes other enough)]

theorem binary_readsAs {sign : Token} {left right : List Token} {a b : Expr}
    (first : ReadsAs (levelOf op) left a) (joins : sign.kind = .operator op)
    (second : ReadsAs (levelOf op + 1) right b) :
    ReadsAs (levelOf op) (left ++ sign :: right) (.binary op a b) := by
  intro least budget cursor cursor' looser proper passes stops other enough
  obtain ⟨middle, passesLeft, rest⟩ := passes.split
  obtain ⟨behind, one, passesRight⟩ := rest.cons
  have ahead : middle.current.kind = .operator op := rest.current ▸ joins
  have properMiddle := passesLeft.proper proper
  have fits : Stops (levelOf op + 1) middle := by
    intro op' same
    rw [ahead] at same
    cases same
    exact Nat.lt_succ_self _
  simp only [List.length_append, List.length_cons] at enough ⊢
  obtain ⟨budget₁, spent, climbs⟩ :=
    first looser proper passesLeft fits (by simp [ahead]) (show 3 * left.length ≤ budget by omega)
  obtain ⟨budget₂, rfl⟩ := Nat.exists_eq_add_one_of_ne_zero (show budget₁ ≠ 0 by omega)
  obtain ⟨_, _, reads⟩ := second (Nat.le_refl _) (one.proper properMiddle) passesRight
    (fun op' same => Nat.lt_succ_of_lt (stops op' same)) other
    (show 3 * right.length ≤ budget₂ by omega)
  rw [climb_stops stops] at reads
  refine ⟨budget₂, by omega, ?_⟩
  rw [climbs, climb_goes ahead looser, one.advance]
  exact bind_eq reads

theorem paren_readsAs {opening closing : Token} {inside : List Token}
    (opens : opening.kind = .openParen) (form : ReadsAs 0 inside value)
    (closes : closing.kind = .closeParen) :
    ReadsAs 3 (opening :: (inside ++ [closing])) value := by
  refine readsAs_operand (List.cons_ne_nil _ _) ?_
  intro budget cursor cursor' proper passes _ enough
  obtain ⟨middle, one, rest⟩ := passes.cons
  obtain ⟨behind, passesInside, last⟩ := rest.split
  have properMiddle := one.proper proper
  simp only [List.length_append, List.length_cons] at enough
  have reads := form.expr properMiddle passesInside
    (by rw [last.current, closes]; decide) (show _ ≤ budget by omega)
  have closed := (expect_ok (passesInside.proper properMiddle) (by decide)).mpr ⟨last, closes⟩
  rw [operandWithin, peek_bind, one.current, opens]
  simp only [advance_bind, one.advance]
  rw [bind_eq reads, bind_eq closed]
  rfl

theorem int_readsAs {token : Token} {number : Int32} (literal : token.kind = .integer)
    (denotes : Numeral token.text.toList number) :
    ReadsAs 3 [token] (.int number token.span) := by
  refine readsAs_operand (List.cons_ne_nil _ _) ?_
  intro budget cursor cursor' proper passes _ _
  have known := passes.current ▸ literal
  rw [operandWithin, peek_bind, known]
  exact (integer_ok proper known).mpr ⟨_, passes, _, denotes, rfl⟩

theorem var_readsAs {token : Token} (named : token.kind = .identifier) :
    ReadsAs 3 [token] (.var (nameOf token)) := by
  refine readsAs_operand (List.cons_ne_nil _ _) ?_
  intro budget cursor cursor' proper passes other _
  rw [operandWithin, peek_bind, passes.current, named]
  simp only [bind_eq ((ident_ok proper).mpr ⟨_, passes, named, rfl⟩)]
  exact bind_eq (consume_keeps other)

theorem call_readsAs {token opening closing : Token} {inside : List Token} {args : List Expr}
    (named : token.kind = .identifier) (opens : opening.kind = .openParen)
    (form : ReadsArgs inside args) (closes : closing.kind = .closeParen) :
    ReadsAs 3 (token :: opening :: (inside ++ [closing]))
      (.call (nameOf token) args (token.span.merge closing.span)) := by
  refine readsAs_operand (List.cons_ne_nil _ _) ?_
  intro budget cursor cursor' proper passes _ enough
  obtain ⟨first, name, rest⟩ := passes.cons
  obtain ⟨second, one, rest⟩ := rest.cons
  obtain ⟨third, passesInside, last⟩ := rest.split
  have properFirst := name.proper proper
  have properSecond := one.proper properFirst
  simp only [List.length_append, List.length_cons] at enough
  have args := form properSecond passesInside (last.current ▸ closes) (show _ ≤ budget by omega)
  have closed := (expect_ok (passesInside.proper properSecond) (by decide)).mpr ⟨last, closes⟩
  rw [operandWithin, peek_bind, name.current, named]
  simp only [bind_eq ((ident_ok proper).mpr ⟨_, name, named, rfl⟩)]
  rw [bind_eq (consume_passes one opens), if_pos rfl, bind_eq args, bind_eq closed]
  rfl

theorem last_readsArgs {arg : Expr} (form : ExprForm 0 tokens arg) (as : ReadsAs 0 tokens arg) :
    ReadsArgs tokens [arg] := by
  intro budget cursor cursor' proper passes closes enough
  obtain ⟨budget, rfl⟩ := Nat.exists_eq_add_one_of_ne_zero (show budget ≠ 0 by omega)
  have reads := as.expr proper passes (by rw [closes]; decide) (show _ ≤ budget by omega)
  rw [argumentsWithin, check_bind, decide_eq_false (form.current_ne passes (by decide)), if_neg Bool.false_ne_true,
    bind_eq reads, bind_eq (consume_keeps (closes ▸ by decide)), if_neg Bool.false_ne_true,
    check_bind, closes]
  rfl

theorem cons_readsArgs {first rest : List Token} {comma : Token} {arg : Expr} {args : List Expr}
    (form : ExprForm 0 first arg) (as : ReadsAs 0 first arg) (separates : comma.kind = .comma)
    (others : ReadsArgs rest args) : ReadsArgs (first ++ comma :: rest) (arg :: args) := by
  intro budget cursor cursor' proper passes closes enough
  obtain ⟨middle, passesFirst, behind⟩ := passes.split
  obtain ⟨after, one, passesRest⟩ := behind.cons
  have properMiddle := passesFirst.proper proper
  have ahead : middle.current.kind = .comma := one.current ▸ separates
  simp only [List.length_append, List.length_cons] at enough
  obtain ⟨budget, rfl⟩ := Nat.exists_eq_add_one_of_ne_zero (show budget ≠ 0 by omega)
  have reads := as.expr proper passesFirst (by rw [ahead]; decide) (show _ ≤ budget by omega)
  have readsRest := others (one.proper properMiddle) passesRest closes (show _ ≤ budget by omega)
  rw [argumentsWithin, check_bind, decide_eq_false (form.current_ne passesFirst (by decide)),
    if_neg Bool.false_ne_true, bind_eq reads, bind_eq (consume_passes one separates), if_pos rfl,
    bind_eq readsRest]
  rfl

mutual

theorem readsAs_of_form : ∀ {level : Nat} {tokens : List Token} {value : Expr},
    ExprForm level tokens value → ReadsAs level tokens value
  | _, _, _, .binary first joins second =>
    binary_readsAs (readsAs_of_form first) joins (readsAs_of_form second)
  | _, _, _, .tighter _ form => fun _ _ _ _ looser proper passes stops =>
    readsAs_of_form form (Nat.le_succ_of_le looser) proper passes
      fun op same => Nat.lt_succ_of_lt (stops op same)
  | _, _, _, .paren opens form closes => paren_readsAs opens (readsAs_of_form form) closes
  | _, _, _, .int literal denotes => int_readsAs literal denotes
  | _, _, _, .var named => var_readsAs named
  | _, _, _, .call named opens form closes => call_readsAs named opens (readsArgs_of_form form) closes

theorem readsArgs_of_form : ∀ {tokens : List Token} {args : List Expr},
    ArgsForm tokens args → ReadsArgs tokens args
  | _, _, .nil => by
    intro budget cursor cursor' _ passes closes enough
    obtain ⟨budget, rfl⟩ := Nat.exists_eq_add_one_of_ne_zero (show budget ≠ 0 by omega)
    obtain rfl := passes.eq_self
    rw [argumentsWithin, check_bind, closes]
    rfl
  | _, _, .last form => last_readsArgs form (readsAs_of_form form)
  | _, _, .cons form separates others =>
    cons_readsArgs form (readsAs_of_form form) separates (readsArgs_of_form others)

end

/-- An expression is read wherever its form stands before what ends it. -/
theorem expr_complete (form : ExprForm 0 tokens value) (proper : cursor.Proper)
    (passes : Passes cursor tokens cursor') (ends : EndsExpr cursor'.current.kind) :
    expr cursor = .ok value cursor' := by
  rw [expr, get_bind]
  refine (readsAs_of_form form).expr proper passes ends ?_
  rw [exprBudget, passes.length]
  omega

end Parser

end OliCompiler
