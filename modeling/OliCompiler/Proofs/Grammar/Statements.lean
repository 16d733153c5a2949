import OliCompiler.Proofs.Grammar.Expressions

/-!
Readers of statements read forms of statements, and they read every form. What follows a statement is
never `else`, so an `if` takes every `else` that it can.
-/

namespace OliCompiler

namespace Grammar

variable {inLoop : Bool} {tokens : List Token} {stmt : Stmt}

/-- Whether a statement may begin with a token of a kind. -/
def BeginsStmt (kind : Token.Kind) : Prop :=
  kind ≠ .closeBrace ∧ kind ≠ .endOfFile ∧ kind ≠ .keyword .else

instance : DecidablePred BeginsStmt := fun _ => inferInstanceAs (Decidable (_ ∧ _))

theorem beginsStmt_of_beginsExpr {kind : Token.Kind} (begins : BeginsExpr kind) : BeginsStmt kind := by
  rcases begins with rfl | rfl | rfl <;> decide

theorem StmtForm.begins (form : StmtForm inLoop tokens stmt) :
    ∃ token rest, tokens = token :: rest ∧ BeginsStmt token.kind := by
  cases form with
  | declare form =>
    cases form with
    | mk begins => exact ⟨_, _, rfl, begins ▸ by decide⟩
  | assign form =>
    cases form with
    | mk named => exact ⟨_, _, rfl, named ▸ by decide⟩
  | expr form =>
    obtain ⟨token, rest, rfl, begins⟩ := form.begins
    exact ⟨token, _, rfl, beginsStmt_of_beginsExpr begins⟩
  | «return» begins | «if» begins | «while» begins | «for» begins | «break» begins
  | «continue» begins => exact ⟨_, _, rfl, begins ▸ by decide⟩

theorem BlockForm.begins {body : List Stmt} {close : Span} (form : BlockForm inLoop tokens body close) :
    ∃ opening rest, tokens = opening :: rest ∧ opening.kind = .openBrace := by
  cases form with
  | mk opens => exact ⟨_, _, rfl, opens⟩

end Grammar

namespace Parser

open Cursor Grammar

variable {cursor middle cursor' : Cursor} {budget : Nat} {inLoop : Bool} {tokens : List Token}
  {binding : Binding} {value : Expr} {stmt : Stmt} {stmts body : List Stmt} {tail : Tail} {close : Span}

theorem declaration_sound (proper : cursor.Proper) (reads : declaration cursor = .ok binding cursor') :
    ∃ tokens, Passes cursor tokens cursor' ∧ BindingForm tokens binding := by
  simp only [declaration, bind_ok, pure_ok] at reads
  obtain ⟨name, first, named, sign, second, assigned, value, third, computed, rfl, rfl⟩ := reads
  obtain ⟨token, passes, identifier, rfl⟩ := (declaredName_ok proper).mp named
  have properFirst := passes.proper proper
  obtain ⟨one, assigns⟩ := (expect_ok properFirst (by decide)).mp assigned
  obtain ⟨tokens, passesValue, form⟩ := expr_sound (one.proper properFirst) computed
  exact ⟨_, passes.append (one.append passesValue), .mk identifier assigns form⟩

theorem assignment_sound (proper : cursor.Proper) (reads : assignment cursor = .ok binding cursor') :
    ∃ tokens, Passes cursor tokens cursor' ∧ BindingForm tokens binding := by
  simp only [assignment, bind_ok, pure_ok] at reads
  obtain ⟨name, first, named, sign, second, assigned, value, third, computed, rfl, rfl⟩ := reads
  obtain ⟨token, passes, identifier, rfl⟩ := (ident_ok proper).mp named
  have properFirst := passes.proper proper
  obtain ⟨one, assigns⟩ := (expect_ok properFirst (by decide)).mp assigned
  obtain ⟨tokens, passesValue, form⟩ := expr_sound (one.proper properFirst) computed
  exact ⟨_, passes.append (one.append passesValue), .mk identifier assigns form⟩

theorem binding_complete (form : BindingForm tokens binding) (proper : cursor.Proper)
    (passes : Passes cursor tokens cursor') (ends : EndsExpr cursor'.current.kind) :
    declaration cursor = .ok binding cursor' ∧ assignment cursor = .ok binding cursor' := by
  cases form with
  | mk identifier assigns form =>
    obtain ⟨first, name, rest⟩ := passes.cons
    obtain ⟨second, one, passesValue⟩ := rest.cons
    have properFirst := name.proper proper
    have assigned := (expect_ok properFirst (by decide)).mpr ⟨one, assigns⟩
    have computed := expr_complete form (one.proper properFirst) passesValue ends
    constructor
    · rw [declaration, bind_eq ((declaredName_ok proper).mpr ⟨_, name, identifier, rfl⟩),
        bind_eq assigned, bind_eq computed]
      rfl
    · rw [assignment, bind_eq ((ident_ok proper).mpr ⟨_, name, identifier, rfl⟩),
        bind_eq assigned, bind_eq computed]
      rfl

theorem letDeclaration_sound (proper : cursor.Proper)
    (reads : letDeclaration cursor = .ok binding cursor') :
    ∃ tokens, Passes cursor tokens cursor' ∧ LetForm tokens binding := by
  simp only [letDeclaration, bind_ok, pure_ok] at reads
  obtain ⟨word, first, begun, _, second, declared, stop, third, ended, rfl, rfl⟩ := reads
  obtain ⟨one, begins⟩ := (expect_ok proper (by decide)).mp begun
  have properFirst := one.proper proper
  obtain ⟨tokens, passes, form⟩ := declaration_sound properFirst declared
  obtain ⟨last, ends⟩ := (expect_ok (passes.proper properFirst) (by decide)).mp ended
  exact ⟨_, one.append (passes.append last), .mk begins form ends⟩

theorem letDeclaration_complete (form : LetForm tokens binding) (proper : cursor.Proper)
    (passes : Passes cursor tokens cursor') : letDeclaration cursor = .ok binding cursor' := by
  cases form with
  | mk begins form ends =>
    obtain ⟨first, one, rest⟩ := passes.cons
    obtain ⟨second, passesBinding, last⟩ := rest.split
    have properFirst := one.proper proper
    have declared := (binding_complete form properFirst passesBinding
      (by rw [last.current, ends]; decide)).1
    rw [letDeclaration, bind_eq ((expect_ok proper (by decide)).mpr ⟨one, begins⟩), bind_eq declared,
      bind_eq ((expect_ok (passesBinding.proper properFirst) (by decide)).mpr ⟨last, ends⟩)]
    rfl

theorem exprThen_sound {wrap : Expr → Stmt} (proper : cursor.Proper)
    (reads : exprThen wrap cursor = .ok stmt cursor') :
    ∃ tokens stop value, Passes cursor (tokens ++ [stop]) cursor' ∧ ExprForm 0 tokens value ∧
      stop.kind = .semicolon ∧ wrap value = stmt := by
  simp only [exprThen, bind_ok, pure_ok] at reads
  obtain ⟨value, first, computed, stop, second, ended, rfl, rfl⟩ := reads
  obtain ⟨tokens, passes, form⟩ := expr_sound proper computed
  obtain ⟨last, ends⟩ := (expect_ok (passes.proper proper) (by decide)).mp ended
  exact ⟨tokens, stop, value, passes.append last, form, ends, rfl⟩

theorem exprThen_complete {wrap : Expr → Stmt} {stop : Token} (form : ExprForm 0 tokens value)
    (ends : stop.kind = .semicolon) (proper : cursor.Proper)
    (passes : Passes cursor (tokens ++ [stop]) cursor') :
    exprThen wrap cursor = .ok (wrap value) cursor' := by
  obtain ⟨middle, passesValue, last⟩ := passes.split
  have computed := expr_complete form proper passesValue (by rw [last.current, ends]; decide)
  rw [exprThen, bind_eq computed,
    bind_eq ((expect_ok (passesValue.proper proper) (by decide)).mpr ⟨last, ends⟩)]
  rfl

theorem jump_sound {word : Keyword} {wrap : Span → Stmt} (proper : cursor.Proper)
    (begins : cursor.current.kind = .keyword word)
    (reads : jump word inLoop wrap cursor = .ok stmt cursor') :
    inLoop = true ∧ ∃ token stop, Passes cursor [token, stop] cursor' ∧
      token.kind = .keyword word ∧ stop.kind = .semicolon ∧ wrap token.span = stmt := by
  rw [jump, advance_bind] at reads
  cases inLoop with
  | false => exact absurd reads fail_ne_ok
  | true =>
    simp only [if_true, bind_ok, pure_ok] at reads
    obtain ⟨stop, middle, ended, rfl, rfl⟩ := reads
    have one := proper.passes (by simp [begins])
    obtain ⟨last, ends⟩ := (expect_ok (one.proper proper) (by decide)).mp ended
    exact ⟨rfl, _, stop, one.append last, begins, ends, rfl⟩

theorem jump_complete {word : Keyword} {wrap : Span → Stmt} {token stop : Token}
    (ends : stop.kind = .semicolon) (proper : cursor.Proper)
    (passes : Passes cursor [token, stop] cursor') :
    jump word true wrap cursor = .ok (wrap token.span) cursor' := by
  obtain ⟨middle, one, last⟩ := passes.cons
  rw [jump, advance_bind, if_pos rfl, one.current, one.advance,
    bind_eq ((expect_ok (one.proper proper) (by decide)).mpr ⟨last, ends⟩)]
  rfl

theorem stmts_stops (ends : cursor.current.kind = .closeBrace ∨ cursor.current.kind = .endOfFile) :
    stmtsWithin inLoop budget cursor = .ok [] cursor := by
  cases budget with
  | zero => rfl
  | succ budget =>
    rw [stmtsWithin, peek_bind]
    rcases ends with same | same <;> rw [same] <;> rfl

theorem stmts_goes (open_ : cursor.current.kind ≠ .closeBrace)
    (more : cursor.current.kind ≠ .endOfFile) :
    stmtsWithin inLoop (budget + 1) cursor = (do
      let stmt ← stmtWithin inLoop budget
      let stmts ← stmtsWithin inLoop budget
      return stmt :: stmts : Parser (List Stmt)) cursor := by
  rw [stmtsWithin, peek_bind]
  cases ahead : cursor.current.kind with
  | closeBrace => exact absurd ahead open_
  | endOfFile => exact absurd ahead more
  | _ => rfl

/-- What the readers of statements give within a budget. -/
structure SoundStmts (budget : Nat) : Prop where
  stmt : ∀ {inLoop cursor stmt cursor'}, Cursor.Proper cursor →
    stmtWithin inLoop budget cursor = .ok stmt cursor' →
    ∃ tokens, Passes cursor tokens cursor' ∧ StmtForm inLoop tokens stmt
  stmts : ∀ {inLoop cursor stmts cursor'}, Cursor.Proper cursor →
    stmtsWithin inLoop budget cursor = .ok stmts cursor' →
    ∃ tokens, Passes cursor tokens cursor' ∧ StmtsForm inLoop tokens stmts
  tail : ∀ {inLoop cursor tail cursor'}, Cursor.Proper cursor →
    tailWithin inLoop budget cursor = .ok tail cursor' →
    ∃ tokens, Passes cursor tokens cursor' ∧ TailForm inLoop tokens tail

theorem braced_sound (sound : SoundStmts budget) (proper : cursor.Proper)
    (reads : braced (stmtsWithin inLoop budget) cursor = .ok (body, close) cursor') :
    ∃ tokens, Passes cursor tokens cursor' ∧ BlockForm inLoop tokens body close := by
  simp only [braced, bind_ok, pure_ok, Prod.mk.injEq] at reads
  obtain ⟨opening, first, opened, _, second, inside, closing, third, closed, ⟨rfl, rfl⟩, rfl⟩ := reads
  obtain ⟨one, opens⟩ := (expect_ok proper (by decide)).mp opened
  have properFirst := one.proper proper
  obtain ⟨tokens, passes, form⟩ := sound.stmts properFirst inside
  obtain ⟨last, closes⟩ := (expect_ok (passes.proper properFirst) (by decide)).mp closed
  exact ⟨_, one.append (passes.append last), .mk opens form closes⟩

/-- A condition with both of its arms, as in an `if` and behind an `else if`. -/
theorem arms_sound {α : Type} {wrap : Expr → List Stmt → Tail → α} {result : α}
    (sound : SoundStmts budget) (proper : cursor.Proper)
    (reads : (do
      let condition ← expr
      let (body, _) ← braced (stmtsWithin inLoop budget)
      let tail ← tailWithin inLoop budget
      return wrap condition body tail : Parser α) cursor = .ok result cursor') :
    ∃ test block rest condition body tail close, Passes cursor (test ++ (block ++ rest)) cursor' ∧
      ExprForm 0 test condition ∧ BlockForm inLoop block body close ∧ TailForm inLoop rest tail ∧
      wrap condition body tail = result := by
  obtain ⟨condition, first, tested, reads⟩ := bind_ok.mp reads
  obtain ⟨⟨body, close⟩, second, enclosed, reads⟩ := bind_ok.mp reads
  simp only [bind_ok, pure_ok] at reads
  obtain ⟨tail, third, followed, rfl, rfl⟩ := reads
  obtain ⟨test, passesTest, tests⟩ := expr_sound proper tested
  have properFirst := passesTest.proper proper
  obtain ⟨block, passesBlock, blocks⟩ := braced_sound sound properFirst enclosed
  obtain ⟨rest, passesRest, follows⟩ := sound.tail (passesBlock.proper properFirst) followed
  exact ⟨test, block, rest, condition, body, tail, close,
    passesTest.append (passesBlock.append passesRest), tests, blocks, follows, rfl⟩

theorem while_sound (sound : SoundStmts budget) (proper : cursor.Proper)
    (begins : cursor.current.kind = .keyword .while)
    (reads : stmtWithin inLoop (budget + 1) cursor = .ok stmt cursor') :
    ∃ tokens, Passes cursor tokens cursor' ∧ StmtForm inLoop tokens stmt := by
  rw [stmtWithin, peek_bind, begins] at reads
  simp only [advance_bind] at reads
  have word := proper.passes (by simp [begins])
  have properWord := word.proper proper
  obtain ⟨opening, first, opened, reads⟩ := bind_ok.mp reads
  obtain ⟨one, opens⟩ := (expect_ok properWord (by decide)).mp opened
  have properFirst := one.proper properWord
  obtain ⟨condition, second, tested, reads⟩ := bind_ok.mp reads
  obtain ⟨test, passesTest, tests⟩ := expr_sound properFirst tested
  have properSecond := passesTest.proper properFirst
  obtain ⟨closing, third, closed, reads⟩ := bind_ok.mp reads
  obtain ⟨last, closes⟩ := (expect_ok properSecond (by decide)).mp closed
  obtain ⟨⟨body, close⟩, fourth, enclosed, reads⟩ := bind_ok.mp reads
  obtain ⟨block, passesBlock, blocks⟩ := braced_sound sound (last.proper properSecond) enclosed
  obtain ⟨rfl, rfl⟩ := pure_ok.mp reads
  exact ⟨_, word.append (one.append (passesTest.append (last.append passesBlock))),
    .while begins opens tests closes blocks⟩

theorem optionalLet_sound {found : Bool} (proper : cursor.Proper)
    (reads : consume (.keyword .let) cursor = .ok found cursor') :
    ∃ tokens, Passes cursor tokens cursor' ∧ OptionalLet tokens := by
  rcases consume_eq (.keyword .let) (by decide) proper with
    ⟨begins, one, consumed⟩ | ⟨_, kept⟩
  · rw [consumed] at reads
    cases reads
    exact ⟨_, one, .present begins⟩
  · rw [kept] at reads
    cases reads
    exact ⟨[], .refl cursor, .absent⟩

theorem for_sound (sound : SoundStmts budget) (proper : cursor.Proper)
    (begins : cursor.current.kind = .keyword .for)
    (reads : stmtWithin inLoop (budget + 1) cursor = .ok stmt cursor') :
    ∃ tokens, Passes cursor tokens cursor' ∧ StmtForm inLoop tokens stmt := by
  rw [stmtWithin, peek_bind, begins] at reads
  simp only [advance_bind] at reads
  have word := proper.passes (by simp [begins])
  have properWord := word.proper proper
  obtain ⟨opening, first, opened, reads⟩ := bind_ok.mp reads
  obtain ⟨one, opens⟩ := (expect_ok properWord (by decide)).mp opened
  have properFirst := one.proper properWord
  obtain ⟨_, second, consumed, reads⟩ := bind_ok.mp reads
  obtain ⟨optional, passesLet, mayDeclare⟩ := optionalLet_sound properFirst consumed
  have properSecond := passesLet.proper properFirst
  obtain ⟨init, third, declared, reads⟩ := bind_ok.mp reads
  obtain ⟨start, passesInit, starts⟩ := declaration_sound properSecond declared
  have properThird := passesInit.proper properSecond
  obtain ⟨stop, fourth, ended, reads⟩ := bind_ok.mp reads
  obtain ⟨two, ends⟩ := (expect_ok properThird (by decide)).mp ended
  have properFourth := two.proper properThird
  obtain ⟨condition, fifth, tested, reads⟩ := bind_ok.mp reads
  obtain ⟨test, passesTest, tests⟩ := expr_sound properFourth tested
  have properFifth := passesTest.proper properFourth
  obtain ⟨stop', sixth, ended', reads⟩ := bind_ok.mp reads
  obtain ⟨three, ends'⟩ := (expect_ok properFifth (by decide)).mp ended'
  have properSixth := three.proper properFifth
  obtain ⟨update, seventh, updated, reads⟩ := bind_ok.mp reads
  obtain ⟨next, passesNext, updates⟩ := assignment_sound properSixth updated
  have properSeventh := passesNext.proper properSixth
  obtain ⟨closing, eighth, closed, reads⟩ := bind_ok.mp reads
  obtain ⟨last, closes⟩ := (expect_ok properSeventh (by decide)).mp closed
  obtain ⟨⟨body, close⟩, ninth, enclosed, reads⟩ := bind_ok.mp reads
  obtain ⟨block, passesBlock, blocks⟩ := braced_sound sound (last.proper properSeventh) enclosed
  obtain ⟨rfl, rfl⟩ := pure_ok.mp reads
  exact ⟨_, word.append (one.append (passesLet.append (passesInit.append (two.append
      (passesTest.append (three.append (passesNext.append (last.append passesBlock)))))))),
    .for begins opens mayDeclare starts ends tests ends' updates closes blocks⟩

theorem exprStmt_sound (proper : cursor.Proper) (reads : exprThen .expr cursor = .ok stmt cursor') :
    ∃ tokens, Passes cursor tokens cursor' ∧ StmtForm inLoop tokens stmt := by
  obtain ⟨tokens, stop, value, passes, form, ends, rfl⟩ := exprThen_sound proper reads
  exact ⟨_, passes, .expr form ends⟩

theorem stmtWithin_sound (sound : SoundStmts budget) (proper : cursor.Proper)
    (reads : stmtWithin inLoop (budget + 1) cursor = .ok stmt cursor') :
    ∃ tokens, Passes cursor tokens cursor' ∧ StmtForm inLoop tokens stmt := by
  have whole := reads
  rw [stmtWithin, peek_bind] at reads
  cases ahead : cursor.current.kind with
  | keyword word =>
    have one := proper.passes (by simp [ahead])
    have properOne := one.proper proper
    cases word with
    | «if» =>
      simp only [ahead, advance_bind] at reads
      obtain ⟨test, block, rest, condition, body, tail, close, passes, tests, blocks, follows, rfl⟩ :=
        arms_sound sound properOne reads
      exact ⟨cursor.current :: (test ++ (block ++ rest)), one.append passes,
        .if ahead tests blocks follows⟩
    | «return» =>
      simp only [ahead, advance_bind] at reads
      obtain ⟨tokens, stop, value, passes, form, ends, rfl⟩ := exprThen_sound properOne reads
      exact ⟨_, one.append passes, .return ahead form ends⟩
    | «let» =>
      simp only [ahead, bind_ok, pure_ok] at reads
      obtain ⟨binding, first, declared, rfl, rfl⟩ := reads
      obtain ⟨tokens, passes, form⟩ := letDeclaration_sound proper declared
      exact ⟨tokens, passes, .declare form⟩
    | «for» => exact for_sound sound proper ahead whole
    | «while» => exact while_sound sound proper ahead whole
    | «break» =>
      simp only [ahead] at reads
      obtain ⟨rfl, token, stop, passes, begins, ends, rfl⟩ := jump_sound proper ahead reads
      exact ⟨_, passes, .break begins ends⟩
    | «continue» =>
      simp only [ahead] at reads
      obtain ⟨rfl, token, stop, passes, begins, ends, rfl⟩ := jump_sound proper ahead reads
      exact ⟨_, passes, .continue begins ends⟩
    | fn | «else» =>
      simp only [ahead] at reads
      exact exprStmt_sound proper reads
  | identifier =>
    simp only [ahead, peekFollowing_bind] at reads
    by_cases assigns : cursor.following.kind = .assign
    · simp only [assigns, if_true, bind_ok, pure_ok] at reads
      obtain ⟨binding, first, assigned, stop, second, ended, rfl, rfl⟩ := reads
      obtain ⟨tokens, passes, form⟩ := assignment_sound proper assigned
      obtain ⟨last, ends⟩ := (expect_ok (passes.proper proper) (by decide)).mp ended
      exact ⟨_, passes.append last, .assign form ends⟩
    · simp only [assigns, if_false] at reads
      exact exprStmt_sound proper reads
  | _ =>
    simp only [ahead] at reads
    exact exprStmt_sound proper reads

theorem stmtsWithin_sound (sound : SoundStmts budget) (proper : cursor.Proper)
    (reads : stmtsWithin inLoop (budget + 1) cursor = .ok stmts cursor') :
    ∃ tokens, Passes cursor tokens cursor' ∧ StmtsForm inLoop tokens stmts := by
  by_cases ends : cursor.current.kind = .closeBrace ∨ cursor.current.kind = .endOfFile
  · rw [stmts_stops ends] at reads
    cases reads
    exact ⟨[], .refl cursor, .nil⟩
  · obtain ⟨noBrace, noEnd⟩ := not_or.mp ends
    rw [stmts_goes noBrace noEnd] at reads
    simp only [bind_ok, pure_ok] at reads
    obtain ⟨stmt, middle, first, stmts, behind, rest, rfl, rfl⟩ := reads
    obtain ⟨tokens, passes, form⟩ := sound.stmt proper first
    obtain ⟨more, passesRest, others⟩ := sound.stmts (passes.proper proper) rest
    exact ⟨_, passes.append passesRest, .cons form others⟩

theorem tailWithin_sound (sound : SoundStmts budget) (proper : cursor.Proper)
    (reads : tailWithin inLoop (budget + 1) cursor = .ok tail cursor') :
    ∃ tokens, Passes cursor tokens cursor' ∧ TailForm inLoop tokens tail := by
  rw [tailWithin] at reads
  rcases consume_eq (.keyword .else) (by decide) proper with
    ⟨begins, one, consumed⟩ | ⟨_, kept⟩
  · have properOne := one.proper proper
    rw [bind_eq consumed] at reads
    rcases consume_eq (.keyword .if) (by decide) properOne with
      ⟨continues, two, consumedToo⟩ | ⟨_, keptToo⟩
    · simp only [if_true, bind_eq consumedToo] at reads
      obtain ⟨test, block, rest, condition, body, tail, close, passes, tests, blocks, follows, rfl⟩ :=
        arms_sound sound (two.proper properOne) reads
      exact ⟨cursor.current :: cursor.advance.current :: (test ++ (block ++ rest)),
        one.append (two.append passes), .elseIf begins continues tests blocks follows⟩
    · simp only [if_true, bind_eq keptToo, Bool.false_eq_true, if_false] at reads
      obtain ⟨⟨body, close⟩, middle, enclosed, reads⟩ := bind_ok.mp reads
      obtain ⟨block, passes, blocks⟩ := braced_sound sound properOne enclosed
      obtain ⟨rfl, rfl⟩ := pure_ok.mp reads
      exact ⟨_, one.append passes, .else begins blocks⟩
  · simp only [bind_eq kept, Bool.false_eq_true, if_false, pure_ok] at reads
    obtain ⟨rfl, rfl⟩ := reads
    exact ⟨[], .refl cursor, .none⟩

theorem soundStmts : ∀ budget, SoundStmts budget
  | 0 => {
    stmt := fun _ reads => absurd reads unexpected_ne_ok
    stmts := by
      intro inLoop cursor stmts cursor' _ reads
      cases reads
      exact ⟨[], .refl cursor, .nil⟩
    tail := by
      intro inLoop cursor tail cursor' _ reads
      cases reads
      exact ⟨[], .refl cursor, .none⟩ }
  | budget + 1 => {
    stmt := stmtWithin_sound (soundStmts budget)
    stmts := stmtsWithin_sound (soundStmts budget)
    tail := tailWithin_sound (soundStmts budget) }

/-- What is read as a block is the form of one. -/
theorem block_sound (proper : cursor.Proper) (reads : block inLoop cursor = .ok (body, close) cursor') :
    ∃ tokens, Passes cursor tokens cursor' ∧ BlockForm inLoop tokens body close := by
  rw [block, get_bind] at reads
  exact braced_sound (soundStmts _) proper reads

/-- Whether a statement is read wherever its tokens stand before something other than `else`. -/
def ReadsStmt (inLoop : Bool) (tokens : List Token) (stmt : Stmt) : Prop :=
  ∀ ⦃budget : Nat⦄ ⦃cursor cursor' : Cursor⦄, cursor.Proper → Passes cursor tokens cursor' →
    cursor'.current.kind ≠ .keyword .else → 2 * tokens.length ≤ budget + 1 →
    stmtWithin inLoop budget cursor = .ok stmt cursor'

def ReadsTail (inLoop : Bool) (tokens : List Token) (tail : Tail) : Prop :=
  ∀ ⦃budget : Nat⦄ ⦃cursor cursor' : Cursor⦄, cursor.Proper → Passes cursor tokens cursor' →
    cursor'.current.kind ≠ .keyword .else → 2 * tokens.length ≤ budget →
    tailWithin inLoop budget cursor = .ok tail cursor'

/-- Whether statements are read wherever their tokens stand before a closing brace. -/
def ReadsStmts (inLoop : Bool) (tokens : List Token) (stmts : List Stmt) : Prop :=
  ∀ ⦃budget : Nat⦄ ⦃cursor cursor' : Cursor⦄, cursor.Proper → Passes cursor tokens cursor' →
    cursor'.current.kind = .closeBrace → 2 * tokens.length ≤ budget →
    stmtsWithin inLoop budget cursor = .ok stmts cursor'

def ReadsBlock (inLoop : Bool) (tokens : List Token) (body : List Stmt) (close : Span) : Prop :=
  ∀ ⦃budget : Nat⦄ ⦃cursor cursor' : Cursor⦄, cursor.Proper → Passes cursor tokens cursor' →
    2 * tokens.length ≤ budget + 4 →
    braced (stmtsWithin inLoop budget) cursor = .ok (body, close) cursor'

theorem arms_complete {α : Type} {wrap : Expr → List Stmt → Tail → α} {test enclosed rest : List Token}
    {condition : Expr} (tests : ExprForm 0 test condition)
    (opens : ∃ opening others, enclosed = opening :: others ∧ opening.kind = .openBrace)
    (blocks : ReadsBlock inLoop enclosed body close) (follows : ReadsTail inLoop rest tail)
    (proper : cursor.Proper) (passes : Passes cursor (test ++ (enclosed ++ rest)) cursor')
    (other : cursor'.current.kind ≠ .keyword .else)
    (enough : 2 * (enclosed ++ rest).length ≤ budget) :
    (do
      let condition ← expr
      let (body, _) ← braced (stmtsWithin inLoop budget)
      let tail ← tailWithin inLoop budget
      return wrap condition body tail : Parser α) cursor = .ok (wrap condition body tail) cursor' := by
  obtain ⟨first, passesTest, behind⟩ := passes.split
  obtain ⟨second, passesBlock, passesRest⟩ := behind.split
  obtain ⟨opening, others, rfl, opens⟩ := opens
  simp only [List.length_append] at enough
  have properFirst := passesTest.proper proper
  have tested := expr_complete tests proper passesTest (by rw [passesBlock.current, opens]; decide)
  have enclosed := blocks properFirst passesBlock (show _ ≤ budget + 4 by omega)
  have followed := follows (passesBlock.proper properFirst) passesRest other (show _ ≤ budget by omega)
  rw [bind_eq tested, bind_eq enclosed]
  exact bind_eq followed

theorem declare_readsStmt (form : LetForm tokens binding) :
    ReadsStmt inLoop tokens (.declare binding) := by
  intro budget cursor cursor' proper passes _ enough
  have declared := letDeclaration_complete form proper passes
  cases form with
  | mk begins =>
    simp only [List.length_cons] at enough
    obtain ⟨budget, rfl⟩ := Nat.exists_eq_add_one_of_ne_zero (show budget ≠ 0 by omega)
    rw [stmtWithin, peek_bind, passes.current, begins]
    exact bind_eq declared

theorem assign_readsStmt {stop : Token} (form : BindingForm tokens binding)
    (ends : stop.kind = .semicolon) : ReadsStmt inLoop (tokens ++ [stop]) (.assign binding) := by
  intro budget cursor cursor' proper passes _ enough
  obtain ⟨middle, passesBinding, last⟩ := passes.split
  have assigned := (binding_complete form proper passesBinding
    (by rw [last.current, ends]; decide)).2
  have ended := (expect_ok (passesBinding.proper proper) (by decide)).mpr ⟨last, ends⟩
  cases form with
  | mk named assigns =>
    simp only [List.length_append, List.length_cons] at enough
    obtain ⟨budget, rfl⟩ := Nat.exists_eq_add_one_of_ne_zero (show budget ≠ 0 by omega)
    rw [stmtWithin, peek_bind, passesBinding.current, named]
    simp only [peekFollowing_bind, passesBinding.following, assigns, if_true]
    rw [bind_eq assigned, bind_eq ended]
    rfl

theorem return_readsStmt {word stop : Token} (begins : word.kind = .keyword .return)
    (form : ExprForm 0 tokens value) (ends : stop.kind = .semicolon) :
    ReadsStmt inLoop (word :: (tokens ++ [stop])) (.return value) := by
  intro budget cursor cursor' proper passes _ enough
  obtain ⟨middle, one, rest⟩ := passes.cons
  simp only [List.length_cons] at enough
  obtain ⟨budget, rfl⟩ := Nat.exists_eq_add_one_of_ne_zero (show budget ≠ 0 by omega)
  rw [stmtWithin, peek_bind, one.current, begins]
  simp only [advance_bind, one.advance]
  exact exprThen_complete form ends (one.proper proper) rest

/-- Behind the identifier that begins an expression there is no sign of assignment, so that the
statement is not taken for an assignment. -/
theorem expr_readsStmt {stop : Token} (form : ExprForm 0 tokens value)
    (ends : stop.kind = .semicolon) : ReadsStmt inLoop (tokens ++ [stop]) (.expr value) := by
  intro budget cursor cursor' proper passes _ enough
  have reads : exprThen .expr cursor = .ok (.expr value) cursor' :=
    exprThen_complete form ends proper passes
  have unassigned := form.ne_assign
  obtain ⟨token, rest, rfl, begins⟩ := form.begins
  simp only [List.length_append, List.length_cons] at enough
  obtain ⟨budget, rfl⟩ := Nat.exists_eq_add_one_of_ne_zero (show budget ≠ 0 by omega)
  rw [stmtWithin, peek_bind, passes.current]
  rcases begins with begins | begins | begins
  · simpa only [begins] using reads
  · simpa only [begins] using reads
  · have follows : cursor.following.kind ≠ .assign := by
      cases rest with
      | nil =>
        rw [passes.following, ends]
        decide
      | cons token' rest =>
        rw [passes.following]
        exact unassigned token' (by simp)
    simp only [begins, peekFollowing_bind, follows, if_false]
    exact reads

theorem if_readsStmt {word : Token} {test enclosed rest : List Token} {condition : Expr}
    (begins : word.kind = .keyword .if) (tests : ExprForm 0 test condition)
    (opens : ∃ opening others, enclosed = opening :: others ∧ opening.kind = .openBrace)
    (blocks : ReadsBlock inLoop enclosed body close) (follows : ReadsTail inLoop rest tail) :
    ReadsStmt inLoop (word :: (test ++ (enclosed ++ rest))) (.if condition body tail) := by
  intro budget cursor cursor' proper passes other enough
  obtain ⟨middle, one, behind⟩ := passes.cons
  have positive := tests.length_pos
  simp only [List.length_append, List.length_cons] at enough
  obtain ⟨budget, rfl⟩ := Nat.exists_eq_add_one_of_ne_zero (show budget ≠ 0 by omega)
  rw [stmtWithin, peek_bind, one.current, begins]
  simp only [advance_bind, one.advance]
  exact arms_complete tests opens blocks follows (one.proper proper) behind other
    (by rw [List.length_append]; omega)

theorem while_readsStmt {word opening closing : Token} {test enclosed : List Token} {condition : Expr}
    (begins : word.kind = .keyword .while) (opens : opening.kind = .openParen)
    (tests : ExprForm 0 test condition) (closes : closing.kind = .closeParen)
    (blocks : ReadsBlock true enclosed body close) :
    ReadsStmt inLoop (word :: opening :: (test ++ closing :: enclosed)) (.while condition body) := by
  intro budget cursor cursor' proper passes _ enough
  simp only [List.length_append, List.length_cons] at enough
  obtain ⟨budget, rfl⟩ := Nat.exists_eq_add_one_of_ne_zero (show budget ≠ 0 by omega)
  obtain ⟨first, one, behind⟩ := passes.cons
  have properFirst := one.proper proper
  obtain ⟨second, two, behind⟩ := behind.cons
  have properSecond := two.proper properFirst
  obtain ⟨third, passesTest, behind⟩ := behind.split
  have properThird := passesTest.proper properSecond
  obtain ⟨fourth, last, passesBlock⟩ := behind.cons
  rw [stmtWithin, peek_bind, one.current, begins]
  simp only [advance_bind, one.advance]
  rw [bind_eq ((expect_ok properFirst (by decide)).mpr ⟨two, opens⟩),
    bind_eq (expr_complete tests properSecond passesTest (by rw [last.current, closes]; decide)),
    bind_eq ((expect_ok properThird (by decide)).mpr ⟨last, closes⟩),
    bind_eq (blocks (last.proper properThird) passesBlock (show _ ≤ budget + 4 by omega))]
  rfl

theorem optionalLet_complete (mayDeclare : OptionalLet tokens)
    (other : cursor'.current.kind ≠ .keyword .let) (passes : Passes cursor tokens cursor') :
    ∃ found, consume (.keyword .let) cursor = .ok found cursor' := by
  cases mayDeclare with
  | absent =>
    obtain rfl := passes.eq_self
    exact ⟨false, consume_keeps other⟩
  | present begins => exact ⟨true, consume_passes passes begins⟩

theorem for_readsStmt {word opening stop stop' closing : Token}
    {optional start test next enclosed : List Token} {init update : Binding} {condition : Expr}
    (begins : word.kind = .keyword .for) (opens : opening.kind = .openParen)
    (mayDeclare : OptionalLet optional) (starts : BindingForm start init)
    (ends : stop.kind = .semicolon) (tests : ExprForm 0 test condition)
    (ends' : stop'.kind = .semicolon) (updates : BindingForm next update)
    (closes : closing.kind = .closeParen) (blocks : ReadsBlock true enclosed body close) :
    ReadsStmt inLoop (word :: opening :: (optional ++ (start ++ stop :: (test ++ stop' ::
      (next ++ closing :: enclosed))))) (.for init condition update body) := by
  intro budget cursor cursor' proper passes _ enough
  simp only [List.length_append, List.length_cons] at enough
  obtain ⟨budget, rfl⟩ := Nat.exists_eq_add_one_of_ne_zero (show budget ≠ 0 by omega)
  obtain ⟨first, one, behind⟩ := passes.cons
  have properFirst := one.proper proper
  obtain ⟨second, two, behind⟩ := behind.cons
  have properSecond := two.proper properFirst
  obtain ⟨third, passesLet, behind⟩ := behind.split
  have properThird := passesLet.proper properSecond
  obtain ⟨found, consumed⟩ : ∃ found, consume (.keyword .let) second = .ok found third := by
    cases starts with
    | mk named =>
      exact optionalLet_complete mayDeclare (by rw [behind.current, named]; decide) passesLet
  obtain ⟨fourth, passesInit, behind⟩ := behind.split
  have properFourth := passesInit.proper properThird
  obtain ⟨fifth, three, behind⟩ := behind.cons
  have properFifth := three.proper properFourth
  obtain ⟨sixth, passesTest, behind⟩ := behind.split
  have properSixth := passesTest.proper properFifth
  obtain ⟨seventh, four, behind⟩ := behind.cons
  have properSeventh := four.proper properSixth
  obtain ⟨eighth, passesNext, behind⟩ := behind.split
  have properEighth := passesNext.proper properSeventh
  obtain ⟨ninth, last, passesBlock⟩ := behind.cons
  rw [stmtWithin, peek_bind, one.current, begins]
  simp only [advance_bind, one.advance]
  rw [bind_eq ((expect_ok properFirst (by decide)).mpr ⟨two, opens⟩), bind_eq consumed,
    bind_eq (binding_complete starts properThird passesInit
      (by rw [three.current, ends]; decide)).1,
    bind_eq ((expect_ok properFourth (by decide)).mpr ⟨three, ends⟩),
    bind_eq (expr_complete tests properFifth passesTest (by rw [four.current, ends']; decide)),
    bind_eq ((expect_ok properSixth (by decide)).mpr ⟨four, ends'⟩),
    bind_eq (binding_complete updates properSeventh passesNext
      (by rw [last.current, closes]; decide)).2,
    bind_eq ((expect_ok properEighth (by decide)).mpr ⟨last, closes⟩),
    bind_eq (blocks (last.proper properEighth) passesBlock (show _ ≤ budget + 4 by omega))]
  rfl

theorem jump_readsStmt {word : Keyword} {wrap : Span → Stmt} {token stop : Token}
    (reads : ∀ {budget : Nat} {cursor : Cursor}, cursor.current.kind = .keyword word →
      stmtWithin true (budget + 1) cursor = jump word true wrap cursor)
    (begins : token.kind = .keyword word) (ends : stop.kind = .semicolon) :
    ReadsStmt true [token, stop] (wrap token.span) := by
  intro budget cursor cursor' proper passes _ enough
  simp only [List.length_cons] at enough
  obtain ⟨budget, rfl⟩ := Nat.exists_eq_add_one_of_ne_zero (show budget ≠ 0 by omega)
  rw [reads (passes.current ▸ begins)]
  exact jump_complete ends proper passes

theorem elseIf_readsTail {word word' : Token} {test enclosed rest : List Token} {condition : Expr}
    (begins : word.kind = .keyword .else) (continues : word'.kind = .keyword .if)
    (tests : ExprForm 0 test condition)
    (opens : ∃ opening others, enclosed = opening :: others ∧ opening.kind = .openBrace)
    (blocks : ReadsBlock inLoop enclosed body close) (follows : ReadsTail inLoop rest tail) :
    ReadsTail inLoop (word :: word' :: (test ++ (enclosed ++ rest))) (.elseIf condition body tail) := by
  intro budget cursor cursor' proper passes other enough
  simp only [List.length_append, List.length_cons] at enough
  obtain ⟨budget, rfl⟩ := Nat.exists_eq_add_one_of_ne_zero (show budget ≠ 0 by omega)
  obtain ⟨first, one, behind⟩ := passes.cons
  obtain ⟨second, two, behind⟩ := behind.cons
  have properFirst := one.proper proper
  rw [tailWithin, bind_eq (consume_passes one begins), if_pos rfl,
    bind_eq (consume_passes two continues), if_pos rfl]
  exact arms_complete tests opens blocks follows (two.proper properFirst) behind other
    (by rw [List.length_append]; omega)

theorem else_readsTail {word : Token} {enclosed : List Token} (begins : word.kind = .keyword .else)
    (opens : ∃ opening others, enclosed = opening :: others ∧ opening.kind = .openBrace)
    (blocks : ReadsBlock inLoop enclosed body close) :
    ReadsTail inLoop (word :: enclosed) (.else body) := by
  intro budget cursor cursor' proper passes _ enough
  simp only [List.length_cons] at enough
  obtain ⟨budget, rfl⟩ := Nat.exists_eq_add_one_of_ne_zero (show budget ≠ 0 by omega)
  obtain ⟨middle, one, passesBlock⟩ := passes.cons
  have enclosed := blocks (one.proper proper) passesBlock (show _ ≤ budget + 4 by omega)
  obtain ⟨opening, others, rfl, opens⟩ := opens
  rw [tailWithin, bind_eq (consume_passes one begins), if_pos rfl,
    bind_eq (consume_keeps (passesBlock.current ▸ opens ▸ by decide)), if_neg Bool.false_ne_true,
    bind_eq enclosed]
  rfl

theorem readsBlock {opening closing : Token} (opens : opening.kind = .openBrace)
    (inside : ReadsStmts inLoop tokens body) (closes : closing.kind = .closeBrace) :
    ReadsBlock inLoop (opening :: (tokens ++ [closing])) body closing.span := by
  intro budget cursor cursor' proper passes enough
  simp only [List.length_append, List.length_cons, List.length_nil] at enough
  obtain ⟨first, one, behind⟩ := passes.cons
  have properFirst := one.proper proper
  obtain ⟨second, passesInside, last⟩ := behind.split
  rw [braced, bind_eq ((expect_ok proper (by decide)).mpr ⟨one, opens⟩),
    bind_eq (inside properFirst passesInside (last.current ▸ closes) (show _ ≤ budget by omega)),
    bind_eq ((expect_ok (passesInside.proper properFirst) (by decide)).mpr ⟨last, closes⟩)]
  rfl

theorem cons_readsStmts {first rest : List Token} (form : StmtForm inLoop first stmt)
    (others : StmtsForm inLoop rest stmts) (reads : ReadsStmt inLoop first stmt)
    (readsRest : ReadsStmts inLoop rest stmts) :
    ReadsStmts inLoop (first ++ rest) (stmt :: stmts) := by
  intro budget cursor cursor' proper passes closes enough
  obtain ⟨middle, passesFirst, passesRest⟩ := passes.split
  have other : middle.current.kind ≠ .keyword .else := by
    cases others with
    | nil =>
      obtain rfl := passesRest.eq_self
      rw [closes]
      decide
    | cons form =>
      obtain ⟨token, behind, rfl, begins⟩ := form.begins
      rw [passesRest.current]
      exact begins.2.2
  obtain ⟨token, behind, rfl, begins⟩ := form.begins
  simp only [List.length_append, List.length_cons] at enough
  obtain ⟨budget, rfl⟩ := Nat.exists_eq_add_one_of_ne_zero (show budget ≠ 0 by omega)
  rw [stmts_goes (passesFirst.current ▸ begins.1) (passesFirst.current ▸ begins.2.1),
    bind_eq (reads proper passesFirst other (by rw [List.length_cons]; omega)),
    bind_eq (readsRest (passesFirst.proper proper) passesRest closes (by omega))]
  rfl

mutual

theorem readsStmt_of_form : ∀ {inLoop : Bool} {tokens : List Token} {stmt : Stmt},
    StmtForm inLoop tokens stmt → ReadsStmt inLoop tokens stmt
  | _, _, _, .declare form => declare_readsStmt form
  | _, _, _, .assign form ends => assign_readsStmt form ends
  | _, _, _, .return begins form ends => return_readsStmt begins form ends
  | _, _, _, .expr form ends => expr_readsStmt form ends
  | _, _, _, .if begins tests blocks follows =>
    if_readsStmt begins tests blocks.begins (readsBlock_of_form blocks) (readsTail_of_form follows)
  | _, _, _, .while begins opens tests closes blocks =>
    while_readsStmt begins opens tests closes (readsBlock_of_form blocks)
  | _, _, _, .for begins opens mayDeclare starts ends tests ends' updates closes blocks =>
    for_readsStmt begins opens mayDeclare starts ends tests ends' updates closes
      (readsBlock_of_form blocks)
  | _, _, _, .break begins ends =>
    jump_readsStmt (fun ahead => by rw [stmtWithin, peek_bind, ahead]) begins ends
  | _, _, _, .continue begins ends =>
    jump_readsStmt (fun ahead => by rw [stmtWithin, peek_bind, ahead]) begins ends

theorem readsTail_of_form : ∀ {inLoop : Bool} {tokens : List Token} {tail : Tail},
    TailForm inLoop tokens tail → ReadsTail inLoop tokens tail
  | _, _, _, .none => by
    intro budget cursor cursor' _ passes other _
    obtain rfl := passes.eq_self
    cases budget with
    | zero => rfl
    | succ budget => rw [tailWithin, bind_eq (consume_keeps other)]; rfl
  | _, _, _, .elseIf begins continues tests blocks follows =>
    elseIf_readsTail begins continues tests blocks.begins (readsBlock_of_form blocks)
      (readsTail_of_form follows)
  | _, _, _, .else begins blocks => else_readsTail begins blocks.begins (readsBlock_of_form blocks)

theorem readsBlock_of_form : ∀ {inLoop : Bool} {tokens : List Token} {body : List Stmt} {close : Span},
    BlockForm inLoop tokens body close → ReadsBlock inLoop tokens body close
  | _, _, _, _, .mk opens form closes => readsBlock opens (readsStmts_of_form form) closes

theorem readsStmts_of_form : ∀ {inLoop : Bool} {tokens : List Token} {stmts : List Stmt},
    StmtsForm inLoop tokens stmts → ReadsStmts inLoop tokens stmts
  | _, _, _, .nil => by
    intro budget cursor cursor' _ passes closes _
    obtain rfl := passes.eq_self
    exact stmts_stops (.inl closes)
  | _, _, _, .cons form others =>
    cons_readsStmts form others (readsStmt_of_form form) (readsStmts_of_form others)

end

/-- A block is read wherever its form stands. -/
theorem block_complete (form : BlockForm inLoop tokens body close) (proper : cursor.Proper)
    (passes : Passes cursor tokens cursor') : block inLoop cursor = .ok (body, close) cursor' := by
  rw [block, get_bind]
  refine readsBlock_of_form form proper passes ?_
  rw [passes.length]
  omega

end Parser

end OliCompiler
