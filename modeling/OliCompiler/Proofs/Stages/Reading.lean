import OliCompiler.Parse.Program
import OliCompiler.Proofs.Stages.Tokens

/-!
What reading makes of tokens that can be relied on. A tree read from them can be written, so its names
are no keywords and its jumps stand in loops; and a fault is never about what such tokens rule out.
-/

namespace OliCompiler

open Printing

namespace ParseError.Cause

/-- The kind of the token that reading stopped at, if the fault tells it. To meet the end of the file
is a fault of its own. -/
def found? : Cause → Option Token.Kind
  | unexpected _ .endOfFile => none
  | unexpected _ found => some found
  | topLevel found => some found
  | _ => none

/-- Whether a fault is about what the scanning has checked before. -/
def isRechecked : Cause → Bool
  | invalidInteger _ => true
  | cause => cause.found?.any fun kind => kind ∈ .endOfFile :: Token.Kind.faulty

variable {kind : Token.Kind}

theorem unexpected_isRechecked (expected : Expectation) (kept : kind ∉ Token.Kind.faulty) :
    (unexpected expected kind).isRechecked = false := by
  cases kind with
  | endOfFile => rfl
  | _ => simpa [isRechecked, found?] using kept

theorem topLevel_isRechecked (kept : kind ∉ Token.Kind.faulty) (solid : kind ≠ .endOfFile) :
    (topLevel kind).isRechecked = false := by
  simp [isRechecked, found?, kept, solid]

end ParseError.Cause

namespace Cursor

/-- Whether the tokens ahead can be relied on. -/
structure Sound (cursor : Cursor) : Prop where
  ahead : ∀ token ∈ cursor.ahead, token.Sound
  eof : cursor.eof.Sound

variable {cursor : Cursor}

theorem Sound.current (sound : cursor.Sound) : cursor.current.Sound := by
  obtain ⟨passed, ahead, eof⟩ := cursor
  cases ahead with
  | nil => exact sound.eof
  | cons token ahead => exact sound.ahead token List.mem_cons_self

theorem Sound.advance (sound : cursor.Sound) : cursor.advance.Sound := by
  obtain ⟨passed, ahead, eof⟩ := cursor
  cases ahead with
  | nil => exact sound
  | cons token ahead => exact ⟨(List.forall_mem_cons.mp sound.ahead).2, sound.eof⟩

theorem ofTokens_sound {tokens : List Token} (sound : ∀ token ∈ tokens, token.Sound) :
    (ofTokens tokens).Sound where
  ahead token member := sound token ((List.takeWhile_sublist _).subset member)
  eof := by
    unfold ofTokens eofOf
    split
    · exact sound _ (List.mem_of_find?_eq_some ‹_›)
    · split <;> exact Token.sound_of_kind (by decide) (by decide) (by decide)

end Cursor

namespace Parser

section

variable {α β : Type} {post : α → Prop} {post' : β → Prop} {reader : Parser α} {cursor : Cursor}

/-- Whether a reader that starts at a cursor gives a value with a property and leaves tokens that can be
relied on, or else a fault that the scanning has not checked for before. -/
def Yields (post : α → Prop) (reader : Parser α) (cursor : Cursor) : Prop :=
  match reader cursor with
  | .ok value behind => behind.Sound ∧ post value
  | .error error _ => error.cause.isRechecked = false

theorem Yields.bind {next : α → Parser β} (first : Yields post reader cursor)
    (rest : ∀ value behind, behind.Sound → post value → Yields post' (next value) behind) :
    Yields post' (reader >>= next) cursor := by
  unfold Yields at first
  cases given : reader cursor with
  | ok value behind =>
    rw [given] at first
    rw [Yields, bind_eq given]
    exact rest value behind first.1 first.2
  | error error behind =>
    rw [given] at first
    simp only [Yields, Bind.bind, EStateM.bind, given, first]

theorem peek_yields {next : Token → Parser β} (rest : Yields post' (next cursor.current) cursor) :
    Yields post' (peek >>= next) cursor := rest

theorem peekFollowing_yields {next : Token → Parser β}
    (rest : Yields post' (next cursor.following) cursor) :
    Yields post' (peekFollowing >>= next) cursor := rest

variable (sound : cursor.Sound)

include sound

theorem pure_yields {value : α} (holds : post value) : Yields post (pure value) cursor := ⟨sound, holds⟩

theorem unexpected_yields (expected : ParseError.Expectation) :
    Yields post (unexpected expected) cursor :=
  ParseError.Cause.unexpected_isRechecked expected sound.current.kind

theorem advance_yields : Yields Token.Sound advance cursor := ⟨sound.advance, sound.current⟩

theorem check_yields (kind : Token.Kind) : Yields (fun _ => True) (check kind) cursor :=
  ⟨sound, trivial⟩

theorem expect_yields (kind : Token.Kind) : Yields (fun _ => True) (expect kind) cursor := by
  refine (check_yields sound kind).bind fun ahead behind sound _ => ?_
  cases ahead with
  | true => exact ⟨sound.advance, trivial⟩
  | false => exact unexpected_yields sound _

theorem consume_yields (kind : Token.Kind) : Yields (fun _ => True) (consume kind) cursor := by
  refine (check_yields sound kind).bind fun ahead behind sound _ => ?_
  cases ahead with
  | true => exact ⟨sound.advance, trivial⟩
  | false => exact ⟨sound, trivial⟩

theorem ident_yields : Yields (fun name => IsIdentifier name.name) ident cursor := by
  rw [Yields, ident, check_bind]
  by_cases named : cursor.current.kind = .identifier
  · rw [decide_eq_true named]
    exact ⟨sound.advance, sound.current.name named⟩
  · rw [decide_eq_false named]
    exact ParseError.Cause.unexpected_isRechecked .identifier sound.current.kind

theorem declaredName_yields (role : ParseError.Role) :
    Yields (fun name => IsIdentifier name.name) (declaredName role) cursor := by
  refine peek_yields ?_
  cases cursor.current.kind with
  | keyword word => exact (rfl : (ParseError.Cause.reservedName word role).isRechecked = false)
  | _ => exact ident_yields sound

/-- An integer literal is never invalid, since the scanning has looked at it. -/
theorem integer_yields (literal : cursor.current.kind = .integer) :
    Yields Expr.Printable integer cursor := by
  obtain ⟨value, denotes, natural⟩ := sound.current.integer literal
  rw [Yields, integer, advance_bind, denotes]
  exact ⟨sound.advance, natural⟩

end

mutual

theorem exprWithin_yields : ∀ (budget least : Nat) {cursor : Cursor}, cursor.Sound →
    Yields Expr.Printable (exprWithin least budget) cursor
  | 0, _, _, sound => unexpected_yields sound .expression
  | budget + 1, least, _, sound =>
    (operandWithin_yields budget sound).bind fun _ _ sound printable =>
      climbWithin_yields budget least sound printable

theorem climbWithin_yields : ∀ (budget least : Nat) {left : Expr} {cursor : Cursor}, cursor.Sound →
    left.Printable → Yields Expr.Printable (climbWithin least left budget) cursor
  | 0, _, _, _, sound, printable => pure_yields sound printable
  | budget + 1, least, left, cursor, sound, printable => by
    refine peek_yields ?_
    cases cursor.current.kind.operator? with
    | none => exact pure_yields sound printable
    | some op =>
      by_cases loose : op.precedence < least
      · simp only [if_pos loose]
        exact pure_yields sound printable
      · simp only [if_neg loose]
        refine (advance_yields sound).bind fun _ _ sound _ => ?_
        refine (exprWithin_yields budget op.rightPrecedence sound).bind fun _ _ sound second => ?_
        exact climbWithin_yields budget least sound ⟨printable, second⟩

theorem operandWithin_yields : ∀ (budget : Nat) {cursor : Cursor}, cursor.Sound →
    Yields Expr.Printable (operandWithin budget) cursor
  | 0, _, sound => unexpected_yields sound .expression
  | budget + 1, cursor, sound => by
    refine peek_yields ?_
    cases kind : cursor.current.kind with
    | openParen =>
      refine (advance_yields sound).bind fun _ _ sound _ => ?_
      refine (exprWithin_yields budget 0 sound).bind fun _ _ sound printable => ?_
      exact (expect_yields sound .closeParen).bind fun _ _ sound _ => pure_yields sound printable
    | integer => exact integer_yields sound kind
    | identifier =>
      refine (ident_yields sound).bind fun name _ sound named => ?_
      refine (consume_yields sound .openParen).bind fun call _ sound _ => ?_
      cases call with
      | true =>
        refine (argumentsWithin_yields budget sound).bind fun args _ sound printable => ?_
        refine (expect_yields sound .closeParen).bind fun _ _ sound _ => ?_
        exact pure_yields sound ⟨named, printable⟩
      | false => exact pure_yields sound named
    | _ => exact unexpected_yields sound .expression

theorem argumentsWithin_yields : ∀ (budget : Nat) {cursor : Cursor}, cursor.Sound →
    Yields Expr.AllPrintable (argumentsWithin budget) cursor
  | 0, _, sound => unexpected_yields sound .expression
  | budget + 1, cursor, sound => by
    refine (check_yields sound .closeParen).bind fun closes _ sound _ => ?_
    cases closes with
    | true => exact pure_yields sound trivial
    | false =>
      refine (exprWithin_yields budget 0 sound).bind fun arg _ sound first => ?_
      refine (consume_yields sound .comma).bind fun more _ sound _ => ?_
      cases more with
      | true =>
        exact (argumentsWithin_yields budget sound).bind fun _ _ sound others =>
          pure_yields sound ⟨first, others⟩
      | false =>
        refine (check_yields sound .closeParen).bind fun closes _ sound _ => ?_
        cases closes with
        | true => exact pure_yields sound ⟨first, trivial⟩
        | false => exact unexpected_yields sound .commaOrClose

end

section

variable {α : Type} {cursor : Cursor} (sound : cursor.Sound)

include sound

theorem expr_yields : Yields Expr.Printable expr cursor :=
  exprWithin_yields (exprBudget cursor) 0 sound

theorem declaration_yields : Yields Binding.Printable declaration cursor :=
  (declaredName_yields sound .variable).bind fun _ _ sound named =>
    (expect_yields sound .assign).bind fun _ _ sound _ =>
      (expr_yields sound).bind fun _ _ sound printable => pure_yields sound ⟨named, printable⟩

theorem assignment_yields : Yields Binding.Printable assignment cursor :=
  (ident_yields sound).bind fun _ _ sound named =>
    (expect_yields sound .assign).bind fun _ _ sound _ =>
      (expr_yields sound).bind fun _ _ sound printable => pure_yields sound ⟨named, printable⟩

theorem letDeclaration_yields : Yields Binding.Printable letDeclaration cursor :=
  (expect_yields sound (.keyword .let)).bind fun _ _ sound _ =>
    (declaration_yields sound).bind fun _ _ sound printable =>
      (expect_yields sound .semicolon).bind fun _ _ sound _ => pure_yields sound printable

theorem braced_yields {post : α → Prop} {content : Parser α}
    (inside : ∀ {cursor : Cursor}, cursor.Sound → Yields post content cursor) :
    Yields (fun found => post found.1) (braced content) cursor :=
  (expect_yields sound .openBrace).bind fun _ _ sound _ =>
    (inside sound).bind fun _ _ sound holds =>
      (expect_yields sound .closeBrace).bind fun _ _ sound _ => pure_yields sound holds

theorem jump_yields (word : Keyword) (inLoop : Bool) {stmt : Span → Stmt}
    (legal : ∀ span, inLoop = true → (stmt span).Printable inLoop) :
    Yields (Stmt.Printable inLoop) (jump word inLoop stmt) cursor := by
  refine (advance_yields sound).bind fun token _ sound _ => ?_
  cases inLoop with
  | true => exact (expect_yields sound .semicolon).bind fun _ _ sound _ =>
      pure_yields sound (legal token.span rfl)
  | false => exact (rfl : (ParseError.Cause.outsideLoop word).isRechecked = false)

theorem exprThen_yields {inLoop : Bool} {stmt : Expr → Stmt}
    (legal : ∀ value, value.Printable → (stmt value).Printable inLoop) :
    Yields (Stmt.Printable inLoop) (exprThen stmt) cursor :=
  (expr_yields sound).bind fun value _ sound printable =>
    (expect_yields sound .semicolon).bind fun _ _ sound _ => pure_yields sound (legal value printable)

end

mutual

theorem stmtWithin_yields : ∀ (budget : Nat) (inLoop : Bool) {cursor : Cursor}, cursor.Sound →
    Yields (Stmt.Printable inLoop) (stmtWithin inLoop budget) cursor
  | 0, _, _, sound => unexpected_yields sound .expression
  | budget + 1, inLoop, cursor, sound => by
    refine peek_yields ?_
    cases cursor.current.kind with
    | keyword word =>
      cases word with
      | «if» =>
        refine (advance_yields sound).bind fun _ _ sound _ => ?_
        refine (expr_yields sound).bind fun _ _ sound condition => ?_
        refine (braced_yields sound (stmtsWithin_yields budget inLoop)).bind
          fun _ _ sound body => ?_
        refine (tailWithin_yields budget inLoop sound).bind fun _ _ sound tail => ?_
        exact pure_yields sound ⟨condition, body, tail⟩
      | «return» =>
        exact (advance_yields sound).bind fun _ _ sound _ =>
          exprThen_yields sound fun _ printable => printable
      | «let» =>
        exact (letDeclaration_yields sound).bind fun _ _ sound printable =>
          pure_yields sound printable
      | «for» =>
        refine (advance_yields sound).bind fun _ _ sound _ => ?_
        refine (expect_yields sound .openParen).bind fun _ _ sound _ => ?_
        refine (consume_yields sound (.keyword .let)).bind fun _ _ sound _ => ?_
        refine (declaration_yields sound).bind fun _ _ sound init => ?_
        refine (expect_yields sound .semicolon).bind fun _ _ sound _ => ?_
        refine (expr_yields sound).bind fun _ _ sound condition => ?_
        refine (expect_yields sound .semicolon).bind fun _ _ sound _ => ?_
        refine (assignment_yields sound).bind fun _ _ sound update => ?_
        refine (expect_yields sound .closeParen).bind fun _ _ sound _ => ?_
        refine (braced_yields sound (stmtsWithin_yields budget true)).bind fun _ _ sound body => ?_
        exact pure_yields sound ⟨init, condition, update, body⟩
      | «while» =>
        refine (advance_yields sound).bind fun _ _ sound _ => ?_
        refine (expect_yields sound .openParen).bind fun _ _ sound _ => ?_
        refine (expr_yields sound).bind fun _ _ sound condition => ?_
        refine (expect_yields sound .closeParen).bind fun _ _ sound _ => ?_
        refine (braced_yields sound (stmtsWithin_yields budget true)).bind fun _ _ sound body => ?_
        exact pure_yields sound ⟨condition, body⟩
      | «break» => exact jump_yields sound .break inLoop fun _ inside => inside
      | «continue» => exact jump_yields sound .continue inLoop fun _ inside => inside
      | «else» | fn => exact exprThen_yields sound fun _ printable => printable
    | identifier =>
      refine peekFollowing_yields ?_
      by_cases assigns : cursor.following.kind = .assign
      · rw [if_pos assigns]
        exact (assignment_yields sound).bind fun _ _ sound printable =>
          (expect_yields sound .semicolon).bind fun _ _ sound _ => pure_yields sound printable
      · rw [if_neg assigns]
        exact exprThen_yields sound fun _ printable => printable
    | _ => exact exprThen_yields sound fun _ printable => printable

theorem stmtsWithin_yields : ∀ (budget : Nat) (inLoop : Bool) {cursor : Cursor}, cursor.Sound →
    Yields (Stmt.AllPrintable inLoop) (stmtsWithin inLoop budget) cursor
  | 0, _, _, sound => pure_yields sound trivial
  | budget + 1, inLoop, cursor, sound => by
    have another : Yields (Stmt.AllPrintable inLoop)
        (do return (← stmtWithin inLoop budget) :: (← stmtsWithin inLoop budget)) cursor :=
      (stmtWithin_yields budget inLoop sound).bind fun _ _ sound first =>
        (stmtsWithin_yields budget inLoop sound).bind fun _ _ sound others =>
          pure_yields sound ⟨first, others⟩
    refine peek_yields ?_
    cases cursor.current.kind with
    | closeBrace | endOfFile => exact pure_yields sound trivial
    | _ => exact another

theorem tailWithin_yields : ∀ (budget : Nat) (inLoop : Bool) {cursor : Cursor}, cursor.Sound →
    Yields (Tail.Printable inLoop) (tailWithin inLoop budget) cursor
  | 0, _, _, sound => pure_yields sound trivial
  | budget + 1, inLoop, cursor, sound => by
    refine (consume_yields sound (.keyword .else)).bind fun follows _ sound _ => ?_
    cases follows with
    | true =>
      refine (consume_yields sound (.keyword .if)).bind fun tests _ sound _ => ?_
      cases tests with
      | true =>
        refine (expr_yields sound).bind fun _ _ sound condition => ?_
        refine (braced_yields sound (stmtsWithin_yields budget inLoop)).bind
          fun _ _ sound body => ?_
        refine (tailWithin_yields budget inLoop sound).bind fun _ _ sound tail => ?_
        exact pure_yields sound ⟨condition, body, tail⟩
      | false =>
        exact (braced_yields sound (stmtsWithin_yields budget inLoop)).bind
          fun _ _ sound body => pure_yields sound body
    | false => exact pure_yields sound trivial

end

theorem paramsWithin_yields : ∀ (budget : Nat) {cursor : Cursor}, cursor.Sound →
    Yields (fun names => ∀ name ∈ names, IsIdentifier name.name) (paramsWithin budget) cursor
  | 0, _, sound => unexpected_yields sound .identifier
  | budget + 1, _, sound => by
    refine (check_yields sound .closeParen).bind fun closes _ sound _ => ?_
    cases closes with
    | true => exact pure_yields sound (List.forall_mem_nil _)
    | false =>
      refine (declaredName_yields sound .parameter).bind fun _ _ sound first => ?_
      refine (consume_yields sound .comma).bind fun more _ sound _ => ?_
      cases more with
      | true =>
        exact (paramsWithin_yields budget sound).bind fun _ _ sound others =>
          pure_yields sound (List.forall_mem_cons.mpr ⟨first, others⟩)
      | false => exact pure_yields sound (List.forall_mem_singleton.mpr first)

section

variable {cursor : Cursor} (sound : cursor.Sound)

include sound

theorem params_yields :
    Yields (fun names => ∀ name ∈ names, IsIdentifier name.name) params cursor := by
  refine (expect_yields sound .openParen).bind fun _ behind sound _ => ?_
  exact (paramsWithin_yields (behind.ahead.length + 1) sound).bind fun _ _ sound named =>
    (expect_yields sound .closeParen).bind fun _ _ sound _ => pure_yields sound named

theorem block_yields (inLoop : Bool) :
    Yields (fun found => Stmt.AllPrintable inLoop found.1) (block inLoop) cursor :=
  braced_yields sound (stmtsWithin_yields (2 * cursor.ahead.length + 2) inLoop)

theorem function_yields : Yields Function.Printable function cursor :=
  (expect_yields sound (.keyword .fn)).bind fun _ _ sound _ =>
    (declaredName_yields sound .function).bind fun _ _ sound named =>
      (params_yields sound).bind fun _ _ sound params =>
        (block_yields sound false).bind fun _ _ sound body =>
          pure_yields sound ⟨named, params, body⟩

theorem addFunction_yields {program : Program} {function : Function} (all : program.Printable)
    (printable : function.Printable) :
    Yields Program.Printable (addFunction program function) cursor := by
  unfold addFunction
  by_cases entry : function.name.name = "main"
  · rw [if_pos entry, Yields, get_bind]
    cases program.main with
    | some main => exact (rfl : ParseError.Cause.duplicateMain.isRechecked = false)
    | none =>
      cases params : function.params with
      | nil =>
        refine pure_yields sound ⟨all.globals, all.functions, ?_⟩
        rintro _ ⟨⟩
        exact ⟨printable, entry, params⟩
      | cons first others =>
        rw [List.getLast?_cons]
        exact (rfl : ParseError.Cause.mainWithParams.isRechecked = false)
  · rw [if_neg entry]
    refine pure_yields sound ⟨all.globals, ?_, all.main⟩
    exact List.forall_mem_append.mpr
      ⟨all.functions, List.forall_mem_singleton.mpr ⟨printable, entry⟩⟩

end

theorem itemsWithin_yields : ∀ (budget : Nat) {program : Program} {cursor : Cursor}, cursor.Sound →
    program.Printable → Yields Program.Printable (itemsWithin program budget) cursor
  | 0, _, _, sound, all => pure_yields sound all
  | budget + 1, program, cursor, sound, all => by
    refine peek_yields ?_
    cases kind : cursor.current.kind with
    | endOfFile => exact pure_yields sound all
    | keyword word =>
      cases word with
      | fn =>
        refine (function_yields sound).bind fun _ _ sound printable => ?_
        exact (addFunction_yields sound all printable).bind fun _ _ sound all =>
          itemsWithin_yields budget sound all
      | «let» =>
        refine (letDeclaration_yields sound).bind fun _ _ sound printable => ?_
        refine itemsWithin_yields budget sound ⟨?_, all.functions, all.main⟩
        exact List.forall_mem_append.mpr ⟨all.globals, List.forall_mem_singleton.mpr printable⟩
      | _ => exact ParseError.Cause.topLevel_isRechecked (by simp [Token.Kind.faulty]) (by simp)
    | _ => exact ParseError.Cause.topLevel_isRechecked (kind ▸ sound.current.kind) (by simp)

theorem program_yields {cursor : Cursor} (sound : cursor.Sound) :
    Yields Program.Printable program cursor :=
  itemsWithin_yields (cursor.ahead.length + 1) sound
    ⟨List.forall_mem_nil _, List.forall_mem_nil _, fun _ absent => by cases absent⟩

end Parser

/-- A program that is read from tokens that can be relied on can be written, and a fault in such tokens
is none that the scanning has checked for. -/
theorem parse_yields {tokens : List Token} (sound : ∀ token ∈ tokens, token.Sound) :
    (∀ program, parse tokens = .ok program → program.Printable) ∧
      ∀ error, parse tokens = .error error → error.cause.isRechecked = false := by
  have yields := Parser.program_yields (Cursor.ofTokens_sound sound)
  unfold Parser.Yields at yields
  unfold parse
  cases given : Parser.program (Cursor.ofTokens tokens) with
  | ok program behind =>
    rw [given] at yields
    exact ⟨fun found same => Except.ok.inj same ▸ yields.2, fun _ same => by cases same⟩
  | error error behind =>
    rw [given] at yields
    exact ⟨fun _ same => (by cases same), fun fault same => Except.error.inj same ▸ yields⟩

end OliCompiler
