import OliCompiler.Proofs.Layers

/-!
What a run of a reader depends on. It passes some tokens and stops before one; its fault stands at a token
of the list; and a list that shows the same tokens up to that one is read in the same way.
-/

namespace OliCompiler

namespace Cursor

/-- The tokens ahead and the end of the file. -/
def shown (cursor : Cursor) : List Token := cursor.ahead ++ [cursor.eof]

/-- All tokens, passed or shown. -/
def tokens (cursor : Cursor) : List Token := cursor.passed.reverse ++ cursor.shown

variable {cursor middle middle' cursor' other : Cursor} {first rest : List Token} {token : Token}

theorem shown_eq (cursor : Cursor) : ∃ rest, cursor.shown = cursor.current :: rest := by
  obtain ⟨passed, ahead, eof⟩ := cursor
  cases ahead with
  | nil => exact ⟨[], rfl⟩
  | cons token ahead => exact ⟨ahead ++ [eof], rfl⟩

theorem current_mem (cursor : Cursor) : cursor.current ∈ cursor.tokens := by
  obtain ⟨rest, shown⟩ := cursor.shown_eq
  rw [tokens, shown]
  exact List.mem_append_right _ List.mem_cons_self

theorem current_of_begins (begins : token :: rest <+: cursor.shown) : cursor.current = token := by
  obtain ⟨others, shown⟩ := cursor.shown_eq
  rw [shown] at begins
  exact (List.cons_prefix_cons.mp begins).1.symm

theorem Passes.shown (passes : Passes cursor first cursor') : cursor.shown = first ++ cursor'.shown := by
  rw [Cursor.shown, passes.ahead, List.append_assoc, ← passes.eof]
  rfl

theorem Passes.tokens (passes : Passes cursor first cursor') : cursor'.tokens = cursor.tokens := by
  rw [Cursor.tokens, Cursor.tokens, passes.passed, passes.shown, List.reverse_append,
    List.reverse_reverse, List.append_assoc]

/-- The tokens that a cursor passes, with the one that it comes to stand before, are what it shows first. -/
theorem Passes.begins (passes : Passes cursor first cursor') :
    first ++ [cursor'.current] <+: cursor.shown := by
  obtain ⟨rest, shown⟩ := cursor'.shown_eq
  have split := List.append_cons first cursor'.current rest
  rw [passes.shown, shown, split]
  exact List.prefix_append _ _

theorem Passes.begins_current (passes : Passes cursor first cursor') :
    [cursor.current] <+: first ++ [cursor'.current] := by
  cases first with
  | nil =>
    rw [passes.eq_self]
    exact List.prefix_rfl
  | cons token rest =>
    rw [passes.current]
    exact List.cons_prefix_cons.mpr ⟨rfl, List.nil_prefix⟩

theorem Passes.unique (passes : Passes cursor first cursor') (others : Passes cursor rest cursor') :
    first = rest :=
  List.append_cancel_right (passes.ahead.symm.trans others.ahead)

theorem Proper.advance_eq_self (proper : cursor.Proper) (ends : cursor.current.kind = .endOfFile) :
    cursor.advance = cursor := by
  rw [Cursor.advance, proper.ahead_eq_nil ends]

/-- Whether another cursor has passed the same tokens and shows some tokens first. -/
structure Resumes (cursor : Cursor) (tokens : List Token) (other : Cursor) : Prop where
  proper : other.Proper
  passed : other.passed = cursor.passed
  begins : tokens <+: other.shown

theorem Resumes.shorten (resumes : Resumes cursor rest other) (shorter : first <+: rest) :
    Resumes cursor first other :=
  ⟨resumes.proper, resumes.passed, shorter.trans resumes.begins⟩

theorem Resumes.current (resumes : Resumes cursor (token :: rest) other) : other.current = token :=
  current_of_begins resumes.begins

theorem Resumes.behind (resumes : Resumes cursor (first ++ rest) other)
    (one : Passes cursor first middle) (same : Passes other first middle') :
    Resumes middle rest middle' where
  proper := same.proper resumes.proper
  passed := by rw [same.passed, resumes.passed, one.passed]
  begins := by
    have begins := resumes.begins
    rw [same.shown] at begins
    exact (List.prefix_append_right_inj first).mp begins

/-- What has been resumed stands before the token that the first cursor does. -/
theorem Resumes.current_behind (resumes : Resumes cursor (first ++ [cursor'.current]) other)
    (one : Passes cursor first cursor') (same : Passes other first middle) :
    middle.current = cursor'.current :=
  (resumes.behind one same).current

end Cursor

/-- Whether `fn main (` stands among tokens with a first parameter and, there or behind it, a last one. -/
def GivesMain (tokens : List Token) (name first last : Token) : Prop :=
  ∃ before word opening after, tokens = before ++ word :: name :: opening :: first :: after ∧
    word.kind = .keyword .fn ∧ name.text = "main" ∧ opening.kind = .openParen ∧
    first.kind = .identifier ∧ last ∈ first :: after

/-- Whether a fault stands at a token of a list. Those of `main` are told apart: their line is that of a
token which starts where the name does. -/
inductive Blames (tokens : List Token) : ParseError → Prop where
  | token {token : Token} {cause : ParseError.Cause} (member : token ∈ tokens)
    (plain : cause ≠ .mainWithParams) : Blames tokens ⟨cause, token.line, token.span⟩
  | duplicate {token name : Token} (member : token ∈ tokens) (named : name ∈ tokens)
    (starts : token.span.start = name.span.start) :
    Blames tokens ⟨.duplicateMain, token.line, name.span⟩
  | params {token name first last : Token} (member : token ∈ tokens)
    (starts : token.span.start = name.span.start) (given : GivesMain tokens name first last) :
    Blames tokens ⟨.mainWithParams, token.line, first.span.merge last.span⟩

section

variable {tokens others : List Token} {name first last : Token} {error : ParseError}

theorem GivesMain.mem (given : GivesMain tokens name first last) : name ∈ tokens ∧ first ∈ tokens := by
  obtain ⟨before, word, opening, after, rfl, _⟩ := given
  exact ⟨by simp, by simp⟩

theorem GivesMain.of_begins (given : GivesMain tokens name first last) (begins : tokens <+: others) :
    GivesMain others name first last := by
  obtain ⟨before, word, opening, after, rfl, kinds⟩ := given
  obtain ⟨rest, rfl⟩ := begins
  obtain ⟨begins, named, opens, declares, closes⟩ := kinds
  exact ⟨before, word, opening, after ++ rest, by simp, begins, named, opens, declares,
    List.mem_append_left rest closes⟩

theorem Blames.of_begins (blames : Blames tokens error) (begins : tokens <+: others) :
    Blames others error := by
  have keeps := begins.subset
  cases blames with
  | token member plain => exact .token (keeps member) plain
  | duplicate member named starts => exact .duplicate (keeps member) (keeps named) starts
  | params member starts given => exact .params (keeps member) starts (given.of_begins begins)

end

namespace Parser

open Cursor

variable {α β : Type}

/-- The result of a run with an outcome that leaves a cursor. -/
def ending (outcome : Except ParseError α) (behind : Cursor) : EStateM.Result ParseError Cursor α :=
  match outcome with
  | .ok value => .ok value behind
  | .error error => .error error behind

/-- What a run of a reader depends on, where it ends with an outcome behind some tokens. -/
structure Run (reader : Parser α) (cursor : Cursor) (outcome : Except ParseError α) (tokens : List Token)
    (behind : Cursor) : Prop where
  reads : reader cursor = ending outcome behind
  passes : Passes cursor tokens behind
  blames : ∀ error, outcome = .error error → Blames cursor.tokens error
  again : ∀ other, Resumes cursor (tokens ++ [behind.current]) other →
    ∃ behind', Passes other tokens behind' ∧ reader other = ending outcome behind'

/-- Whether a reader that starts at a cursor does not see behind the token that it stops before. -/
def Local (reader : Parser α) (cursor : Cursor) : Prop :=
  ∃ outcome tokens behind, Run reader cursor outcome tokens behind

variable {reader : Parser α} {next : α → Parser β} {cursor middle behind behind' : Cursor} {value : α}
  {tokens : List Token} {outcome outcome' : Except ParseError α}

theorem ending_inj (same : ending outcome behind = ending outcome' behind') :
    outcome = outcome' ∧ behind = behind' := by
  cases outcome <;> cases outcome' <;> simp_all [ending]

theorem blames_ok (value : α) (error : ParseError) (same : Except.ok value = .error error) :
    Blames tokens error := by
  cases same

theorem Local.passes (near : Local reader cursor) (reads : reader cursor = .ok value behind) :
    ∃ tokens, Passes cursor tokens behind := by
  obtain ⟨outcome, tokens, behind', run⟩ := near
  have same : ending outcome behind' = ending (.ok value) behind := run.reads.symm.trans reads
  obtain ⟨_, rfl⟩ := ending_inj same
  exact ⟨tokens, run.passes⟩

theorem Run.stop {error : ParseError} (run : Run reader cursor (.error error) tokens behind) :
    Run (reader >>= next) cursor (.error error) tokens behind where
  reads := bind_error run.reads
  passes := run.passes
  blames := by
    intro _ same
    cases same
    exact run.blames error rfl
  again := by
    intro other resumes
    obtain ⟨behind', same, reads⟩ := run.again other resumes
    exact ⟨behind', same, bind_error reads⟩

/-- Where the second reader stops before a token that it has not passed, the first one has seen it too. -/
theorem Run.bind {others : List Token} {outcome : Except ParseError β}
    (first : Run reader cursor (.ok value) tokens middle)
    (rest : Run (next value) middle outcome others behind) :
    Run (reader >>= next) cursor outcome (tokens ++ others) behind where
  reads := (bind_eq first.reads).trans rest.reads
  passes := first.passes.append rest.passes
  blames := first.passes.tokens ▸ rest.blames
  again := by
    intro other resumes
    rw [List.append_assoc] at resumes
    have near : tokens ++ [middle.current] <+: tokens ++ (others ++ [behind.current]) :=
      (List.prefix_append_right_inj tokens).mpr rest.passes.begins_current
    obtain ⟨middle', same, reads⟩ := first.again other (resumes.shorten near)
    obtain ⟨behind', sameOn, readsOn⟩ := rest.again middle' (resumes.behind first.passes same)
    exact ⟨behind', same.append sameOn, (bind_eq reads).trans readsOn⟩

theorem Local.bind (proper : cursor.Proper) (first : Local reader cursor)
    (rest : ∀ value middle, middle.Proper → reader cursor = .ok value middle →
      Local (next value) middle) : Local (reader >>= next) cursor := by
  obtain ⟨outcome, tokens, middle, run⟩ := first
  cases outcome with
  | error error => exact ⟨.error error, tokens, middle, run.stop⟩
  | ok value =>
    obtain ⟨outcome, others, behind, runOn⟩ := rest value middle (run.passes.proper proper) run.reads
    exact ⟨outcome, tokens ++ others, behind, run.bind runOn⟩

/-- A reader whose outcome is told by the token ahead, and which passes nothing, is local. -/
theorem local_of_current (outcome : Except ParseError α) (reads : reader cursor = ending outcome cursor)
    (blames : ∀ error, outcome = .error error → Blames cursor.tokens error)
    (again : ∀ other, other.passed = cursor.passed → other.current = cursor.current →
      reader other = ending outcome other) : Local reader cursor := by
  refine ⟨outcome, [], cursor, reads, .refl cursor, blames, fun other resumes => ?_⟩
  exact ⟨other, .refl other, again other resumes.passed resumes.current⟩

theorem pure_local (value : α) : Local (pure value) cursor :=
  local_of_current (.ok value) rfl (blames_ok _) fun _ _ _ => rfl

theorem fail_local {cause : ParseError.Cause} {token : Token} (member : token ∈ cursor.tokens)
    (plain : cause ≠ .mainWithParams) : Local (fail cause token : Parser α) cursor := by
  refine local_of_current (.error ⟨cause, token.line, token.span⟩) rfl (fun _ same => ?_) fun _ _ _ => rfl
  cases same
  exact .token member plain

theorem peek_local {next : Token → Parser β} (proper : cursor.Proper)
    (rest : Local (next cursor.current) cursor) : Local (peek >>= next) cursor := by
  have ahead : Local peek cursor := by
    refine local_of_current (.ok cursor.current) rfl (blames_ok _) fun other _ same => ?_
    rw [← same]
    rfl
  refine ahead.bind proper fun token middle _ reads => ?_
  cases reads
  exact rest

theorem check_local {next : Bool → Parser β} {kind : Token.Kind} (proper : cursor.Proper)
    (same : Local (next true) cursor) (other : Local (next false) cursor) :
    Local (check kind >>= next) cursor := by
  rw [check, bind_assoc]
  refine peek_local proper ?_
  rw [pure_bind]
  cases decide (cursor.current.kind = kind) with
  | true => exact same
  | false => exact other

theorem unexpected_local (expected : ParseError.Expectation) (proper : cursor.Proper) :
    Local (unexpected expected : Parser α) cursor :=
  peek_local proper (fail_local cursor.current_mem (by simp))

theorem advance_local (proper : cursor.Proper) : Local advance cursor := by
  by_cases ends : cursor.current.kind = .endOfFile
  · refine ⟨.ok cursor.current, [], cursor, ?_, .refl cursor, blames_ok _, ?_⟩
    · show EStateM.Result.ok cursor.current cursor.advance = .ok cursor.current cursor
      rw [proper.advance_eq_self ends]
    · intro other resumes
      have same : other.current = cursor.current := resumes.current
      refine ⟨other, .refl other, ?_⟩
      show EStateM.Result.ok other.current other.advance = .ok cursor.current other
      rw [resumes.proper.advance_eq_self (same ▸ ends), same]
  · refine ⟨.ok cursor.current, [cursor.current], cursor.advance, rfl, proper.passes ends, blames_ok _, ?_⟩
    intro other resumes
    have same : other.current = cursor.current := resumes.current
    have passes := resumes.proper.passes (same ▸ ends)
    rw [same] at passes
    refine ⟨other.advance, passes, ?_⟩
    show EStateM.Result.ok other.current other.advance = .ok cursor.current other.advance
    rw [same]

/-- A token that has been passed may be blamed. -/
theorem advance_then_local {next : Token → Parser β} (proper : cursor.Proper)
    (rest : ∀ middle : Cursor, middle.Proper → cursor.current ∈ middle.tokens →
      Local (next cursor.current) middle) : Local (advance >>= next) cursor := by
  refine (advance_local proper).bind proper fun token middle properMiddle reads => ?_
  obtain ⟨tokens, passes⟩ := (advance_local proper).passes reads
  cases reads
  exact rest _ properMiddle (passes.tokens ▸ cursor.current_mem)

theorem expect_local (kind : Token.Kind) (proper : cursor.Proper) : Local (expect kind) cursor :=
  check_local proper (advance_local proper) (unexpected_local (.token kind) proper)

theorem consume_local (kind : Token.Kind) (proper : cursor.Proper) : Local (consume kind) cursor :=
  check_local proper (advance_then_local proper fun _ _ _ => pure_local true) (pure_local false)

theorem ident_local (proper : cursor.Proper) : Local ident cursor :=
  check_local proper (advance_then_local proper fun _ _ _ => pure_local _)
    (unexpected_local .identifier proper)

theorem declaredName_local (role : ParseError.Role) (proper : cursor.Proper) :
    Local (declaredName role) cursor := by
  refine peek_local proper ?_
  cases cursor.current.kind with
  | keyword word => exact fail_local cursor.current_mem (by simp)
  | _ => exact ident_local proper

theorem integer_local (proper : cursor.Proper) : Local integer cursor := by
  refine advance_then_local proper fun middle _ member => ?_
  cases Decimal.int32? cursor.current.text.toList with
  | none => exact fail_local member (by simp)
  | some value => exact pure_local _

end Parser

end OliCompiler
