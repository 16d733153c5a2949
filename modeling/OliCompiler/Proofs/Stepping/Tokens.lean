import OliCompiler.Proofs.Expansion.Readings
import OliCompiler.Proofs.Spans.Scanning

/-!
The tokens around a step. In a text without lexical faults a step stands behind an identifier, and no other
identifier stands where that one does.
-/

namespace OliCompiler

namespace Stepping

open Expansion Scanning

variable {place : Place} {last : Option Token} {lexeme : Lexeme} {lexemes before after : List Lexeme}
  {tokens : List Token}

/-- The tokens and faults of some lexemes, without the end of the file behind them. -/
def given (place : Place) (last : Option Token) : List Lexeme → Scan
  | [] => ⟨[], []⟩
  | lexeme :: lexemes =>
    let first := Scan.ofLexeme place last lexeme
    let others := given (place.after lexeme.text) (first.tokens.getLast?.or last) lexemes
    ⟨first.tokens ++ others.tokens, first.errors ++ others.errors⟩

/-- What lexemes give behind others. -/
def rest (place : Place) (last : Option Token) (before after : List Lexeme) : Scan :=
  given (place.after (before.flatMap (·.text))) ((given place last before).tokens.getLast?.or last) after

theorem given_append (place : Place) (last : Option Token) (before after : List Lexeme) :
    given place last (before ++ after) =
      ⟨(given place last before).tokens ++ (rest place last before after).tokens,
        (given place last before).errors ++ (rest place last before after).errors⟩ := by
  induction before generalizing place last with
  | nil => rfl
  | cons lexeme before ih =>
    simp only [List.cons_append, given, rest, ih, List.flatMap_cons, Place.after_append, List.getLast?_append,
      Option.or_assoc, List.append_assoc]

/-- Behind others, too, the tokens of a lexeme come first. -/
theorem rest_cons (place : Place) (last : Option Token) (before : List Lexeme) (lexeme : Lexeme)
    (after : List Lexeme) : ∃ later, (rest place last before (lexeme :: after)).tokens =
      (Scan.ofLexeme (place.after (before.flatMap (·.text)))
        ((given place last before).tokens.getLast?.or last) lexeme).tokens ++ later :=
  ⟨_, rfl⟩

/-- A scan is what the lexemes give, and the end of the file. -/
theorem ofLexemes_eq_given (place : Place) (last : Option Token) (lexemes : List Lexeme) : ∃ eof : Token,
    eof.kind = .endOfFile ∧ Scan.ofLexemes place last lexemes =
      ⟨(given place last lexemes).tokens ++ [eof], (given place last lexemes).errors⟩ := by
  induction lexemes generalizing place last with
  | nil => exact ⟨_, rfl, rfl⟩
  | cons lexeme lexemes ih =>
    obtain ⟨eof, ends, same⟩ := ih (place.after lexeme.text)
      ((Scan.ofLexeme place last lexeme).tokens.getLast?.or last)
    refine ⟨eof, ends, ?_⟩
    rw [Scan.ofLexemes, same, given]
    simp only [List.append_assoc]

theorem targetOf_given (place : Place) (last : Option Token) (spelled : ∀ lexeme ∈ lexemes, lexeme.Spelled) :
    targetOf ((given place last lexemes).tokens.getLast?.or last) =
      lexemes.foldl Lexeme.targetAfter (targetOf last) := by
  induction lexemes generalizing place last with
  | nil => rfl
  | cons lexeme lexemes ih =>
    obtain ⟨spells, others⟩ := List.forall_mem_cons.mp spelled
    have first := targetOf_ofLexeme place last spells
    rw [List.foldl_cons, ← first, ← ih (place.after lexeme.text) _ others]
    simp only [given, List.getLast?_append, Option.or_assoc]

/-- A lexeme gives no token, one token, or those of a step. -/
inductive FewTokens : List Token → Prop where
  | none : FewTokens []
  | one {token : Token} (inner : token.kind ≠ .endOfFile) : FewTokens [token]
  | step (direction : Step) (name : String) (position : Position) (span : Span) :
    FewTokens (stepRow direction name position span)

theorem ofLexeme_few (spelled : lexeme.Spelled) : FewTokens (Scan.ofLexeme place last lexeme).tokens := by
  obtain ⟨shape, text⟩ := lexeme
  cases shape with
  | blank | lineComment => exact .none
  | blockComment closed => cases closed <;> exact .none
  | integer | stray => exact .one nofun
  | word =>
    unfold Scan.ofLexeme
    dsimp only
    cases Keyword.ofWord? (String.ofList text) <;> exact .one nofun
  | symbol kind =>
    cases kind with
    | step direction =>
      unfold Scan.ofLexeme
      dsimp only
      cases last.bind Token.identifier? with
      | none => exact .none
      | some name => exact stepTokens_eq ▸ .step direction name _ _
    | endOfFile => exact absurd spelled.1 (by decide)
    | _ => exact .one nofun

/-- Only the end of a text gives the token of the end. -/
theorem FewTokens.inner (few : FewTokens tokens) : ∀ token ∈ tokens, token.kind ≠ .endOfFile := by
  cases few with
  | none => exact List.forall_mem_nil _
  | one inner => exact List.forall_mem_singleton.mpr inner
  | step => simp [stepRow]

theorem given_inner (place : Place) (last : Option Token) (spelled : ∀ lexeme ∈ lexemes, lexeme.Spelled) :
    ∀ token ∈ (given place last lexemes).tokens, token.kind ≠ .endOfFile := by
  induction lexemes generalizing place last with
  | nil => exact List.forall_mem_nil _
  | cons lexeme lexemes ih =>
    obtain ⟨spells, others⟩ := List.forall_mem_cons.mp spelled
    exact List.forall_mem_append.mpr ⟨(ofLexeme_few spells).inner, ih _ _ others⟩

/-! ## Identifiers -/

/-- Whether two tokens are not identifiers at one place. -/
def Distinct (token other : Token) : Prop :=
  token.kind = .identifier → other.kind = .identifier → token.span ≠ other.span

theorem FewTokens.distinct (few : FewTokens tokens) : tokens.Pairwise Distinct := by
  cases few with
  | none => exact .nil
  | one => exact List.pairwise_singleton _ _
  | step => simp [stepRow, Distinct]

/-- No two identifiers stand at one place. -/
theorem ofLexemes_distinct (spelled : ∀ lexeme ∈ lexemes, lexeme.Spelled)
    (present : ∀ lexeme ∈ lexemes, lexeme.text ≠ []) :
    (Scan.ofLexemes place last lexemes).tokens.Pairwise Distinct := by
  induction lexemes generalizing place last with
  | nil => exact List.pairwise_singleton _ _
  | cons lexeme lexemes ih =>
    obtain ⟨spells, spelled⟩ := List.forall_mem_cons.mp spelled
    obtain ⟨holds, present⟩ := List.forall_mem_cons.mp present
    refine List.pairwise_append.mpr ⟨(ofLexeme_few spells).distinct, ih spelled present, ?_⟩
    intro token member later behind _ _ same
    -- What comes behind a lexeme stands behind its text, and that text is not empty.
    have cuts := (ofLexemes_token_cuts later behind).offset_le
    rw [Place.after_offset, ← same, ofLexeme_token_span token member] at cuts
    have positive := byteLength_pos holds
    simp only [Lexeme.spanAt] at cuts
    omega

theorem all_present (text : List Char) : ∀ lexeme ∈ Lexeme.all text, lexeme.text ≠ [] := by
  induction text using Lexeme.all.induct with
  | case1 => simp
  | case2 c text ih =>
    rw [Lexeme.all_cons]
    exact List.forall_mem_cons.mpr ⟨Lexeme.take_ne_nil c text, ih⟩

/-! ## Steps -/

variable {source : String} {direction : Step} {text : List Char}

/-- The place behind some lexemes. -/
def behind (before : List Lexeme) : Place := Place.start.after (before.flatMap (·.text))

/-- A step without a fault stands behind an identifier, and gives the tokens of an assignment to it. -/
theorem step_of_clean
    (clean : (Scan.ofLexeme place last ⟨.symbol (.step direction), text⟩).errors = []) :
    ∃ target, last = some target ∧ target.kind = .identifier ∧
      (Scan.ofLexeme place last ⟨.symbol (.step direction), text⟩).tokens =
        stepRow direction target.text place.position
          ⟨place.offset, place.offset + byteLength text⟩ := by
  cases last with
  | none => cases clean
  | some target =>
    by_cases identifier : target.kind = .identifier
    · have known : target.identifier? = some target.text := if_pos identifier
      refine ⟨target, rfl, identifier, ?_⟩
      simp only [Scan.ofLexeme, Option.bind_some, known, stepTokens_eq]
    · have unknown : target.identifier? = none := if_neg identifier
      simp only [Scan.ofLexeme, Option.bind_some, unknown] at clean
      cases clean

/-- Among lexemes without faults a step's tokens stand behind the identifier that the lexemes before it
leave. -/
theorem given_step (spelled : ∀ lexeme ∈ before, lexeme.Spelled)
    (clean : (given .start none (before ++ ⟨.symbol (.step direction), text⟩ :: after)).errors = []) :
    ∃ earlier target later, target.kind = .identifier ∧
      before.foldl Lexeme.targetAfter none = some target.text ∧
      (given .start none (before ++ ⟨.symbol (.step direction), text⟩ :: after)).tokens =
        earlier ++ target :: (stepRow direction target.text (behind before).position
          ⟨(behind before).offset, (behind before).offset + byteLength text⟩ ++ later) := by
  have leaves := targetOf_given .start none spelled
  rw [given_append] at clean ⊢
  obtain ⟨-, cleanAfter⟩ := List.append_eq_nil_iff.mp clean
  obtain ⟨cleanStep, -⟩ := List.append_eq_nil_iff.mp cleanAfter
  obtain ⟨target, last, identifier, gives⟩ := step_of_clean cleanStep
  have known : target.identifier? = some target.text := if_pos identifier
  rw [last, targetOf, Option.bind_some, known] at leaves
  rw [Option.or_none] at last
  obtain ⟨earlier, same⟩ := List.getLast?_eq_some_iff.mp last
  obtain ⟨later, row⟩ := rest_cons .start none before ⟨.symbol (.step direction), text⟩ after
  rw [gives] at row
  refine ⟨earlier, target, later, identifier, leaves.symm, ?_⟩
  dsimp only
  rw [row, same, List.append_assoc]
  rfl

end Stepping

end OliCompiler
