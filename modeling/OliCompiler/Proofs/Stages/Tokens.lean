import OliCompiler.Proofs.Printing.RoundTrip
import OliCompiler.Proofs.Scanning.Longest

/-!
What a scanning without faults leaves. No token is of a kind that only faults are about, identifiers are
names, and integers are in range; the tokens that a step stands for are among these.
-/

namespace OliCompiler

open Scanning Printing

/-- The kinds of tokens that no scanning without faults gives. -/
def Token.Kind.faulty : List Token.Kind := [.unknown, .comment, .step .up, .step .down]

/-- Whether a token is one that a reader can rely on. -/
structure Token.Sound (token : Token) : Prop where
  kind : token.kind ∉ Kind.faulty
  name : token.kind = .identifier → IsIdentifier token.text
  integer : token.kind = .integer → ∃ value, Decimal.int32? token.text.toList = some value ∧ 0 ≤ value

variable {kind : Token.Kind} {value : Option String} {position : Position} {span : Span}

/-- A token that is neither an identifier nor an integer has nothing to be relied on but its kind. -/
theorem Token.sound_of_kind (kept : kind ∉ Kind.faulty) (unnamed : kind ≠ .identifier)
    (plain : kind ≠ .integer) : Token.Sound ⟨kind, value, position, span⟩ where
  kind := kept
  name named := absurd named unnamed
  integer literal := absurd literal plain

theorem Token.sound_of_name {name : String} (identifier : IsIdentifier name) :
    Token.Sound ⟨.identifier, some name, position, span⟩ where
  kind := show Kind.identifier ∉ Kind.faulty by decide
  name _ := identifier
  integer literal := by cases literal

theorem natural_ofInt {number : Nat} (fits : number ≤ Decimal.greatest) :
    0 ≤ Int32.ofInt number := by
  have bounded : number ≤ 2147483647 := fits
  rw [Int32.le_iff_toInt_le, Int32.toInt_ofInt_of_le (by omega) (by omega)]
  exact Int.natCast_nonneg number

/-- A literal that the scanning has no fault to find in denotes an integer. -/
theorem int32?_of_integerErrors {place : Place} {digits : List Char} (present : digits ≠ [])
    (all : ∀ c ∈ digits, IsDigit c) (clean : Scan.integerErrors place digits = []) :
    ∃ value, Decimal.int32? digits = some value ∧ 0 ≤ value := by
  have fits : Decimal.value digits ≤ Decimal.greatest := by
    refine Decidable.byContradiction fun large => ?_
    unfold Scan.integerErrors at clean
    split at clean
    · cases clean
    · rw [if_neg large] at clean
      cases clean
  rw [value_eq] at fits
  exact ⟨_, Grammar.int32?_eq_some.mpr (.plain present all fits), natural_ofInt fits⟩

theorem Token.sound_of_integer {place : Place} {digits : List Char} (present : digits ≠ [])
    (all : ∀ c ∈ digits, IsDigit c) (clean : Scan.integerErrors place digits = []) :
    Token.Sound ⟨.integer, some (String.ofList digits), position, span⟩ where
  kind := show Kind.integer ∉ Kind.faulty by decide
  name named := by cases named
  integer _ := by
    rw [Token.text, Option.getD_some, String.toList_ofList]
    exact int32?_of_integerErrors present all clean

/-- The tokens that a step of a variable stands for can all be relied on. -/
theorem stepTokens_sound {direction : Step} {name : String} (identifier : IsIdentifier name) :
    ∀ token ∈ Scan.stepTokens direction name position span, token.Sound := by
  have digit : IsDigit '1' := by decide
  have one : Token.Sound ⟨.integer, some "1", position, span⟩ :=
    Token.sound_of_integer (List.cons_ne_nil '1' []) (List.forall_mem_singleton.mpr digit)
      (rfl : Scan.integerErrors .start ['1'] = [])
  simp only [Scan.stepTokens, List.forall_mem_cons]
  refine ⟨?_, Token.sound_of_name identifier, ?_, one, List.forall_mem_nil _⟩
  · exact Token.sound_of_kind (by decide) (by decide) (by decide)
  · cases direction <;> exact Token.sound_of_kind (by decide) (by decide) (by decide)

/-- Whether a piece of text is matched by its rule. A stray piece has none, but it is not empty. -/
def Scanning.Piece.Fits (piece : Piece) : Prop :=
  piece.text ≠ [] ∧ ∀ rule ∈ piece.rule, ∃ rest, rule.Matches piece.text rest

theorem Scanning.Falls.fits {text rest : List Char} {piece : Piece} (falls : Falls text piece rest) :
    piece.Fits := by
  cases falls with
  | longest fits =>
    obtain ⟨c, others, rfl, _⟩ := fits.fits.opens
    exact ⟨List.cons_ne_nil c others, by rintro rule ⟨⟩; exact ⟨rest, fits.fits⟩⟩
  | stray => exact ⟨List.cons_ne_nil _ _, by rintro rule ⟨⟩⟩

theorem Scanning.Splits.fits {text : List Char} {pieces : List Piece} (splits : Splits text pieces) :
    ∀ piece ∈ pieces, piece.Fits := by
  induction splits with
  | nil => exact List.forall_mem_nil _
  | cons first _ ih => exact List.forall_mem_cons.mpr ⟨first.fits, ih⟩

/-- A step without faults stands behind an identifier. -/
theorem ofStep_sound {place : Place} {last : Option Token} {direction : Step} {text : List Char}
    (before : ∀ token ∈ last, token.Sound)
    (clean : (Scan.ofLexeme place last ⟨.symbol (.step direction), text⟩).errors = []) :
    ∀ token ∈ (Scan.ofLexeme place last ⟨.symbol (.step direction), text⟩).tokens, token.Sound := by
  unfold Scan.ofLexeme at clean ⊢
  cases last with
  | none => cases clean
  | some target =>
    by_cases named : target.kind = .identifier
    · have known : target.identifier? = some target.text := if_pos named
      simp only [Option.bind_some, known]
      exact stepTokens_sound ((before target rfl).name named)
    · have unknown : target.identifier? = none := if_neg named
      simp only [Option.bind_some, unknown] at clean
      cases clean

/-- A lexeme without faults gives tokens that can be relied on. -/
theorem ofLexeme_sound {place : Place} {last : Option Token} {lexeme : Lexeme}
    (fits : (Piece.ofLexeme lexeme).Fits) (before : ∀ token ∈ last, token.Sound)
    (clean : (Scan.ofLexeme place last lexeme).errors = []) :
    ∀ token ∈ (Scan.ofLexeme place last lexeme).tokens, token.Sound := by
  obtain ⟨shape, text⟩ := lexeme
  obtain ⟨present, matched⟩ := fits
  cases shape with
  | blank | lineComment => exact List.forall_mem_nil _
  | blockComment closed =>
    cases closed with
    | true => exact List.forall_mem_nil _
    | false => cases clean
  | integer =>
    obtain ⟨rest, _, all⟩ := matched .integer rfl
    exact List.forall_mem_singleton.mpr (Token.sound_of_integer present all clean)
  | word =>
    obtain ⟨rest, fits⟩ := matched (.ofWord text) rfl
    cases spelled : Keyword.ofWord? (String.ofList text) with
    | some word =>
      simp only [Scan.ofLexeme, spelled]
      refine List.forall_mem_singleton.mpr ?_
      exact Token.sound_of_kind (by simp [Token.Kind.faulty]) (by simp) (by simp)
    | none =>
      rw [Rule.ofWord, spelled] at fits
      simp only [Scan.ofLexeme, spelled]
      refine List.forall_mem_singleton.mpr (Token.sound_of_name ⟨?_, ?_⟩)
      · rwa [String.toList_ofList]
      · rw [isReserved, spelled]
        rfl
  | symbol kind =>
    obtain ⟨rest, fixed, _⟩ := matched (.symbol kind) rfl
    cases kind with
    | step direction => exact ofStep_sound before clean
    -- A symbol is always written the same, which these kinds are not.
    | identifier | integer | unknown | comment => exact absurd fixed (by decide)
    | _ =>
      refine List.forall_mem_singleton.mpr ?_
      exact Token.sound_of_kind (by simp [Token.Kind.faulty]) (by simp) (by simp)
  | stray => exact absurd (List.map_eq_nil_iff.mp clean) present

theorem ofLexemes_sound {place : Place} {last : Option Token} {lexemes : List Lexeme}
    (fits : ∀ lexeme ∈ lexemes, (Piece.ofLexeme lexeme).Fits) (before : ∀ token ∈ last, token.Sound)
    (clean : (Scan.ofLexemes place last lexemes).errors = []) :
    ∀ token ∈ (Scan.ofLexemes place last lexemes).tokens, token.Sound := by
  induction lexemes generalizing place last with
  | nil =>
    refine List.forall_mem_singleton.mpr ?_
    exact Token.sound_of_kind (by decide) (by decide) (by decide)
  | cons lexeme lexemes ih =>
    obtain ⟨first, others⟩ := List.forall_mem_cons.mp fits
    obtain ⟨cleanFirst, cleanOthers⟩ := List.append_eq_nil_iff.mp clean
    have given := ofLexeme_sound first before cleanFirst
    refine List.forall_mem_append.mpr ⟨given, ih others ?_ cleanOthers⟩
    intro token member
    rcases Option.or_eq_some_iff.mp member with last | ⟨_, last⟩
    · exact given token (List.mem_of_getLast? last)
    · exact before token last

/-- All tokens of a text without lexical faults can be relied on. -/
theorem scan_sound {source : String} (clean : (scan source).errors = []) :
    ∀ token ∈ (scan source).tokens, token.Sound := by
  refine ofLexemes_sound (fun lexeme member => ?_) (fun token member => by cases member) clean
  exact (all_splits source.toList).fits _ (List.mem_map_of_mem member)

end OliCompiler
