import OliCompiler.Proofs.Printing.Words

/-!
Steps written out among lexemes. What a lexeme gives depends on its place only in where its tokens stand,
and on what was before it only in the variable that a step would change; so a step behind a variable reads
as the assignment that it stands for.
-/

namespace OliCompiler

open Printing

/-- The variable that a step would change behind a lexeme, from the one that it would change before it.
Blank space and comments leave it, an identifier sets it, and all else clears it. -/
def Lexeme.targetAfter (target : Option String) (lexeme : Lexeme) : Option String :=
  match lexeme.shape with
  | .blank | .lineComment | .blockComment _ => target
  | .word =>
    if isReserved (String.ofList lexeme.text) then none else some (String.ofList lexeme.text)
  | .integer | .symbol _ | .stray => none

/-- Whether a lexeme is spelled as its shape asks. Of integers, comments and stray characters it is not
asked. -/
def Lexeme.Spelled (lexeme : Lexeme) : Prop :=
  match lexeme.shape with
  | .blank => ∀ c ∈ lexeme.text, isBlank c = true
  | .word => Scanning.IsName lexeme.text
  | .symbol kind => kind ∈ Scanning.symbols ∧ lexeme.text = kind.wording.toList
  | _ => True

namespace Lexeme

theorem takeSymbol_spelled (c : Char) (text : List Char) : (takeSymbol c text).1.Spelled := by
  by_cases pair : Scanning.IsPair c text
  · obtain ⟨d, rest, kind, rfl, known⟩ := pair
    rw [Scanning.takeSymbol_pair known]
    obtain ⟨fixed, spelled, _⟩ := Scanning.symbolPair?_spells known
    exact ⟨fixed, spelled.symm⟩
  · rw [Scanning.takeSymbol_single pair]
    cases known : symbol? c with
    | some kind =>
      obtain ⟨fixed, spelled, _⟩ := Scanning.symbol?_spells known
      exact ⟨fixed, spelled.symm⟩
    | none => trivial

theorem take_spelled (c : Char) (text : List Char) : (take c text).1.Spelled := by
  fun_cases take c text with
  | case1 c text blank => exact Scanning.all_run blank
  | case3 c text _ _ word =>
    exact ⟨c, _, rfl, Scanning.isWordStart_iff.mp word, fun d inside =>
      Scanning.isWordPart_iff.mp (List.all_eq_true.mp List.all_takeWhile d inside)⟩
  | case6 c text => exact takeSymbol_spelled c text
  | _ => trivial

theorem all_spelled (text : List Char) : ∀ lexeme ∈ all text, lexeme.Spelled := by
  induction text using all.induct with
  | case1 => simp
  | case2 c text ih =>
    rw [all_cons]
    exact List.forall_mem_cons.mpr ⟨take_spelled c text, ih⟩

end Lexeme

namespace Expansion

open Lexeme

variable {target : Option String} {place place' : Place} {last last' : Option Token} {lexeme : Lexeme}
  {lexemes : List Lexeme} {one one' other other' : Scan}

/-- Whether two scans have the same tokens and the same faults, wherever these stand. -/
def Alike (one other : Scan) : Prop :=
  one.tokens.map content = other.tokens.map content ∧ one.errors.map (·.fault) = other.errors.map (·.fault)

/-- The variable that the token given last names, if it names one. -/
def targetOf (last : Option Token) : Option String := last.bind Token.identifier?

theorem integerErrors_alike (digits : List Char) :
    (Scan.integerErrors place digits).map (·.fault) = (Scan.integerErrors place' digits).map (·.fault) := by
  unfold Scan.integerErrors
  split
  · rfl
  · split <;> rfl

/-- What a lexeme gives behind a variable. -/
theorem ofLexeme_alike (same : targetOf last = targetOf last') :
    Alike (.ofLexeme place last lexeme) (.ofLexeme place' last' lexeme) := by
  obtain ⟨shape, text⟩ := lexeme
  cases shape with
  | blank => exact ⟨rfl, rfl⟩
  | lineComment => exact ⟨rfl, rfl⟩
  | blockComment closed => cases closed <;> exact ⟨rfl, rfl⟩
  | integer => exact ⟨rfl, integerErrors_alike text⟩
  | word =>
    unfold Scan.ofLexeme Alike
    dsimp only
    cases Keyword.ofWord? (String.ofList text) <;> exact ⟨rfl, rfl⟩
  | symbol kind =>
    cases kind with
    | step direction =>
      unfold Scan.ofLexeme Alike
      dsimp only
      rw [show last.bind Token.identifier? = last'.bind Token.identifier? from same]
      cases last'.bind Token.identifier? <;> exact ⟨rfl, rfl⟩
    | _ => exact ⟨rfl, rfl⟩
  | stray => exact ⟨rfl, by simp [Scan.ofLexeme]⟩

/-- The token given last names the variable that the lexemes tell. -/
theorem targetOf_ofLexeme (place : Place) (last : Option Token) (spelled : lexeme.Spelled) :
    targetOf ((Scan.ofLexeme place last lexeme).tokens.getLast?.or last) =
      targetAfter (targetOf last) lexeme := by
  obtain ⟨shape, text⟩ := lexeme
  cases shape with
  | blank => rfl
  | lineComment => rfl
  | blockComment closed => cases closed <;> rfl
  | integer => rfl
  | word =>
    unfold Scan.ofLexeme targetAfter isReserved
    dsimp only
    cases Keyword.ofWord? (String.ofList text) <;> rfl
  | symbol kind =>
    cases kind with
    | step direction =>
      unfold Scan.ofLexeme targetAfter
      dsimp only
      cases before : last.bind Token.identifier? with
      | none => exact before
      | some name => rfl
    | identifier => exact absurd spelled.1 (by decide)
    | _ => rfl
  | stray => rfl

theorem Alike.symm (alike : Alike one other) : Alike other one := ⟨alike.1.symm, alike.2.symm⟩

theorem Alike.trans {another : Scan} (first : Alike one other) (second : Alike other another) :
    Alike one another :=
  ⟨first.1.trans second.1, first.2.trans second.2⟩

theorem Alike.append (first : Alike one one') (second : Alike other other') :
    Alike ⟨one.tokens ++ other.tokens, one.errors ++ other.errors⟩
      ⟨one'.tokens ++ other'.tokens, one'.errors ++ other'.errors⟩ := by
  constructor
  · rw [List.map_append, List.map_append, first.1, second.1]
  · rw [List.map_append, List.map_append, first.2, second.2]

/-! ## Blank space -/

/-- The lexemes but for blank space. -/
def solid (lexemes : List Lexeme) : List Lexeme := lexemes.filter (·.shape ≠ .blank)

theorem solid_blank (blank : lexeme.shape = .blank) : solid (lexeme :: lexemes) = solid lexemes := by
  simp [solid, blank]

theorem solid_cons (inked : lexeme.shape ≠ .blank) :
    solid (lexeme :: lexemes) = lexeme :: solid lexemes := by
  simp [solid, inked]

/-- Blank space is read as nothing. -/
theorem solid_alike (spelled : ∀ lexeme ∈ lexemes, lexeme.Spelled) (same : targetOf last = targetOf last') :
    Alike (.ofLexemes place last lexemes) (.ofLexemes place' last' (solid lexemes)) := by
  induction lexemes generalizing place place' last last' with
  | nil => exact ⟨rfl, rfl⟩
  | cons lexeme lexemes ih =>
    obtain ⟨spells, others⟩ := List.forall_mem_cons.mp spelled
    by_cases blank : lexeme.shape = .blank
    · rw [solid_blank blank]
      obtain ⟨shape, text⟩ := lexeme
      cases blank
      exact ih others same
    · rw [solid_cons blank, Scan.ofLexemes, Scan.ofLexemes]
      refine (ofLexeme_alike same).append (ih others ?_)
      rw [targetOf_ofLexeme _ _ spells, targetOf_ofLexeme _ _ spells, same]

/-! ## Steps -/

/-- The words of the assignment that a step of a variable stands for, from its sign on. -/
def stepWords (direction : Step) (name : String) : List Word :=
  [.fixed .assign, .name name, .fixed (.operator (Scanning.changeOf direction)), .number 1]

/-- The lexemes that stand for a lexeme where the steps of variables are written out. -/
def written (target : Option String) (lexeme : Lexeme) : List Lexeme :=
  match lexeme.shape, target with
  | .symbol (.step direction), some name => (stepWords direction name).map Word.lexeme
  | _, _ => [lexeme]

/-- Lexemes with the steps of variables written out. -/
def writtenAll (target : Option String) : List Lexeme → List Lexeme
  | [] => []
  | lexeme :: lexemes => written target lexeme ++ writtenAll (targetAfter target lexeme) lexemes

/-- Whether a lexeme is a step of a variable. -/
def Changes (target : Option String) (lexeme : Lexeme) : Prop :=
  ∃ direction name, lexeme.shape = .symbol (.step direction) ∧ target = some name

theorem written_of_not_changes (still : ¬Changes target lexeme) : written target lexeme = [lexeme] := by
  obtain ⟨shape, text⟩ := lexeme
  unfold written
  split
  · rename_i direction name shape
    exact absurd ⟨direction, name, shape, rfl⟩ still
  · rfl

theorem written_of_step {direction : Step} {name : String} (stepping : lexeme.shape = .symbol (.step direction)) :
    written (some name) lexeme = (stepWords direction name).map Word.lexeme := by
  obtain ⟨kind, spelling⟩ := lexeme
  cases stepping
  rfl

/-- The words of a step are read as the tokens that it stands for, and leave no variable for a step. -/
theorem stepWords_alike {direction : Step} {name : String} {position : Position} {span : Span}
    (identifier : IsIdentifier name)
    (rest : ∀ place' last', targetOf last' = none → Alike other (.ofLexemes place' last' lexemes)) :
    Alike ⟨Scanning.stepRow direction name position span ++ other.tokens, [] ++ other.errors⟩
      (.ofLexemes place last ((stepWords direction name).map Word.lexeme ++ lexemes)) := by
  have sign := Word.Legal.assign.ofLexeme
  have identifies := Word.Legal.ofLexeme (.name identifier)
  have operator := Word.Legal.ofLexeme (.operator (Scanning.changeOf direction))
  have fits : 1 ≤ Decimal.greatest := by decide
  have one := (Word.Legal.number fits).ofLexeme
  simp only [stepWords, List.map_cons, List.map_nil, List.cons_append, List.nil_append, Scan.ofLexemes,
    sign, identifies, operator, one]
  refine Alike.append (?step : Alike ⟨_, []⟩ ⟨[_, _, _, _], []⟩) (rest _ _ ?_)
  case step => exact ⟨rfl, rfl⟩
  rfl

/-- A variable that lexemes leave for a step is one that can be written. -/
theorem targetAfter_identifier (spelled : lexeme.Spelled) (known : ∀ name ∈ target, IsIdentifier name) :
    ∀ name ∈ targetAfter target lexeme, IsIdentifier name := by
  obtain ⟨shape, text⟩ := lexeme
  intro name among
  cases shape with
  | blank | lineComment | blockComment => exact known name among
  | word =>
    unfold targetAfter at among
    dsimp only at among
    split at among
    · cases among
    · rename_i free
      cases among
      refine ⟨?_, by simpa using free⟩
      rw [String.toList_ofList]
      exact spelled
  | integer | symbol | stray => cases among

theorem stepWords_spelled {direction : Step} {name : String} (identifier : IsIdentifier name) :
    ∀ lexeme ∈ (stepWords direction name).map Word.lexeme, lexeme.Spelled := by
  simp only [stepWords, List.map_cons, List.map_nil, List.forall_mem_cons]
  refine ⟨⟨by decide, rfl⟩, identifier.1, ⟨operator_mem_symbols _, rfl⟩, trivial, nofun⟩

theorem writtenAll_spelled (spelled : ∀ lexeme ∈ lexemes, lexeme.Spelled)
    (known : ∀ name ∈ target, IsIdentifier name) : ∀ lexeme ∈ writtenAll target lexemes, lexeme.Spelled := by
  induction lexemes generalizing target with
  | nil => nofun
  | cons lexeme lexemes ih =>
    obtain ⟨spells, others⟩ := List.forall_mem_cons.mp spelled
    rw [writtenAll, List.forall_mem_append]
    refine ⟨?_, ih others (targetAfter_identifier spells known)⟩
    by_cases changes : Changes target lexeme
    · obtain ⟨direction, name, stepping, rfl⟩ := changes
      rw [written_of_step stepping]
      exact stepWords_spelled (known name rfl)
    · rw [written_of_not_changes changes, List.forall_mem_singleton]
      exact spells

/-- Lexemes read the same with their steps of variables written out. -/
theorem written_alike (spelled : ∀ lexeme ∈ lexemes, lexeme.Spelled)
    (known : ∀ name ∈ target, IsIdentifier name) (same : targetOf last = target) (same' : targetOf last' = target) :
    Alike (.ofLexemes place last lexemes) (.ofLexemes place' last' (writtenAll target lexemes)) := by
  induction lexemes generalizing target place place' last last' with
  | nil => exact ⟨rfl, rfl⟩
  | cons lexeme lexemes ih =>
    obtain ⟨spells, others⟩ := List.forall_mem_cons.mp spelled
    have known' := targetAfter_identifier spells known
    by_cases changes : Changes target lexeme
    · obtain ⟨direction, name, stepping, rfl⟩ := changes
      obtain ⟨kind, spelling⟩ := lexeme
      cases stepping
      have before : last.bind Token.identifier? = some name := same
      rw [Scan.ofLexemes, Scan.ofLexeme]
      dsimp only
      rw [before]
      refine stepWords_alike (known name rfl) fun place' last' unnamed => ih others known' rfl unnamed
    · rw [writtenAll, written_of_not_changes changes, List.singleton_append, Scan.ofLexemes, Scan.ofLexemes]
      refine (ofLexeme_alike (same.trans same'.symm)).append (ih others known' ?_ ?_)
      · rw [targetOf_ofLexeme _ _ spells, same]
      · rw [targetOf_ofLexeme _ _ spells, same']

/-! ## What is left of steps -/

/-- Whether no lexeme is a step of a variable. -/
def Still (target : Option String) : List Lexeme → Prop
  | [] => True
  | lexeme :: lexemes => ¬Changes target lexeme ∧ Still (targetAfter target lexeme) lexemes

theorem writtenAll_still : Still target (writtenAll target lexemes) := by
  induction lexemes generalizing target with
  | nil => trivial
  | cons lexeme lexemes ih =>
    by_cases changes : Changes target lexeme
    · obtain ⟨direction, name, stepping, rfl⟩ := changes
      obtain ⟨kind, spelling⟩ := lexeme
      cases stepping
      refine ⟨?_, ?_, ?_, ?_, ih⟩ <;>
        · rintro ⟨_, _, stepping, _⟩
          cases stepping
    · rw [writtenAll, written_of_not_changes changes]
      exact ⟨changes, ih⟩

theorem solid_still : Still target (solid lexemes) ↔ Still target lexemes := by
  induction lexemes generalizing target with
  | nil => exact .rfl
  | cons lexeme lexemes ih =>
    by_cases blank : lexeme.shape = .blank
    · have leaves : targetAfter target lexeme = target := by simp [targetAfter, blank]
      have still : ¬Changes target lexeme := by simp [Changes, blank]
      rw [solid_blank blank, Still, leaves, ih]
      exact ⟨fun rest => ⟨still, rest⟩, And.right⟩
    · rw [solid_cons blank, Still, Still, ih]

/-- Every step that is left is reported where it stands. -/
theorem still_reported (place : Place) (last : Option Token) {before after : List Lexeme}
    {direction : Step} {text : List Char}
    (spelled : ∀ lexeme ∈ before, lexeme.Spelled)
    (still : Still (targetOf last) (before ++ ⟨.symbol (.step direction), text⟩ :: after)) :
    let place' := place.after (before.flatMap (·.text))
    ⟨.danglingStep direction, place'.position, ⟨place'.offset, place'.offset + byteLength text⟩⟩ ∈
      (Scan.ofLexemes place last (before ++ ⟨.symbol (.step direction), text⟩ :: after)).errors := by
  induction before generalizing place last with
  | nil =>
    have unnamed : last.bind Token.identifier? = none := by
      cases before : last.bind Token.identifier? with
      | none => rfl
      | some name => exact absurd ⟨direction, name, rfl, before⟩ still.1
    rw [List.nil_append, Scan.ofLexemes]
    refine List.mem_append_left _ ?_
    simp [Scan.ofLexeme, unnamed]
  | cons lexeme before ih =>
    obtain ⟨spells, spelled⟩ := List.forall_mem_cons.mp spelled
    rw [List.cons_append, Scan.ofLexemes, List.flatMap_cons, Place.after_append]
    refine List.mem_append_right _ (ih _ _ spelled ?_)
    rw [targetOf_ofLexeme _ _ spells]
    exact still.2

end Expansion

end OliCompiler
