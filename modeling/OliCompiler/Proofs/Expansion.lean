import OliCompiler.Proofs.Expansion.Readings
import OliCompiler.Proofs.Expansion.Retaking

/-!
Steps written out in a source text. Where every step of a variable is replaced by the assignment that it
stands for, the text is scanned to the same tokens and the same faults, and has no step left but those
that are reported.
-/

namespace OliCompiler

namespace Expansion

open Lexeme Printing Scanning

variable {target : Option String} {text rest blanks : List Char} {lexeme : Lexeme} {lexemes : List Lexeme}

/-- The assignment that a step of a variable stands for, from its sign on. -/
def writtenOut : Step → String → String
  | .up, name => " = " ++ name ++ " + 1 "
  | .down, name => " = " ++ name ++ " - 1 "

/-- The text that stands for a lexeme where the steps of variables are written out. -/
def replaced (target : Option String) (lexeme : Lexeme) : List Char :=
  match lexeme.shape, target with
  | .symbol (.step direction), some name => (writtenOut direction name).toList
  | _, _ => lexeme.text

/-- The text of lexemes with the steps of variables written out. -/
def replacedAll (target : Option String) : List Lexeme → List Char
  | [] => []
  | lexeme :: lexemes => replaced target lexeme ++ replacedAll (targetAfter target lexeme) lexemes

theorem replaced_of_not_changes (still : ¬Changes target lexeme) : replaced target lexeme = lexeme.text := by
  unfold replaced
  split
  · rename_i direction name stepping
    exact absurd ⟨direction, name, stepping, rfl⟩ still
  · rfl

theorem replaced_of_step {direction : Step} {name : String}
    (stepping : lexeme.shape = .symbol (.step direction)) : replaced (some name) lexeme =
      (writtenOut direction name).toList := by
  obtain ⟨kind, spelling⟩ := lexeme
  cases stepping
  rfl

theorem solid_all_dropWhile (text : List Char) :
    solid (all (text.dropWhile isBlank)) = solid (all text) := by
  cases text with
  | nil => rfl
  | cons c text =>
    by_cases blank : isBlank c = true
    · rw [List.dropWhile_cons_of_pos blank, all_cons c text, take_blank blank, solid_blank rfl]
    · rw [List.dropWhile_cons_of_neg blank]

/-- Blank space before a text is no more than blank space. -/
theorem solid_all_blanks (blank : ∀ c ∈ blanks, isBlank c = true) :
    solid (all (blanks ++ text)) = solid (all text) := by
  rw [← solid_all_dropWhile, List.dropWhile_append_of_pos blank, solid_all_dropWhile]

theorem isBlank_space : ∀ c ∈ [' '], isBlank c = true := List.forall_mem_singleton.mpr rfl

/-- A word of the language is taken before a blank. -/
theorem solid_all_word {word : Word} (legal : word.Legal) :
    solid (all (word.text ++ ' ' :: text)) = word.lexeme :: solid (all text) := by
  have apart : Apart (' ' :: text) := by
    intro c first
    cases first
    decide
  have blank : solid (all (' ' :: text)) = solid (all text) := solid_all_blanks isBlank_space
  obtain ⟨c, others, spelled, taken⟩ := legal.take fun _ => apart
  rw [spelled, List.cons_append, all_cons, taken, solid_cons (lexeme_ne_blank word), blank]

theorem solid_all_step {direction : Step} {name : String} (identifier : IsIdentifier name) :
    solid (all ((writtenOut direction name).toList ++ text)) =
      (stepWords direction name).map Word.lexeme ++ solid (all text) := by
  have spaced : (writtenOut direction name).toList ++ text =
      [' '] ++ ((Word.fixed .assign).text ++ ' ' :: ((Word.name name).text ++ ' ' ::
        ((Word.fixed (.operator (changeOf direction))).text ++ ' ' ::
          ((Word.number 1).text ++ ' ' :: text)))) := by
    cases direction <;>
    · simp only [writtenOut, String.toList_append, List.append_assoc]
      rfl
  rw [spaced, solid_all_blanks isBlank_space, solid_all_word .assign, solid_all_word (.name identifier),
    solid_all_word (.operator _), solid_all_word (.number (by decide))]
  rfl

/-- A lexeme begins with the character that it is taken from. -/
theorem take_begins (c : Char) (text : List Char) : ∃ others, (take c text).1.text = c :: others := by
  obtain ⟨d, others, begins⟩ := List.exists_cons_of_ne_nil (take_ne_nil c text)
  have whole := take_append c text
  rw [begins] at whole
  exact ⟨others, (List.cons.inj whole).1 ▸ begins⟩

/-- A lexeme that leaves a variable for a step is neither a symbol nor a stray character. -/
theorem unsigned_of_targetAfter {name : String} (leaves : targetAfter target lexeme = some name) :
    lexeme.shape ≠ .stray ∧ ∀ kind, lexeme.shape ≠ .symbol kind := by
  obtain ⟨kind, spelling⟩ := lexeme
  cases kind with
  | stray | symbol => cases leaves
  | _ => simp

/-- A lexeme before a text ends where it did when steps are written out in the text. -/
theorem ends_replacedAll (target : Option String) (lexeme : Lexeme) (text : List Char) :
    Ends lexeme text (replacedAll (targetAfter target lexeme) (all text)) := by
  cases text with
  | nil =>
    rw [all_nil]
    exact .same rfl
  | cons c text =>
    obtain ⟨others, begins⟩ := take_begins c text
    rw [all_cons, replacedAll]
    by_cases changes : Changes (targetAfter target lexeme) (take c text).1
    · obtain ⟨direction, name, stepping, leaves⟩ := changes
      have spelled := take_spelled c text
      obtain ⟨noStray, noSymbol⟩ := unsigned_of_targetAfter leaves
      rw [Spelled, stepping, begins] at spelled
      rw [leaves, replaced_of_step stepping]
      refine .step (c := c) ?_ rfl ?_ noStray noSymbol
      · cases direction with
        | up => exact .inl (List.cons.inj spelled.2).1
        | down => exact .inr (List.cons.inj spelled.2).1
      · cases direction <;>
        · simp only [writtenOut, String.toList_append]
          rfl
    · rw [replaced_of_not_changes changes, begins]
      exact .same rfl

/-- The lexemes of a text in which steps are written out are the text's own ones, written out. -/
theorem solid_replacedAll (known : ∀ name ∈ target, IsIdentifier name) :
    solid (all (replacedAll target (all text))) = solid (writtenAll target (all text)) := by
  induction text using all.induct generalizing target with
  | case1 =>
    rw [all_nil, replacedAll, writtenAll, all_nil]
  | case2 c text ih =>
    have spelled := take_spelled c text
    have ih := ih (targetAfter_identifier spelled known)
    rw [all_cons, replacedAll, writtenAll]
    by_cases changes : Changes target (take c text).1
    · obtain ⟨direction, name, stepping, rfl⟩ := changes
      rw [replaced_of_step stepping, written_of_step stepping, solid_all_step (known name rfl), ih]
      rfl
    · rw [replaced_of_not_changes changes, written_of_not_changes changes, List.singleton_append]
      by_cases blank : (take c text).1.shape = .blank
      · rw [Spelled, blank] at spelled
        rw [solid_all_blanks spelled, solid_blank blank, ih]
      · obtain ⟨others, begins⟩ := take_begins c text
        have again := take_again blank (ends_replacedAll target (take c text).1 (take c text).2)
        rw [begins, List.tail_cons] at again
        rw [begins, List.cons_append, all_cons, again, solid_cons blank, solid_cons blank, ih]

end Expansion

open Expansion

/-- The source text with every step that follows an identifier written out as the assignment it stands for. -/
def expanded (source : String) : String := String.ofList (replacedAll none (Lexeme.all source.toList))

/-- What the scan of a source text has in common with that of the text with its steps written out. -/
structure ScansExpanded (source : String) : Prop where
  /-- The same tokens, but for where they stand. -/
  tokens : (scan (expanded source)).tokens.map (fun token => (token.kind, token.value)) =
    (scan source).tokens.map fun token => (token.kind, token.value)
  /-- The same faults in the same order, but for where they stand. -/
  faults : (scan (expanded source)).errors.map (·.fault) = (scan source).errors.map (·.fault)
  /-- Every step that is left is reported as dangling, where it stands. -/
  steps : ∀ before direction text after,
    Lexeme.all (expanded source).toList = before ++ ⟨.symbol (.step direction), text⟩ :: after →
    ∃ error ∈ (scan (expanded source)).errors, error.fault = .danglingStep direction ∧
      error.span = ⟨byteLength (before.flatMap (·.text)),
        byteLength (before.flatMap (·.text)) + byteLength text⟩

namespace Expansion

/-- But for blank space, the lexemes of the expanded text are those of the text with its steps written
out. -/
theorem solid_expanded (source : String) : solid (Lexeme.all (expanded source).toList) =
    solid (writtenAll none (Lexeme.all source.toList)) := by
  rw [expanded, String.toList_ofList]
  exact solid_replacedAll nofun

theorem expanded_alike (source : String) : Alike (scan (expanded source)) (scan source) := by
  have spelled := Lexeme.all_spelled source.toList
  -- Blank space is dropped on both sides, since the expanded text has more of it than the written steps.
  have blanks : Alike (scan (expanded source))
      (.ofLexemes .start none (solid (Lexeme.all (expanded source).toList))) :=
    solid_alike (Lexeme.all_spelled _) rfl
  have blanks' : Alike (.ofLexemes .start none (writtenAll none (Lexeme.all source.toList)))
      (.ofLexemes .start none (solid (writtenAll none (Lexeme.all source.toList)))) :=
    solid_alike (writtenAll_spelled spelled nofun) rfl
  have steps : Alike (scan source) (.ofLexemes .start none (writtenAll none (Lexeme.all source.toList))) :=
    written_alike spelled nofun rfl rfl
  rw [solid_expanded] at blanks
  exact (blanks.trans blanks'.symm).trans steps.symm

theorem expanded_still (source : String) : Still none (Lexeme.all (expanded source).toList) := by
  rw [← solid_still, solid_expanded, solid_still]
  exact writtenAll_still

end Expansion

/-- A step of a variable is an abbreviation: written out, it is scanned the same. -/
theorem scan_expanded (source : String) : ScansExpanded source := by
  obtain ⟨tokens, faults⟩ := expanded_alike source
  refine ⟨tokens, faults, fun before direction text after split => ?_⟩
  have spelled := Lexeme.all_spelled (expanded source).toList
  have still := expanded_still source
  rw [split] at spelled still
  have spelledBefore := (List.forall_mem_append.mp spelled).1
  have reported := still_reported .start none spelledBefore still
  rw [← split] at reported
  refine ⟨_, reported, rfl, ?_⟩
  rw [Place.after_offset]
  simp [Place.start]

/-- Comments may stand between a variable and its step. -/
example : expanded "x /* by one */ ++;" = "x /* by one */  = x + 1 ;" := by decide +kernel

end OliCompiler
