import OliCompiler.Proofs.Expansion.Retaking
import OliCompiler.Proofs.Scanning.Shifting
import OliCompiler.Proofs.Scanning.Tokens
import OliCompiler.Proofs.Spans.Scanning

/-!
Two texts with a newline between them. No lexeme but blank space and an open comment goes on behind a
newline, and what is left of the first text is only the token given last, which a step looks back at; so
the second text is scanned as on its own, and all of it stands further down.
-/

namespace OliCompiler

open Scanning

section

variable {place : Place} {last : Option Token} {text blanks others : List Char} {c : Char}
  {p : Char → Bool}

/-- Blank space that a text starts with is read as nothing. -/
theorem ofLexemes_dropBlank (text : List Char) : Scan.ofLexemes place last (Lexeme.all text) =
    Scan.ofLexemes (place.after (text.takeWhile Lexeme.isBlank)) last
      (Lexeme.all (text.dropWhile Lexeme.isBlank)) := by
  cases text with
  | nil => rfl
  | cons c text =>
    by_cases blank : Lexeme.isBlank c = true
    · rw [Lexeme.all_cons, Printing.take_blank blank, List.takeWhile_cons_of_pos blank,
        List.dropWhile_cons_of_pos blank]
      rfl
    · rw [List.takeWhile_cons_of_neg blank, List.dropWhile_cons_of_neg blank, Place.after_nil]

theorem ofLexemes_blank (blank : ∀ c ∈ blanks, Lexeme.isBlank c = true) :
    Scan.ofLexemes place last (Lexeme.all (blanks ++ text)) =
      Scan.ofLexemes (place.after blanks) last (Lexeme.all text) := by
  rw [ofLexemes_dropBlank, List.takeWhile_append_of_pos blank, List.dropWhile_append_of_pos blank,
    Place.after_append, ← ofLexemes_dropBlank]

/-- A run of characters other than the newline ends at a newline. -/
theorem run_newline (stops : p '\n' = false) :
    (text ++ '\n' :: others).takeWhile p = text.takeWhile p ∧
      (text ++ '\n' :: others).dropWhile p = text.dropWhile p ++ '\n' :: others := by
  induction text with
  | nil => simp [stops]
  | cons c text ih =>
    cases inside : p c <;> simp [inside, ih]

/-- What stands in front of a newline and is no newline itself is of the text before it. -/
theorem second_newline {d : Char} {rest : List Char} (other : d ≠ '\n')
    (same : text ++ '\n' :: others = d :: rest) : ∃ front, text = d :: front := by
  cases text with
  | nil => exact absurd (List.cons.inj same).1.symm other
  | cons c text => exact ⟨text, by rw [(List.cons.inj same).1]⟩

theorem symbolPair?_newline (c : Char) : Lexeme.symbolPair? c '\n' = none := by
  unfold Lexeme.symbolPair?
  split <;> first | rfl | contradiction

theorem takeSymbol_newline : Lexeme.takeSymbol c (text ++ '\n' :: others) =
    ((Lexeme.takeSymbol c text).1, (Lexeme.takeSymbol c text).2 ++ '\n' :: others) := by
  by_cases pair : IsPair c text
  · obtain ⟨d, rest, kind, rfl, known⟩ := pair
    rw [takeSymbol_pair known, List.cons_append, takeSymbol_pair known]
  · have single : ¬IsPair c (text ++ '\n' :: others) := by
      rintro ⟨d, rest, kind, same, known⟩
      have other : d ≠ '\n' := by
        rintro rfl
        rw [symbolPair?_newline] at known
        cases known
      obtain ⟨front, rfl⟩ := second_newline other same
      exact pair ⟨d, front, kind, rfl, known⟩
    rw [takeSymbol_single pair, takeSymbol_single single]
    cases Lexeme.symbol? c <;> rfl

/-- A lexeme other than blank space and an open comment does not go on behind a newline. -/
theorem take_newline (solid : (Lexeme.take c text).1.shape ≠ .blank)
    (closed : (Lexeme.take c text).1.shape ≠ .blockComment false) :
    Lexeme.take c (text ++ '\n' :: others) =
      ((Lexeme.take c text).1, (Lexeme.take c text).2 ++ '\n' :: others) := by
  revert solid closed
  fun_cases Lexeme.take c text with
  | case1 => exact fun solid => absurd rfl solid
  | case2 c text blank digit =>
    intro _ _
    obtain ⟨taken, left⟩ := @run_newline text others Decimal.isDigit (by decide)
    unfold Lexeme.take
    rw [if_neg blank, if_pos digit, taken, left]
  | case3 c text blank digit word =>
    intro _ _
    obtain ⟨taken, left⟩ := @run_newline text others Lexeme.isWordPart (by decide)
    unfold Lexeme.take
    rw [if_neg blank, if_neg digit, if_pos word, taken, left]
  | case4 text =>
    intro _ _
    obtain ⟨taken, left⟩ := @run_newline text others (· ≠ '\n') (by decide)
    exact (Lexeme.take_lineComment (text ++ '\n' :: others)).trans (by rw [taken, left])
  | case5 text body rest closed taken =>
    intro _ closes
    have whole := Lexeme.commentRest_append text
    have again := Lexeme.commentRest_again text (rest ++ '\n' :: others)
    rw [taken] at whole again
    have joined : Lexeme.commentRest (text ++ '\n' :: others) = (body, rest ++ '\n' :: others, closed) := by
      rw [← whole, List.append_assoc]
      exact again fun _ opened => absurd (congrArg Lexeme.Shape.blockComment opened) closes
    exact (Lexeme.take_blockComment (text ++ '\n' :: others)).trans (by rw [joined])
  | case6 c text noLine noBlock blank digit word =>
    intro _ _
    rw [Printing.take_sign (Opening.of_sign blank digit word)]
    · exact takeSymbol_newline
    · intro rest same
      obtain ⟨slash, behind⟩ := List.cons.inj same
      obtain ⟨front, rfl⟩ := second_newline (by decide) behind
      exact noLine front slash rfl
    · intro rest same
      obtain ⟨slash, behind⟩ := List.cons.inj same
      obtain ⟨front, rfl⟩ := second_newline (by decide) behind
      exact noBlock front slash rfl

/-- What a text gives without the token for its end. -/
def Scan.withoutEnd (scan : Scan) : Scan := ⟨scan.tokens.dropLast, scan.errors⟩

/-- One scan behind another. -/
def Scan.append (first second : Scan) : Scan :=
  ⟨first.tokens ++ second.tokens, first.errors ++ second.errors⟩

theorem Scan.append_assoc (first second third : Scan) :
    (first.append second).append third = first.append (second.append third) := by
  simp only [Scan.append, List.append_assoc]

theorem Scan.getLast?_append (first second : Scan) : (first.append second).tokens.getLast?.or last =
    second.tokens.getLast?.or (first.tokens.getLast?.or last) := by
  rw [Scan.append, List.getLast?_append, Option.or_assoc]

theorem ofLexemes_cons (lexeme : Lexeme) (lexemes : List Lexeme) :
    Scan.ofLexemes place last (lexeme :: lexemes) = (Scan.ofLexeme place last lexeme).append
      (Scan.ofLexemes (place.after lexeme.text) ((Scan.ofLexeme place last lexeme).tokens.getLast?.or last)
        lexemes) := rfl

/-- The last token stands for the end of the text. -/
theorem ofLexemes_ends (place : Place) (last : Option Token) (lexemes : List Lexeme) :
    ∃ before finish, finish.kind = .endOfFile ∧
      (Scan.ofLexemes place last lexemes).tokens = before ++ [finish] := by
  induction lexemes generalizing place last with
  | nil => exact ⟨[], _, rfl, rfl⟩
  | cons lexeme lexemes ih =>
    obtain ⟨before, finish, ends, same⟩ := ih (place.after lexeme.text)
      ((Scan.ofLexeme place last lexeme).tokens.getLast?.or last)
    refine ⟨(Scan.ofLexeme place last lexeme).tokens ++ before, finish, ends, ?_⟩
    rw [List.append_assoc, ← same]
    rfl

theorem withoutEnd_cons (lexeme : Lexeme) (lexemes : List Lexeme) :
    (Scan.ofLexemes place last (lexeme :: lexemes)).withoutEnd = (Scan.ofLexeme place last lexeme).append
      (Scan.ofLexemes (place.after lexeme.text) ((Scan.ofLexeme place last lexeme).tokens.getLast?.or last)
        lexemes).withoutEnd := by
  obtain ⟨before, finish, _, same⟩ := ofLexemes_ends (place.after lexeme.text)
    ((Scan.ofLexeme place last lexeme).tokens.getLast?.or last) lexemes
  have some : (Scan.ofLexemes (place.after lexeme.text)
      ((Scan.ofLexeme place last lexeme).tokens.getLast?.or last) lexemes).tokens ≠ [] := by
    rw [same]
    exact List.append_ne_nil_of_right_ne_nil _ (List.cons_ne_nil _ _)
  rw [ofLexemes_cons, Scan.withoutEnd, Scan.append, List.dropLast_append_of_ne_nil some]
  rfl

/-- A lexeme read as blank space starts with a blank. -/
theorem isBlank_of_take (blank : (Lexeme.take c text).1.shape = .blank) : Lexeme.isBlank c = true := by
  revert blank
  fun_cases Lexeme.take c text with
  | case1 _ _ blank => exact fun _ => blank
  | case6 c text =>
    intro blank
    rcases Lexeme.takeSymbol_shape c text with stray | ⟨kind, symbol⟩
    · cases stray.symm.trans blank
    · cases symbol.symm.trans blank
  | _ => exact fun blank => Lexeme.Shape.noConfusion blank

/-- A comment left open is a fault. -/
theorem closed_of_errors {lexeme : Lexeme} (closed : ∀ error ∈ (Scan.ofLexeme place last lexeme).errors,
    error.fault ≠ .unterminatedComment) : lexeme.shape ≠ .blockComment false := by
  obtain ⟨shape, text⟩ := lexeme
  rintro rfl
  exact closed _ (List.mem_singleton_self _) rfl

/-- What stands behind a text and a newline is scanned as on its own, but for its place and for the token
before it. -/
theorem ofLexemes_newline (text others : List Char)
    (closed : ∀ error ∈ (Scan.ofLexemes place last (Lexeme.all text)).errors,
      error.fault ≠ .unterminatedComment) :
    Scan.ofLexemes place last (Lexeme.all (text ++ '\n' :: others)) =
      (Scan.ofLexemes place last (Lexeme.all text)).withoutEnd.append
        (Scan.ofLexemes (place.after (text ++ ['\n']))
          ((Scan.ofLexemes place last (Lexeme.all text)).withoutEnd.tokens.getLast?.or last)
          (Lexeme.all others)) := by
  induction text using Lexeme.all.induct generalizing place last with
  | case1 =>
    rw [List.nil_append, Lexeme.all_nil]
    exact @ofLexemes_blank place last others ['\n'] (List.forall_mem_singleton.mpr rfl)
  | case2 c text ih =>
    by_cases blank : Lexeme.isBlank c = true
    · have all : ∀ d ∈ c :: text.takeWhile Lexeme.isBlank, Lexeme.isBlank d = true := all_run blank
      have whole : c :: text = c :: text.takeWhile Lexeme.isBlank ++ text.dropWhile Lexeme.isBlank := by
        rw [List.cons_append, List.takeWhile_append_dropWhile]
      rw [Printing.take_blank blank] at ih
      rw [whole, ofLexemes_blank all] at closed
      rw [whole, List.append_assoc, ofLexemes_blank all, ofLexemes_blank all, List.append_assoc,
        Place.after_append]
      exact ih closed
    · rw [Lexeme.all_cons, ofLexemes_cons] at closed
      obtain ⟨first, behind⟩ := List.forall_mem_append.mp closed
      have passed : place.after (c :: text ++ ['\n']) =
          (place.after (Lexeme.take c text).1.text).after ((Lexeme.take c text).2 ++ ['\n']) := by
        rw [← Place.after_append, ← List.append_assoc, Lexeme.take_append]
      rw [List.cons_append, Lexeme.all_cons, take_newline (mt isBlank_of_take blank) (closed_of_errors first),
        ofLexemes_cons, ih behind, ← Scan.append_assoc, passed, ← Scan.getLast?_append, Lexeme.all_cons,
        withoutEnd_cons]

end

/-- The shift of what stands behind a text and a newline. -/
def Shift.behind (source : String) : Shift := ⟨source.utf8ByteSize + 1, source.toList.count '\n' + 1⟩

/-- The place behind a text and a newline is the start of a text that stands there. -/
theorem after_newline (source : String) :
    Place.start.after (source.toList ++ ['\n']) = (Shift.behind source).place .start := by
  have size : '\n'.utf8Size = 1 := by decide
  rw [after_start]
  simp [positionBehind, lineBehind, columnBehind, Shift.place, Shift.position, Shift.behind, Place.start, Position.first, size,
    utf8ByteSize_eq, UInt32.ofNat_add, UInt32.add_comm 1]

/-- Whether the last token of a text, but for its end, is an identifier. -/
def EndsWithName (source : String) : Prop :=
  ∃ token ∈ (scan source).withoutEnd.tokens.getLast?, token.kind = .identifier

/-- Whether the first lexeme of a text, but for blank space and comments, is a step. -/
def StartsWithStep (source : String) : Prop := StepFirst (Lexeme.all source.toList)

theorem targetOf_last {source : String} (unnamed : ¬EndsWithName source) :
    Expansion.targetOf (scan source).withoutEnd.tokens.getLast? = none := by
  cases found : (scan source).withoutEnd.tokens.getLast? with
  | none => rfl
  | some token => exact if_neg fun named => unnamed ⟨token, found, named⟩

/-- Two texts with a newline between them are scanned one by one: the tokens of the second follow those of
the first but its end, and the faults follow the faults. All of the second stands further down by the
bytes and the lines of the first, and in the same columns. -/
theorem scan_lines (first second : String)
    (closed : ∀ error ∈ (scan first).errors, error.fault ≠ .unterminatedComment)
    (apart : ¬(EndsWithName first ∧ StartsWithStep second)) :
    ∃ tokens finish, (scan first).tokens = tokens ++ [finish] ∧ finish.kind = .endOfFile ∧
      (scan (first ++ "\n" ++ second)).tokens =
        tokens ++ (scan second).tokens.map (Shift.behind first).token ∧
      (scan (first ++ "\n" ++ second)).errors =
        (scan first).errors ++ (scan second).errors.map (Shift.behind first).error := by
  obtain ⟨tokens, finish, ends, whole⟩ := ofLexemes_ends .start none (Lexeme.all first.toList)
  have before : (scan first).withoutEnd.tokens = tokens := by
    rw [Scan.withoutEnd, scan, whole, List.dropLast_concat]
  have free : Expansion.targetOf ((scan first).withoutEnd.tokens.getLast?.or none) =
      Expansion.targetOf none ∨ ¬StepFirst (Lexeme.all second.toList) := by
    rw [Option.or_none]
    exact (Classical.not_and_iff_not_or_not.mp apart).imp_left targetOf_last
  have text : (first ++ "\n" ++ second).toList = first.toList ++ '\n' :: second.toList := by
    rw [String.toList_append, String.toList_append, List.append_assoc]
    rfl
  have joined : scan (first ++ "\n" ++ second) =
      (scan first).withoutEnd.append ((Shift.behind first).scan (scan second)) := by
    have split := ofLexemes_newline first.toList second.toList closed
    rw [← text, after_newline] at split
    exact split.trans (congrArg _ (Shift.ofLexemes_place free))
  rw [joined]
  exact ⟨tokens, finish, whole, ends, by rw [← before]; rfl, rfl⟩

instance (source : String) : Decidable (EndsWithName source) :=
  inferInstanceAs (Decidable (∃ token ∈ (scan source).withoutEnd.tokens.getLast?, token.kind = .identifier))

/-- Behind a number a step gives no token, on the next line as on the same one. -/
theorem scan_lines_step :
    (scan ("x = 1 // é" ++ "\n" ++ "++ /* é\n */ y @")).tokens =
      [⟨.identifier, some "x", ⟨1, 1⟩, ⟨0, 1⟩⟩, ⟨.assign, none, ⟨1, 3⟩, ⟨2, 3⟩⟩,
        ⟨.integer, some "1", ⟨1, 5⟩, ⟨4, 5⟩⟩, ⟨.identifier, some "y", ⟨3, 5⟩, ⟨25, 26⟩⟩,
        ⟨.unknown, none, ⟨3, 7⟩, ⟨27, 28⟩⟩, ⟨.endOfFile, none, ⟨3, 8⟩, ⟨28, 28⟩⟩] := by
  obtain ⟨tokens, finish, whole, -, given, -⟩ := scan_lines "x = 1 // é" "++ /* é\n */ y @" (by decide +kernel)
    (fun both => absurd both.1 (by decide +kernel))
  have before : tokens = (scan "x = 1 // é").tokens.dropLast := by rw [whole, List.dropLast_concat]
  rw [given, before]
  decide +kernel

end OliCompiler
