import OliCompiler.Proofs.Lookahead.Faults
import OliCompiler.Proofs.Scanning.Tokens
import OliCompiler.Proofs.Spans.Scanning

/-!
The line of a fault. It is that of the byte where the span of the fault starts, unless `main` is given
parameters: then the line is that of the name and the span starts at the first parameter.
-/

namespace OliCompiler

open Scanning

/-- The line of the byte at an offset of a text: one more than there are newlines before it. -/
def lineAt (source : String) (offset : Nat) : Nat :=
  (source.toList.take (LineIndex.charsWithin offset source.toList)).count '\n' + 1

theorem lineAt_append {source : String} {before after : List Char} (whole : source.toList = before ++ after) :
    lineAt source (byteLength before) = lineBehind before := by
  rw [lineAt, whole, LineIndex.charsWithin_append, List.take_left, lineBehind]

/-- A token tells the line in which it starts. -/
theorem scan_token_line {source : String} {token : Token} (member : token ∈ (scan source).tokens) :
    token.line = .ofNat (lineAt source token.span.start) := by
  obtain ⟨before, after, whole, stands⟩ := scan_standsBehind member
  rw [stands.start, lineAt_append whole, Token.line, stands.position]
  rfl

/-- In order, what runs from the first parameter to the last starts where the first does. -/
theorem GivesMain.merge_start {tokens : List Token} {name first last : Token}
    (given : GivesMain tokens name first last) (ordered : InOrder tokens) :
    (first.span.merge last.span).start = first.span.start := by
  obtain ⟨before, word, opening, after, rfl, _, _, _, _, closes⟩ := given
  have behind : InOrder (first :: after) := by
    refine ordered.sublist ?_
    rw [List.append_cons, List.append_cons, List.append_cons]
    exact List.sublist_append_right _ _
  refine Nat.min_eq_left ?_
  rcases List.mem_cons.mp closes with rfl | later
  · exact Nat.le_refl _
  · exact ((List.pairwise_cons.mp behind).1 last later).start

/-- A fault tells the line in which its span starts; but where `main` is given parameters it tells the
line of the name, which is that line only if the first parameter is on it. -/
theorem parse_error_line {source : String} {error : ParseError}
    (failed : parse (scan source).tokens = .error error) :
    (error.cause ≠ .mainWithParams → error.line = .ofNat (lineAt source error.span.start)) ∧
    (error.cause = .mainWithParams → ∃ name first last,
      GivesMain (scan source).tokens name first last ∧ error.span = first.span.merge last.span ∧
      error.span.start = first.span.start ∧ error.line = .ofNat (lineAt source name.span.start) ∧
      (error.line = .ofNat (lineAt source error.span.start) ↔ name.line = first.line)) := by
  cases parse_blames (scan_end source) failed with
  | token member plain => exact ⟨fun _ => scan_token_line member, fun same => absurd same plain⟩
  | duplicate member _ starts => exact ⟨fun _ => starts ▸ scan_token_line member, nofun⟩
  | @params token name first last member starts given =>
    have told := starts ▸ scan_token_line member
    have start := given.merge_start (scan_inOrder source)
    obtain ⟨named, declared⟩ := given.mem
    refine ⟨fun other => absurd rfl other, fun _ => ⟨name, first, last, given, rfl, start, told, ?_⟩⟩
    rw [start, scan_token_line named, scan_token_line declared, ← told]

instance (tokens : List Token) (error : ParseError) : Decidable (parse tokens = .error error) :=
  match parse tokens with
  | .ok _ => isFalse nofun
  | .error found => decidable_of_iff (found = error) (by rw [Except.error.injEq])

/-- A text that ends behind `fn` on its second line fails on that line. -/
theorem parse_error_line_second :
    parse (scan "\nfn").tokens = .error ⟨.unexpected .identifier .endOfFile, 2, ⟨3, 3⟩⟩ ∧
      2 = UInt32.ofNat (lineAt "\nfn" 3) := by
  have failed : parse (scan "\nfn").tokens = .error ⟨.unexpected .identifier .endOfFile, 2, ⟨3, 3⟩⟩ := by
    decide +kernel
  exact ⟨failed, (parse_error_line failed).1 nofun⟩

/-- Where the first parameter of `main` is on a later line than its name, the line is not that of the
span. -/
theorem not_forall_parse_error_line : ¬∀ (source : String) (error : ParseError),
    parse (scan source).tokens = .error error → error.line = .ofNat (lineAt source error.span.start) := by
  intro all
  have failed : parse (scan "fn main(\n  a) \x7b return a; \x7d").tokens =
      .error ⟨.mainWithParams, 1, ⟨11, 12⟩⟩ := by
    decide +kernel
  have line : lineAt "fn main(\n  a) \x7b return a; \x7d" 11 = 2 := by decide +kernel
  have same := all _ _ failed
  rw [line] at same
  cases same

end OliCompiler
