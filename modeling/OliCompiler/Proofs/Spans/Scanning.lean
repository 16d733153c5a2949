import OliCompiler.Proofs.Spans.Rules
import OliCompiler.Proofs.Stages.Tokens

/-!
The spans of tokens and of lexical faults. Each cuts a piece out of the lexeme that it comes from, and
the tokens of one lexeme all have its span, so tokens stand in the order of the lexemes.
-/

namespace OliCompiler

open Scanning

theorem isDigit_utf8Size {c : Char} (digit : IsDigit c) : c.utf8Size = 1 := by
  have low : c.val ≤ '9'.val := digit.2
  refine Char.utf8Size_eq_one_iff.mpr (UInt32.le_trans low ?_)
  decide

theorem byteLength_pos {text : List Char} (present : text ≠ []) : 0 < byteLength text := by
  obtain ⟨c, others, rfl⟩ := List.exists_cons_of_ne_nil present
  exact Nat.add_pos_left c.utf8Size_pos _

theorem utf8ByteSize_eq (source : String) : source.utf8ByteSize = byteLength source.toList := by
  obtain ⟨text, rfl⟩ : ∃ text, source = String.ofList text := ⟨source.toList, by simp⟩
  rw [String.toList_ofList]
  induction text with
  | nil => rfl
  | cons c text ih =>
    rw [String.ofList_cons, String.utf8ByteSize_append, String.utf8ByteSize_singleton, ih,
      byteLength_cons]

/-- Where a text is cut, an offset parts no character. -/
theorem isValid_of_append {source : String} {before after : List Char}
    (whole : source.toList = before ++ after) :
    (String.Pos.Raw.mk (byteLength before)).IsValid source := by
  refine String.Pos.Raw.isValid_iff_exists_append.mpr ⟨String.ofList before, String.ofList after, ?_, ?_⟩
  · rw [← String.ofList_append, ← whole, String.ofList_toList]
  · rw [String.rawEndPos, utf8ByteSize_eq, String.toList_ofList]

namespace Span

/-- Whether a span is that of a piece of a text which begins at an offset. -/
def Cuts (offset : Nat) (text : List Char) (span : Span) : Prop :=
  ∃ before inside after, text = before ++ (inside ++ after) ∧
    span = ⟨offset + byteLength before, offset + byteLength (before ++ inside)⟩

variable {offset : Nat} {text front back : List Char} {span : Span}

theorem cuts_all (offset : Nat) (text : List Char) :
    Cuts offset text ⟨offset, offset + byteLength text⟩ :=
  ⟨[], text, [], (List.append_nil text).symm, rfl⟩

theorem cuts_end (offset : Nat) (text : List Char) :
    Cuts offset text (.point (offset + byteLength text)) :=
  ⟨text, [], [], (List.append_nil text).symm, by rw [List.append_nil, point]⟩

theorem Cuts.append_right (cuts : Cuts offset front span) : Cuts offset (front ++ back) span := by
  obtain ⟨before, inside, after, rfl, rfl⟩ := cuts
  exact ⟨before, inside, after ++ back, by simp, rfl⟩

theorem Cuts.append_left (cuts : Cuts (offset + byteLength front) back span) :
    Cuts offset (front ++ back) span := by
  obtain ⟨before, inside, after, rfl, rfl⟩ := cuts
  exact ⟨front ++ before, inside, after, by simp, by simp [Nat.add_assoc]⟩

theorem Cuts.start_le_stop (cuts : Cuts offset text span) : span.start ≤ span.stop := by
  obtain ⟨before, inside, after, _, rfl⟩ := cuts
  simp

theorem Cuts.offset_le (cuts : Cuts offset text span) : offset ≤ span.start := by
  obtain ⟨before, inside, after, _, rfl⟩ := cuts
  exact Nat.le_add_right _ _

theorem Cuts.fits {source : String} (cuts : Cuts 0 source.toList span) : span.Fits source := by
  have ordered := cuts.start_le_stop
  obtain ⟨before, inside, after, whole, rfl⟩ := cuts
  refine ⟨ordered, ?_, ?_, ?_⟩
  · rw [utf8ByteSize_eq, whole]
    simp
  · simpa using isValid_of_append whole
  · rw [← List.append_assoc] at whole
    simpa using isValid_of_append whole

end Span

section

variable {place : Place} {last : Option Token} {lexeme : Lexeme} {lexemes : List Lexeme}

/-- The span of a lexeme at a place. -/
def Lexeme.spanAt (place : Place) (lexeme : Lexeme) : Span :=
  ⟨place.offset, place.offset + byteLength lexeme.text⟩

/-- All tokens of a lexeme have its span, those of a step too. -/
theorem ofLexeme_token_span :
    ∀ token ∈ (Scan.ofLexeme place last lexeme).tokens, token.span = lexeme.spanAt place := by
  obtain ⟨shape, text⟩ := lexeme
  cases shape with
  | blank | lineComment => exact List.forall_mem_nil _
  | blockComment closed => cases closed <;> exact List.forall_mem_nil _
  | integer | stray => exact List.forall_mem_singleton.mpr rfl
  | word =>
    simp only [Scan.ofLexeme]
    cases Keyword.ofWord? (String.ofList text) <;> exact List.forall_mem_singleton.mpr rfl
  | symbol kind =>
    cases kind with
    | step direction =>
      simp only [Scan.ofLexeme]
      cases last.bind Token.identifier? with
      | none => exact List.forall_mem_nil _
      | some name => simp [Scan.stepTokens, Lexeme.spanAt]
    | _ => exact List.forall_mem_singleton.mpr rfl

theorem integerErrors_cut {digits : List Char} (all : ∀ c ∈ digits, IsDigit c) :
    ∀ error ∈ Scan.integerErrors place digits, error.span.Cuts place.offset digits := by
  unfold Scan.integerErrors
  split
  · rename_i second others
    have size := isDigit_utf8Size (all second (by simp))
    have zero : '0'.utf8Size = 1 := by decide
    refine List.forall_mem_singleton.mpr ⟨['0'], [second], others, rfl, ?_⟩
    simp [size, zero, Nat.add_assoc]
  · split
    · exact List.forall_mem_nil _
    · exact List.forall_mem_singleton.mpr (Span.cuts_all _ _)

theorem ofLexeme_error_cuts (fits : (Piece.ofLexeme lexeme).Fits) :
    ∀ error ∈ (Scan.ofLexeme place last lexeme).errors,
      error.span.Cuts place.offset lexeme.text := by
  obtain ⟨shape, text⟩ := lexeme
  cases shape with
  | blank | lineComment => exact List.forall_mem_nil _
  | blockComment closed =>
    cases closed with
    | true => exact List.forall_mem_nil _
    | false =>
      refine List.forall_mem_singleton.mpr ?_
      rw [Place.after_offset]
      exact Span.cuts_end _ _
  | integer =>
    obtain ⟨rest, _, all⟩ := fits.2 .integer rfl
    exact integerErrors_cut all
  | word =>
    simp only [Scan.ofLexeme]
    cases Keyword.ofWord? (String.ofList text) <;> exact List.forall_mem_nil _
  | symbol kind =>
    cases kind with
    | step direction =>
      simp only [Scan.ofLexeme]
      cases last.bind Token.identifier? with
      | none => exact List.forall_mem_singleton.mpr (Span.cuts_all _ _)
      | some name => exact List.forall_mem_nil _
    | _ => exact List.forall_mem_nil _
  | stray => exact List.forall_mem_map.mpr fun c _ => Span.cuts_all _ _

theorem ofLexemes_token_cuts :
    ∀ token ∈ (Scan.ofLexemes place last lexemes).tokens,
      token.span.Cuts place.offset (lexemes.flatMap (·.text)) := by
  induction lexemes generalizing place last with
  | nil => exact List.forall_mem_singleton.mpr (Span.cuts_end place.offset [])
  | cons lexeme lexemes ih =>
    rw [List.flatMap_cons]
    refine List.forall_mem_append.mpr ⟨fun token member => ?_, fun token member => ?_⟩
    · rw [ofLexeme_token_span token member]
      exact (Span.cuts_all _ _).append_right
    · have cuts := ih token member
      rw [Place.after_offset] at cuts
      exact cuts.append_left

theorem ofLexemes_error_cuts (fits : ∀ lexeme ∈ lexemes, (Piece.ofLexeme lexeme).Fits) :
    ∀ error ∈ (Scan.ofLexemes place last lexemes).errors,
      error.span.Cuts place.offset (lexemes.flatMap (·.text)) := by
  induction lexemes generalizing place last with
  | nil => exact List.forall_mem_nil _
  | cons lexeme lexemes ih =>
    obtain ⟨first, others⟩ := List.forall_mem_cons.mp fits
    rw [List.flatMap_cons]
    refine List.forall_mem_append.mpr ⟨fun error member => ?_, fun error member => ?_⟩
    · exact (ofLexeme_error_cuts first error member).append_right
    · have cuts := ih others error member
      rw [Place.after_offset] at cuts
      exact cuts.append_left

theorem ofLexemes_inOrder : InOrder (Scan.ofLexemes place last lexemes).tokens := by
  induction lexemes generalizing place last with
  | nil => exact List.pairwise_singleton _ _
  | cons lexeme lexemes ih =>
    refine List.pairwise_append.mpr ⟨?_, ih, fun token member later behind => ?_⟩
    · refine List.pairwise_of_forall_mem_list fun token member later member' => ?_
      rw [ofLexeme_token_span token member, ofLexeme_token_span later member']
      exact ⟨Nat.le_refl _, Nat.le_refl _⟩
    · have cuts := ofLexemes_token_cuts later behind
      have start := cuts.offset_le
      have stop := cuts.start_le_stop
      rw [Place.after_offset] at start
      rw [ofLexeme_token_span token member]
      exact ⟨by simp only [Lexeme.spanAt]; omega, by simp only [Lexeme.spanAt]; omega⟩

theorem ofLexemes_end :
    ∃ token ∈ (Scan.ofLexemes place last lexemes).tokens, token.kind = .endOfFile := by
  induction lexemes generalizing place last with
  | nil => exact ⟨_, List.mem_singleton_self _, rfl⟩
  | cons lexeme lexemes ih =>
    obtain ⟨token, member, ends⟩ := ih
    exact ⟨token, List.mem_append_right _ member, ends⟩

end

variable (source : String)

theorem scan_token_fits : ∀ token ∈ (scan source).tokens, token.span.Fits source := by
  intro token member
  have cuts := ofLexemes_token_cuts token member
  rw [Lexeme.flatMap_text_all] at cuts
  exact cuts.fits

theorem scan_error_fits : ∀ error ∈ (scan source).errors, error.span.Fits source := by
  intro error member
  have pieces : ∀ lexeme ∈ Lexeme.all source.toList, (Piece.ofLexeme lexeme).Fits := by
    intro lexeme member
    exact (all_splits source.toList).fits _ (List.mem_map_of_mem member)
  have cuts := ofLexemes_error_cuts pieces error member
  rw [Lexeme.flatMap_text_all] at cuts
  exact cuts.fits

theorem scan_inOrder : InOrder (scan source).tokens := ofLexemes_inOrder

theorem scan_end : ∃ token ∈ (scan source).tokens, token.kind = .endOfFile := ofLexemes_end

end OliCompiler
