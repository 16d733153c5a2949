import OliCompiler.Proofs.Lookahead.Faults

/-!
Reading is determined by the tokens up to the one that it stops before. A list of tokens counts with the
end of the file that closes it, and what stands behind its first end of the file counts for nothing.
-/

namespace OliCompiler

namespace Cursor

/-- The index of the token ahead. -/
def index (cursor : Cursor) : Nat := cursor.passed.length

/-- A list of tokens with an end of the file behind it, unless its last token is one. -/
def closed (tokens : List Token) : List Token :=
  match tokens.getLast? with
  | some last =>
    if last.kind = .endOfFile then tokens
    else tokens ++ [⟨.endOfFile, none, last.position, .point last.span.stop⟩]
  | none => [⟨.endOfFile, none, .first, .point 0⟩]

/-- The tokens up to the first end of the file, with it. -/
def throughEnd : List Token → List Token
  | [] => []
  | token :: tokens => if token.kind = .endOfFile then [token] else token :: throughEnd tokens

/-- Whether a cursor is an index into a list: the token ahead and the one behind it are those of the index
and the next, and the line of a token passed is looked up in the whole list. -/
structure Indexes (cursor : Cursor) (tokens : List Token) : Prop where
  current : (closed tokens)[cursor.index]? = some cursor.current
  following : cursor.current.kind ≠ .endOfFile →
    (closed tokens)[cursor.index + 1]? = some cursor.following
  lines : ∀ name ∈ cursor.passed,
    ((closed tokens).find? fun token => token.span.start = name.span.start).map Token.line =
      some (cursor.lineOf name.span)

variable {tokens others : List Token} {cursor : Cursor}

theorem throughEnd_begins (tokens : List Token) : throughEnd tokens <+: tokens := by
  induction tokens with
  | nil => exact List.prefix_rfl
  | cons token tokens ih =>
    rw [throughEnd]
    split
    · exact List.cons_prefix_cons.mpr ⟨rfl, List.nil_prefix⟩
    · exact List.cons_prefix_cons.mpr ⟨rfl, ih⟩

theorem throughEnd_take (tokens : List Token) (count : Nat) :
    throughEnd (tokens.take count) = (throughEnd tokens).take count := by
  induction tokens generalizing count with
  | nil => simp [throughEnd]
  | cons token tokens ih =>
    cases count with
    | zero => rfl
    | succ count =>
      rw [List.take_succ_cons, throughEnd, throughEnd, ih]
      split
      · simp
      · rfl

theorem throughEnd_append_end {last : Token} (ends : last.kind = .endOfFile)
    (none : ∀ token ∈ tokens, token.kind ≠ .endOfFile) (others : List Token) :
    throughEnd (tokens ++ last :: others) = tokens ++ [last] := by
  induction tokens with
  | nil => rw [List.nil_append, throughEnd, if_pos ends, List.nil_append]
  | cons token tokens ih =>
    obtain ⟨first, rest⟩ := List.forall_mem_cons.mp none
    rw [List.cons_append, throughEnd, if_neg first, ih rest, List.cons_append]

theorem prefix_closed (tokens : List Token) : tokens <+: closed tokens := by
  unfold closed
  cases last : tokens.getLast? with
  | none =>
    rw [List.getLast?_eq_none_iff.mp last]
    exact List.nil_prefix
  | some token =>
    by_cases ends : token.kind = .endOfFile
    · simp only [if_pos ends]
      exact List.prefix_rfl
    · simp only [if_neg ends]
      exact List.prefix_append _ _

/-- Before its first token a cursor shows the closed list up to its first end of the file. -/
theorem shown_ofTokens (tokens : List Token) : (ofTokens tokens).shown = throughEnd (closed tokens) := by
  cases found : tokens.find? fun token => token.kind = .endOfFile with
  | some last =>
    obtain ⟨ends, before, after, rfl, none⟩ := List.find?_eq_some_iff_append.mp found
    obtain ⟨extra, whole⟩ := prefix_closed (before ++ last :: after)
    have ends : last.kind = .endOfFile := of_decide_eq_true ends
    have none : ∀ token ∈ before, token.kind ≠ .endOfFile := by simpa using none
    rw [← whole, List.append_assoc, List.cons_append, throughEnd_append_end ends none, shown,
      ofTokens_end ends none]
  | none =>
    have none : ∀ token ∈ tokens, token.kind ≠ .endOfFile := by simpa using found
    have ahead : tokens.takeWhile (fun token => token.kind ≠ .endOfFile) = tokens := by
      have all := @List.takeWhile_append_of_pos _ (fun token : Token => decide (token.kind ≠ .endOfFile))
        tokens [] (by simpa using none)
      rwa [List.append_nil, List.takeWhile_nil, List.append_nil] at all
    have whole : closed tokens = tokens ++ [eofOf tokens] := by
      unfold closed eofOf
      rw [found]
      cases last : tokens.getLast? with
      | none =>
        rw [List.getLast?_eq_none_iff.mp last]
        rfl
      | some token =>
        simp only [if_neg (none token (List.mem_of_getLast? last))]
    rw [whole, throughEnd_append_end (eofOf_kind tokens) none, shown, ofTokens, ahead]

/-- What a list shows up to some index is told by its closed list up to that index. -/
theorem take_shown {count : Nat}
    (same : ∀ place < count, (closed others)[place]? = (closed tokens)[place]?) :
    (ofTokens others).shown.take count = (ofTokens tokens).shown.take count := by
  have start : (closed others).take count = (closed tokens).take count := by
    refine List.ext_getElem? fun place => ?_
    rw [List.getElem?_take, List.getElem?_take]
    split
    · exact same place ‹_›
    · rfl
  rw [shown_ofTokens, shown_ofTokens, ← throughEnd_take, ← throughEnd_take, start]

theorem ofTokens_congr (same : throughEnd (closed others) = throughEnd (closed tokens)) :
    ofTokens others = ofTokens tokens := by
  rw [← shown_ofTokens, ← shown_ofTokens] at same
  obtain ⟨ahead, eof⟩ := List.append_inj' same rfl
  show Cursor.mk [] (ofTokens others).ahead (ofTokens others).eof = ofTokens tokens
  rw [ahead, List.singleton_inj.mp eof]
  rfl

section

variable {passed : List Token} (passes : Passes (.ofTokens tokens) passed cursor)

include passes

theorem Passes.passed_eq : cursor.passed = passed.reverse := by
  rw [passes.passed, ofTokens, List.append_nil]

theorem Passes.index_eq : cursor.index = passed.length := by
  rw [Cursor.index, passes.passed_eq, List.length_reverse]

theorem Passes.begins_closed : passed ++ [cursor.current] <+: closed tokens :=
  (shown_ofTokens tokens ▸ passes.begins).trans (throughEnd_begins _)

theorem Passes.at_index : (closed tokens)[cursor.index]? = some cursor.current := by
  obtain ⟨rest, whole⟩ := passes.begins_closed
  rw [passes.index_eq, ← whole]
  simp

theorem Passes.indexes : cursor.Indexes tokens where
  current := passes.at_index
  following solid := by
    have one := (passes.proper (ofTokens_proper tokens)).passes solid
    have next := (passes.append one).at_index
    rw [Cursor.index, one.passed] at next
    rw [one.following_eq]
    exact next
  lines name member := by
    obtain ⟨rest, whole⟩ := passes.begins_closed
    rw [passes.passed_eq, List.mem_reverse] at member
    cases found : passed.find? fun token => token.span.start = name.span.start with
    | none => exact absurd (decide_eq_true rfl) (List.find?_eq_none.mp found name member)
    | some token =>
      rw [← whole, List.append_assoc, List.find?_append, Cursor.lineOf, passes.passed_eq,
        List.reverse_reverse, found]
      rfl

end

end Cursor

namespace Parser

open Cursor

/-- Where the reading of a list fails, the cursor is an index into the list, and a list with the same tokens
through that index fails with the same fault at the same index. No list is read beyond its first end of the
file. -/
theorem program_determined (tokens others : List Token) :
    (∀ error cursor, program (.ofTokens tokens) = .error error cursor →
      cursor.Indexes tokens ∧
      ((∀ place ≤ cursor.index, (closed others)[place]? = (closed tokens)[place]?) →
        ∃ cursor', program (.ofTokens others) = .error error cursor' ∧ cursor'.index = cursor.index)) ∧
    (throughEnd (closed others) = throughEnd (closed tokens) →
      program (.ofTokens others) = program (.ofTokens tokens)) := by
  refine ⟨fun error cursor fails => ?_, fun same => by rw [ofTokens_congr same]⟩
  obtain ⟨outcome, passed, behind, run⟩ := program_local (ofTokens_proper tokens)
  have same : ending outcome behind = ending (.error error) cursor := run.reads.symm.trans fails
  obtain ⟨rfl, rfl⟩ := ending_inj same
  refine ⟨run.passes.indexes, fun same => ?_⟩
  have start := take_shown fun place near => same place (Nat.le_of_lt_succ near)
  have resumes : Resumes (.ofTokens tokens) (passed ++ [behind.current]) (.ofTokens others) := by
    refine ⟨ofTokens_proper others, rfl, ?_⟩
    have length : (passed ++ [behind.current]).length = behind.index + 1 := by
      rw [run.passes.index_eq, List.length_append, List.length_singleton]
    rw [List.prefix_iff_eq_take.mp run.passes.begins, length, ← start]
    exact List.take_prefix _ _
  obtain ⟨cursor', passes, reads⟩ := run.again _ resumes
  exact ⟨cursor', reads, passes.index_eq.trans run.passes.index_eq.symm⟩

/-- `fn ;` fails at the semicolon, whatever is behind it; and so does `fn ; x` with an end of the file
before the `x`. -/
theorem program_determined_semicolon :
    let word : Token := ⟨.keyword .fn, none, ⟨1, 1⟩, ⟨0, 2⟩⟩
    let sign : Token := ⟨.semicolon, none, ⟨1, 4⟩, ⟨3, 4⟩⟩
    let finish : Token := ⟨.endOfFile, none, ⟨1, 5⟩, ⟨4, 4⟩⟩
    let name : Token := ⟨.identifier, some "x", ⟨1, 6⟩, ⟨5, 6⟩⟩
    (∃ cursor, program (.ofTokens [word, sign, name]) =
      .error ⟨.unexpected .identifier .semicolon, 1, ⟨3, 4⟩⟩ cursor ∧ cursor.index = 1) ∧
    program (.ofTokens [word, sign, finish, name]) = program (.ofTokens [word, sign, finish]) := by
  intro word sign finish name
  refine ⟨((program_determined [word, sign, finish] [word, sign, name]).1 _ _ rfl).2 ?_,
    (program_determined [word, sign, finish] [word, sign, finish, name]).2 (by decide)⟩
  intro place near
  rcases Nat.le_one_iff_eq_zero_or_eq_one.mp near with rfl | rfl
  · rfl
  · rfl

end Parser

end OliCompiler
