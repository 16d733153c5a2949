import OliCompiler.Proofs.Scanning.Positions

/-!
A line index tells for every offset what reading the text up to there tells: one line more than newlines
passed, and one column more than characters since the last of them. So positions come in the order of
offsets, as far as their lines and columns fit into the 32 bits that they are told in.
-/

namespace OliCompiler

open Scanning

/-- Whether a position comes before another one, by the line and then by the column. -/
def Position.Before (one other : Position) : Prop :=
  one.line < other.line ∨ one.line = other.line ∧ one.column < other.column

theorem Position.Before.ne {one other : Position} (earlier : one.Before other) : one ≠ other := by
  rintro rfl
  rcases earlier with less | ⟨_, less⟩ <;> exact UInt32.lt_irrefl _ less

/-! ## Behind more of a text -/

section

variable {passed more : List Char}

theorem lineBehind_le_append (passed more : List Char) : lineBehind passed ≤ lineBehind (passed ++ more) := by
  rw [lineBehind, lineBehind, List.count_append]
  omega

/-- Without a newline on the way the column moves on by the characters passed. -/
theorem columnBehind_append (inline : '\n' ∉ more) :
    columnBehind (passed ++ more) = columnBehind passed + more.length := by
  have solid : ∀ c ∈ more.reverse, (c ≠ '\n') = true := by
    intro c member
    simp only [eq_iff_iff, iff_true]
    rintro rfl
    exact inline (List.mem_reverse.mp member)
  rw [columnBehind, columnBehind, List.reverse_append, List.takeWhile_append_of_pos (by simpa using solid),
    List.length_append, List.length_reverse]
  omega

theorem lineBehind_append_eq_iff : lineBehind (passed ++ more) = lineBehind passed ↔ '\n' ∉ more := by
  rw [lineBehind, lineBehind, List.count_append, ← List.count_eq_zero (a := '\n')]
  omega

/-- Going through more of a text leads to a later line, or further on in the same one. -/
theorem behind_before (passed : List Char) (present : more ≠ []) :
    lineBehind passed < lineBehind (passed ++ more) ∨
      lineBehind passed = lineBehind (passed ++ more) ∧ columnBehind passed < columnBehind (passed ++ more) := by
  rcases (lineBehind_le_append passed more).lt_or_eq with later | same
  · exact .inl later
  · have inline := lineBehind_append_eq_iff.mp same.symm
    have some := List.length_pos_iff.mpr present
    refine .inr ⟨same, ?_⟩
    rw [columnBehind_append inline]
    omega

end

/-! ## Places in a text -/

/-- Whether a text can be cut at an offset. -/
def Boundary (text : List Char) (offset : Nat) : Prop :=
  ∃ before after, text = before ++ after ∧ byteLength before = offset

/-- Whether the line and the column behind a text fit into 32 bits. -/
structure Countable (passed : List Char) : Prop where
  line : lineBehind passed < UInt32.size
  column : columnBehind passed < UInt32.size

/-- Whether a text can be cut at an offset whose line and column fit into 32 bits. -/
def CountableAt (text : List Char) (offset : Nat) : Prop :=
  ∃ before after, text = before ++ after ∧ byteLength before = offset ∧ Countable before

/-- A text of fewer than 2³² - 1 characters has few enough lines and columns. -/
theorem Countable.of_length {passed : List Char} (short : passed.length + 1 < UInt32.size) : Countable passed where
  line := Nat.lt_of_le_of_lt (lineBehind_le passed) short
  column := Nat.lt_of_le_of_lt (columnBehind_le passed) short

theorem CountableAt.of_boundary {text : List Char} {offset : Nat} (short : text.length + 1 < UInt32.size)
    (cut : Boundary text offset) : CountableAt text offset := by
  obtain ⟨before, after, rfl, here⟩ := cut
  rw [List.length_append] at short
  exact ⟨before, after, rfl, here, .of_length (by omega)⟩

theorem Countable.before {passed other : List Char} (counts : Countable passed) (counts' : Countable other)
    (less : lineBehind passed < lineBehind other ∨
      lineBehind passed = lineBehind other ∧ columnBehind passed < columnBehind other) :
    (positionBehind passed).Before (positionBehind other) := by
  rw [Position.Before, UInt32.lt_iff_toNat_lt, UInt32.lt_iff_toNat_lt, ← UInt32.toNat_inj,
    line_positionBehind counts.line, line_positionBehind counts'.line, column_positionBehind counts.column,
    column_positionBehind counts'.column]
  exact less

namespace LineIndex

variable {text : List Char} {offset offset' : Nat}

/-- Of two places in a text the later lies behind more of it. -/
theorem position_before (cut : CountableAt text offset) (cut' : CountableAt text offset')
    (less : offset < offset') : ((ofText text).position offset).Before ((ofText text).position offset') := by
  obtain ⟨before, after, rfl, rfl, counts⟩ := cut
  obtain ⟨before', after', whole, rfl, counts'⟩ := cut'
  rw [position_append, whole, position_append]
  refine counts.before counts' ?_
  rcases List.append_eq_append_iff.mp whole with ⟨more, rfl, rfl⟩ | ⟨back, rfl, rfl⟩
  · refine behind_before before ?_
    rintro rfl
    rw [List.append_nil] at less
    exact absurd less (Nat.lt_irrefl _)
  · rw [byteLength_append] at less
    omega

/-- Whether the index of a text tells where the offsets of the text stand. -/
structure Exact (text : List Char) : Prop where
  /-- Where the text is cut, the search ends at a line of the index, behind the last newline before the cut. -/
  found : ∀ before after, text = before ++ after →
    (ofText text).starts[(ofText text).lineOf (byteLength before)]? =
      some (byteLength (before.rdropWhile (· ≠ '\n')))
  /-- The position there is that behind the text before the cut, in 32 bits. -/
  cut : ∀ before after, text = before ++ after →
    (ofText text).position (byteLength before) = positionBehind before
  /-- A line and a column that fit are told as they are. -/
  counted : ∀ before after, text = before ++ after → Countable before →
    ((ofText text).position (byteLength before)).line.toNat = lineBehind before ∧
      ((ofText text).position (byteLength before)).column.toNat = columnBehind before
  /-- In a text of fewer than 2³² - 1 characters all of them fit. -/
  bounded : text.length + 1 < UInt32.size → ∀ offset, Boundary text offset → CountableAt text offset
  /-- An offset past the end counts as the end. -/
  past : ∀ offset, byteLength text ≤ offset →
    (ofText text).position offset = (ofText text).position (byteLength text)
  /-- A smaller offset has an earlier position. -/
  ordered : ∀ offset offset', CountableAt text offset → CountableAt text offset' → offset < offset' →
    ((ofText text).position offset).Before ((ofText text).position offset')
  /-- No two offsets share a position. -/
  distinct : ∀ offset offset', CountableAt text offset → CountableAt text offset' →
    (ofText text).position offset = (ofText text).position offset' → offset = offset'

/-- The index of every text tells where its offsets stand. -/
theorem position_exact (text : List Char) : Exact text where
  found := by
    rintro before after rfl
    obtain ⟨line, starts⟩ := line_append before after
    rw [line, starts]
  cut := by
    rintro before after rfl
    exact position_append before after
  counted := by
    rintro before after rfl counts
    rw [position_append]
    exact ⟨line_positionBehind counts.line, column_positionBehind counts.column⟩
  bounded short _ := .of_boundary short
  past _ := position_past
  ordered _ _ := position_before
  distinct := by
    intro offset offset' cut cut' same
    rcases Nat.lt_trichotomy offset offset' with less | equal | less
    · exact absurd same (position_before cut cut' less).ne
    · exact equal
    · exact absurd same.symm (position_before cut' cut less).ne

theorem byteLength_replicate (count : Nat) : byteLength (List.replicate count 'a') = count := by
  induction count with
  | zero => rfl
  | succ count ih =>
    rw [List.replicate_succ, byteLength_cons, ih]
    exact Nat.add_comm 1 count

/-- In a single line all offsets are on the first line, each in the column of the next character. -/
theorem position_replicate (count more : Nat) :
    (ofText (List.replicate (count + more) 'a')).position count = ⟨1, .ofNat (count + 1)⟩ := by
  have behind := position_append (List.replicate count 'a') (List.replicate more 'a')
  rw [byteLength_replicate, ← List.replicate_add] at behind
  rw [behind, positionBehind, lineBehind, columnBehind, List.reverse_replicate, List.takeWhile_replicate]
  simp [List.count_replicate]

/-- A line can be so long that the columns of its start and of its end are the same in 32 bits. -/
theorem not_forall_position_distinct : ¬∀ (text : List Char) (offset offset' : Nat), Boundary text offset →
    Boundary text offset' → (ofText text).position offset = (ofText text).position offset' →
    offset = offset' := by
  intro all
  obtain ⟨count, long, again⟩ : ∃ count, 0 < count ∧ UInt32.ofNat (count + 1) = 1 := ⟨2 ^ 32, by decide, by decide⟩
  have start := position_replicate 0 count
  have ending := position_replicate count 0
  rw [Nat.zero_add] at start
  rw [again] at ending
  have cut : Boundary (List.replicate count 'a') 0 := ⟨[], _, rfl, rfl⟩
  have cut' : Boundary (List.replicate count 'a') count := ⟨_, [], (List.append_nil _).symm, byteLength_replicate count⟩
  have same := all _ 0 count cut cut' (start.trans ending.symm)
  exact absurd same (Nat.ne_of_lt long)

end LineIndex

end OliCompiler
