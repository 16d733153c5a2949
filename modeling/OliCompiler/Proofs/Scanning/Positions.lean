import Mathlib.Data.List.DropRight
import OliCompiler.Source.LineIndex

/-!
Where a place in a text stands is told by the text before it alone: by its length in bytes, by its newlines
and by the characters behind the last of them. Going through the text leads there, and so does asking its
line index, whose halving ends at the last line that starts in front of the place.
-/

namespace OliCompiler

namespace Scanning

/-- The line behind a text: one more than it has newlines. -/
def lineBehind (passed : List Char) : Nat := passed.count '\n' + 1

/-- The column behind a text: one more than there are characters behind its last newline. -/
def columnBehind (passed : List Char) : Nat := (passed.reverse.takeWhile (· ≠ '\n')).length + 1

/-- The position behind a text, in 32 bits. -/
def positionBehind (passed : List Char) : Position :=
  ⟨.ofNat (lineBehind passed), .ofNat (columnBehind passed)⟩

variable {passed : List Char}

/-- A line that fits into 32 bits is told as it is. -/
theorem line_positionBehind (fits : lineBehind passed < UInt32.size) :
    (positionBehind passed).line.toNat = lineBehind passed :=
  UInt32.toNat_ofNat_of_lt fits

theorem column_positionBehind (fits : columnBehind passed < UInt32.size) :
    (positionBehind passed).column.toNat = columnBehind passed :=
  UInt32.toNat_ofNat_of_lt fits

theorem lineBehind_le (passed : List Char) : lineBehind passed ≤ passed.length + 1 :=
  Nat.succ_le_succ List.count_le_length

theorem columnBehind_le (passed : List Char) : columnBehind passed ≤ passed.length + 1 := by
  have shorter := (List.takeWhile_sublist (· ≠ '\n') (l := passed.reverse)).length_le
  rw [List.length_reverse] at shorter
  exact Nat.succ_le_succ shorter

/-! ## Going through a text -/

theorem positionBehind_concat (passed : List Char) (c : Char) :
    positionBehind (passed ++ [c]) = (positionBehind passed).next c := by
  by_cases newline : c = '\n'
  · subst newline
    simp [Position.next, positionBehind, lineBehind, columnBehind, UInt32.ofNat_add]
  · simp [Position.next, positionBehind, lineBehind, columnBehind, UInt32.ofNat_add, newline]

/-- The place that is reached by going through a text. -/
theorem after_start (passed : List Char) :
    Place.start.after passed = ⟨byteLength passed, positionBehind passed⟩ := by
  induction passed using List.reverseRecOn with
  | nil => rfl
  | append_singleton passed c ih =>
    rw [Place.after_append, ih, positionBehind_concat, byteLength_append]
    rfl

end Scanning

open Scanning

/-- A text in its lines up to the last newline and the rest. -/
theorem byteLength_lastLine (text : List Char) : byteLength text =
    byteLength (text.rdropWhile (· ≠ '\n')) + byteLength (text.rtakeWhile (· ≠ '\n')) := by
  rw [← byteLength_append, List.rdropWhile_append_rtakeWhile]

theorem length_lastLine (text : List Char) :
    (text.rtakeWhile (· ≠ '\n')).length = (text.reverse.takeWhile (· ≠ '\n')).length :=
  List.length_reverse

namespace LineIndex

variable {text before after : List Char} {low high : List Nat} {offset last start : Nat}

/-! ## The starts of lines -/

theorem startsBehind_append (offset : Nat) (before after : List Char) :
    startsBehind offset (before ++ after) =
      startsBehind offset before ++ startsBehind (offset + byteLength before) after := by
  induction before generalizing offset with
  | nil => rfl
  | cons c before ih =>
    rw [List.cons_append, startsBehind, startsBehind, ih, byteLength_cons, Nat.add_assoc]
    split <;> rfl

theorem length_startsBehind (offset : Nat) (text : List Char) :
    (startsBehind offset text).length = text.count '\n' := by
  induction text generalizing offset with
  | nil => rfl
  | cons c text ih =>
    rw [startsBehind]
    by_cases newline : c = '\n'
    · subst newline
      rw [if_pos rfl, List.length_cons, ih, List.count_cons_self]
    · rw [if_neg newline, ih, List.count_cons_of_ne newline]

/-- Lines start behind the offset of the text that they belong to, and not behind its end. -/
theorem bounds_startsBehind (member : start ∈ startsBehind offset text) :
    offset < start ∧ start ≤ offset + byteLength text := by
  induction text generalizing offset with
  | nil => cases member
  | cons c text ih =>
    have size := c.utf8Size_pos
    have later (among : start ∈ startsBehind (offset + c.utf8Size) text) :
        offset < start ∧ start ≤ offset + byteLength (c :: text) := by
      have bounds := ih among
      rw [byteLength_cons]
      omega
    rw [startsBehind] at member
    split at member
    · rcases List.mem_cons.mp member with rfl | among
      · rw [byteLength_cons]
        omega
      · exact later among
    · exact later member

theorem startsOf_append (before after : List Char) :
    startsOf (before ++ after) = startsOf before ++ startsBehind (byteLength before) after := by
  rw [startsOf, startsBehind_append, Nat.zero_add]
  rfl

theorem length_startsOf (text : List Char) : (startsOf text).length = text.count '\n' + 1 := by
  rw [startsOf, List.length_cons, length_startsBehind]

theorem le_of_mem_startsOf (member : start ∈ startsOf text) : start ≤ byteLength text := by
  rcases List.mem_cons.mp member with rfl | later
  · exact Nat.zero_le _
  · simpa using (bounds_startsBehind later).2

/-- The last line of a text starts behind its last newline. -/
theorem getLast?_startsOf (text : List Char) :
    (startsOf text).getLast? = some (byteLength (text.rdropWhile (· ≠ '\n'))) := by
  induction text using List.reverseRecOn with
  | nil => rfl
  | append_singleton text c ih =>
    rw [startsOf_append, startsBehind, startsBehind]
    by_cases newline : c = '\n'
    · subst newline
      rw [if_pos rfl, List.getLast?_concat, List.rdropWhile_concat_neg _ _ _ (by simp), byteLength_append]
      rfl
    · rw [if_neg newline, List.append_nil, ih, List.rdropWhile_concat_pos _ _ _ (by simpa using newline)]

/-! ## Halving -/

theorem start_le_iff (reached : ∀ start ∈ low, start ≤ offset) (later : ∀ start ∈ high, offset < start)
    {place : Nat} (bound : place < (low ++ high).toArray.size) :
    (low ++ high).toArray[place] ≤ offset ↔ place < low.length := by
  rw [List.getElem_toArray, List.getElem_append]
  split
  · rename_i early
    exact iff_of_true (reached _ (List.getElem_mem _)) early
  · rename_i late
    exact iff_of_false (Nat.not_le_of_lt (later _ (List.getElem_mem _))) late

/-- Halving ends at the last start that is not behind the offset, if it is among those left. -/
theorem narrow_eq (reached : ∀ start ∈ low, start ≤ offset) (later : ∀ start ∈ high, offset < start)
    {first size : Nat} (fits : first + size ≤ (low ++ high).toArray.size) (opened : first < low.length)
    (closed : low.length ≤ first + size) :
    narrow (low ++ high).toArray offset first size fits = low.length - 1 := by
  -- The start in the middle is near exactly if it is one of `low`, so the end of `low` is in the half kept.
  fun_induction narrow (low ++ high).toArray offset first size fits with
  | case1 first size fits many bound near ih =>
    exact ih ((start_le_iff reached later bound).mp near) (by omega)
  | case2 first size fits many bound far ih =>
    have behind := mt (start_le_iff reached later bound).mpr far
    exact ih opened (by omega)
  | case3 first size fits one => omega

/-- The search finds the last start that is not behind the offset, or the place behind it. -/
theorem search_eq (reached : ∀ start ∈ low ++ [last], start ≤ offset) (later : ∀ start ∈ high, offset < start) :
    search (low ++ [last] ++ high).toArray offset =
      if last = offset then .ok low.length else .error (low.length + 1) := by
  have found : narrow (low ++ [last] ++ high).toArray offset 0 (low ++ [last] ++ high).toArray.size (by omega) =
      low.length := by
    rw [narrow_eq reached later _ (by simp) (by simp), List.length_append]
    rfl
  have holds : (low ++ [last] ++ high).toArray[low.length]? = some last := by simp
  have most : last ≤ offset := reached last (by simp)
  unfold search
  dsimp only
  rw [found, holds]
  dsimp only
  split
  · rfl
  · rename_i other
    rw [if_pos (Nat.lt_of_le_of_ne most other)]

/-- Either way the line is that of the last start that is not behind the offset. -/
theorem lineOf_eq {index : LineIndex} (starts : index.starts = (low ++ [last] ++ high).toArray)
    (reached : ∀ start ∈ low ++ [last], start ≤ offset) (later : ∀ start ∈ high, offset < start) :
    index.lineOf offset = low.length := by
  rw [lineOf, starts, search_eq reached later]
  by_cases same : last = offset
  · rw [if_pos same]
  · rw [if_neg same]
    rfl

/-! ## Positions -/

/-- The line of a place in a text is the number of newlines before it, and starts behind the last of them. -/
theorem line_append (before after : List Char) :
    (ofText (before ++ after)).lineOf (byteLength before) = before.count '\n' ∧
      (ofText (before ++ after)).starts[before.count '\n']? =
        some (byteLength (before.rdropWhile (· ≠ '\n'))) := by
  obtain ⟨low, opens⟩ := List.getLast?_eq_some_iff.mp (getLast?_startsOf before)
  have starts : (ofText (before ++ after)).starts = (low ++ [byteLength (before.rdropWhile (· ≠ '\n'))] ++
      startsBehind (byteLength before) after).toArray := by
    rw [ofText, startsOf_append, opens]
  have count : low.length = before.count '\n' := by
    have length := length_startsOf before
    rw [opens, List.length_append] at length
    exact Nat.succ.inj length
  have reached : ∀ start ∈ low ++ [byteLength (before.rdropWhile (· ≠ '\n'))], start ≤ byteLength before := by
    rw [← opens]
    exact fun start => le_of_mem_startsOf
  have line := lineOf_eq starts reached fun start member => (bounds_startsBehind member).1
  rw [starts, ← count]
  exact ⟨line, by simp⟩

theorem charsWithin_append : charsWithin (byteLength before) (before ++ after) = before.length := by
  induction before with
  | nil =>
    cases after with
    | nil => rfl
    | cons c after => exact if_neg (Nat.not_le_of_lt c.utf8Size_pos)
  | cons c before ih =>
    rw [List.cons_append, charsWithin, byteLength_cons, if_pos (Nat.le_add_right _ _),
      Nat.add_sub_cancel_left, ih, List.length_cons]

theorem textBehind_append (before after : List Char) :
    textBehind (byteLength before) (before ++ after) = after := by
  rw [textBehind, charsWithin_append, List.drop_left]

theorem position_append (before after : List Char) :
    (ofText (before ++ after)).position (byteLength before) = positionBehind before := by
  obtain ⟨line, starts⟩ := line_append before after
  have inside : min (byteLength before) (byteLength (before ++ after)) = byteLength before := by
    rw [byteLength_append]
    omega
  have opened : (ofText (before ++ after)).starts.getD (before.count '\n') 0 =
      byteLength (before.rdropWhile (· ≠ '\n')) := by
    rw [Array.getD_eq_getD_getElem?, starts, Option.getD_some]
  have behind : textBehind (byteLength (before.rdropWhile (· ≠ '\n'))) (before ++ after) =
      before.rtakeWhile (· ≠ '\n') ++ after := by
    have lines : before ++ after = before.rdropWhile (· ≠ '\n') ++ (before.rtakeWhile (· ≠ '\n') ++ after) := by
      rw [← List.append_assoc, List.rdropWhile_append_rtakeWhile]
    rw [lines, textBehind_append]
  rw [position, show (ofText (before ++ after)).text = before ++ after from rfl, inside, line, opened, behind,
    byteLength_lastLine before, Nat.add_sub_cancel_left, charsWithin_append, length_lastLine]
  exact congrArg (Position.mk · _) (UInt32.ofNat_add _ 1).symm

/-- An offset behind the end of a text counts as the end. -/
theorem position_past (past : byteLength text ≤ offset) :
    (ofText text).position offset = (ofText text).position (byteLength text) := by
  unfold position
  rw [show (ofText text).text = text from rfl, Nat.min_eq_right past, Nat.min_self]

end LineIndex

end OliCompiler
