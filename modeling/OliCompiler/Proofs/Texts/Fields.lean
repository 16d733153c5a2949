import OliCompiler.Proofs.Texts.Groups
import OliCompiler.Text.Layout

/-!
Taking texts apart again: a text into its lines, and a line into its fields, which blanks, commas and
parentheses separate.
-/

namespace OliCompiler.Text

/-- Whether a text is one line. -/
def Unbroken (text : String) : Prop := '\n' ∉ text.toList

instance : DecidablePred Unbroken := fun _ => inferInstanceAs (Decidable (_ ∉ _))

/-- The lines of a text can be read back. -/
theorem unlines_inj {lines lines' : List String} (unbroken : ∀ line ∈ lines, Unbroken line)
    (unbroken' : ∀ line ∈ lines', Unbroken line) (same : unlines lines = unlines lines') :
    lines = lines' := by
  have ended : ∀ lines : List String, (unlines lines).toList =
      (lines.map String.toList).flatMap (· ++ ['\n']) := by
    intro lines
    rw [unlines, String.toList_join, List.flatMap_map, List.flatMap_map]
    simp only [String.toList_append]
    rfl
  have chars := congrArg String.toList same
  rw [ended, ended] at chars
  have lists := ended_inj (List.forall_mem_map.mpr unbroken) (List.forall_mem_map.mpr unbroken') chars
  exact (List.map_inj_right fun _ _ => String.toList_inj.mp).mp lists

/-- Whether a character separates the fields of a line. -/
def separates (c : Char) : Bool := c = ' ' || c = ',' || c = '(' || c = ')'

def fieldsOf (chars : List Char) : List String :=
  ((chars.splitOnP separates).filter (!·.isEmpty)).map String.ofList

/-- The fields of a line: its longest pieces without a separator. -/
def fields (line : String) : List String := fieldsOf line.toList

/-- Whether a text starts with a separator. -/
def Opens (text : String) : Prop := text.toList.head?.any separates

/-- Whether a text ends with a separator. -/
def Closes (text : String) : Prop := text.toList.getLast?.any separates

/-- Whether a text is part of a single field. -/
def Solid (text : String) : Prop := ∀ c ∈ text.toList, c ≠ '\n' ∧ separates c = false

/-- Whether a text is a whole field. -/
def Whole (text : String) : Prop := text ≠ "" ∧ Solid text

instance : DecidablePred Opens := fun _ => inferInstanceAs (Decidable (_ = _))

instance : DecidablePred Closes := fun _ => inferInstanceAs (Decidable (_ = _))

instance : DecidablePred Solid := fun text => List.decidableBAll _ text.toList

instance : DecidablePred Whole := fun _ => inferInstanceAs (Decidable (_ ∧ _))

variable {text before behind separator : String} {items : List String} {c : Char}

@[simp]
theorem solid_append : Solid (before ++ behind) ↔ Solid before ∧ Solid behind := by
  simp only [Solid, String.toList_append]
  exact List.forall_mem_append

/-- A text is solid if its characters are of some kind that separators are not of. -/
theorem solid_of_forall {kind : Char → Bool} (all : ∀ c ∈ text.toList, kind c = true)
    (apart : ['\n', ' ', ',', '(', ')'].any kind = false) : Solid text := by
  intro c member
  have ne : ∀ d ∈ ['\n', ' ', ',', '(', ')'], c ≠ d := by
    rintro d listed rfl
    exact List.any_eq_false.mp apart c listed (all c member)
  simp only [List.forall_mem_cons] at ne
  simp [separates, ne]

theorem Whole.append (first : Whole before) (rest : Solid behind) : Whole (before ++ behind) := by
  refine ⟨fun empty => first.1 ?_, solid_append.mpr ⟨first.2, rest⟩⟩
  exact (String.append_eq_empty_iff.mp empty).1

theorem fieldsOf_append_cons (separator : separates c = true) (before behind : List Char) :
    fieldsOf (before ++ c :: behind) = fieldsOf before ++ fieldsOf behind := by
  rw [fieldsOf, List.splitOnP_append_cons _ _ separator, List.filter_append, List.map_append]
  rfl

theorem fieldsOf_cons (separator : separates c = true) (behind : List Char) :
    fieldsOf (c :: behind) = fieldsOf behind :=
  fieldsOf_append_cons separator [] behind

theorem fields_append_of_opens (opens : Opens behind) :
    fields (before ++ behind) = fields before ++ fields behind := by
  obtain ⟨c, found, separator⟩ := (Option.any_eq_true ..).mp opens
  obtain ⟨rest, same⟩ := List.head?_eq_some_iff.mp found
  rw [fields, fields, fields, String.toList_append, same, fieldsOf_append_cons separator,
    fieldsOf_cons separator]

theorem fields_append_of_closes (closes : Closes before) :
    fields (before ++ behind) = fields before ++ fields behind := by
  obtain ⟨c, found, separator⟩ := (Option.any_eq_true ..).mp closes
  obtain ⟨rest, same⟩ := List.getLast?_eq_some_iff.mp found
  rw [fields, fields, fields, String.toList_append, same, List.append_assoc, List.singleton_append,
    fieldsOf_append_cons separator, fieldsOf_append_cons separator]
  exact congrArg (· ++ _) (List.append_nil _).symm

theorem fields_append_between (opens : Opens separator) :
    fields (before ++ (separator ++ behind)) = fields before ++ fields (separator ++ behind) := by
  apply fields_append_of_opens
  obtain ⟨c, found, separator⟩ := (Option.any_eq_true ..).mp opens
  obtain ⟨rest, same⟩ := List.head?_eq_some_iff.mp found
  simp [Opens, String.toList_append, same, separator]

theorem Whole.fields_eq (whole : Whole text) : fields text = [text] := by
  have solid : ∀ c ∈ text.toList, separates c = false := fun c member => (whole.2 c member).2
  have nonempty : text.toList.isEmpty = false := by
    simpa using whole.1
  rw [fields, fieldsOf, List.splitOnP_eq_singleton solid]
  simp [nonempty]

@[simp]
theorem unbroken_append : Unbroken (before ++ behind) ↔ Unbroken before ∧ Unbroken behind := by
  simp [Unbroken]

theorem Solid.unbroken (solid : Solid text) : Unbroken text := fun member => (solid _ member).1 rfl

theorem fields_commaSeparated : fields (commaSeparated items) = items.flatMap fields := by
  induction items with
  | nil => rfl
  | cons item items ih =>
    cases items with
    | nil => simp [commaSeparated]
    | cons next items =>
      have opens : Opens (", " ++ commaSeparated (next :: items)) := by
        simp [Opens, separates, String.toList_append]
      rw [commaSeparated, String.intercalate_cons_cons, String.append_assoc]
      rw [← commaSeparated, fields_append_of_opens opens, fields_append_of_closes (by decide), ih]
      rfl

/-- A text is one line if each of its fields is part of one. -/
theorem unbroken_of_fields {line : String} (solid : ∀ field ∈ fields line, Solid field) :
    Unbroken line := by
  have found : ∀ chars : List Char, '\n' ∈ chars →
      ∃ piece ∈ chars.splitOnP separates, '\n' ∈ piece := by
    intro chars member
    induction chars with
    | nil => cases member
    | cons c chars ih =>
      obtain ⟨piece, pieces, same⟩ :=
        List.exists_cons_of_ne_nil (List.splitOnP_ne_nil separates chars)
      rw [List.splitOnP_cons_eq_if_modifyHead, same]
      rw [same] at ih
      by_cases separator : separates c = true
      · rw [if_pos separator]
        obtain rfl | member := List.mem_cons.mp member
        · cases separator
        · obtain ⟨found, listed, inside⟩ := ih member
          exact ⟨found, List.mem_cons_of_mem _ listed, inside⟩
      · rw [if_neg separator]
        simp only [List.modifyHead_cons, List.mem_cons, exists_eq_or_imp] at ih member ⊢
        rcases member with rfl | member
        · exact .inl (.inl rfl)
        · exact (ih member).imp_left .inr
  intro member
  obtain ⟨piece, listed, inside⟩ := found _ member
  have field : String.ofList piece ∈ fields line := by
    refine List.mem_map.mpr ⟨piece, List.mem_filter.mpr ⟨listed, ?_⟩, rfl⟩
    simpa using List.ne_nil_of_mem inside
  exact (solid _ field '\n' (by simpa using inside)).1 rfl

end OliCompiler.Text
