import Mathlib.Data.List.TakeDrop
import OliCompiler.Proofs.Paths.Components

/-!
The name of a compiled file. It is that of the input with another extension, or with one more if the
name had none, and it stands where the input does unless a directory is given.
-/

namespace OliCompiler.Path

variable {path : String} {name stem extension : List Char} {directory : Option String}

/-! ## Stems and extensions -/

theorem splitName_dotted (present : stem ≠ []) (whole : '.' ∉ extension) :
    splitName (stem ++ '.' :: extension) = (stem, some extension) := by
  have before : ∀ c ∈ extension.reverse, decide (c ≠ '.') = true := by
    intro c member
    refine decide_eq_true fun dot => whole ?_
    rwa [List.mem_reverse, dot] at member
  have reversed : (stem ++ '.' :: extension).reverse.span (· ≠ '.') =
      (extension.reverse, '.' :: stem.reverse) := by
    rw [List.span_eq_takeWhile_dropWhile, List.reverse_append, List.reverse_cons, List.append_assoc,
      List.takeWhile_append_of_pos before, List.dropWhile_append_of_pos before]
    simp
  obtain ⟨c, rest, opens⟩ := List.exists_cons_of_ne_nil (List.reverse_ne_nil_iff.mpr present)
  rw [splitName, reversed, opens]
  dsimp only
  rw [← opens, List.reverse_reverse, List.reverse_reverse]

/-- A name has no extension, or it is its stem and its extension with a dot between them. -/
theorem splitName_cases (name : List Char) : splitName name = (name, none) ∨
    ∃ stem extension, stem ≠ [] ∧ '.' ∉ extension ∧ name = stem ++ '.' :: extension ∧
      splitName name = (stem, some extension) := by
  have whole : name.reverse.takeWhile (· ≠ '.') ++ name.reverse.dropWhile (· ≠ '.') = name.reverse :=
    List.takeWhile_append_dropWhile
  have first := List.head?_dropWhile_not (· ≠ '.') name.reverse
  have free : '.' ∉ name.reverse.takeWhile (· ≠ '.') := by
    intro member
    simpa using List.mem_takeWhile_imp member
  unfold splitName
  rw [List.span_eq_takeWhile_dropWhile]
  generalize name.reverse.takeWhile (· ≠ '.') = extension at whole free ⊢
  generalize name.reverse.dropWhile (· ≠ '.') = behind at whole first ⊢
  rcases behind with _ | ⟨c, _ | ⟨d, stem⟩⟩
  · exact .inl rfl
  · exact .inl rfl
  · obtain rfl : c = '.' := by simpa using first
    refine .inr ⟨_, _, List.reverse_ne_nil_iff.mpr (List.cons_ne_nil d stem), ?_, ?_, rfl⟩
    · rwa [List.mem_reverse]
    · rw [← List.reverse_reverse name, ← whole, List.reverse_append, List.reverse_cons, List.append_assoc]
      rfl

/-- The name of the compiled file of an input of the given name. -/
def outputName (name : List Char) : List Char := (splitName name).1 ++ '.' :: outputExtension.toList

theorem splitName_outputName (name : List Char) (present : name ≠ []) :
    splitName (outputName name) = ((splitName name).1, some outputExtension.toList) := by
  refine splitName_dotted ?_ (by decide)
  rcases splitName_cases name with plain | ⟨stem, extension, nonempty, _, _, parts⟩
  · rwa [plain]
  · rwa [parts]

theorem isFileName_outputName (named : IsFileName name) : IsFileName (outputName name) where
  whole := by
    have stem : '/' ∉ (splitName name).1 := by
      rcases splitName_cases name with plain | ⟨stem, extension, _, _, spells, parts⟩
      · rw [plain]
        exact named.whole
      · rw [parts]
        exact fun member => named.whole (spells ▸ List.mem_append_left _ member)
    rw [outputName, List.mem_append, not_or]
    exact ⟨stem, by decide⟩
  meant := by
    have long : 3 ≤ (outputName name).length := by
      rw [outputName, List.length_append]
      exact Nat.le_add_left 3 _
    have other (short : List Char) (less : short.length < 3) : outputName name ≠ short := by
      rintro same
      rw [same] at long
      omega
    rw [component?, if_neg, if_neg (other _ (by decide))]
    rw [not_or]
    exact ⟨other _ (by decide), other _ (by decide)⟩

/-! ## Compiled files -/

theorem isFileName_of_fileName (named : fileName? path = some name) : IsFileName name := by
  obtain ⟨front, ends, meant⟩ := exists_front named
  have member : name ∈ (segments (anchored path.toList).2).rdropWhile idle := by
    rw [ends]
    exact List.mem_append_right _ List.mem_cons_self
  exact ⟨whole_of_mem_segments ((List.rdropWhile_prefix idle _).subset member), meant⟩

theorem output_eq (named : fileName? path = some name) (directory : Option String) :
    output path directory =
      join ((directory.or (parent? path)).getD "") (String.ofList (outputName name)) := by
  have stem : stem? path = some (String.ofList (splitName name).1) := by rw [stem?, named, Option.map_some]
  have spelled : String.ofList (splitName name).1 ++ "." ++ outputExtension = String.ofList (outputName name) := by
    rw [outputName, String.ofList_append, String.append_assoc]
    rfl
  rw [output, stem, Option.getD_some, spelled]

theorem components_output (named : fileName? path = some name) (directory : Option String) :
    components (output path directory) =
      components ((directory.or (parent? path)).getD "") ++ [.name (outputName name)] := by
  rw [output_eq named, components_join _ (isFileName_outputName (isFileName_of_fileName named))]

/-- Without a directory the compiled file stands beside the input. -/
theorem components_output_none (named : fileName? path = some name) :
    components (output path none) = (components path).dropLast ++ [.name (outputName name)] := by
  obtain ⟨parent, above, same⟩ := components_parent named
  rw [components_output named, above, ← same]
  rfl

end OliCompiler.Path
