import OliCompiler.Proofs.Files.Trees
import OliCompiler.Proofs.Paths.Components

/-!
Where paths lead. The components of a path alone tell to which place it can lead, and no writing moves
the place to which it leads. So a text written to one place, or a write to it that fails, leaves the files at
all others as they were.
-/

namespace OliCompiler.FileTree

variable {tree tree' : FileTree} {location place above : Location} {path other text : String} {bytes : List UInt8}
  {segments : List (List Char)} {components : List Path.Component} {name : List Char}

/-! ## By its components -/

/-- Where a component of a path leads from a location. -/
def follow (location : Location) : Path.Component → Location
  | .root => []
  | .here => location
  | .up => location.dropLast
  | .name name => location ++ [name]

/-- A walk that arrives has followed what the segments mean. -/
theorem walk_eq (walked : tree.walk location segments = some place) :
    place = (segments.filterMap Path.component?).foldl follow location := by
  induction segments generalizing location with
  | nil => exact (Option.some.inj walked).symm
  | cons segment segments ih =>
    rw [walk] at walked
    split at walked
    · rcases Path.component?_cases segment with idle | up | ⟨name, named⟩
      · rw [idle] at walked
        rw [List.filterMap_cons_none idle]
        exact ih walked
      · rw [up] at walked
        rw [List.filterMap_cons_some up]
        exact ih walked
      · rw [named] at walked
        rw [List.filterMap_cons_some named]
        dsimp only at walked
        split at walked
        · exact ih walked
        · cases walked
    · cases walked

theorem startOf_follow (tree : FileTree) (path : String) :
    ((tree.startOf path).2.filterMap Path.component?).foldl follow (tree.startOf path).1 =
      (Path.components path).foldl follow tree.current := by
  unfold startOf Path.components
  generalize path.toList = text
  fun_cases Path.anchored text with
  | case1 body => rfl
  | case2 => rfl
  | case3 body => rfl
  | case4 _ rooted =>
    split
    · exact absurd rfl (rooted _)
    · rfl

/-- The components of a path tell to which place it can lead. -/
theorem locate_eq (located : tree.locate path = some place) :
    place = (Path.components path).foldl follow tree.current := by
  rw [locate] at located
  split at located
  · cases located
  · exact (walk_eq located).trans (startOf_follow tree path)

/-- A path with a file name leads to a place of that name. -/
theorem locate_eq_append (ends : Path.components path = components ++ [.name name])
    (located : tree.locate path = some place) : place = components.foldl follow tree.current ++ [name] := by
  rw [locate_eq located, ends, List.foldl_append]
  rfl

/-! ## Behind a writing -/

theorem walk_mono (kept : ∀ location, tree.isDirectory location = true → tree'.isDirectory location = true)
    (walked : tree.walk location segments = some place) : tree'.walk location segments = some place := by
  induction segments generalizing location with
  | nil => exact walked
  | cons segment segments ih =>
    rw [walk] at walked ⊢
    split at walked
    · rename_i directory
      rw [if_pos (kept location directory)]
      rcases Path.component?_cases segment with meant | meant | ⟨name, meant⟩ <;>
        rw [meant] at walked ⊢
      · exact ih walked
      · exact ih walked
      · dsimp only at walked ⊢
        split at walked
        · rename_i fits
          rw [if_pos fits]
          exact ih walked
        · cases walked
    · cases walked

theorem locate_mono (same : tree'.current = tree.current)
    (kept : ∀ location, tree.isDirectory location = true → tree'.isDirectory location = true)
    (located : tree.locate path = some place) : tree'.locate path = some place := by
  have start : tree'.startOf path = tree.startOf path := by
    unfold startOf
    rw [same]
  rw [locate] at located ⊢
  rw [start]
  split at located
  · cases located
  · rename_i fits
    rw [if_neg fits]
    exact walk_mono kept located

theorem makeWay_current (tree : FileTree) (location : Location) (segments : List (List Char)) :
    (tree.makeWay location segments).2.current = tree.current := by
  fun_induction makeWay tree location segments with
  | case1 | case5 | case6 => rfl
  | case3 _ _ _ _ _ _ _ _ _ ih => exact ih
  | case2 _ _ _ _ _ ih | case4 _ _ _ _ _ _ _ _ _ ih | case7 _ _ _ _ _ _ ih => exact ih

theorem prepare_current : (tree.prepare path).2.current = tree.current := by
  unfold prepare makeDirectories
  split
  · rfl
  · rfl
  · split
    · rfl
    · exact makeWay_current _ _ _

theorem writeText_current : (tree.writeText path text).2.current = tree.current := by
  rw [writeText_eq]
  split
  · exact write_current.trans prepare_current
  · exact prepare_current

/-- Directories stay directories when a text is written. -/
theorem writeText_isDirectory (directory : tree.isDirectory location = true) :
    (tree.writeText path text).2.isDirectory location = true := by
  have prepared : (tree.prepare path).2.isDirectory location = true := prepare_kept.isDirectory directory
  rw [writeText_eq]
  split
  · exact write_isDirectory.trans prepared
  · exact prepared

/-- A path that leads somewhere leads there also when a text has been written. -/
theorem locate_writeText (located : tree.locate other = some place) :
    (tree.writeText path text).2.locate other = some place :=
  locate_mono writeText_current (fun _ => writeText_isDirectory) located

theorem read_eq_some : tree.read path = some bytes ↔
    ∃ place, tree.locate path = some place ∧ tree.item? place = some (.file bytes) := by
  simp only [read, Option.bind_eq_bind, Option.bind_eq_some_iff]
  refine exists_congr fun place => and_congr_right fun _ => ?_
  constructor
  · rintro ⟨entry, stands, holds⟩
    cases entry with
    | directory => cases holds
    | file bytes =>
      cases holds
      exact stands
  · exact fun stands => ⟨_, stands, rfl⟩

/-- A text written to one place leaves a file at another as it was. -/
theorem read_writeText (held : tree.read other = some bytes)
    (apart : (tree.writeText path text).2.locate other ≠ (tree.writeText path text).2.locate path) :
    (tree.writeText path text).2.read other = some bytes := by
  obtain ⟨place, located, stands⟩ := read_eq_some.mp held
  have reached : (tree.writeText path text).2.locate other = some place := locate_writeText located
  refine read_eq_some.mpr ⟨place, reached, ?_⟩
  rw [reached] at apart
  rcases writeText_kept apart.symm with same | ⟨free, _⟩
  · exact same.trans stands
  · rw [stands] at free
    cases free

end OliCompiler.FileTree
