import OliCompiler.Files.Tree
import OliCompiler.Proofs.Tables

/-!
What writing does to a tree of files. If it succeeds the file written holds the text; whether or not it
does, directories may have been made on the way to it, and every other file is as it was.
-/

namespace OliCompiler.FileTree

variable {tree middle tree' : FileTree} {location place other : Location} {entry : FileEntry} {path text : String}
  {bytes : List UInt8} {segments : List (List Char)}

/-- Whether at a location stands what stood there before, or a directory was made where nothing stood. -/
def Kept (tree tree' : FileTree) (location : Location) : Prop :=
  tree'.item? location = tree.item? location ∨
    tree.item? location = none ∧ tree'.item? location = some .directory

/-- Whether a tree is another one with a text written to a path: the file to which the path leads holds
the text, and every other place is kept. -/
def Written (tree : FileTree) (path text : String) (tree' : FileTree) : Prop :=
  ∃ place, tree'.locate path = some place ∧ tree'.readText path = some text ∧
    ∀ location ≠ place, Kept tree tree' location

/-- A directory with one file. -/
def single (name text : String) : FileTree where
  entries := [([name.toList], .file (text.toList.flatMap String.utf8EncodeChar))]
  current := []

/-- Whether a path can be written to. -/
def Writable (tree : FileTree) (path : String) : Prop := (tree.writeText path "").1 = true

theorem item?_put (inside : place ≠ []) : FileTree.item? (tree.put place entry) place = some entry := by
  rw [item?, if_neg inside, put, List.lookup_append, lookup_filter_ne, if_pos rfl, Option.none_or,
    List.lookup_cons_self]

theorem item?_put_of_ne (apart : other ≠ place) :
    FileTree.item? (tree.put place entry) other = tree.item? other := by
  have missed : [(place, entry)].lookup other = none := by
    rw [List.lookup_cons, beq_eq_false_iff_ne.mpr apart]
    rfl
  rw [item?, item?, put, List.lookup_append, lookup_filter_ne, if_neg apart.symm, missed, Option.or_none]

/-! ## What is kept -/

theorem Kept.refl (tree : FileTree) (location : Location) : Kept tree tree location := .inl rfl

theorem Kept.trans (first : Kept tree middle location) (second : Kept middle tree' location) :
    Kept tree tree' location := by
  rcases first with same | ⟨free, made⟩
  · simpa only [Kept, same] using second
  · rcases second with same' | ⟨free', _⟩
    · exact .inr ⟨free, same'.trans made⟩
    · rw [made] at free'
      cases free'

/-- Directories stay where they are. -/
theorem Kept.isDirectory (kept : Kept tree tree' location) (directory : tree.isDirectory location = true) :
    tree'.isDirectory location = true := by
  have stands : tree.item? location = some .directory := of_decide_eq_true directory
  rcases kept with same | ⟨free, _⟩
  · exact decide_eq_true (same.trans stands)
  · rw [stands] at free
    cases free

/-- A directory made where nothing stood. -/
theorem kept_put_directory (free : tree.item? place = none) :
    Kept tree (tree.put place .directory) location := by
  by_cases here : location = place
  · subst here
    have inside : location ≠ [] := by
      rintro rfl
      cases free
    exact .inr ⟨free, item?_put inside⟩
  · exact .inl (item?_put_of_ne here)

/-- Whether or not the way is made to the end, nothing but directories is made on it. -/
theorem makeWay_kept (tree : FileTree) (place location : Location) (segments : List (List Char)) :
    Kept tree (tree.makeWay place segments).2 location := by
  fun_induction makeWay tree place segments with
  | case1 | case5 | case6 => exact .refl _ _
  | case3 tree place segment segments name known next named free ih => exact (kept_put_directory free).trans ih
  | case2 _ _ _ _ _ ih | case4 _ _ _ _ _ _ _ _ _ ih | case7 _ _ _ _ _ _ ih => exact ih

theorem makeDirectories_kept : Kept tree (tree.makeDirectories path).2 location := by
  rw [makeDirectories]
  split
  · exact .refl _ _
  · exact makeWay_kept _ _ _ _

theorem prepare_kept : Kept tree (tree.prepare path).2 location := by
  rw [prepare]
  split
  · exact .refl _ _
  · exact .refl _ _
  · exact makeDirectories_kept

/-! ## Where a path leads -/

/-- A file in place of what is no directory leaves the directories as they are. -/
theorem isDirectory_put (solid : tree.isDirectory place = false) :
    (tree.put place (.file bytes)).isDirectory location = tree.isDirectory location := by
  by_cases here : location = place
  · subst here
    have inside : location ≠ [] := by
      rintro rfl
      cases solid
    rw [solid, isDirectory, item?_put inside]
    rfl
  · rw [isDirectory, isDirectory, item?_put_of_ne here]

theorem walk_congr (same : ∀ location, tree'.isDirectory location = tree.isDirectory location) :
    tree'.walk location segments = tree.walk location segments := by
  induction segments generalizing location with
  | nil => rfl
  | cons segment segments ih => simp only [walk, same, ih]

theorem locate_congr (current : tree'.current = tree.current)
    (same : ∀ location, tree'.isDirectory location = tree.isDirectory location) :
    tree'.locate path = tree.locate path := by
  have start : tree'.startOf path = tree.startOf path := by
    unfold startOf
    rw [current]
  simp only [locate, start, walk_congr same]

/-! ## Writing one file -/

/-- A file that is written anew holds the bytes, or else it is as it was or holds what a fault left. -/
theorem overwrite_cases (tree : FileTree) (place : Location) (bytes : List UInt8) :
    tree.overwrite place bytes = (true, tree.passFault.put place (.file bytes)) ∨
      tree.overwrite place bytes = (false, tree.passFault) ∨
      ∃ left, tree.overwrite place bytes = (false, tree.passFault.put place (.file left)) := by
  unfold overwrite
  cases tree.faults.head?.join with
  | none => exact .inl rfl
  | some fault =>
    cases fault with
    | refused => exact .inr (.inl rfl)
    | brokenOff left => exact .inr (.inr ⟨left, rfl⟩)

theorem overwrite_item?_of_ne (apart : other ≠ place) :
    FileTree.item? (tree.overwrite place bytes).2 other = tree.item? other := by
  rcases overwrite_cases tree place bytes with done | refused | ⟨left, broken⟩
  · rw [done, item?_put_of_ne apart]
    rfl
  · rw [refused]
    rfl
  · rw [broken, item?_put_of_ne apart]
    rfl

theorem overwrite_isDirectory (solid : tree.isDirectory place = false) :
    (tree.overwrite place bytes).2.isDirectory location = tree.isDirectory location := by
  have solid : tree.passFault.isDirectory place = false := solid
  rcases overwrite_cases tree place bytes with done | refused | ⟨left, broken⟩
  · rw [done, isDirectory_put solid]
    rfl
  · rw [refused]
    rfl
  · rw [broken, isDirectory_put solid]
    rfl

theorem overwrite_current : (tree.overwrite place bytes).2.current = tree.current := by
  rcases overwrite_cases tree place bytes with done | refused | ⟨left, broken⟩
  · rw [done]
    rfl
  · rw [refused]
    rfl
  · rw [broken]
    rfl

/-- Whether a file is written does not hang on what is to be written. -/
theorem overwrite_done_congr (bytes' : List UInt8) :
    (tree.overwrite place bytes).1 = (tree.overwrite place bytes').1 := by
  unfold overwrite
  split <;> rfl

theorem overwrite_done (inside : place ≠ []) (done : (tree.overwrite place bytes).1 = true) :
    FileTree.item? (tree.overwrite place bytes).2 place = some (.file bytes) := by
  rcases overwrite_cases tree place bytes with written | refused | ⟨left, broken⟩
  · rw [written, item?_put inside]
  · rw [refused] at done
    cases done
  · rw [broken] at done
    cases done

/-- A path cannot be written to, or the file to which it leads is written anew. -/
theorem write_cases (tree : FileTree) (path : String) :
    (∀ bytes, tree.write path bytes = (false, tree)) ∨
      ∃ place, tree.locate path = some place ∧ tree.isDirectory place = false ∧
        ∀ bytes, tree.write path bytes = tree.overwrite place bytes := by
  unfold write
  cases located : tree.locate path with
  | none => exact .inl fun _ => rfl
  | some place =>
    dsimp only
    split
    · exact .inl fun _ => rfl
    · rename_i opened
      have solid := (Bool.or_eq_false_iff.mp (Bool.not_eq_true _ ▸ opened)).1
      exact .inr ⟨place, rfl, solid, fun _ => rfl⟩

theorem write_isDirectory : (tree.write path bytes).2.isDirectory location = tree.isDirectory location := by
  rcases write_cases tree path with failed | ⟨place, _, solid, writes⟩
  · rw [failed]
  · rw [writes, overwrite_isDirectory solid]

theorem write_current : (tree.write path bytes).2.current = tree.current := by
  rcases write_cases tree path with failed | ⟨place, _, _, writes⟩
  · rw [failed]
  · rw [writes, overwrite_current]

/-- Wherever a path leads, it leads there also behind a write. -/
theorem locate_write {other : String} : (tree.write path bytes).2.locate other = tree.locate other :=
  locate_congr write_current fun _ => write_isDirectory

theorem write_kept (apart : (tree.write path bytes).2.locate path ≠ some location) :
    Kept tree (tree.write path bytes).2 location := by
  rw [locate_write] at apart
  rcases write_cases tree path with failed | ⟨place, located, _, writes⟩
  · rw [failed]
    exact .refl _ _
  · rw [writes]
    refine .inl (overwrite_item?_of_ne ?_)
    rintro rfl
    exact apart located

/-! ## The text written -/

/-- The bytes of a text are read as that text. -/
theorem fromUTF8?_encode (text : String) :
    String.fromUTF8? ⟨(text.toList.flatMap String.utf8EncodeChar).toArray⟩ = some text := by
  have bytes : ByteArray.mk (text.toList.flatMap String.utf8EncodeChar).toArray = text.toByteArray := by
    conv => rhs; rw [← text.ofList_toList, String.toByteArray_ofList]
    exact ByteArray.ext List.data_toByteArray.symm
  rw [bytes, String.fromUTF8?, dif_pos text.isValidUTF8]
  rfl

theorem write_written (done : (tree.write path (text.toList.flatMap String.utf8EncodeChar)).1 = true) :
    Written tree path text (tree.write path (text.toList.flatMap String.utf8EncodeChar)).2 := by
  rcases write_cases tree path with failed | ⟨place, located, solid, writes⟩
  · rw [failed] at done
    cases done
  · have leads : (tree.write path (text.toList.flatMap String.utf8EncodeChar)).2.locate path = some place :=
      locate_write.trans located
    have inside : place ≠ [] := by
      rintro rfl
      cases solid
    rw [writes] at done
    have holds := overwrite_done inside done
    rw [← writes] at holds
    refine ⟨place, leads, ?_, fun location apart => write_kept ?_⟩
    · simp [readText, read, leads, holds, fromUTF8?_encode]
    · rw [leads]
      exact fun same => apart (Option.some.inj same).symm

theorem writeText_eq : tree.writeText path text =
    if (tree.prepare path).1 then (tree.prepare path).2.write path (text.toList.flatMap String.utf8EncodeChar)
    else (false, (tree.prepare path).2) := by
  unfold writeText
  rcases tree.prepare path with ⟨_ | _, _⟩ <;> rfl

/-- Writing a text touches the file to which the path leads, whatever directories it makes and whether or not
it succeeds. -/
theorem writeText_kept (apart : (tree.writeText path text).2.locate path ≠ some location) :
    Kept tree (tree.writeText path text).2 location := by
  rw [writeText_eq] at apart ⊢
  split
  · rename_i prepared
    rw [if_pos prepared] at apart
    exact prepare_kept.trans (write_kept apart)
  · exact prepare_kept

/-- A text that is written is what is written, and nothing else. -/
theorem writeText_written (done : (tree.writeText path text).1 = true) :
    Written tree path text (tree.writeText path text).2 := by
  rw [writeText_eq] at done ⊢
  split at done
  · rename_i prepared
    obtain ⟨place, located, held, others⟩ := write_written done
    rw [if_pos prepared]
    exact ⟨place, located, held, fun location apart => prepare_kept.trans (others location apart)⟩
  · cases done

/-- A path to which the empty text can be written takes any text. -/
theorem Writable.writeText (writable : tree.Writable path) (text : String) :
    (tree.writeText path text).1 = true := by
  unfold Writable at writable
  rw [writeText_eq] at writable ⊢
  split at writable
  · rename_i prepared
    rw [if_pos prepared]
    rcases write_cases (tree.prepare path).2 path with failed | ⟨place, _, _, writes⟩
    · rw [failed] at writable
      cases writable
    · rw [writes] at writable ⊢
      rwa [overwrite_done_congr]
  · cases writable

end OliCompiler.FileTree
