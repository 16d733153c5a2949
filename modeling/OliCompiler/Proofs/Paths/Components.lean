import Mathlib.Data.List.DropRight
import OliCompiler.Path

/-!
The components of a path and of the paths made from it. Its parent has all components but the last, and
a name joined to a path is one more component, however the slashes and dots are written.
-/

namespace OliCompiler.Path

variable {path : String} {text more body name file segment : List Char} {front back : List (List Char)}

/-! ## Segments -/

theorem segments_eq_splitOn (text : List Char) : segments text = text.splitOn '/' := by
  fun_induction segments text with
  | case1 => rfl
  | case2 text ih => rw [List.splitOn_cons_eq_if_modifyHead, if_pos BEq.rfl, ih]
  | case3 c text other empty ih => exact absurd (ih.symm.trans empty) (List.splitOn_ne_nil _ _)
  | case4 c text other first rest cut ih =>
    have apart : ¬(c == '/') = true := fun same => other (beq_iff_eq.mp same)
    rw [List.splitOn_cons_eq_if_modifyHead, if_neg apart, ← ih, cut, List.modifyHead_cons]

theorem joined_segments (text : List Char) : joined (segments text) = text := by
  rw [joined, segments_eq_splitOn, List.intercalate_splitOn]

theorem segments_joined (whole : ∀ segment ∈ front, '/' ∉ segment) (present : front ≠ []) :
    segments (joined front) = front := by
  rw [joined, segments_eq_splitOn, List.splitOn_intercalate _ whole present]

theorem segments_append (text more : List Char) :
    segments (text ++ '/' :: more) = segments text ++ segments more := by
  simp only [segments_eq_splitOn, List.splitOn_append_cons_self]

theorem segments_of_whole (whole : '/' ∉ text) : segments text = [text] := by
  rw [segments_eq_splitOn, List.splitOn_eq_singleton whole]

theorem whole_of_mem_segments (member : segment ∈ segments text) : '/' ∉ segment := by
  fun_induction segments text generalizing segment with
  | case1 =>
    rw [List.mem_singleton.mp member]
    exact List.not_mem_nil
  | case2 text ih =>
    rcases List.mem_cons.mp member with rfl | later
    · exact List.not_mem_nil
    · exact ih later
  | case3 c text other empty ih =>
    rw [List.mem_singleton.mp member, List.mem_singleton]
    exact fun same => other same.symm
  | case4 c text other first rest cut ih =>
    rw [cut] at ih
    rcases List.mem_cons.mp member with rfl | later
    · rw [List.mem_cons, not_or]
      exact ⟨fun same => other same.symm, ih List.mem_cons_self⟩
    · exact ih (List.mem_cons_of_mem _ later)

theorem joined_append (before : front ≠ []) (behind : back ≠ []) :
    joined (front ++ back) = joined front ++ '/' :: joined back := by
  induction front with
  | nil => exact absurd rfl before
  | cons first front ih =>
    rw [joined, joined, List.cons_append, List.intercalate_cons_of_ne_nil (by simp [behind])]
    by_cases last : front = []
    · subst last
      simp [joined]
    · rw [List.intercalate_cons_of_ne_nil last]
      have rest := ih last
      rw [joined, joined] at rest
      rw [rest]
      simp

/-! ## The anchor -/

theorem anchored_spells (text : List Char) : (anchored text).1 ++ (anchored text).2 = text := by
  unfold anchored
  split <;> rfl

/-- The anchor of a path is also that of a longer one, unless it is a dot that goes on as a name. -/
theorem anchored_append (present : text ≠ []) (dot : text = ['.'] → more.head? = some '/') :
    anchored (text ++ more) = ((anchored text).1, (anchored text).2 ++ more) := by
  fun_cases anchored text with
  | case1 body => rfl
  | case2 =>
    obtain ⟨more, rfl⟩ := List.head?_eq_some_iff.mp (dot rfl)
    rfl
  | case3 body => rfl
  | case4 _ rooted alone dotted =>
    obtain ⟨c, text, rfl⟩ := List.exists_cons_of_ne_nil present
    refine anchored.eq_4 _ ?_ ?_ ?_
    · intro body same
      cases same
      exact rooted _ rfl
    · intro same
      obtain ⟨rfl, others⟩ := List.cons.inj same
      obtain ⟨rfl, _⟩ := List.append_eq_nil_iff.mp others
      exact alone rfl
    · intro body same
      obtain ⟨rfl, others⟩ := List.cons.inj same
      cases text with
      | nil => exact alone rfl
      | cons d text =>
        obtain ⟨rfl, _⟩ := List.cons.inj others
        exact dotted _ rfl

theorem anchored_anchor (text : List Char) : anchored (anchored text).1 = ((anchored text).1, []) := by
  fun_cases anchored text <;> rfl

theorem anchored_of_append (cut : anchored (text ++ '/' :: more) = (name, body ++ '/' :: more))
    (spells : text = name ++ body) : anchored text = (name, body) := by
  by_cases empty : text = []
  · subst empty
    obtain ⟨rfl, rfl⟩ := List.append_eq_nil_iff.mp spells.symm
    rfl
  · rw [anchored_append empty fun _ => rfl, Prod.mk.injEq] at cut
    exact Prod.ext cut.1 (List.append_cancel_right cut.2)

/-! ## Meanings of segments -/

/-- Whether a segment means nothing. -/
def idle (segment : List Char) : Bool := (component? segment).isNone

/-- What the segments of a text mean. -/
def meanings (text : List Char) : List Component := (segments text).filterMap component?

theorem components_eq (path : String) :
    components path = (anchor? (anchored path.toList).1).toList ++ meanings (anchored path.toList).2 := rfl

theorem components_ofList (text : List Char) : components (String.ofList text) =
    (anchor? (anchored text).1).toList ++ meanings (anchored text).2 := by
  rw [components_eq, String.toList_ofList]

theorem component?_cases (segment : List Char) : component? segment = none ∨
    component? segment = some .up ∨ ∃ name, component? segment = some (.name name) := by
  unfold component?
  split
  · exact .inl rfl
  · split
    · exact .inr (.inl rfl)
    · exact .inr (.inr ⟨_, rfl⟩)

theorem component?_eq_name (meant : component? segment = some (.name name)) : name = segment := by
  unfold component? at meant
  split at meant
  · cases meant
  · split at meant
    · cases meant
    · cases meant
      rfl

/-- Segments at the end that mean nothing can be left out. -/
theorem filterMap_rdropWhile (front : List (List Char)) :
    (front.rdropWhile idle).filterMap component? = front.filterMap component? := by
  induction front using List.reverseRecOn with
  | nil => rfl
  | append_singleton front segment ih =>
    rw [List.rdropWhile_concat, List.filterMap_append]
    by_cases nothing : idle segment = true
    · rw [if_pos nothing, ih, List.filterMap_cons_none (Option.isNone_iff_eq_none.mp nothing)]
      simp
    · rw [if_neg nothing, List.filterMap_append]

theorem meanings_joined (whole : ∀ segment ∈ front, '/' ∉ segment) :
    meanings (joined front) = front.filterMap component? := by
  by_cases empty : front = []
  · subst empty
    rfl
  · rw [meanings, segments_joined whole empty]

/-! ## The last component -/

theorem getLast?_components (named : fileName? path = some name) :
    (components path).getLast? = some (.name name) := by
  unfold fileName? at named
  split at named
  · rename_i last
    rw [last, Option.some.inj named]
  · cases named

/-- A path with a file name ends, but for segments that mean nothing, with the name. -/
theorem exists_front (named : fileName? path = some name) : ∃ front,
    (segments (anchored path.toList).2).rdropWhile idle = front ++ [name] ∧
      component? name = some (.name name) := by
  have last := getLast?_components named
  rw [components_eq, meanings, ← filterMap_rdropWhile] at last
  -- An anchor alone is no name, so a segment behind it means something.
  by_cases empty : (segments (anchored path.toList).2).rdropWhile idle = []
  · rw [empty] at last
    revert last
    fun_cases anchored path.toList <;> nofun
  · have ends := List.dropLast_append_getLast empty
    have busy := List.rdropWhile_last_not idle (segments (anchored path.toList).2) empty
    generalize ((segments (anchored path.toList).2).rdropWhile idle).getLast empty = segment at ends busy
    obtain ⟨component, meant⟩ : ∃ component, component? segment = some component := by
      rwa [idle, Option.isNone_iff_eq_none, ← ne_eq, Option.ne_none_iff_exists'] at busy
    rw [← ends, List.filterMap_append, List.filterMap_cons_some meant, List.filterMap_nil,
      ← List.append_assoc, List.getLast?_concat, Option.some.injEq] at last
    subst last
    obtain rfl := component?_eq_name meant
    exact ⟨_, ends.symm, meant⟩

/-- The components before the file name of a path. -/
theorem components_of_front (ends : (segments (anchored path.toList).2).rdropWhile idle = front ++ [name])
    (meant : component? name = some (.name name)) : components path =
      (anchor? (anchored path.toList).1).toList ++ front.filterMap component? ++ [.name name] := by
  rw [components_eq, meanings, ← filterMap_rdropWhile, ends, List.filterMap_append,
    List.filterMap_cons_some meant, List.filterMap_nil, List.append_assoc]

theorem parent?_of_front (ends : (segments (anchored path.toList).2).rdropWhile idle = front ++ [name]) :
    parent? path = some (String.ofList ((anchored path.toList).1 ++ joined (front.rdropWhile idle))) := by
  have reversed : (segments (anchored path.toList).2).reverse.dropWhile
      (fun segment => (component? segment).isNone) = name :: front.reverse := by
    rw [← List.reverse_reverse (List.dropWhile _ _)]
    change (List.rdropWhile idle _).reverse = _
    rw [ends, List.reverse_concat]
  unfold parent?
  dsimp only
  rw [reversed]
  rfl

/-- The file name of a path is its last component. -/
theorem components_of_fileName (named : fileName? path = some name) :
    components path = (components path).dropLast ++ [.name name] := by
  obtain ⟨front, ends, meant⟩ := exists_front named
  rw [components_of_front ends meant, List.dropLast_concat]

/-- The first segments of a path behind its anchor, with the anchor, are a path with that anchor. -/
theorem anchored_of_segments (cut : segments (anchored text).2 = front ++ back) (behind : back ≠ []) :
    anchored ((anchored text).1 ++ joined front) = ((anchored text).1, joined front) := by
  by_cases empty : front = []
  · subst empty
    rw [joined, List.intercalate_nil, List.append_nil, anchored_anchor]
  · have body : (anchored text).2 = joined front ++ '/' :: joined back := by
      rw [← joined_append empty behind, ← cut, joined_segments]
    have spells : (anchored text).1 ++ joined front ++ '/' :: joined back = text := by
      rw [List.append_assoc, ← body, anchored_spells]
    have whole : anchored ((anchored text).1 ++ joined front ++ '/' :: joined back) =
        ((anchored text).1, joined front ++ '/' :: joined back) := by
      rw [spells, ← body]
    exact anchored_of_append whole rfl

/-- The parent of a path has all its components but the last. -/
theorem components_parent (named : fileName? path = some name) :
    ∃ parent, parent? path = some parent ∧ components parent = (components path).dropLast := by
  obtain ⟨front, ends, meant⟩ := exists_front named
  obtain ⟨idles, cut⟩ := List.rdropWhile_prefix idle (l := segments (anchored path.toList).2)
  obtain ⟨others, kept⟩ := List.rdropWhile_prefix idle (l := front)
  rw [ends, ← kept, List.append_assoc, List.append_assoc] at cut
  have whole : ∀ segment ∈ front.rdropWhile idle, '/' ∉ segment := fun segment member =>
    whole_of_mem_segments (cut ▸ List.mem_append_left _ member)
  refine ⟨_, parent?_of_front ends, ?_⟩
  rw [components_ofList, anchored_of_segments cut.symm (by simp), meanings_joined whole, filterMap_rdropWhile,
    components_of_front ends meant, List.dropLast_concat]

/-! ## Joined paths -/

/-- Whether a text is the name of a file. -/
structure IsFileName (file : List Char) : Prop where
  whole : '/' ∉ file
  meant : component? file = some (.name file)

namespace IsFileName

theorem present (named : IsFileName file) : file ≠ [] := by
  rintro rfl
  cases named.meant

theorem meanings_eq (named : IsFileName file) : meanings file = [.name file] := by
  rw [meanings, segments_of_whole named.whole, List.filterMap_cons_some named.meant, List.filterMap_nil]

/-- A name is a path without an anchor. -/
theorem anchored_eq (named : IsFileName file) : anchored file = ([], file) := by
  refine anchored.eq_4 _ ?_ ?_ ?_
  · rintro body rfl
    exact named.whole List.mem_cons_self
  · rintro rfl
    cases named.meant
  · rintro body rfl
    exact named.whole (List.mem_cons_of_mem _ List.mem_cons_self)

end IsFileName

theorem meanings_slash (text : List Char) : meanings (text ++ ['/']) = meanings text := by
  simp [meanings, segments_append, segments, component?]

/-- A name behind the last slash of a text is one more segment. -/
theorem meanings_append (named : IsFileName file) (opens : text = [] ∨ text.getLast? = some '/') :
    meanings (text ++ file) = meanings text ++ [.name file] := by
  rcases opens with rfl | slash
  · exact named.meanings_eq
  · obtain ⟨text, rfl⟩ := List.getLast?_eq_some_iff.mp slash
    rw [meanings_slash, List.append_assoc, List.singleton_append, meanings, segments_append,
      List.filterMap_append]
    exact congrArg (meanings text ++ ·) named.meanings_eq

/-- A slash at the end of a path adds nothing to it. -/
theorem components_slash (present : text ≠ []) :
    components (String.ofList (text ++ ['/'])) = components (String.ofList text) := by
  rw [components_ofList, components_ofList, anchored_append present fun _ => rfl, meanings_slash]

theorem components_append (named : IsFileName file) (slash : text.getLast? = some '/') :
    components (String.ofList (text ++ file)) = components (String.ofList text) ++ [.name file] := by
  have present : text ≠ [] := by
    rintro rfl
    cases slash
  have dot : text = ['.'] → file.head? = some '/' := by
    rintro rfl
    cases slash
  have opens : (anchored text).2 = [] ∨ (anchored text).2.getLast? = some '/' := by
    by_cases empty : (anchored text).2 = []
    · exact .inl empty
    · rw [← anchored_spells text, List.getLast?_append_of_ne_nil _ empty] at slash
      exact .inr slash
  rw [components_ofList, components_ofList, anchored_append present dot, meanings_append named opens,
    List.append_assoc]

/-- A name joined to a path is one more component. -/
theorem components_join (directory : String) (named : IsFileName file) :
    components (join directory (String.ofList file)) = components directory ++ [.name file] := by
  obtain ⟨text, rfl⟩ : ∃ text, directory = String.ofList text := ⟨_, directory.ofList_toList.symm⟩
  have relative : isAbsolute (String.ofList file) = false := by
    rw [isAbsolute, String.toList_ofList, decide_eq_false_iff_not]
    exact fun rooted => named.whole (List.mem_of_head? rooted)
  unfold join
  rw [relative, if_neg Bool.false_ne_true, String.toList_ofList]
  split
  · rename_i empty
    rw [List.getLast?_eq_none_iff.mp empty, components_ofList, named.anchored_eq]
    exact named.meanings_eq
  · rename_i slash
    rw [← String.ofList_append, components_append named slash]
  · rename_i last other present
    have nonempty : text ≠ [] := by
      rintro rfl
      cases present
    rw [← components_slash nonempty, ← components_append named (by simp), String.ofList_append,
      String.ofList_append]

end OliCompiler.Path
