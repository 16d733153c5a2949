import OliCompiler.Proofs.Commands
import OliCompiler.Proofs.Files.Locations
import OliCompiler.Proofs.Paths.Outputs

/-!
Compiled files beside their sources. The path of the compiled file has the parent and the stem of the
source and an extension of its own, so paths of different sources never give the same path, and no build
touches the compiled file of another source.
-/

namespace OliCompiler.Path

variable {path other : String} {tree tree' : FileTree} {place place' output : Location}

/-- Whether the compiled file of a source file stands beside it, under its stem and another extension.
Paths are compared by their components. -/
structure Beside (path : String) : Prop where
  apart : components (Path.output path none) ≠ components path
  parent : (parent? (Path.output path none)).map components = (parent? path).map components
  stem : stem? (Path.output path none) = stem? path
  extension : extension? (Path.output path none) = some outputExtension

/-- The path of a source file is its stem with an extension behind some components, and that of its
compiled file the same stem with another extension behind the same components. -/
theorem exists_stem (source : isSource path = true) : ∃ above stem, stem ≠ [] ∧
    fileName? path = some (stem ++ '.' :: sourceExtension.toList) ∧
    components path = above ++ [.name (stem ++ '.' :: sourceExtension.toList)] ∧
    components (Path.output path none) = above ++ [.name (stem ++ '.' :: outputExtension.toList)] := by
  have ends : extension? path = some sourceExtension := of_decide_eq_true source
  obtain ⟨name, named, extended⟩ := Option.bind_eq_some_iff.mp ends
  rcases splitName_cases name with plain | ⟨stem, extension, present, _, rfl, parts⟩
  · rw [plain] at extended
    cases extended
  · rw [parts, Option.map_some, Option.some.injEq] at extended
    have spelled : extension = sourceExtension.toList := by rw [← extended, String.toList_ofList]
    subst spelled
    have outputs := components_output_none named
    rw [outputName, parts] at outputs
    exact ⟨_, stem, present, named, components_of_fileName named, outputs⟩

theorem beside (source : isSource path = true) : Beside path := by
  obtain ⟨above, stem, present, named, same, same'⟩ := exists_stem source
  have named' : fileName? (Path.output path none) = some (stem ++ '.' :: outputExtension.toList) := by
    rw [fileName?, same', List.getLast?_concat]
  obtain ⟨parent, above?, front⟩ := components_parent named
  obtain ⟨parent', above?', front'⟩ := components_parent named'
  have split := splitName_dotted present (by decide : '.' ∉ sourceExtension.toList)
  have split' := splitName_dotted present (by decide : '.' ∉ outputExtension.toList)
  refine ⟨?_, ?_, ?_, ?_⟩
  · rw [same, same']
    intro equal
    obtain ⟨names, _⟩ := List.cons.inj (List.append_cancel_left equal)
    have extensions := List.append_cancel_left (Component.name.inj names)
    exact absurd extensions (by decide)
  · rw [above?, above?', Option.map_some, Option.map_some, front, front', same, same', List.dropLast_concat,
      List.dropLast_concat]
  · rw [stem?, stem?, named, named', Option.map_some, Option.map_some, split, split']
  · rw [extension?, named', Option.bind_some, split']
    rfl

/-- Two sources whose compiled files have the same components have the same components. -/
theorem components_output_inj (source : isSource path = true) (source' : isSource other = true) :
    components (Path.output path none) = components (Path.output other none) ↔
      components path = components other := by
  obtain ⟨above, stem, _, _, same, beside⟩ := exists_stem source
  obtain ⟨above', stem', _, _, same', beside'⟩ := exists_stem source'
  rw [same, same', beside, beside']
  simp

/-! ## Builds in place -/

open Command FileTree

/-- Sources at different places have their compiled files at different places. -/
theorem outputs_apart (source : isSource path = true) (source' : isSource other = true)
    (located : tree.locate path = some place) (located' : tree.locate other = some place')
    (apart : place' ≠ place) (leads : tree'.locate (Path.output path none) = some output)
    (unmoved : tree'.current = tree.current) :
    tree'.locate (Path.output other none) ≠ some output := by
  obtain ⟨above, stem, _, _, same, beside⟩ := exists_stem source
  obtain ⟨above', stem', _, _, same', beside'⟩ := exists_stem source'
  intro leads'
  have equal := (locate_eq_append beside leads).symm.trans (locate_eq_append beside' leads')
  obtain ⟨front, names⟩ : above.foldl follow tree'.current = above'.foldl follow tree'.current ∧
      stem = stem' := by simpa using equal
  refine apart ?_
  rw [locate_eq_append same located, locate_eq_append same' located', ← unmoved, front, names]

variable {reading : Reading}

/-- Whether arguments ask to build a file at another place than the given one, and beside that file. -/
def BuildsElsewhere (reading : Reading) (tree : FileTree) (place : Location) (args : List String) : Prop :=
  ∃ input options place', reading args = .ok (.build input none options) ∧
    tree.locate input = some place' ∧ place' ≠ place

/-- The files that commands leave, one after the other. -/
def leftBy (reading : Reading) (tree : FileTree) (commands : List (List String)) : FileTree :=
  commands.foldl (fun tree args => (outcome reading tree args).2) tree

/-- A build changes nothing, or it comes to write the compiled file of a source. -/
theorem build_files {args : List String} {input : String} {directory : Option String} {options : BuildOptions}
    (asked : reading args = .ok (.build input directory options)) (tree : FileTree) :
    (outcome reading tree args).2 = tree ∨ isSource input = true ∧
      ∃ text, (outcome reading tree args).2 = (tree.writeText (Path.output input directory) text).2 := by
  rw [(build_follows input directory options).files asked, building_run]
  cases compiled : sourceOf tree input >>= compile with
  | error error => exact .inl rfl
  | ok compilation =>
    obtain ⟨source, loads, _⟩ := compiles_iff.mpr compiled
    exact .inr ⟨loads.1, _, writingOf_snd _ _ _⟩

variable {bytes : List UInt8} {args : List String} {commands : List (List String)}

/-- A path leads to the same place behind a build. -/
theorem BuildsElsewhere.locate (builds : BuildsElsewhere reading tree place args)
    (located : tree.locate path = some place') :
    (outcome reading tree args).2.locate path = some place' := by
  obtain ⟨input, options, _, asked, _, _⟩ := builds
  rcases build_files asked tree with same | ⟨_, _, same⟩
  · rwa [same]
  · rw [same]
    exact locate_writeText located

/-- A build of another source leaves a compiled file as it is, whether or not it succeeds. -/
theorem BuildsElsewhere.keeps (builds : BuildsElsewhere reading tree place args)
    (source : isSource path = true) (located : tree.locate path = some place)
    (held : tree.read (Path.output path none) = some bytes) :
    (outcome reading tree args).2.read (Path.output path none) = some bytes := by
  obtain ⟨input, options, place', asked, located', apart⟩ := builds
  rcases build_files asked tree with same | ⟨source', text, same⟩
  · rwa [same]
  · rw [same]
    refine read_writeText held fun meet => ?_
    obtain ⟨output, leads, _⟩ := read_eq_some.mp held
    have leads : (tree.writeText (Path.output input none) text).2.locate (Path.output path none) = some output :=
      locate_writeText leads
    exact outputs_apart source source' located located' apart leads writeText_current (meet.symm.trans leads)

/-- However many other sources are built, a compiled file stays as it is. -/
theorem leftBy_keeps (source : isSource path = true) (located : tree.locate path = some place)
    (elsewhere : ∀ args ∈ commands, BuildsElsewhere reading tree place args)
    (held : tree.read (Path.output path none) = some bytes) :
    (leftBy reading tree commands).read (Path.output path none) = some bytes := by
  induction commands generalizing tree with
  | nil => exact held
  | cons args commands ih =>
    have first := elsewhere args List.mem_cons_self
    -- The builds that follow are still elsewhere, since the first one moves no path.
    refine ih (first.locate located) (fun later member => ?_) (first.keeps source located held)
    obtain ⟨input, options, place', asked, located', apart⟩ :=
      elsewhere later (List.mem_cons_of_mem _ member)
    exact ⟨input, options, place', asked, first.locate located', apart⟩

/-- The compiled file of a source stands beside it under its stem; two paths of sources give the same path
only if they are the same; and no builds in place of sources elsewhere change the compiled file, by whatever
reading of arguments they are asked for. -/
theorem output_distinct (source : isSource path = true) (source' : isSource other = true) :
    Beside path ∧
    (components (Path.output path none) = components (Path.output other none) ↔
      components path = components other) ∧
    ∀ reading tree place bytes commands, tree.locate path = some place →
      (∀ args ∈ commands, BuildsElsewhere reading tree place args) →
      tree.read (Path.output path none) = some bytes →
      (leftBy reading tree commands).read (Path.output path none) = some bytes :=
  ⟨beside source, components_output_inj source source', fun _ _ _ _ _ => leftBy_keeps source⟩

/-- Two sources in one directory, written in two ways, one of them with a dot in its stem. -/
theorem output_distinct_dotted : isSource "src/./prog.v2.oli" = true ∧ isSource "src//prog.oli/" = true ∧
    Path.output "src/./prog.v2.oli" none = "src/prog.v2.ll" ∧
    components (Path.output "src/./prog.v2.oli" none) ≠ components (Path.output "src//prog.oli/" none) := by
  have source : isSource "src/./prog.v2.oli" = true := by decide +kernel
  have source' : isSource "src//prog.oli/" = true := by decide +kernel
  refine ⟨source, source', by decide +kernel, fun same => ?_⟩
  exact absurd ((output_distinct source source').2.1.mp same) (by decide +kernel)

end OliCompiler.Path
