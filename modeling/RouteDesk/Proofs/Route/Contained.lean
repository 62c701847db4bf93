import RouteDesk.Toolbox
import RouteDesk.Proofs.Route.Rules

/-! Where the file of an accepted name is: directly in the workspace, whatever its root. The whole
name is the last component of the path, so that the generator, the workspace and the editor mean
the same file by it.
-/

namespace RouteDesk

open FileTree (IsName)

namespace Dialect

/-- No suffix is a part of another one's end. -/
theorem eq_of_suffixes {first second : Dialect}
    (same : first.suffix.toList.reverse.take 4 = second.suffix.toList.reverse.take 4)
    : first = second := by
  revert same
  cases first <;> cases second <;> decide

/-- File names tell their dialects and names: no two names share one, in whatever dialects. -/
theorem fileName_inj {first second : Dialect} {name other : String}
    : first.fileName name = second.fileName other ↔ first = second ∧ name = other := by
  refine ⟨fun same => ?_, fun ⟨dialects, names⟩ => by rw [dialects, names]⟩
  have chars := congrArg String.toList same
  simp only [fileName, String.toList_append] at chars
  have ends (dialect : Dialect) (front : List Char)
      : (front ++ dialect.suffix.toList).reverse.take 4 = dialect.suffix.toList.reverse.take 4 := by
    rw [List.reverse_append, List.take_append_of_le_length]
    cases dialect <;> decide
  obtain rfl : first = second := by
    refine eq_of_suffixes ?_
    rw [← ends first name.toList, chars, ends]
  exact ⟨rfl, String.toList_inj.mp (List.append_cancel_right chars)⟩

end Dialect

/-- A text without NUL is one more argument that a program can be started with or without. -/
theorem Toolbox.start_argument (toolbox : Toolbox) (tree : FileTree) (launch : Launch)
    {argument : Bytes} (clean : 0 ∉ argument)
    : toolbox.start tree { launch with arguments := launch.arguments ++ [argument] }
      = toolbox.start tree launch := by
  simp [start, clean]

namespace Artifact

/-- The file of the artifact is directly in the root, its name is the artifact's name and the suffix
of its dialect, and whoever is given that name finds the two in it again.
-/
structure Contained (root : Path) (artifact : Artifact) : Prop where
  components : artifact.path.components
    = root.components ++ [.name (Bytes.ofText artifact.fileName)]
  parent : ∃ parent, artifact.path.parent? = some parent ∧ parent.agrees root = true
  last : artifact.path.fileName? = some (Bytes.ofText artifact.fileName)
  suffixed : artifact.fileName = artifact.name ++ artifact.dialect.suffix
  stem : String.ofList (artifact.fileName.toList.take
    (artifact.fileName.length - artifact.dialect.suffix.length)) = artifact.name
  own : ∀ (dialect : Dialect) (name : String),
    dialect.fileName name = artifact.fileName → dialect = artifact.dialect ∧ name = artifact.name
  short : (Bytes.ofText artifact.fileName).length ≤ 255
  clean : 0 ∉ Bytes.ofText artifact.fileName
  argument : ∀ (toolbox : Toolbox) (tree : FileTree) (launch : Launch),
    toolbox.start tree
        { launch with arguments := launch.arguments ++ [Bytes.ofText artifact.fileName] }
      = toolbox.start tree launch
  shown : ∀ document : Path, document.endsWith (Path.ofText artifact.fileName) = true
    ↔ document.fileName? = some (Bytes.ofText artifact.fileName)

end Artifact

namespace RouteName

variable {tree : FileTree} {root : Path} {dialect : Dialect} {name : String}

/-- A portable name has no NUL and no more than 255 bytes. -/
theorem clean_of_isPortable (portable : isPortable name = true)
    : (Bytes.ofText name).length ≤ 255 ∧ 0 ∉ Bytes.ofText name := by
  obtain ⟨-, short, -, allowed, -⟩ := isPortable_iff.mp portable
  refine ⟨short, fun inside => ?_⟩
  rw [← String.ofList_toList (s := name)] at inside
  have among := (Bytes.mem_ofText_iff (by decide : '\x00'.toNat < 0x80)).mp inside
  exact (allowed '\x00' among).2.1 (by decide)

/-- The file of an accepted name does not leave the workspace. -/
theorem contained_of_check (accepted : check tree root dialect name = .ok ())
    : (Artifact.of root dialect name).Contained root := by
  have proper := isName_of_check accepted
  have read : (root.child (dialect.fileName name)).components
      = root.components ++ [.name (Bytes.ofText (dialect.fileName name))] :=
    FileTree.components_child root proper
  obtain ⟨parent, front⟩ := Path.parent?_of_components read
  obtain ⟨short, clean⟩ := clean_of_isPortable (isPortable_of_check accepted)
  exact {
    components := read
    parent := ⟨_, parent, beq_iff_eq.mpr front⟩
    last := Path.fileName?_of_components read
    suffixed := rfl
    stem := by
      simp [Artifact.of, Dialect.fileName, ← String.length_toList]
    own := fun _ _ same => Dialect.fileName_inj.mp same
    short := short
    clean := clean
    argument := fun toolbox tree launch => toolbox.start_argument tree launch clean
    shown := fun _ => Path.endsWith_ofText_iff proper }

/-- A name with an inner bracket and blanks is accepted in a relative root, and stays in it. -/
theorem contained_of_check_relative
    : check ⟨[], []⟩ (Path.ofText "./desk//") .yaml "a [b]" = .ok ()
      ∧ (Artifact.of (Path.ofText "./desk//") .yaml "a [b]").Contained (Path.ofText "./desk//") :=
  have accepted : check ⟨[], []⟩ (Path.ofText "./desk//") .yaml "a [b]" = .ok () := by decide
  ⟨accepted, contained_of_check accepted⟩

end RouteName

end RouteDesk
