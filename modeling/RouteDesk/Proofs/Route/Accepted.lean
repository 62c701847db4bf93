import RouteDesk.Route.Name
import RouteDesk.Proofs.Inventory.Found

/-! Names that are accepted for new routes. The file of such a name is not there yet, and its name
is one that a path can have.
-/

namespace RouteDesk.RouteName

open FileTree (IsName)

variable {tree : FileTree} {root : Path} {dialect : Dialect} {name : String}

/-- A portable name is not empty, has no slash, and is neither of the dots. -/
theorem isName_of_isPortable (portable : isPortable name = true) : IsName (Bytes.ofText name) := by
  simp only [isPortable, Bool.and_eq_true, bne_iff_ne, Bool.not_eq_true',
    List.any_eq_false] at portable
  obtain ⟨⟨⟨⟨⟨given, -⟩, notDot⟩, notDots⟩, legal⟩, -⟩ := portable
  refine Inventory.isName_ofText given (fun slash => ?_) ⟨notDot, notDots⟩
  simpa [illegal] using legal '/' slash

theorem isPortable_of_check (accepted : check tree root dialect name = .ok ())
    : isPortable (dialect.fileName name) = true := by
  unfold check at accepted
  grind

theorem isName_of_check (accepted : check tree root dialect name = .ok ())
    : IsName (Bytes.ofText (dialect.fileName name)) :=
  isName_of_isPortable (isPortable_of_check accepted)

/-- An accepted name is not blank and has no extension. -/
theorem given_of_check (accepted : check tree root dialect name = .ok ())
    : Text.isAllBlank name = false ∧ (Path.ofText name).extension? = none := by
  rw [← Option.not_isSome_iff_eq_none]
  unfold check at accepted
  grind

/-- A name is refused as taken, whatever else is wrong with it, if its file is there; only blank
names and names with an extension are refused for those reasons first.
-/
theorem check_of_isPresent (given : Text.isAllBlank name = false)
    (whole : (Path.ofText name).extension? = none)
    (present : tree.isPresent (root.child (dialect.fileName name)) = true)
    : check tree root dialect name = .error (.taken (dialect.fileName name)) := by
  simp [check, given, whole, present]

end RouteDesk.RouteName
