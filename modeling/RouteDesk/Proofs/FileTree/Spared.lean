import RouteDesk.Proofs.FileTree.Sound

/-! What stays when directories are made on the way to a file: everything. The tree gains
directories where nothing was, so that every file and link is still there and still found by its
path; a write that fails has done nothing more.
-/

namespace RouteDesk.FileTree

/-- The second tree has everything that the first one has, and besides only directories. -/
structure Spares (tree next : FileTree) : Prop where
  home : next.home = tree.home
  entry (place : Place)
    : next.entry? place = tree.entry? place
      ∨ tree.entry? place = none ∧ next.entry? place = some .directory

namespace Spares

variable {tree next : FileTree}

theorem refl (tree : FileTree) : tree.Spares tree :=
  ⟨rfl, fun _ => .inl rfl⟩

theorem trans {last : FileTree} (first : tree.Spares next) (second : next.Spares last)
    : tree.Spares last := by
  refine ⟨second.home.trans first.home, fun place => ?_⟩
  rcases second.entry place with same | ⟨absent, made⟩
  · rw [same]
    exact first.entry place
  · rcases first.entry place with before | ⟨_, directory⟩
    · exact .inr ⟨before ▸ absent, made⟩
    · rw [directory] at absent
      cases absent

theorem entry_of_ne_none (spares : tree.Spares next) {place : Place}
    (present : tree.entry? place ≠ none)
    : next.entry? place = tree.entry? place :=
  (spares.entry place).resolve_right fun gained => present gained.1

theorem entry_of_eq_some (spares : tree.Spares next) {place : Place} {entry : Entry}
    (present : tree.entry? place = some entry)
    : next.entry? place = some entry := by
  rw [spares.entry_of_ne_none (by simp [present]), present]

/-- The regular files are the same, with the same contents. -/
theorem file_iff (spares : tree.Spares next) (place : Place) (content : Bytes)
    : next.entry? place = some (.file content) ↔ tree.entry? place = some (.file content) := by
  refine ⟨fun present => ?_, spares.entry_of_eq_some⟩
  rcases spares.entry place with same | ⟨_, made⟩
  · exact same ▸ present
  · rw [made] at present
    cases present

end Spares

-----------------------------------------------------------------------------------------
-- Walks in a tree with more directories
-----------------------------------------------------------------------------------------

section Walks

variable {tree next : FileTree} {follow : Bool} {reading : Path → List Step}

/-- A walk to something ends there again, by induction on the steps: it has only passed
directories and links.
-/
theorem walkWith_spared (spares : tree.Spares next)
    {jump again : Place → List Step → Except FileError Spot} {spot : Spot}
    (present : spot.entry ≠ none)
    (jumps : ∀ place steps, jump place steps = .ok spot → again place steps = .ok spot)
    {steps : List Step} {place : Place}
    (reached : walkWith tree follow reading jump place steps = .ok spot)
    : walkWith next follow reading again place steps = .ok spot := by
  induction steps generalizing place with
  | nil =>
      rw [walkWith] at reached ⊢
      obtain rfl := Except.ok.inj reached
      rw [spares.entry_of_ne_none present]
  | cons step rest ih =>
      obtain ⟨directory, strides⟩ := walkWith_cons_iff.mp reached
      refine walkWith_cons_iff.mpr ⟨spares.entry_of_eq_some directory, ?_⟩
      cases strides with
      | stays onward => exact .stays (ih onward)
      | climbs onward => exact .climbs (ih onward)
      | misses short absent last ends =>
          subst ends
          exact absurd rfl present
      | halts short link last ends =>
          exact .halts short (spares.entry_of_eq_some link) last ends
      | jumps short link goes given onward =>
          exact .jumps short (spares.entry_of_eq_some link) goes given (jumps _ _ onward)
      | enters short found notLink onward =>
          exact .enters short (spares.entry_of_eq_some found) notLink (ih onward)

/-- So does a whole walk, by induction on the links that it may follow. -/
theorem walk_spared (spares : tree.Spares next) {spot : Spot} (present : spot.entry ≠ none)
    {links : Nat} {place : Place} {steps : List Step}
    (reached : tree.walk follow reading links place steps = .ok spot)
    : next.walk follow reading links place steps = .ok spot := by
  induction links generalizing place steps with
  | zero =>
      rw [walk] at reached ⊢
      exact walkWith_spared spares present (fun _ _ jumped => by cases jumped) reached
  | succ links ih =>
      rw [walk] at reached ⊢
      exact walkWith_spared spares present (fun _ _ jumped => ih jumped) reached

theorem locateBy_spared (spares : tree.Spares next) {path : Path} {spot : Spot}
    (present : spot.entry ≠ none) (reached : tree.locateBy follow reading path = .ok spot)
    : next.locateBy follow reading path = .ok spot := by
  obtain ⟨noNul, given, short, walked⟩ := locateBy_eq_ok_iff.mp reached
  exact locateBy_eq_ok_iff.mpr
    ⟨noNul, given, short, spares.home.symm ▸ walk_spared spares present walked⟩

/-- What was read from a file before is read from it afterwards. -/
theorem Spares.read (spares : tree.Spares next) {path : Path} {content : Bytes}
    (held : tree.read path = .ok content)
    : next.read path = .ok content := by
  unfold FileTree.read at held ⊢
  split at held
  case h_1 => cases held
  case h_2 place found reached =>
    obtain rfl := Except.ok.inj held
    rw [show next.locate true path = _ from locateBy_spared spares (by simp) reached]
  case h_3 => cases held
  case h_4 => cases held

/-- What a walk finds at its end is what the tree holds there. -/
theorem entry_of_walkWith {jump : Place → List Step → Except FileError Spot}
    (jumps : ∀ place steps spot, jump place steps = .ok spot →
      spot.entry = tree.entry? spot.place)
    {steps : List Step} {place : Place} {spot : Spot}
    (reached : walkWith tree follow reading jump place steps = .ok spot)
    : spot.entry = tree.entry? spot.place := by
  induction steps generalizing place with
  | nil =>
      obtain rfl := Except.ok.inj reached
      rfl
  | cons step rest ih =>
      cases (walkWith_cons_iff.mp reached).2 with
      | stays onward => exact ih onward
      | climbs onward => exact ih onward
      | misses short absent last ends => exact ends ▸ absent.symm
      | halts short link last ends => exact ends ▸ link.symm
      | jumps short link goes given onward => exact jumps _ _ _ onward
      | enters short found notLink onward => exact ih onward

theorem entry_of_walk {links : Nat} {place : Place} {steps : List Step} {spot : Spot}
    (reached : tree.walk follow reading links place steps = .ok spot)
    : spot.entry = tree.entry? spot.place := by
  induction links generalizing place steps spot with
  | zero =>
      rw [walk] at reached
      exact entry_of_walkWith (fun _ _ _ jumped => by cases jumped) reached
  | succ links ih =>
      rw [walk] at reached
      exact entry_of_walkWith (fun _ _ _ jumped => ih jumped) reached

theorem entry_of_locateBy {path : Path} {spot : Spot}
    (reached : tree.locateBy follow reading path = .ok spot)
    : spot.entry = tree.entry? spot.place :=
  entry_of_walk (locateBy_eq_ok_iff.mp reached).2.2.2

end Walks

-----------------------------------------------------------------------------------------
-- Making directories
-----------------------------------------------------------------------------------------

section Making

variable {tree next : FileTree}

/-- A directory is only made where nothing is. -/
theorem spares_of_makeDirectory {path : Path} (made : tree.makeDirectory path = .ok next)
    : tree.Spares next := by
  unfold makeDirectory at made
  split at made
  case h_1 => cases made
  case h_2 => cases made
  case h_3 spot reached =>
    obtain rfl := Except.ok.inj made
    have absent : none = tree.entry? spot := entry_of_locateBy reached
    have below : spot ≠ [] := by
      rintro rfl
      rw [entry?_nil] at absent
      cases absent
    refine ⟨rfl, fun place => ?_⟩
    by_cases same : place = spot
    · subst same
      exact .inr ⟨absent.symm, entry?_put_self below tree _⟩
    · exact .inl (entry?_put_of_ne same tree _)

theorem spares_makeInOrder (tree : FileTree) (paths : List Path)
    : tree.Spares (tree.makeInOrder paths).1 := by
  induction paths generalizing tree with
  | nil => exact .refl tree
  | cons path rest ih =>
      unfold makeInOrder
      split
      case h_1 next made => exact (spares_of_makeDirectory made).trans (ih next)
      case h_2 =>
        split
        case isTrue => exact ih tree
        case isFalse => exact .refl tree
      case h_3 => exact .refl tree

theorem spares_makeFrom (tree : FileTree) (later paths : List Path)
    : tree.Spares (tree.makeFrom later paths).1 := by
  induction paths generalizing later with
  | nil => exact spares_makeInOrder tree later
  | cons path parents ih =>
      unfold makeFrom
      split
      case isTrue => exact spares_makeInOrder tree later
      case isFalse =>
        split
        case h_1 next made =>
          exact (spares_of_makeDirectory made).trans (spares_makeInOrder next later)
        case h_2 => exact ih (path :: later)
        case h_3 =>
          split
          case isTrue => exact spares_makeInOrder tree later
          case isFalse => exact .refl tree
        case h_4 => exact .refl tree

/-- Whether all of them can be made or not, making directories keeps everything. -/
theorem spares_makeDirectories (tree : FileTree) (path : Path)
    : tree.Spares (tree.makeDirectories path).1 :=
  spares_makeFrom tree [] path.ancestors

theorem spares_withParents (tree : FileTree) (path : Path)
    : tree.Spares (match path.parent? with
        | some parent => tree.makeDirectories parent
        | none => (tree, .ok ())).1 := by
  split
  case h_1 parent _ => exact spares_makeDirectories tree parent
  case h_2 => exact .refl tree

/-- A write that fails has made no more than directories. -/
theorem spares_of_writeWithParents {path : Path} {content : Bytes} {reason : FileError}
    (failed : (tree.writeWithParents path content).2 = .error reason)
    : tree.Spares (tree.writeWithParents path content).1 := by
  have made := spares_withParents tree path
  unfold writeWithParents at failed ⊢
  dsimp only at failed ⊢
  split
  case h_1 => exact made
  case h_2 allowed =>
    rw [allowed] at failed
    dsimp only at failed
    split
    case h_1 next written =>
      rw [written] at failed
      cases failed
    case h_2 => exact made

end Making

end RouteDesk.FileTree
