import RouteDesk.Proofs.FileTree.Durable
import Mathlib.Tactic

/-! Trees in which everything stands in a directory. An empty tree is one, and every change
keeps it so, whether it succeeds or stops half way.
-/

namespace RouteDesk

section Lookups

variable {α β : Type} [BEq α] [LawfulBEq α]

theorem lookup_cons_of_ne {key other : α} (different : other ≠ key) (value : β)
    (entries : List (α × β))
    : List.lookup other ((key, value) :: entries) = entries.lookup other := by
  rw [List.lookup_cons, beq_eq_false_iff_ne.mpr different]

/-- A filter on keys keeps the entries of those that it keeps, by induction on the entries. -/
theorem lookup_filter (keep : α → Bool) (entries : List (α × β)) (key : α)
    : (entries.filter fun item => keep item.1).lookup key
      = if keep key then entries.lookup key else none := by
  induction entries with
  | nil => simp
  | cons item rest ih =>
      obtain ⟨first, value⟩ := item
      by_cases same : key = first
      · subst same
        by_cases kept : keep key = true
        · simp [kept]
        · simp [kept, ih]
      · by_cases kept : keep first = true
        · simp [kept, lookup_cons_of_ne same, ih]
        · simp [kept, lookup_cons_of_ne same, ih]

end Lookups

end RouteDesk

namespace RouteDesk.FileTree

/-- Whatever stands under a name stands in a directory. -/
def Sound (tree : FileTree) : Prop :=
  ∀ place name, tree.entry? (place ++ [name]) ≠ none → tree.entry? place = some .directory

@[simp] theorem entry?_nil (tree : FileTree) : tree.entry? [] = some .directory :=
  rfl

theorem entry?_of_ne {place : Place} (below : place ≠ []) (tree : FileTree)
    : tree.entry? place = tree.entries.lookup place :=
  if_neg below

theorem Sound.empty (home : Place)
    : Sound { home } := by
  intro place name present
  simp [entry?_of_ne] at present

-----------------------------------------------------------------------------------------
-- Entries of changed trees
-----------------------------------------------------------------------------------------

theorem entry?_put_self {place : Place} (below : place ≠ []) (tree : FileTree) (entry : Entry)
    : entry? (tree.put place entry) place = some entry := by
  simp [entry?_of_ne below, put]

/-- Other places keep what they hold. -/
theorem entry?_put_of_ne {place other : Place} (different : other ≠ place) (tree : FileTree)
    (entry : Entry)
    : entry? (tree.put place entry) other = tree.entry? other := by
  by_cases top : other = []
  · simp [top]
  · rw [entry?_of_ne top, entry?_of_ne top, put, lookup_cons_of_ne different,
      lookup_filter (· != place)]
    simp [different]

/-- A cut removes what is at and below a place. -/
theorem entry?_cut {place other : Place} (below : other ≠ []) (tree : FileTree)
    : entry? (tree.cut place) other
      = if place.isPrefixOf other then none else tree.entry? other := by
  rw [entry?_of_ne below, entry?_of_ne below, cut, lookup_filter (!place.isPrefixOf ·)]
  cases place.isPrefixOf other <;> rfl

/-- Where an entry goes when one place is moved to another; nothing if it stays. -/
def moved (source target : Place) (item : Place × Entry) : Option (Place × Entry) :=
  if source.isPrefixOf item.1 then some (target ++ item.1.drop source.length, item.2) else none

theorem entries_graft (tree : FileTree) (source target : Place)
    : (tree.graft source target).entries
      = tree.entries.filterMap (moved source target)
        ++ ((tree.cut source).cut target).entries := rfl

theorem moved_append (source target tail : Place) (entry : Entry)
    : moved source target (source ++ tail, entry) = some (target ++ tail, entry) := by
  simp [moved]

theorem moved_of_apart {source : Place} {item : Place × Entry}
    (apart : ¬ source <+: item.1) (target : Place)
    : moved source target item = none := by
  simp [moved, apart]

/-- What was moved is found at its new place, by induction on the entries. -/
theorem lookup_moved (source target tail : Place) (entries : List (Place × Entry))
    : (entries.filterMap (moved source target)).lookup (target ++ tail)
      = entries.lookup (source ++ tail) := by
  induction entries with
  | nil => rfl
  | cons item rest ih =>
      obtain ⟨key, entry⟩ := item
      by_cases under : source <+: key
      · obtain ⟨back, rfl⟩ := under
        rw [List.filterMap_cons, moved_append]
        by_cases same : tail = back
        · subst same
          simp
        · rw [lookup_cons_of_ne (by simpa using same), lookup_cons_of_ne (by simpa using same), ih]
      · have different : source ++ tail ≠ key := fun same => under (same ▸ List.prefix_append _ _)
        rw [lookup_cons_of_ne different, List.filterMap_cons, moved_of_apart under, ih]

theorem lookup_moved_of_apart {target place : Place} (apart : ¬ target <+: place)
    (source : Place) (entries : List (Place × Entry))
    : (entries.filterMap (moved source target)).lookup place = none := by
  induction entries with
  | nil => rfl
  | cons item rest ih =>
      obtain ⟨key, entry⟩ := item
      by_cases under : source <+: key
      · obtain ⟨back, rfl⟩ := under
        have different : place ≠ target ++ back := fun same => apart (same ▸ List.prefix_append _ _)
        rw [List.filterMap_cons, moved_append, lookup_cons_of_ne different, ih]
      · rw [List.filterMap_cons, moved_of_apart under, ih]

/-- Below the new place stands what stood below the old one. -/
theorem entry?_graft_append {source target tail : Place} (moves : source ≠ [])
    (below : target ++ tail ≠ []) (tree : FileTree)
    : entry? (tree.graft source target) (target ++ tail) = tree.entry? (source ++ tail) := by
  have emptied : ((tree.cut source).cut target).entries.lookup (target ++ tail) = none := by
    rw [← entry?_of_ne below, entry?_cut below, if_pos (by simp)]
  rw [entry?_of_ne below, entry?_of_ne (by simp [moves]), entries_graft, List.lookup_append,
    lookup_moved, emptied, Option.or_none]

/-- Elsewhere everything stays, unless it was moved away. -/
theorem entry?_graft_of_apart {target place : Place} (below : place ≠ [])
    (apart : ¬ target <+: place) (tree : FileTree) (source : Place)
    : entry? (tree.graft source target) place
      = if source.isPrefixOf place then none else tree.entry? place := by
  have kept : ((tree.cut source).cut target).entries.lookup place
      = if source.isPrefixOf place then none else tree.entry? place := by
    rw [← entry?_of_ne below, entry?_cut below, if_neg (by simpa using apart), entry?_cut below]
  rw [entry?_of_ne below, entries_graft, List.lookup_append, lookup_moved_of_apart apart,
    kept]
  rfl

-----------------------------------------------------------------------------------------
-- Changes at one place
-----------------------------------------------------------------------------------------

/-- A place whose parent is a directory. -/
def Founded (tree : FileTree) (place : Place) : Prop :=
  ∃ parent name, place = parent ++ [name] ∧ tree.entry? parent = some .directory

namespace Sound

variable {tree : FileTree}

/-- An entry that is no directory can be replaced, and a missing one added in a directory. -/
theorem put (sound : tree.Sound) {place : Place} (founded : tree.Founded place)
    (replaced : tree.entry? place ≠ some .directory) (entry : Entry)
    : (tree.put place entry).Sound := by
  intro above name present
  have hold : tree.entry? above = some .directory := by
    by_cases same : above ++ [name] = place
    · obtain ⟨parent, last, split, directory⟩ := founded
      obtain ⟨rfl, -⟩ := List.append_inj' (same.trans split) rfl
      exact directory
    · rw [entry?_put_of_ne same] at present
      exact sound above name present
  have different : above ≠ place := by
    rintro rfl
    exact replaced hold
  rw [entry?_put_of_ne different, hold]

theorem cut (sound : tree.Sound) (place : Place)
    : (tree.cut place).Sound := by
  intro above name present
  by_cases top : above = []
  · simp [top]
  · rw [entry?_cut (by simp)] at present
    split at present
    case isTrue => exact absurd rfl present
    case isFalse apart =>
      have higher : ¬ place.isPrefixOf above := by
        intro under
        rw [List.isPrefixOf_iff_prefix] at under apart
        exact apart (under.trans (List.prefix_append _ _))
      rw [entry?_cut top, if_neg higher]
      exact sound above name present

/-- Moving a place into another directory leaves everything in a directory, provided that it
is not moved below itself.
-/
theorem graft (sound : tree.Sound) {source target : Place} (founded : tree.Founded target)
    (apart : ¬ source <+: target)
    : (tree.graft source target).Sound := by
  intro above name present
  by_cases top : above = []
  · simp [top]
  have moves : source ≠ [] := by
    rintro rfl
    exact apart List.nil_prefix
  by_cases inside : target <+: above
  · obtain ⟨tail, rfl⟩ := inside
    rw [List.append_assoc, entry?_graft_append moves (by simp), ← List.append_assoc] at present
    rw [entry?_graft_append moves top]
    exact sound _ _ present
  · have stays : ¬ source <+: above ∧ tree.entry? above = some .directory := by
      by_cases reached : target <+: above ++ [name]
      · obtain ⟨parent, last, rfl, directory⟩ := founded
        rcases List.prefix_concat_iff.mp reached with same | under
        · obtain ⟨rfl, -⟩ := List.append_inj' same rfl
          exact ⟨fun under => apart (under.trans (List.prefix_append _ _)), directory⟩
        · exact absurd under inside
      · rw [entry?_graft_of_apart (by simp) reached] at present
        split at present
        case isTrue => exact absurd rfl present
        case isFalse outside =>
          refine ⟨fun under => outside ?_, sound above name present⟩
          exact List.isPrefixOf_iff_prefix.mpr (under.trans (List.prefix_append _ _))
    rw [entry?_graft_of_apart top inside, if_neg (by simpa using stays.1)]
    exact stays.2

end Sound

-----------------------------------------------------------------------------------------
-- Steps of walks
-----------------------------------------------------------------------------------------

/-- How a walk that ends at a spot takes the step ahead of the others. -/
inductive Strides (tree : FileTree) (follow : Bool) (reading : Path → List Step)
    (jump : Place → List Step → Except FileError Spot) (place : Place) (rest : List Step)
    (spot : Spot)
    : Step → Prop
  /-- It stays where it is. -/
  | stays (reached : walkWith tree follow reading jump place rest = .ok spot)
    : Strides tree follow reading jump place rest spot .stay
  /-- It goes up. -/
  | climbs (reached : walkWith tree follow reading jump place.dropLast rest = .ok spot)
    : Strides tree follow reading jump place rest spot .up
  /-- It ends where there is nothing. -/
  | misses {name : Bytes} (short : ¬ nameLimit < name.length)
    (absent : tree.entry? (place ++ [name]) = none) (last : rest = [])
    (ends : spot = ⟨place ++ [name], none⟩)
    : Strides tree follow reading jump place rest spot (.into name)
  /-- It ends at a link. -/
  | halts {name : Bytes} {target : Path} (short : ¬ nameLimit < name.length)
    (link : tree.entry? (place ++ [name]) = some (.link target))
    (last : rest = [] ∧ follow = false) (ends : spot = ⟨place ++ [name], some (.link target)⟩)
    : Strides tree follow reading jump place rest spot (.into name)
  /-- It follows a link. -/
  | jumps {name : Bytes} {target : Path} (short : ¬ nameLimit < name.length)
    (link : tree.entry? (place ++ [name]) = some (.link target))
    (goes : ¬ (rest = [] ∧ follow = false)) (given : target.bytes ≠ [])
    (reached : jump (if target.isAbsolute then [] else place)
      (if rest = [] then reading target else target.steps ++ rest) = .ok spot)
    : Strides tree follow reading jump place rest spot (.into name)
  /-- It goes on at a directory or a file. -/
  | enters {name : Bytes} {entry : Entry} (short : ¬ nameLimit < name.length)
    (found : tree.entry? (place ++ [name]) = some entry)
    (notLink : ∀ target, entry ≠ .link target)
    (reached : walkWith tree follow reading jump (place ++ [name]) rest = .ok spot)
    : Strides tree follow reading jump place rest spot (.into name)

theorem walkWith_cons_iff {tree : FileTree} {follow : Bool} {reading : Path → List Step}
    {jump : Place → List Step → Except FileError Spot} {place : Place} {step : Step}
    {rest : List Step} {spot : Spot}
    : walkWith tree follow reading jump place (step :: rest) = .ok spot
      ↔ tree.entry? place = some .directory
        ∧ Strides tree follow reading jump place rest spot step := by
  constructor
  · intro reached
    unfold walkWith at reached
    split at reached
    case h_1 directory => exact ⟨directory, .stays reached⟩
    case h_2 directory => exact ⟨directory, .climbs reached⟩
    case h_3 => cases reached
    case h_4 name directory =>
      refine ⟨directory, ?_⟩
      dsimp only at reached
      split at reached
      case isTrue => cases reached
      case isFalse short =>
        split at reached
        case h_1 absent =>
          split at reached
          case isTrue last => exact .misses short absent last (Except.ok.inj reached).symm
          case isFalse => cases reached
        case h_2 target link =>
          split at reached
          case isTrue last => exact .halts short link last (Except.ok.inj reached).symm
          case isFalse goes =>
            split at reached
            case isTrue => cases reached
            case isFalse given => exact .jumps short link goes given reached
        case h_3 entry notLink found =>
          exact .enters short found (fun target same => notLink target same) reached
    case h_5 => cases reached
    case h_6 => cases reached
  · rintro ⟨directory, strides⟩
    unfold walkWith
    rw [directory]
    cases strides with
    | stays reached => exact reached
    | climbs reached => exact reached
    | misses short absent last ends => simp [short, absent, last, ends]
    | halts short link last ends => simp [short, link, last, ends]
    | jumps short link goes given reached =>
        dsimp only
        rw [if_neg short, link]
        dsimp only
        rw [if_neg goes, if_neg given, reached]
    | @enters name entry short found notLink reached =>
        dsimp only
        rw [if_neg short, found]
        cases entry with
        | link target => exact absurd rfl (notLink target)
        | _ => exact reached

/-- A path leads to a spot if it is one that the system takes, and the walk of its steps from
the top or from home ends there.
-/
theorem locateBy_eq_ok_iff {tree : FileTree} {follow : Bool} {reading : Path → List Step}
    {path : Path} {spot : Spot}
    : tree.locateBy follow reading path = .ok spot
      ↔ path.bytes.contains 0 = false ∧ path.bytes ≠ [] ∧ path.bytes.length ≤ pathLimit
        ∧ tree.walk follow reading linkLimit (if path.isAbsolute then [] else tree.home)
            (reading path) = .ok spot := by
  unfold locateBy
  split
  case isTrue nul => exact iff_of_false nofun fun reached => by cases nul.symm.trans reached.1
  case isFalse noNul =>
    split
    case isTrue none' => exact iff_of_false nofun fun reached => reached.2.1 none'
    case isFalse given =>
      split
      case isTrue long => exact iff_of_false nofun fun reached => by omega
      case isFalse short =>
        exact ⟨fun reached => ⟨by simpa using noNul, given, Nat.not_lt.mp short, reached⟩,
          fun reached => reached.2.2.2⟩

-----------------------------------------------------------------------------------------
-- Where walks end
-----------------------------------------------------------------------------------------

/-- Where a walk can end: at what the tree holds there, below a directory, and at a link only
if it does not follow links.
-/
structure Lands (tree : FileTree) (follow : Bool) (spot : Spot) : Prop where
  entry : spot.entry = tree.entry? spot.place
  founded : spot.place = [] ∨ tree.Founded spot.place
  notLink : follow = true → ∀ target, spot.entry ≠ some (.link target)

theorem founded_of_ne_none {tree : FileTree} (sound : tree.Sound) {place : Place}
    (present : tree.entry? place ≠ none)
    : place = [] ∨ tree.Founded place := by
  rcases List.eq_nil_or_concat place with top | ⟨parent, name, rfl⟩
  · exact .inl top
  · rw [List.concat_eq_append] at present ⊢
    exact .inr ⟨parent, name, rfl, sound parent name present⟩

theorem lands_directory {tree : FileTree} (sound : tree.Sound) {place : Place}
    (directory : tree.entry? place = some .directory) (follow : Bool)
    : Lands tree follow ⟨place, tree.entry? place⟩ where
  entry := rfl
  founded := founded_of_ne_none sound (by simp [directory])
  notLink _ target := by simp [directory]

theorem lands_parent {tree : FileTree} (sound : tree.Sound) {place : Place}
    (directory : tree.entry? place = some .directory) (follow : Bool)
    : Lands tree follow ⟨place.dropLast, tree.entry? place.dropLast⟩ := by
  have present : tree.entry? place ≠ none := by simp [directory]
  rcases founded_of_ne_none sound present with rfl | ⟨parent, name, rfl, above⟩
  · exact lands_directory sound rfl follow
  · rw [List.dropLast_concat]
    exact lands_directory sound above follow

section Walks

variable {tree : FileTree} {follow : Bool} {reading : Path → List Step}

/-- A walk lands if its jumps do, by induction on the steps. -/
theorem lands_walkWith (sound : tree.Sound) (nonempty : ∀ path, reading path ≠ [])
    {jump : Place → List Step → Except FileError Spot}
    (jumps : ∀ place steps spot, steps ≠ [] → jump place steps = .ok spot →
      Lands tree follow spot)
    {steps : List Step} {place : Place} {spot : Spot}
    (start : steps = [] → Lands tree follow ⟨place, tree.entry? place⟩)
    (reached : walkWith tree follow reading jump place steps = .ok spot)
    : Lands tree follow spot := by
  induction steps generalizing place with
  | nil =>
      obtain rfl := Except.ok.inj reached
      exact start rfl
  | cons step rest ih =>
      obtain ⟨directory, strides⟩ := walkWith_cons_iff.mp reached
      have founded (name : Bytes) : tree.Founded (place ++ [name]) :=
        ⟨place, name, rfl, directory⟩
      cases strides with
      | stays onward => exact ih (fun _ => lands_directory sound directory follow) onward
      | climbs onward => exact ih (fun _ => lands_parent sound directory follow) onward
      | misses short absent last ends =>
          subst ends
          exact ⟨absent.symm, .inr (founded _), by simp⟩
      | halts short link last ends =>
          subst ends
          exact ⟨link.symm, .inr (founded _), by simp [last.2]⟩
      | @jumps name target short link goes given onward =>
          refine jumps _ _ _ ?_ onward
          split
          case isTrue => exact nonempty target
          case isFalse more => simp [more]
      | enters short found notLink onward =>
          refine ih (fun _ => ⟨rfl, .inr (founded _), fun _ target => ?_⟩) onward
          rw [found]
          intro same
          exact notLink target (Option.some.inj same)

/-- Every walk that takes a step lands, by induction on the links that it may follow. -/
theorem lands_walk (sound : tree.Sound) (nonempty : ∀ path, reading path ≠ [])
    {links : Nat} {place : Place} {steps : List Step} {spot : Spot} (some' : steps ≠ [])
    (reached : tree.walk follow reading links place steps = .ok spot)
    : Lands tree follow spot := by
  induction links generalizing place steps spot with
  | zero =>
      rw [walk] at reached
      exact lands_walkWith sound nonempty (fun _ _ _ _ jumped => by cases jumped)
        (fun none' => absurd none' some') reached
  | succ links ih =>
      rw [walk] at reached
      exact lands_walkWith sound nonempty (fun _ _ _ some' jumped => ih some' jumped)
        (fun none' => absurd none' some') reached

theorem lands_locateBy (sound : tree.Sound) (nonempty : ∀ path, reading path ≠ [])
    {path : Path} {spot : Spot} (reached : tree.locateBy follow reading path = .ok spot)
    : Lands tree follow spot :=
  lands_walk sound nonempty (nonempty path) (locateBy_eq_ok_iff.mp reached).2.2.2

end Walks

theorem steps_ne_nil (path : Path)
    : path.steps ≠ [] := by
  simp [Path.steps]

theorem stepsToFile_ne_nil (path : Path)
    : path.stepsToFile ≠ [] := by
  unfold Path.stepsToFile
  dsimp only
  split
  · split
    · exact steps_ne_nil path
    · simp
  · exact steps_ne_nil path

-----------------------------------------------------------------------------------------
-- Changes
-----------------------------------------------------------------------------------------

/-- A place where a walk ended can hold something new, unless it is a directory. -/
theorem Lands.founded_of_ne_directory {tree : FileTree} {follow : Bool} {spot : Spot}
    (lands : Lands tree follow spot) (replaced : spot.entry ≠ some .directory)
    : tree.Founded spot.place ∧ tree.entry? spot.place ≠ some .directory := by
  rw [lands.entry] at replaced
  refine ⟨lands.founded.resolve_left ?_, replaced⟩
  intro top
  rw [top] at replaced
  exact replaced rfl

theorem IsReading.ne_nil {reading : Path → List Step} (kind : IsReading reading) (path : Path)
    : reading path ≠ [] := by
  rcases kind with rfl | rfl
  · exact steps_ne_nil path
  · exact stepsToFile_ne_nil path

/-- Every change keeps everything in directories. -/
theorem durable_sound : Durable Sound where
  put sound kind reached replaced entry := by
    have lands := lands_locateBy sound kind.ne_nil reached
    obtain ⟨founded, notDirectory⟩ := lands.founded_of_ne_directory replaced
    exact sound.put founded notDirectory entry
  cut sound place := sound.cut place
  graft sound from' to' apart lower := by
    have lands := lands_locateBy sound steps_ne_nil to'
    refine sound.graft (lands.founded.resolve_left ?_) apart
    intro top
    exact lower (top ▸ List.nil_prefix)

end RouteDesk.FileTree
