import RouteDesk.Proofs.FileTree.Sound
import RouteDesk.Proofs.Path.Components

/-! Walks that end somewhere, step by step and through links. They can be cut before any of their
steps, and steps that stay where they are make no difference to them.
-/

namespace RouteDesk.FileTree

-----------------------------------------------------------------------------------------
-- Successful walks
-----------------------------------------------------------------------------------------

/-- A walk that ends at a spot, with so many links that it may still follow. -/
inductive Walks (tree : FileTree) (follow : Bool) (reading : Path → List Step)
    : Nat → Place → List Step → Spot → Prop
  | arrives {links : Nat} {place : Place}
    : Walks tree follow reading links place [] ⟨place, tree.entry? place⟩
  | stays {links : Nat} {place : Place} {rest : List Step} {spot : Spot}
    (directory : tree.entry? place = some .directory)
    (onward : Walks tree follow reading links place rest spot)
    : Walks tree follow reading links place (.stay :: rest) spot
  | climbs {links : Nat} {place : Place} {rest : List Step} {spot : Spot}
    (directory : tree.entry? place = some .directory)
    (onward : Walks tree follow reading links place.dropLast rest spot)
    : Walks tree follow reading links place (.up :: rest) spot
  | misses {links : Nat} {place : Place} {name : Bytes}
    (directory : tree.entry? place = some .directory) (short : ¬ nameLimit < name.length)
    (absent : tree.entry? (place ++ [name]) = none)
    : Walks tree follow reading links place [.into name] ⟨place ++ [name], none⟩
  | halts {links : Nat} {place : Place} {name : Bytes} {target : Path}
    (directory : tree.entry? place = some .directory) (short : ¬ nameLimit < name.length)
    (link : tree.entry? (place ++ [name]) = some (.link target)) (stop : follow = false)
    : Walks tree follow reading links place [.into name]
        ⟨place ++ [name], some (.link target)⟩
  | jumps {links : Nat} {place : Place} {rest : List Step} {spot : Spot} {name : Bytes}
    {target : Path}
    (directory : tree.entry? place = some .directory) (short : ¬ nameLimit < name.length)
    (link : tree.entry? (place ++ [name]) = some (.link target))
    (goes : ¬ (rest = [] ∧ follow = false)) (given : target.bytes ≠ [])
    (onward : Walks tree follow reading links (if target.isAbsolute then [] else place)
      (if rest = [] then reading target else target.steps ++ rest) spot)
    : Walks tree follow reading (links + 1) place (.into name :: rest) spot
  | enters {links : Nat} {place : Place} {rest : List Step} {spot : Spot} {name : Bytes}
    {entry : Entry}
    (directory : tree.entry? place = some .directory) (short : ¬ nameLimit < name.length)
    (found : tree.entry? (place ++ [name]) = some entry) (notLink : ∀ target, entry ≠ .link target)
    (onward : Walks tree follow reading links (place ++ [name]) rest spot)
    : Walks tree follow reading links place (.into name :: rest) spot

section Walks

variable {tree : FileTree} {follow : Bool} {reading : Path → List Step}

theorem walks_of_walkWith {links : Nat} {jump : Place → List Step → Except FileError Spot}
    (jumps : ∀ place steps spot, jump place steps = .ok spot →
      ∃ fewer, links = fewer + 1 ∧ Walks tree follow reading fewer place steps spot)
    {place : Place} {steps : List Step} {spot : Spot}
    (reached : walkWith tree follow reading jump place steps = .ok spot)
    : Walks tree follow reading links place steps spot := by
  induction steps generalizing place with
  | nil =>
      obtain rfl := Except.ok.inj reached
      exact .arrives
  | cons step rest ih =>
      obtain ⟨directory, strides⟩ := walkWith_cons_iff.mp reached
      cases strides with
      | stays onward => exact .stays directory (ih onward)
      | climbs onward => exact .climbs directory (ih onward)
      | misses short absent last ends => exact last ▸ ends ▸ .misses directory short absent
      | halts short link last ends => exact last.1 ▸ ends ▸ .halts directory short link last.2
      | jumps short link goes given onward =>
          obtain ⟨fewer, rfl, walks⟩ := jumps _ _ _ onward
          exact .jumps directory short link goes given walks
      | enters short found notLink onward => exact .enters directory short found notLink (ih onward)

theorem walk_eq_ok_iff {links : Nat} {place : Place} {steps : List Step} {spot : Spot}
    : tree.walk follow reading links place steps = .ok spot
      ↔ Walks tree follow reading links place steps spot := by
  constructor
  · intro reached
    induction links generalizing place steps spot with
    | zero =>
        rw [walk] at reached
        exact walks_of_walkWith (fun _ _ _ jumped => by cases jumped) reached
    | succ links ih =>
        rw [walk] at reached
        exact walks_of_walkWith (fun _ _ _ jumped => ⟨links, rfl, ih jumped⟩) reached
  · intro walks
    have opened (links : Nat) : ∃ jump, tree.walk follow reading links
        = walkWith tree follow reading jump := by
      cases links <;> exact ⟨_, rfl⟩
    induction walks with
    | @arrives links place =>
        cases links <;> rfl
    | @stays links place rest spot directory onward ih =>
        obtain ⟨jump, same⟩ := opened links
        rw [same] at ih ⊢
        exact walkWith_cons_iff.mpr ⟨directory, .stays ih⟩
    | @climbs links place rest spot directory onward ih =>
        obtain ⟨jump, same⟩ := opened links
        rw [same] at ih ⊢
        exact walkWith_cons_iff.mpr ⟨directory, .climbs ih⟩
    | @misses links place name directory short absent =>
        obtain ⟨jump, same⟩ := opened links
        rw [same]
        exact walkWith_cons_iff.mpr ⟨directory, .misses short absent rfl rfl⟩
    | @halts links place name target directory short link stop =>
        obtain ⟨jump, same⟩ := opened links
        rw [same]
        exact walkWith_cons_iff.mpr ⟨directory, .halts short link ⟨rfl, stop⟩ rfl⟩
    | @jumps links place rest spot name target directory short link goes given onward ih =>
        rw [walk]
        exact walkWith_cons_iff.mpr ⟨directory, .jumps short link goes given ih⟩
    | @enters links place rest spot name entry directory short found notLink onward ih =>
        obtain ⟨jump, same⟩ := opened links
        rw [same] at ih ⊢
        exact walkWith_cons_iff.mpr ⟨directory, .enters short found notLink ih⟩

theorem walks_of_locate {path : Path} {spot : Spot}
    (reached : tree.locateBy follow reading path = .ok spot)
    : Walks tree follow reading linkLimit (if path.isAbsolute then [] else tree.home)
        (reading path) spot :=
  walk_eq_ok_iff.mp (locateBy_eq_ok_iff.mp reached).2.2.2

end Walks

-----------------------------------------------------------------------------------------
-- Parts of walks
-----------------------------------------------------------------------------------------

section Parts

variable {tree : FileTree} {links : Nat} {place : Place} {spot : Spot}

theorem ite_steps (target : Path) (rest : List Step)
    : (if rest = [] then target.steps else target.steps ++ rest) = target.steps ++ rest := by
  split
  case isTrue last => rw [last, List.append_nil]
  case isFalse => rfl

/-- Who is still to take a step is in a directory. -/
theorem Walks.directory {follow : Bool} {reading : Path → List Step} {steps : List Step}
    (walks : Walks tree follow reading links place steps spot) (more : steps ≠ [])
    : tree.entry? place = some .directory := by
  cases walks with
  | arrives => exact absurd rfl more
  | stays directory => exact directory
  | climbs directory => exact directory
  | misses directory => exact directory
  | halts directory => exact directory
  | jumps directory => exact directory
  | enters directory => exact directory

/-- A walk can be cut before any of its steps. Up to there it leads to a directory, by induction
on the walk.
-/
theorem Walks.split {steps front back : List Step}
    (walks : Walks tree true Path.steps links place steps spot) (cut : steps = front ++ back)
    (more : back ≠ [])
    : ∃ fewer middle,
        Walks tree true Path.steps links place front ⟨middle, some .directory⟩
        ∧ Walks tree true Path.steps fewer middle back spot := by
  have here {links : Nat} {place : Place} {spot : Spot}
      (walks : Walks tree true Path.steps links place back spot)
      : ∃ fewer middle,
          Walks tree true Path.steps links place [] ⟨middle, some .directory⟩
          ∧ Walks tree true Path.steps fewer middle back spot :=
    ⟨links, place, walks.directory more ▸ .arrives, walks⟩
  induction walks generalizing front with
  | arrives => exact absurd (List.append_eq_nil_iff.mp cut.symm).2 more
  | stays directory onward ih =>
      rcases List.cons_eq_append_iff.mp cut with ⟨rfl, rfl⟩ | ⟨ahead, rfl, rfl⟩
      · exact here (.stays directory onward)
      · obtain ⟨fewer, middle, first, second⟩ := ih rfl
        exact ⟨fewer, middle, .stays directory first, second⟩
  | climbs directory onward ih =>
      rcases List.cons_eq_append_iff.mp cut with ⟨rfl, rfl⟩ | ⟨ahead, rfl, rfl⟩
      · exact here (.climbs directory onward)
      · obtain ⟨fewer, middle, first, second⟩ := ih rfl
        exact ⟨fewer, middle, .climbs directory first, second⟩
  | misses directory short absent =>
      rcases List.cons_eq_append_iff.mp cut with ⟨rfl, rfl⟩ | ⟨ahead, rfl, none'⟩
      · exact here (.misses directory short absent)
      · exact absurd (List.append_eq_nil_iff.mp none'.symm).2 more
  | halts directory short link stop => cases stop
  | @jumps links place rest spot name target directory short link goes given onward ih =>
      rcases List.cons_eq_append_iff.mp cut with ⟨rfl, rfl⟩ | ⟨ahead, rfl, rfl⟩
      · exact here (.jumps directory short link goes given onward)
      · rw [ite_steps, ← List.append_assoc] at ih
        obtain ⟨fewer, middle, first, second⟩ := ih rfl
        refine ⟨fewer, middle, .jumps directory short link (by simp) given ?_, second⟩
        rwa [ite_steps]
  | enters directory short found notLink onward ih =>
      rcases List.cons_eq_append_iff.mp cut with ⟨rfl, rfl⟩ | ⟨ahead, rfl, rfl⟩
      · exact here (.enters directory short found notLink onward)
      · obtain ⟨fewer, middle, first, second⟩ := ih rfl
        exact ⟨fewer, middle, .enters directory short found notLink first, second⟩

/-- A walk whose last step stays ends in a directory. -/
theorem Walks.last_ne_stay {steps : List Step}
    (walks : Walks tree true Path.steps links place steps spot)
    (notDirectory : spot.entry ≠ some .directory)
    : steps.getLast? ≠ some .stay := by
  intro last
  obtain ⟨front, rfl⟩ := List.getLast?_eq_some_iff.mp last
  obtain ⟨fewer, middle, -, ending⟩ := walks.split rfl (List.cons_ne_nil _ _)
  cases ending with
  | stays directory onward =>
      cases onward with
      | arrives => exact notDirectory directory

end Parts

-----------------------------------------------------------------------------------------
-- Steps that stay
-----------------------------------------------------------------------------------------

section Stays

variable {tree : FileTree} {links : Nat} {place : Place} {spot : Spot}

theorem moves_append (front back : List Step)
    : Step.moves (front ++ back) = Step.moves front ++ Step.moves back :=
  List.filter_append front back

/-- Steps of the same moves take the first of them after such that stay. -/
theorem exists_of_moves_eq {step : Step} {rest steps : List Step}
    (same : Step.moves (step :: rest) = Step.moves steps) (moves : step ≠ .stay)
    : ∃ idle later, steps = idle ++ step :: later ∧ (∀ step ∈ idle, step = .stay)
      ∧ Step.moves rest = Step.moves later := by
  have first : Step.moves (step :: rest) = step :: Step.moves rest :=
    List.filter_cons_of_pos (by simp [moves])
  obtain ⟨idle, later, rfl, all, -, behind⟩ := List.filter_eq_cons_iff.mp (same.symm.trans first)
  exact ⟨idle, later, rfl, fun step member => by simpa using all step member, behind.symm⟩

theorem eq_stay_of_moves_eq_nil {steps : List Step} (same : Step.moves steps = [])
    : ∀ step ∈ steps, step = .stay := fun step member => by
  simpa using List.filter_eq_nil_iff.mp same step member

theorem eq_nil_of_moves_eq_nil {steps : List Step} (same : Step.moves steps = [])
    (ends : steps.getLast? ≠ some .stay)
    : steps = [] := by
  by_contra given
  have last := List.getLast?_eq_some_getLast given
  exact ends (last.trans (congrArg some (eq_stay_of_moves_eq_nil same _ (List.getLast_mem given))))

theorem Walks.after_stays {follow : Bool} {reading : Path → List Step} {idle steps : List Step}
    (all : ∀ step ∈ idle, step = .stay) (directory : tree.entry? place = some .directory)
    (walks : Walks tree follow reading links place steps spot)
    : Walks tree follow reading links place (idle ++ steps) spot := by
  induction idle with
  | nil => exact walks
  | cons step rest ih =>
      rw [List.forall_mem_cons] at all
      rw [all.1]
      exact .stays directory (ih all.2)

theorem getLast?_ne_of_append (front : List Step) {rest : List Step} {step last : Step}
    (different : (front ++ step :: rest).getLast? ≠ some last)
    : rest.getLast? ≠ some last := by
  intro same
  exact different (by simp [List.getLast?_cons, same])

/-- Walks of the same moves end at the same spot, provided that this is a directory or neither of
them ends by staying. Witness: induction on the walk. Behind a link its target's steps come first,
which are the same for both.
-/
theorem Walks.of_moves {steps others : List Step}
    (walks : Walks tree true Path.steps links place steps spot)
    (same : Step.moves steps = Step.moves others)
    (ends : spot.entry = some .directory
      ∨ steps.getLast? ≠ some .stay ∧ others.getLast? ≠ some .stay)
    : Walks tree true Path.steps links place others spot := by
  induction walks generalizing others with
  | @arrives links place =>
      have idle := eq_stay_of_moves_eq_nil same.symm
      cases split : others.getLast? with
      | none => exact List.getLast?_eq_none_iff.mp split ▸ .arrives
      | some last =>
          have stays := idle last (List.mem_of_getLast? split)
          have directory := ends.resolve_right fun neither => neither.2 (stays ▸ split)
          have walks := Walks.after_stays idle directory
            (.arrives : Walks tree true Path.steps links place [] _)
          rwa [List.append_nil] at walks
  | stays directory onward ih =>
      exact ih same (ends.imp_right (.imp_left (getLast?_ne_of_append [])))
  | climbs directory onward ih =>
      obtain ⟨idle, later, rfl, all, behind⟩ := exists_of_moves_eq same nofun
      refine .after_stays all directory (.climbs directory (ih behind ?_))
      exact ends.imp_right (.imp (getLast?_ne_of_append []) (getLast?_ne_of_append _))
  | misses directory short absent =>
      obtain ⟨idle, later, rfl, all, behind⟩ := exists_of_moves_eq same nofun
      have neither := ends.resolve_left nofun
      rw [eq_nil_of_moves_eq_nil behind.symm (getLast?_ne_of_append _ neither.2)]
      exact .after_stays all directory (.misses directory short absent)
  | halts directory short link stop => cases stop
  | @jumps links place rest spot name target directory short link goes given onward ih =>
      obtain ⟨idle, later, rfl, all, behind⟩ := exists_of_moves_eq same nofun
      refine .after_stays all directory (.jumps directory short link (by simp) given ?_)
      rw [ite_steps] at onward ih ⊢
      have together : Step.moves (target.steps ++ rest) = Step.moves (target.steps ++ later) := by
        rw [moves_append, moves_append, behind]
      rcases ends with found | ⟨notFirst, notSecond⟩
      · exact ih together (.inl found)
      have first := getLast?_ne_of_append [] notFirst
      have second := getLast?_ne_of_append _ notSecond
      by_cases last : rest = []
      · subst last
        rwa [eq_nil_of_moves_eq_nil behind.symm second]
      · have more : later ≠ [] := by
          rintro rfl
          exact last (eq_nil_of_moves_eq_nil behind first)
        refine ih together (.inr ⟨?_, ?_⟩)
        · rwa [List.getLast?_append_of_ne_nil _ last]
        · rwa [List.getLast?_append_of_ne_nil _ more]
  | enters directory short found notLink onward ih =>
      obtain ⟨idle, later, rfl, all, behind⟩ := exists_of_moves_eq same nofun
      refine .after_stays all directory (.enters directory short found notLink (ih behind ?_))
      exact ends.imp_right (.imp (getLast?_ne_of_append []) (getLast?_ne_of_append _))

end Stays

end RouteDesk.FileTree
