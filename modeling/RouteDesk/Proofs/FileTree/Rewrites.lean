import RouteDesk.Proofs.FileTree.ReadBack
import RouteDesk.Proofs.FileTree.Walks

/-! A file that can be read can be written: the directories on the way to it are there already, and
the walk to it ends at the same file whether it is read or written. Of two contents written to it in
a row only the second is left.
-/

namespace RouteDesk.FileTree

-----------------------------------------------------------------------------------------
-- Walks of other kinds
-----------------------------------------------------------------------------------------

section Kinds

variable {tree : FileTree} {links : Nat} {place : Place} {steps : List Step} {spot : Spot}

/-- A walk that halts at a link does so where there is something, if one that follows it finds
something.
-/
theorem Walks.halting (walks : Walks tree true Path.steps links place steps spot)
    (present : spot.entry ≠ none)
    : ∃ other, Walks tree false Path.steps links place steps other ∧ other.entry ≠ none := by
  induction walks with
  | arrives => exact ⟨_, .arrives, present⟩
  | stays directory onward ih =>
      obtain ⟨other, halts, there⟩ := ih present
      exact ⟨other, .stays directory halts, there⟩
  | climbs directory onward ih =>
      obtain ⟨other, halts, there⟩ := ih present
      exact ⟨other, .climbs directory halts, there⟩
  | misses directory short absent => exact absurd rfl present
  | halts directory short link stop => cases stop
  | @jumps links place rest spot name target directory short link goes given onward ih =>
      by_cases last : rest = []
      · subst last
        exact ⟨_, .halts directory short link rfl, nofun⟩
      · obtain ⟨other, halts, there⟩ := ih present
        exact ⟨other, .jumps directory short link (fun both => last both.1) given halts, there⟩
  | enters directory short found notLink onward ih =>
      obtain ⟨other, halts, there⟩ := ih present
      exact ⟨other, .enters directory short found notLink halts, there⟩

theorem splitOn_slashes (front : Bytes) (count : Nat)
    : (front ++ List.replicate count Path.slash).splitOn Path.slash
      = front.splitOn Path.slash ++ List.replicate count [] := by
  induction count generalizing front with
  | zero => simp
  | succ count ih =>
      rw [List.replicate_succ, List.splitOn_append_cons_self]
      refine congrArg (front.splitOn Path.slash ++ ·) ?_
      exact (ih []).trans rfl

/-- A path is its trimmed form with slashes behind it, which only ask a walk to stay. -/
theorem exists_trimmed (path : Path)
    : ∃ count,
        path.bytes = path.trimmed.bytes ++ List.replicate count Path.slash
        ∧ (path.bytes ≠ [] → path.trimmed.bytes ≠ [])
        ∧ path.isAbsolute = path.trimmed.isAbsolute
        ∧ path.steps = path.trimmed.steps ++ List.replicate count .stay := by
  suffices ∃ count, path.bytes = path.trimmed.bytes ++ List.replicate count Path.slash
      ∧ (path.bytes ≠ [] → path.trimmed.bytes ≠ [])
      ∧ path.isAbsolute = path.trimmed.isAbsolute by
    obtain ⟨count, split, given, absolute⟩ := this
    refine ⟨count, split, given, absolute, ?_⟩
    rw [Path.steps_eq_map, Path.steps_eq_map, split, splitOn_slashes, List.map_append,
      List.map_replicate]
    rfl
  unfold Path.trimmed
  dsimp only
  split
  case isTrue => exact ⟨0, by simp⟩
  case isFalse given =>
    have all (byte : UInt8) (member : byte ∈ path.bytes.reverse.takeWhile (· == Path.slash))
        : byte = Path.slash := by
      simpa using List.all_eq_true.mp List.all_takeWhile byte member
    have slashes := List.eq_replicate_iff.mpr ⟨rfl, all⟩
    have split : path.bytes = (path.bytes.reverse.dropWhile (· == Path.slash)).reverse
        ++ (path.bytes.reverse.takeWhile (· == Path.slash)).reverse := by
      rw [← List.reverse_append, List.takeWhile_append_dropWhile, List.reverse_reverse]
    rw [slashes, List.reverse_replicate] at split
    refine ⟨_, split, fun _ => given, ?_⟩
    unfold Path.isAbsolute
    conv_lhs => rw [split, List.head?_append_of_ne_nil _ given]

/-- A path that does not end by staying is read as one to a file. -/
theorem stepsToFile_eq_steps {path : Path} (last : path.steps.getLast? ≠ some .stay)
    : path.stepsToFile = path.steps := by
  have same : path.trimmed = path := by
    obtain ⟨count, split, -, -, steps⟩ := exists_trimmed path
    cases count with
    | zero =>
        exact congrArg Path.mk (show path.trimmed.bytes = path.bytes by simpa using split.symm)
    | succ count =>
        rw [steps, List.replicate_succ', ← List.append_assoc, List.getLast?_concat] at last
        exact absurd rfl last
  unfold Path.stepsToFile
  dsimp only
  split
  · rw [if_pos same]
  · rfl

/-- A walk to a file ends there too if it is to be written. -/
theorem Walks.toFile (walks : Walks tree true Path.steps links place steps spot)
    (notDirectory : spot.entry ≠ some .directory)
    : Walks tree true Path.stepsToFile links place steps spot := by
  induction walks with
  | arrives => exact .arrives
  | stays directory onward ih => exact .stays directory (ih notDirectory)
  | climbs directory onward ih => exact .climbs directory (ih notDirectory)
  | misses directory short absent => exact .misses directory short absent
  | halts directory short link stop => cases stop
  | @jumps links place rest spot name target directory short link goes given onward ih =>
      refine .jumps directory short link (by simp) given ?_
      have walks := ih notDirectory
      by_cases last : rest = []
      · rw [if_pos last] at onward walks ⊢
        rwa [stepsToFile_eq_steps (onward.last_ne_stay notDirectory)]
      · rw [if_neg last] at walks ⊢
        exact walks
  | enters directory short found notLink onward ih =>
      exact .enters directory short found notLink (ih notDirectory)

end Kinds

-----------------------------------------------------------------------------------------
-- Writing what can be read
-----------------------------------------------------------------------------------------

variable {tree : FileTree} {path : Path} {content : Bytes}

theorem spot_of_isDirectory (there : tree.isDirectory path = true)
    : ∃ place, tree.locate true path = .ok ⟨place, some .directory⟩ := by
  unfold isDirectory target? at there
  split at there
  case h_1 spot reached =>
    obtain ⟨place, entry⟩ := spot
    exact ⟨place, (beq_iff_eq.mp there) ▸ reached⟩
  case h_2 => cases there

theorem spot_of_read (held : tree.read path = .ok content)
    : ∃ place, tree.locate true path = .ok ⟨place, some (.file content)⟩ := by
  unfold read at held
  split at held
  case h_1 => cases held
  case h_2 place found reached => exact ⟨place, Except.ok.inj held ▸ reached⟩
  case h_3 => cases held
  case h_4 => cases held

/-- Where a directory is, none can be made. Witness: the walk along the trimmed path moves as the
walk to the directory does.
-/
theorem occupied_of_isDirectory (there : tree.isDirectory path = true)
    : tree.makeDirectory path = .error .occupied := by
  obtain ⟨place, reached⟩ := spot_of_isDirectory there
  obtain ⟨count, split, nonempty, absolute, steps⟩ := exists_trimmed path
  obtain ⟨noNul, given, short, -⟩ := locateBy_eq_ok_iff.mp reached
  have moves : Step.moves path.steps = Step.moves path.trimmed.steps := by
    rw [steps, moves_append]
    simp [Step.moves]
  have walks := (walks_of_locate reached).of_moves moves (.inl rfl)
  obtain ⟨⟨other, entry⟩, halts, present⟩ := walks.halting nofun
  have found : tree.locate false path.trimmed = .ok ⟨other, entry⟩ := by
    refine locateBy_eq_ok_iff.mpr ⟨?_, nonempty given, ?_, ?_⟩
    · rw [split, List.contains_append] at noNul
      exact (Bool.or_eq_false_iff.mp noNul).1
    · rw [split, List.length_append] at short
      omega
    · exact walk_eq_ok_iff.mpr (absolute ▸ halts)
  unfold makeDirectory
  rw [found]
  cases entry with
  | none => exact absurd rfl present
  | some entry => rfl

theorem exists_ancestors (path : Path)
    : ∃ parents, path.ancestors = path :: parents := by
  unfold Path.ancestors
  cases path.components.length with
  | zero => exact ⟨_, rfl⟩
  | succ limit =>
      unfold Path.ancestors.go
      split
      · exact ⟨_, rfl⟩
      · exact ⟨_, rfl⟩

/-- A directory that is there need not be made, and neither needs anything above it. -/
theorem makeDirectories_of_isDirectory (there : tree.isDirectory path = true)
    : tree.makeDirectories path = (tree, .ok ()) := by
  obtain ⟨parents, ancestors⟩ := exists_ancestors path
  unfold makeDirectories
  rw [ancestors, makeFrom]
  split
  case isTrue => rfl
  case isFalse =>
    rw [occupied_of_isDirectory there]
    rfl

/-- Without its last component a path moves as it does up to its last step. -/
theorem moves_steps_parent {front : List Step} {last : Step}
    (steps : path.steps = front ++ [last]) (moves : last ≠ .stay)
    : Step.moves (Path.ofComponents path.components.dropLast).steps = Step.moves front := by
  have regular := path.regular_components
  have together : path.components.filterMap Component.step? = Step.moves front ++ [last] := by
    rw [← Path.moves_steps, steps, moves_append]
    exact congrArg (Step.moves front ++ ·) (List.filter_cons_of_pos (by simp [moves]))
  rw [Path.moves_steps,
    Path.components_ofComponents (regular.of_prefix (List.dropLast_prefix _))]
  rcases List.eq_nil_or_concat path.components with none' | ⟨above, component, split⟩
  · rw [none'] at together
    exact absurd together.symm (by simp)
  · rw [List.concat_eq_append] at split
    rw [split, List.filterMap_append] at together
    rw [split, List.dropLast_concat]
    obtain ⟨step, leads⟩ : ∃ step, component.step? = some step := by
      cases above with
      | nil =>
          cases leads : component.step? with
          | none => simp [leads] at together
          | some step => exact ⟨step, rfl⟩
      | cons first rest =>
          rw [split] at regular
          exact (regular.inner_of_mem_tail (by simp)).step?
    rw [List.filterMap_cons_some leads] at together
    exact (List.append_inj' together rfl).1

theorem isDirectory_parent (held : tree.read path = .ok content) {parent : Path}
    (above : path.parent? = some parent) (given : parent.bytes ≠ [])
    : tree.isDirectory parent = true := by
  obtain ⟨place, reached⟩ := spot_of_read held
  obtain ⟨noNul, -, short, -⟩ := locateBy_eq_ok_iff.mp reached
  obtain rfl : Path.ofComponents path.components.dropLast = parent := by
    unfold Path.parent? at above
    split at above
    case h_1 => cases above
    case h_2 => cases above
    case h_3 => exact Option.some.inj above
  have walks := walks_of_locate reached
  have fewer := Path.ofComponents_sublist (List.dropLast_prefix path.components)
  obtain ⟨front, last, steps⟩ : ∃ front last, path.steps = front ++ [last] :=
    ⟨_, _, (List.dropLast_append_getLast (steps_ne_nil path)).symm⟩
  have moves : last ≠ .stay := by
    rintro rfl
    exact walks.last_ne_stay nofun (by rw [steps, List.getLast?_concat])
  obtain ⟨-, middle, first, -⟩ := walks.split steps (List.cons_ne_nil _ _)
  have again := first.of_moves (moves_steps_parent steps moves).symm (.inl rfl)
  have found : tree.locate true (Path.ofComponents path.components.dropLast)
      = .ok ⟨middle, some .directory⟩ := by
    have start : (Path.ofComponents path.components.dropLast).isAbsolute = path.isAbsolute := by
      have more : path.components.dropLast ≠ [] := by
        intro none'
        rw [none'] at given
        exact given rfl
      have long : 1 < path.components.length := by
        have := List.length_pos_iff.mpr more
        rw [List.length_dropLast] at this
        omega
      rw [Bool.eq_iff_iff, Path.isAbsolute_iff_head?, Path.isAbsolute_iff_head?,
        Path.components_ofComponents
          (path.regular_components.of_prefix (List.dropLast_prefix _)),
        List.head?_dropLast, if_pos long]
    refine locateBy_eq_ok_iff.mpr ⟨?_, given, fewer.length_le.trans short, ?_⟩
    · rw [List.contains_eq_mem, decide_eq_false_iff_not] at noNul ⊢
      exact fun member => noNul (fewer.subset member)
    · exact walk_eq_ok_iff.mpr (start ▸ again)
  unfold isDirectory target?
  rw [found]
  rfl

/-- Where a path leads to a file, writing it changes the content of that file and nothing else. -/
theorem writeWithParents_of_locate {place : Place}
    (reached : tree.locate true path = .ok ⟨place, some (.file content)⟩) (other : Bytes)
    : tree.writeWithParents path other = (tree.put place (.file other), .ok ()) := by
  obtain ⟨noNul, given, short, -⟩ := locateBy_eq_ok_iff.mp reached
  have walks := walks_of_locate reached
  have found : tree.locateFile path = .ok ⟨place, some (.file content)⟩ := by
    refine locateBy_eq_ok_iff.mpr ⟨noNul, given, short, walk_eq_ok_iff.mpr ?_⟩
    rw [stepsToFile_eq_steps (walks.last_ne_stay nofun)]
    exact walks.toFile nofun
  have written : tree.write path other = .ok (tree.put place (.file other)) := by
    rw [write, found]
  have held : tree.read path = .ok content := by rw [read, reached]
  have made (parent : Path) (above : path.parent? = some parent)
      : tree.makeDirectories parent = (tree, .ok ()) := by
    by_cases top : parent = ⟨[]⟩
    · exact top ▸ rfl
    · have nonempty : parent.bytes ≠ [] := fun none' => top (congrArg Path.mk none')
      exact makeDirectories_of_isDirectory (isDirectory_parent held above nonempty)
  unfold writeWithParents
  cases above : path.parent? with
  | none => simp only [written]
  | some parent => simp only [made parent above, written]

/-- A file that can be read can be given another content. -/
theorem written_of_read (held : tree.read path = .ok content) (other : Bytes)
    : (tree.writeWithParents path other).2 = .ok () := by
  obtain ⟨place, reached⟩ := spot_of_read held
  rw [writeWithParents_of_locate reached]

-----------------------------------------------------------------------------------------
-- Writing twice
-----------------------------------------------------------------------------------------

/-- A place keeps only what was put there last. -/
theorem put_put (tree : FileTree) (place : Place) (former latter : Entry)
    : (tree.put place former).put place latter = tree.put place latter := by
  simp [put]

/-- A path either cannot be written, or it leads to a place for whatever is written to it. -/
theorem write_uniform (tree : FileTree) (path : Path)
    : (∃ reason, ∀ content, tree.write path content = .error reason)
      ∨ ∃ goal, ∀ content, tree.write path content = .ok (tree.put goal (.file content)) := by
  unfold write
  split
  case h_1 reason _ => exact .inl ⟨reason, fun _ => rfl⟩
  case h_2 => exact .inl ⟨.isDirectory, fun _ => rfl⟩
  case h_3 goal _ _ _ => exact .inr ⟨goal, fun _ => rfl⟩

/-- The tree with the directories made on the way to a file. -/
def prepared (tree : FileTree) (path : Path) : FileTree × Except FileError Unit :=
  match path.parent? with
  | some parent => tree.makeDirectories parent
  | none => (tree, .ok ())

theorem writeWithParents_eq (tree : FileTree) (path : Path) (content : Bytes)
    : tree.writeWithParents path content
      = match (tree.prepared path).2 with
        | .error reason => ((tree.prepared path).1, .error reason)
        | .ok () =>
          match (tree.prepared path).1.write path content with
          | .ok next => (next, .ok ())
          | .error reason => ((tree.prepared path).1, .error reason) := rfl

/-- Whether a file can be written does not depend on its content. -/
theorem outcome_writeWithParents (tree : FileTree) (path : Path) (former latter : Bytes)
    : (tree.writeWithParents path former).2 = (tree.writeWithParents path latter).2 := by
  rw [writeWithParents_eq, writeWithParents_eq]
  cases (tree.prepared path).2 with
  | error reason => rfl
  | ok =>
      rcases write_uniform (tree.prepared path).1 path with ⟨reason, fails⟩ | ⟨goal, fills⟩
      · simp only [fails]
      · simp only [fills]

/-- Of two contents written one after the other nothing but the second is left, as if the first had
never been written.
-/
theorem writeWithParents_twice (sound : tree.Sound)
    (written : (tree.writeWithParents path content).2 = .ok ()) (other : Bytes)
    : (tree.writeWithParents path content).1.writeWithParents path other
      = tree.writeWithParents path other := by
  have made : (tree.prepared path).1.Sound := durable_sound.withParents sound path
  rw [writeWithParents_eq tree path content] at written ⊢
  rw [writeWithParents_eq tree path other]
  cases allowed : (tree.prepared path).2 with
  | error reason =>
      rw [allowed] at written
      cases written
  | ok =>
      rw [allowed] at written
      dsimp only at written ⊢
      cases filled : (tree.prepared path).1.write path content with
      | error reason =>
          rw [filled] at written
          cases written
      | ok next =>
          obtain ⟨goal, found, fills⟩ := locate_of_write made filled
          obtain rfl := Except.ok.inj (filled.symm.trans (fills content))
          rw [fills other]
          dsimp only
          rw [writeWithParents_of_locate found, put_put]

end RouteDesk.FileTree
