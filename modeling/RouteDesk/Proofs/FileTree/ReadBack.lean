import RouteDesk.Proofs.FileTree.Sound

/-! A file that was written holds what was written to it. The walk that found the place for it
finds it again by the same path, since nothing else has changed on the way.
-/

namespace RouteDesk.FileTree

-----------------------------------------------------------------------------------------
-- Walks to files
-----------------------------------------------------------------------------------------

section Closed

variable {tree : FileTree} {follow : Bool} {reading : Path → List Step}

/-- No walk gets past a name that is written as that of a directory, by induction on the
steps.
-/
theorem walkWith_closed {jump : Place → List Step → Except FileError Spot}
    (jumps : ∀ place steps spot, .closed ∈ steps → jump place steps ≠ .ok spot)
    {steps : List Step} {place : Place} {spot : Spot} (closed : .closed ∈ steps)
    : walkWith tree follow reading jump place steps ≠ .ok spot := by
  induction steps generalizing place with
  | nil => cases closed
  | cons step rest ih =>
      intro reached
      obtain ⟨-, strides⟩ := walkWith_cons_iff.mp reached
      cases strides with
      | stays onward => exact ih (by simpa using closed) onward
      | climbs onward => exact ih (by simpa using closed) onward
      | misses _ _ last => simp [last] at closed
      | halts _ _ last => simp [last.1] at closed
      | @jumps name target short link goes given onward =>
          have inside : .closed ∈ rest := by simpa using closed
          rw [if_neg (List.ne_nil_of_mem inside)] at onward
          exact jumps _ _ _ (List.mem_append_right _ inside) onward
      | enters short found notLink onward => exact ih (by simpa using closed) onward

theorem walk_closed {links : Nat} {place : Place} {steps : List Step} {spot : Spot}
    (closed : .closed ∈ steps)
    : tree.walk follow reading links place steps ≠ .ok spot := by
  induction links generalizing place steps spot with
  | zero =>
      rw [walk]
      exact walkWith_closed (fun _ _ _ _ jumped => by cases jumped) closed
  | succ links ih =>
      rw [walk]
      exact walkWith_closed (fun _ _ _ inside => ih inside) closed

end Closed

/-- A path to a file is read as any path, unless it is written as that of a directory. -/
theorem stepsToFile_eq_or_closed (path : Path)
    : path.stepsToFile = path.steps ∨ .closed ∈ path.stepsToFile := by
  unfold Path.stepsToFile
  dsimp only
  split
  · split
    · exact .inl rfl
    · exact .inr (by simp)
  · exact .inl rfl

-----------------------------------------------------------------------------------------
-- Walks in the changed tree
-----------------------------------------------------------------------------------------

/-- The second tree has a file where the first one has neither a directory nor a link, and is
the same elsewhere.
-/
structure Filled (tree next : FileTree) (goal : Place) (content : Bytes) : Prop where
  file : next.entry? goal = some (.file content)
  others (place : Place) (different : place ≠ goal) : next.entry? place = tree.entry? place
  notDirectory : tree.entry? goal ≠ some .directory
  notLink (target : Path) : tree.entry? goal ≠ some (.link target)

section Filled

variable {tree next : FileTree} {goal : Place} {content : Bytes}

theorem Filled.directory (filled : Filled tree next goal content) {place : Place}
    (directory : tree.entry? place = some .directory)
    : next.entry? place = some .directory := by
  rw [filled.others place (by rintro rfl; exact filled.notDirectory directory), directory]

/-- A walk that ended at the place of the file ends at the file, by induction on the steps.
Up to its end it only passed directories and links, which are still there.
-/
theorem walkWith_filled (filled : Filled tree next goal content)
    {jump again : Place → List Step → Except FileError Spot} {entry : Option Entry}
    (jumps : ∀ place steps, jump place steps = .ok ⟨goal, entry⟩ →
      again place steps = .ok ⟨goal, some (.file content)⟩)
    (jumpsLast : ∀ place target, jump place (Path.stepsToFile target) = .ok ⟨goal, entry⟩ →
      again place target.steps = .ok ⟨goal, some (.file content)⟩)
    {steps : List Step} {place : Place}
    (reached : walkWith tree true Path.stepsToFile jump place steps = .ok ⟨goal, entry⟩)
    : walkWith next true Path.steps again place steps = .ok ⟨goal, some (.file content)⟩ := by
  induction steps generalizing place with
  | nil =>
      rw [walkWith] at reached ⊢
      obtain ⟨rfl, -⟩ := Spot.mk.inj (Except.ok.inj reached)
      rw [filled.file]
  | cons step rest ih =>
      obtain ⟨directory, strides⟩ := walkWith_cons_iff.mp reached
      refine walkWith_cons_iff.mpr ⟨filled.directory directory, ?_⟩
      cases strides with
      | stays onward => exact .stays (ih onward)
      | climbs onward => exact .climbs (ih onward)
      | misses short absent last ends =>
          obtain ⟨rfl, -⟩ := Spot.mk.inj ends
          refine .enters short filled.file (fun target same => by cases same) ?_
          rw [last, walkWith, filled.file]
      | halts short link last ends => exact absurd last.2 (by decide)
      | @jumps name target short link goes given onward =>
          have elsewhere : place ++ [name] ≠ goal := by
            rintro rfl
            exact filled.notLink target link
          refine .jumps short ((filled.others _ elsewhere).trans link) goes given ?_
          by_cases last : rest = []
          · rw [if_pos last] at onward ⊢
            exact jumpsLast _ _ onward
          · rw [if_neg last] at onward ⊢
            exact jumps _ _ onward
      | @enters name entry short found notLink onward =>
          by_cases same : place ++ [name] = goal
          · exact .enters short (same ▸ filled.file) (fun target same => by cases same)
              (ih onward)
          · exact .enters short ((filled.others _ same).trans found) notLink (ih onward)

/-- The same for whole walks, by induction on the links that they may follow. -/
theorem walk_filled (filled : Filled tree next goal content) {links : Nat}
    {entry : Option Entry} {place : Place} {steps : List Step}
    (reached : tree.walk true Path.stepsToFile links place steps = .ok ⟨goal, entry⟩)
    : next.walk true Path.steps links place steps = .ok ⟨goal, some (.file content)⟩ := by
  induction links generalizing place steps with
  | zero =>
      rw [walk] at reached ⊢
      exact walkWith_filled filled (fun _ _ jumped => by cases jumped)
        (fun _ _ jumped => by cases jumped) reached
  | succ links ih =>
      rw [walk] at reached ⊢
      refine walkWith_filled filled (fun _ _ jumped => ih jumped) (fun _ target jumped => ?_)
        reached
      rcases stepsToFile_eq_or_closed target with same | closed
      · exact ih (same ▸ jumped)
      · exact absurd jumped (walk_closed closed)

end Filled

-----------------------------------------------------------------------------------------
-- Reading what was written
-----------------------------------------------------------------------------------------

variable {tree next : FileTree} {path : Path} {content : Bytes}

/-- A path that was written leads to the file from then on, and it led to that place before,
whatever was to be written. Witness: writing fills the place that the path leads to, so the path
leads there again.
-/
theorem locate_of_write (sound : tree.Sound) (written : tree.write path content = .ok next)
    : ∃ goal, next.locate true path = .ok ⟨goal, some (.file content)⟩
        ∧ ∀ other, tree.write path other = .ok (tree.put goal (.file other)) := by
  unfold write at written
  split at written
  case h_1 => cases written
  case h_2 => cases written
  case h_3 goal entry notDirectory reached =>
    obtain rfl := Except.ok.inj written
    have lands := lands_locateBy sound stepsToFile_ne_nil reached
    obtain ⟨founded, replaced⟩ :=
      lands.founded_of_ne_directory fun same => notDirectory (same ▸ rfl)
    have below : goal ≠ [] := by
      obtain ⟨parent, name, rfl, -⟩ := founded
      simp
    have filled : Filled tree (tree.put goal (.file content)) goal content :=
      ⟨entry?_put_self below tree _, fun _ different => entry?_put_of_ne different tree _,
        replaced, fun target => lands.entry ▸ lands.notLink rfl target⟩
    refine ⟨goal, ?_, fun other => ?_⟩
    · obtain ⟨noNul, given, short, walked⟩ := locateBy_eq_ok_iff.mp reached
      refine locateBy_eq_ok_iff.mpr ⟨noNul, given, short, ?_⟩
      rcases stepsToFile_eq_or_closed path with same | closed
      · rw [same] at walked
        exact walk_filled filled walked
      · exact absurd walked (walk_closed closed)
    · unfold write
      rw [reached]
      split
      case h_1 failed => cases failed
      case h_2 directory =>
        obtain ⟨rfl, rfl⟩ := Spot.mk.inj (Except.ok.inj directory)
        exact absurd rfl notDirectory
      case h_3 found =>
        obtain ⟨rfl, rfl⟩ := Spot.mk.inj (Except.ok.inj found)
        rfl

/-- A file is read as it was written. -/
theorem read_of_write (sound : tree.Sound) (written : tree.write path content = .ok next)
    : next.read path = .ok content := by
  obtain ⟨goal, found, -⟩ := locate_of_write sound written
  rw [read, found]

/-- The same after directories were made on the way to the file. -/
theorem read_of_writeWithParents (sound : tree.Sound)
    (written : (tree.writeWithParents path content).2 = .ok ())
    : (tree.writeWithParents path content).1.read path = .ok content := by
  have made := durable_sound.withParents sound path
  unfold writeWithParents at written ⊢
  dsimp only at written ⊢
  split at written
  case h_1 => cases written
  case h_2 =>
    split at written
    case h_1 next filled => exact read_of_write made filled
    case h_2 => cases written

end RouteDesk.FileTree
