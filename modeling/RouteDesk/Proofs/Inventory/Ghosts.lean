import RouteDesk.Inventory.Live
import RouteDesk.Proofs.Inventory.Watching

/-! When a watched index keeps no ghosts: paths that are known but lead to no file. Whatever a
change takes away is reported, and dropped when the report is delivered, provided that it is known
by then and not taken for what has come in its place.
-/

namespace RouteDesk

open FileTree (IsName pathLimit)

namespace Watching

variable {root : Path} {top : Place} {state : Watching}

-----------------------------------------------------------------------------------------
-- Known paths and the events that will drop them
-----------------------------------------------------------------------------------------

/-- Whether an event that is still to be delivered would drop a path. -/
def Doomed (tree : FileTree) (queue : List DiskEvent) (known : Path) : Prop :=
  ∃ event ∈ queue, ∃ gone ∈ event.paths,
    known.startsWith gone = true ∧ event.spares tree gone = false

/-- What is known, or will be by the scan. -/
def expects (state : Watching) : List Path :=
  match state.seeding with
  | .scanned found => state.index.paths ++ found
  | _ => state.index.paths

/-- Every known path leads to a file below the root, or will be dropped. -/
def Ghostless (root : Path) (state : Watching) : Prop :=
  ∀ known ∈ state.expects, root.IsInside known
    ∧ (state.tree.isFile known = true ∨ Doomed state.tree state.queue known)

/-- Whether an act comes in time. Nothing comes to a free path while a renaming is to be delivered
that names it, and what was found by the scan is added before an event is delivered that drops some
of it.
-/
def Timely (state : Watching) : Act → Prop
  | .change change _ => ∀ paths, .renamed paths ∈ state.queue → ∀ path ∈ paths,
      state.tree.isPresent path = false → (change.apply state.tree).1.isPresent path = false
  | .deliver => ∀ event rest found, state.queue = event :: rest → state.seeding = .scanned found →
      ∀ known ∈ found, ∀ path ∈ event.paths, known.startsWith path = true →
        event.spares state.tree path = true
  | _ => True

theorem paths_subset_expects (state : Watching) : state.index.paths ⊆ state.expects := by
  unfold expects
  split
  · exact List.subset_append_left _ _
  · exact List.Subset.refl _

/-- What an undelivered event would drop before a change in time, it would drop after it. -/
theorem Doomed.after {change : FileChange} {events : List DiskEvent} {known : Path}
    (doomed : Doomed state.tree state.queue known)
    (timely : state.Timely (.change change events))
    : Doomed (change.apply state.tree).1 (state.queue ++ events) known := by
  obtain ⟨event, queued, gone, about, starts, drops⟩ := doomed
  refine ⟨event, List.mem_append_left _ queued, gone, about, starts, ?_⟩
  cases event with
  | created => cases drops
  | removed => rfl
  | renamed paths => exact timely paths queued gone about drops

/-- A file that a change takes away is reported. -/
theorem doomed_of_gone {tree next : FileTree} {effect : Effect} {events : List DiskEvent}
    {known : Path} (does : effect.Does tree next) (rooted : tree.Rooted root top)
    (rooted' : next.Rooted root top) (reports : Reports root top tree next effect events)
    (inside : root.IsInside known) (file : tree.isFile known = true)
    (gone : ¬ next.isFile known = true) (queue : List DiskEvent)
    : Doomed next (queue ++ events) known := by
  obtain ⟨names, given, proper, below⟩ := inside
  obtain ⟨short, content, held⟩ := (rooted.isFile_iff below).mp file
  obtain ⟨left, leaves, above⟩ := does.left_of_file held
    (fun content held' => gone ((rooted'.isFile_iff below).mpr ⟨short, content, held'⟩))
    (rooted'.unlinked names)
  obtain ⟨front, rfl, before⟩ := exists_front above (reports.stays left leaves)
  obtain ⟨event, told, retracts, about⟩ := reports.departures front leaves
  have properFront (name : Bytes) (member : name ∈ front) : IsName name :=
    proper name (before.subset member)
  have belowFront := Path.below_descend rooted.absolute properFront
  refine ⟨event, List.mem_append_right _ told, _, about,
    (belowFront.startsWith_iff below.components).mpr before, ?_⟩
  cases event with
  | created => cases retracts
  | removed => rfl
  | renamed =>
      have inner : (top ++ front) ++ [] ≠ [] := by
        rintro empty
        rw [List.append_nil] at empty
        exact reports.stays _ leaves (empty ▸ List.nil_prefix)
      have nothing := does.nothing_left leaves inner
      rw [List.append_nil] at nothing
      change next.isPresent (root.descend front) = false
      rw [← Bool.not_eq_true, rooted'.isPresent_iff belowFront]
      exact fun present => present.2 nothing

-----------------------------------------------------------------------------------------
-- The invariant
-----------------------------------------------------------------------------------------

/-- A delivered event drops what it was to drop. -/
theorem ghostless_deliver (regular : state.Regular root top) (ghostless : state.Ghostless root)
    {event : DiskEvent} {rest : List DiskEvent} (queue : state.queue = event :: rest)
    (timely : state.Timely .deliver)
    : ({ state with
          queue := rest
          index := (state.index.observe state.tree event).1 } : Watching).Ghostless root := by
  have inside := regular.inside event (queue ▸ List.mem_cons_self)
  have kept (known : Path) (expected : known ∈ state.expects)
      (spared : ∀ path ∈ event.paths, known.startsWith path = true →
        event.spares state.tree path = true)
      : root.IsInside known
        ∧ (state.tree.isFile known = true ∨ Doomed state.tree rest known) := by
    obtain ⟨within, file | ⟨other, queued, gone, about, starts, drops⟩⟩ := ghostless known expected
    · exact ⟨within, .inl file⟩
    · refine ⟨within, .inr ⟨other, ?_, gone, about, starts, drops⟩⟩
      rcases List.mem_cons.mp (queue ▸ queued) with rfl | later
      · rw [spared gone about starts] at drops
        cases drops
      · exact later
  have indexed (known : Path) (member : known ∈ (state.index.observe state.tree event).1.paths)
      : root.IsInside known
        ∧ (state.tree.isFile known = true ∨ Doomed state.tree rest known) := by
    rcases Index.mem_observe regular.rooted inside member with ⟨within, file⟩ | ⟨former, spared⟩
    · exact ⟨within, .inl file⟩
    · exact kept known (paths_subset_expects state former) spared
  intro known expected
  cases seeding : state.seeding with
  | scanned found =>
      simp only [expects, seeding, List.mem_append] at expected
      rcases expected with member | among
      · exact indexed known member
      · refine kept known ?_ (timely event rest found queue seeding known among)
        simp only [expects, seeding, List.mem_append]
        exact .inr among
  | _ =>
      simp only [expects, seeding] at expected
      exact indexed known expected

/-- Every act that comes in time keeps it so. -/
theorem ghostless_after (regular : state.Regular root top) (ghostless : state.Ghostless root)
    {act : Act} (admitted : state.Admits root top act) (timely : state.Timely act)
    : (state.after root act).Ghostless root := by
  have step := step_after root state act
  generalize state.after root act = next at step ⊢
  cases step with
  | idle => exact ghostless
  | changes change events =>
      obtain ⟨rooted', reports⟩ := admitted
      intro known expected
      obtain ⟨inside, now⟩ := ghostless known expected
      refine ⟨inside, Classical.or_iff_not_imp_left.mpr fun gone => ?_⟩
      rcases now with file | doomed
      · exact doomed_of_gone (change.effect_spec regular.rooted.sound) regular.rooted rooted'
          reports inside file gone state.queue
      · exact doomed.after timely
  | delivers queue => exact ghostless_deliver regular ghostless queue timely
  | @scans found pending finds =>
      intro known expected
      obtain ⟨found', finds', scanned⟩ := Inventory.exists_scanned regular.rooted
      obtain rfl := Except.ok.inj (finds.symm.trans finds')
      rcases List.mem_append.mp expected with former | new
      · exact ghostless known (paths_subset_expects state former)
      · exact ⟨(scanned.files known new).1, .inl (scanned.files known new).2⟩
  | @seeds found scanned =>
      intro known expected
      refine ghostless known ?_
      simp only [expects, scanned, List.mem_append]
      exact Index.mem_extend expected

/-- In every run whose acts come in time, by induction on it. -/
theorem ghostless_of_reaches {tree : FileTree} (rooted : tree.Rooted root top)
    (reaches : Reaches root (fun state act => state.Admits root top act ∧ state.Timely act) { tree }
      state)
    : state.Regular root top ∧ state.Ghostless root := by
  refine @Reaches.invariant root _ (fun state => state.Regular root top ∧ state.Ghostless root)
    _ _ reaches ⟨⟨rooted, nofun⟩, nofun⟩ fun state act admitted holds => ?_
  exact ⟨holds.1.after admitted.1, ghostless_after holds.1 holds.2 admitted.1 admitted.2⟩

/-- Every known path leads to a file once the index is filled and all events are delivered. -/
theorem files_of_quiet (ghostless : state.Ghostless root) (quiet : state.Quiet) (known : Path)
    (member : known ∈ state.index.paths)
    : root.IsInside known ∧ state.tree.isFile known = true := by
  obtain ⟨inside, file | ⟨event, queued, -⟩⟩ := ghostless known (paths_subset_expects state member)
  · exact ⟨inside, file⟩
  · rw [quiet.2] at queued
    cases queued

/-- Where all known paths lead to files, no name is found that no file has. -/
theorem find_eq_nil {tree : FileTree} {index : Index} (rooted : tree.Rooted root top)
    (files : ∀ known ∈ index.paths, root.IsInside known ∧ tree.isFile known = true) {name : String}
    (none' : ∀ content, tree.entry? (top ++ [Bytes.ofText name]) ≠ some (.file content))
    : index.find root name = [] := by
  refine List.filter_eq_nil_iff.mpr fun known member read => ?_
  obtain ⟨⟨names, -, -, below⟩, file⟩ := files known member
  obtain ⟨-, content, held⟩ := (rooted.isFile_iff below).mp file
  have same : names.map Component.name = [.name (Bytes.ofText name)] :=
    List.append_cancel_left (below.components.symm.trans (beq_iff_eq.mp read))
  obtain ⟨last, rfl, last_eq⟩ := List.map_eq_singleton_iff.mp same
  exact none' content (Component.name.inj last_eq ▸ held)

/-- If everything comes in time, no ghost is left in the end: every known path leads to a file below
the root, and no name is found that no file has directly under the root.
-/
theorem no_ghosts {tree : FileTree} (rooted : tree.Rooted root top)
    (reaches : Reaches root (fun state act => state.Admits root top act ∧ state.Timely act) { tree }
      state)
    (quiet : state.Quiet)
    : (∀ known ∈ state.index.paths, root.IsInside known ∧ state.tree.isFile known = true)
      ∧ ∀ name, (∀ content, state.tree.entry? (top ++ [Bytes.ofText name]) ≠ some (.file content)) →
        state.index.find root name = [] := by
  obtain ⟨regular, ghostless⟩ := ghostless_of_reaches rooted reaches
  have files := files_of_quiet ghostless quiet
  exact ⟨files, fun _ none' => find_eq_nil regular.rooted files none'⟩

/-- A file that is renamed after the seeding. -/
theorem no_ghosts_renamed
    : ∃ state, Reaches (Path.ofText "/")
        (fun state act => state.Admits (Path.ofText "/") [] act ∧ state.Timely act)
        { tree := FileTree.grown [.write (Path.ofText "/f") []] } state
      ∧ state.Quiet
      ∧ (∀ content, state.tree.entry? [Bytes.ofText "f"] ≠ some (.file content))
      ∧ (∀ known ∈ state.index.paths, (Path.ofText "/").IsInside known
          ∧ state.tree.isFile known = true)
      ∧ state.index.find (Path.ofText "/") "f" = [] := by
  have rooted : (FileTree.grown [.write (Path.ofText "/f") []]).Rooted (Path.ofText "/") [] :=
    FileTree.rooted_top _ (by decide) (by decide) (by decide)
  have renamed : (FileTree.grown [.write (Path.ofText "/f") [],
      .rename (Path.ofText "/f") (Path.ofText "/g")]).Rooted (Path.ofText "/") [] :=
    FileTree.rooted_top _ (by decide) (by decide) (by decide)
  have started : Reaches (Path.ofText "/")
      (fun state act => state.Admits (Path.ofText "/") [] act ∧ state.Timely act)
      { tree := FileTree.grown [.write (Path.ofText "/f") []] } _ := .start
  have seeded := (started.next .scan ⟨trivial, trivial⟩).next .seed ⟨trivial, trivial⟩
  have changed := seeded.next
    (.change (.rename (Path.ofText "/f") (Path.ofText "/g"))
      [.renamed [Path.ofText "/f", Path.ofText "/g"]])
    ⟨⟨renamed, @reports_graft (Path.ofText "/") [] _ _ [Bytes.ofText "f"] [Bytes.ofText "g"]
      (by decide) (by decide)⟩, nofun⟩
  have reaches := changed.next .deliver ⟨trivial, nofun⟩
  have gone (content : Bytes) : FileTree.entry? (FileTree.grown [.write (Path.ofText "/f") [],
      .rename (Path.ofText "/f") (Path.ofText "/g")]) [Bytes.ofText "f"]
        ≠ some (.file content) := nofun
  exact ⟨_, reaches, ⟨rfl, rfl⟩, gone, (no_ghosts rooted reaches ⟨rfl, rfl⟩).1,
    (no_ghosts rooted reaches ⟨rfl, rfl⟩).2 "f" gone⟩

/-- A directory with a file, and outside it a link that leads nowhere. -/
def strayLink : FileTree :=
  .grown [.write (Path.ofText "/d/h") [], .link (Path.ofText "/l") (Path.ofText "gone")]

/-- That link takes the place of the file. -/
def strayMove : FileChange :=
  .rename (Path.ofText "/l") (Path.ofText "/d/h")

/-- A ghost is left if a removal is delivered between the scan and the end of the seeding, or if a
directory is made at the old path of a renaming before that is delivered. Even with events that are
delivered at once one is left if a link that leads nowhere takes the place of a file, and has come
from a directory that is not watched: the event only tells of its arrival.
-/
theorem ghosts_left
    : (∃ state, Reaches (Path.ofText "/") (Admits (Path.ofText "/") [])
          { tree := FileTree.grown [.write (Path.ofText "/f") []] } state
        ∧ state.Quiet
        ∧ state.tree.isPresent (Path.ofText "/f") = false
        ∧ state.index.find (Path.ofText "/") "f" = [Path.ofText "/f"])
      ∧ (∃ state, Reaches (Path.ofText "/") (Admits (Path.ofText "/") [])
          { tree := FileTree.grown [.write (Path.ofText "/a/f") []] } state
        ∧ state.Quiet
        ∧ state.tree.isPresent (Path.ofText "/a/f") = false
        ∧ Path.ofText "/a/f" ∈ state.index.paths)
      ∧ ∃ workspace log, LiveWorkspace.open? strayLink (Path.ofText "/d") = .ok (workspace, log)
        ∧ (strayMove.apply strayLink).1.isPresent (Path.ofText "/d/h") = false
        ∧ (workspace.follow strayLink strayMove).1.find "h" = [Path.ofText "/d/h"] := by
  refine ⟨?_, ?_, ?_⟩
  · have removed : (FileTree.grown [.write (Path.ofText "/f") [],
        .remove (Path.ofText "/f")]).Rooted (Path.ofText "/") [] :=
      FileTree.rooted_top _ (by decide) (by decide) (by decide)
    have started : Reaches (Path.ofText "/") (Admits (Path.ofText "/") [])
        { tree := FileTree.grown [.write (Path.ofText "/f") []] } _ := .start
    have changed := (started.next .scan trivial).next
      (.change (.remove (Path.ofText "/f")) [.removed [Path.ofText "/f"]])
      ⟨removed, @reports_cut (Path.ofText "/") [] _ _ [Bytes.ofText "f"] (by decide) (by decide)⟩
    exact ⟨_, (changed.next .deliver trivial).next .seed trivial, ⟨rfl, rfl⟩, rfl, rfl⟩
  · have renamed : (FileTree.grown [.write (Path.ofText "/a/f") [],
        .rename (Path.ofText "/a") (Path.ofText "/b")]).Rooted (Path.ofText "/") [] :=
      FileTree.rooted_top _ (by decide) (by decide) (by decide)
    have made : (FileTree.grown [.write (Path.ofText "/a/f") [],
        .rename (Path.ofText "/a") (Path.ofText "/b"),
        .makeDirectories (Path.ofText "/a")]).Rooted (Path.ofText "/") [] :=
      FileTree.rooted_top _ (by decide) (by decide) (by decide)
    have started : Reaches (Path.ofText "/") (Admits (Path.ofText "/") [])
        { tree := FileTree.grown [.write (Path.ofText "/a/f") []] } _ := .start
    have seeded := (started.next .scan trivial).next .seed trivial
    have changed := seeded.next (.change (.rename (Path.ofText "/a") (Path.ofText "/b"))
        [.renamed [Path.ofText "/a", Path.ofText "/b"]])
      ⟨renamed, @reports_graft (Path.ofText "/") [] _ _ [Bytes.ofText "a"] [Bytes.ofText "b"]
        (by decide) (by decide)⟩
    have again := changed.next
      (.change (.makeDirectories (Path.ofText "/a")) [.created [Path.ofText "/a"]])
      ⟨made, @reports_put (Path.ofText "/") [] _ [Bytes.ofText "a"] (by decide) rfl .directory⟩
    exact ⟨_, (again.next .deliver trivial).next .deliver trivial, ⟨rfl, rfl⟩, rfl, by decide⟩
  · exact ⟨_, _, rfl, rfl, rfl⟩

end Watching

end RouteDesk
