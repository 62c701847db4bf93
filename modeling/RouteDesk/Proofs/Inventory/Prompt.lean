import RouteDesk.Proofs.FileTree.Rewrites
import RouteDesk.Proofs.Inventory.Ghosts
import RouteDesk.Proofs.Inventory.Literal
import RouteDesk.Proofs.Inventory.Unlost

/-! A workspace that is told of every change at once agrees with the disk: its index holds the files
below the root, each once, and finds what a search finds.
-/

namespace RouteDesk

open FileTree (IsName pathLimit)

-----------------------------------------------------------------------------------------
-- Indexes without duplicates
-----------------------------------------------------------------------------------------

namespace Index

/-- No two known paths have the same components. -/
def Distinct (index : Index) : Prop :=
  (index.paths.map Path.components).Nodup

namespace Distinct

variable {index : Index}

theorem insert (distinct : index.Distinct) (path : Path) : (index.insert path).Distinct := by
  unfold Index.insert
  split
  case isTrue => exact distinct
  case isFalse fresh =>
    unfold Distinct
    rw [List.map_append, List.map_singleton, List.nodup_append_comm, List.singleton_append,
      List.nodup_cons]
    refine ⟨fun member => fresh ?_, distinct⟩
    obtain ⟨known, among, same⟩ := List.mem_map.mp member
    exact knows_iff.mpr ⟨known, among, same.symm⟩

theorem extend (distinct : index.Distinct) (paths : List Path) : (index.extend paths).Distinct := by
  induction paths generalizing index with
  | nil => exact distinct
  | cons path rest ih => exact ih (distinct.insert path)

theorem takeUp (distinct : index.Distinct) (tree : FileTree) (path : Path)
    : (index.takeUp tree path).1.Distinct := by
  unfold Index.takeUp
  split
  · exact distinct.insert path
  · split
    · split
      · exact distinct.extend _
      · exact distinct
    · exact distinct

theorem dropBelow (distinct : index.Distinct) (path : Path) : (index.dropBelow path).Distinct :=
  distinct.sublist (List.filter_sublist.map Path.components)

theorem observe (distinct : index.Distinct) (tree : FileTree) (event : DiskEvent)
    : (index.observe tree event).1.Distinct := by
  rw [observe_eq]
  generalize event.paths = paths
  induction paths generalizing index with
  | nil => exact distinct
  | cons path rest ih =>
      refine ih ?_
      unfold react
      split
      · exact distinct.takeUp tree path
      · exact distinct.dropBelow path

/-- A known name is found once. -/
theorem map_find (distinct : index.Distinct) {root : Path} {name : String}
    (holds : index.Holds root [Bytes.ofText name])
    : (index.find root name).map Path.components
      = [root.components ++ [.name (Bytes.ofText name)]] := by
  obtain ⟨known, member, read⟩ := holds
  have among : root.components ++ [.name (Bytes.ofText name)] ∈ index.paths.map Path.components :=
    List.mem_map.mpr ⟨known, member, read⟩
  have through : (index.find root name).map Path.components
      = (index.paths.map Path.components).filter
          (· == root.components ++ [.name (Bytes.ofText name)]) := by
    rw [List.filter_map]
    rfl
  rw [through, List.filter_beq, List.count_eq_one_of_mem distinct among, List.replicate_one]

end Distinct

end Index

namespace Watching

variable {root : Path} {top : Place} {state : Watching}

theorem distinct_after (distinct : state.index.Distinct) (act : Act)
    : (state.after root act).index.Distinct := by
  have step := step_after root state act
  generalize state.after root act = next at step ⊢
  cases step with
  | idle => exact distinct
  | changes => exact distinct
  | delivers => exact distinct.observe _ _
  | scans => exact distinct
  | seeds => exact distinct.extend _

/-- Queued events are delivered one after the other while nothing else happens. -/
theorem Reaches.delivered {allowed : Watching → Act → Prop} {start : Watching} {tree : FileTree}
    {events : List DiskEvent} {index : Index}
    (reaches : Reaches root allowed start ⟨tree, events, index, .done⟩)
    (prompt : ∀ queue index, allowed ⟨tree, queue, index, .done⟩ .deliver)
    : Reaches root allowed start
        { tree, seeding := .done
          index := events.foldl (fun index event => (index.observe tree event).1) index } := by
  induction events generalizing index with
  | nil => exact reaches
  | cons event rest ih => exact ih (reaches.next .deliver (prompt _ _))

theorem Reaches.mono {allowed admitted : Watching → Act → Prop} {start : Watching}
    (reaches : Reaches root allowed start state)
    (more : ∀ state act, allowed state act → admitted state act)
    : Reaches root admitted start state := by
  induction reaches with
  | start => exact .start
  | next before act allowed ih => exact ih.next act (more _ _ allowed)

end Watching

-----------------------------------------------------------------------------------------
-- Workspaces that are told of every change
-----------------------------------------------------------------------------------------

namespace LiveWorkspace

variable {root : Path} {top : Place} {tree : FileTree} {workspace : LiveWorkspace}

/-- A workspace of a root that has been told of every change of the tree since it was opened. -/
inductive Informed (root : Path) (top : Place) : FileTree → LiveWorkspace → Prop
  | opened {tree : FileTree} {workspace : LiveWorkspace} {log : Log}
    (rooted : tree.Rooted root top) (opens : open? tree root = .ok (workspace, log))
    : Informed root top tree workspace
  | told {tree : FileTree} {workspace : LiveWorkspace} (informed : Informed root top tree workspace)
    (change : FileChange) (events : List DiskEvent) (watcher : Watcher)
    (rooted : (change.apply tree).1.Rooted root top)
    (reports : Reports root top tree (change.apply tree).1 (change.effect tree) events)
    : Informed root top (change.apply tree).1
        ({ workspace with watcher }.observeAll (change.apply tree).1 events).1

/-- A workspace that goes by the reports of its own watcher is told what they report. -/
theorem Informed.follow (informed : Informed root top tree workspace) {change : FileChange}
    (rooted : (change.apply tree).1.Rooted root top)
    (reports : Reports root top tree (change.apply tree).1 (change.effect tree)
      (workspace.watcher.notice tree change).1)
    : Informed root top (change.apply tree).1 (workspace.follow tree change).1 :=
  informed.told change _ _ rooted reports

/-- A root without links can be watched. -/
theorem exists_open (rooted : tree.Rooted root top)
    : ∃ found log, Inventory.all tree root = .ok found
        ∧ open? tree root = .ok (⟨root, Index.extend {} found, .ofRoot tree root⟩, log) := by
  obtain ⟨found, finds, -⟩ := Inventory.exists_scanned rooted
  exact ⟨found, _, finds, by simp only [open?, rooted.leads, finds]; rfl⟩

/-- What an informed workspace knows has been reached by acts that come in time. -/
theorem Informed.reaches (informed : Informed root top tree workspace)
    : tree.Rooted root top ∧ workspace.root = root
      ∧ ∃ start : FileTree, start.Rooted root top
        ∧ Watching.Reaches root (fun state act => state.Admits root top act ∧ state.Timely act)
          { tree := start } ⟨tree, [], workspace.index, .done⟩ := by
  induction informed with
  | @opened tree workspace log rooted opens =>
      obtain ⟨found, logged, finds, opens'⟩ := exists_open rooted
      obtain ⟨rfl, -⟩ := Prod.mk.inj (Except.ok.inj (opens.symm.trans opens'))
      exact ⟨rooted, rfl, tree, rooted, .seeded finds ⟨trivial, trivial⟩ ⟨trivial, trivial⟩⟩
  | told informed change events watcher rooted reports ih =>
      obtain ⟨-, same, start, first, reaches⟩ := ih
      have changed := reaches.next (.change change events) ⟨⟨rooted, reports⟩, nofun⟩
      rw [observeAll_eq]
      exact ⟨rooted, same, start, first, changed.delivered fun _ _ => ⟨trivial, nofun⟩⟩

theorem Informed.distinct (informed : Informed root top tree workspace)
    : workspace.index.Distinct := by
  obtain ⟨-, -, start, -, reaches⟩ := informed.reaches
  exact @Watching.Reaches.invariant root _ (fun state => state.index.Distinct) _ _ reaches .nil
    fun state act _ distinct => Watching.distinct_after distinct act

-----------------------------------------------------------------------------------------
-- Files under paths that are too long
-----------------------------------------------------------------------------------------

/-- A new file is written under its path in a root, if that is not too long. Witness: the walk to
the root misses it in its last step, and the directory on the way is there.
-/
theorem writeWithParents_child (rooted : tree.Rooted root top) {name : String}
    (proper : IsName (Bytes.ofText name))
    (fits : (Bytes.ofText name).length ≤ FileTree.nameLimit ∧ 0 ∉ Bytes.ofText name)
    (absent : tree.entry? (top ++ [Bytes.ofText name]) = none)
    (short : (root.child name).bytes.length ≤ pathLimit) (content : Bytes)
    : tree.writeWithParents (root.child name) content
      = (tree.put (top ++ [Bytes.ofText name]) (.file content), .ok ()) := by
  have below : Path.Below root [Bytes.ofText name] (root.child name) :=
    (Path.Below.self rooted.absolute).join proper
  have ends := below.ends (List.cons_ne_nil _ _)
  have found : tree.locateFile (root.child name) = .ok ⟨top ++ [Bytes.ofText name], none⟩ := by
    have clean := rooted.clean below (List.forall_mem_singleton.mpr fits.2)
    refine FileTree.locateBy_eq_ok_iff.mpr ⟨clean, ?_, short, FileTree.walk_eq_ok_iff.mpr ?_⟩
    · obtain ⟨tail, same⟩ := (Path.isAbsolute_iff _).mp below.absolute
      rw [same]
      nofun
    · rw [FileTree.stepsToFile_eq_steps ends]
      have rootWalks := FileTree.walks_of_locate rooted.leads
      have along := rootWalks.append fun _ =>
        .misses rooted.top_directory (Nat.not_lt.mpr fits.1) absent
      rw [rooted.absolute, if_pos rfl] at along
      rw [below.absolute, if_pos rfl]
      exact (along.of_moves (FileTree.Rooted.moves_steps below).symm
        (.inr ⟨FileTree.Rooted.getLast?_steps root (List.cons_ne_nil _ []), ends⟩)).toFile nofun
  obtain ⟨above, read⟩ := Path.parent?_of_components below.components
  have there : tree.isDirectory (.ofComponents root.components) = true := by
    have fewer := Path.ofComponents_sublist (List.prefix_rfl : root.components <+: root.components)
    obtain ⟨-, -, rootShort, -⟩ := FileTree.locateBy_eq_ok_iff.mp rooted.leads
    have under : Path.Below root [] (.ofComponents root.components) :=
      ⟨by
        rw [Path.isAbsolute_iff_head?, read, ← Path.isAbsolute_iff_head?]
        exact rooted.absolute, read.trans (List.append_nil _).symm, absurd rfl⟩
    refine (rooted.isDirectory_iff under).mpr ⟨fewer.length_le.trans rootShort, ?_⟩
    rw [List.append_nil]
    exact rooted.top_directory
  rw [FileTree.writeWithParents, above]
  simp only [FileTree.makeDirectories_of_isDirectory there, FileTree.write, found]

/-- A file is not known whose path is too long when it is written. -/
theorem exists_informed_of_overlong (rooted : tree.Rooted root top) {name : String}
    (written : (tree.put (top ++ [Bytes.ofText name]) (.file [])).Rooted root top)
    (absent : tree.entry? (top ++ [Bytes.ofText name]) = none) {path : Path}
    (writes : tree.writeWithParents path []
      = (tree.put (top ++ [Bytes.ofText name]) (.file []), .ok ()))
    (long : pathLimit < (root.child name).bytes.length)
    : ∃ workspace, Informed root top (tree.put (top ++ [Bytes.ofText name]) (.file [])) workspace
        ∧ workspace.find name = [] := by
  have reports : Reports root top tree (tree.put (top ++ [Bytes.ofText name]) (.file [])) .grows
      [.created [root.child name]] :=
    reports_put (List.cons_ne_nil _ []) absent (.file [])
  have effect : (FileChange.write path []).effect tree = .grows := by
    unfold FileChange.effect
    split <;> rfl
  have applies : ((FileChange.write path []).apply tree).1
      = tree.put (top ++ [Bytes.ofText name]) (.file []) :=
    congrArg Prod.fst writes
  obtain ⟨found, finds, scanned⟩ := Inventory.exists_scanned rooted
  obtain ⟨found', log, finds', opens⟩ := exists_open rooted
  obtain rfl := Except.ok.inj (finds.symm.trans finds')
  have told := (Informed.opened rooted opens).told (.write path []) [.created [root.child name]] {}
    (applies ▸ written) (by rw [applies, effect]; exact reports)
  rw [applies, observeAll_eq] at told
  have unknown : Index.find (Index.extend {} found) root name = [] :=
    Watching.find_eq_nil rooted
      (fun known member => scanned.files known ((Index.mem_extend member).resolve_left (by simp)))
      (by simp [absent])
  refine ⟨_, told, ?_⟩
  rw [find]
  change (Index.takeUp _ _ _).1.find root name = []
  rw [Index.takeUp_of_long _ _ long]
  exact unknown

-----------------------------------------------------------------------------------------
-- Agreement with the disk
-----------------------------------------------------------------------------------------

/-- Whether a workspace knows the files below its root and nothing else, and finds what a search
finds. Only files count whose names are text and whose paths are not too long.
-/
structure Agrees (root : Path) (top : Place) (tree : FileTree) (workspace : LiveWorkspace)
    : Prop where
  files (known : Path) (member : known ∈ workspace.index.paths)
    : ∃ names content, Path.Below root names known
        ∧ tree.entry? (top ++ names) = some (.file content)
  all (names : List Bytes) (content : Bytes)
    (held : tree.entry? (top ++ names) = some (.file content))
    (legible : Watching.Legible root names)
    : workspace.index.Holds root names
  distinct : workspace.index.Distinct
  finds (name : String) (whole : '/' ∉ name.toList)
    (short : (root.child name).bytes.length ≤ pathLimit)
    : ∃ found, Inventory.find tree root name = .ok found
        ∧ (workspace.find name).map Path.components = found.map Path.components

/-- A root without links can be watched, and a workspace that is told of every change at once agrees
with the disk.
-/
theorem agrees_of_informed
    : (∀ tree : FileTree, tree.Rooted root top → ∃ workspace log,
        open? tree root = .ok (workspace, log))
      ∧ ∀ tree workspace, Informed root top tree workspace → Agrees root top tree workspace := by
  refine ⟨fun tree rooted => ?_, fun tree workspace informed => ?_⟩
  · obtain ⟨found, log, -, opens⟩ := exists_open rooted
    exact ⟨_, log, opens⟩
  · obtain ⟨rooted, same, start, first, reaches⟩ := informed.reaches
    have ghostless := (Watching.ghostless_of_reaches first reaches).2
    have lossless := (Watching.lossless_of_reaches first (reaches.mono fun _ _ => And.left)).2
    have files := Watching.files_of_quiet ghostless ⟨rfl, rfl⟩
    have all {names : List Bytes} {content : Bytes}
        (held : tree.entry? (top ++ names) = some (.file content))
        (legible : Watching.Legible root names) : workspace.index.Holds root names :=
      Watching.holds_of_quiet lossless ⟨rfl, rfl⟩ held legible
    refine ⟨fun known member => ?_, fun _ _ => all, informed.distinct, fun name whole short => ?_⟩
    · obtain ⟨⟨names, -, -, below⟩, file⟩ := files known member
      obtain ⟨-, content, held⟩ := (rooted.isFile_iff below).mp file
      exact ⟨names, content, below, held⟩
    · unfold find
      rw [same]
      by_cases present : ∃ content, tree.entry? (top ++ [Bytes.ofText name]) = some (.file content)
      · obtain ⟨content, held⟩ := present
        obtain ⟨path, finds, read⟩ := Inventory.find_of_file rooted held short
        have holds := all held ⟨List.forall_mem_singleton.mpr ⟨name, rfl⟩, short⟩
        exact ⟨[path], finds, (informed.distinct.map_find holds).trans (by rw [← read]; rfl)⟩
      · have none' := fun content held => present ⟨content, held⟩
        refine ⟨[], Inventory.find_of_no_file rooted whole none', ?_⟩
        rw [Watching.find_eq_nil rooted files none']

/-- A workspace whose watcher reports a file that is written. -/
theorem agrees_written
    : (∃ workspace log, open? {} (Path.ofText "/") = .ok (workspace, log))
      ∧ Agrees (Path.ofText "/") [] (({} : FileTree).put [Bytes.ofText "f"] (.file []))
        (follow {} ⟨Path.ofText "/", {}, .ofRoot {} (Path.ofText "/")⟩
          (.write (Path.ofText "/f") [])).1 := by
  have rooted : ({} : FileTree).Rooted (Path.ofText "/") [] :=
    FileTree.rooted_top [] (by decide) (by decide) (by decide)
  have written : (FileTree.grown [.write (Path.ofText "/f") []]).Rooted (Path.ofText "/") [] :=
    FileTree.rooted_top _ (by decide) (by decide) (by decide)
  have reports : Reports (Path.ofText "/") [] {} (({} : FileTree).put [Bytes.ofText "f"] (.file []))
      .grows [.created [Path.ofText "/f"]] :=
    reports_put (List.cons_ne_nil _ []) rfl (.file [])
  have opened : Informed (Path.ofText "/") [] {}
      ⟨Path.ofText "/", {}, .ofRoot {} (Path.ofText "/")⟩ :=
    .opened rooted rfl
  exact ⟨agrees_of_informed.1 {} rooted,
    agrees_of_informed.2 _ _ (@Informed.follow _ _ _ _ opened (.write (Path.ofText "/f") []) written
      reports)⟩

/-- A file is not known whose path is too long, be it that no search finds it, or that a search
finds it by a shorter spelling of the root.
-/
theorem disagrees_overlong
    : (Watching.sunken.Rooted Watching.abyss (List.replicate 21 Watching.broad)
        ∧ Watching.sunken.entry? (List.replicate 21 Watching.broad ++ [Bytes.ofText "a"])
          = some (.file [])
        ∧ ∃ workspace log, open? Watching.sunken Watching.abyss = .ok (workspace, log)
          ∧ ¬ workspace.index.Holds Watching.abyss [Bytes.ofText "a"])
      ∧ Deep.tree.Rooted Deep.wide Deep.place
        ∧ ∃ workspace,
          Informed Deep.wide Deep.place (Deep.holding (Bytes.ofText "a")) workspace
          ∧ workspace.find "a" = []
          ∧ Inventory.find (Deep.holding (Bytes.ofText "a")) Deep.wide "a"
            = .ok [Deep.root.child "a"] := by
  constructor
  · obtain ⟨found, log, finds, opens⟩ := exists_open Watching.rooted_sunken
    exact ⟨Watching.rooted_sunken, FileTree.entry?_put_self (by simp) _ _, _, log, opens,
      Watching.not_holds_sunken finds⟩
  · have proper : IsName (Bytes.ofText "a") := .name (by decide) (by decide) (by decide)
    obtain ⟨rooted, written⟩ := Deep.rooted_wide
    have writes := writeWithParents_child Deep.rooted_root.1 proper (by decide)
      (Deep.entry?_place_concat _) (Deep.length_child_root_le proper (by decide)) []
    obtain ⟨workspace, informed, unknown⟩ := exists_informed_of_overlong rooted
      (written proper (by decide)) (Deep.entry?_place_concat _) writes
      (Deep.pathLimit_lt_child_wide proper)
    exact ⟨rooted, workspace, informed, unknown, Inventory.find_wide proper (by decide)⟩

end LiveWorkspace

end RouteDesk
