import RouteDesk.Proofs.Inventory.Depths
import RouteDesk.Proofs.Inventory.Watching

/-! A watched index loses no file, however late events arrive. What is left in the queue decides for
every file that is there whether it is known in the end: an event that announces it makes it known,
and only an event of its removal, which comes before that, can take this back.
-/

namespace RouteDesk

open FileTree (IsName pathLimit)

-----------------------------------------------------------------------------------------
-- Files that a queue makes known
-----------------------------------------------------------------------------------------

/-- Whether a file that stays where it is will be known after an event, given whether it is known
before it.
-/
def DiskEvent.Secures (root : Path) (names : List Bytes) (known : Prop) (event : DiskEvent)
    : Prop :=
  if event.announces then known ∨ event.Mentions root names
  else known ∧ ¬ event.Mentions root names

/-- Whether it will be known after all events of a queue. -/
def Secured (root : Path) (names : List Bytes) (known : Prop) (queue : List DiskEvent) : Prop :=
  queue.foldl (DiskEvent.Secures root names) known

section Secured

variable {root : Path} {names : List Bytes} {known later : Prop} {queue : List DiskEvent}

theorem DiskEvent.Secures.mono {event : DiskEvent} (secures : event.Secures root names known)
    (more : known → later)
    : event.Secures root names later := by
  unfold DiskEvent.Secures at secures ⊢
  split
  case isTrue announces =>
    rw [if_pos announces] at secures
    exact secures.imp_left more
  case isFalse silent =>
    rw [if_neg silent] at secures
    exact secures.imp_left more

theorem Secured.mono (secured : Secured root names known queue) (more : known → later)
    : Secured root names later queue := by
  induction queue generalizing known later with
  | nil => exact more secured
  | cons event rest ih => exact ih secured fun secures => secures.mono more

theorem secured_append (first second : List DiskEvent)
    : Secured root names known (first ++ second)
      ↔ Secured root names (Secured root names known first) second := by
  unfold Secured
  rw [List.foldl_append]

/-- A file that none of the events removes is known after them if it was known before, or if one
of them announces it.
-/
theorem secured_of_spared
    (spared : ∀ event ∈ queue, event.announces = false → ¬ event.Mentions root names)
    (told : known ∨ ∃ event ∈ queue, event.announces = true ∧ event.Mentions root names)
    : Secured root names known queue := by
  induction queue generalizing known with
  | nil => exact told.resolve_right (by simp)
  | cons event rest ih =>
      obtain ⟨first, others⟩ := List.forall_mem_cons.mp spared
      refine ih others ?_
      unfold DiskEvent.Secures
      by_cases announces : event.announces = true
      · rw [if_pos announces]
        rcases told with holds | ⟨other, among, announces', mentions⟩
        · exact .inl (.inl holds)
        · rcases List.mem_cons.mp among with rfl | later
          · exact .inl (.inr mentions)
          · exact .inr ⟨other, later, announces', mentions⟩
      · rw [if_neg announces]
        rcases told with holds | ⟨other, among, announces', mentions⟩
        · exact .inl ⟨holds, first (Bool.not_eq_true _ ▸ announces)⟩
        · rcases List.mem_cons.mp among with rfl | later
          · exact absurd announces' announces
          · exact .inr ⟨other, later, announces', mentions⟩

end Secured

namespace Watching

variable {root : Path} {top : Place} {state : Watching} {names : List Bytes}

-----------------------------------------------------------------------------------------
-- The invariant
-----------------------------------------------------------------------------------------

/-- Whether a path is known, or will be by the scan. -/
def Settled (root : Path) (state : Watching) (names : List Bytes) : Prop :=
  state.index.Holds root names
  ∨ match state.seeding with
    | .pending => True
    | .scanned found => ∃ path ∈ found, path.components = root.components ++ names.map .name
    | .done => False

/-- Whether files at these names can be looked up and searched for. -/
structure Legible (root : Path) (names : List Bytes) : Prop where
  texts : ∀ name ∈ names, Bytes.IsText name
  short : (root.descend names).bytes.length ≤ pathLimit

/-- Every file that is there will be known when the queue has been delivered. -/
def Lossless (root : Path) (top : Place) (state : Watching) : Prop :=
  ∀ names content, state.tree.entry? (top ++ names) = some (.file content) → Legible root names →
    Secured root names (state.Settled root names) state.queue

/-- A change leaves files in their places, which are not reported as removed, or brings them, which
is announced.
-/
theorem lossless_change (regular : state.Regular root top) (lossless : state.Lossless root top)
    {change : FileChange} {events : List DiskEvent}
    (admitted : state.Admits root top (.change change events))
    : (state.after root (.change change events)).Lossless root top := by
  obtain ⟨rooted', reports⟩ := admitted
  have rooted := regular.rooted
  have does := change.effect_spec rooted.sound
  intro names content held legible
  change FileTree.entry? (change.apply state.tree).1 (top ++ names) = some (.file content) at held
  change Secured root names (state.Settled root names) (state.queue ++ events)
  have present : FileTree.entry? (change.apply state.tree).1 (top ++ names) ≠ none := by
    simp [held]
  have given : names ≠ [] := by
    rintro rfl
    rw [List.append_nil, rooted'.top_directory] at held
    cases held
  refine (secured_append state.queue events).mpr
    (secured_of_spared (fun event told silent => ?_) ?_)
  · cases event with
    | removed paths => exact reports.not_mentions does rooted rooted' present given told
    | _ => cases silent
  · by_cases old : ∃ content, state.tree.entry? (top ++ names) = some (.file content)
    · obtain ⟨former, held⟩ := old
      exact .inl (lossless names former held legible)
    · obtain ⟨goal, brings, above⟩ :=
        does.brought_of_file held fun former held => old ⟨former, held⟩
      obtain ⟨front, rfl, before⟩ := exists_front above (reports.kept goal brings)
      obtain ⟨event, told, announces, first, higher, about⟩ := reports.arrivals front brings
      exact .inr ⟨event, told, announces, first, higher.trans before, about⟩

/-- What is on the way to a file is there. -/
theorem isPresent_front {tree : FileTree} (rooted : tree.Rooted root top)
    (present : tree.entry? (top ++ names) ≠ none)
    (short : (root.descend names).bytes.length ≤ pathLimit) {front : List Bytes}
    (above : front <+: names)
    : tree.isPresent (root.descend front) = true := by
  obtain ⟨more, rfl⟩ := above
  obtain ⟨proper, properMore⟩ := List.forall_mem_append.mp (rooted.isName present)
  have below := Path.below_descend rooted.absolute proper
  rw [Path.descend_append] at short
  refine (rooted.isPresent_iff below).mpr
    ⟨Nat.le_trans (Path.length_le_descend below.absolute properMore) short, ?_⟩
  by_cases last : more = []
  · rwa [last, List.append_nil] at present
  · rw [← List.append_assoc] at present
    rw [rooted.sound.directory_above present last]
    nofun

/-- A delivered event settles what it was to settle. -/
theorem settled_deliver (regular : state.Regular root top) {event : DiskEvent}
    {rest : List DiskEvent} (queue : state.queue = event :: rest) {content : Bytes}
    (held : state.tree.entry? (top ++ names) = some (.file content))
    (legible : Legible root names)
    (secures : event.Secures root names (state.Settled root names))
    : ({ state with
          queue := rest
          index := (state.index.observe state.tree event).1 } : Watching).Settled root names := by
  have rooted := regular.rooted
  have inside := regular.inside event (queue ▸ List.mem_cons_self)
  have present : state.tree.entry? (top ++ names) ≠ none := by simp [held]
  have spared (front : List Bytes) (above : front <+: names)
      (about : root.descend front ∈ event.paths)
      : event.spares state.tree (root.descend front) = true := by
    cases event with
    | created => rfl
    | removed => exact absurd ⟨front, above, about⟩ secures.2
    | renamed => exact isPresent_front rooted present legible.short above
  have known : state.Settled root names ∨ event.Mentions root names := by
    unfold DiskEvent.Secures at secures
    split at secures
    · exact secures
    · exact .inl secures.1
  have observed (told : state.index.Holds root names ∨ event.Mentions root names) :=
    Index.holds_observe rooted held legible.texts legible.short inside spared told
  rcases known with (holds | scanned) | mentions
  · exact .inl (observed (.inl holds))
  · exact .inr scanned
  · exact .inl (observed (.inr mentions))

/-- Every act keeps all files that are there in view. -/
theorem lossless_after (regular : state.Regular root top) (lossless : state.Lossless root top)
    {act : Act} (admitted : state.Admits root top act)
    : (state.after root act).Lossless root top := by
  have step := step_after root state act
  generalize goal : state.after root act = next at step ⊢
  cases step with
  | idle => exact lossless
  | changes change events => exact goal ▸ lossless_change regular lossless admitted
  | delivers queue =>
      intro names content held legible
      have secured := lossless names content held legible
      rw [queue] at secured
      exact Secured.mono secured (settled_deliver regular queue held legible)
  | scans pending finds =>
      intro names content held legible
      refine (lossless names content held legible).mono fun _ => .inr ?_
      obtain ⟨found, finds', scanned⟩ := Inventory.exists_scanned regular.rooted
      obtain rfl := Except.ok.inj (finds.symm.trans finds')
      obtain ⟨path, member, below⟩ := scanned.all names content held legible.texts legible.short
      exact ⟨path, member, below.components⟩
  | seeds scanned =>
      intro names content held legible
      refine (lossless names content held legible).mono fun settled => .inl ?_
      rcases settled with holds | among
      · exact holds.mono (Index.subset_extend _ _)
      · rw [scanned] at among
        obtain ⟨path, member, read⟩ := among
        obtain ⟨known, inserted, same⟩ := Index.exists_mem_extend state.index member
        exact ⟨known, inserted, same.trans read⟩

/-- In every run, by induction on it. Before the scan nothing is lost yet. -/
theorem lossless_of_reaches {tree : FileTree} (rooted : tree.Rooted root top)
    (reaches : Reaches root (Admits root top) { tree } state)
    : state.Regular root top ∧ state.Lossless root top := by
  refine @Reaches.invariant root _ (fun state => state.Regular root top ∧ state.Lossless root top)
    _ _ reaches ⟨⟨rooted, nofun⟩, fun _ _ _ _ => .inr trivial⟩ fun state act admitted holds => ?_
  exact ⟨holds.1.after admitted, lossless_after holds.1 holds.2 admitted⟩

-----------------------------------------------------------------------------------------
-- A root that is as long as may be
-----------------------------------------------------------------------------------------

/-- A name of so many letters that twenty-one of them make up the longest path. -/
def broad : Bytes :=
  FileTree.letters 194

/-- The innermost of as many directories as a path can lead through. -/
def abyss : Path :=
  (Path.ofText "/").descend (List.replicate 21 broad)

/-- The tree with these directories and one file in the innermost one. -/
def sunken : FileTree :=
  (FileTree.nested broad 21).put (List.replicate 21 broad ++ [Bytes.ofText "a"]) (.file [])

theorem isName_abyss : ∀ name ∈ List.replicate 21 broad, IsName name :=
  fun _ member => List.eq_of_mem_replicate member ▸ FileTree.isName_letters 193

theorem isPlain_abyss : abyss.IsPlain :=
  Path.IsPlain.top.descend isName_abyss

theorem length_abyss : abyss.bytes.length = pathLimit := by
  rw [abyss, Path.length_descend_top isName_abyss (by simp), List.map_replicate,
    List.sum_replicate, broad, FileTree.letters, List.length_replicate]
  rfl

theorem rooted_sunken : sunken.Rooted abyss (List.replicate 21 broad) :=
  FileTree.rooted_innermost_put (FileTree.isName_letters 193) (FileTree.fits_letters (by decide))
    (Path.below_descend rfl isName_abyss)
    (Path.isText_descend ⟨"/", rfl⟩ fun _ member =>
      List.eq_of_mem_replicate member ▸ FileTree.isText_letters 194)
    (Nat.le_of_eq length_abyss) (.name (by decide) (by decide) (by decide)) (by decide)

/-- The file cannot be scanned, for its path is too long. -/
theorem not_holds_sunken {found : List Path} (finds : Inventory.all sunken abyss = .ok found)
    : ¬ (Index.extend {} found).Holds abyss [Bytes.ofText "a"] := by
  rintro ⟨known, member, read⟩
  have proper : IsName (Bytes.ofText "a") := .name (by decide) (by decide) (by decide)
  have long := Path.length_lt_join isPlain_abyss.isAbsolute proper
  rw [length_abyss] at long
  exact Inventory.not_found_of_long rooted_sunken isPlain_abyss
    (List.forall_mem_singleton.mpr proper) long finds
    ((Index.mem_extend member).resolve_left (by simp)) read

-----------------------------------------------------------------------------------------
-- Quiet states
-----------------------------------------------------------------------------------------

/-- Every file is known once the index is filled and all events are delivered. -/
theorem holds_of_quiet (lossless : state.Lossless root top) (quiet : state.Quiet)
    {content : Bytes} (held : state.tree.entry? (top ++ names) = some (.file content))
    (legible : Legible root names)
    : state.index.Holds root names := by
  have secured := lossless names content held legible
  obtain ⟨filled, delivered⟩ := quiet
  rw [delivered] at secured
  refine secured.resolve_right ?_
  rw [filled]
  exact id

/-- However late events arrive, every file below the root whose names are text and whose path is
not too long is known in the end. If it is directly under the root, it is found by its name.
-/
theorem nothing_lost {tree : FileTree} (rooted : tree.Rooted root top)
    (reaches : Reaches root (Admits root top) { tree } state) (quiet : state.Quiet)
    : (∀ names content, state.tree.entry? (top ++ names) = some (.file content) →
        Legible root names → state.index.Holds root names)
      ∧ ∀ name content, state.tree.entry? (top ++ [Bytes.ofText name]) = some (.file content) →
        (root.child name).bytes.length ≤ pathLimit →
          state.index.knows (root.child name) = true
          ∧ ∃ path ∈ state.index.find root name, path.agrees (root.child name) = true := by
  obtain ⟨regular, lossless⟩ := lossless_of_reaches rooted reaches
  refine ⟨fun names content held legible => holds_of_quiet lossless quiet held legible,
    fun name content held short => ?_⟩
  have present : state.tree.entry? (top ++ [Bytes.ofText name]) ≠ none := by simp [held]
  have below := Path.below_descend rooted.absolute (regular.rooted.isName present)
  obtain ⟨path, member, read⟩ := holds_of_quiet lossless quiet held
    ⟨List.forall_mem_singleton.mpr ⟨name, rfl⟩, short⟩
  have same : path.components = (root.child name).components := read.trans below.components.symm
  exact ⟨Index.knows_iff.mpr ⟨path, member, same.symm⟩, path,
    List.mem_filter.mpr ⟨member, beq_iff_eq.mpr read⟩, beq_iff_eq.mpr same⟩

/-- A file that is written between the scan and the end of the seeding, and reported after it. -/
theorem nothing_lost_late
    : ∃ state, Reaches (Path.ofText "/") (Admits (Path.ofText "/") []) { tree := {} } state
      ∧ state.Quiet
      ∧ state.tree.entry? [Bytes.ofText "a"] = some (.file [])
      ∧ state.index.knows (Path.ofText "/a") = true
      ∧ ∃ path ∈ state.index.find (Path.ofText "/") "a", path.agrees (Path.ofText "/a") = true := by
  have rooted : ({} : FileTree).Rooted (Path.ofText "/") [] :=
    FileTree.rooted_top [] (by decide) (by decide) (by decide)
  have written : (FileTree.grown [.write (Path.ofText "/a") []]).Rooted (Path.ofText "/") [] :=
    FileTree.rooted_top _ (by decide) (by decide) (by decide)
  have reports : Reports (Path.ofText "/") [] {} (({} : FileTree).put [Bytes.ofText "a"] (.file []))
      .grows [.created [Path.ofText "/a"]] :=
    reports_put (List.cons_ne_nil _ []) rfl (.file [])
  have started : Reaches (Path.ofText "/") (Admits (Path.ofText "/") []) { tree := {} }
      { tree := {} } := .start
  have changed := (started.next .scan trivial).next
    (.change (.write (Path.ofText "/a") []) [.created [Path.ofText "/a"]]) ⟨written, reports⟩
  have reaches := (changed.next .seed trivial).next .deliver trivial
  exact ⟨_, reaches, ⟨rfl, rfl⟩, rfl,
    (nothing_lost rooted reaches ⟨rfl, rfl⟩).2 "a" [] rfl (by decide)⟩

/-- A file is lost if its path is too long, or if it is there before the scan and its name is no
text.
-/
theorem lost_overlong_and_untextual
    : (sunken.Rooted abyss (List.replicate 21 broad)
        ∧ ∃ state, Reaches abyss (Admits abyss (List.replicate 21 broad)) { tree := sunken } state
          ∧ state.Quiet
          ∧ state.tree.entry? (List.replicate 21 broad ++ [Bytes.ofText "a"]) = some (.file [])
          ∧ state.index.knows (abyss.child "a") = false
          ∧ state.index.find abyss "a" = [])
      ∧ (({} : FileTree).put [[0xFF]] (.file [])).Rooted (Path.ofText "/") []
        ∧ ∃ state, Reaches (Path.ofText "/") (Admits (Path.ofText "/") [])
            { tree := ({} : FileTree).put [[0xFF]] (.file []) } state ∧ state.Quiet
          ∧ state.tree.entry? [[0xFF]] = some (.file [])
          ∧ state.index.paths = [] := by
  constructor
  · obtain ⟨found, finds, -⟩ := Inventory.exists_scanned rooted_sunken
    have held : sunken.entry? (List.replicate 21 broad ++ [Bytes.ofText "a"]) = some (.file []) :=
      FileTree.entry?_put_self (by simp) _ _
    have unknown := not_holds_sunken finds
    have below := Path.below_descend isPlain_abyss.isAbsolute
      (@FileTree.Rooted.isName _ _ _ [Bytes.ofText "a"] rooted_sunken (by rw [held]; nofun))
    refine ⟨rooted_sunken, _, .seeded finds trivial trivial, ⟨rfl, rfl⟩, held, ?_, ?_⟩
    · rw [← Bool.not_eq_true, Index.knows_iff]
      rintro ⟨known, member, same⟩
      exact unknown ⟨known, member, same.symm.trans below.components⟩
    · exact List.filter_eq_nil_iff.mpr fun known member read =>
        unknown ⟨known, member, beq_iff_eq.mp read⟩
  · have rooted := FileTree.rooted_top [.write ⟨[Path.slash, 0xFF]⟩ []] (by decide) (by decide)
      (by decide)
    have started : Reaches (Path.ofText "/") (Admits (Path.ofText "/") [])
        { tree := ({} : FileTree).put [[0xFF]] (.file []) } _ := .start
    exact ⟨rooted, _, (started.next .scan trivial).next .seed trivial, ⟨rfl, rfl⟩, rfl, rfl⟩

end Watching

end RouteDesk
