import RouteDesk.Inventory.Watcher
import RouteDesk.Proofs.FileTree.Spared
import RouteDesk.Proofs.Inventory.Rooted

/-! What changes of the tree come to, place by place: things are added, a place is emptied, or what
stood at one place stands at another. Whatever is no longer there has left with the emptied place,
and whatever is there anew has come with a place that something was brought to.
-/

namespace RouteDesk

open FileTree (entry?_cut entry?_graft_append entry?_graft_of_apart entry_of_locateBy)

/-- What a change comes to. -/
inductive Effect where
  | grows
  | empties (place : Place)
  | moves (origin goal : Place)
deriving DecidableEq

namespace Effect

/-- The place at which nothing is left. -/
def leaves? : Effect → Option Place
  | .grows => none
  | .empties place => some place
  | .moves origin _ => some origin

/-- Whether something has come to a place. -/
def Brings (before after : FileTree) (effect : Effect) (place : Place) : Prop :=
  match effect with
  | .grows => before.entry? place = none ∧ after.entry? place ≠ none
  | .empties _ => False
  | .moves _ goal => place = goal

end Effect

/-- What a change of a tree comes to. -/
def FileChange.effect (tree : FileTree) (change : FileChange) : Effect :=
  match (change.apply tree).2 with
  | .error _ => .grows
  | .ok () =>
    match change with
    | .rename source target =>
      match tree.placeOf? source.trimmed, tree.placeOf? target.trimmed with
      | some origin, some goal => if origin = goal then .grows else .moves origin goal
      | _, _ => .grows
    | .remove path =>
      match tree.placeOf? path with
      | some place => .empties place
      | none => .grows
    | _ => .grows

namespace FileTree

-----------------------------------------------------------------------------------------
-- Trees that grow
-----------------------------------------------------------------------------------------

/-- The second tree has everything that the first one has, but for the contents of files. -/
def Keeps (before after : FileTree) : Prop :=
  ∀ place, before.entry? place = none ∨ after.entry? place = before.entry? place
    ∨ ∃ content other, before.entry? place = some (.file content)
        ∧ after.entry? place = some (.file other)

variable {tree next : FileTree}

theorem Keeps.refl (tree : FileTree) : tree.Keeps tree :=
  fun _ => .inr (.inl rfl)

theorem Keeps.trans {last : FileTree} (first : tree.Keeps next) (second : next.Keeps last)
    : tree.Keeps last := by
  intro place
  rcases first place with absent | same | ⟨content, other, held, held'⟩
  · exact .inl absent
  · rw [← same]
    exact second place
  · rcases second place with absent | same | ⟨content', other', held'', last⟩
    · rw [held'] at absent
      cases absent
    · exact .inr (.inr ⟨content, other, held, same.trans held'⟩)
    · exact .inr (.inr ⟨content, other', held, last⟩)

theorem Spares.keeps (spares : tree.Spares next) : tree.Keeps next := fun place =>
  (spares.entry place).elim (fun same => .inr (.inl same)) fun gained => .inl gained.1

theorem keeps_put {place : Place} (below : place ≠ []) {entry : Entry}
    (allowed : tree.entry? place = none
      ∨ ∃ content other, tree.entry? place = some (.file content) ∧ entry = .file other)
    : tree.Keeps (tree.put place entry) := by
  intro other
  by_cases same : other = place
  · subst same
    rw [entry?_put_self below]
    exact allowed.imp_right fun ⟨content, other, held, new⟩ =>
      .inr ⟨content, other, held, congrArg some new⟩
  · exact .inr (.inl (entry?_put_of_ne same tree entry))

/-- A file is written where nothing or a file was. -/
theorem keeps_of_write (sound : tree.Sound) {path : Path} {content : Bytes}
    (written : tree.write path content = .ok next)
    : tree.Keeps next := by
  unfold write at written
  split at written
  case h_1 => cases written
  case h_2 => cases written
  case h_3 place entry notDirectory reached =>
    obtain rfl := Except.ok.inj written
    have lands := lands_locateBy sound stepsToFile_ne_nil reached
    have held : entry = tree.entry? place := lands.entry
    have below : place ≠ [] := by
      rintro rfl
      exact notDirectory held
    refine keeps_put below ?_
    rw [← held]
    cases entry with
    | none => exact .inl rfl
    | some entry =>
        cases entry with
        | file former => exact .inr ⟨former, content, rfl, rfl⟩
        | directory => exact absurd rfl notDirectory
        | link target => exact absurd rfl (lands.notLink rfl target)

theorem keeps_writeWithParents (sound : tree.Sound) (path : Path) (content : Bytes)
    : tree.Keeps (tree.writeWithParents path content).1 := by
  have made := (spares_withParents tree path).keeps
  have sound' := durable_sound.withParents sound path
  unfold writeWithParents
  dsimp only
  split
  case h_1 => exact made
  case h_2 =>
    split
    case h_1 next written => exact made.trans (keeps_of_write sound' written)
    case h_2 => exact made

theorem keeps_of_makeLink {path target : Path} (made : tree.makeLink path target = .ok next)
    : tree.Keeps next := by
  unfold makeLink at made
  split at made
  case isTrue => cases made
  case isFalse =>
    split at made
    case isTrue => cases made
    case isFalse =>
      split at made
      case h_1 => cases made
      case h_2 => cases made
      case h_3 place reached =>
        split at made
        case isFalse => cases made
        case isTrue =>
          obtain rfl := Except.ok.inj made
          have absent : none = tree.entry? place := entry_of_locateBy reached
          have below : place ≠ [] := by
            rintro rfl
            cases absent
          exact keeps_put below (.inl absent.symm)

-----------------------------------------------------------------------------------------
-- Effects of changes
-----------------------------------------------------------------------------------------

/-- Whether what stood at one place of a tree stands at another, with everything below it. -/
structure Moved (before after : FileTree) (origin goal : Place) : Prop where
  present : before.entry? origin ≠ none
  apart : ¬ origin <+: goal
  lower : ¬ goal <+: origin
  graft : after = before.graft origin goal
  /-- Only a file by itself is replaced, and not by a directory. -/
  replaced (tail : List Bytes) (content : Bytes)
    (held : before.entry? (goal ++ tail) = some (.file content))
    : tail = [] ∧ before.entry? origin ≠ some .directory

/-- Nothing stands in a directory without names. -/
theorem Sound.eq_nil_of_names (sound : tree.Sound) {place : Place} (empty : tree.names place = [])
    {tail : List Bytes} (present : tree.entry? (place ++ tail) ≠ none)
    : tail = [] := by
  cases tail with
  | nil => rfl
  | cons name rest =>
      have there : tree.entry? (place ++ [name]) ≠ none := by
        cases rest with
        | nil => exact present
        | cons second more =>
            have next : place ++ name :: second :: more = (place ++ [name]) ++ second :: more := by
              simp
            rw [sound.directory_above (next ▸ present) (List.cons_ne_nil _ _)]
            nofun
      rw [← mem_names, empty] at there
      cases there

theorem moved_of_rename (sound : tree.Sound) {source target : Path}
    (renamed : tree.rename source target = .ok next)
    : ∃ origin goal, tree.placeOf? source.trimmed = some origin
        ∧ tree.placeOf? target.trimmed = some goal
        ∧ (origin = goal ∧ next = tree ∨ origin ≠ goal ∧ tree.Moved next origin goal) := by
  unfold rename at renamed
  split at renamed
  case h_1 => cases renamed
  case h_2 => cases renamed
  case h_3 origin there goal held from' to' =>
    refine ⟨origin, goal, by rw [placeOf?, from'], by rw [placeOf?, to'], ?_⟩
    have thereIs : there = tree.entry? origin := entry_of_locateBy from'
    have heldIs : held = tree.entry? goal := entry_of_locateBy to'
    split at renamed
    case isTrue => cases renamed
    case isFalse =>
      split at renamed
      case h_1 => cases renamed
      case h_2 moved =>
        split at renamed
        case isTrue => cases renamed
        case isFalse =>
          split at renamed
          case isTrue same => exact .inl ⟨same, (Except.ok.inj renamed).symm⟩
          case isFalse different =>
            split at renamed
            case isTrue => cases renamed
            case isFalse apart =>
              split at renamed
              case isTrue => cases renamed
              case isFalse lower =>
                rw [List.isPrefixOf_iff_prefix] at apart lower
                have present : tree.entry? origin ≠ none := by simp [← thereIs]
                split at renamed
                case h_1 =>
                  split at renamed
                  case isFalse => cases renamed
                  case isTrue empty =>
                    obtain rfl := Except.ok.inj renamed
                    refine .inr ⟨different, present, apart, lower, rfl, fun tail content file => ?_⟩
                    have there : tree.entry? (goal ++ tail) ≠ none := by simp [file]
                    obtain rfl := sound.eq_nil_of_names empty there
                    rw [List.append_nil, ← heldIs] at file
                    cases file
                case h_2 => cases renamed
                case h_3 => cases renamed
                case h_4 notInto notBoth notOver =>
                  obtain rfl := Except.ok.inj renamed
                  refine .inr ⟨different, present, apart, lower, rfl, fun tail content file => ?_⟩
                  by_cases last : tail = []
                  · subst last
                    rw [List.append_nil, ← heldIs] at file
                    refine ⟨rfl, fun directory => ?_⟩
                    exact notOver _ (Option.some.inj (thereIs.trans directory)) file
                  · have there : tree.entry? (goal ++ tail) ≠ none := by simp [file]
                    exact absurd (heldIs.trans (sound.directory_above there last)) notInto

end FileTree

/-- What a change comes to, in terms of the trees before and after it. -/
inductive Effect.Does (before after : FileTree) : Effect → Prop
  | grows (keeps : before.Keeps after) : Does before after .grows
  | empties {place : Place} (present : before.entry? place ≠ none)
    (cut : after = before.cut place)
    : Does before after (.empties place)
  | moves {origin goal : Place} (moved : before.Moved after origin goal)
    : Does before after (.moves origin goal)

/-- Every change comes to its effect, whether it succeeds or stops half way. -/
theorem FileChange.effect_spec {tree : FileTree} (sound : tree.Sound) (change : FileChange)
    : (change.effect tree).Does tree (change.apply tree).1 := by
  have grows {change : FileChange} (keeps : tree.Keeps (change.apply tree).1)
      (same : ∀ outcome, (change.apply tree).2 = outcome → change.effect tree = .grows)
      : (change.effect tree).Does tree (change.apply tree).1 :=
    same _ rfl ▸ .grows keeps
  cases change with
  | write path content =>
      refine grows (FileTree.keeps_writeWithParents sound path content) fun outcome result => ?_
      unfold effect
      rw [result]
      cases outcome <;> rfl
  | makeDirectories path =>
      refine grows (FileTree.spares_makeDirectories tree path).keeps fun outcome result => ?_
      unfold effect
      rw [result]
      cases outcome <;> rfl
  | link path target =>
      refine grows ?_ fun outcome result => ?_
      · change tree.Keeps (FileChange.apply.whole tree (tree.makeLink path target)).1
        cases made : tree.makeLink path target with
        | ok next => exact FileTree.keeps_of_makeLink made
        | error reason => exact .refl tree
      · unfold effect
        rw [result]
        cases outcome <;> rfl
  | rename source target =>
      cases renamed : tree.rename source target with
      | error reason =>
          have applied : (FileChange.rename source target).apply tree = (tree, .error reason) := by
            rw [apply, renamed]
            rfl
          unfold effect
          rw [applied]
          exact .grows (.refl tree)
      | ok next =>
          have applied : (FileChange.rename source target).apply tree = (next, .ok ()) := by
            rw [apply, renamed]
            rfl
          obtain ⟨origin, goal, from', to', rest⟩ := FileTree.moved_of_rename sound renamed
          unfold effect
          rw [applied]
          dsimp only
          rw [from', to']
          dsimp only
          rcases rest with ⟨same, rfl⟩ | ⟨different, moved⟩
          · rw [if_pos same]
            exact .grows (.refl next)
          · rw [if_neg different]
            exact .moves moved
  | remove path =>
      cases removed : tree.remove path with
      | error reason =>
          have applied : (FileChange.remove path).apply tree = (tree, .error reason) := by
            rw [apply, removed]
            rfl
          unfold effect
          rw [applied]
          exact .grows (.refl tree)
      | ok next =>
          have applied : (FileChange.remove path).apply tree = (next, .ok ()) := by
            rw [apply, removed]
            rfl
          unfold effect
          rw [applied]
          unfold FileTree.remove at removed
          split at removed
          case h_1 => cases removed
          case h_2 => cases removed
          case h_3 place entry reached =>
            have held : some entry = tree.entry? place := entry_of_locateBy reached
            dsimp only
            rw [FileTree.placeOf?, reached]
            exact .empties (by simp [← held]) (Except.ok.inj removed).symm

namespace Effect.Does

variable {before after : FileTree} {effect : Effect} {place left : Place}

/-- Nothing is left at or below a place that was emptied. -/
theorem nothing_left (does : effect.Does before after) (leaves : effect.leaves? = some left)
    {tail : List Bytes} (below : left ++ tail ≠ [])
    : after.entry? (left ++ tail) = none := by
  cases does with
  | grows => cases leaves
  | empties present cut =>
      obtain rfl := Option.some.inj leaves
      rw [cut, entry?_cut below, if_pos (by simp)]
  | @moves origin goal moved =>
      obtain rfl : origin = left := Option.some.inj leaves
      have apart : ¬ goal <+: origin ++ tail := fun covers =>
        (List.prefix_or_prefix_of_prefix covers (List.prefix_append origin tail)).elim moved.lower
          moved.apart
      rw [moved.graft, entry?_graft_of_apart below apart, if_pos (by simp)]

/-- What was left was there. -/
theorem present_of_leaves (does : effect.Does before after) (leaves : effect.leaves? = some left)
    : before.entry? left ≠ none := by
  cases does with
  | grows => cases leaves
  | empties present => exact Option.some.inj leaves ▸ present
  | moves moved => exact Option.some.inj leaves ▸ moved.present

theorem entry?_goal {origin goal : Place} (moved : before.Moved after origin goal)
    (tail : List Bytes)
    : after.entry? (goal ++ tail) = before.entry? (origin ++ tail) := by
  have fromTop : origin ≠ [] := by
    rintro rfl
    exact moved.apart List.nil_prefix
  have toTop : goal ≠ [] := by
    rintro rfl
    exact moved.lower List.nil_prefix
  rw [moved.graft, entry?_graft_append fromTop (by simp [toTop])]

/-- What is brought is there. -/
theorem present_of_brings (does : effect.Does before after)
    (brings : effect.Brings before after place)
    : after.entry? place ≠ none := by
  cases does with
  | grows => exact brings.2
  | empties => exact brings.elim
  | moves moved =>
      obtain rfl : place = _ := brings
      have there := entry?_goal moved []
      rw [List.append_nil, List.append_nil] at there
      exact there ▸ moved.present

/-- A file is still there, or a link in its place, unless it has left with an emptied place. -/
theorem left_of_file (does : effect.Does before after) {content : Bytes}
    (held : before.entry? place = some (.file content))
    (gone : ∀ content, after.entry? place ≠ some (.file content))
    (unlinked : ∀ target, after.entry? place ≠ some (.link target))
    : ∃ left, effect.leaves? = some left ∧ left <+: place := by
  have below : place ≠ [] := by
    rintro rfl
    cases held
  cases does with
  | grows keeps =>
      rcases keeps place with absent | same | ⟨_, other, -, new⟩
      · rw [held] at absent
        cases absent
      · exact absurd (same.trans held) (gone content)
      · exact absurd new (gone other)
  | @empties left present cut =>
      refine ⟨left, rfl, ?_⟩
      by_contra apart
      rw [cut] at gone
      refine gone content ?_
      rw [entry?_cut below, if_neg (by simpa using apart), held]
  | @moves origin goal moved =>
      refine ⟨origin, rfl, ?_⟩
      by_contra apart
      by_cases covers : goal <+: place
      · obtain ⟨tail, rfl⟩ := covers
        obtain ⟨rfl, notDirectory⟩ := moved.replaced tail content held
        have there := entry?_goal moved []
        rw [List.append_nil origin] at there
        cases kind : before.entry? origin with
        | none => exact moved.present kind
        | some entry =>
            rw [kind] at there notDirectory
            cases entry with
            | file other => exact gone other there
            | directory => exact notDirectory rfl
            | link target => exact unlinked target there
      · refine gone content ?_
        rw [moved.graft, entry?_graft_of_apart below covers, if_neg (by simpa using apart), held]

/-- A file was there before, unless it has come with a place that something was brought to. -/
theorem brought_of_file (does : effect.Does before after) {content : Bytes}
    (held : after.entry? place = some (.file content))
    (new : ∀ content, before.entry? place ≠ some (.file content))
    : ∃ goal, effect.Brings before after goal ∧ goal <+: place := by
  have below : place ≠ [] := by
    rintro rfl
    cases held
  cases does with
  | grows keeps =>
      rcases keeps place with absent | same | ⟨former, _, old, -⟩
      · exact ⟨place, ⟨absent, by simp [held]⟩, List.prefix_rfl⟩
      · exact absurd (same.symm.trans held) (new content)
      · exact absurd old (new former)
  | empties present cut =>
      rw [cut, entry?_cut below] at held
      split at held
      · cases held
      · exact absurd held (new content)
  | @moves origin goal moved =>
      refine ⟨goal, rfl, ?_⟩
      by_contra apart
      rw [moved.graft, entry?_graft_of_apart below apart] at held
      split at held
      · cases held
      · exact absurd held (new content)

end Effect.Does

end RouteDesk
