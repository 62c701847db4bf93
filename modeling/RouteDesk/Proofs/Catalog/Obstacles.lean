import RouteDesk.Proofs.Catalog.Commented
import RouteDesk.Proofs.Catalog.Override

/-! Documents in which something that is no object stands on the way to the section. A change is
refused there, and names the key that it would have looked up next; only where no key is left it
names the one that the obstacle stands at. Nothing else about a document gets a change refused.
-/

namespace RouteDesk

open Json (Fields)
open SettingsFile (follow)

/-- Whether keys lead through objects only, and the key after them to something else. -/
structure Obstacle (front : List String) (key : String) (document : Json) : Prop where
  through (above : List String) (along : above <+: front)
    : ∃ fields : Fields, follow above document = some (.object fields)
  found : ∃ value, follow (front ++ [key]) document = some value ∧ value.fields? = none

-----------------------------------------------------------------------------------------
-- Obstacles by the keys before them
-----------------------------------------------------------------------------------------

/-- Keys that lead to an object lead through objects. -/
theorem objects_above {front above : List String} {document : Json} {fields : Fields}
    (here : follow front document = some (.object fields)) (along : above <+: front)
    : ∃ outer : Fields, follow above document = some (.object outer) := by
  obtain ⟨below, rfl⟩ := along
  rw [follow_append] at here
  obtain ⟨value, there, onward⟩ := Option.bind_eq_some_iff.mp here
  cases below with
  | nil => exact ⟨fields, there.trans onward⟩
  | cons key rest =>
      cases value with
      | object outer => exact ⟨outer, there⟩
      | _ => cases onward

/-- An obstacle is found by the object that holds it. -/
theorem obstacle_of_follow {front : List String} {key : String} {document value : Json}
    {fields : Fields} (here : follow front document = some (.object fields))
    (held : fields.get? key = some value) (solid : value.fields? = none)
    : Obstacle front key document where
  through _ along := objects_above here along
  found := by
    refine ⟨value, ?_, solid⟩
    rw [follow_append, here]
    exact (follow_singleton key fields).trans held

namespace Obstacle

theorem object {front : List String} {key : String} {document : Json}
    (obstacle : Obstacle front key document)
    : ∃ fields : Fields, document = .object fields := by
  obtain ⟨fields, here⟩ := obstacle.through [] List.nil_prefix
  exact ⟨fields, Option.some.inj here⟩

/-- Without keys before it, an obstacle is what the object holds under the key. -/
theorem held {key : String} {fields : Fields} (obstacle : Obstacle [] key (.object fields))
    : ∃ value, fields.get? key = some value ∧ value.fields? = none := by
  obtain ⟨value, there, solid⟩ := obstacle.found
  exact ⟨value, (follow_singleton key fields).symm.trans there, solid⟩

/-- An obstacle after some keys is one in what the first of them leads to. -/
theorem inner {head key : String} {front : List String} {fields : Fields}
    (obstacle : Obstacle (head :: front) key (.object fields))
    : ∃ value, fields.get? head = some value ∧ Obstacle front key value := by
  obtain ⟨below, there⟩ := obstacle.through [head] (by simp)
  have held : fields.get? head = some (.object below) :=
    (follow_singleton head fields).symm.trans there
  have onward (path : List String)
      : follow (head :: path) (.object fields) = follow path (.object below) := by
    rw [follow_cons_object, held]
    rfl
  refine ⟨.object below, held, fun above along => ?_, ?_⟩
  · rw [← onward]
    exact obstacle.through (head :: above) (by simpa using along)
  · rw [← onward]
    exact obstacle.found

end Obstacle

-----------------------------------------------------------------------------------------
-- Changes of documents with obstacles
-----------------------------------------------------------------------------------------

/-- What is no object is refused with the first key that was to be looked up in it. -/
theorem changeAt_of_fields?_eq_none {value : Json} (solid : value.fields? = none)
    (change : Fields → Fields) (last : String) (keys : List String)
    : value.changeAt change last keys = .error (keys.headD last) := by
  cases value with
  | object => cases solid
  | _ => cases keys <;> rfl

/-- A change is refused at the obstacle, and the key after it is named, by induction on the keys
before it.
-/
theorem changeAt_of_obstacle {front : List String} {key : String} {document : Json}
    (obstacle : Obstacle front key document) (change : Fields → Fields) (last : String)
    (beyond : List String)
    : document.changeAt change last (front ++ key :: beyond) = .error (beyond.headD last) := by
  obtain ⟨fields, rfl⟩ := obstacle.object
  induction front generalizing fields with
  | nil =>
      obtain ⟨value, held, solid⟩ := obstacle.held
      rw [List.nil_append, Json.changeAt, held, Option.getD_some,
        changeAt_of_fields?_eq_none solid]
  | cons head front ih =>
      obtain ⟨value, held, inside⟩ := obstacle.inner
      obtain ⟨below, rfl⟩ := inside.object
      rw [List.cons_append, Json.changeAt, held, Option.getD_some, ih below inside]

namespace SettingsFile

/-- Whether the way to the section is blocked at a key, before the keys beyond it. -/
def BlockedAt (document : Json) (key : String) (beyond : List String) : Prop :=
  ∃ front, front ++ key :: beyond = sectionKeys ∧ Obstacle front key document

/-- Objects can be passed on the way to the section unless it is blocked. Witness: induction on
the keys from their end; past an object comes another one, nothing, or the obstacle.
-/
theorem passable_of_unblocked {fields : Fields}
    (unblocked : ∀ key beyond, ¬ BlockedAt (.object fields) key beyond)
    : Passable (.object fields) := by
  intro front along
  induction front using List.reverseRecOn with
  | nil => exact .inr ⟨fields, rfl⟩
  | append_singleton front key ih =>
      obtain ⟨beyond, whole⟩ := along
      rw [List.append_assoc, List.singleton_append] at whole
      rw [follow_append]
      rcases ih ⟨_, whole⟩ with missing | ⟨outer, here⟩
      · exact .inl (by rw [missing]; rfl)
      · rw [here, Option.bind_some, follow_singleton]
        cases held : outer.get? key with
        | none => exact .inl rfl
        | some value =>
            cases value with
            | object inner => exact .inr ⟨inner, rfl⟩
            | _ =>
                have obstacle := obstacle_of_follow here held rfl
                exact absurd ⟨front, whole, obstacle⟩ (unblocked key beyond)

/-- The keys on the way to the section, each with the one that is named for an obstacle there. -/
def signposts : List (String × String) :=
  [("lsp", CatalogSettings.serverId), (CatalogSettings.serverId, "settings"),
    ("settings", CatalogSettings.sectionKey),
    (CatalogSettings.sectionKey, CatalogSettings.sectionKey)]

/-- Where the way is blocked, the key after the obstacle stands on its signpost. Witness: one case
for each number of keys before the obstacle.
-/
theorem mem_signposts {document : Json} {key : String} {beyond : List String}
    (blocked : BlockedAt document key beyond)
    : (key, beyond.headD CatalogSettings.sectionKey) ∈ signposts := by
  obtain ⟨front, whole, -⟩ := blocked
  rcases front with _ | ⟨_, _ | ⟨_, _ | ⟨_, _ | ⟨_, more⟩⟩⟩⟩
  all_goals
    simp only [sectionKeys, List.nil_append, List.cons_append, List.cons.injEq] at whole
  · obtain ⟨rfl, rfl⟩ := whole
    decide
  · obtain ⟨-, rfl, rfl⟩ := whole
    decide
  · obtain ⟨-, -, rfl, rfl⟩ := whole
    decide
  · obtain ⟨-, -, -, rfl, rfl⟩ := whole
    decide
  · simp at whole

/-- Only the last signpost names the key that it stands at. -/
theorem signposts_self
    : ∀ post ∈ signposts, post.2 = post.1 ↔ post.1 = CatalogSettings.sectionKey := by
  decide

/-- Only the last two signposts name the same key. -/
theorem signposts_same
    : ∀ post ∈ signposts, ∀ other ∈ signposts, post.1 ≠ other.1 →
        (post.2 = other.2
          ↔ post.1 = "settings" ∧ other.1 = CatalogSettings.sectionKey
            ∨ post.1 = CatalogSettings.sectionKey ∧ other.1 = "settings") := by
  decide

/-- What the changes of a settings file say of the way to its section. -/
structure Blames (file : SettingsFile) (document : Json) : Prop where
  /-- At an obstacle every change is refused without effect, and what it names is the key after it,
  or the section's own where no key is left.
  -/
  refused {key : String} {beyond : List String} (blocked : BlockedAt document key beyond)
    (change : Change)
    : ProviderStore.change change file
      = (file, .error (.noObjectAt file.path (beyond.headD CatalogSettings.sectionKey)))
  /-- So it is reported where it is exactly if it stands at the section. -/
  located {key : String} {beyond : List String} (blocked : BlockedAt document key beyond)
    (change : Change)
    : (ProviderStore.change change file).2 = .error (.noObjectAt file.path key)
      ↔ key = CatalogSettings.sectionKey
  /-- Obstacles at different keys are told apart unless one stands at the section and the other at
  the key before it.
  -/
  toldApart {other : SettingsFile} {document' : Json} {key key' : String}
    {beyond beyond' : List String} (loads : other.document = .ok document')
    (samePath : other.path = file.path) (blocked : BlockedAt document key beyond)
    (blocked' : BlockedAt document' key' beyond') (different : key ≠ key')
    (change change' : Change)
    : (ProviderStore.change change file).2 = (ProviderStore.change change' other).2
      ↔ key = "settings" ∧ key' = CatalogSettings.sectionKey
        ∨ key = CatalogSettings.sectionKey ∧ key' = "settings"
  /-- Without an obstacle only the disk can refuse a change. -/
  unblocked (free : ∀ key beyond, ¬ BlockedAt document key beyond) (change : Change)
    (reason : StoreError) (failed : (ProviderStore.change change file).2 = .error reason)
    : ∃ cause, reason = .unreachable file.path cause

theorem change_of_blockedAt {file : SettingsFile} {document : Json} {key : String}
    {beyond : List String} (loads : file.document = .ok document)
    (blocked : BlockedAt document key beyond) (change : Change)
    : ProviderStore.change change file
      = (file, .error (.noObjectAt file.path (beyond.headD CatalogSettings.sectionKey))) := by
  obtain ⟨front, whole, obstacle⟩ := blocked
  have refused := changeAt_of_obstacle obstacle change.onFields CatalogSettings.sectionKey beyond
  exact change_of_impassable loads (whole ▸ refused)

/-- Every settings file that holds an object blames the way to its section in this manner. -/
theorem blames_of_document {file : SettingsFile} {fields : Fields}
    (loads : file.document = .ok (.object fields))
    : Blames file (.object fields) where
  refused := change_of_blockedAt loads
  located blocked change := by
    rw [change_of_blockedAt loads blocked]
    simp only [Except.error.injEq, StoreError.noObjectAt.injEq, true_and]
    exact signposts_self _ (mem_signposts blocked)
  toldApart loads' samePath blocked blocked' different change change' := by
    rw [change_of_blockedAt loads blocked, change_of_blockedAt loads' blocked', samePath]
    simp only [Except.error.injEq, StoreError.noObjectAt.injEq, true_and]
    exact signposts_same _ (mem_signposts blocked) _ (mem_signposts blocked') different
  unblocked free _ _ failed := unreachable_of_passable loads (passable_of_unblocked free) failed

/-- A number within objects, one for each key. -/
def numberAt (keys : List String) : Json :=
  keys.foldr (fun key inner => .object [(key, inner)]) (.integer 5)

/-- A settings file with such a document. -/
def holdingNumberAt (keys : List String) : SettingsFile :=
  holding (keys.foldr (fun key inner => "\x7b\"" ++ key ++ "\": " ++ inner ++ "\x7d") "5")

theorem follow_numberAt (front keys : List String)
    : follow front (numberAt (front ++ keys)) = some (numberAt keys) := by
  induction front with
  | nil => rfl
  | cons head front ih =>
      change (Fields.get? [(head, numberAt (front ++ keys))] head).bind (follow front) = _
      rw [Fields.get?_cons, if_pos rfl]
      exact ih

/-- A number under one of the section's keys blocks the way. -/
theorem blockedAt_numberAt {front : List String} {key : String} {beyond : List String}
    (whole : front ++ key :: beyond = sectionKeys)
    : BlockedAt (numberAt (front ++ [key])) key beyond := by
  have held : Fields.get? [(key, .integer 5)] key = some (.integer 5) := by
    rw [Fields.get?_cons, if_pos rfl]
  exact ⟨front, whole, obstacle_of_follow (follow_numberAt front [key]) held rfl⟩

/-- A number at the section is reported where it is, and told apart from one at the first key. -/
theorem blames_of_document_section
    : ∃ fields inner,
        (holdingNumberAt sectionKeys).document = .ok (.object fields)
        ∧ BlockedAt (.object fields) CatalogSettings.sectionKey []
        ∧ (ProviderStore.change .clear (holdingNumberAt sectionKeys)).2
          = .error (.noObjectAt (Path.ofText "/settings.json") CatalogSettings.sectionKey)
        ∧ (holdingNumberAt ["lsp"]).document = .ok (.object inner)
        ∧ BlockedAt (.object inner) "lsp"
          [CatalogSettings.serverId, "settings", CatalogSettings.sectionKey]
        ∧ (ProviderStore.change .clear (holdingNumberAt sectionKeys)).2
          ≠ (ProviderStore.change .clear (holdingNumberAt ["lsp"])).2 := by
  have loads : (holdingNumberAt sectionKeys).document
      = .ok (.object [("lsp", numberAt sectionKeys.tail)]) := rfl
  have blocked : BlockedAt (.object [("lsp", numberAt sectionKeys.tail)])
      CatalogSettings.sectionKey [] :=
    @blockedAt_numberAt ["lsp", CatalogSettings.serverId, "settings"] _ _ rfl
  have loads' : (holdingNumberAt ["lsp"]).document = .ok (.object [("lsp", .integer 5)]) := rfl
  have blocked' : BlockedAt (.object [("lsp", .integer 5)]) "lsp" sectionKeys.tail :=
    @blockedAt_numberAt [] _ _ rfl
  have blames := blames_of_document loads
  refine ⟨_, _, loads, blocked, (blames.located blocked .clear).mpr rfl, loads', blocked', ?_⟩
  rw [ne_eq, blames.toldApart loads' rfl blocked blocked' (by decide)]
  decide

/-- A number under the first key is reported at the second one, and numbers at the section and at
the key before it are reported alike.
-/
theorem blamed_beyond
    : (holdingNumberAt ["lsp"]).document = .ok (numberAt ["lsp"])
      ∧ BlockedAt (numberAt ["lsp"]) "lsp"
        [CatalogSettings.serverId, "settings", CatalogSettings.sectionKey]
      ∧ (ProviderStore.change (.set .karaf) (holdingNumberAt ["lsp"])).2
        = .error (.noObjectAt (Path.ofText "/settings.json") CatalogSettings.serverId)
      ∧ CatalogSettings.serverId ≠ "lsp"
      ∧ (holdingNumberAt ["lsp", CatalogSettings.serverId, "settings"]).document
        = .ok (numberAt ["lsp", CatalogSettings.serverId, "settings"])
      ∧ BlockedAt (numberAt ["lsp", CatalogSettings.serverId, "settings"]) "settings"
        [CatalogSettings.sectionKey]
      ∧ (holdingNumberAt sectionKeys).document = .ok (numberAt sectionKeys)
      ∧ BlockedAt (numberAt sectionKeys) CatalogSettings.sectionKey []
      ∧ (ProviderStore.change (.set .karaf)
            (holdingNumberAt ["lsp", CatalogSettings.serverId, "settings"])).2
        = (ProviderStore.change (.set .karaf) (holdingNumberAt sectionKeys)).2 :=
  ⟨rfl, @blockedAt_numberAt [] _ _ rfl, rfl, by decide, rfl,
    @blockedAt_numberAt ["lsp", CatalogSettings.serverId] _ _ rfl, rfl,
    @blockedAt_numberAt ["lsp", CatalogSettings.serverId, "settings"] _ _ rfl, rfl⟩

end SettingsFile

end RouteDesk
