import RouteDesk.Catalog.Store
import RouteDesk.Proofs.Json.Limits

/-! A document after a change at the end of a way of keys, told apart from the way the change is
made: objects stand on the whole way, one key at its end has a new value or none, and every
other key at every depth leads to what it led to before. That leaves one document.
-/

namespace RouteDesk

open SettingsFile (follow)
open Json (Fields)

/-- The changed document holds objects along the keys, `held` under the name at their end, and
elsewhere what the document before held.
-/
structure Amended (keys : List String) (name : String) (held : Option Json)
    (before after : Json) : Prop where
  way (front : List String) (along : front <+: keys)
    : ∃ fields : Fields, follow front after = some (.object fields) ∧ fields.Ascending
  changed : follow (keys ++ [name]) after = held
  others (path : List String) (aside : ¬ path <+: keys) (apart : ¬ keys ++ [name] <+: path)
    : follow path after = follow path before

-----------------------------------------------------------------------------------------
-- Following keys
-----------------------------------------------------------------------------------------

theorem follow_cons_object (key : String) (rest : List String) (fields : Fields)
    : follow (key :: rest) (.object fields) = (fields.get? key).bind (follow rest) := rfl

theorem follow_singleton (name : String) (fields : Fields)
    : follow [name] (.object fields) = fields.get? name := by
  rw [follow_cons_object]
  exact Option.bind_fun_some _

theorem follow_append (front back : List String) (document : Json)
    : follow (front ++ back) document = (follow front document).bind (follow back) := by
  induction front generalizing document with
  | nil => rfl
  | cons key rest ih =>
      rw [List.cons_append, follow, follow]
      cases document.get? key with
      | none => rfl
      | some value => exact ih value

/-- Documents with objects along the keys are the same if every other path leads to the same.
Witness: induction on the keys; the fields of each object on the way ascend.
-/
theorem eq_of_follow_eq {keys : List String} {first second : Json}
    (firstWay : ∀ front, front <+: keys →
      ∃ fields : Fields, follow front first = some (.object fields) ∧ fields.Ascending)
    (secondWay : ∀ front, front <+: keys →
      ∃ fields : Fields, follow front second = some (.object fields) ∧ fields.Ascending)
    (same : ∀ path, ¬ path <+: keys → follow path first = follow path second)
    : first = second := by
  induction keys generalizing first second with
  | nil =>
      obtain ⟨left, foundLeft, ascendingLeft⟩ := firstWay [] List.nil_prefix
      obtain ⟨right, foundRight, ascendingRight⟩ := secondWay [] List.nil_prefix
      obtain rfl := Option.some.inj foundLeft
      obtain rfl := Option.some.inj foundRight
      refine congrArg Json.object (ascendingLeft.ext ascendingRight fun name => ?_)
      simpa only [follow_singleton] using same [name] (by simp)
  | cons key rest ih =>
      obtain ⟨left, foundLeft, ascendingLeft⟩ := firstWay [] List.nil_prefix
      obtain ⟨right, foundRight, ascendingRight⟩ := secondWay [] List.nil_prefix
      obtain rfl := Option.some.inj foundLeft
      obtain rfl := Option.some.inj foundRight
      refine congrArg Json.object (ascendingLeft.ext ascendingRight fun name => ?_)
      by_cases along : name = key
      · subst along
        have step (front : List String) (inside : front <+: rest)
            : name :: front <+: name :: rest := by simpa using inside
        obtain ⟨_, hereLeft, -⟩ := firstWay [name] (step [] List.nil_prefix)
        obtain ⟨_, hereRight, -⟩ := secondWay [name] (step [] List.nil_prefix)
        cases foundL : left.get? name with
        | none => simp [follow_cons_object, foundL] at hereLeft
        | some innerLeft =>
            cases foundR : right.get? name with
            | none => simp [follow_cons_object, foundR] at hereRight
            | some innerRight =>
                refine congrArg some (ih ?_ ?_ ?_)
                · intro front inside
                  simpa [follow_cons_object, foundL] using firstWay _ (step front inside)
                · intro front inside
                  simpa [follow_cons_object, foundR] using secondWay _ (step front inside)
                · intro path aside
                  simpa [follow_cons_object, foundL, foundR]
                    using same (name :: path) (by simpa using aside)
      · simpa only [follow_singleton] using same [name] (by simp [along])

/-- There is at most one document after a change. -/
theorem Amended.unique {keys : List String} {name : String} {held : Option Json}
    {before first second : Json} (left : Amended keys name held before first)
    (right : Amended keys name held before second)
    : first = second := by
  refine eq_of_follow_eq left.way right.way fun path aside => ?_
  by_cases below : keys ++ [name] <+: path
  · obtain ⟨tail, rfl⟩ := below
    rw [follow_append, follow_append _ tail, left.changed, right.changed]
  · rw [left.others path aside below, right.others path aside below]

-----------------------------------------------------------------------------------------
-- Changes at the end of a way
-----------------------------------------------------------------------------------------

/-- A change of fields that gives one name a new value or none. -/
structure Replaces (change : Fields → Fields) (name : String) (held : Option Json) : Prop where
  ascending {fields : Fields} (before : fields.Ascending) : (change fields).Ascending
  changed (fields : Fields) : (change fields).get? name = held
  others {other : String} (different : other ≠ name) (fields : Fields)
    : (change fields).get? other = fields.get? other

/-- A change of the provider replaces it in the section, or takes it away. -/
theorem Change.replaces (change : Change)
    : Replaces change.onFields CatalogSettings.providerKey
        (change.provider?.map fun provider => .text provider.name) := by
  cases change with
  | set provider =>
      exact
        { ascending := fun before => before.put _ _
          changed := fun fields => Fields.get?_put_self _ _ fields
          others := fun different fields => Fields.get?_put_of_ne different _ fields }
  | clear =>
      exact
        { ascending := fun before => before.erase _
          changed := fun fields => Fields.get?_erase_self _ fields
          others := fun different fields => Fields.get?_erase_of_ne different fields }

/-- A change of an object's own fields amends it where no keys lead further. -/
theorem Replaces.amended {change : Fields → Fields} {name : String} {held : Option Json}
    (replaces : Replaces change name held) {fields : Fields} (ascending : fields.Ascending)
    : Amended [] name held (.object fields) (.object (change fields)) where
  way front along := by
    obtain rfl := List.prefix_nil.mp along
    exact ⟨_, rfl, replaces.ascending ascending⟩
  changed := (follow_singleton _ _).trans (replaces.changed fields)
  others path aside apart := by
    cases path with
    | nil => exact absurd List.nil_prefix aside
    | cons key rest =>
        have different : key ≠ name := by
          rintro rfl
          exact apart (by simp)
        rw [follow_cons_object, follow_cons_object, replaces.others different]

/-- An object is amended along a key if what it holds there is. Where it holds nothing, that
was an empty object.
-/
theorem Amended.put {keys : List String} {name key : String} {held : Option Json}
    {fields : Fields} {value : Json} (ascending : fields.Ascending)
    (inner : Amended keys name held ((fields.get? key).getD (.object [])) value)
    : Amended (key :: keys) name held (.object fields) (.object (fields.put key value)) := by
  have reached (path : List String)
      : follow (key :: path) (.object (fields.put key value)) = follow path value := by
    rw [follow_cons_object, Fields.get?_put_self]
    rfl
  refine ⟨fun front along => ?_, ?_, fun path aside apart => ?_⟩
  · cases front with
    | nil => exact ⟨_, rfl, ascending.put key value⟩
    | cons head tail =>
        obtain ⟨rfl, inside⟩ := List.cons_prefix_cons.mp along
        rw [reached]
        exact inner.way tail inside
  · rw [List.cons_append, reached]
    exact inner.changed
  · cases path with
    | nil => exact absurd List.nil_prefix aside
    | cons head tail =>
        by_cases along : head = key
        · subst along
          have aside' : ¬ tail <+: keys := by simpa using aside
          rw [reached, inner.others tail aside' (by simpa using apart), follow_cons_object]
          cases fields.get? head with
          | some held => rfl
          | none =>
              cases tail with
              | nil => exact absurd List.nil_prefix aside'
              | cons => rfl
        · rw [follow_cons_object, follow_cons_object, Fields.get?_put_of_ne along]

/-- Changing the fields at the end of a way amends the document, by induction on the way.
Where an object is missing the way goes on with an empty one.
-/
theorem amended_changeAt {fine : Float → Prop} {change : Fields → Fields} {name : String}
    {held : Option Json} (replaces : Replaces change name held) {last : String}
    {keys : List String} {depth : Nat} {before after : Json}
    (within : Json.Within fine depth before) (deep : keys.length < depth)
    (done : before.changeAt change last keys = .ok after)
    : Amended keys name held before after := by
  induction keys generalizing before after depth with
  | nil =>
      cases before with
      | object fields =>
          obtain rfl := Except.ok.inj done
          cases within with
          | object ascending all => exact replaces.amended ascending
      | _ => cases done
  | cons key rest ih =>
      cases before with
      | object fields =>
          rw [Json.changeAt] at done
          split at done
          case h_1 value changed =>
            obtain rfl := Except.ok.inj done
            obtain ⟨levels, rfl⟩ : ∃ levels, depth = levels + 2 :=
              ⟨depth - 2, by rw [List.length_cons] at deep; omega⟩
            have inner := ih (within.get?_getD key)
              (by rw [List.length_cons] at deep; omega) changed
            cases within with
            | object ascending all => exact inner.put ascending
          case h_2 => cases done
      | _ => cases done

/-- The changed document keeps to the limits, since the way is shorter than documents nest. -/
theorem within_changeAt {fine : Float → Prop} {change : Fields → Fields}
    (keeps : ∀ levels fields, Json.Within fine (levels + 1) (.object fields) →
      Json.Within fine (levels + 1) (.object (change fields)))
    {last : String} {keys : List String} {depth : Nat} {before after : Json}
    (within : Json.Within fine depth before) (deep : keys.length < depth)
    (done : before.changeAt change last keys = .ok after)
    : Json.Within fine depth after := by
  induction keys generalizing before after depth with
  | nil =>
      cases before with
      | object fields =>
          obtain rfl := Except.ok.inj done
          obtain ⟨levels, rfl⟩ := Nat.exists_eq_add_one.mpr deep
          exact keeps levels fields within
      | _ => cases done
  | cons key rest ih =>
      cases before with
      | object fields =>
          rw [Json.changeAt] at done
          split at done
          case h_1 value changed =>
            obtain rfl := Except.ok.inj done
            obtain ⟨levels, rfl⟩ : ∃ levels, depth = levels + 2 :=
              ⟨depth - 2, by rw [List.length_cons] at deep; omega⟩
            exact within.put key
              (ih (within.get?_getD key) (by rw [List.length_cons] at deep; omega) changed)
          case h_2 => cases done
      | _ => cases done

/-- A change of the provider keeps the section within its levels. -/
theorem Change.within_onFields {fine : Float → Prop} (change : Change) (levels : Nat)
    (fields : Fields) (within : Json.Within fine (levels + 1) (.object fields))
    : Json.Within fine (levels + 1) (.object (change.onFields fields)) := by
  cases change with
  | set provider => exact within.put _ (.text _)
  | clear => exact within.erase _

end RouteDesk
