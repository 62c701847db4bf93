import RouteDesk.Json.Value

/-! Fields of an object after one of them was put or erased: every other name keeps its value,
and ascending names stay ascending. Ascending fields are determined by their values.
-/

namespace RouteDesk.Json.Fields

/-- The names ascend, so that each of them occurs once. -/
def Ascending (fields : Fields) : Prop :=
  fields.Pairwise fun first second => first.1 < second.1

-----------------------------------------------------------------------------------------
-- Values by name
-----------------------------------------------------------------------------------------

theorem get?_cons (name key : String) (value : Json) (rest : Fields)
    : get? ((key, value) :: rest) name
      = if name = key then some value else get? rest name := by
  by_cases same : name = key
  · simp [get?, same]
  · simp [get?, List.lookup_cons, same, beq_eq_false_iff_ne.mpr same]

/-- A name that was put has its new value, by induction up to its place. -/
theorem get?_put_self (name : String) (value : Json) (fields : Fields)
    : get? (put name value fields) name = some value := by
  induction fields with
  | nil => simp [put, get?_cons]
  | cons field rest ih =>
      obtain ⟨key, held⟩ := field
      by_cases before : name < key
      · simp [put, before, get?_cons]
      · by_cases same : name = key
        · simp [put, same, get?_cons]
        · simp [put, before, same, get?_cons, ih]

/-- Putting one name leaves the values of all others, by induction up to its place. -/
theorem get?_put_of_ne {name other : String} (different : other ≠ name) (value : Json)
    (fields : Fields)
    : get? (put name value fields) other = get? fields other := by
  induction fields with
  | nil => simp [put, get?_cons, different]
  | cons field rest ih =>
      obtain ⟨key, held⟩ := field
      by_cases before : name < key
      · simp [put, before, get?_cons, different]
      · by_cases same : name = key
        · subst same
          simp [put, get?_cons, different]
        · simp [put, before, same, get?_cons, ih]

theorem get?_erase_self (name : String) (fields : Fields)
    : get? (erase name fields) name = none := by
  induction fields with
  | nil => rfl
  | cons field rest ih =>
      obtain ⟨key, held⟩ := field
      by_cases same : key = name
      · simpa [erase, same] using ih
      · have different : name ≠ key := Ne.symm same
        simpa [erase, same, get?_cons, different] using ih

theorem get?_erase_of_ne {name other : String} (different : other ≠ name) (fields : Fields)
    : get? (erase name fields) other = get? fields other := by
  induction fields with
  | nil => rfl
  | cons field rest ih =>
      obtain ⟨key, held⟩ := field
      by_cases same : key = name
      · subst same
        simpa [erase, get?_cons, different] using ih
      · simpa [erase, same, get?_cons] using congrArg (if other = key then some held else ·) ih

/-- A name with a value stands among the fields with it. -/
theorem mem_of_get?_eq_some {fields : Fields} {name : String} {value : Json}
    (found : get? fields name = some value)
    : (name, value) ∈ fields := by
  induction fields with
  | nil => simp [get?] at found
  | cons field rest ih =>
      obtain ⟨key, held⟩ := field
      rw [get?_cons] at found
      split at found
      case isTrue same =>
        obtain rfl := Option.some.inj found
        simp [same]
      case isFalse => exact List.mem_cons_of_mem _ (ih found)

-----------------------------------------------------------------------------------------
-- Where fields come from
-----------------------------------------------------------------------------------------

/-- After a put, a field is the one that was put or was there before. -/
theorem mem_put {name : String} {value : Json} {fields : Fields} {field : String × Json}
    (member : field ∈ put name value fields)
    : field = (name, value) ∨ field ∈ fields := by
  induction fields with
  | nil => exact Or.inl (by simpa [put] using member)
  | cons head rest ih =>
      rw [put] at member
      split at member
      · exact (List.mem_cons.mp member).imp_right id
      · split at member
        · rcases List.mem_cons.mp member with same | later
          · exact Or.inl same
          · exact Or.inr (List.mem_cons_of_mem _ later)
        · rcases List.mem_cons.mp member with same | later
          · exact Or.inr (by simp [same])
          · exact (ih later).imp_right (List.mem_cons_of_mem _)

theorem mem_erase {name : String} {fields : Fields} {field : String × Json}
    (member : field ∈ erase name fields)
    : field ∈ fields :=
  (List.mem_filter.mp member).1

-----------------------------------------------------------------------------------------
-- The order of the names
-----------------------------------------------------------------------------------------

/-- Of two different names one comes before the other. -/
theorem lt_of_not_lt {first second : String} (later : ¬ first < second)
    (different : first ≠ second)
    : second < first := by
  rcases Std.lt_trichotomy first second with before | same | after
  · exact absurd before later
  · exact absurd same different
  · exact after

theorem Ascending.nil : Ascending [] :=
  List.Pairwise.nil

/-- A put keeps the names ascending, by induction up to the place of the name. -/
theorem Ascending.put {fields : Fields} (ascending : Ascending fields) (name : String)
    (value : Json)
    : Ascending (Fields.put name value fields) := by
  induction fields with
  | nil => exact List.pairwise_singleton _ _
  | cons head rest ih =>
      obtain ⟨above, tail⟩ := List.pairwise_cons.mp ascending
      rw [Fields.put]
      split
      case isTrue before =>
        refine List.pairwise_cons.mpr ⟨?_, ascending⟩
        intro field member
        rcases List.mem_cons.mp member with same | later
        · exact same ▸ before
        · exact String.lt_trans before (above field later)
      case isFalse notBefore =>
        split
        case isTrue same =>
          exact List.pairwise_cons.mpr ⟨fun field member => same ▸ above field member, tail⟩
        case isFalse different =>
          refine List.pairwise_cons.mpr ⟨?_, ih tail⟩
          intro field member
          rcases mem_put member with same | old
          · exact same ▸ lt_of_not_lt notBefore different
          · exact above field old

theorem Ascending.erase {fields : Fields} (ascending : Ascending fields) (name : String)
    : Ascending (Fields.erase name fields) :=
  ascending.filter _

/-- A name above all others is put at the end. -/
theorem put_of_above {fields : Fields} {name : String} (value : Json)
    (above : ∀ field ∈ fields, field.1 < name)
    : Fields.put name value fields = fields ++ [(name, value)] := by
  induction fields with
  | nil => rfl
  | cons head rest ih =>
      have before : head.1 < name := above head (by simp)
      have notAfter : ¬ name < head.1 := fun after =>
        String.lt_irrefl _ (String.lt_trans before after)
      have different : name ≠ head.1 := fun same =>
        String.lt_irrefl _ (same ▸ before)
      rw [Fields.put, if_neg notAfter, if_neg different,
        ih fun field member => above field (List.mem_cons_of_mem _ member)]
      rfl

/-- A name below all others has no value. -/
theorem get?_eq_none_of_lt {fields : Fields} {name : String}
    (below : ∀ field ∈ fields, name < field.1)
    : get? fields name = none := by
  induction fields with
  | nil => rfl
  | cons head rest ih =>
      obtain ⟨key, held⟩ := head
      have different : name ≠ key := fun same =>
        String.lt_irrefl _ (same ▸ below (key, held) (by simp))
      rw [get?_cons, if_neg different]
      exact ih fun field member => below field (List.mem_cons_of_mem _ member)

/-- Ascending fields with the same values by name are the same. Witness: induction on both;
a head below the other head would have no value there.
-/
theorem Ascending.ext {first second : Fields} (hf : Ascending first) (hs : Ascending second)
    (same : ∀ name, get? first name = get? second name)
    : first = second := by
  induction first generalizing second with
  | nil =>
      cases second with
      | nil => rfl
      | cons head rest =>
          have found : none = get? (head :: rest) head.1 := same head.1
          rw [get?_cons, if_pos rfl] at found
          cases found
  | cons head rest ih =>
      cases second with
      | nil =>
          have found : get? (head :: rest) head.1 = none := same head.1
          rw [get?_cons, if_pos rfl] at found
          cases found
      | cons other more =>
          obtain ⟨key, held⟩ := head
          obtain ⟨name, value⟩ := other
          obtain ⟨aboveKey, restAscending⟩ := List.pairwise_cons.mp hf
          obtain ⟨aboveName, moreAscending⟩ := List.pairwise_cons.mp hs
          have atKey := same key
          have atName := same name
          rw [get?_cons, if_pos rfl, get?_cons] at atKey
          rw [get?_cons, get?_cons, if_pos rfl] at atName
          have sameName : key = name := by
            rcases Std.lt_trichotomy key name with before | equal | after
            · rw [if_neg (fun equal => String.lt_irrefl _ (equal ▸ before)),
                get?_eq_none_of_lt fun field member =>
                  String.lt_trans before (aboveName field member)] at atKey
              simp at atKey
            · exact equal
            · rw [if_neg (fun equal => String.lt_irrefl _ (equal ▸ after)),
                get?_eq_none_of_lt fun field member =>
                  String.lt_trans after (aboveKey field member)] at atName
              simp at atName
          subst sameName
          rw [if_pos rfl] at atKey
          obtain rfl := Option.some.inj atKey
          congr 1
          refine ih restAscending moreAscending fun other => ?_
          by_cases equal : other = key
          · subst equal
            rw [get?_eq_none_of_lt aboveKey, get?_eq_none_of_lt aboveName]
          · have found := same other
            rwa [get?_cons, get?_cons, if_neg equal, if_neg equal] at found

end RouteDesk.Json.Fields
