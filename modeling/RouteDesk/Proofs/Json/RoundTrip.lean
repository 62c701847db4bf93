import RouteDesk.Proofs.Json.Limits
import RouteDesk.Proofs.Json.Takes

/-! A written document is read as the document that was written, as long as it keeps to the
limits. Only real numbers may be read as neighbours of what was written.
-/

namespace RouteDesk.Json

-----------------------------------------------------------------------------------------
-- Real numbers
-----------------------------------------------------------------------------------------

mutual

/-- The document with a function applied to its real numbers. -/
def onReals (again : Float → Float) : Json → Json
  | .null => .null
  | .bool value => .bool value
  | .integer value => .integer value
  | .real value => .real (again value)
  | .text value => .text value
  | .list items => .list (onRealsItems again items)
  | .object fields => .object (onRealsFields again fields)

/-- The items with a function applied to their real numbers. -/
def onRealsItems (again : Float → Float) : List Json → List Json
  | [] => []
  | item :: rest => onReals again item :: onRealsItems again rest

/-- The fields with a function applied to the real numbers of their values. -/
def onRealsFields (again : Float → Float) : List (String × Json) → List (String × Json)
  | [] => []
  | (name, value) :: rest => (name, onReals again value) :: onRealsFields again rest

end

/-- A document without real numbers stays as it is. -/
theorem onReals_of_realFree {document : Json} (free : document.RealFree)
    (again : Float → Float)
    : document.onReals again = document := by
  induction free with
  | null => rfl
  | bool value => rfl
  | integer value => rfl
  | text value => rfl
  | list all ih =>
      rename_i items
      have same : onRealsItems again items = items := by
        clear all
        induction items with
        | nil => rfl
        | cons item rest same =>
            rw [onRealsItems, ih item (by simp),
              same fun item member => ih item (List.mem_cons_of_mem _ member)]
      rw [onReals, same]
  | object all ih =>
      rename_i fields
      have same : onRealsFields again fields = fields := by
        clear all
        induction fields with
        | nil => rfl
        | cons field rest same =>
            obtain ⟨name, value⟩ := field
            rw [onRealsFields, ih (name, value) (by simp),
              same fun field member => ih field (List.mem_cons_of_mem _ member)]
      rw [onReals, same]

-----------------------------------------------------------------------------------------
-- How values begin and go on
-----------------------------------------------------------------------------------------

/-- The first byte of a value is no blank and does not end a list. -/
def Opens (bytes : Bytes) : Prop :=
  ∃ first tail, bytes = first :: tail ∧ Reading.isBlank first = false ∧ first ≠ 0x5D

theorem opens_of_isDigit {first : UInt8} (digit : Reading.isDigit first = true) (tail : Bytes)
    : Opens (first :: tail) := by
  refine ⟨first, tail, rfl, ?_, ?_⟩
  · by_contra blank
    simp only [Reading.isBlank, Bool.not_eq_false, Bool.or_eq_true, beq_iff_eq] at blank
    rcases blank with ((rfl | rfl) | rfl) | rfl <;> exact absurd digit (by decide)
  · rintro rfl
    exact absurd digit (by decide)

/-- A byte of ASCII that begins neither a string nor a comment. -/
def IsPlain (byte : UInt8) : Prop :=
  byte < 0x80 ∧ byte ≠ 0x22 ∧ byte ≠ 0x2F ∧ byte ≠ 0x23

instance : DecidablePred IsPlain :=
  fun byte => inferInstanceAs (Decidable (byte < 0x80 ∧ byte ≠ 0x22 ∧ byte ≠ 0x2F ∧ byte ≠ 0x23))

/-- What must be known of a real number: which bytes it is written with, how they begin, and
what they are read as.
-/
structure Rereads (value again : Float) : Prop where
  plain : ∀ byte ∈ Bytes.ofText (Decimal.ofFloat value), IsPlain byte
  opens : Opens (Bytes.ofText (Decimal.ofFloat value))
  takes (inner : Option (Reading Json)) (blanks : Bytes)
    (blank : ∀ byte ∈ blanks, Reading.isBlank byte = true)
    (byte : UInt8) (closing : Reading.Closing byte) (rest : Feed)
    : Reading.Takes (Reading.valueWith inner) (blanks ++ Bytes.ofText (Decimal.ofFloat value))
        (.real again) (.byte byte rest)

/-- Every written value begins in a way that tells it from the end of its container. -/
theorem opens_write {fine : Float → Prop} {again : Float → Float}
    (rereads : ∀ value, fine value → Rereads value (again value))
    {levels : Nat} {document : Json} (within : Within fine levels document) (level : Nat)
    : Opens (write level document) := by
  have digits (number : Nat) : Opens (writeNat number) := by
    obtain ⟨first, tail, split, digit⟩ := Reading.begins_writeNat number
    exact split ▸ opens_of_isDigit digit tail
  cases within with
  | null => exact ⟨_, _, rfl, by decide, by decide⟩
  | bool value => cases value <;> exact ⟨_, _, rfl, by decide, by decide⟩
  | integer =>
      rename_i value _ _
      cases value with
      | ofNat number => exact digits number
      | negSucc number => exact ⟨_, _, rfl, by decide, by decide⟩
  | real allowed => exact (rereads _ allowed).opens
  | text value => exact ⟨_, _, rfl, by decide, by decide⟩
  | list =>
      rename_i items _
      cases items <;> exact ⟨_, _, rfl, by decide, by decide⟩
  | object =>
      rename_i fields _ _
      cases fields <;> exact ⟨_, _, rfl, by decide, by decide⟩

-----------------------------------------------------------------------------------------
-- Containers
-----------------------------------------------------------------------------------------

namespace Reading

/-- The reader takes a value as it is written at a level, with blanks in front. -/
def TakesValue (reader : Reading Json) (level : Nat) (document again : Json) : Prop :=
  ∀ blanks : Bytes, (∀ byte ∈ blanks, isBlank byte = true) → ∀ byte, Closing byte → ∀ rest,
    Takes reader (blanks ++ write level document) again (.byte byte rest)

theorem TakesValue.plain {reader : Reading Json} {level : Nat} {document again : Json}
    (takes : TakesValue reader level document again) {byte : UInt8} (closing : Closing byte)
    (rest : Feed)
    : Takes reader (write level document) again (.byte byte rest) :=
  takes [] (by simp) byte closing rest

theorem isBlank_newLine (level : Nat)
    : ∀ byte ∈ newLine level, isBlank byte = true := by
  intro byte member
  rcases List.mem_cons.mp member with rfl | member
  · rfl
  · rw [List.eq_of_mem_replicate member]
    rfl

/-- A container goes on with a comma or with the line of its end. -/
theorem closing_items (level lower : Nat) (items : List Json) (rest : Feed)
    : ∃ byte more, Closing byte
        ∧ Feed.after (writeItems level items ++ newLine lower) rest = .byte byte more := by
  cases items with
  | nil => exact ⟨0x0A, _, .inr rfl, rfl⟩
  | cons => exact ⟨0x2C, _, .inl rfl, rfl⟩

theorem closing_fields (level lower : Nat) (fields : List (String × Json)) (rest : Feed)
    : ∃ byte more, Closing byte
        ∧ Feed.after (writeFields level fields ++ newLine lower) rest = .byte byte more := by
  cases fields with
  | nil => exact ⟨0x0A, _, .inr rfl, rfl⟩
  | cons => exact ⟨0x2C, _, .inl rfl, rfl⟩

section Items

variable {item : Reading Json} {again : Float → Float} {level : Nat}

/-- The items after the first one are read as they were written, by induction on them. -/
theorem takes_laterItems {limit lower : Nat} {later : List Json} (enough : later.length < limit)
    (each : ∀ value ∈ later, TakesValue item level value (value.onReals again))
    (opens : ∀ value ∈ later, Opens (write level value))
    {front : List Json} (begun : front ≠ []) (rest : Feed)
    : Takes (items item limit front) (writeItems level later ++ newLine lower)
        (front.reverse ++ onRealsItems again later) (.byte 0x5D rest) := by
  induction later generalizing limit front with
  | nil =>
      obtain ⟨limit, rfl⟩ := Nat.exists_eq_add_one.mpr (Nat.zero_lt_of_lt enough)
      rw [writeItems, List.nil_append, onRealsItems, List.append_nil,
        ← List.append_nil (newLine lower), items]
      refine .bind (takes_peekToken (isBlank_newLine lower) (by decide) rest) ?_
      exact .pure _ _
  | cons value later ih =>
      rw [List.length_cons] at enough
      obtain ⟨limit, rfl⟩ := Nat.exists_eq_add_one.mpr (Nat.zero_lt_of_lt enough)
      obtain ⟨takesValue, takesLater⟩ := List.forall_mem_cons.mp each
      obtain ⟨⟨first, tail, split, notBlank, notEnd⟩, opensLater⟩ := List.forall_mem_cons.mp opens
      obtain ⟨byte, more, closing, follows⟩ := closing_items level lower later (.byte 0x5D rest)
      have readValue := takesValue.plain closing more
      have readLater := ih (Nat.lt_of_succ_lt_succ enough) takesLater opensLater
        (List.cons_ne_nil (value.onReals again) front)
      rw [← follows] at readValue
      rw [List.reverse_cons, List.append_assoc] at readLater
      simp only [writeItems, onRealsItems, List.append_assoc, List.cons_append]
      rw [items]
      refine .look (takes_peekToken_nil (by decide) _) ?_
      change Takes (if front.isEmpty then _ else _) _ _ _
      rw [if_neg (by simpa using begun)]
      refine .step (takes_skip _ _) ?_
      rw [split] at readValue ⊢
      refine .bind (takes_peekToken (isBlank_newLine level) notBlank _) ?_
      split
      case h_1 absent => cases absent
      case h_2 atEnd => exact absurd (Option.some.inj atEnd) notEnd
      case h_3 => exact .bind readValue readLater

/-- All items of a list are read as they were written. -/
theorem takes_items {limit lower : Nat} {value : Json} {later : List Json}
    (enough : later.length + 1 < limit)
    (each : ∀ held ∈ value :: later, TakesValue item level held (held.onReals again))
    (opens : ∀ held ∈ value :: later, Opens (write level held)) (rest : Feed)
    : Takes (items item limit [])
        (newLine level ++ write level value ++ writeItems level later ++ newLine lower)
        (onRealsItems again (value :: later)) (.byte 0x5D rest) := by
  obtain ⟨limit, rfl⟩ := Nat.exists_eq_add_one.mpr (Nat.zero_lt_of_lt enough)
  obtain ⟨takesValue, takesLater⟩ := List.forall_mem_cons.mp each
  obtain ⟨⟨first, tail, split, notBlank, notEnd⟩, opensLater⟩ := List.forall_mem_cons.mp opens
  obtain ⟨byte, more, closing, follows⟩ := closing_items level lower later (.byte 0x5D rest)
  have readValue := takesValue.plain closing more
  have readLater : Takes (items item limit [value.onReals again])
      (writeItems level later ++ newLine lower)
      (onRealsItems again (value :: later)) (.byte 0x5D rest) :=
    takes_laterItems (Nat.lt_of_succ_lt_succ enough) takesLater opensLater (by simp) rest
  rw [← follows] at readValue
  simp only [List.append_assoc]
  rw [items]
  rw [split] at readValue ⊢
  refine .bind (takes_peekToken (isBlank_newLine level) notBlank _) ?_
  split
  case h_1 absent => cases absent
  case h_2 atEnd => exact absurd (Option.some.inj atEnd) notEnd
  case h_3 => exact .bind readValue readLater

end Items

section Fields

variable {value : Reading Json} {again : Float → Float} {level : Nat}

/-- A field is read as it was written. -/
theorem takes_field {name : String} {document : Json}
    (takesValue : TakesValue value level document (document.onReals again))
    {byte : UInt8} (closing : Closing byte) (rest : Feed)
    : Takes (field value) (writeText name ++ [0x3A, 0x20] ++ write level document)
        (name, document.onReals again) (.byte byte rest) := by
  have readValue := takesValue [0x20] (by decide +kernel) byte closing rest
  have split : writeText name ++ [0x3A, 0x20] ++ write level document
      = 0x22 :: (((Bytes.ofText name).flatMap escapeByte ++ [0x22])
        ++ 0x3A :: ([0x20] ++ write level document)) := by
    simp [writeText]
  rw [split, field]
  refine .step (takes_skip _ _) ?_
  refine .bind (takes_string name _) ?_
  refine .look (takes_peekToken_nil (by decide) _) ?_
  refine .step (takes_skip _ _) ?_
  rw [← List.append_nil ([0x20] ++ write level document)]
  exact .bind readValue (.pure _ _)

/-- The fields after the first one are read as they were written, by induction on them: each
name is above those before it, so it is put at the end.
-/
theorem takes_laterFields {limit lower : Nat} {later : Fields} (enough : later.length < limit)
    (each : ∀ item ∈ later, TakesValue value level item.2 (item.2.onReals again))
    {held : Fields} (above : ∀ item ∈ later, ∀ former ∈ held, former.1 < item.1)
    (ascending : Fields.Ascending later) (rest : Feed)
    : Takes (fields value limit false held) (writeFields level later ++ newLine lower)
        (held ++ onRealsFields again later) (.byte 0x7D rest) := by
  induction later generalizing limit held with
  | nil =>
      obtain ⟨limit, rfl⟩ := Nat.exists_eq_add_one.mpr (Nat.zero_lt_of_lt enough)
      rw [writeFields, List.nil_append, onRealsFields, List.append_nil,
        ← List.append_nil (newLine lower), fields]
      refine .bind (takes_peekToken (isBlank_newLine lower) (by decide) rest) ?_
      exact .pure _ _
  | cons item later ih =>
      obtain ⟨name, document⟩ := item
      rw [List.length_cons] at enough
      obtain ⟨limit, rfl⟩ := Nat.exists_eq_add_one.mpr (Nat.zero_lt_of_lt enough)
      obtain ⟨takesValue, takesLater⟩ := List.forall_mem_cons.mp each
      obtain ⟨aboveHeld, aboveLater⟩ := List.forall_mem_cons.mp above
      obtain ⟨belowLater, laterAscending⟩ := List.pairwise_cons.mp ascending
      obtain ⟨byte, more, closing, follows⟩ := closing_fields level lower later (.byte 0x7D rest)
      have readField : Takes (field value) _ (name, document.onReals again) _ :=
        takes_field takesValue closing more
      have aboveAll (item : String × Json) (member : item ∈ later)
          : ∀ former ∈ held ++ [(name, document.onReals again)], former.1 < item.1 := by
        intro former old
        rcases List.mem_append.mp old with old | new
        · exact aboveLater item member former old
        · obtain rfl := List.mem_singleton.mp new
          exact belowLater item member
      have readLater := ih (Nat.lt_of_succ_lt_succ enough) takesLater aboveAll laterAscending
      rw [← follows] at readField
      rw [List.append_assoc] at readLater
      have split : writeFields level ((name, document) :: later) ++ newLine lower
          = 0x2C :: (newLine level ++ ((writeText name ++ [0x3A, 0x20] ++ write level document)
              ++ (writeFields level later ++ newLine lower))) := by
        simp [writeFields]
      rw [split, onRealsFields, fields]
      refine .look (takes_peekToken_nil (by decide) _) ?_
      refine .step (takes_skip _ _) ?_
      refine .bind (takes_peekToken (isBlank_newLine level) (by decide) _) ?_
      refine .look (.pure () _) ?_
      refine .bind readField ?_
      change Takes (fields value limit false (Fields.put name (document.onReals again) held)) _ _ _
      rw [Fields.put_of_above _ aboveHeld]
      exact readLater

/-- All fields of an object are read as they were written. -/
theorem takes_fields {limit lower : Nat} {name : String} {document : Json} {later : Fields}
    (enough : later.length + 1 < limit)
    (each : ∀ item ∈ (name, document) :: later,
      TakesValue value level item.2 (item.2.onReals again))
    (ascending : Fields.Ascending ((name, document) :: later)) (rest : Feed)
    : Takes (fields value limit true [])
        (newLine level ++ ((writeText name ++ [0x3A, 0x20] ++ write level document)
          ++ (writeFields level later ++ newLine lower)))
        (onRealsFields again ((name, document) :: later)) (.byte 0x7D rest) := by
  obtain ⟨limit, rfl⟩ := Nat.exists_eq_add_one.mpr (Nat.zero_lt_of_lt enough)
  obtain ⟨takesValue, takesLater⟩ := List.forall_mem_cons.mp each
  obtain ⟨belowLater, laterAscending⟩ := List.pairwise_cons.mp ascending
  obtain ⟨byte, more, closing, follows⟩ := closing_fields level lower later (.byte 0x7D rest)
  have readField : Takes (field value) _ (name, document.onReals again) _ :=
    takes_field takesValue closing more
  have above (item : String × Json) (member : item ∈ later)
      : ∀ former ∈ [(name, document.onReals again)], former.1 < item.1 := by
    intro former old
    obtain rfl := List.mem_singleton.mp old
    exact belowLater item member
  have readLater : Takes (fields value limit false [(name, document.onReals again)])
      (writeFields level later ++ newLine lower)
      (onRealsFields again ((name, document) :: later)) (.byte 0x7D rest) :=
    takes_laterFields (Nat.lt_of_succ_lt_succ enough) takesLater above laterAscending rest
  rw [← follows] at readField
  rw [fields]
  refine .bind (takes_peekToken (isBlank_newLine level) (by decide) _) ?_
  refine .look (.pure () _) ?_
  exact .bind readField readLater

end Fields

theorem takes_enclosed {α : Type} {inside : Reading α} {ending : Reading Unit} {front back : Bytes}
    {value : α} {rest : Feed} (first : Takes inside front value (Feed.after back rest))
    (second : Takes ending back () rest)
    : Takes (enclosed inside ending) (front ++ back) value rest := by
  intro taken peeked
  obtain ⟨count, looked, reached⟩ := first taken peeked
  obtain ⟨total, seen, finished⟩ := second count looked
  refine ⟨total, seen, ?_⟩
  simp only [enclosed, Feed.after_append, reached, finished]

theorem takes_listEnd (rest : Feed)
    : Takes listEnd [0x5D] () rest :=
  .look (takes_peekToken_nil (by decide) _) (takes_skip _ _)

theorem takes_objectEnd (rest : Feed)
    : Takes objectEnd [0x7D] () rest :=
  .look (takes_peekToken_nil (by decide) _) (takes_skip _ _)

-----------------------------------------------------------------------------------------
-- Documents
-----------------------------------------------------------------------------------------

theorem value_eq (depth : Nat)
    : ∃ inner, value depth = valueWith inner := by
  cases depth with
  | zero => exact ⟨none, rfl⟩
  | succ depth => exact ⟨some (value depth), rfl⟩

variable {fine : Float → Prop} {again : Float → Float}

theorem takes_digitsValue {inner : Option (Reading Json)} {blanks : Bytes}
    (blank : ∀ byte ∈ blanks, isBlank byte = true) {bytes : Bytes} {document : Json} {rest : Feed}
    (begins : ∃ first tail, bytes = first :: tail ∧ isDigit first = true)
    (takes : Takes (number true) bytes document rest)
    : Takes (valueWith inner) (blanks ++ bytes) document rest := by
  obtain ⟨first, tail, rfl, digit⟩ := begins
  obtain ⟨_, _, same, notBlank, -⟩ := opens_of_isDigit digit tail
  obtain ⟨rfl, rfl⟩ := List.cons.inj same
  refine .bind (takes_peekToken blank notBlank _) ?_
  split
  case h_1 absent => cases absent
  case h_9 found =>
    obtain rfl := Option.some.inj found
    rw [if_pos digit]
    exact takes
  all_goals
    rename_i found
    obtain rfl := Option.some.inj found
    exact absurd digit (by decide)

/-- An integer within the limits is read as it was written. -/
theorem takes_integer {levels : Nat} {value : Int} (lower : -2 ^ 63 ≤ value)
    (upper : value < 2 ^ 64) (level : Nat)
    : TakesValue (Reading.value levels) level (.integer value) (.integer value) := by
  intro blanks blank byte closing rest
  obtain ⟨inner, same⟩ := value_eq levels
  rw [same]
  cases value with
  | ofNat number =>
      have small : number < wordLimit := by
        rw [Int.ofNat_eq_natCast] at upper
        change number < 2 ^ 64
        omega
      exact takes_digitsValue blank (begins_writeNat number)
        (takes_number closing small (.inl rfl) rest)
  | negSucc number =>
      have fits : number + 1 ≤ 2 ^ 63 := by omega
      have small : number + 1 < wordLimit := by
        change number + 1 < 2 ^ 64
        omega
      refine .bind (takes_peekToken blank (by decide) _) ?_
      refine .step (takes_skip _ _) ?_
      exact takes_number closing small (.inr ⟨by omega, fits⟩) rest

theorem length_le_writeItems (level : Nat) (items : List Json)
    : items.length ≤ (writeItems level items).length := by
  induction items with
  | nil => exact Nat.le_refl _
  | cons item later ih =>
      simp only [writeItems, List.length_append, List.length_cons]
      omega

theorem length_le_writeFields (level : Nat) (fields : List (String × Json))
    : fields.length ≤ (writeFields level fields).length := by
  induction fields with
  | nil => exact Nat.le_refl _
  | cons field later ih =>
      simp only [writeFields, List.length_append, List.length_cons]
      omega

/-- A list is read as it was written if its items are. -/
theorem takes_list {levels level : Nat} {list : List Json}
    (each : ∀ item ∈ list, TakesValue (value levels) (level + 1) item (item.onReals again))
    (opens : ∀ item ∈ list, Opens (write (level + 1) item))
    : TakesValue (value (levels + 1)) level (.list list) (.list (onRealsItems again list)) := by
  intro blanks blank byte closing rest
  cases list with
  | nil =>
      have readItems (limit : Nat)
          : Takes (items (value levels) (limit + 1) []) [] [] (.byte 0x5D (.byte byte rest)) := by
        rw [items]
        exact .look (takes_peekToken_nil (by decide) _) (.pure _ _)
      refine .bind (takes_peekToken blank (by decide) _) ?_
      refine .step (takes_skip _ _) (.look (takes_bound _) ?_)
      exact .returning Json.list (takes_enclosed (readItems _) (takes_listEnd _))
  | cons item later =>
      have split : write level (.list (item :: later))
          = 0x5B :: ((newLine (level + 1) ++ write (level + 1) item
              ++ writeItems (level + 1) later ++ newLine level) ++ [0x5D]) := by
        simp [write]
      rw [split]
      refine .bind (takes_peekToken blank (by decide) _) ?_
      refine .step (takes_skip _ _) (.look (takes_bound _) ?_)
      refine .returning Json.list (takes_enclosed (takes_items ?_ each opens _) (takes_listEnd _))
      have := length_le_writeItems (level + 1) later
      simp only [Feed.size_after, List.length_append, newLine, List.length_cons]
      omega

/-- An object is read as it was written if the values of its fields are. -/
theorem takes_object {levels level : Nat} {fields : Fields}
    (ascending : Fields.Ascending fields)
    (each : ∀ field ∈ fields,
      TakesValue (value levels) (level + 1) field.2 (field.2.onReals again))
    : TakesValue (value (levels + 1)) level (.object fields)
        (.object (onRealsFields again fields)) := by
  intro blanks blank byte closing rest
  cases fields with
  | nil =>
      have readFields (limit : Nat)
          : Takes (Reading.fields (value levels) (limit + 1) true []) [] []
              (.byte 0x7D (.byte byte rest)) := by
        rw [Reading.fields]
        exact .look (takes_peekToken_nil (by decide) _) (.pure _ _)
      refine .bind (takes_peekToken blank (by decide) _) ?_
      refine .step (takes_skip _ _) (.look (takes_bound _) ?_)
      exact .returning Json.object (takes_enclosed (readFields _) (takes_objectEnd _))
  | cons field later =>
      obtain ⟨name, document⟩ := field
      have split : write level (.object ((name, document) :: later))
          = 0x7B :: ((newLine (level + 1)
              ++ ((writeText name ++ [0x3A, 0x20] ++ write (level + 1) document)
                ++ (writeFields (level + 1) later ++ newLine level))) ++ [0x7D]) := by
        simp [write]
      rw [split]
      refine .bind (takes_peekToken blank (by decide) _) ?_
      refine .step (takes_skip _ _) (.look (takes_bound _) ?_)
      refine .returning Json.object
        (takes_enclosed (takes_fields ?_ each ascending _) (takes_objectEnd _))
      have := length_le_writeFields (level + 1) later
      simp only [Feed.size_after, List.length_append, newLine, List.length_cons]
      omega

/-- Every document within the limits is read as it was written, except that its real numbers
are read again. Witness: induction on the document, where every level of containers takes one
level of the reader.
-/
theorem takes_write (rereads : ∀ value, fine value → Rereads value (again value))
    {levels : Nat} {document : Json} (within : Within fine levels document) (level : Nat)
    : TakesValue (value levels) level document (document.onReals again) := by
  induction within generalizing level with
  | null =>
      intro blanks blank byte closing rest
      obtain ⟨inner, same⟩ := value_eq _
      rw [same]
      refine .bind (takes_peekToken blank (by decide) _) (.step (takes_skip _ _) ?_)
      exact .returning (fun _ => _) (takes_word _ _)
  | bool value =>
      intro blanks blank byte closing rest
      obtain ⟨inner, same⟩ := value_eq _
      rw [same]
      cases value with
      | true =>
          refine .bind (takes_peekToken blank (by decide) _) (.step (takes_skip _ _) ?_)
          exact .returning (fun _ => _) (takes_word _ _)
      | false =>
          refine .bind (takes_peekToken blank (by decide) _) (.step (takes_skip _ _) ?_)
          exact .returning (fun _ => _) (takes_word _ _)
  | integer lower upper => exact takes_integer lower upper level
  | real allowed =>
      intro blanks blank byte closing rest
      obtain ⟨inner, same⟩ := value_eq _
      rw [same]
      exact (rereads _ allowed).takes inner blanks blank byte closing rest
  | text value =>
      intro blanks blank byte closing rest
      obtain ⟨inner, same⟩ := value_eq _
      rw [same]
      refine .bind (takes_peekToken blank (by decide) _) (.step (takes_skip _ _) ?_)
      exact .returning Json.text (takes_string _ _)
  | list all ih =>
      exact takes_list (fun item member => ih item member (level + 1))
        fun item member => opens_write rereads (all item member) (level + 1)
  | object ascending all ih =>
      exact takes_object ascending fun field member => ih field member (level + 1)

theorem takes_document (rereads : ∀ value, fine value → Rereads value (again value))
    {document : Json} (within : Within fine depthLimit document)
    : Takes Reading.document document.render (document.onReals again) .done := by
  have readValue := (takes_write rereads within 0).plain (.inr rfl) .done
  have readEnd : Takes peekToken [0x0A] none .done := fun taken _ => ⟨taken + 1, false, rfl⟩
  exact .bind readValue (.returning (fun _ => document.onReals again) readEnd)

end Reading

/-- A rendered document is read as the document, except that its real numbers are read again.
Witness: the reader takes all that was written, and nothing is left.
-/
theorem ofFeed_render {fine : Float → Prop} {again : Float → Float}
    (rereads : ∀ value, fine value → Rereads value (again value)) {document : Json}
    (within : Within fine Reading.depthLimit document)
    : ofFeed (Feed.after document.render .done) = .ok (document.onReals again) := by
  obtain ⟨count, looked, reached⟩ := Reading.takes_document rereads within 0 false
  rw [ofFeed, reached]

end RouteDesk.Json
