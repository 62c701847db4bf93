import RouteDesk.Json.Reader
import RouteDesk.Proofs.Json.Limits
import RouteDesk.Proofs.Decimal.Scaling

/-! What the reader can answer. Whatever the text, a document that was read keeps to the limits:
integers fit into 64 bits, real numbers are finite, names ascend, and containers nest no
deeper than the reader follows them.
-/

namespace RouteDesk.Json.Reading

/-- Whatever the action answers has the property. -/
def Yields {α : Type} (action : Reading α) (fact : α → Prop) : Prop :=
  ∀ ⦃cursor : Cursor⦄ ⦃value : α⦄ ⦃next : Cursor⦄, action cursor = .ok value next → fact value

namespace Yields

variable {α β : Type} {action : Reading α} {next : α → Reading β} {middle : α → Prop}
  {fact : β → Prop}

theorem pure {value : β} (holds : fact value)
    : Yields (Pure.pure value) fact := by
  intro cursor answer last reached
  obtain ⟨rfl, rfl⟩ := EStateM.Result.ok.inj reached
  exact holds

theorem refuse {refusal : Refusal}
    : Yields (Reading.refuse refusal) fact := by
  intro cursor answer last reached
  cases reached

theorem bind (first : Yields action middle)
    (second : ∀ value, middle value → Yields (next value) fact)
    : Yields (action >>= next) fact := by
  intro cursor answer last reached
  change EStateM.bind action next cursor = _ at reached
  unfold EStateM.bind at reached
  split at reached
  case h_1 value place found => exact second value (first found) reached
  case h_2 => cases reached

/-- Where nothing needs to be known about the first answer. -/
theorem andThen (second : ∀ value, Yields (next value) fact)
    : Yields (action >>= next) fact := by
  have anything : Yields action fun _ => True := fun _ _ _ _ => trivial
  exact bind anything fun value _ => second value

theorem weaken {weaker : α → Prop} (strong : Yields action middle)
    (implies : ∀ value, middle value → weaker value)
    : Yields action weaker :=
  fun _ _ _ reached => implies _ (strong reached)

end Yields

-----------------------------------------------------------------------------------------
-- Numbers
-----------------------------------------------------------------------------------------

/-- A document that is a finite real number. -/
def IsReal (document : Json) : Prop :=
  ∃ value, IsFinite value ∧ document = .real value

theorem IsReal.within {document : Json} (real : IsReal document) (levels : Nat)
    : Within IsFinite levels document := by
  obtain ⟨value, finite, rfl⟩ := real
  exact .real finite

/-- Reading digits onto a number keeps it below the limit, by induction on the feed. -/
theorem yields_digits {limit start : Nat} (below : start < limit)
    : Yields (digits limit start) fun run => run.value < limit := by
  have hgo (feed : Feed) : ∀ taken value count, value < limit →
      ∀ run next, digits.go limit feed taken value count = .ok run next → run.value < limit := by
    induction feed with
    | done =>
        intro taken value count small run next reached
        obtain ⟨rfl, rfl⟩ := EStateM.Result.ok.inj reached
        exact small
    | cut => nofun
    | byte byte rest ih =>
        intro taken value count small run next reached
        rw [digits.go] at reached
        split at reached
        case isTrue =>
          dsimp only at reached
          split at reached
          case isTrue further => exact ih _ _ _ further _ _ reached
          case isFalse =>
            obtain ⟨rfl, rfl⟩ := EStateM.Result.ok.inj reached
            exact small
        case isFalse =>
          obtain ⟨rfl, rfl⟩ := EStateM.Result.ok.inj reached
          exact small
    | fault rest => nofun
  intro cursor run next reached
  exact hgo _ _ _ _ below _ _ reached

theorem yields_real {positive : Bool} {significand : Nat} {exponent : Int}
    (small : significand < wordLimit)
    : Yields (real positive significand exponent) IsReal := by
  unfold real
  split
  case h_1 magnitude found =>
    have finite := Rounding.isFinite_scaled small found
    refine .pure ⟨_, ?_, rfl⟩
    cases positive with
    | true => exact finite
    | false => exact Rounding.isFinite_neg finite
  case h_2 => exact .refuse

theorem yields_exponentPart {positive : Bool} {significand : Nat} {start : Int}
    (small : significand < wordLimit)
    : Yields (exponentPart positive significand start) IsReal := by
  unfold exponentPart
  refine .andThen fun _ => .andThen fun raising => .andThen fun first => ?_
  split
  case isTrue =>
    refine .andThen fun run => ?_
    split
    case isTrue =>
      split
      case isTrue => exact .andThen fun _ => .refuse
      case isFalse =>
        refine .andThen fun _ => .pure ⟨_, ?_, rfl⟩
        cases positive <;> decide
    case isFalse => exact yields_real small
  case isFalse => exact .refuse

theorem yields_afterDigits {positive : Bool} {significand : Nat} {exponent : Int}
    (small : significand < wordLimit)
    : Yields (afterDigits positive significand exponent) IsReal := by
  unfold afterDigits
  refine .andThen fun next => ?_
  split
  case isTrue => exact yields_exponentPart small
  case isFalse => exact yields_real small

theorem yields_fractionPart {positive : Bool} {significand : Nat} {exponent : Int}
    (small : significand < wordLimit)
    : Yields (fractionPart positive significand exponent) IsReal := by
  unfold fractionPart
  refine .andThen fun _ => .bind (yields_digits small) fun run below => ?_
  split
  case isTrue => exact .andThen fun _ => yields_afterDigits below
  case isFalse =>
    split
    case isTrue =>
      refine .andThen fun next => ?_
      split <;> exact .refuse
    case isFalse => exact yields_afterDigits below

/-- A number whose whole part fits is an integer that fits, or a finite real number. -/
theorem yields_afterWhole {positive : Bool} {significand : Nat} (levels : Nat)
    (small : significand < wordLimit)
    : Yields (afterWhole positive significand) (Within IsFinite levels) := by
  have word : significand < 2 ^ 64 := small
  unfold afterWhole
  refine .andThen fun next => ?_
  split
  case h_1 => exact (yields_fractionPart small).weaken fun _ real => real.within levels
  case h_2 =>
    split
    case isTrue => exact (yields_exponentPart small).weaken fun _ real => real.within levels
    case isFalse =>
      split
      case isTrue => exact .pure (.integer (by omega) (by omega))
      case isFalse =>
        split
        case isTrue => exact .pure (.real (by decide))
        case isFalse =>
          split
          case isTrue => exact .pure (.integer (by omega) (by omega))
          case isFalse =>
            exact .pure (.real (Rounding.isFinite_neg (Rounding.isFinite_toFloat word)))

theorem yields_longWhole {positive : Bool} {significand : Nat}
    (small : significand < wordLimit)
    : Yields (longWhole positive significand) IsReal := by
  unfold longWhole
  refine .andThen fun more => .andThen fun next => ?_
  split
  case h_1 => exact yields_fractionPart small
  case h_2 =>
    split
    case isTrue => exact yields_exponentPart small
    case isFalse => exact yields_real small

theorem yields_number (positive : Bool) (levels : Nat)
    : Yields (number positive) (Within IsFinite levels) := by
  unfold number
  refine .andThen fun first => ?_
  split
  case isTrue =>
    refine .andThen fun next => ?_
    split
    case h_1 =>
      split
      case isTrue => exact .refuse
      case isFalse => exact yields_afterWhole levels (by decide)
    case h_2 => exact yields_afterWhole levels (by decide)
  case isFalse =>
    split
    case isTrue =>
      have digit : first.toNat - 0x30 < wordLimit :=
        lt_of_lt_of_le (by have := first.toNat_lt; omega) (show 256 ≤ wordLimit by decide)
      refine .bind (yields_digits digit) fun run below => ?_
      split
      case isTrue => exact (yields_longWhole below).weaken fun _ real => real.within levels
      case isFalse => exact yields_afterWhole levels below
    case isFalse => exact .refuse

-----------------------------------------------------------------------------------------
-- Containers
-----------------------------------------------------------------------------------------

/-- The items of a list keep a property, by induction on the steps. -/
theorem yields_items {item : Reading Json} {fact : Json → Prop} (each : Yields item fact)
    (limit : Nat) {front : List Json} (former : ∀ value ∈ front, fact value)
    : Yields (items item limit front) fun values => ∀ value ∈ values, fact value := by
  induction limit generalizing front with
  | zero => exact .refuse
  | succ limit ih =>
      have hnext : Yields (do let value ← item; items item limit (value :: front))
          fun values => ∀ value ∈ values, fact value := by
        refine .bind each fun value holds => ih ?_
        simpa using ⟨holds, former⟩
      rw [items]
      refine .andThen fun next => ?_
      split
      case h_1 => exact .refuse
      case h_2 => exact .pure (by simpa using former)
      case h_3 =>
        split
        case isTrue => exact hnext
        case isFalse =>
          split
          case isTrue =>
            refine .andThen fun _ => .andThen fun next => ?_
            split
            case h_1 => exact .refuse
            case h_2 => exact .refuse
            case h_3 => exact hnext
          case isFalse => exact .refuse

theorem yields_field {value : Reading Json} {fact : Json → Prop} (each : Yields value fact)
    : Yields (field value) fun read => fact read.2 := by
  unfold field
  refine .andThen fun _ => .andThen fun name => .andThen fun next => ?_
  split
  case h_1 => exact .refuse
  case h_2 => exact .andThen fun _ => .bind each fun held holds => .pure holds
  case h_3 => exact .refuse

/-- Fields that keep to the order of their names and whose values have a property. -/
structure FieldsOf (fact : Json → Prop) (fields : Fields) : Prop where
  ascending : fields.Ascending
  all : ∀ field ∈ fields, fact field.2

/-- The fields of an object ascend and keep a property, by induction on the steps: every field
is put in its place.
-/
theorem yields_fields {value : Reading Json} {fact : Json → Prop} (each : Yields value fact)
    (limit : Nat) {first : Bool} {held : Fields} (former : FieldsOf fact held)
    : Yields (fields value limit first held) (FieldsOf fact) := by
  induction limit generalizing first held with
  | zero => exact .refuse
  | succ limit ih =>
      have hnext : Yields
          (field value >>= fun read => fields value limit false (Fields.put read.1 read.2 held))
          (FieldsOf fact) := by
        refine .bind (yields_field each) fun read holds => ih ⟨former.ascending.put _ _, ?_⟩
        intro field member
        rcases Fields.mem_put member with rfl | before
        · exact holds
        · exact former.all field before
      rw [fields]
      refine .andThen fun next => ?_
      split
      case h_1 => exact .refuse
      case h_2 => exact .pure former
      case h_3 =>
        split
        case isTrue => exact .andThen fun _ => hnext
        case isFalse =>
          split
          case isTrue => exact .andThen fun _ => .andThen fun _ => .andThen fun _ => hnext
          case isFalse => exact .refuse

theorem yields_enclosed {α : Type} {inside : Reading α} {ending : Reading Unit}
    {fact : α → Prop} (holds : Yields inside fact)
    : Yields (enclosed inside ending) fact := by
  intro cursor answer last reached
  unfold enclosed at reached
  dsimp only at reached
  split at reached
  case h_1 value next found =>
    split at reached
    case h_1 =>
      obtain ⟨rfl, rfl⟩ := EStateM.Result.ok.inj reached
      exact holds found
    case h_2 => cases reached
  case h_2 => split at reached <;> cases reached

-----------------------------------------------------------------------------------------
-- Documents
-----------------------------------------------------------------------------------------

/-- What a value may hold inside, as its reader was given a reader for it or not. -/
def Inner (levels : Nat) : Option (Reading Json) → Prop
  | none => True
  | some inner => ∃ below, levels = below + 1 ∧ Yields inner (Within IsFinite below)

theorem yields_valueWith {inner : Option (Reading Json)} {levels : Nat}
    (holds : Inner levels inner)
    : Yields (valueWith inner) (Within IsFinite levels) := by
  unfold valueWith
  refine .andThen fun next => ?_
  split
  case h_1 => exact .refuse
  case h_2 => exact .andThen fun _ => .andThen fun _ => .pure .null
  case h_3 => exact .andThen fun _ => .andThen fun _ => .pure (.bool true)
  case h_4 => exact .andThen fun _ => .andThen fun _ => .pure (.bool false)
  case h_5 => exact .andThen fun _ => yields_number false levels
  case h_6 => exact .andThen fun _ => .andThen fun text => .pure (.text text)
  case h_7 =>
    split
    case h_1 => exact .refuse
    case h_2 item =>
      obtain ⟨below, rfl, each⟩ := holds
      refine .andThen fun _ => .andThen fun limit => ?_
      refine .bind (yields_enclosed (yields_items each limit (by simp))) fun values all => ?_
      exact .pure (.list all)
  case h_8 =>
    split
    case h_1 => exact .refuse
    case h_2 value =>
      obtain ⟨below, rfl, each⟩ := holds
      refine .andThen fun _ => .andThen fun limit => ?_
      refine .bind (yields_enclosed (yields_fields each limit ⟨.nil, by simp⟩)) fun read all => ?_
      exact .pure (.object all.ascending all.all)
  case h_9 =>
    split
    case isTrue => exact yields_number true levels
    case isFalse => exact .refuse

theorem yields_value (depth : Nat)
    : Yields (value depth) (Within IsFinite depth) := by
  induction depth with
  | zero => exact yields_valueWith trivial
  | succ depth ih => exact yields_valueWith ⟨depth, rfl, ih⟩

theorem yields_document
    : Yields document (Within IsFinite depthLimit) := by
  unfold document
  refine .bind (yields_value depthLimit) fun held within => .andThen fun next => ?_
  split
  case h_1 => exact .pure within
  case h_2 => exact .refuse

end Reading

/-- A document that was read keeps to the limits. Witness: the reader yields nothing else. -/
theorem within_of_ofCommented {text : Bytes} {document : Json}
    (read : ofCommented text = .ok document)
    : Within IsFinite Reading.depthLimit document := by
  unfold ofCommented ofFeed at read
  split at read
  case h_1 value next found =>
    obtain rfl := Except.ok.inj read
    exact Reading.yields_document found
  case h_2 => cases read

end RouteDesk.Json
