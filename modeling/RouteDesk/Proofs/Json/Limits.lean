import RouteDesk.Proofs.Json.Fields
import Mathlib.Tactic

/-! What every document has in common that was read: its integers fit into 64 bits, the names
of its fields ascend, and its containers do not nest too deeply. What its real numbers are
like is left open.
-/

namespace RouteDesk.Json

/-- A document whose containers nest no deeper than a number of levels and whose real numbers
are all `fine`.
-/
inductive Within (fine : Float → Prop) : Nat → Json → Prop
  | null {levels : Nat} : Within fine levels .null
  | bool {levels : Nat} (value : Bool) : Within fine levels (.bool value)
  | integer {levels : Nat} {value : Int} (lower : -2 ^ 63 ≤ value) (upper : value < 2 ^ 64)
    : Within fine levels (.integer value)
  | real {levels : Nat} {value : Float} (allowed : fine value)
    : Within fine levels (.real value)
  | text {levels : Nat} (value : String) : Within fine levels (.text value)
  | list {levels : Nat} {items : List Json}
    (all : ∀ item ∈ items, Within fine levels item)
    : Within fine (levels + 1) (.list items)
  | object {levels : Nat} {fields : Fields} (ascending : Fields.Ascending fields)
    (all : ∀ field ∈ fields, Within fine levels field.2)
    : Within fine (levels + 1) (.object fields)

/-- A number that is neither infinite nor undefined. -/
def IsFinite (value : Float) : Prop :=
  value.isFinite = true

instance : DecidablePred IsFinite :=
  fun value => inferInstanceAs (Decidable (value.isFinite = true))

/-- A document without real numbers. -/
inductive RealFree : Json → Prop
  | null : RealFree .null
  | bool (value : Bool) : RealFree (.bool value)
  | integer (value : Int) : RealFree (.integer value)
  | text (value : String) : RealFree (.text value)
  | list {items : List Json} (all : ∀ item ∈ items, RealFree item) : RealFree (.list items)
  | object {fields : Fields} (all : ∀ field ∈ fields, RealFree field.2)
    : RealFree (.object fields)

namespace Within

variable {fine : Float → Prop} {levels : Nat}

/-- Without real numbers none has to be fine. -/
theorem of_realFree {document : Json} (within : Within fine levels document)
    (free : document.RealFree)
    : Within (fun _ => False) levels document := by
  induction within with
  | null => exact .null
  | bool value => exact .bool value
  | integer lower upper => exact .integer lower upper
  | real => cases free
  | text value => exact .text value
  | list all ih =>
      cases free with
      | list free => exact .list fun item member => ih item member (free item member)
  | object ascending all ih =>
      cases free with
      | object free =>
          exact .object ascending fun field member => ih field member (free field member)

theorem realFree {document : Json} (within : Within (fun _ => False) levels document)
    : document.RealFree := by
  induction within with
  | null => exact .null
  | bool value => exact .bool value
  | integer => exact .integer _
  | real impossible => exact impossible.elim
  | text value => exact .text value
  | list all ih => exact .list ih
  | object ascending all ih => exact .object ih

/-- An empty object nests one level. -/
theorem emptyObject : Within fine (levels + 1) (.object []) :=
  .object .nil (by simp)

/-- Putting a value of a name keeps an object within its levels. -/
theorem put {fields : Fields} (within : Within fine (levels + 1) (.object fields))
    (name : String) {value : Json} (held : Within fine levels value)
    : Within fine (levels + 1) (.object (Fields.put name value fields)) := by
  cases within with
  | object ascending all =>
      refine .object (ascending.put name value) fun field member => ?_
      rcases Fields.mem_put member with rfl | former
      · exact held
      · exact all field former

theorem erase {fields : Fields} (within : Within fine (levels + 1) (.object fields))
    (name : String)
    : Within fine (levels + 1) (.object (Fields.erase name fields)) := by
  cases within with
  | object ascending all =>
      exact .object (ascending.erase name) fun field member =>
        all field (Fields.mem_erase member)

/-- What an object holds for a name, or an empty object, nests one level less. -/
theorem get?_getD {fields : Fields} (within : Within fine (levels + 2) (.object fields))
    (name : String)
    : Within fine (levels + 1) ((Fields.get? fields name).getD (.object [])) := by
  cases within with
  | object _ all =>
      cases found : Fields.get? fields name with
      | none => exact emptyObject
      | some value => exact all _ (Fields.mem_of_get?_eq_some found)

end Within

end RouteDesk.Json
