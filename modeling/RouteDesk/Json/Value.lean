/-! JSON documents. The fields of an object are kept in the order of their names, so equal
contents are equal documents.
-/

namespace RouteDesk

/-- A JSON document. -/
inductive Json where
  | null
  | bool (value : Bool)
  | integer (value : Int)
  | real (value : Float)
  | text (value : String)
  | list (items : List Json)
  | object (fields : List (String × Json))
deriving Inhabited

namespace Json

/-- Named values, in the order of their names. -/
abbrev Fields := List (String × Json)

namespace Fields

/-- The value of a name. -/
def get? (fields : Fields) (name : String) : Option Json :=
  fields.lookup name

/-- The fields with this value for a name, in the place that the order assigns to it. -/
def put (name : String) (value : Json) : Fields → Fields
  | [] => [(name, value)]
  | field :: rest =>
    if name < field.1 then (name, value) :: field :: rest
    else if name = field.1 then (name, value) :: rest
    else field :: put name value rest

/-- The fields without a name. -/
def erase (name : String) (fields : Fields) : Fields :=
  fields.filter fun field => field.1 != name

end Fields

/-- The fields of an object. -/
def fields? : Json → Option Fields
  | .object fields => some fields
  | _ => none

/-- The value of a name in an object. -/
def get? (document : Json) (name : String) : Option Json :=
  match document with
  | .object fields => Fields.get? fields name
  | _ => none

end Json

end RouteDesk
