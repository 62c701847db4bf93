import RouteDesk.Path

/-! The formats that a Camel route can be written in, and the file that a new route is
expected to appear as.
-/

namespace RouteDesk

/-- A format of route definitions. -/
inductive Dialect where
  | yaml
  | java
  | xml
deriving DecidableEq, Inhabited

namespace Dialect

/-- Every dialect. -/
def all : List Dialect :=
  [.yaml, .java, .xml]

/-- What follows a route's name in the name of its file. -/
def suffix : Dialect → String
  | .yaml => ".camel.yaml"
  | .java => ".java"
  | .xml => ".xml"

/-- The name of the editor command that creates a route. -/
def commandName : Dialect → String
  | .yaml => "camel.jbang.routes.yaml"
  | .java => "camel.jbang.routes.java"
  | .xml => "camel.jbang.routes.xml"

/-- The name of the dialect for people. -/
def label : Dialect → String
  | .yaml => "YAML"
  | .java => "Java"
  | .xml => "XML"

/-- Whether names of routes may contain blanks. -/
def allowsBlanks : Dialect → Bool
  | .java => false
  | _ => true

/-- The name of a route's file. -/
def fileName (dialect : Dialect) (name : String) : String :=
  name ++ dialect.suffix

/-- The dialect of an editor command. -/
def ofCommandName? (id : String) : Option Dialect :=
  all.find? fun dialect => dialect.commandName == id

/-- The dialect with an editor command or, whatever the case of its letters, a common name. -/
def ofText? (text : String) : Option Dialect :=
  match ofCommandName? text with
  | some dialect => some dialect
  | none =>
    match String.ofList (text.toList.map Char.toLower) with
    | "yaml" | "yml" => some .yaml
    | "java" => some .java
    | "xml" => some .xml
    | _ => none

/-- What is said of a text that names no dialect. -/
def unknownMessage (text : String) : String :=
  s!"unknown Camel DSL `{text}` (expected yaml, java or xml)"

end Dialect

/-- The file that creating a route is expected to produce. -/
structure Artifact where
  dialect : Dialect
  name : String
  fileName : String
  path : Path
deriving DecidableEq

/-- The artifact of a route in a workspace. -/
def Artifact.of (root : Path) (dialect : Dialect) (name : String) : Artifact :=
  let fileName := dialect.fileName name
  ⟨dialect, name, fileName, root.child fileName⟩

end RouteDesk
