/-! How the Camel language server is started: by a configured program, by one on the search
path, or by Java from a jar that the environment names.
-/

namespace RouteDesk.LanguageServer

/-- The program of the server on the search path. -/
def program : String := "camel-lsp-server"

/-- The environment variable that names the server's jar. -/
def jarVariable : String := "CAMEL_LSP_JAR"

/-- A command line. -/
structure Launch where
  command : String
  arguments : List String
deriving DecidableEq

/-- What could be found for starting the server. -/
structure Candidates where
  configured : Option String := none
  extraArguments : Option (List String) := none
  installed : Option String := none
  java : Option String := none
  jar : Option String := none

/-- Why the server cannot be started. -/
inductive LaunchError where
  | javaMissing
  | nothingFound
deriving DecidableEq

/-- What is said of a server that cannot be started. -/
def LaunchError.message : LaunchError → String
  | .javaMissing => s!"{jarVariable} is set but `java` was not found on PATH"
  | .nothingFound =>
    s!"{program} not found: put it on PATH, set lsp.{program}.binary.path, "
      ++ s!"or point {jarVariable} at the language server jar"

/-- The command line for the first of the three ways that is open. -/
def Candidates.launch (candidates : Candidates) : Except LaunchError Launch :=
  match candidates.configured.or candidates.installed with
  | some command => .ok ⟨command, candidates.extraArguments.getD []⟩
  | none =>
    match candidates.java, candidates.jar with
    | some java, some jar => .ok ⟨java, ["-jar", jar]⟩
    | none, some _ => .error .javaMissing
    | _, none => .error .nothingFound

end RouteDesk.LanguageServer
