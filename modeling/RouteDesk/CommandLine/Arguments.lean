import RouteDesk.Route.Dialect
import RouteDesk.Catalog.Provider

/-! The arguments of the command line: what may be asked for, and how a list of arguments is
read. Options of the whole program may stand anywhere, and other ones with their command. Help
is a command where there are others, and takes the names of commands.
-/

namespace RouteDesk.CommandLine

-----------------------------------------------------------------------------------------
-- What may be asked for
-----------------------------------------------------------------------------------------

/-- How a new route is asked for. Timeouts are in seconds, the interval in milliseconds. -/
structure NewRoute where
  dialect : Dialect
  name : Option String := none
  fileTimeout : Nat := 30
  editorTimeout : Nat := 5
  interval : Nat := 500
  editor : String := "zed"
  version : Option String := none
deriving DecidableEq

/-- What may be done with the provider. -/
inductive ProviderTask where
  | get
  | set (provider : Provider)
  | clear
deriving DecidableEq

/-- What is to be done. -/
inductive Command where
  | new (route : NewRoute)
  | provider (settings : Option Path) (action : ProviderTask)
deriving DecidableEq

/-- A command, and the root that it is for. -/
structure Invocation where
  root : Path := Path.ofText "."
  verbose : Bool := false
  command : Command
deriving DecidableEq

/-- Why arguments stand for no command. -/
inductive UsageError where
  /-- Nothing is wrong, but only help was asked for. -/
  | helpWanted
  | commandMissing
  | unexpected (argument : String)
  | valueMissing (option : String)
  | malformed (option value : String)
  | repeated (option : String)
  | argumentMissing (name : String)
deriving DecidableEq

-----------------------------------------------------------------------------------------
-- Reading arguments
-----------------------------------------------------------------------------------------

/-- The commands that a list of arguments can have come to. -/
inductive Level where
  | top
  | new
  | provider
  | get
  | set
  | clear
  | help
deriving DecidableEq

/-- The command that a name leads to. -/
def Level.command? (level : Level) (name : String) : Option Level :=
  match level, name with
  | .top, "new" => some .new
  | .top, "provider" => some .provider
  | .top, "help" => some .help
  | .provider, "get" => some .get
  | .provider, "set" => some .set
  | .provider, "clear" => some .clear
  | .provider, "help" => some .help
  | _, _ => none

/-- What has been read so far. -/
structure Draft where
  level : Level := .top
  root : Path := Path.ofText "."
  /-- Whether the root and verbosity have been given since the last command. -/
  rootGiven : Bool := false
  verboseGiven : Bool := false
  verbose : Bool := false
  settings : Option Path := none
  /-- The options of a new route that have been given. -/
  given : List (String × String) := []
  argument : Option String := none

/-- The options of a new route. -/
def newOptions : List String :=
  ["name", "file-timeout", "editor-timeout", "poll-interval", "editor", "camel-version"]

/-- The options whose values are numbers. -/
def numericOptions : List String :=
  ["file-timeout", "editor-timeout", "poll-interval"]

/-- One more than the greatest number that an option takes. -/
def numberLimit : Nat := UInt64.size

/-- The number that a text of digits stands for, with a plus sign in front or not. -/
def number? (text : String) : Option Nat :=
  let digits := match text.toList with
    | '+' :: rest => rest
    | all => all
  if digits = [] ∨ digits.any (fun char => !char.isDigit) then none
  else
    let value := digits.foldl (fun value char => 10 * value + (char.toNat - '0'.toNat)) 0
    if value < numberLimit then some value else none

namespace Draft

/-- Whether an option takes a value at this point. -/
def takesValue (draft : Draft) (option : String) : Bool :=
  option == "root" || (option == "settings" && draft.level == .provider)
    || (newOptions.contains option && draft.level == .new)

/-- Takes the value of an option. -/
def withOption (draft : Draft) (option value : String) : Except UsageError Draft :=
  if option = "root" then
    if draft.rootGiven then .error (.repeated option)
    else if value = "" then .error (.valueMissing option)
    else .ok { draft with root := Path.ofText value, rootGiven := true }
  else if option = "settings" then
    if draft.settings.isSome then .error (.repeated option)
    else if value = "" then .error (.valueMissing option)
    else .ok { draft with settings := some (Path.ofText value) }
  else if (draft.given.lookup option).isSome then .error (.repeated option)
  else if numericOptions.contains option && (number? value).isNone then
    .error (.malformed option value)
  else .ok { draft with given := draft.given ++ [(option, value)] }

/-- Takes the flag for more of a log. -/
def withVerbose (draft : Draft) : Except UsageError Draft :=
  if draft.verboseGiven then .error (.repeated "verbose")
  else .ok { draft with verbose := true, verboseGiven := true }

/-- Takes flags of one letter, one after the other. -/
def withLetters (draft : Draft) : List Char → Except UsageError Draft
  | [] => .ok draft
  | letter :: rest =>
    if letter = 'v' then
      match draft.withVerbose with
      | .ok next => next.withLetters rest
      | .error reason => .error reason
    else if letter = 'h' then .error .helpWanted
    else .error (.unexpected (String.singleton letter))

/-- Goes on to a command. -/
def entering (draft : Draft) (level : Level) : Draft :=
  { draft with level, rootGiven := false, verboseGiven := false }

/-- Takes an argument that is neither a command nor an option. -/
def withArgument (draft : Draft) (argument : String) : Except UsageError Draft :=
  let taken : Except UsageError Draft := .ok { draft with argument := some argument }
  match draft.level with
  | .new =>
    if draft.argument.isSome then .error (.unexpected argument)
    else if (Dialect.ofText? argument).isNone then .error (.malformed "dialect" argument)
    else taken
  | .set =>
    if draft.argument.isSome then .error (.unexpected argument)
    else if (Provider.ofText? argument).isNone then .error (.malformed "provider" argument)
    else taken
  | _ => .error (.unexpected argument)

end Draft

/-- Whether an argument cannot be the value of the option before it. -/
def looksLikeOption (argument : String) : Bool :=
  argument.startsWith "-" && argument != "-"

/-- The name of a long option, and the value that is attached to it. -/
def splitOption (argument : String) : String × Option String :=
  let text := argument.toList.drop 2
  let name := String.ofList (text.takeWhile (· != '='))
  match text.dropWhile (· != '=') with
  | _ :: value => (name, some (String.ofList value))
  | [] => (name, none)

/-- What the next argument may be. -/
inductive Expectation where
  | anything
  /-- Only an argument of a command. -/
  | argument
  /-- The value of an option. -/
  | value (option : String)
  /-- The name of a command that help is wanted for, as seen from another one. -/
  | topic (level : Level)
deriving DecidableEq

/-- Takes an option or flags, and says what comes next. -/
def Draft.withDashes (draft : Draft) (argument : String)
    : Except UsageError (Draft × Expectation) :=
  if argument.startsWith "--" then
    let (option, attached) := splitOption argument
    if draft.takesValue option then
      match attached with
      | some value => (draft.withOption option value).map fun next => (next, .anything)
      | none => .ok (draft, .value option)
    else if option = "verbose" ∧ attached = none then
      draft.withVerbose.map fun next => (next, .anything)
    else .error (if option = "help" ∧ attached = none then .helpWanted else .unexpected argument)
  else (draft.withLetters (argument.toList.drop 1)).map fun next => (next, .anything)

/-- Takes an argument. Behind two dashes there are neither options nor commands. -/
def Draft.take (draft : Draft) (expected : Expectation) (argument : String)
    : Except UsageError (Draft × Expectation) :=
  match expected with
  | .argument => (draft.withArgument argument).map fun next => (next, .argument)
  | .value option =>
    if looksLikeOption argument then .error (.valueMissing option)
    else (draft.withOption option argument).map fun next => (next, .anything)
  | .topic level =>
    match level.command? argument with
    | some next => .ok (draft, .topic next)
    | none => .error (.unexpected argument)
  | .anything =>
    match draft.level.command? argument with
    | some .help => .ok (draft, .topic draft.level)
    | some level => .ok (draft.entering level, .anything)
    | none =>
      if argument = "--" then .ok (draft, .argument)
      else if looksLikeOption argument then draft.withDashes argument
      else (draft.withArgument argument).map fun next => (next, .anything)

/-- Reads arguments, one after the other. -/
def read (draft : Draft) (expected : Expectation) : List String → Except UsageError Draft
  | [] =>
    match expected with
    | .value option => .error (.valueMissing option)
    | .topic _ => .error .helpWanted
    | .anything | .argument => .ok draft
  | argument :: rest =>
    match draft.take expected argument with
    | .ok (next, expectation) => read next expectation rest
    | .error reason => .error reason

/-- The environment variable that names the editor. -/
def editorVariable : String := "CAMEL_ROUTE_EDITOR"

/-- The environment variable that names the version of the application. -/
def versionVariable : String := "CAMEL_JBANG_VERSION"

/-- What is asked for a new route. An option counts more than the environment. -/
def Draft.newRoute (draft : Draft) (environment : List (String × String)) (dialect : Dialect)
    : NewRoute :=
  let standard : NewRoute := { dialect }
  let option (name : String) : Option String := draft.given.lookup name
  let numeric (name : String) : Option Nat := (option name).bind number?
  { dialect
    name := option "name"
    fileTimeout := (numeric "file-timeout").getD standard.fileTimeout
    editorTimeout := (numeric "editor-timeout").getD standard.editorTimeout
    interval := (numeric "poll-interval").getD standard.interval
    editor := ((option "editor").or (environment.lookup editorVariable)).getD standard.editor
    version := (option "camel-version").or (environment.lookup versionVariable) }

/-- The command that has been read. -/
def Draft.command (draft : Draft) (environment : List (String × String))
    : Except UsageError Command :=
  match draft.level with
  | .top | .provider | .help => .error .commandMissing
  | .get => .ok (.provider draft.settings .get)
  | .clear => .ok (.provider draft.settings .clear)
  | .new =>
    match draft.argument.bind Dialect.ofText? with
    | some dialect => .ok (.new (draft.newRoute environment dialect))
    | none => .error (.argumentMissing "dialect")
  | .set =>
    match draft.argument.bind Provider.ofText? with
    | some provider => .ok (.provider draft.settings (.set provider))
    | none => .error (.argumentMissing "provider")

/-- What a list of arguments asks for in an environment. -/
def parse (environment : List (String × String)) (arguments : List String)
    : Except UsageError Invocation :=
  match read {} .anything arguments with
  | .error reason => .error reason
  | .ok draft =>
    match draft.command environment with
    | .ok command => .ok { root := draft.root, verbose := draft.verbose, command }
    | .error reason => .error reason

end RouteDesk.CommandLine
