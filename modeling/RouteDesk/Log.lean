/-! Lines that an operation leaves in the log. -/

namespace RouteDesk

/-- How serious a log line is. -/
inductive LogLevel where
  | debug
  | info
  | warn
  | error
deriving DecidableEq

/-- The word that stands for a level in the log. -/
def LogLevel.word : LogLevel → String
  | .debug => "DEBUG"
  | .info => "INFO"
  | .warn => "WARN"
  | .error => "ERROR"

/-- A line of the log. -/
structure LogLine where
  level : LogLevel
  text : String
deriving DecidableEq

/-- Log lines, from the first to the last. -/
abbrev Log := List LogLine

/-- The line as it is shown. -/
def LogLine.shown (line : LogLine) : String :=
  line.level.word ++ " " ++ line.text

end RouteDesk
