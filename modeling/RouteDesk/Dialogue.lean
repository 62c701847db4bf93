import RouteDesk.Route.Name
import RouteDesk.Log

/-! Asking the user for a name, line by line. Every question takes whole lines from where the
one before it stopped, and an output that takes no text changes neither answers nor input.
-/

namespace RouteDesk

/-- A prompt: the lines that are still to be read, each with its end, and what was shown. -/
structure Dialogue where
  lines : List Bytes
  /-- Whether the output refuses everything. -/
  refusing : Bool := false
  shown : String := ""

/-- What came of a question. -/
structure Asked where
  answer : Option String
  prompt : Dialogue
  log : Log

namespace Dialogue

/-- The lines of an input, each with its line feed. -/
def split : Bytes → List Bytes
  | [] => []
  | byte :: rest =>
    if byte = 0x0A then [byte] :: split rest
    else
      match split rest with
      | [] => [[byte]]
      | line :: later => (byte :: line) :: later

/-- A prompt that reads the given input. -/
def ofInput (input : Bytes) (refusing : Bool) : Dialogue :=
  { lines := split input, refusing }

/-- Shows a text. -/
def say (prompt : Dialogue) (text : String) : Dialogue × Log :=
  if prompt.refusing then (prompt, [⟨.warn, "failed to write prompt: sink closed"⟩])
  else ({ prompt with shown := prompt.shown ++ text }, [])

/-- A line without the line feeds and carriage returns at its end. -/
def withoutEnd (line : String) : String :=
  String.ofList
    (line.toList.reverse.dropWhile fun char => char == '\n' || char == '\x0d').reverse

/-- Asks until a line is accepted. An empty line, a line that is not text, and the end of the
input stand for no answer.
-/
def ask (message : String) (check : String → Except NameError Unit) (prompt : Dialogue)
    : Asked :=
  go prompt.lines prompt
where
  /-- Asks with the given lines still to be read. -/
  go : List Bytes → Dialogue → Asked
    | [], prompt =>
      let (prompt, log) := prompt.say (message ++ " ")
      ⟨none, { prompt with lines := [] }, log⟩
    | line :: rest, prompt =>
      let (prompt, log) := prompt.say (message ++ " ")
      match Bytes.toText? line with
      | none =>
        ⟨none, { prompt with lines := rest },
          log ++ [⟨.warn, s!"failed to read answer: {FileError.malformedText.message}"⟩]⟩
      | some text =>
        let answer := withoutEnd text
        if answer = "" then ⟨none, { prompt with lines := rest }, log⟩
        else
          match check answer with
          | .ok () => ⟨some answer, { prompt with lines := rest }, log⟩
          | .error reason =>
            let (prompt, more) := prompt.say s!"✗ {reason.message}\n"
            let asked := go rest prompt
            { asked with log := log ++ more ++ asked.log }

/-- Shows a message that needs no answer. -/
def tell (message : String) (prompt : Dialogue) : Dialogue × Log :=
  prompt.say s!"⚠️ {message}\n"

end Dialogue

end RouteDesk
