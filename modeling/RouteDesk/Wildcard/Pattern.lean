/-! Patterns for single names: what they may be written as, and which names they fit. Escaped
text is a pattern for exactly itself.
-/

namespace RouteDesk.Wildcard

/-- What a pattern says about some characters of a name. -/
inductive Token where
  | char (char : Char)
  | anyChar
  | anyText
  /-- A character in one of the ranges, or in none of them. -/
  | oneOf (excluded : Bool) (ranges : List (Char × Char))
deriving DecidableEq

/-- A pattern for one name on a path, or for directories at any depth. -/
inductive Pattern where
  | anyDepth
  | name (tokens : List Token)
deriving DecidableEq

/-- Why a text is no pattern. -/
inductive PatternFault where
  | tooManyStars
  | misplacedStars
  | openRange
deriving DecidableEq

/-- What is said of a text that is no pattern. -/
def PatternFault.message : PatternFault → String
  | .tooManyStars => "wildcards are either regular `*` or recursive `**`"
  | .misplacedStars => "recursive wildcards must form a single path component"
  | .openRange => "invalid range pattern"

/-- How far the reading of a pattern has come into a range. -/
inductive Progress where
  | outside
  | opened
  | negated
  | inside (excluded : Bool) (members : List Char)

/-- The ranges that the characters between brackets stand for. -/
def ranges : List Char → List (Char × Char)
  | first :: '-' :: last :: rest => (first, last) :: ranges rest
  | char :: rest => (char, char) :: ranges rest
  | [] => []

/-- Reads the tokens of a pattern for one name. The first character of a range belongs to it
even if it is a bracket.
-/
def readTokens : Progress → List Char → Except PatternFault (List Token)
  | .outside, [] => .ok []
  | _, [] => .error .openRange
  | .outside, char :: rest =>
    if char = '?' then (readTokens .outside rest).map (.anyChar :: ·)
    else if char = '*' then
      if rest.head? = some '*' then
        .error (if rest.tail.head? = some '*' then .tooManyStars else .misplacedStars)
      else (readTokens .outside rest).map (.anyText :: ·)
    else if char = '[' then readTokens .opened rest
    else (readTokens .outside rest).map (.char char :: ·)
  | .opened, char :: rest =>
    if char = '!' then readTokens .negated rest else readTokens (.inside false [char]) rest
  | .negated, char :: rest => readTokens (.inside true [char]) rest
  | .inside excluded members, char :: rest =>
    if char = ']' then
      (readTokens .outside rest).map (.oneOf excluded (ranges members.reverse) :: ·)
    else readTokens (.inside excluded (char :: members)) rest

namespace Pattern

/-- Reads a pattern for one name, or for any depth. -/
def ofText (text : List Char) : Except PatternFault Pattern :=
  if text = ['*', '*'] then .ok .anyDepth else (readTokens .outside text).map .name

/-- A character as a pattern for itself. -/
def escapeChar (char : Char) : List Char :=
  if char = '?' ∨ char = '*' ∨ char = '[' ∨ char = ']' then ['[', char, ']'] else [char]

/-- A text as a pattern for itself. -/
def escape (text : List Char) : List Char :=
  text.flatMap escapeChar

end Pattern

namespace Token

/-- Whether a token for one character admits a character. -/
def admits : Token → Char → Bool
  | .char wanted, given => wanted == given
  | .anyChar, _ => true
  | .anyText, _ => false
  | .oneOf excluded ranges, given =>
    excluded != ranges.any fun range => range.1 ≤ given && given ≤ range.2

end Token

/-- A list and what is left of it after each of its items. -/
def suffixes {α : Type} : List α → List (List α)
  | [] => [[]]
  | item :: rest => (item :: rest) :: suffixes rest

/-- Whether a name fits the tokens, from its first character to its last. -/
def fits : List Token → List Char → Bool
  | [], name => name.isEmpty
  | .anyText :: rest, name => (suffixes name).any fun tail => fits rest tail
  | _ :: _, [] => false
  | token :: rest, char :: name => token.admits char && fits rest name

/-- The only name that the tokens fit, if they say so character by character. -/
def literal? : List Token → Option (List Char)
  | [] => some []
  | .char char :: rest => (literal? rest).map (char :: ·)
  | _ :: _ => none

end RouteDesk.Wildcard
