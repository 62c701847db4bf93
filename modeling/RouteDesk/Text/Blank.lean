/-! White space by the `White_Space` property of Unicode, and trimming by it. -/

namespace RouteDesk.Text

/-- The ranges of characters with the property `White_Space`. -/
def blankRanges : List (Nat × Nat) :=
  [(0x9, 0xD), (0x20, 0x20), (0x85, 0x85), (0xA0, 0xA0), (0x1680, 0x1680), (0x2000, 0x200A),
   (0x2028, 0x2029), (0x202F, 0x202F), (0x205F, 0x205F), (0x3000, 0x3000)]

/-- Whether the character has the property `White_Space`. -/
def isBlank (char : Char) : Bool :=
  blankRanges.any fun (low, high) => low ≤ char.toNat && char.toNat ≤ high

/-- Whether every character of the text is blank. -/
def isAllBlank (text : String) : Bool :=
  text.toList.all isBlank

/-- The text without its leading and trailing blanks. -/
def trim (text : String) : String :=
  String.ofList ((text.toList.dropWhile isBlank).reverse.dropWhile isBlank).reverse

end RouteDesk.Text
