/-!
# Blank characters

The Unicode property `White_Space`, and trimming by it.
-/

namespace RegisterMachine.Text

/-- Every range of code points with the property, in order. -/
def blankRanges : List (Nat × Nat) :=
  [(0x9, 0xD), (0x20, 0x20), (0x85, 0x85), (0xA0, 0xA0), (0x1680, 0x1680), (0x2000, 0x200A),
    (0x2028, 0x2029), (0x202F, 0x202F), (0x205F, 0x205F), (0x3000, 0x3000)]

def isBlank (c : Char) : Bool :=
  blankRanges.any fun (first, last) => first ≤ c.toNat && c.toNat ≤ last

/-- The text without the blanks at either end. -/
def trimChars (text : List Char) : List Char :=
  ((text.dropWhile isBlank).reverse.dropWhile isBlank).reverse

/-- Text whose every character is blank, the empty text among them. -/
def allBlank (text : String) : Bool := text.toList.all isBlank

example : 'a'.isWhitespace = false ∧ isBlank ' ' = true ∧ isBlank '\n' = true := by decide

end RegisterMachine.Text
