/-!
# Blanks

The characters that Unicode lists as white space, and texts without those around
them.
-/

namespace RoundChain

namespace Text

/-- Whether a character is a blank. -/
def isBlank (c : Char) : Bool :=
  let n := c.toNat
  (9 ≤ n && n ≤ 13) || (0x2000 ≤ n && n ≤ 0x200A) ||
    [0x20, 0x85, 0xA0, 0x1680, 0x2028, 0x2029, 0x202F, 0x205F, 0x3000].contains n

/-- A text without the blanks around it. -/
def trim (text : List Char) : List Char :=
  let drop := List.dropWhile isBlank
  (drop (drop text).reverse).reverse

end Text

end RoundChain
