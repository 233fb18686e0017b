/-!
Blanks.

The space and the five control characters that move on without printing: tabulators, line breaks
and the page break.
-/
namespace Chip8.Text

def isBlank (c : Char) : Bool := c = ' ' || (9 ≤ c.toNat && c.toNat ≤ 13)

/-- A text without the blanks at its ends. -/
def stripped (cs : List Char) : List Char :=
  ((cs.dropWhile isBlank).reverse.dropWhile isBlank).reverse

end Chip8.Text
