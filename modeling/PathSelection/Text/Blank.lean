import PathSelection.Text.Basic

namespace PathSelection

/-- Whether a character is white space. Zero-width characters are not. -/
def isBlank (c : Char) : Bool :=
  let n := c.toNat
  (9 ≤ n && n ≤ 13) || (28 ≤ n && n ≤ 32) || n == 0x85 || n == 0xA0 || n == 0x1680
    || (0x2000 ≤ n && n ≤ 0x200A) || n == 0x2028 || n == 0x2029 || n == 0x202F || n == 0x205F
    || n == 0x3000

namespace Text

def stripLeft (t : Text) : Text := t.dropWhile isBlank

def stripRight (t : Text) : Text := (t.reverse.dropWhile isBlank).reverse

def strip (t : Text) : Text := stripRight (stripLeft t)

def isBlank (t : Text) : Bool := t.all PathSelection.isBlank

end Text

/-- White space among bytes: tab, line feed, vertical tab, form feed, carriage return, space. -/
def isBlankByte (b : UInt8) : Bool := (9 ≤ b && b ≤ 13) || b == 32

end PathSelection
