import PathSelection.Text.Basic

namespace PathSelection.Text

/-- A carriage return, alone or with its line feed, becomes one line feed. -/
def unifyNewlines : Text → Text
  | '\r' :: '\n' :: cs => '\n' :: unifyNewlines cs
  | '\r' :: cs => '\n' :: unifyNewlines cs
  | c :: cs => c :: unifyNewlines cs
  | [] => []

def isLineBreak (c : Char) : Bool :=
  let n := c.toNat
  (10 ≤ n && n ≤ 13) || (28 ≤ n && n ≤ 30) || n == 0x85 || n == 0x2028 || n == 0x2029

/-- The lines of a text, without the boundaries. A boundary at the very end opens no further line,
and a carriage return with its line feed is one boundary. -/
def lines : Text → List Text
  | [] => []
  | '\r' :: '\n' :: cs => [] :: lines cs
  | c :: cs =>
    if isLineBreak c then [] :: lines cs
    else match lines cs with
      | [] => [[c]]
      | l :: ls => (c :: l) :: ls

end PathSelection.Text
