import PathSelection.Rule.Basic

namespace PathSelection

def isSpecial (c : Char) : Bool := c ∈ "()[]\x7b\x7d?*+-|^$\\.&~# \t\n\r\x0b\x0c".toList

inductive Piece where
  | text (t : Text)
  | range (low high : Char)
deriving DecidableEq, Repr

def ClassItem.quote (c : Char) : Text := if c = '\\' then ['\\', '\\'] else [c]

def Piece.written : Piece → Text
  | .text t => t
  | .range low high => ClassItem.quote low ++ '-' :: ClassItem.quote high

def ClassItem.piece : ClassItem → Piece
  | .one c => .text (quote c)
  | .range low high => .range low high

def CharClass.pieces (k : CharClass) : List Piece :=
  .text (if k.negated then ['[', '^'] else ['[']) :: k.items.map ClassItem.piece
    ++ [.text [']']]

def Token.pieces : Token → List Piece
  | .literal c => [.text (if isSpecial c then ['\\', c] else [c])]
  | .anyOne => [.text "[^/]"]
  | .anyRun => [.text "[^/]*"]
  | .oneOf k => k.pieces

def Segment.pieces : Segment → List Piece
  | .anyDepth => [.text ".+"]
  | .anyName => [.text "[^/]+"]
  | .glob ts => ts.flatMap Token.pieces

/-- Segments that each follow a slash. That of `**` is optional, with its slash. -/
def Segment.following : List Segment → List Piece
  | [] => []
  | .anyDepth :: rest => .text "(?:/.+)?" :: following rest
  | segment :: rest => .text ['/'] :: segment.pieces ++ following rest

def Segment.anchored : List Segment → List Piece
  | [] => []
  | .anyDepth :: rest => following (.anyDepth :: rest)
  | segment :: rest => segment.pieces ++ following rest

def Rule.pieces (r : Rule) : List Piece :=
  match r.segments with
  | .anyDepth :: rest => .text "^(?:.+/)?" :: Segment.anchored rest
  | segments => .text ['^'] :: Segment.anchored segments

namespace Piece

def writtenAll (ps : List Piece) : Text := ps.flatMap written

def firstReversed (before : Text) : List Piece → Option (Char × Char × Text)
  | [] => none
  | .range low high :: rest =>
    if high < low then some (low, high, before)
    else firstReversed (before ++ (Piece.range low high).written) rest
  | .text t :: rest => firstReversed (before ++ t) rest

def lineAndColumn (before : Text) : Nat × Nat :=
  (before.count '\n' + 1, (before.reverse.takeWhile (· ≠ '\n')).length + 1)

end Piece

namespace Rule

def reversedRange? (r : Rule) : Option RuleFault :=
  (Piece.firstReversed [] r.pieces).map fun (low, high, before) =>
    .reversedRange (ClassItem.quote low) (ClassItem.quote high) before.length
      (if '\n' ∈ Piece.writtenAll r.pieces then some (Piece.lineAndColumn before) else none)

def ofLine (line : Text) : Except RuleFault (Option Rule) := do
  match ← read line with
  | none => return none
  | some r =>
    match r.reversedRange? with
    | none => return some r
    | some fault => throw fault

def ofLines (lines : List Text) : Except RuleFault (List Rule) := do
  return (← lines.mapM ofLine).filterMap id

end Rule
end PathSelection
