import PathSelection.Rule.Glob
import PathSelection.Text.Blank
import PathSelection.Text.Quoted

namespace PathSelection

inductive Segment where
  /-- `**`: any number of directories. -/
  | anyDepth
  /-- `*`: any one name. -/
  | anyName
  | glob (tokens : List Token)
deriving DecidableEq, Repr

/-- A rule is a list of segments parted by slashes. One without an inner or leading slash floats,
which is the same as a leading `**`. -/
structure Rule where
  /-- A rule written with a leading `!` takes back what earlier rules ignored. -/
  reincludes : Bool
  dirOnly : Bool
  segments : List Segment
deriving DecidableEq, Repr

inductive RuleFault where
  /-- Nothing is left of the line once its marks are gone, or a segment ends in a lone backslash. -/
  | unusable (line : Text)
  /-- A range of a character class runs backwards. The position counts characters of the rule
  written out as a regular expression; line and column are told if it has several lines. -/
  | reversedRange (low high : Text) (position : Nat) (place : Option (Nat × Nat))
deriving DecidableEq, Repr

def RuleFault.placeText : Option (Nat × Nat) → Text
  | none => []
  | some (line, column) =>
    " (line " ++ Text.ofNat line ++ ", column " ++ Text.ofNat column ++ ")"

def RuleFault.message : RuleFault → Text
  | .unusable line => "Invalid git pattern: " ++ line.quoted
  | .reversedRange low high position place =>
    "bad character range " ++ low ++ "-" ++ high ++ " at position " ++ Text.ofNat position
      ++ placeText place

namespace Rule

/-- The line without trailing blanks, unless the last blank is escaped. -/
def trimLine (line : Text) : Text :=
  if ['\\', ' '].isSuffixOf line then line else line.stripRight

/-- The written segments of a rule body. A leading slash anchors the rule and is dropped; a single
segment, with or without a trailing slash, floats. -/
def anchor : List Text → List Text
  | [] :: rest => rest
  | [s] => if s = ['*', '*'] then [s] else [['*', '*'], s]
  | [s, []] => if s = ['*', '*'] then [s, []] else [['*', '*'], s, []]
  | segments => segments

/-- An empty last segment, the mark of a trailing slash, stands for everything below. -/
def openEnd (segments : List Text) : List Text :=
  if segments.getLast? = some [] then segments.dropLast ++ [['*', '*']] else segments

def mergeDepths : List Text → List Text
  | s :: t :: rest =>
    if s = ['*', '*'] ∧ t = ['*', '*'] then mergeDepths (t :: rest)
    else s :: mergeDepths (t :: rest)
  | segments => segments

def segment (t : Text) : Except GlobFault Segment :=
  if t = ['*', '*'] then .ok .anyDepth
  else if t = ['*'] then .ok .anyName
  else Segment.glob <$> Token.ofSegment t

/-- The rule on a line, before its ranges are checked. A blank line, a comment, a lone slash and a
line with a class that its segment does not close hold no rule. -/
def read (line : Text) : Except RuleFault (Option Rule) :=
  let body := trimLine line
  if body.isEmpty || body.head? == some '#' || body == ['/'] then .ok none
  else
    let reincludes := body.head? == some '!'
    let written := (if reincludes then body.tail else body).splitOn '/'
    match anchor written with
    | [] => .error (.unusable line)
    | segments =>
      match (mergeDepths (openEnd segments)).mapM segment with
      | .error .danglingEscape => .error (.unusable line)
      | .error .unclosedClass => .ok none
      | .ok segments => .ok (some ⟨reincludes, written.getLast? == some [], segments⟩)

end Rule
end PathSelection
