import PathSelection.Failure

namespace PathSelection

/-- An ignore file governs the directory that holds it, and its rules are matched against paths
relative to that directory. -/
structure IgnoreFile where
  path : AbsPath
  rules : List Rule
deriving DecidableEq

namespace IgnoreFile

def isRuleLine (line : Text) : Bool := !line.isBlank && line.stripLeft.head? != some '#'

def ruleLines (content : Text) : List Text := content.lines.filter isRuleLine

def readLines (v : View) (path : Text) : Except Failure (List Text) :=
  match v.readText path with
  | .ok content => .ok (ruleLines content)
  | .error .nullInPath => .error .nullInPath
  | .error (.text e) => .error (.ignoreFile path (.unreadable e))

def load (v : View) (path : Text) : Except Failure IgnoreFile := do
  let absolute := v.absolute path
  let lines ← readLines v absolute.text
  match Rule.ofLines lines with
  | .ok rules => .ok ⟨absolute, rules⟩
  | .error fault => .error (.ignoreFile absolute.text (.rule fault))

/-- The path of an entry as the rules see it: a directory ends in a slash. -/
def candidate (names : List Name) (isDir : Bool) : Text :=
  if isDir then Name.join names ++ ['/'] else Name.join names

end IgnoreFile
end PathSelection
