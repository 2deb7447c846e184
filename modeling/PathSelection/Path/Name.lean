import PathSelection.Text.Basic

namespace PathSelection

/-- The name of a directory entry: not empty, without a slash, and neither `.` nor `..`. -/
structure Name where
  text : Text
  proper : text ≠ [] ∧ '/' ∉ text ∧ text ≠ ['.'] ∧ text ≠ ['.', '.']
deriving DecidableEq

namespace Name

def ofText? (t : Text) : Option Name :=
  if h : t ≠ [] ∧ '/' ∉ t ∧ t ≠ ['.'] ∧ t ≠ ['.', '.'] then some ⟨t, h⟩ else none

@[simp] theorem ofText?_text (n : Name) : ofText? n.text = some n := by
  simp [ofText?, n.proper]

def join (names : List Name) : Text := ['/'].intercalate (names.map text)

end Name

inductive Step where
  /-- An empty part or `.`. -/
  | here
  | up
  | down (n : Name)
deriving DecidableEq

namespace Step

def ofText (t : Text) : Step :=
  if t = ['.', '.'] then .up
  else match Name.ofText? t with
    | some n => .down n
    | none => .here

@[simp] theorem ofText_text (n : Name) : ofText n.text = .down n := by
  simp [ofText, n.proper.2.2.2]

def ofPath (t : Text) : List Step := (t.splitOn '/').map ofText

/-- Where a step leads if no link is in the way: `..` drops the last name. -/
def lexical (names : List Name) : Step → List Name
  | .here => names
  | .up => names.dropLast
  | .down n => names ++ [n]

end Step

def Text.isAbsolute (t : Text) : Bool := t.head? == some '/'

/-- How many leading slashes count: exactly two stay two, more are one. -/
def Text.leadingSlashes : Text → Nat
  | '/' :: '/' :: '/' :: _ => 1
  | '/' :: '/' :: _ => 2
  | '/' :: _ => 1
  | _ => 0

end PathSelection
