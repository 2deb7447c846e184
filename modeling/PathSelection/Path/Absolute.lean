import PathSelection.Path.Written

namespace PathSelection

/-- An absolute path in normal form, so that no two spell the same place differently. One that
starts with exactly two slashes keeps both, and is then no path below the root. -/
structure AbsPath where
  /-- Whether the path starts with two slashes. -/
  doubled : Bool
  names : List Name
deriving DecidableEq

namespace AbsPath

def root : AbsPath := ⟨false, []⟩

def text (p : AbsPath) : Text := (if p.doubled then ['/', '/'] else ['/']) ++ Name.join p.names

/-- Makes a path absolute, by its text alone: `..` removes the name before it. -/
def ofText (cwd : AbsPath) (t : Text) : AbsPath :=
  if t.isAbsolute then ⟨t.leadingSlashes == 2, (Step.ofPath t).foldl Step.lexical []⟩
  else ⟨cwd.doubled, (Step.ofPath t).foldl Step.lexical cwd.names⟩

def child (p : AbsPath) (n : Name) : AbsPath := ⟨p.doubled, p.names ++ [n]⟩

def parent (p : AbsPath) : AbsPath := ⟨p.doubled, p.names.dropLast⟩

def written (p : AbsPath) : WrittenPath := ⟨if p.doubled then 2 else 1, p.names.map Name.text⟩

def upwards (p : AbsPath) : List AbsPath :=
  (List.range (p.names.length + 1)).map fun n => ⟨p.doubled, p.names.take (p.names.length - n)⟩

/-- The names that lead from a directory to a path at or below it. -/
def relativeTo? (p directory : AbsPath) : Option (List Name) :=
  if p.doubled = directory.doubled ∧ directory.names <+: p.names then
    some (p.names.drop directory.names.length)
  else none

end AbsPath
end PathSelection
