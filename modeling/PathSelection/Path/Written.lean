import PathSelection.Path.Name

namespace PathSelection

/-- A path as it is written: `.` and empty parts are dropped, but `..` stays and a relative path
stays relative. -/
structure WrittenPath where
  /-- Leading slashes, at most two. -/
  slashes : Nat
  parts : List Text
deriving DecidableEq, Repr

namespace WrittenPath

def ofText (t : Text) : WrittenPath :=
  ⟨t.leadingSlashes, (t.splitOn '/').filter fun part => part != [] && part != ['.']⟩

def text (p : WrittenPath) : Text :=
  if p.slashes = 0 ∧ p.parts = [] then ['.']
  else List.replicate p.slashes '/' ++ ['/'].intercalate p.parts

def join (directory p : WrittenPath) : WrittenPath :=
  if p.slashes = 0 then ⟨directory.slashes, directory.parts ++ p.parts⟩ else p

def parent (p : WrittenPath) : WrittenPath := ⟨p.slashes, p.parts.dropLast⟩

end WrittenPath

def Text.below (directory name : Text) : Text :=
  if name.isAbsolute then name
  else if directory.isEmpty || directory.getLast? == some '/' then directory ++ name
  else directory ++ '/' :: name

end PathSelection
