import PathSelection.Disk.Basic
import PathSelection.Git.Hunk

namespace PathSelection.Git

/-- A tracked file that differs from its content in the index. -/
structure Change where
  names : List Name
  before : Entry
  /-- What it is now; nothing, if it is gone. -/
  after : Option Entry
deriving DecidableEq

abbrev Patch := List Change

/-- Whether some content is taken for text: it has no null byte near its beginning. -/
def isTextual (content : ByteArray) : Bool := (content.data.toList.take 8000).all (· ≠ 0)

/-- The content of a file after a change from `old` to `new`, if there is a place for it. -/
def merged? (old new current : ByteArray) : Option ByteArray :=
  if isTextual old && isTextual new then
    let hunks := Hunk.ofChange (linesOf old.data.toList) (linesOf new.data.toList)
    (Hunk.applyAll hunks (linesOf current.data.toList)).map fun ls => ⟨ls.flatten.toArray⟩
  else none

def Change.applyTo (c : Change) (current : Option Entry) : Option (Option Entry) :=
  if current = some c.before then some c.after
  else match c.before, c.after, current with
    | .file old, some (.file new), some (.file content) =>
      (merged? old new content).map fun merged => some (.file merged)
    | _, _, _ => none

end PathSelection.Git
