import PathSelection.Config.Reading
import PathSelection.Failure
import PathSelection.Toml.Document

namespace PathSelection.Config

open Toml

def ownNames : List Text := ["tidypaths.toml", ".tidypaths.toml"]

def projectName : Text := "pyproject.toml"

def toolKey : Text := "tool"

def ownKey : Text := "tidypaths"

def innerTable (t : Table) (key : Text) : Except Failure Table :=
  match t.get? key with
  | none => .ok []
  | some (.table inner) => .ok inner
  | some _ => .error .toolNotTable

/-- The table that a file holds. The problem of a file that holds none is its only one. -/
def document (v : View) (path : Text) : Except Failure Table :=
  match v.readText path with
  | .error .nullInPath => .error .nullInPath
  | .error (.text e) => .error (.config path [.unreadable e])
  | .ok content =>
    match Toml.read content with
    | .ok t => .ok t
    | .error .invalid => .error (.config path [.notToml])
    | .error .integerTooLong => .error .integerTooLong

def tableIn (v : View) (path : AbsPath) : Except Failure Table := do
  let t ← document v path.text
  if path.names.getLast?.map Name.text = some projectName then
    innerTable (← innerTable t toolKey) ownKey
  else return t

def accepted (path : AbsPath) (r : Reading Config) : Except Failure Config :=
  if r.problems = [] then .ok r.value else .error (.config path.text r.problems)

def load (v : View) (path : Text) : Except Failure Config := do
  let path := v.absolute path
  accepted path (read path (← tableIn v path))

def answered {α : Type} (r : Except DiskError α) : Except Failure α := r.mapError .inaccessible

def isCheckoutRoot (v : View) (directory : WrittenPath) : Except Failure Bool :=
  answered (checkoutMarks.anyM fun mark =>
    v.exists? (directory.join (WrittenPath.ofText mark)).text)

/-- Whether something can be said to be in a value, and is: a key of a table, an item of an array,
a part of a string. -/
def isIn (t : Text) : Value → Except Failure Bool
  | .table inner => .ok (Table.has inner t)
  | .array items => .ok (items.any fun v => v.string? = some t)
  | .string s => .ok (Text.hasInfix t s)
  | _ => .error .toolNotSearchable

/-- Whether a project file has a configuration. One that cannot be read, in one of the ways that
are foreseen, has none. -/
def projectCounts (v : View) (path : Text) : Except Failure Bool :=
  match document v path with
  | .error e => if e.isReported then .ok false else .error e
  | .ok t => isIn ownKey ((t.get? toolKey).getD (.table []))

def counts (v : View) (name path : Text) : Except Failure Bool := do
  if ← answered (v.isFile path) then
    if name = projectName then projectCounts v path else return true
  else return false

def fileAt (directory : AbsPath) (name : Text) : Text :=
  (directory.written.join (WrittenPath.ofText name)).text

def fileNames : List Text := ownNames ++ [projectName]

def fileIn (v : View) (directory : AbsPath) : Except Failure (Option Text) :=
  (fileNames.findM? fun name => counts v name (fileAt directory name)).map
    (·.map (fileAt directory))

def searchIn (v : View) : List AbsPath → Except Failure (Option Text)
  | [] => .ok none
  | d :: ds => do
    match ← fileIn v d with
    | some path => return some path
    | none => if ← isCheckoutRoot v d.written then return none else searchIn v ds

def find (v : View) (start : Text) : Except Failure (Option Text) :=
  if '\x00' ∈ start then .error .nullInPath
  else if v.isLoop (v.resolved start).text then .error .linkLoop
  else searchIn v (v.resolved start).upwards

end PathSelection.Config
