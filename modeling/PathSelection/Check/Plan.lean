import PathSelection.Check.Basic
import PathSelection.Path.Written
import PathSelection.PathFilter
import PathSelection.Text.Order

namespace PathSelection

/-- The paths of each check that is run, by the names of the checks, in order. -/
abbrev Plan := List (Text × List Text)

/-- Gives a check its paths. A name that is planned already keeps its position. -/
def Plan.put (p : Plan) (name : Text) (paths : List Text) : Plan :=
  if p.any (·.1 = name) then p.map fun e => if e.1 = name then (name, paths) else e
  else p ++ [(name, paths)]

namespace Check

def filter (c : Check) (v : View) (root : Option Text) : Except Failure PathFilter :=
  PathFilter.load v c.included c.excluded c.ignoreFiles root

def directories (paths : List Text) : List Text :=
  Text.sorted (paths.map fun p => (WrittenPath.ofText p).parent.text)

def paths (c : Check) (v : View) (root : Option Text) (base : List Text) :
    Except Failure (List Text) := do
  let kept ← (← c.filter v root).select v base
  return if c.onDirectories then directories kept else kept

end Check

namespace Plan

def make (v : View) (checks : List Check) (base : List Text) (action : Purpose)
    (root : Option Text) : Except Failure Plan :=
  (checks.filter (·.runsFor action)).foldlM
    (fun p c => return p.put c.name (← c.paths v root base)) []

end Plan
end PathSelection
