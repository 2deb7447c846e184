import PathSelection.Stash

namespace PathSelection

inductive Mode where
  | explicit
  | all
  /-- Files that differ from the last commit, and untracked files. -/
  | modified
  /-- Files that are staged, with the content that is staged. -/
  | staged
deriving DecidableEq, Repr

namespace Mode

def checkPaths (m : Mode) (paths : List Text) : Except Failure Unit :=
  if m ≠ .explicit ∧ paths ≠ [] then .error .conflictingSources else .ok ()

variable {σ π : Type}

def startingPaths (m : Mode) (paths : List Text) (cwd : Text) (source : ChangeSource σ π) :
    Run σ π (List Text) := do
  Run.lift (m.checkPaths paths)
  match m with
  | .explicit =>
    Run.note (.usingPaths paths)
    return paths
  | .all =>
    Run.note (.usingDirectory cwd)
    return [cwd]
  | .modified =>
    Run.note .usingModified
    source.modified
  | .staged =>
    Run.note .usingStaged
    source.staged

end Mode
end PathSelection
