import PathSelection.Selection.Mode
import PathSelection.Text.Order

namespace PathSelection

/-- The files that all checks choose from. While a selection of staged files is in use, the unstaged
changes are stashed. -/
structure Selection (σ π : Type) where
  mode : Mode
  paths : List Text
  /-- The working directory when the selection was set up. -/
  cwd : Text
  filter : PathFilter
  source : ChangeSource σ π
  followLinks : Bool

namespace Selection

variable {σ π α : Type}

def setUp (v : View) (mode : Mode) (paths excluded ignoreFiles : List Text) (root : Option Text)
    (source : ChangeSource σ π) (followLinks : Bool) : Except Failure (Selection σ π) := do
  mode.checkPaths paths
  let filter ← PathFilter.load v [] excluded ignoreFiles root
  return ⟨mode, paths, v.cwd.text, filter, source, followLinks⟩

def found (s : Selection σ π) : Run σ π (List Text) := do
  let starts ← s.mode.startingPaths s.paths s.cwd s.source
  let v ← Run.view
  let walk := Walk.startAll v s.filter s.followLinks starts
  Run.noteAll (walk.events.map .walked)
  Run.lift walk.ended
  Run.lift (s.filter.keep v (walk.files.map AbsPath.text))

/-- The first step of a selection: if it is one of staged files, a new stash takes the place of the
one before. -/
def start (s : Selection σ π) : Run σ π Unit :=
  if s.mode = .staged then do
    Stash.setActive none
    let _ ← s.source.stash
  else pure ()

/-- The paths that are selected of those that were found. The ignore files themselves are not. -/
def chosen (s : Selection σ π) (found : List Text) : List Text :=
  let own := s.filter.ignoreFiles.files.map AbsPath.text
  Text.sorted (found.filter (!own.contains ·))

def continued (s : Selection σ π) : Run σ π (List Text) := do
  let found ←
    try s.found
    catch e =>
      s.source.unstash
      throw e
  let paths := s.chosen found
  Run.note (.selected paths.length)
  return paths

def make (s : Selection σ π) : Run σ π (List Text) := do
  s.start
  s.continued

def get (s : Selection σ π) : Run σ π (List Text) := do
  match (← MonadState.get).memory.paths with
  | some paths => return paths
  | none =>
    let paths ← s.make
    modify fun w => { w with memory := { w.memory with paths := some paths } }
    return paths

def release (s : Selection σ π) : Run σ π Unit := s.source.unstash

/-- Uses a selection, which is released in the end, whatever comes. -/
def use (s : Selection σ π) (body : Run σ π α) : Run σ π α := do
  let a ←
    try body
    catch e =>
      s.release
      throw e
  s.release
  return a

end Selection
end PathSelection
