import PathSelection.IgnoreFile.Registry

namespace PathSelection

/-- Patterns are matched relative to the root; a path outside it is matched as it stands, without
its leading slash. Exclusion wins over inclusion. -/
structure PathFilter where
  included : List Text
  excluded : List Text
  ignoreFiles : IgnoreFile.Registry
  root : AbsPath
deriving DecidableEq

namespace PathFilter

def load (v : View) (included excluded ignoreFiles : List Text) (root : Option Text) :
    Except Failure PathFilter := do
  let registry ← IgnoreFile.Registry.load v ignoreFiles
  return ⟨included, excluded, registry, v.absolute (root.getD v.cwd.text)⟩

/-- The path that patterns see. The root itself is `.`. -/
def relative (f : PathFilter) (p : AbsPath) : Text :=
  match p.relativeTo? f.root with
  | some [] => ['.']
  | some names => Name.join names
  | none => Name.join p.names

/-- Whether one of the patterns matches. Patterns after the first that matches are not looked at,
so they may be invalid. -/
def matchesAny (patterns : List Text) (path : Text) (isDir : Bool) : Except Failure Bool :=
  patterns.anyM fun pattern => (Pattern.isMatch pattern path isDir).mapError (.pattern pattern)

/-- Whether an ignore file or an exclude pattern excludes a path. Patterns never exclude the
root. -/
def excludes (f : PathFilter) (p : AbsPath) (isDir : Bool) : Except Failure Bool :=
  if f.ignoreFiles.excludes p isDir then .ok true
  else if f.relative p = ['.'] then .ok false
  else matchesAny f.excluded (f.relative p) isDir

def includes (f : PathFilter) (p : AbsPath) (isDir : Bool) : Except Failure Bool :=
  if f.included.isEmpty then .ok true else matchesAny f.included (f.relative p) isDir

def keep (f : PathFilter) (v : View) (paths : List Text) : Except Failure (List Text) :=
  paths.filterM fun t => return !(← f.excludes (v.absolute t) (v.isDir t))

def select (f : PathFilter) (v : View) (paths : List Text) : Except Failure (List Text) := do
  (← f.keep v paths).filterM fun t => f.includes (v.absolute t) (v.isDir t)

end PathFilter
end PathSelection
