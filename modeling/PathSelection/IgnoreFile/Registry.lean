import PathSelection.IgnoreFile

namespace PathSelection.IgnoreFile

/-- The rules of one directory after another. The files of a directory keep their rules apart. -/
abbrev Governed := List (AbsPath × List (List Rule))

def Governed.add (directory : AbsPath) (rules : List Rule) : Governed → Governed
  | [] => [(directory, [rules])]
  | g :: gs =>
    if g.1 = directory then (g.1, g.2 ++ [rules]) :: gs else g :: Governed.add directory rules gs

/-- Files are asked independently of each other: one that ignores a path is enough, and no other can
take it back. -/
structure Registry where
  governed : Governed
  files : List AbsPath
deriving DecidableEq

namespace Registry

def empty : Registry := ⟨[], []⟩

def add (r : Registry) (f : IgnoreFile) : Registry :=
  ⟨r.governed.add f.path.parent f.rules, r.files ++ [f.path]⟩

def load (v : View) (paths : List Text) : Except Failure Registry :=
  paths.foldlM (fun r path => return r.add (← IgnoreFile.load v path)) empty

def size (r : Registry) : Nat := r.governed.foldr (fun g n => g.2.length + n) 0

def excludes (r : Registry) (p : AbsPath) (isDir : Bool) : Bool :=
  r.governed.any fun (directory, ruleLists) =>
    match p.relativeTo? directory with
    | some (n :: ns) => ruleLists.any fun rules => Rule.ignores rules (candidate (n :: ns) isDir)
    | _ => false

end Registry
end PathSelection.IgnoreFile
