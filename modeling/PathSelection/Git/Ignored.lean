import PathSelection.Disk.View
import PathSelection.Git.Basic
import PathSelection.Rule.Expression
import PathSelection.Rule.Search

namespace PathSelection

def Rule.names (r : Rule) (path : Text) (isDir : Bool) : Bool :=
  if r.dirOnly then
    let itself : Rule := { r with dirOnly := false, segments := r.segments.dropLast }
    isDir && itself.search path == some .direct
  else r.search path == some .direct

namespace Git

def ignoreFile : List Name := [⟨".gitignore".toList, by decide⟩]

/-- Where the top level may hold rules that come after all others. -/
def excludeFile : List Name :=
  [ownName, ⟨"info".toList, by decide⟩, ⟨"exclude".toList, by decide⟩]

def rulesIn (d : Disk) (file : RealPath) : List Rule :=
  match d.get? file with
  | some (.file content) =>
    match String.fromUTF8? content with
    | some s => ((s.toList.splitOn '\n').filterMap fun l => (Rule.ofLine l).toOption).filterMap id
    | none => []
  | _ => []

def verdict? (rules : List Rule) (path : Text) (isDir : Bool) : Option Bool :=
  (rules.reverse.find? (·.names path isDir)).map (!·.reincludes)

def isNamed (d : Disk) (top : RealPath) (names : List Name) (isDir : Bool) : Bool :=
  let said (depth : Nat) (file : List Name) : Option Bool :=
    verdict? (rulesIn d (top ++ names.take depth ++ file)) (Name.join (names.drop depth)) isDir
  let depths := (List.range names.length).reverse
  (depths.findSome? (said · ignoreFile) <|> said 0 excludeFile).getD false

def isIgnored (d : Disk) (top : RealPath) (names : List Name) : Bool :=
  ((List.range names.length).any fun n => n ≠ 0 && isNamed d top (names.take n) true)
    || isNamed d top names false

end Git
end PathSelection
