import PathSelection.Disk.Edit
import PathSelection.Git.Basic
import PathSelection.Git.Patch
import PathSelection.Text.Quoted

namespace PathSelection

namespace Git

/-- Files and links with their content, by the names that lead to them. -/
abbrev Tree := List (List Name × Entry)

def Tree.sorted (names : List (List Name)) : List (List Name) :=
  names.mergeSort fun m n => Text.le (Name.join m) (Name.join n)

end Git

def Entry.isLeaf (e : Entry) : Bool := !e.isDir

/-- The working tree of a repository is the disk below its top level. -/
structure Repository where
  top : RealPath
  head : Option Git.Tree
  index : Git.Tree

namespace Repository

open Git

def file? (r : Repository) (d : Disk) (names : List Name) : Option Entry :=
  (d.get? (r.top ++ names)).filter Entry.isLeaf

def committed? (r : Repository) (names : List Name) : Option Entry :=
  r.head.bind (·.lookup names)

def differs (r : Repository) (d : Disk) (names : List Name) (staged : Entry) : Comparison → Bool
  | .headToFiles =>
    match r.file? d names with
    | some e => r.committed? names != some e
    | none => false
  | .headToIndex => r.committed? names != some staged
  | .indexToFiles =>
    match r.file? d names with
    | some e => e != staged
    | none => false

def changed (r : Repository) (d : Disk) (c : Comparison) : List (List Name) :=
  Tree.sorted ((r.index.filter fun e => r.differs d e.1 e.2 c).map Prod.fst)

def files (r : Repository) (d : Disk) : List (List Name) :=
  let below := (d.entries.map Prod.fst).filter fun p =>
    r.top.isPrefixOf p && (d.get? p).any Entry.isLeaf
  (below.eraseDups.map (·.drop r.top.length)).filter fun names => !names.contains ownName

def untracked (r : Repository) (d : Disk) (ignored : List Name → Bool) : List (List Name) :=
  Tree.sorted ((r.files d).filter fun names => (r.index.lookup names).isNone && !ignored names)

def patch (r : Repository) (d : Disk) : Patch :=
  r.index.filterMap fun (names, staged) =>
    if r.file? d names = some staged then none else some ⟨names, staged, r.file? d names⟩

def remove (d : Disk) (top : RealPath) (names : List Name) : Disk :=
  (List.range names.length).foldl
    (fun d n =>
      let p := top ++ names.take (names.length - n)
      if n = 0 || (d.names p).isEmpty then d.erase p else d)
    d

/-- Removes what is no directory, but stands where a file needs one. -/
def clear (d : Disk) (top : RealPath) (names : List Name) : Disk :=
  (List.range names.length).foldl
    (fun d n =>
      if n ≠ 0 && (d.get? (top ++ names.take n)).any Entry.isLeaf then
        d.erase (top ++ names.take n)
      else d)
    d

def write (d : Disk) (top : RealPath) (names : List Name) : Option Entry → Disk
  | some e => ((clear d top names).erase (top ++ names)).create (top ++ names) e
  | none => remove d top names

def restore (r : Repository) (d : Disk) (below : List Name) : Disk :=
  ((r.patch d).filter fun c => below.isPrefixOf c.names).foldl
    (fun d c => write d r.top c.names (some c.before)) d

def checkout (r : Repository) (d : Disk) : Disk := r.restore d []

def patched? (r : Repository) (d : Disk) (p : Patch) : Option Disk := do
  let contents ← p.mapM fun c => (c.applyTo (r.file? d c.names)).map fun e => (c.names, e)
  return contents.foldl (fun d c => write d r.top c.1 c.2) d

def listing (names : List (List Name)) : ByteArray :=
  (String.ofList (names.flatMap fun n => Name.join n ++ ['\x00'])).toUTF8

def nearest? (rs : List Repository) (p : RealPath) : Option Repository :=
  let depths := (List.range (p.length + 1)).reverse
  depths.findSome? fun n => rs.find? fun r => r.top == p.take n

def outside : Text := "fatal: not a git repository (or any of the parent directories): .git"

def respond {α : Type} (rs : List Repository) (d : Disk) (directory : Text)
    (answer : Repository → Reply α × Disk) (none : α) : Reply α × List Repository × Disk :=
  let v : View := ⟨d, .root⟩
  if !v.isDir directory then
    (.notStarted ("[Errno 2] No such file or directory: " ++ directory.quoted), rs, d)
  else match nearest? rs (v.resolved directory).names with
    | .none => (.exited 128 none outside, rs, d)
    | some r =>
      let (reply, d) := answer r
      (reply, rs, d)

def trackedWords : List Text := ["ls-files", "-z"]

def unknownCommand (words : List Text) : Text :=
  "git: '" ++ words.head?.getD [] ++ "' is not a git command. See 'git --help'."

def run (ignored : Disk → Repository → List Name → Bool) (c : Command) (d : Disk)
    (r : Repository) : Reply ByteArray × Disk :=
  match c with
  | .topLevel => (.exited 0 (String.ofList ((AbsPath.mk false r.top).text ++ ['\n'])).toUTF8 [], d)
  | .head =>
    if r.head.isSome then (.exited 0 "commit\n".toUTF8 [], d) else (.exited 1 ByteArray.empty [], d)
  | .changed comparison => (.exited 0 (listing (r.changed d comparison)) [], d)
  | .untracked => (.exited 0 (listing (r.untracked d (ignored d r))) [], d)
  | .checkout => (.exited 0 ByteArray.empty [], r.checkout d)
  | .refresh | .diff | .apply _ => (.exited 0 ByteArray.empty [], d)
  | .other words =>
    if words = trackedWords then
      (.exited 0 (listing (Tree.sorted (r.index.map Prod.fst))) [], d)
    else (.exited 1 ByteArray.empty (unknownCommand words), d)

def git (ignored : Disk → Repository → List Name → Bool) : Git (List Repository) Patch where
  run c directory rs d := respond rs d directory (run ignored c d) ByteArray.empty
  diff directory rs d := respond rs d directory (fun r => (.exited 0 (r.patch d) [], d)) []
  apply _ p directory rs d :=
    respond rs d directory (fun r =>
      match r.patched? d p with
      | some d => (.exited 0 () [], d)
      | none => (.exited 1 () "error: patch does not apply", d)) ()
  isBlank p := p.isEmpty

-- Commands that change a repository.

def stage (r : Repository) (names : List Name) (e : Option Entry) : Repository :=
  let others := r.index.filter (·.1 != names)
  { r with index := match e with
    | some e => others ++ [(names, e)]
    | none => others }

def update (r : Repository) (d : Disk) (below : List Name) : Repository :=
  let tracked := (r.index.map Prod.fst).filter fun names => below.isPrefixOf names
  tracked.foldl (fun r names => r.stage names (r.file? d names)) r

def add (r : Repository) (d : Disk) (ignored : List Name → Bool) (below : List Name) :
    Repository :=
  let new := (r.untracked d ignored).filter fun names => below.isPrefixOf names
  new.foldl (fun r names => r.stage names (r.file? d names)) (r.update d below)

def unstage (r : Repository) (below : List Name) : Repository :=
  let committed := (r.head.getD []).filter fun e => below.isPrefixOf e.1
  { r with index := r.index.filter (fun e => !below.isPrefixOf e.1) ++ committed }

def move (r : Repository) (d : Disk) (old new : List Name) : Repository × Disk :=
  let renamed (start : RealPath) (p : RealPath) : RealPath :=
    if (start ++ old).isPrefixOf p then start ++ new ++ p.drop (start ++ old).length else p
  ({ r with index := r.index.map fun e => (renamed [] e.1, e.2) },
    ⟨(d.erase (r.top ++ new)).entries.map fun e => (renamed r.top e.1, e.2)⟩)

def isClean (r : Repository) : Bool :=
  let committed := r.head.getD []
  r.index.all (fun e => committed.lookup e.1 == some e.2) && r.index.length == committed.length

def commit (r : Repository) : Repository := if r.isClean then r else { r with head := some r.index }

/-- Whether a tracked file can be given up without a loss: what is staged is in the last commit or,
if the file itself stays, in the file. -/
def isExpendable (r : Repository) (d : Disk) (names : List Name) (staysOnDisk : Bool) : Bool :=
  match r.file? d names with
  | none => true
  | some e =>
    let staged := r.index.lookup names
    let isCommitted := staged == r.committed? names
    if staysOnDisk then isCommitted || staged == some e else isCommitted && staged == some e

/-- No longer tracks some files, if none of them would be lost. -/
def forget? (r : Repository) (d : Disk) (files : List (List Name)) (staysOnDisk : Bool) :
    Option Repository :=
  if files.all fun names => r.isExpendable d names staysOnDisk then
    some (files.foldl (fun r names => r.stage names none) r)
  else none

end Repository
end PathSelection
