import PathSelection.Disk.Basic
import PathSelection.Text.Lines

namespace PathSelection

/-- A disk and the directory that relative paths start from. -/
structure View where
  disk : Disk
  cwd : AbsPath

namespace View

def origin (v : View) (t : Text) : RealPath := if t.isAbsolute then [] else v.cwd.names

def place (v : View) (t : Text) : Except DiskError Place :=
  if t = [] then .error .noSuchFile
  else (v.disk.follow Disk.maxLinks (v.origin t) (Step.ofPath t)).mapError fun e =>
    if t.byteLength > Disk.maxPathBytes then .nameTooLong else e

def entry? (v : View) (t : Text) : Option Entry :=
  match v.place t with
  | .ok p => v.disk.get? p.real
  | .error _ => none

def isDir (v : View) (t : Text) : Bool := (v.entry? t).any Entry.isDir

/-- Whether a path leads over more links than may be followed. -/
def isLoop (v : View) (t : Text) : Bool :=
  match v.place t with
  | .error .tooManyLinks => true
  | _ => false

def absolute (v : View) (t : Text) : AbsPath := AbsPath.ofText v.cwd t

def stat (v : View) (t : Text) : Except DiskError Entry := do
  if t.byteLength > Disk.maxPathBytes then throw .nameTooLong
  let p ← v.place t
  match v.disk.get? p.real with
  | some e => return e
  | none => throw .noSuchFile

/-- What a path names. A link to nowhere names nothing, and so does a path with a null character;
where the disk gives no answer, there is none. -/
def ask (v : View) (t : Text) : Except DiskError (Option Entry) :=
  if '\x00' ∈ t then .ok none
  else match v.stat t with
    | .ok e => .ok (some e)
    | .error e => if e.isAbsence then .ok none else .error e

def exists? (v : View) (t : Text) : Except DiskError Bool := return (← v.ask t).isSome

def isFile (v : View) (t : Text) : Except DiskError Bool := return (← v.ask t).any Entry.isFile

def readBytes (v : View) (t : Text) : Except DiskError ByteArray := do
  match ← v.stat t with
  | .file content => return content
  | .dir true => throw .isADirectory
  | .unreadable | .dir false | .sealed => throw .permissionDenied
  | .link _ => throw .noSuchFile

inductive TextError where
  | disk (error : DiskError)
  | notUtf8
deriving DecidableEq, Repr

def TextError.message : TextError → Text
  | .disk error => error.message
  | .notUtf8 => "file is not valid UTF-8"

inductive ReadError where
  /-- The path has a null character, so that no disk can be asked for it. -/
  | nullInPath
  | text (error : TextError)
deriving DecidableEq, Repr

def readText (v : View) (t : Text) : Except ReadError Text :=
  if '\x00' ∈ t then .error .nullInPath
  else match v.readBytes t with
    | .error e => .error (.text (.disk e))
    | .ok content =>
      match String.fromUTF8? content with
      | none => .error (.text .notUtf8)
      | some s => .ok (Text.unifyNewlines s.toList)

/-- Resolves links, as many as there are, and tells whether this came to an end. What does not exist
is kept as it stands. A link that is met while it is resolved itself is kept too, with all that
follows it. -/
def settle (d : Disk) (opened : List RealPath) (here : RealPath) (steps : List Step) :
    RealPath × Bool :=
  match steps with
  | [] => (here, true)
  | .here :: rest => settle d opened here rest
  | .up :: rest => settle d opened here.dropLast rest
  | .down n :: rest =>
    match _ : d.get? (here ++ [n]) with
    | some (.link target) =>
      if _ : opened.contains (here ++ [n]) = true then
        (rest.foldl Step.lexical (here ++ [n]), false)
      else
        let start := if target.isAbsolute then [] else here
        match settle d ((here ++ [n]) :: opened) start (Step.ofPath target) with
        | (there, true) => settle d opened there rest
        | (there, false) => (rest.foldl Step.lexical there, false)
    | _ => settle d opened (here ++ [n]) rest
termination_by (d.unopened opened, steps.length)
decreasing_by
  any_goals exact Prod.Lex.right _ (Nat.lt_succ_self _)
  next hlink hopened =>
  exact Prod.Lex.left _ _ (Disk.unopened_cons_lt hlink (Bool.not_eq_true _ ▸ hopened))

def resolved (v : View) (t : Text) : AbsPath :=
  ⟨false, (settle v.disk [] (v.origin t) (Step.ofPath t)).1⟩

end View
end PathSelection
