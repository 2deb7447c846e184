import PathSelection.CommandLine.Basic

namespace PathSelection.Program

/-- The part of the disk that has been seen, and the directories that were seen as a whole. -/
structure Sight where
  disk : Disk
  whole : List RealPath

abbrev Look := StateT Sight IO

def namesOf (path : String) : RealPath := (AbsPath.ofText .root path.toList).names

def textOf (place : RealPath) : String := String.ofList (AbsPath.mk false place).text

def realPlace? (path : String) : IO (Option RealPath) := do
  match ← (IO.FS.realPath path).toBaseIO with
  | .ok real => return some (namesOf real.toString)
  | .error _ => return none

/-- What is at a place. A link to nowhere is taken for one to itself. -/
def entryAt (place : RealPath) : IO (Option Entry) := do
  let here := (← IO.currentDir) / textOf place
  match ← here.symlinkMetadata.toBaseIO with
  | .error _ => return none
  | .ok metadata =>
    match metadata.type with
    | .dir =>
      if !(← (here / ".").metadata.toBaseIO).isOk then return some .sealed
      return some (.dir (← here.readDir.toBaseIO).isOk)
    | .symlink => return some (.link (textOf ((← realPlace? (textOf place)).getD place)).toList)
    | _ => return some (.file ByteArray.empty)

def record (place : RealPath) (entry : Entry) : Look Unit :=
  modify fun s => { s with disk := ⟨(place, entry) :: s.disk.entries⟩ }

/-- Looks at a place with all that lies beneath it, and beneath the links there if they are
followed. -/
partial def survey (followLinks : Bool) (place : RealPath) : Look Unit := do
  match ← entryAt place with
  | none => return
  | some entry =>
    record place entry
    match entry with
    | .file _ | .unreadable | .sealed => return
    | .link target =>
      let real := namesOf (String.ofList target)
      if real = place then return
      if followLinks then survey followLinks real
      else if let some entry ← entryAt real then record real entry
    | .dir _ =>
      if (← get).whole.contains place then return
      modify fun s => { s with whole := place :: s.whole }
      let here := (← IO.currentDir) / textOf place
      if let .ok entries ← here.readDir.toBaseIO then
        for e in entries do
          if let some name := Name.ofText? e.fileName.toList then
            survey followLinks (place ++ [name])

def approach (path : AbsPath) : Look Unit := do
  for directory in path.upwards.reverse do
    match directory.names.getLast? with
    | none => record [] (.dir true)
    | some name =>
      if let some parent ← realPlace? (textOf directory.names.dropLast) then
        if let some entry ← entryAt (parent ++ [name]) then
          record (parent ++ [name]) entry
          if let some real ← realPlace? (textOf directory.names) then
            if real ≠ parent ++ [name] then
              for n in List.range (real.length + 1) do
                if let some entry ← entryAt (real.take n) then record (real.take n) entry

def explore (followLinks : Bool) (path : AbsPath) : Look Unit := do
  approach path
  if let some real ← realPlace? (textOf path.names) then survey followLinks real

def readContent (path : AbsPath) : Look Unit := do
  approach path
  if let some real ← realPlace? (textOf path.names) then
    match ← (IO.FS.readBinFile (textOf real)).toBaseIO with
    | .ok content => record real (.file content)
    | .error (.permissionDenied ..) =>
      if let some (.file _) ← entryAt real then record real .unreadable
    | .error _ => return

def readConfigs (directory : AbsPath) : Look Unit := do
  for d in directory.upwards do
    for name in Config.fileNames do
      readContent (AbsPath.ofText d name)
    for mark in Config.checkoutMarks do
      approach (AbsPath.ofText d mark)

def workspace (s : Sight) (cwd : AbsPath) : Workspace Unit Unit :=
  .start ⟨s.disk, cwd⟩ () "/tmp"

def ignoreFiles (c : Config) : List Text := c.ignoreFiles ++ c.checks.flatMap Check.ignoreFiles

def lookFor (o : CommandLine.Options) (cwd : AbsPath) : Look Unit := do
  approach cwd
  readConfigs cwd
  if let some path := o.config then readContent (AbsPath.ofText cwd path)
  match (CommandLine.chooseConfig o).run (workspace (← get) cwd) with
  | .ok config _ => for path in ignoreFiles config do readContent (AbsPath.ofText cwd path)
  | .error .. => pure ()
  let known := (← get).disk
  match o.mode.getD .explicit with
  | .explicit => for path in o.paths do explore o.followLinks (AbsPath.ofText cwd path)
  | .all => explore o.followLinks cwd
  | .modified | .staged => pure ()
  modify fun s => { s with disk := ⟨known.entries ++ s.disk.entries⟩ }

def usage : String := "usage: tidypaths [-h] [--version] \x7btidy,lint\x7d ..."

def conclude : CommandLine.Ending → IO UInt32
  | .stopped stop => do
    if stop = .help then IO.println usage
    else
      IO.eprintln usage
      IO.eprintln (String.ofList stop.line)
    return stop.code.toUInt32
  | .reported report => do
    IO.print (String.ofList report.output)
    IO.eprint (String.ofList report.errors)
    return report.code.toUInt32
  | .escaped _ => return 1

end PathSelection.Program

open PathSelection Program in
def main (words : List String) : IO UInt32 := do
  let words := words.map String.toList
  let cwd : AbsPath := ⟨false, namesOf (← IO.FS.realPath (← IO.currentDir)).toString⟩
  let (_, sight) ← (match CommandLine.Options.read words with
    | .ok o => lookFor o cwd
    | .error _ => pure ()).run ⟨⟨[]⟩, []⟩
  conclude (CommandLine.run Git.missing words (workspace sight cwd)).1
