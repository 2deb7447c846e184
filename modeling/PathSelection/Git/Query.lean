import PathSelection.Text.Blank
import PathSelection.Workspace.Basic

namespace PathSelection.Git

variable {σ π α : Type}

/-- Runs a command. It fails unless it leaves one of some exit codes. -/
def perform (command : Command) (directory : Text) (codes : List Int)
    (act : σ → Disk → Reply α × σ × Disk) : Run σ π α := do
  let w ← get
  let (reply, git, disk) := act w.git w.disk
  set ({ w with git, disk }.record (.ran command directory (reply.succeeds codes)))
  match reply with
  | .notStarted reason => throw (.git command.line reason)
  | .exited code output errors =>
    if code ∈ codes then return output else throw (.git command.line errors)

def ask (g : Git σ π) (command : Command) (directory : Text) (codes : List Int) :
    Run σ π ByteArray :=
  perform command directory codes (g.run command directory)

def decode (command : Command) (output : ByteArray) : Run σ π Text :=
  match String.fromUTF8? output with
  | some s => return s.toList
  | none => throw (.git command.shortLine "output is not valid UTF-8")

/-- The top level of the working tree that a directory belongs to. Git is asked until it has told
it once. -/
def topLevel (g : Git σ π) (directory : Text) : Run σ π WrittenPath := do
  match (← get).memory.top with
  | some top => return top
  | none =>
    let answer := (← decode .topLevel (← ask g .topLevel directory [0])).strip
    if answer = [] then throw (.git Command.topLevel.shortLine "empty output")
    let top := WrittenPath.ofText answer
    modify fun w => { w with memory := { w.memory with top := some top } }
    return top

def askText (g : Git σ π) (directory : Text) (command : Command) : Run σ π Text := do
  let top ← topLevel g directory
  decode command (← ask g command top.text [0])

def splitNames (t : Text) : List Text := (t.splitOn '\x00').filter (· ≠ [])

def askNames (g : Git σ π) (directory : Text) (command : Command) : Run σ π (List Text) := do
  return splitNames (← askText g directory command)

def hasHead (g : Git σ π) (directory : Text) : Run σ π Bool := do
  let output ← ask g .head directory [0, 1]
  return !output.data.all isBlankByte

def located (g : Git σ π) (directory : Text) (names : List Text) : Run σ π (List Text) := do
  let top ← topLevel g directory
  return names.eraseDups.map top.text.below

/-- The files that differ from the last commit, and the untracked ones. As long as there is no
commit, every tracked file does. -/
def modifiedFiles (g : Git σ π) (directory : Text) : Run σ π (List Text) := do
  let names ←
    if ← hasHead g directory then askNames g directory (.changed .headToFiles)
    else do
      let staged ← askNames g directory (.changed .headToIndex)
      let edited ← askNames g directory (.changed .indexToFiles)
      pure (staged ++ edited)
  let untracked ← askNames g directory .untracked
  located g directory (names ++ untracked)

def stagedFiles (g : Git σ π) (directory : Text) : Run σ π (List Text) := do
  located g directory (← askNames g directory (.changed .headToIndex))

def unstagedChanges (g : Git σ π) (directory : Text) : Run σ π π := do
  let top ← topLevel g directory
  let _ ← ask g .refresh top.text [0, 1]
  perform .diff top.text [0] (g.diff top.text)

def discardChanges (g : Git σ π) (top : WrittenPath) : Run σ π Unit := do
  let _ ← ask g .checkout top.text [0]

def applyPatch (g : Git σ π) (top : WrittenPath) (patchFile : Text) (patch : π) : Run σ π Unit :=
  perform (.apply patchFile) top.text [0] (g.apply patchFile patch top.text)

end PathSelection.Git
