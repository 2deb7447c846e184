import PathSelection.Disk.Basic
import PathSelection.Git.Command

namespace PathSelection

/-- A git, seen from outside. What it remembers itself is `σ`, and its patches are `π`. -/
structure Git (σ π : Type) where
  /-- Runs a command whose output is text, if it has any. -/
  run : Git.Command → (directory : Text) → σ → Disk → Git.Reply ByteArray × σ × Disk
  /-- Makes a patch from the index to the files. -/
  diff : (directory : Text) → σ → Disk → Git.Reply π × σ × Disk
  /-- Applies the patch in a patch file. -/
  apply : (patchFile : Text) → π → (directory : Text) → σ → Disk → Git.Reply Unit × σ × Disk
  isBlank : π → Bool

namespace Git

def ownName : Name := ⟨".git".toList, by decide⟩

def missingText : Text := "[Errno 2] No such file or directory: 'git'"

def missing : Git Unit Unit where
  run _ _ _ d := (.notStarted missingText, (), d)
  diff _ _ d := (.notStarted missingText, (), d)
  apply _ _ _ _ d := (.notStarted missingText, (), d)
  isBlank _ := true

end Git
end PathSelection
