import PathSelection.Git.Query

namespace PathSelection

variable {σ π : Type}

/-- Where changed files are learnt from, and how unstaged changes are taken out and put back. -/
structure ChangeSource (σ π : Type) where
  modified : Run σ π (List Text)
  staged : Run σ π (List Text)
  unstaged : Run σ π π
  isBlank : π → Bool
  top : Run σ π WrittenPath
  discard : (top : WrittenPath) → Run σ π Unit
  reapply : (top : WrittenPath) → (patchFile : Text) → π → Run σ π Unit

def Git.source (g : Git σ π) (directory : Text) : ChangeSource σ π where
  modified := g.modifiedFiles directory
  staged := g.stagedFiles directory
  unstaged := g.unstagedChanges directory
  isBlank := g.isBlank
  top := g.topLevel directory
  discard := g.discardChanges
  reapply := g.applyPatch

namespace Stash

def active : Run σ π (Option (Stash π)) := do return (← get).memory.stash

def setActive (stash : Option (Stash π)) : Run σ π Unit :=
  modify fun w => { w with memory := { w.memory with stash } }

def write (patch : π) (top : WrittenPath) : Run σ π (Stash π) := do
  let w ← get
  let stash : Stash π := ⟨w.nextPatch, patch, top⟩
  set { w with patches := (stash.file, patch) :: w.patches, nextPatch := w.nextPatch + 1 }
  setActive (some stash)
  Run.note (.patchWritten stash.file)
  Run.note (.stashed (w.patchPath stash.file))
  return stash

def drop (stash : Stash π) : Run σ π Unit := do
  modify fun w => { w with patches := w.patches.filter fun p => p.1 != stash.file }
  setActive none
  Run.note (.patchRemoved stash.file)

end Stash

namespace ChangeSource

/-- Stashes the unstaged changes, and tells whether there is a stash now. With one already there,
nothing is done. -/
def stash (s : ChangeSource σ π) : Run σ π Bool := do
  if (← Stash.active).isSome then return true
  let patch ← s.unstaged
  if s.isBlank patch then
    Run.note .nothingToStash
    return false
  let top ← s.top
  let stash ← Stash.write patch top
  try s.discard top
  catch e =>
    Stash.drop stash
    throw e
  return true

/-- Gives up the changes that stand in the way, and applies the stash again. -/
def forceBack (s : ChangeSource σ π) (stash : Stash π) (patchFile : Text) : Run σ π Unit := do
  Run.note .conflicted
  try
    s.discard stash.top
    s.reapply stash.top patchFile stash.patch
  catch e =>
    Stash.setActive none
    throw (.stashRestore patchFile e.message)

def unstash (s : ChangeSource σ π) : Run σ π Unit := do
  match ← Stash.active with
  | none => return
  | some stash =>
    let patchFile := (← get).patchPath stash.file
    try s.reapply stash.top patchFile stash.patch
    catch _ => s.forceBack stash patchFile
    Stash.drop stash
    Run.note .restored

end ChangeSource
end PathSelection
