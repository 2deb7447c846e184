import PathSelection.Failure
import PathSelection.Git.Basic
import PathSelection.Workspace.Event

namespace PathSelection

structure Stash (π : Type) where
  /-- The number of the patch file that holds them. -/
  file : Nat
  patch : π
  top : WrittenPath

structure Memory (π : Type) where
  /-- The top level of the working tree, once git has told it. -/
  top : Option WrittenPath
  stash : Option (Stash π)
  paths : Option (List Text)

def Memory.empty {π : Type} : Memory π := ⟨none, none, none⟩

/-- What a run acts on. What a run did to it stays done when the run fails. -/
structure Workspace (σ π : Type) where
  disk : Disk
  cwd : AbsPath
  git : σ
  patchDirectory : Text
  /-- The patch files, by their numbers. -/
  patches : List (Nat × π)
  nextPatch : Nat
  memory : Memory π
  history : List Event

namespace Workspace

variable {σ π : Type}

def start (v : View) (git : σ) (patchDirectory : Text) : Workspace σ π :=
  ⟨v.disk, v.cwd, git, patchDirectory, [], 0, .empty, []⟩

def view (w : Workspace σ π) : View := ⟨w.disk, w.cwd⟩

def patchPath (w : Workspace σ π) (file : Nat) : Text :=
  w.patchDirectory.below ("tidypaths-" ++ Text.ofNat file ++ ".patch")

def record (w : Workspace σ π) (e : Event) : Workspace σ π := { w with history := w.history ++ [e] }

end Workspace

/-- A computation on a workspace, which may fail. -/
abbrev Run (σ π α : Type) := EStateM Failure (Workspace σ π) α

namespace Run

variable {σ π α : Type}

def note (e : Event) : Run σ π Unit := modify (·.record e)

def noteAll (es : List Event) : Run σ π Unit := es.forM note

def view : Run σ π View := do return (← get).view

def lift : Except Failure α → Run σ π α
  | .ok a => pure a
  | .error e => throw e

end Run
end PathSelection
