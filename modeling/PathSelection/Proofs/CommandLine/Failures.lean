import Mathlib.Control.Monad.Basic
import PathSelection.Proofs.CommandLine.Choosing
import PathSelection.Proofs.Selection.Modified

namespace PathSelection

variable {σ π α : Type}

namespace Run

variable {P : Failure → Prop}

def Escapes (x : Run σ π α) (w : Workspace σ π) : Prop :=
  ∃ e w', x w = .error e w' ∧ e.isReported = false

theorem escapes_bind {β : Type} {x : Run σ π α} {f : α → Run σ π β} {w : Workspace σ π} :
    Escapes (x >>= f) w ↔ Escapes x w ∨ ∃ a w', x w = .ok a w' ∧ Escapes (f a) w' := by
  unfold Escapes
  cases hx : x w with
  | ok a w' => simp [bind_of_ok hx]
  | error e w' => simp [bind_of_error hx]

end Run

namespace Git

variable {g : Git σ π} {directory : Text}

theorem reported {x : Run σ π α} (h : Run.FailsWith IsGitFailure x) :
    Run.FailsWith Failure.Reported x := by
  intro w e w' he
  obtain ⟨command, errors, rfl⟩ := h w e w' he
  rfl

end Git

namespace IgnoreFile

variable {v : View} {path : Text} {paths : List Text}

theorem escapes_readLines : Escapes (readLines v path) ↔ '\x00' ∈ path := by
  rw [← View.readText_null (v := v)]
  unfold readLines
  split
  · next h => simp [h, not_escapes_ok]
  · next h => simp [h, escapes_error, Failure.isReported]
  · next h => simp [h, escapes_error, Failure.isReported]

theorem escapes_load : Escapes (load v path) ↔ '\x00' ∈ (v.absolute path).text := by
  unfold load
  rw [escapes_bind, escapes_readLines, or_iff_left]
  rintro ⟨lines, -, hrules⟩
  split at hrules
  · exact not_escapes_ok _ hrules
  · exact absurd (escapes_error.1 hrules) (by simp [Failure.isReported])

/-- The loading of ignore files comes to one whose path has a null character. -/
def BreaksOff (v : View) (paths : List Text) : Prop :=
  Until (fun path => ∃ f, load v path = .ok f) (fun path => '\x00' ∈ (v.absolute path).text) paths

theorem Registry.escapes_load : Escapes (Registry.load v paths) ↔ BreaksOff v paths := by
  unfold Registry.load BreaksOff
  simp only [escapes_foldlM, IgnoreFile.escapes_load]

end IgnoreFile

namespace PathFilter

theorem escapes_load {v : View} {included excluded ignored : List Text} {root : Option Text} :
    Escapes (load v included excluded ignored root) ↔ IgnoreFile.BreaksOff v ignored := by
  unfold load
  rw [escapes_bind_pure, IgnoreFile.Registry.escapes_load]

end PathFilter

/-- The planning of checks comes to one whose ignore files cannot all be loaded for a null
character. -/
def Plan.BreaksOff (v : View) (checks : List Check) (base : List Text) (action : Purpose)
    (root : Option Text) : Prop :=
  Until (fun c => ∃ paths, c.paths v root base = .ok paths)
    (fun c => IgnoreFile.BreaksOff v c.ignoreFiles) (checks.filter (·.runsFor action))

namespace Selection

variable {s : Selection σ π} {g : Git σ π} {directory : Text} {P : Failure → Prop}

end Selection
end PathSelection
