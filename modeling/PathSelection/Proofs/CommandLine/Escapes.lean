import PathSelection.Proofs.CommandLine.Failures
import PathSelection.Proofs.Config.Search

namespace PathSelection.CommandLine

variable {σ π : Type} {g : Git σ π} {o : Options} {mode : Mode} {config : Config}
  {w : Workspace σ π}

-- A project file that has a number for its `tool` entry.
namespace Numbered

def view : View := Config.Lone.view "tool=3"

def document : Toml.Table := [("tool", .integer 3)]

theorem document_project :
    Config.document view (Config.fileAt .root Config.projectName) = .ok document := by
  have hread : Toml.read (Text.unifyNewlines "tool=3".toList) = .ok document := rfl
  exact Config.document_ok.2 ⟨_, Config.Lone.readText_project, hread⟩

theorem misshapen : Config.Misshapen view "pyproject.toml" := by
  have habsolute : view.absolute "pyproject.toml" = ⟨false, [Config.Nested.project]⟩ := by
    decide +kernel
  have hpath : Config.fileAt .root Config.projectName =
      AbsPath.text ⟨false, [Config.Nested.project]⟩ :=
    Config.fileAt_name .root Config.Nested.project
  refine ⟨by decide +kernel, document, ?_, .inl ⟨.integer 3, rfl, rfl⟩⟩
  rw [habsolute, ← hpath]
  exact document_project

end Numbered

end PathSelection.CommandLine
