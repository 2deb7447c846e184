import PathSelection.Proofs.Git.Tracked

namespace PathSelection.Git

/-- The content of the one tracked file, in the index and on disk. -/
structure Single where
  index : Text
  file : Text
deriving DecidableEq, Repr

/-- What a patch replaces, and by what. -/
structure Single.Patch where
  old : Text
  new : Text
deriving DecidableEq, Repr

def Single.afterCommand (s : Single) : Command → Single
  | .checkout => ⟨s.index, s.index⟩
  | _ => s

def Single.patched (p : Single.Patch) (file : Text) : Option Text :=
  if file = p.old then some p.new else none

/-- The git of a working tree with one file, at `/tree`. -/
def single : Git Single Single.Patch where
  run command _ s d := (.exited 0 "/tree\n".toUTF8 [], s.afterCommand command, d)
  diff _ s d := (.exited 0 ⟨s.index, s.file⟩ [], s, d)
  apply _ p _ s d :=
    match Single.patched p s.file with
    | some file => (.exited 0 () [], ⟨s.index, file⟩, d)
    | none => (.exited 1 () "error: patch does not apply", s, d)
  isBlank p := p.old = p.new

namespace Single

def view : Tracked Single Patch Text where
  index s _ := s.index
  files s _ := s.file
  patched := patched

theorem afterCommand_of_ne {command : Command} (h : command ≠ .checkout) (s : Single) :
    s.afterCommand command = s := by
  cases command <;> first | rfl | exact (h rfl).elim

theorem laws : view.Laws single "/tree" (.ofText "/tree") where
  told git disk output errors answer h ha := by
    obtain rfl : "/tree\n".toUTF8 = output := (Reply.exited.inj h).2.1
    obtain rfl : "/tree\n" = answer := Option.some.inj ha
    rfl
  question command directory git disk hc := by
    have hne : command ≠ .checkout := by
      rintro rfl
      cases hc
    simp only [single, view, afterCommand_of_ne hne, and_self]
  diff directory git disk := ⟨rfl, rfl⟩
  blank git disk patch errors h := by
    obtain rfl : ⟨git.index, git.file⟩ = patch := (Reply.exited.inj h).2.1
    exact decide_eq_true_iff.trans eq_comm
  checkout git disk := ⟨rfl, rfl⟩
  apply patchFile patch git disk := by
    cases h : patched patch git.file with
    | none => simp [single, view, h, Reply.succeeds]
    | some file => simp [single, view, h, Reply.succeeds]
  reapply patchFile patch staged edited git disk hb hl hi hf := by
    obtain ⟨git', disk', errors, rfl, rfl, h⟩ := hl
    obtain rfl : ⟨git'.index, git'.file⟩ = patch := (Reply.exited.inj h).2.1
    have hpatched : patched ⟨git'.index, git'.file⟩ git.file = some git'.file := if_pos hf
    have hview : view.patched ⟨git'.index, git'.file⟩ git'.index = some git'.file := if_pos rfl
    refine ⟨?_, hview⟩
    simp only [single, hpatched]
    rfl

end Single

def edited : Workspace Single Single.Patch :=
  .start ⟨⟨[]⟩, .root⟩ ⟨"staged", "edited"⟩ "/tmp"

end PathSelection.Git
