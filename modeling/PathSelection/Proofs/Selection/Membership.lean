import PathSelection.Proofs.Run
import PathSelection.Proofs.PathFilter
import PathSelection.Proofs.Selection.Steps
import PathSelection.Proofs.Text.Order

namespace PathSelection

variable {σ π : Type}

theorem Run.noteAll_apply (es : List Event) (w : Workspace σ π) :
    (noteAll es : Run σ π Unit) w = .ok () { w with history := w.history ++ es } := by
  induction es generalizing w with
  | nil =>
    rw [List.append_nil]
    rfl
  | cons e es ih =>
    have hrest := ih (w.record e)
    rw [show (w.record e).history ++ es = w.history ++ e :: es from List.append_assoc _ [e] es]
      at hrest
    exact hrest

theorem Run.noteAll_ok (es : List Event) (w : Workspace σ π) :
    ∃ w', (noteAll es : Run σ π Unit) w = .ok () w' ∧ w'.view = w.view ∧ w'.memory = w.memory :=
  ⟨_, noteAll_apply es w, rfl, rfl⟩

namespace Selection

variable {s : Selection σ π} {w w' : Workspace σ π} {paths found : List Text}

theorem ok_of_found (h : s.found w = .ok found w') : ∃ starts w₁,
    s.mode.startingPaths s.paths s.cwd s.source w = .ok starts w₁ ∧
      (Walk.startAll w₁.view s.filter s.followLinks starts).ended = .ok () ∧
      s.filter.keep w₁.view ((Walk.startAll w₁.view s.filter s.followLinks starts).files.map
        AbsPath.text) = .ok found := by
  obtain ⟨starts, w₁, hstarts, h⟩ := Run.ok_of_bind h
  obtain ⟨v, w₂, hv, h⟩ := Run.ok_of_bind h
  cases hv
  obtain ⟨u, w₃, -, h⟩ := Run.ok_of_bind h
  obtain ⟨u', w₄, hended, h⟩ := Run.ok_of_bind h
  refine ⟨starts, w₁, hstarts, ?_, ?_⟩
  · cases he : (Walk.startAll w₁.view s.filter s.followLinks starts).ended with
    | ok u => rfl
    | error e =>
      rw [he] at hended
      cases hended
  · cases hk : s.filter.keep w₁.view
        ((Walk.startAll w₁.view s.filter s.followLinks starts).files.map AbsPath.text) with
    | ok kept =>
      rw [hk] at h
      cases h
      rfl
    | error e =>
      rw [hk] at h
      cases h

theorem error_of_found {e : Failure} (h : s.found w = .error e w') :
    s.mode.startingPaths s.paths s.cwd s.source w = .error e w' ∨ ∃ starts w₁,
      s.mode.startingPaths s.paths s.cwd s.source w = .ok starts w₁ ∧
        ((Walk.startAll w₁.view s.filter s.followLinks starts).ended = .error e ∨
          s.filter.keep w₁.view ((Walk.startAll w₁.view s.filter s.followLinks starts).files.map
            AbsPath.text) = .error e) := by
  cases hstarts : s.mode.startingPaths s.paths s.cwd s.source w with
  | error e' w₁ =>
    rw [found, Run.bind_of_error hstarts] at h
    cases h
    exact .inl rfl
  | ok starts w₁ =>
    obtain ⟨w₂, hnoted, -⟩ := Run.noteAll_ok
      ((Walk.startAll w₁.view s.filter s.followLinks starts).events.map Event.walked) w₁
    rw [found, Run.bind_of_ok hstarts, Run.view_bind, Run.bind_of_ok hnoted] at h
    refine .inr ⟨starts, w₁, rfl, ?_⟩
    cases hended : (Walk.startAll w₁.view s.filter s.followLinks starts).ended with
    | error e' =>
      rw [hended] at h
      cases h
      exact .inl rfl
    | ok u =>
      rw [hended] at h
      cases hk : s.filter.keep w₁.view
          ((Walk.startAll w₁.view s.filter s.followLinks starts).files.map AbsPath.text) with
      | error e' =>
        rw [hk] at h
        cases h
        exact .inr rfl
      | ok kept =>
        rw [hk] at h
        cases h

theorem ok_of_get (hm : s.mode ≠ .staged) (hp : w.memory.paths = none)
    (h : s.get w = .ok paths w') :
    ∃ found w₁, s.found w = .ok found w₁ ∧ paths = s.chosen found := by
  have ho := s.getOutcome w
  rw [h] at ho
  cases ho with
  | known hk =>
    rw [hp] at hk
    cases hk
  | made _ hb hf =>
    rw [start_of_not_staged hm] at hb
    cases hb
    exact ⟨_, _, hf, rfl⟩

theorem found_of_walk {starts : List Text} {w₁ : Workspace σ π}
    (hstarts : s.mode.startingPaths s.paths s.cwd s.source w = .ok starts w₁)
    (hended : (Walk.startAll w₁.view s.filter s.followLinks starts).ended = .ok ())
    (hkeep : s.filter.keep w₁.view ((Walk.startAll w₁.view s.filter s.followLinks
      starts).files.map AbsPath.text) = .ok found) :
    ∃ w₂, s.found w = .ok found w₂ := by
  obtain ⟨w₂, hnoted, -⟩ := Run.noteAll_ok
    ((Walk.startAll w₁.view s.filter s.followLinks starts).events.map Event.walked) w₁
  refine ⟨w₂, ?_⟩
  rw [Selection.found, Run.bind_of_ok hstarts, Run.view_bind, Run.bind_of_ok hnoted, hended, hkeep]
  rfl

theorem get_of_found {w₁ : Workspace σ π} (hm : s.mode ≠ .staged) (hp : w.memory.paths = none)
    (h : s.found w = .ok found w₁) :
    s.get w = .ok (s.chosen found) (finished (s.chosen found) w₁) := by
  rw [get_of_unknown hp, make, bind_assoc, Run.bind_of_ok (start_of_not_staged hm), continued,
    bind_assoc, Run.bind_of_ok (Run.tryCatch_of_ok h)]
  rfl

theorem found_of_walk_error {starts : List Text} {e : Failure} {w₁ : Workspace σ π}
    (hstarts : s.mode.startingPaths s.paths s.cwd s.source w = .ok starts w₁)
    (hended : (Walk.startAll w₁.view s.filter s.followLinks starts).ended = .error e) :
    ∃ w₂, s.found w = .error e w₂ ∧ w₂.memory = w₁.memory := by
  obtain ⟨w₂, hnoted, -, hmemory⟩ := Run.noteAll_ok
    ((Walk.startAll w₁.view s.filter s.followLinks starts).events.map Event.walked) w₁
  refine ⟨w₂, ?_, hmemory⟩
  rw [Selection.found, Run.bind_of_ok hstarts, Run.view_bind, Run.bind_of_ok hnoted, hended]
  rfl

theorem get_of_found_error {e : Failure} {w₁ : Workspace σ π} (hm : s.mode ≠ .staged)
    (hp : w.memory.paths = none) (hs : w₁.memory.stash = none) (h : s.found w = .error e w₁) :
    s.get w = .error e w₁ := by
  have ho := s.getOutcome w
  have hstart := start_of_not_staged hm (w := w)
  cases hg : s.get w with
  | ok paths w₂ =>
    rw [hg] at ho
    cases ho with
    | known hk => cases hp.symm.trans hk
    | made _ hb hf =>
      cases hstart.symm.trans hb
      cases h.symm.trans hf
  | error e' w₂ =>
    rw [hg] at ho
    cases ho with
    | notStarted _ hb => cases hstart.symm.trans hb
    | released _ hb hf hu =>
      cases hstart.symm.trans hb
      cases h.symm.trans hf
      cases (ChangeSource.unstash_of_inactive hs).symm.trans hu
      rfl
    | notReleased _ hb hf hu =>
      cases hstart.symm.trans hb
      cases h.symm.trans hf
      cases (ChangeSource.unstash_of_inactive hs).symm.trans hu

theorem mem_chosen {t : Text} :
    t ∈ s.chosen found ↔ t ∈ found ∧ t ∉ s.filter.ignoreFiles.files.map AbsPath.text := by
  rw [chosen, Text.mem_sorted, List.mem_filter]
  simp

end Selection
end PathSelection
