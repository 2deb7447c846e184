import PathSelection.Proofs.CommandLine.Stashing
import PathSelection.Proofs.Config.Loading
import PathSelection.Proofs.Selection.Membership

namespace PathSelection.CommandLine

variable {σ π : Type} {o : Options} {v : View} {e : Failure}

def governing (v : View) : Except Failure Config := do
  match ← Config.find v v.cwd.text with
  | some path => Config.load v path
  | none => return .standard

def chosen (o : Options) (v : View) : Except Failure Config :=
  match o.config with
  | some (c :: cs) => Config.load v (c :: cs)
  | _ => governing v

/-- From one workspace to the other only notes were taken, and nothing was printed. -/
def Noted (w w' : Workspace σ π) : Prop :=
  ∃ es, w' = { w with history := w.history ++ es } ∧ es.filterMap Event.printed? = []

theorem Noted.printed {w w' : Workspace σ π} (h : Noted w w') : w'.printed = w.printed := by
  obtain ⟨es, rfl, hes⟩ := h
  rw [Workspace.printed, List.filterMap_append, hes, List.append_nil]
  rfl

theorem Noted.view {w w' : Workspace σ π} (h : Noted w w') : w'.view = w.view := by
  obtain ⟨es, rfl, -⟩ := h
  rfl

theorem Noted.memory {w w' : Workspace σ π} (h : Noted w w') : w'.memory = w.memory := by
  obtain ⟨es, rfl, -⟩ := h
  rfl

theorem Noted.trans {u v w : Workspace σ π} (h : Noted u v) (h' : Noted v w) : Noted u w := by
  obtain ⟨es, rfl, hes⟩ := h
  obtain ⟨es', rfl, hes'⟩ := h'
  refine ⟨es ++ es', ?_, ?_⟩
  · rw [List.append_assoc]
  · rw [List.filterMap_append, hes, hes', List.append_nil]

theorem noted_all (w : Workspace σ π) {es : List Event} (hes : ∀ e ∈ es, e.printed? = none) :
    Noted w { w with history := w.history ++ es } :=
  ⟨es, rfl, List.filterMap_eq_nil_iff.2 hes⟩

theorem loadConfig_ends (path : Text) (w : Workspace σ π) : ∃ w',
    loadConfig path w = Run.lift (Config.load w.view path) w' ∧ Noted w w' := by
  rw [loadConfig, Run.view_bind, Run.note_bind, Config.load_eq]
  have hloading : Noted w (w.record (.loadingConfig (w.view.absolute path))) := ⟨[_], rfl, rfl⟩
  cases ht : Config.tableIn w.view (w.view.absolute path) with
  | error e => exact ⟨_, rfl, hloading⟩
  | ok t =>
    refine ⟨_, Run.bind_of_ok (Run.noteAll_apply _ _), hloading.trans (noted_all _ ?_)⟩
    intro e he
    obtain ⟨c, -, rfl⟩ := List.mem_map.1 he
    rfl

theorem chooseConfig_ends (o : Options) (w : Workspace σ π) : ∃ w',
    chooseConfig o w = Run.lift (chosen o w.view) w' ∧ Noted w w' := by
  have hgoverning : ∃ w', (do
      let v ← Run.view
      match ← Run.lift (Config.find v v.cwd.text) with
      | some path => loadConfig path
      | none =>
        Run.note .noConfig
        return .standard : Run σ π Config) w = Run.lift (governing w.view) w' ∧ Noted w w' := by
    rw [Run.view_bind, governing]
    cases hfind : Config.find w.view w.view.cwd.text with
    | error e => exact ⟨w, rfl, [], by rw [List.append_nil], rfl⟩
    | ok found =>
      cases found with
      | some path => exact loadConfig_ends path w
      | none => exact ⟨w.record .noConfig, rfl, [_], rfl, rfl⟩
  rw [chooseConfig, chosen]
  cases o.config with
  | none => exact hgoverning
  | some path =>
    cases path with
    | nil => exact hgoverning
    | cons c cs => exact loadConfig_ends _ w

theorem escapes_load {path : Text} :
    Escapes (Config.load v path) ↔ ∃ e, Config.LoadFails v path e := by
  constructor
  · rintro ⟨e, he, hreported⟩
    rcases Config.load_error he with ⟨problems, -, rfl⟩ | hfails
    · cases hreported
    · exact ⟨e, hfails⟩
  · rintro ⟨e, hfails⟩
    exact ⟨e, hfails.load, hfails.isReported⟩

section UseConfig

variable {g : Git σ π} {mode : Mode} {config : Config} {checks : List Check} {w : Workspace σ π}

theorem useConfig_of_unknown_check (h : chooseChecks config o.checks = .error e) :
    useConfig g o mode config w = .error e w := by
  rw [useConfig, h]
  rfl

theorem useConfig_of_checks (h : chooseChecks config o.checks = .ok checks) :
    useConfig g o mode config w = (Run.lift (selectionFor g o mode config w.view) >>= fun s =>
      s.use (s.get >>= tell o checks (config.root w.cwd).text)) w := by
  rw [useConfig, h]
  rfl

theorem useConfig_of_not_set_up (hchecks : chooseChecks config o.checks = .ok checks)
    (h : selectionFor g o mode config w.view = .error e) :
    useConfig g o mode config w = .error e w := by
  rw [useConfig_of_checks hchecks, h]
  rfl

theorem useConfig_of_set_up (hchecks : chooseChecks config o.checks = .ok checks)
    {s : Selection σ π} (h : selectionFor g o mode config w.view = .ok s) :
    useConfig g o mode config w =
      s.use (s.get >>= tell o checks (config.root w.cwd).text) w := by
  rw [useConfig_of_checks hchecks, h]
  rfl

end UseConfig

section Run

variable {g : Git σ π} {words : List Text} {w w₁ : Workspace σ π}

end Run

end PathSelection.CommandLine
