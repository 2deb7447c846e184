import Mathlib.Control.Monad.Basic
import PathSelection.Proofs.Check.Planning
import PathSelection.Proofs.CommandLine.Choosing
import PathSelection.Proofs.Selection.Session

namespace PathSelection

variable {σ π α : Type}

namespace Selection

variable {s : Selection σ π} {g : Git σ π} {directory : Text}

theorem printed_start (hs : s.source = g.source directory) :
    Run.Keeps (fun w w' : Workspace σ π => w'.printed = w.printed) s.start := by
  have h := g.printed_keptByStashing
  unfold start
  split
  · rw [hs]
    have hset : Run.Keeps (fun w w' : Workspace σ π => w'.printed = w.printed)
        (Stash.setActive none : Run σ π Unit) := fun _ => rfl
    exact hset.bind h.trans fun _ => (h.stash directory).bind h.trans fun _ =>
      Run.keeps_pure h.refl _
  · exact Run.keeps_pure h.refl _

theorem printed_release (hs : s.source = g.source directory) :
    Run.Keeps (fun w w' : Workspace σ π => w'.printed = w.printed) s.release := by
  rw [release, hs]
  exact g.printed_keptByStashing.unstash directory

theorem printed_found (hs : s.source = g.source directory) :
    Run.Keeps (fun w w' : Workspace σ π => w'.printed = w.printed) s.found :=
  g.printed_keptByStashing.found hs

theorem printed_get (hs : s.source = g.source directory) :
    Run.Keeps (fun w w' : Workspace σ π => w'.printed = w.printed) s.get := by
  intro w
  have ho := s.getOutcome w
  unfold Run.after
  cases hr : s.get w with
  | ok paths w' =>
    rw [hr] at ho
    cases ho with
    | known hp => rfl
    | @made found w₁ w₂ hp hb hf =>
      have hfinished : (finished (s.chosen found) w₂).printed = w₂.printed :=
        Workspace.printed_record w₂ rfl
      exact hfinished.trans (((printed_found hs).of_ok hf).trans ((printed_start hs).of_ok hb))
  | error e w' =>
    rw [hr] at ho
    cases ho with
    | notStarted hp hb => exact (printed_start hs).of_error hb
    | released hp hb hf hu =>
      have hfound := ((printed_found hs).of_error hf).trans ((printed_start hs).of_ok hb)
      exact ((printed_release hs).of_ok hu).trans hfound
    | notReleased hp hb hf hu =>
      have hfound := ((printed_found hs).of_error hf).trans ((printed_start hs).of_ok hb)
      exact ((printed_release hs).of_error hu).trans hfound

theorem inactive_of_get (hs : s.source = g.source directory) (hm : s.mode ≠ .staged)
    {w w' : Workspace σ π} {paths : List Text} (h : w.memory.stash = none)
    (hget : s.get w = .ok paths w') : w'.memory.stash = none := by
  have ho := s.getOutcome w
  rw [hget] at ho
  cases ho with
  | known hp => exact h
  | made hp hb hf =>
    rw [start_of_not_staged hm] at hb
    cases hb
    exact ((quiet_found hs).of_ok hf).stash.trans h

end Selection

namespace CommandLine

variable {g : Git σ π} {o : Options} {w : Workspace σ π}

/-- The lines that say everything that is asked for: all the selected paths, or the whole plan. -/
def Says (o : Options) (v : View) (checks : List Check) (root : Text) (paths lines : List Text) :
    Prop :=
  if o.listFiles then lines = paths
  else ∃ plan, Plan.make v checks paths (o.command.getD .both) (some root) = .ok plan ∧
    lines = planLines plan

theorem print_ends (lines : List Text) (w : Workspace σ π) : ∃ w',
    (print lines : Run σ π Unit) w = .ok () w' ∧ w'.printed = w.printed ++ lines ∧
      w'.memory = w.memory := by
  refine ⟨_, Run.noteAll_apply _ w, ?_, rfl⟩
  have hlines : (lines.map Event.printed).filterMap Event.printed? = lines := by
    rw [List.filterMap_map]
    exact List.filterMap_some
  rw [Workspace.printed, List.filterMap_append, hlines]
  rfl

variable {checks : List Check} {root : Text} {paths lines : List Text}

theorem tell_of_says (h : Says o w.view checks root paths lines) : ∃ w',
    tell o checks root paths w = .ok () w' ∧ w'.printed = w.printed ++ lines ∧
      w'.memory = w.memory := by
  unfold tell
  unfold Says at h
  split
  · next hlist =>
    rw [if_pos hlist] at h
    subst h
    exact print_ends lines w
  · next hlist =>
    rw [if_neg hlist] at h
    obtain ⟨plan, hplan, rfl⟩ := h
    rw [Run.view_bind, hplan]
    exact print_ends (planLines plan) w

theorem says_or_fails (o : Options) (checks : List Check) (root : Text) (paths : List Text)
    (w : Workspace σ π) :
    (∃ lines, Says o w.view checks root paths lines) ∨
      ∃ e, tell o checks root paths w = .error e w := by
  unfold tell Says
  split
  · exact .inl ⟨paths, rfl⟩
  · rw [Run.view_bind]
    cases hplan : Plan.make w.view checks paths (o.command.getD .both) (some root) with
    | error e => exact .inr ⟨e, rfl⟩
    | ok plan => exact .inl ⟨_, plan, rfl, rfl⟩

/-- All that is asked for, in the workspace of a run that begins. -/
def Complete (g : Git σ π) (o : Options) (w : Workspace σ π) (lines : List Text) : Prop :=
  ∃ config checks s paths w₁ w₂, chooseConfig o w = .ok config w₁ ∧
    chooseChecks config o.checks = .ok checks ∧
    selectionFor g o (o.mode.getD .explicit) config w₁.view = .ok s ∧
    s.get w₁ = .ok paths w₂ ∧
    Says o w₂.view checks (config.root w₁.cwd).text paths lines

/-- Everything that a run can come to, by what it prints. -/
inductive Outcome (g : Git σ π) (o : Options) (w : Workspace σ π) :
    EStateM.Result Failure (Workspace σ π) Unit → Prop
  | nothing {e : Failure} {w' : Workspace σ π} (hw : w'.printed = w.printed) :
    Outcome g o w (.error e w')
  | everything {lines : List Text} {w' : Workspace σ π} (hc : Complete g o w lines)
    (hw : w'.printed = w.printed ++ lines) : Outcome g o w (.ok () w')
  /-- Everything was printed, but then stashed changes could not be put back. -/
  | notRestored {lines : List Text} {w' : Workspace σ π} {patchFile reason : Text}
    (hm : o.mode = some .staged) (hc : Complete g o w lines)
    (hw : w'.printed = w.printed ++ lines) :
    Outcome g o w (.error (.stashRestore patchFile reason) w')

theorem outcome_use {config : Config} {checks : List Check} {s : Selection σ π}
    {w₁ : Workspace σ π} (hconfig : chooseConfig o w = .ok config w₁)
    (hchecks : chooseChecks config o.checks = .ok checks)
    (hsetUp : selectionFor g o (o.mode.getD .explicit) config w₁.view = .ok s)
    (hw₁ : w₁.printed = w.printed) (hstash : w₁.memory.stash = none) :
    Outcome g o w ((s.use (s.get >>= tell o checks (config.root w₁.cwd).text)) w₁) := by
  have hs : s.source = g.source w₁.cwd.text := Selection.source_of_setUp hsetUp
  have hmode : s.mode = o.mode.getD .explicit := by
    obtain ⟨-, filter, -, rfl⟩ := Selection.ok_of_setUp hsetUp
    rfl
  have hfailed {e : Failure} {w₂ : Workspace σ π} (hw₂ : w₂.printed = w₁.printed)
      (hbody : (s.get >>= tell o checks (config.root w₁.cwd).text) w₁ = .error e w₂) :
      Outcome g o w ((s.use (s.get >>= tell o checks (config.root w₁.cwd).text)) w₁) := by
    rw [Selection.use_of_error hbody]
    cases hu : s.release w₂ with
    | ok u w₃ =>
      rw [Run.bind_of_ok hu]
      exact .nothing (((Selection.printed_release hs).of_ok hu).trans (hw₂.trans hw₁))
    | error e' w₃ =>
      rw [Run.bind_of_error hu]
      exact .nothing (((Selection.printed_release hs).of_error hu).trans (hw₂.trans hw₁))
  cases hget : s.get w₁ with
  | error e w₂ =>
    exact hfailed ((Selection.printed_get hs).of_error hget) (Run.bind_of_error hget)
  | ok paths w₂ =>
    have hw₂ := (Selection.printed_get hs).of_ok hget
    rcases says_or_fails o checks (config.root w₁.cwd).text paths w₂ with
      ⟨lines, hsays⟩ | ⟨e, htell⟩
    · obtain ⟨w₃, htell, hw₃, hmemory⟩ := tell_of_says hsays
      have hcomplete : Complete g o w lines :=
        ⟨config, checks, s, paths, w₁, w₂, hconfig, hchecks, hsetUp, hget, hsays⟩
      rw [hw₂, hw₁] at hw₃
      rw [Selection.use_of_ok ((Run.bind_of_ok hget).trans htell)]
      cases hu : s.release w₃ with
      | ok u w₄ =>
        rw [Run.bind_of_ok hu]
        exact .everything hcomplete (((Selection.printed_release hs).of_ok hu).trans hw₃)
      | error e w₄ =>
        rw [Run.bind_of_error hu]
        obtain ⟨patchFile, reason, rfl, hactive⟩ := Selection.release_error hs hu
        have hstaged : o.mode.getD .explicit = .staged := by
          rw [← hmode]
          by_contra hother
          exact hactive (hmemory ▸ Selection.inactive_of_get hs hother hstash hget)
        have hasked : o.mode = some .staged := by
          cases hm : o.mode with
          | none =>
            rw [hm] at hstaged
            cases hstaged
          | some m =>
            rw [hm] at hstaged
            exact congrArg some hstaged
        exact .notRestored hasked hcomplete (((Selection.printed_release hs).of_error hu).trans hw₃)
    · exact hfailed hw₂ ((Run.bind_of_ok hget).trans htell)

theorem outcome (g : Git σ π) (o : Options) {w : Workspace σ π} (h : w.memory.stash = none) :
    Outcome g o w (carryOut g o w) := by
  unfold carryOut
  split
  · exact .nothing rfl
  · obtain ⟨w₁, hchoose, hnoted⟩ := chooseConfig_ends o w
    have hprinted := hnoted.printed
    have hstash : w₁.memory.stash = none := by rw [hnoted.memory, h]
    cases hchosen : chosen o w.view with
    | error e =>
      rw [hchosen] at hchoose
      rw [Run.bind_of_error hchoose]
      exact .nothing hprinted
    | ok config =>
      rw [hchosen] at hchoose
      rw [Run.bind_of_ok hchoose]
      cases hchecks : chooseChecks config o.checks with
      | error e =>
        rw [useConfig_of_unknown_check hchecks]
        exact .nothing hprinted
      | ok checks =>
        cases hsetUp : selectionFor g o (o.mode.getD .explicit) config w₁.view with
        | error e =>
          rw [useConfig_of_not_set_up hchecks hsetUp]
          exact .nothing hprinted
        | ok s =>
          rw [useConfig_of_set_up hchecks hsetUp]
          exact outcome_use hchoose hchecks hsetUp hprinted hstash

-- The plan for a configuration file itself.
namespace Planned

open Plan.Shared (view config path file)

def words : List Text := ["lint", "-c", "tidypaths.toml", "tidypaths.toml"]

def options : Options :=
  { Options.empty with
    command := some .lint, paths := ["tidypaths.toml"], config := some "tidypaths.toml" }

def workspace : Workspace Unit Unit := .start Plan.Shared.view () "/tmp"

def selection : Selection Unit Unit :=
  ⟨.explicit, ["tidypaths.toml"], "/", ⟨[], Config.defaultExcluded, .empty, .root⟩,
    Git.missing.source "/", false⟩

theorem walk_file : Walk.startAll view selection.filter false ["tidypaths.toml"] =
    ⟨[.file ⟨false, [file]⟩], .ok ()⟩ := by
  have hlocate : view.disk.locate (view.absolute "tidypaths.toml") =
      .ok ⟨[file], Disk.maxLinks⟩ := Plan.Shared.locate_file
  have hstart : Walk.start view selection.filter false "tidypaths.toml" =
      ⟨[.file ⟨false, [file]⟩], .ok ()⟩ := by
    rw [Walk.start]
    simp only [hlocate]
    rfl
  exact congrArg (Walk.andThen · Walk.done) hstart

theorem keep_file : selection.filter.keep view [path] = .ok [path] := by
  have hdir : view.isDir path = false := View.isDir_text (v := view) rfl Plan.Shared.locate_file
  have habsolute : view.absolute path = ⟨false, [file]⟩ := View.absolute_text view _
  have hexcludes : selection.filter.excludes ⟨false, [file]⟩ false = .ok false := by
    decide +kernel
  rw [PathFilter.keep_of_decided]
  · rw [List.filter_cons, habsolute, hdir, if_pos (PathFilter.admits_iff.2 hexcludes)]
    rfl
  · intro t ht
    rw [List.mem_singleton.1 ht, habsolute, hdir]
    exact ⟨false, hexcludes⟩

theorem view_keptByLooking :
    Git.missing.KeptByLooking fun w w' : Workspace Unit Unit => w'.view = w.view where
  refl _ := rfl
  trans _ _ _ h h' := h'.trans h
  top _ _ := rfl
  question _ _ _ _ _ := rfl
  diff _ _ _ := rfl
  note _ _ _ _ := rfl

theorem get_file {w : Workspace Unit Unit} (hview : w.view = view)
    (hpaths : w.memory.paths = none) : ∃ w', selection.get w = .ok [path] w' ∧
      w'.view = view ∧ w'.memory.stash = w.memory.stash := by
  have hstarts : selection.mode.startingPaths selection.paths selection.cwd selection.source w =
      .ok ["tidypaths.toml".toList] (w.record (.usingPaths ["tidypaths.toml"])) := rfl
  have hrecord : (w.record (.usingPaths ["tidypaths.toml"])).view = view := hview
  have hwalk : Walk.startAll (w.record (.usingPaths ["tidypaths.toml"])).view selection.filter
      selection.followLinks ["tidypaths.toml"] = ⟨[.file ⟨false, [file]⟩], .ok ()⟩ := by
    rw [hrecord]
    exact walk_file
  have hkeep : selection.filter.keep (w.record (.usingPaths ["tidypaths.toml"])).view
      ((Walk.startAll (w.record (.usingPaths ["tidypaths.toml"])).view selection.filter
        selection.followLinks ["tidypaths.toml"]).files.map AbsPath.text) = .ok [path] := by
    rw [hwalk, hrecord]
    exact keep_file
  obtain ⟨w₁, hfound⟩ := Selection.found_of_walk hstarts (congrArg Walk.ended hwalk) hkeep
  have hget := Selection.get_of_found (show Mode.explicit ≠ .staged by decide) hpaths hfound
  have hchosen : selection.chosen [path] = [path] := by
    rw [Selection.chosen, show List.filter _ _ = [path] from rfl, Text.sorted_singleton]
  rw [hchosen] at hget
  have hsource : selection.source = Git.missing.source "/" := rfl
  exact ⟨_, hget, ((view_keptByLooking.found hsource).of_ok hfound).trans hview,
    ((Selection.quiet_found hsource).of_ok hfound).stash⟩

end Planned

end CommandLine
end PathSelection
