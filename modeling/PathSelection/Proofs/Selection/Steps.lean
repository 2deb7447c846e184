import PathSelection.Proofs.Stash.Steps
import PathSelection.Selection.Basic

namespace PathSelection

variable {σ π α β : Type}

namespace Run

theorem quiet_pure (a : α) : Keeps Workspace.Quiet (pure a : Run σ π α) := keeps_pure .refl a

theorem quiet_lift (r : Except Failure α) : Keeps Workspace.Quiet (lift r : Run σ π α) :=
  keeps_lift .refl r

theorem quiet_bind {x : Run σ π α} {f : α → Run σ π β} (hx : Keeps Workspace.Quiet x)
    (hf : ∀ a, Keeps Workspace.Quiet (f a)) : Keeps Workspace.Quiet (x >>= f) :=
  hx.bind (fun _ _ _ => .trans) hf

theorem quiet_note {e : Event} (he : e.isQuiet = true) :
    Keeps Workspace.Quiet (note e : Run σ π Unit) :=
  fun w => .record w he

theorem quiet_noteAll {es : List Event} (hes : ∀ e ∈ es, e.isQuiet = true) :
    Keeps Workspace.Quiet (noteAll es : Run σ π Unit) := by
  induction es with
  | nil => exact quiet_pure ()
  | cons e es ih =>
    have he := hes e List.mem_cons_self
    have htail := ih fun e' he' => hes e' (List.mem_cons_of_mem _ he')
    exact quiet_bind (quiet_note he) fun _ => htail

theorem quiet_view : Keeps Workspace.Quiet (view : Run σ π View) := .refl

end Run

def Workspace.printed (w : Workspace σ π) : List Text := w.history.filterMap Event.printed?

theorem Workspace.printed_record (w : Workspace σ π) {e : Event} (he : e.printed? = none) :
    (w.record e).printed = w.printed := by
  simp [printed, record, he]

namespace Git

/-- A relation that also holds between the workspaces before and after a note that is neither
printed nor about a patch file. -/
structure KeptByLooking (g : Git σ π) (R : Workspace σ π → Workspace σ π → Prop) : Prop
    extends g.KeptByQuestions R where
  note : ∀ w e, e.isQuiet = true → e.printed? = none → R w (w.record e)

theorem quiet_keptByLooking (g : Git σ π) : g.KeptByLooking Workspace.Quiet where
  toKeptByQuestions := g.quiet_keptByQuestions
  note w _ he _ := .record w he

namespace KeptByLooking

variable {g : Git σ π} {R : Workspace σ π → Workspace σ π → Prop}

theorem noteAll (h : g.KeptByLooking R) {es : List Event}
    (hes : ∀ e ∈ es, e.isQuiet = true ∧ e.printed? = none) :
    Run.Keeps R (Run.noteAll es : Run σ π Unit) := by
  induction es with
  | nil => exact Run.keeps_pure h.refl ()
  | cons e es ih =>
    have hnote : Run.Keeps R (Run.note e : Run σ π Unit) :=
      fun w => h.note w e (hes e List.mem_cons_self).1 (hes e List.mem_cons_self).2
    exact hnote.bind h.trans fun _ => ih fun e' he' => hes e' (List.mem_cons_of_mem e he')

theorem startingPaths (h : g.KeptByLooking R) (m : Mode) (paths : List Text) (cwd : Text)
    (directory : Text) : Run.Keeps R (m.startingPaths paths cwd (g.source directory)) := by
  have hnote {e : Event} {x : Run σ π (List Text)} (he : e.isQuiet = true)
      (hprinted : e.printed? = none) (hx : Run.Keeps R x) :
      Run.Keeps R (Run.note e >>= fun _ => x) :=
    Run.Keeps.bind h.trans (fun w => h.note w e he hprinted) fun _ => hx
  apply Run.Keeps.bind h.trans (Run.keeps_lift h.refl _)
  intro u
  cases m with
  | explicit => exact hnote rfl rfl (Run.keeps_pure h.refl _)
  | all => exact hnote rfl rfl (Run.keeps_pure h.refl _)
  | modified => exact hnote rfl rfl h.modifiedFiles
  | staged => exact hnote rfl rfl h.stagedFiles

theorem found (h : g.KeptByLooking R) {s : Selection σ π} {directory : Text}
    (hs : s.source = g.source directory) : Run.Keeps R s.found := by
  have hwalked (events : List Walk.Event) :
      Run.Keeps R (Run.noteAll (events.map .walked) : Run σ π Unit) := by
    apply h.noteAll
    intro e he
    obtain ⟨event, -, rfl⟩ := List.mem_map.1 he
    exact ⟨rfl, rfl⟩
  rw [Selection.found, hs]
  apply (h.startingPaths s.mode _ _ directory).bind h.trans
  intro starts
  have hview : Run.Keeps R (Run.view : Run σ π View) := h.refl
  apply hview.bind h.trans
  intro v
  apply (hwalked _).bind h.trans
  intro u
  exact (Run.keeps_lift h.refl _).bind h.trans fun _ => Run.keeps_lift h.refl _

end KeptByLooking

/-- A relation that is kept when unstaged changes are stashed, and when they are put back. -/
structure KeptByStashing (g : Git σ π) (R : Workspace σ π → Workspace σ π → Prop) : Prop
    extends g.KeptByLooking R where
  command : ∀ w command directory succeeded git disk,
    R w (w.afterCommand command directory succeeded git disk)
  written : ∀ w patch top, R w (w.written patch top)
  unstashed : ∀ w, R w w.unstashed
  dropped : ∀ w stash, R w (w.dropped stash)

namespace KeptByStashing

variable {g : Git σ π} {R : Workspace σ π → Workspace σ π → Prop}

theorem ran (h : g.KeptByStashing R) {act : σ → Disk → Reply α × σ × Disk} {command : Command}
    {directory : Text} {succeeded : Bool} {w w' : Workspace σ π}
    (hran : Ran act command directory succeeded w w') : R w w' := by
  rw [hran.2]
  exact h.command w _ _ _ _ _

theorem stash (h : g.KeptByStashing R) (directory : Text) :
    Run.Keeps R (g.source directory).stash := by
  have hquestion : Run.Keeps R (g.unstagedChanges directory) := h.unstagedChanges
  intro w
  have ho := g.stashOutcome directory w
  unfold Run.after
  cases hr : (g.source directory).stash w with
  | ok b w' =>
    rw [hr] at ho
    cases ho with
    | active stash hs => exact h.refl w
    | blank hs hu hb => exact h.trans _ _ _ (hquestion.of_ok hu) (h.note _ _ rfl rfl)
    | taken hs hu hb ht hd =>
      exact h.trans _ _ _ (hquestion.of_ok hu) (h.trans _ _ _ (h.written _ _ _) (h.ran hd))
  | error e w' =>
    rw [hr] at ho
    cases ho with
    | unknown hs hu => exact hquestion.of_error hu
    | refused hs hu hb ht hd he =>
      have htaken := h.trans _ _ _ (h.written _ _ _) (h.ran hd)
      exact h.trans _ _ _ (hquestion.of_ok hu) (h.trans _ _ _ htaken (h.dropped _ _))

theorem unstash (h : g.KeptByStashing R) (directory : Text) :
    Run.Keeps R (g.source directory).unstash := by
  have hrestored (w : Workspace σ π) (stash : Stash π) :
      R w ((w.dropped stash).record .restored) :=
    h.trans _ _ _ (h.dropped w stash) (h.note _ _ rfl rfl)
  have hforced {act : σ → Disk → Reply Unit × σ × Disk} {command : Command} {directory : Text}
      {w w' : Workspace σ π} (hran : Ran act command directory false w w') :
      R w (w'.record .conflicted) :=
    h.trans _ _ _ (h.ran hran) (h.note _ _ rfl rfl)
  intro w
  have ho := g.unstashOutcome directory w
  unfold Run.after
  cases hr : (g.source directory).unstash w with
  | ok u w' =>
    rw [hr] at ho
    cases ho with
    | inactive hs => exact h.refl w
    | restored hs ha => exact h.trans _ _ _ (h.ran ha) (hrestored _ _)
    | forced hs ha hd ha' =>
      have hagain := h.trans _ _ _ (h.ran hd) (h.ran ha')
      exact h.trans _ _ _ (hforced ha) (h.trans _ _ _ hagain (hrestored _ _))
  | error e w' =>
    rw [hr] at ho
    cases ho with
    | notDiscarded hs ha hd =>
      exact h.trans _ _ _ (hforced ha) (h.trans _ _ _ (h.ran hd) (h.unstashed _))
    | notReapplied hs ha hd ha' =>
      have hagain := h.trans _ _ _ (h.ran hd) (h.ran ha')
      exact h.trans _ _ _ (hforced ha) (h.trans _ _ _ hagain (h.unstashed _))

end KeptByStashing

theorem paths_keptByStashing (g : Git σ π) :
    g.KeptByStashing (fun w w' : Workspace σ π => w'.memory.paths = w.memory.paths) where
  refl _ := rfl
  trans _ _ _ h h' := h'.trans h
  top _ _ := rfl
  question _ _ _ _ _ := rfl
  diff _ _ _ := rfl
  note _ _ _ _ := rfl
  command _ _ _ _ _ _ := rfl
  written _ _ _ := rfl
  unstashed _ := rfl
  dropped _ _ := rfl

theorem printed_keptByStashing (g : Git σ π) :
    g.KeptByStashing (fun w w' : Workspace σ π => w'.printed = w.printed) where
  refl _ := rfl
  trans _ _ _ h h' := h'.trans h
  top _ _ := rfl
  question _ _ w _ _ := w.printed_record rfl
  diff _ w _ := w.printed_record rfl
  note w _ _ he := w.printed_record he
  command w _ _ _ _ _ := w.printed_record rfl
  written w _ _ := (Workspace.printed_record _ rfl).trans (w.printed_record rfl)
  unstashed _ := rfl
  dropped w _ := w.printed_record rfl

theorem inactive_of_stash_error {g : Git σ π} {directory : Text} {w w' : Workspace σ π}
    {e : Failure} (h : (g.source directory).stash w = .error e w') : w'.memory.stash = none := by
  have ho := g.stashOutcome directory w
  rw [h] at ho
  cases ho with
  | unknown hs hu => exact (g.quiet_keptByQuestions.unstagedChanges.of_error hu).stash.trans hs
  | refused => rfl

end Git

namespace Selection

variable {s : Selection σ π} {g : Git σ π} {directory : Text}

theorem ok_of_setUp {v : View} {mode : Mode} {given excluded ignored : List Text}
    {root : Option Text} {source : ChangeSource σ π} {followLinks : Bool}
    (h : setUp v mode given excluded ignored root source followLinks = .ok s) :
    mode.checkPaths given = .ok () ∧ ∃ filter,
      PathFilter.load v [] excluded ignored root = .ok filter ∧
        s = ⟨mode, given, v.cwd.text, filter, source, followLinks⟩ := by
  rw [setUp] at h
  cases hcheck : mode.checkPaths given with
  | error e =>
    rw [hcheck] at h
    cases h
  | ok u =>
    cases hload : PathFilter.load v [] excluded ignored root with
    | error e =>
      rw [hcheck, hload] at h
      cases h
    | ok filter =>
      rw [hcheck, hload] at h
      cases h
      exact ⟨rfl, filter, rfl, rfl⟩

theorem quiet_found (hs : s.source = g.source directory) : Run.Keeps Workspace.Quiet s.found :=
  g.quiet_keptByLooking.found hs

def finished (paths : List Text) (w : Workspace σ π) : Workspace σ π :=
  { w.record (.selected paths.length) with memory := { w.memory with paths := some paths } }

/-- Everything that asking for the selected paths can come to. -/
inductive GetOutcome (s : Selection σ π) (w : Workspace σ π) :
    EStateM.Result Failure (Workspace σ π) (List Text) → Prop
  | known {paths : List Text} (hp : w.memory.paths = some paths) : GetOutcome s w (.ok paths w)
  | notStarted {e : Failure} {w₁ : Workspace σ π} (hp : w.memory.paths = none)
    (hb : s.start w = .error e w₁) : GetOutcome s w (.error e w₁)
  | made {paths : List Text} {w₁ w₂ : Workspace σ π} (hp : w.memory.paths = none)
    (hb : s.start w = .ok () w₁) (hf : s.found w₁ = .ok paths w₂) :
    GetOutcome s w (.ok (s.chosen paths) (finished (s.chosen paths) w₂))
  | released {e : Failure} {w₁ w₂ w₃ : Workspace σ π} (hp : w.memory.paths = none)
    (hb : s.start w = .ok () w₁) (hf : s.found w₁ = .error e w₂)
    (hu : s.release w₂ = .ok () w₃) : GetOutcome s w (.error e w₃)
  | notReleased {e e' : Failure} {w₁ w₂ w₃ : Workspace σ π} (hp : w.memory.paths = none)
    (hb : s.start w = .ok () w₁) (hf : s.found w₁ = .error e w₂)
    (hu : s.release w₂ = .error e' w₃) : GetOutcome s w (.error e' w₃)

theorem get_of_known {w : Workspace σ π} {paths : List Text} (h : w.memory.paths = some paths) :
    s.get w = .ok paths w := by
  rw [get, Run.get_bind, h]
  rfl

theorem get_of_unknown {w : Workspace σ π} (h : w.memory.paths = none) :
    s.get w = (s.make >>= fun paths => do
      modify fun w => { w with memory := { w.memory with paths := some paths } }
      return paths) w := by
  rw [get, Run.get_bind, h]

theorem getOutcome (s : Selection σ π) (w : Workspace σ π) : GetOutcome s w (s.get w) := by
  cases hp : w.memory.paths with
  | some paths =>
    rw [get_of_known hp]
    exact .known hp
  | none =>
    rw [get_of_unknown hp, make, bind_assoc]
    cases hb : s.start w with
    | error e w₁ =>
      rw [Run.bind_of_error hb]
      exact .notStarted hp hb
    | ok u w₁ =>
      rw [Run.bind_of_ok hb, continued, bind_assoc]
      cases hf : s.found w₁ with
      | ok paths w₂ =>
        rw [Run.bind_of_ok (Run.tryCatch_of_ok hf)]
        exact .made hp hb hf
      | error e w₂ =>
        cases hu : s.release w₂ with
        | ok u w₃ =>
          have hc := (Run.tryCatch_of_error (f := fun e => do s.source.unstash; throw e) hf).trans
            (Run.bind_of_ok (f := fun _ => throw e) hu)
          rw [Run.bind_of_error (hc.trans rfl)]
          exact .released hp hb hf hu
        | error e' w₃ =>
          have hc := (Run.tryCatch_of_error (f := fun e => do s.source.unstash; throw e) hf).trans
            (Run.bind_of_error (f := fun _ => throw e) hu)
          rw [Run.bind_of_error hc]
          exact .notReleased hp hb hf hu

theorem start_of_staged {w : Workspace σ π} (hm : s.mode = .staged)
    (h : w.memory.stash = none) : s.start w = (do let _ ← s.source.stash) w := by
  have hset : (Stash.setActive none : Run σ π Unit) w = .ok () w := by
    have hw : { w with memory := { w.memory with stash := none } } = w := by
      cases w with
      | mk disk cwd git patchDirectory patches nextPatch memory history =>
        cases memory with
        | mk top stash paths =>
          cases h
          rfl
    exact congrArg (EStateM.Result.ok ()) hw
  rw [start, if_pos hm, Run.bind_of_ok hset]

theorem start_of_not_staged {w : Workspace σ π} (hm : s.mode ≠ .staged) :
    s.start w = .ok () w := by
  rw [start, if_neg hm]
  rfl

end Selection
end PathSelection
