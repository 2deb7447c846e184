import PathSelection.Proofs.Git.Commands

namespace PathSelection

variable {σ π α : Type}

/-- Whether an event neither makes a patch file nor removes one. -/
def Event.isQuiet : Event → Bool
  | .patchWritten _ | .patchRemoved _ => false
  | _ => true

namespace Workspace

/-- From one workspace to the other the stash and the patch files are left alone. -/
structure Quiet (w w' : Workspace σ π) : Prop where
  patchDirectory : w'.patchDirectory = w.patchDirectory
  patches : w'.patches = w.patches
  nextPatch : w'.nextPatch = w.nextPatch
  stash : w'.memory.stash = w.memory.stash
  paths : w'.memory.paths = w.memory.paths
  history : ∃ es, w'.history = w.history ++ es ∧ ∀ e ∈ es, e.isQuiet = true

theorem Quiet.refl (w : Workspace σ π) : w.Quiet w :=
  ⟨rfl, rfl, rfl, rfl, rfl, [], (List.append_nil _).symm, nofun⟩

theorem Quiet.trans {u v w : Workspace σ π} (h₁ : u.Quiet v) (h₂ : v.Quiet w) : u.Quiet w := by
  obtain ⟨es₁, he₁, hq₁⟩ := h₁.history
  obtain ⟨es₂, he₂, hq₂⟩ := h₂.history
  refine ⟨h₂.patchDirectory.trans h₁.patchDirectory, h₂.patches.trans h₁.patches,
    h₂.nextPatch.trans h₁.nextPatch, h₂.stash.trans h₁.stash, h₂.paths.trans h₁.paths,
    es₁ ++ es₂, ?_, ?_⟩
  · rw [he₂, he₁, List.append_assoc]
  · intro e he
    rcases List.mem_append.1 he with he | he
    · exact hq₁ e he
    · exact hq₂ e he

theorem Quiet.record (w : Workspace σ π) {e : Event} (he : e.isQuiet = true) :
    w.Quiet (w.record e) := by
  refine ⟨rfl, rfl, rfl, rfl, rfl, [e], rfl, ?_⟩
  intro e' he'
  rw [List.mem_singleton.1 he', he]

theorem Quiet.afterCommand (w : Workspace σ π) (command : Git.Command) (directory : Text)
    (succeeded : Bool) (git : σ) (disk : Disk) :
    w.Quiet (w.afterCommand command directory succeeded git disk) := by
  refine ⟨rfl, rfl, rfl, rfl, rfl, [.ran command directory succeeded], rfl, ?_⟩
  intro e he
  rw [List.mem_singleton.1 he]
  rfl

theorem Quiet.patchPath {w w' : Workspace σ π} (h : w.Quiet w') : w'.patchPath = w.patchPath := by
  funext n
  rw [Workspace.patchPath, h.patchDirectory]
  rfl

def written (w : Workspace σ π) (patch : π) (top : WrittenPath) : Workspace σ π :=
  (({ w with
      patches := (w.nextPatch, patch) :: w.patches
      nextPatch := w.nextPatch + 1
      memory := { w.memory with stash := some ⟨w.nextPatch, patch, top⟩ } } :
        Workspace σ π).record (.patchWritten w.nextPatch)).record
    (.stashed (w.patchPath w.nextPatch))

def unstashed (w : Workspace σ π) : Workspace σ π :=
  { w with memory := { w.memory with stash := none } }

def dropped (w : Workspace σ π) (stash : Stash π) : Workspace σ π :=
  ({ w.unstashed with patches := w.patches.filter fun p => p.1 != stash.file } :
    Workspace σ π).record (.patchRemoved stash.file)

end Workspace

theorem Stash.active_bind (f : Option (Stash π) → Run σ π α) (w : Workspace σ π) :
    (Stash.active >>= f) w = f w.memory.stash w :=
  rfl

theorem ChangeSource.stash_of_active {s : ChangeSource σ π} {w : Workspace σ π} {stash : Stash π}
    (hs : w.memory.stash = some stash) : s.stash w = .ok true w := by
  rw [ChangeSource.stash, Stash.active_bind, hs]
  rfl

theorem ChangeSource.unstash_of_inactive {s : ChangeSource σ π} {w : Workspace σ π}
    (hs : w.memory.stash = none) : s.unstash w = .ok () w := by
  rw [ChangeSource.unstash, Stash.active_bind, hs]
  rfl

theorem Git.quiet_keptByQuestions (g : Git σ π) : g.KeptByQuestions Workspace.Quiet where
  refl := .refl
  trans _ _ _ := .trans
  top _ _ := ⟨rfl, rfl, rfl, rfl, rfl, [], (List.append_nil _).symm, nofun⟩
  question command directory w succeeded _ := .afterCommand w command directory succeeded _ _
  diff directory w succeeded := .afterCommand w .diff directory succeeded _ _

namespace Git

def Ran (act : σ → Disk → Reply α × σ × Disk) (command : Command) (directory : Text)
    (succeeded : Bool) (w w' : Workspace σ π) : Prop :=
  (act w.git w.disk).1.succeeds [0] = succeeded ∧
    w' = w.afterCommand command directory succeeded (act w.git w.disk).2.1 (act w.git w.disk).2.2

theorem Ran.quiet {act : σ → Disk → Reply α × σ × Disk} {command : Command} {directory : Text}
    {succeeded : Bool} {w w' : Workspace σ π} (h : Ran act command directory succeeded w w') :
    w.Quiet w' := by
  rw [h.2]
  exact .afterCommand w command directory succeeded _ _

theorem ran_of_perform_ok {act : σ → Disk → Reply α × σ × Disk} {command : Command}
    {directory : Text} {output : α} {w w' : Workspace σ π}
    (h : perform command directory [0] act w = .ok output w') :
    Ran act command directory true w w' := by
  obtain ⟨code, errors, git, disk, ha, hc, hw⟩ := perform_ok h
  rw [Ran, ha]
  exact ⟨decide_eq_true hc, hw⟩

theorem ran_of_perform_error {act : σ → Disk → Reply α × σ × Disk} {command : Command}
    {directory : Text} {e : Failure} {w w' : Workspace σ π}
    (h : perform command directory [0] act w = .error e w') :
    Ran act command directory false w w' := by
  obtain ⟨reply, git, disk, errors, ha, hr, he, hw⟩ := perform_error h
  rw [Ran, ha]
  exact ⟨hr, hw⟩

/-- The tracked files were given their staged content, or this failed. -/
def Discarded (g : Git σ π) (top : WrittenPath) : Bool → Workspace σ π → Workspace σ π → Prop :=
  Ran (g.run .checkout top.text) .checkout top.text

/-- The patch of a stash was applied from its patch file, or this failed. -/
def Reapplied (g : Git σ π) (patchFile : Text) (stash : Stash π) :
    Bool → Workspace σ π → Workspace σ π → Prop :=
  Ran (g.apply patchFile stash.patch stash.top.text) (.apply patchFile) stash.top.text

theorem discarded_of_ok {g : Git σ π} {top : WrittenPath} {w w' : Workspace σ π} {u : Unit}
    (h : g.discardChanges top w = .ok u w') : g.Discarded top true w w' := by
  cases ha : g.ask .checkout top.text [0] w with
  | ok output w₁ =>
    rw [discardChanges, Run.bind_of_ok ha] at h
    cases h
    exact ran_of_perform_ok ha
  | error e w₁ =>
    rw [discardChanges, Run.bind_of_error ha] at h
    cases h

theorem discarded_of_error {g : Git σ π} {top : WrittenPath} {w w' : Workspace σ π} {e : Failure}
    (h : g.discardChanges top w = .error e w') : g.Discarded top false w w' := by
  cases ha : g.ask .checkout top.text [0] w with
  | ok output w₁ =>
    rw [discardChanges, Run.bind_of_ok ha] at h
    cases h
  | error e w₁ =>
    rw [discardChanges, Run.bind_of_error ha] at h
    cases h
    exact ran_of_perform_error ha

theorem failsWith_discardChanges {g : Git σ π} {top : WrittenPath} :
    Run.FailsWith IsGitFailure (g.discardChanges top) :=
  failsWith_perform.bind fun _ => Run.failsWith_pure _

theorem reapplied_of_ok {g : Git σ π} {patchFile : Text} {stash : Stash π} {w w' : Workspace σ π}
    {u : Unit} (h : g.applyPatch stash.top patchFile stash.patch w = .ok u w') :
    g.Reapplied patchFile stash true w w' :=
  ran_of_perform_ok h

theorem reapplied_of_error {g : Git σ π} {patchFile : Text} {stash : Stash π}
    {w w' : Workspace σ π} {e : Failure}
    (h : g.applyPatch stash.top patchFile stash.patch w = .error e w') :
    g.Reapplied patchFile stash false w w' :=
  ran_of_perform_error h

/-- Everything that stashing can come to. -/
inductive StashOutcome (g : Git σ π) (directory : Text) (w : Workspace σ π) :
    EStateM.Result Failure (Workspace σ π) Bool → Prop
  | active (stash : Stash π) (hs : w.memory.stash = some stash) :
    StashOutcome g directory w (.ok true w)
  /-- Git did not give the unstaged changes. -/
  | unknown {e : Failure} {w₁ : Workspace σ π} (hs : w.memory.stash = none)
    (hu : g.unstagedChanges directory w = .error e w₁) :
    StashOutcome g directory w (.error e w₁)
  /-- There are no unstaged changes. -/
  | blank {patch : π} {w₁ : Workspace σ π} (hs : w.memory.stash = none)
    (hu : g.unstagedChanges directory w = .ok patch w₁) (hb : g.isBlank patch = true) :
    StashOutcome g directory w (.ok false (w₁.record .nothingToStash))
  | taken {patch : π} {top : WrittenPath} {w₁ w₂ : Workspace σ π} (hs : w.memory.stash = none)
    (hu : g.unstagedChanges directory w = .ok patch w₁) (hb : g.isBlank patch = false)
    (ht : w₁.memory.top = some top) (hd : g.Discarded top true (w₁.written patch top) w₂) :
    StashOutcome g directory w (.ok true w₂)
  /-- The changes were saved, but could not be taken out of the files. -/
  | refused {patch : π} {top : WrittenPath} {w₁ w₂ : Workspace σ π} {e : Failure}
    (hs : w.memory.stash = none) (hu : g.unstagedChanges directory w = .ok patch w₁)
    (hb : g.isBlank patch = false) (ht : w₁.memory.top = some top)
    (hd : g.Discarded top false (w₁.written patch top) w₂) (he : IsGitFailure e) :
    StashOutcome g directory w (.error e (w₂.dropped ⟨w₁.nextPatch, patch, top⟩))

/-- Everything that unstashing can come to. -/
inductive UnstashOutcome (g : Git σ π) (w : Workspace σ π) :
    EStateM.Result Failure (Workspace σ π) Unit → Prop
  | inactive (hs : w.memory.stash = none) : UnstashOutcome g w (.ok () w)
  | restored {stash : Stash π} {w₁ : Workspace σ π} (hs : w.memory.stash = some stash)
    (ha : g.Reapplied (w.patchPath stash.file) stash true w w₁) :
    UnstashOutcome g w (.ok () ((w₁.dropped stash).record .restored))
  /-- The patch applied once the changes in its way had been given up. -/
  | forced {stash : Stash π} {w₁ w₂ w₃ : Workspace σ π} (hs : w.memory.stash = some stash)
    (ha : g.Reapplied (w.patchPath stash.file) stash false w w₁)
    (hd : g.Discarded stash.top true (w₁.record .conflicted) w₂)
    (ha' : g.Reapplied (w.patchPath stash.file) stash true w₂ w₃) :
    UnstashOutcome g w (.ok () ((w₃.dropped stash).record .restored))
  | notDiscarded {stash : Stash π} {w₁ w₂ : Workspace σ π} {reason : Text}
    (hs : w.memory.stash = some stash)
    (ha : g.Reapplied (w.patchPath stash.file) stash false w w₁)
    (hd : g.Discarded stash.top false (w₁.record .conflicted) w₂) :
    UnstashOutcome g w (.error (.stashRestore (w.patchPath stash.file) reason) w₂.unstashed)
  | notReapplied {stash : Stash π} {w₁ w₂ w₃ : Workspace σ π} {reason : Text}
    (hs : w.memory.stash = some stash)
    (ha : g.Reapplied (w.patchPath stash.file) stash false w w₁)
    (hd : g.Discarded stash.top true (w₁.record .conflicted) w₂)
    (ha' : g.Reapplied (w.patchPath stash.file) stash false w₂ w₃) :
    UnstashOutcome g w (.error (.stashRestore (w.patchPath stash.file) reason) w₃.unstashed)

theorem stashOutcome (g : Git σ π) (directory : Text) (w : Workspace σ π) :
    StashOutcome g directory w ((g.source directory).stash w) := by
  rw [ChangeSource.stash, Stash.active_bind]
  cases hs : w.memory.stash with
  | some stash => exact .active stash hs
  | none =>
    simp only [Option.isSome_none, Bool.false_eq_true, if_false]
    cases hu : g.unstagedChanges directory w with
    | error e w₁ =>
      rw [Run.bind_of_error (x := (g.source directory).unstaged) hu]
      exact .unknown hs hu
    | ok patch w₁ =>
      rw [Run.bind_of_ok (x := (g.source directory).unstaged) hu]
      cases hb : g.isBlank patch with
      | true =>
        rw [if_pos (show (g.source directory).isBlank patch = true from hb)]
        exact .blank hs hu hb
      | false =>
        obtain ⟨top, ht⟩ := top_of_unstagedChanges hu
        rw [if_neg (show ¬(g.source directory).isBlank patch = true from Bool.not_eq_true _ ▸ hb),
          Run.bind_of_ok (x := (g.source directory).top) (topLevel_of_known ht),
          Run.bind_of_ok (show Stash.write patch top w₁ = .ok _ (w₁.written patch top) from rfl)]
        cases hd : g.discardChanges top (w₁.written patch top) with
        | ok u w₂ =>
          rw [Run.bind_of_ok (Run.tryCatch_of_ok (x := (g.source directory).discard top) hd)]
          exact .taken hs hu hb ht (discarded_of_ok hd)
        | error e w₂ =>
          have hc : tryCatch ((g.source directory).discard top) (fun e => do
                Stash.drop ⟨w₁.nextPatch, patch, top⟩
                throw e) (w₁.written patch top) =
              .error e (w₂.dropped ⟨w₁.nextPatch, patch, top⟩) :=
            Run.tryCatch_of_error (x := (g.source directory).discard top) hd
          rw [Run.bind_of_error hc]
          exact .refused hs hu hb ht (discarded_of_error hd) (failsWith_discardChanges _ _ _ hd)

theorem forceBack_apply (s : ChangeSource σ π) (stash : Stash π) (patchFile : Text)
    (w : Workspace σ π) :
    s.forceBack stash patchFile w =
      match (s.discard stash.top >>= fun _ => s.reapply stash.top patchFile stash.patch)
        (w.record .conflicted) with
      | .ok u w' => .ok u w'
      | .error e w' => .error (.stashRestore patchFile e.message) w'.unstashed := by
  rw [ChangeSource.forceBack, Run.note_bind]
  split
  · next u w' h => exact Run.tryCatch_of_ok h
  · next e w' h => exact Run.tryCatch_of_error h

theorem unstashOutcome (g : Git σ π) (directory : Text) (w : Workspace σ π) :
    UnstashOutcome g w ((g.source directory).unstash w) := by
  rw [ChangeSource.unstash, Stash.active_bind]
  cases hs : w.memory.stash with
  | none => exact .inactive hs
  | some stash =>
    simp only
    let path := w.patchPath stash.file
    let s := g.source directory
    rw [Run.get_bind]
    cases ha : s.reapply stash.top path stash.patch w with
    | ok u w₁ =>
      rw [Run.bind_of_ok (Run.tryCatch_of_ok ha)]
      exact .restored hs (reapplied_of_ok ha)
    | error e w₁ =>
      have hforce := (Run.tryCatch_of_error (f := fun _ => s.forceBack stash path) ha).trans
        (forceBack_apply s stash path w₁)
      cases hd : s.discard stash.top (w₁.record .conflicted) with
      | error e₂ w₂ =>
        rw [Run.bind_of_error hd] at hforce
        rw [Run.bind_of_error hforce]
        exact .notDiscarded hs (reapplied_of_error ha) (discarded_of_error hd)
      | ok u w₂ =>
        rw [Run.bind_of_ok hd] at hforce
        cases ha' : s.reapply stash.top path stash.patch w₂ with
        | error e₃ w₃ =>
          rw [ha'] at hforce
          rw [Run.bind_of_error hforce]
          exact .notReapplied hs (reapplied_of_error ha) (discarded_of_ok hd)
            (reapplied_of_error ha')
        | ok u w₃ =>
          rw [ha'] at hforce
          rw [Run.bind_of_ok hforce]
          exact .forced hs (reapplied_of_error ha) (discarded_of_ok hd) (reapplied_of_ok ha')

theorem unstash_inactive (g : Git σ π) (directory : Text) (w : Workspace σ π) :
    (Run.after (g.source directory).unstash w).memory.stash = none ∧
      ∀ e ∈ Run.raised (g.source directory).unstash w, ∃ reason stash,
        e = .stashRestore (w.patchPath stash.file) reason ∧ w.memory.stash = some stash := by
  have ho := g.unstashOutcome directory w
  unfold Run.after Run.raised
  cases hr : (g.source directory).unstash w with
  | ok u w' =>
    rw [hr] at ho
    refine ⟨?_, nofun⟩
    cases ho with
    | inactive hs => exact hs
    | restored => rfl
    | forced => rfl
  | error e w' =>
    rw [hr] at ho
    simp only [List.mem_singleton, forall_eq]
    cases ho with
    | notDiscarded hs => exact ⟨rfl, _, _, rfl, hs⟩
    | notReapplied hs => exact ⟨rfl, _, _, rfl, hs⟩

end Git
end PathSelection
