import PathSelection.Proofs.Run
import PathSelection.Stash

namespace PathSelection

variable {σ π α : Type}

def Workspace.afterCommand (w : Workspace σ π) (command : Git.Command) (directory : Text)
    (succeeded : Bool) (git : σ) (disk : Disk) : Workspace σ π :=
  ({ w with git, disk } : Workspace σ π).record (.ran command directory succeeded)

def Workspace.withTop (w : Workspace σ π) (top : WrittenPath) : Workspace σ π :=
  { w with memory := { w.memory with top := some top } }

namespace Git

/-- Whether a command only asks. A comparison whose answer is a patch is a command of its own. -/
def Command.isQuestion : Command → Bool
  | .topLevel | .head | .changed _ | .untracked | .refresh => true
  | .diff | .checkout | .apply _ | .other _ => false

theorem Reply.succeeds_eq_true {r : Reply α} {codes : List Int} (h : r.succeeds codes = true) :
    ∃ code output errors, r = .exited code output errors ∧ code ∈ codes := by
  cases r with
  | notStarted reason => cases h
  | exited code output errors => exact ⟨code, output, errors, rfl, of_decide_eq_true h⟩

variable {command : Command} {directory : Text} {codes : List Int}
  {act : σ → Disk → Reply α × σ × Disk} {w w' : Workspace σ π}

theorem perform_of_succeeds {code : Int} {output : α} {errors : Text} {git : σ} {disk : Disk}
    (h : act w.git w.disk = (.exited code output errors, git, disk)) (hc : code ∈ codes) :
    perform command directory codes act w =
      .ok output (w.afterCommand command directory true git disk) := by
  rw [perform, Run.get_bind, h]
  simp only [Run.set_bind, Reply.succeeds, decide_eq_true hc, if_pos hc]
  rfl

theorem perform_of_fails {reply : Reply α} {git : σ} {disk : Disk}
    (h : act w.git w.disk = (reply, git, disk)) (hr : reply.succeeds codes = false) :
    ∃ errors, perform command directory codes act w =
      .error (.git command.line errors) (w.afterCommand command directory false git disk) := by
  rw [perform, Run.get_bind, h]
  simp only [Run.set_bind, hr]
  cases reply with
  | notStarted reason => exact ⟨reason, rfl⟩
  | exited code output errors =>
    have hc : code ∉ codes := of_decide_eq_false hr
    simp only [if_neg hc]
    exact ⟨errors, rfl⟩

theorem perform_ok {output : α} (h : perform command directory codes act w = .ok output w') :
    ∃ code errors git disk, act w.git w.disk = (.exited code output errors, git, disk) ∧
      code ∈ codes ∧ w' = w.afterCommand command directory true git disk := by
  rcases ha : act w.git w.disk with ⟨reply, git, disk⟩
  cases hr : reply.succeeds codes with
  | true =>
    obtain ⟨code, output', errors, rfl, hc⟩ := Reply.succeeds_eq_true hr
    rw [perform_of_succeeds ha hc] at h
    cases h
    exact ⟨code, errors, git, disk, rfl, hc, rfl⟩
  | false =>
    obtain ⟨errors, he⟩ : ∃ errors, perform command directory codes act w = .error _ _ :=
      perform_of_fails ha hr
    rw [he] at h
    cases h

theorem perform_error {e : Failure} (h : perform command directory codes act w = .error e w') :
    ∃ reply git disk errors, act w.git w.disk = (reply, git, disk) ∧
      reply.succeeds codes = false ∧ e = .git command.line errors ∧
      w' = w.afterCommand command directory false git disk := by
  rcases ha : act w.git w.disk with ⟨reply, git, disk⟩
  cases hr : reply.succeeds codes with
  | true =>
    obtain ⟨code, output, errors, rfl, hc⟩ := Reply.succeeds_eq_true hr
    rw [perform_of_succeeds ha hc] at h
    cases h
  | false =>
    obtain ⟨errors, he⟩ : ∃ errors, perform command directory codes act w = .error _ _ :=
      perform_of_fails ha hr
    rw [he] at h
    cases h
    exact ⟨reply, git, disk, errors, rfl, hr, rfl, rfl⟩

theorem keeps_perform {R : Workspace σ π → Workspace σ π → Prop}
    (h : ∀ w succeeded, R w (w.afterCommand command directory succeeded (act w.git w.disk).2.1
      (act w.git w.disk).2.2)) : Run.Keeps R (perform command directory codes act) := by
  intro w
  cases hp : perform command directory codes act w with
  | ok output w' =>
    obtain ⟨code, errors, git, disk, ha, hc, hw⟩ := perform_ok hp
    rw [Run.after_of_ok hp, hw]
    simpa only [ha] using h w true
  | error e w' =>
    obtain ⟨reply, git, disk, errors, ha, hr, he, hw⟩ := perform_error hp
    rw [Run.after_of_error hp, hw]
    simpa only [ha] using h w false

theorem ok_of_decode {output : ByteArray} {answer : Text}
    (h : (decode command output : Run σ π Text) w = .ok answer w') :
    ∃ s, String.fromUTF8? output = some s ∧ answer = s.toList := by
  rw [decode] at h
  cases hs : String.fromUTF8? output with
  | some s =>
    rw [hs] at h
    cases h
    exact ⟨s, rfl, rfl⟩
  | none =>
    rw [hs] at h
    cases h

variable {g : Git σ π}

theorem ask_of_exited {code : Int} {output : ByteArray} {errors : Text}
    (h : (g.run command directory w.git w.disk).1 = .exited code output errors)
    (hc : code ∈ codes) : g.ask command directory codes w =
      .ok output (w.afterCommand command directory true (g.run command directory w.git w.disk).2.1
        (g.run command directory w.git w.disk).2.2) :=
  perform_of_succeeds (Prod.ext h rfl) hc

theorem topLevel_of_known {top : WrittenPath} (h : w.memory.top = some top) :
    g.topLevel directory w = .ok top w := by
  rw [topLevel, Run.get_bind, h]
  rfl

/-- What is kept of git's answer about the top level. -/
def tellTop (answer : Text) : Run σ π WrittenPath :=
  if answer = [] then throw (.git Command.topLevel.shortLine "empty output")
  else do
    modify fun w => w.withTop (.ofText answer)
    return .ofText answer

theorem topLevel_of_unknown (h : w.memory.top = none) :
    g.topLevel directory w = (g.ask .topLevel directory [0] >>= fun output =>
      decode .topLevel output >>= fun answer => tellTop answer.strip) w := by
  rw [topLevel, Run.get_bind]
  simp only [h]
  cases ha : g.ask .topLevel directory [0] w with
  | error e w₁ => rw [Run.bind_of_error ha, Run.bind_of_error ha]
  | ok output w₁ =>
    rw [Run.bind_of_ok ha, Run.bind_of_ok ha]
    cases hd : (decode .topLevel output : Run σ π Text) w₁ with
    | error e w₂ => rw [Run.bind_of_error hd, Run.bind_of_error hd]
    | ok answer w₂ =>
      rw [Run.bind_of_ok hd, Run.bind_of_ok hd, tellTop]
      split <;> rfl

theorem top_of_topLevel {top : WrittenPath} (h : g.topLevel directory w = .ok top w') :
    w'.memory.top = some top := by
  cases ht : w.memory.top with
  | some known =>
    rw [topLevel_of_known ht] at h
    cases h
    exact ht
  | none =>
    rw [topLevel_of_unknown ht] at h
    obtain ⟨output, w₁, -, h⟩ := Run.ok_of_bind h
    obtain ⟨answer, w₂, -, h⟩ := Run.ok_of_bind h
    unfold tellTop at h
    split at h
    · cases h
    · cases h
      rfl

theorem ok_of_unstagedChanges {patch : π} (h : g.unstagedChanges directory w = .ok patch w') :
    ∃ top w₁ output w₂, g.topLevel directory w = .ok top w₁ ∧
      g.ask .refresh top.text [0, 1] w₁ = .ok output w₂ ∧
      perform .diff top.text [0] (g.diff top.text) w₂ = .ok patch w' := by
  obtain ⟨top, w₁, ht, h⟩ := Run.ok_of_bind h
  obtain ⟨output, w₂, hr, h⟩ := Run.ok_of_bind h
  exact ⟨top, w₁, output, w₂, ht, hr, h⟩

theorem top_of_unstagedChanges {patch : π} (h : g.unstagedChanges directory w = .ok patch w') :
    ∃ top, w'.memory.top = some top := by
  obtain ⟨top, w₁, output, w₂, ht, hr, h⟩ := ok_of_unstagedChanges h
  have hw := top_of_topLevel ht
  obtain ⟨_, _, _, _, -, -, rfl⟩ := perform_ok hr
  obtain ⟨_, _, _, _, -, -, rfl⟩ := perform_ok h
  exact ⟨top, hw⟩

/-- Whether git is to blame for a failure. -/
def IsGitFailure (e : Failure) : Prop := ∃ command errors, e = .git command errors

theorem failsWith_perform :
    Run.FailsWith IsGitFailure (perform command directory codes act : Run σ π α) := by
  intro w e w' h
  obtain ⟨reply, git, disk, errors, ha, hr, he, hw⟩ := perform_error h
  exact ⟨_, _, he⟩

theorem failsWith_decode (output : ByteArray) :
    Run.FailsWith IsGitFailure (decode command output : Run σ π Text) := by
  unfold decode
  split
  · exact Run.failsWith_pure _
  · exact Run.failsWith_throw ⟨_, _, rfl⟩

theorem failsWith_topLevel : Run.FailsWith IsGitFailure (g.topLevel directory) := by
  have htell (answer : Text) :
      Run.FailsWith IsGitFailure (tellTop answer : Run σ π WrittenPath) := by
    unfold tellTop
    split
    · exact Run.failsWith_throw ⟨_, _, rfl⟩
    · intro w e w' h
      cases h
  intro w e w' h
  cases ht : w.memory.top with
  | some top =>
    rw [topLevel_of_known ht] at h
    cases h
  | none =>
    rw [topLevel_of_unknown ht] at h
    exact failsWith_perform.bind (fun output => (failsWith_decode output).bind fun _ => htell _)
      w e w' h

theorem failsWith_unstagedChanges : Run.FailsWith IsGitFailure (g.unstagedChanges directory) :=
  failsWith_topLevel.bind fun _ => failsWith_perform.bind fun _ => failsWith_perform

/-- A relation that holds between the workspaces before and after whatever is asked of git. -/
structure KeptByQuestions (g : Git σ π) (R : Workspace σ π → Workspace σ π → Prop) : Prop where
  refl : ∀ w, R w w
  trans : ∀ u v w, R u v → R v w → R u w
  top : ∀ w top, R w (w.withTop top)
  question : ∀ (command : Command) directory w succeeded, command.isQuestion = true →
    R w (w.afterCommand command directory succeeded (g.run command directory w.git w.disk).2.1
      (g.run command directory w.git w.disk).2.2)
  diff : ∀ directory w succeeded,
    R w (w.afterCommand .diff directory succeeded (g.diff directory w.git w.disk).2.1
      (g.diff directory w.git w.disk).2.2)

namespace KeptByQuestions

variable {R : Workspace σ π → Workspace σ π → Prop}

theorem ask (h : KeptByQuestions g R) (hc : command.isQuestion = true) :
    Run.Keeps R (g.ask command directory codes) :=
  keeps_perform fun w succeeded => h.question command directory w succeeded hc

theorem decode (h : KeptByQuestions g R) (output : ByteArray) :
    Run.Keeps R (Git.decode command output : Run σ π Text) := by
  unfold Git.decode
  split
  · exact Run.keeps_pure h.refl _
  · exact Run.keeps_throw h.refl _

theorem topLevel (h : KeptByQuestions g R) : Run.Keeps R (g.topLevel directory) := by
  have htell (answer : Text) : Run.Keeps R (tellTop answer : Run σ π WrittenPath) := by
    unfold tellTop
    split
    · exact Run.keeps_throw h.refl _
    · exact fun w => h.top w _
  intro w
  cases ht : w.memory.top with
  | some top =>
    rw [Run.after_of_ok (topLevel_of_known ht)]
    exact h.refl w
  | none =>
    rw [Run.after, topLevel_of_unknown ht]
    exact (h.ask rfl).bind h.trans (fun output =>
      (h.decode output).bind h.trans fun _ => htell _) w

theorem askText (h : KeptByQuestions g R) (hc : command.isQuestion = true) :
    Run.Keeps R (g.askText directory command) :=
  h.topLevel.bind h.trans fun _ => (h.ask hc).bind h.trans h.decode

theorem askNames (h : KeptByQuestions g R) (hc : command.isQuestion = true) :
    Run.Keeps R (g.askNames directory command) :=
  (h.askText hc).bind h.trans fun _ => Run.keeps_pure h.refl _

theorem located (h : KeptByQuestions g R) (names : List Text) :
    Run.Keeps R (g.located directory names) :=
  h.topLevel.bind h.trans fun _ => Run.keeps_pure h.refl _

theorem stagedFiles (h : KeptByQuestions g R) : Run.Keeps R (g.stagedFiles directory) :=
  (h.askNames rfl).bind h.trans h.located

theorem hasHead (h : KeptByQuestions g R) : Run.Keeps R (g.hasHead directory) :=
  (h.ask rfl).bind h.trans fun _ => Run.keeps_pure h.refl _

theorem modifiedFiles (h : KeptByQuestions g R) : Run.Keeps R (g.modifiedFiles directory) := by
  have hrest (names : List Text) : Run.Keeps R (do
      let untracked ← g.askNames directory .untracked
      g.located directory (names ++ untracked) : Run σ π (List Text)) :=
    (h.askNames rfl).bind h.trans fun _ => h.located _
  apply h.hasHead.bind h.trans
  intro hasHead
  split
  · exact (h.askNames rfl).bind h.trans hrest
  · exact (h.askNames rfl).bind h.trans fun _ => (h.askNames rfl).bind h.trans fun _ => hrest _

theorem unstagedChanges (h : KeptByQuestions g R) : Run.Keeps R (g.unstagedChanges directory) :=
  h.topLevel.bind h.trans fun _ => (h.ask rfl).bind h.trans fun _ =>
    keeps_perform (h.diff _)

end KeptByQuestions
end Git
end PathSelection
