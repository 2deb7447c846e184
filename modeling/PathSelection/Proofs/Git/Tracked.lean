import PathSelection.Proofs.Git.Commands

namespace PathSelection.Git

variable {σ π τ : Type}

/-- A view of the tracked files: what is staged, what is on disk, and what a patch makes of such
content if it applies to it. -/
structure Tracked (σ π τ : Type) where
  index : σ → Disk → τ
  files : σ → Disk → τ
  patched : π → τ → Option τ

namespace Tracked

/-- From one workspace to the other the tracked files stay the same. -/
def Same (t : Tracked σ π τ) (w w' : Workspace σ π) : Prop :=
  t.index w'.git w'.disk = t.index w.git w.disk ∧ t.files w'.git w'.disk = t.files w.git w.disk

/-- Whether git can have made a patch to lead from some staged content to the content on disk. -/
def Leads (t : Tracked σ π τ) (g : Git σ π) (top : WrittenPath) (patch : π)
    (staged edited : τ) : Prop :=
  ∃ git disk errors, t.index git disk = staged ∧ t.files git disk = edited ∧
    (g.diff top.text git disk).1 = .exited 0 patch errors

/-- Commands are run at the top level of the working tree, which git tells in some directory. -/
structure Laws (t : Tracked σ π τ) (g : Git σ π) (directory : Text) (top : WrittenPath) :
    Prop where
  told : ∀ git disk output errors answer,
    (g.run .topLevel directory git disk).1 = .exited 0 output errors →
    String.fromUTF8? output = some answer →
    WrittenPath.ofText (Text.strip answer.toList) = top
  question : ∀ command directory git disk, Command.isQuestion command = true →
    let after := (g.run command directory git disk).2
    t.index after.1 after.2 = t.index git disk ∧ t.files after.1 after.2 = t.files git disk
  diff : ∀ directory git disk, let after := (g.diff directory git disk).2
    t.index after.1 after.2 = t.index git disk ∧ t.files after.1 after.2 = t.files git disk
  /-- A patch is blank exactly when there is nothing to change. -/
  blank : ∀ git disk patch errors, (g.diff top.text git disk).1 = .exited 0 patch errors →
    (g.isBlank patch = true ↔ t.files git disk = t.index git disk)
  /-- Files are checked out all or none. -/
  checkout : ∀ git disk, let after := (g.run .checkout top.text git disk).2
    t.index after.1 after.2 = t.index git disk ∧
      t.files after.1 after.2 =
        if (g.run .checkout top.text git disk).1.succeeds [0] then t.index git disk
        else t.files git disk
  /-- A patch is applied as a whole or not at all. -/
  apply : ∀ patchFile patch git disk, let after := (g.apply patchFile patch top.text git disk).2
    t.index after.1 after.2 = t.index git disk ∧
      if (g.apply patchFile patch top.text git disk).1.succeeds [0] then
        t.patched patch (t.files git disk) = some (t.files after.1 after.2)
      else t.files after.1 after.2 = t.files git disk
  /-- A patch that is not blank applies to the staged content that it leads away from. -/
  reapply : ∀ patchFile patch staged edited git disk, g.isBlank patch = false →
    t.Leads g top patch staged edited → t.index git disk = staged → t.files git disk = staged →
    (g.apply patchFile patch top.text git disk).1.succeeds [0] = true ∧
      t.patched patch staged = some edited

theorem Laws.same_keptByQuestions {t : Tracked σ π τ} {g : Git σ π} {directory : Text}
    {top : WrittenPath} (h : t.Laws g directory top) : g.KeptByQuestions t.Same where
  refl _ := ⟨rfl, rfl⟩
  trans _ _ _ h₁ h₂ := ⟨h₂.1.trans h₁.1, h₂.2.trans h₁.2⟩
  top _ _ := ⟨rfl, rfl⟩
  question command directory w _ hc := h.question command directory w.git w.disk hc
  diff directory w _ := h.diff directory w.git w.disk

theorem Laws.topLevel {t : Tracked σ π τ} {g : Git σ π} {directory : Text} {top top' : WrittenPath}
    {w w' : Workspace σ π} (h : t.Laws g directory top)
    (hw : ∀ known, w.memory.top = some known → known = top)
    (ht : g.topLevel directory w = .ok top' w') : top' = top := by
  cases hk : w.memory.top with
  | some known =>
    rw [topLevel_of_known hk] at ht
    cases ht
    exact hw _ hk
  | none =>
    rw [topLevel_of_unknown hk] at ht
    obtain ⟨output, w₁, ha, ht⟩ := Run.ok_of_bind ht
    obtain ⟨code, errors, git, disk, ha, hc, -⟩ := perform_ok ha
    obtain ⟨answer, w₂, hd, ht⟩ := Run.ok_of_bind ht
    obtain ⟨s, hs, rfl⟩ := ok_of_decode hd
    rw [tellTop] at ht
    split at ht
    · cases ht
    · cases ht
      refine h.told w.git w.disk output errors s ?_ hs
      rw [ha, List.mem_singleton.1 hc]

theorem Laws.leads_of_unstagedChanges {t : Tracked σ π τ} {g : Git σ π} {directory : Text}
    {top : WrittenPath} {w w' : Workspace σ π} {patch : π} (h : t.Laws g directory top)
    (hw : ∀ known, w.memory.top = some known → known = top)
    (hu : g.unstagedChanges directory w = .ok patch w') :
    w'.memory.top = some top ∧
      t.Leads g top patch (t.index w.git w.disk) (t.files w.git w.disk) ∧
      (g.isBlank patch = true ↔ t.files w.git w.disk = t.index w.git w.disk) := by
  have hsame := h.same_keptByQuestions
  obtain ⟨top', w₁, output, w₂, ht, hr, hd⟩ := ok_of_unstagedChanges hu
  have hw₁ := top_of_topLevel ht
  have h₁ := hsame.topLevel.of_ok ht
  obtain rfl := h.topLevel hw ht
  have h₂ := (hsame.ask rfl).of_ok hr
  obtain ⟨hi, hf⟩ := hsame.trans _ _ _ h₁ h₂
  obtain ⟨_, _, _, _, -, -, rfl⟩ := perform_ok hr
  obtain ⟨code, errors, git, disk, hp, hc, rfl⟩ := perform_ok hd
  obtain rfl := List.mem_singleton.1 hc
  have hp := congrArg Prod.fst hp
  refine ⟨hw₁, ⟨_, _, errors, hi, hf, hp⟩, ?_⟩
  rw [← hi, ← hf]
  exact h.blank _ _ patch errors hp

end Tracked
end PathSelection.Git
