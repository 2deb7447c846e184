import PathSelection.Proofs.Git.Single
import PathSelection.Proofs.Git.Tracked
import PathSelection.Proofs.Stash.Account

namespace PathSelection.Stash

variable {σ π τ : Type} {t : Git.Tracked σ π τ} {g : Git σ π} {directory : Text}
  {top : WrittenPath} {w₀ w w' : Workspace σ π} {stash : Stash π}

theorem discarded_files (ht : t.Laws g directory top) {succeeded : Bool}
    (hd : g.Discarded top succeeded w w') :
    t.index w'.git w'.disk = t.index w.git w.disk ∧
      t.files w'.git w'.disk =
        if succeeded then t.index w.git w.disk else t.files w.git w.disk := by
  obtain ⟨hr, rfl⟩ := hd
  obtain ⟨hi, hf⟩ := ht.checkout w.git w.disk
  rw [hr] at hf
  exact ⟨hi, hf⟩

theorem reapplied_files (ht : t.Laws g directory top) (htop : stash.top = top) {patchFile : Text}
    {succeeded : Bool} (ha : g.Reapplied patchFile stash succeeded w w') :
    t.index w'.git w'.disk = t.index w.git w.disk ∧
      if succeeded then
        t.patched stash.patch (t.files w.git w.disk) = some (t.files w'.git w'.disk)
      else t.files w'.git w'.disk = t.files w.git w.disk := by
  subst htop
  obtain ⟨hr, rfl⟩ := ha
  obtain ⟨hi, hf⟩ := ht.apply patchFile stash.patch w.git w.disk
  rw [hr] at hf
  exact ⟨hi, hf⟩

/-- The changes that were not staged in a workspace are in the patch file of the active stash. -/
structure Holds (t : Git.Tracked σ π τ) (g : Git σ π) (top : WrittenPath) (w₀ : Workspace σ π)
    (stash : Stash π) (w : Workspace σ π) : Prop where
  active : w.memory.stash = some stash
  atTop : stash.top = top
  patches : w.patches = (stash.file, stash.patch) :: w₀.patches
  fresh : ∀ p ∈ w₀.patches, p.1 ≠ stash.file
  leads : t.Leads g top stash.patch (t.index w₀.git w₀.disk) (t.files w₀.git w₀.disk)
  changes : g.isBlank stash.patch = false

theorem Holds.quiet (h : Holds t g top w₀ stash w) (hq : w.Quiet w') :
    Holds t g top w₀ stash w' :=
  ⟨hq.stash.trans h.active, h.atTop, hq.patches.trans h.patches, h.fresh, h.leads, h.changes⟩

theorem Holds.patches_dropped (h : Holds t g top w₀ stash w) :
    (w.dropped stash).patches = w₀.patches := by
  have hkeep : w₀.patches.filter (fun p => p.1 != stash.file) = w₀.patches :=
    List.filter_eq_self.2 fun p hp => bne_iff_ne.2 (h.fresh p hp)
  simp only [Workspace.dropped, Workspace.record, h.patches]
  rw [List.filter_cons_of_neg (by simp), hkeep]

theorem holds_written (ht : t.Laws g directory top) (hw : w₀.Unstashed)
    (hknown : ∀ known, w₀.memory.top = some known → known = top) {patch : π}
    (hu : g.unstagedChanges directory w₀ = .ok patch w) (hb : g.isBlank patch = false) :
    Holds t g top w₀ ⟨w.nextPatch, patch, top⟩ (w.written patch top) := by
  have hq := g.quiet_keptByQuestions.unstagedChanges.of_ok hu
  refine ⟨rfl, rfl, ?_, ?_, (ht.leads_of_unstagedChanges hknown hu).2.1, hb⟩
  · simp only [Workspace.written, Workspace.record, hq.patches]
  · intro p hp
    have hlt := hw.numbered p hp
    rw [hq.nextPatch]
    exact Nat.ne_of_lt hlt

theorem stash_error (ht : t.Laws g directory top) (hw : w₀.Unstashed)
    (hknown : ∀ known, w₀.memory.top = some known → known = top) {e : Failure}
    (h : (g.source directory).stash w₀ = .error e w) :
    t.Same w₀ w ∧ w.patches = w₀.patches ∧ w.memory.stash = none := by
  have hsame : Run.Keeps t.Same (g.unstagedChanges directory) :=
    ht.same_keptByQuestions.unstagedChanges
  have hquiet : Run.Keeps Workspace.Quiet (g.unstagedChanges directory) :=
    g.quiet_keptByQuestions.unstagedChanges
  have ho := g.stashOutcome directory w₀
  rw [h] at ho
  cases ho with
  | unknown hs hu =>
    exact ⟨hsame.of_error hu, (hquiet.of_error hu).patches, (hquiet.of_error hu).stash.trans hs⟩
  | @refused patch top' w₁ w₂ e hs hu hb hknows hd he =>
    have htop := (ht.leads_of_unstagedChanges hknown hu).1
    obtain rfl := Option.some.inj (hknows.symm.trans htop)
    have hholds := (holds_written ht hw hknown hu hb).quiet hd.quiet
    have hkept : t.Same w₁ w₂ := discarded_files ht hd
    exact ⟨ht.same_keptByQuestions.trans _ _ _ (hsame.of_ok hu) hkept, hholds.patches_dropped, rfl⟩

theorem stash_ok (ht : t.Laws g directory top) (hw : w₀.Unstashed)
    (hknown : ∀ known, w₀.memory.top = some known → known = top) {stashed : Bool}
    (h : (g.source directory).stash w₀ = .ok stashed w) :
    t.index w.git w.disk = t.index w₀.git w₀.disk ∧
      t.files w.git w.disk = t.index w₀.git w₀.disk ∧ w.patchPath = w₀.patchPath ∧
      ((stashed = false ∧ t.files w₀.git w₀.disk = t.index w₀.git w₀.disk ∧
        w.patches = w₀.patches ∧ w.memory.stash = none) ∨
      (stashed = true ∧ t.files w₀.git w₀.disk ≠ t.index w₀.git w₀.disk ∧
        ∃ stash, Holds t g top w₀ stash w)) := by
  have hsame : Run.Keeps t.Same (g.unstagedChanges directory) :=
    ht.same_keptByQuestions.unstagedChanges
  have ho := g.stashOutcome directory w₀
  rw [h] at ho
  cases ho with
  | active stash hs =>
    rw [hw.inactive] at hs
    cases hs
  | @blank patch w₁ hs hu hb =>
    obtain ⟨hi, hf⟩ := hsame.of_ok hu
    have hq := g.quiet_keptByQuestions.unstagedChanges.of_ok hu
    have hsaved := (ht.leads_of_unstagedChanges hknown hu).2.2.1 hb
    exact ⟨hi, hf.trans hsaved, hq.patchPath, .inl ⟨rfl, hsaved, hq.patches, hq.stash.trans hs⟩⟩
  | @taken patch top' w₁ w₂ hs hu hb hknows hd =>
    obtain ⟨hi₁, hf₁⟩ := hsame.of_ok hu
    obtain ⟨htop, hleads, hblank⟩ := ht.leads_of_unstagedChanges hknown hu
    obtain rfl := Option.some.inj (hknows.symm.trans htop)
    have hq := g.quiet_keptByQuestions.unstagedChanges.of_ok hu
    have hholds := (holds_written ht hw hknown hu hb).quiet hd.quiet
    obtain ⟨hi, hf⟩ := discarded_files ht hd
    have hpath : w.patchPath = (w₁.written patch top').patchPath := hd.quiet.patchPath
    refine ⟨hi.trans hi₁, hf.trans hi₁, hpath.trans hq.patchPath, .inr ⟨rfl, ?_, _, hholds⟩⟩
    intro heq
    rw [hblank.2 heq] at hb
    cases hb

/-- Unstashing puts the changes back: on top of what is there if git applies them to it, and else
as they were. It fails only if the files cannot be checked out, and the patch file stays then. -/
theorem unstash_of_holds (ht : t.Laws g directory top) (hw : Holds t g top w₀ stash w)
    (hindex : t.index w.git w.disk = t.index w₀.git w₀.disk) :
    (∀ u w', (g.source directory).unstash w = .ok u w' → w'.patches = w₀.patches ∧
      if (g.apply (w.patchPath stash.file) stash.patch top.text w.git w.disk).1.succeeds [0] then
        t.patched stash.patch (t.files w.git w.disk) = some (t.files w'.git w'.disk)
      else t.files w'.git w'.disk = t.files w₀.git w₀.disk) ∧
    ∀ e w', (g.source directory).unstash w = .error e w' →
      (∃ reason, e = .stashRestore (w.patchPath stash.file) reason) ∧
      w'.patches = (stash.file, stash.patch) :: w₀.patches ∧
      ∃ es, w'.history = w.history ++ es ∧ .ran .checkout top.text false ∈ es := by
  obtain rfl := hw.atTop
  constructor
  · intro u w' h
    have ho := g.unstashOutcome directory w
    rw [h] at ho
    cases ho with
    | inactive hs =>
      rw [hw.active] at hs
      cases hs
    | @restored stash' w₁ hs ha =>
      obtain rfl := Option.some.inj (hw.active.symm.trans hs)
      refine ⟨(hw.quiet ha.quiet).patches_dropped, ?_⟩
      rw [if_pos ha.1]
      exact (reapplied_files ht rfl ha).2
    | @forced stash' w₁ w₂ w₃ hs ha hd ha' =>
      obtain rfl := Option.some.inj (hw.active.symm.trans hs)
      have hq := ((ha.quiet.trans (.record _ rfl)).trans hd.quiet).trans ha'.quiet
      refine ⟨(hw.quiet hq).patches_dropped, ?_⟩
      obtain ⟨hi₁, -⟩ := reapplied_files ht rfl ha
      obtain ⟨hi₂, hf₂⟩ := discarded_files ht hd
      obtain ⟨-, hf₃⟩ := reapplied_files ht rfl ha'
      have hstaged : t.files w₂.git w₂.disk = t.index w₀.git w₀.disk :=
        hf₂.trans (hi₁.trans hindex)
      have hback := (ht.reapply (w.patchPath stash.file) _ _ _ w₂.git w₂.disk hw.changes hw.leads
        (hi₂.trans (hi₁.trans hindex)) hstaged).2
      rw [if_neg (by rw [ha.1]; decide)]
      rw [if_pos rfl, hstaged, hback] at hf₃
      exact (Option.some.inj hf₃).symm
  · intro e w' h
    have ho := g.unstashOutcome directory w
    rw [h] at ho
    cases ho with
    | @notDiscarded stash' w₁ w₂ reason hs ha hd =>
      obtain rfl := Option.some.inj (hw.active.symm.trans hs)
      have hq := (ha.quiet.trans (.record _ rfl)).trans hd.quiet
      refine ⟨⟨reason, rfl⟩, (hw.quiet hq).patches, [.ran (.apply (w.patchPath stash.file))
        stash.top.text false, .conflicted, .ran .checkout stash.top.text false], ?_, by simp⟩
      rw [hd.2, ha.2]
      simp only [Workspace.unstashed, Workspace.afterCommand, Workspace.record, List.append_assoc,
        List.cons_append, List.nil_append]
    | @notReapplied stash' w₁ w₂ w₃ reason hs ha hd ha' =>
      -- The patch applies to the staged content, so this does not happen.
      obtain rfl := Option.some.inj (hw.active.symm.trans hs)
      obtain ⟨hi₁, -⟩ := reapplied_files ht rfl ha
      obtain ⟨hi₂, hf₂⟩ := discarded_files ht hd
      have hback := (ht.reapply (w.patchPath stash.file) _ _ _ w₂.git w₂.disk hw.changes hw.leads
        (hi₂.trans (hi₁.trans hindex)) (hf₂.trans (hi₁.trans hindex))).1
      rw [ha'.1] at hback
      cases hback

/-- No unstaged change is lost, whatever was changed since without touching the index. After a
failure to stash nothing has changed. After a success the tracked files are what is staged, and
unstashing makes them what they were, or what git makes of both changes, unless they cannot be
checked out. Their patch file is there for just as long. -/
theorem changes_restored (ht : t.Laws g directory top) (hw : w.Unstashed)
    (hknown : ∀ known, w.memory.top = some known → known = top) :
    let s := g.source directory
    let index := t.index w.git w.disk
    let files := t.files w.git w.disk
    (∀ e w₁, s.stash w = .error e w₁ →
      t.index w₁.git w₁.disk = index ∧ t.files w₁.git w₁.disk = files ∧
        w₁.patches = w.patches ∧ w₁.memory.stash = none) ∧
    ∀ stashed w₁, s.stash w = .ok stashed w₁ →
      t.index w₁.git w₁.disk = index ∧ t.files w₁.git w₁.disk = index ∧
      ∀ git disk, t.index git disk = index →
        let w₂ : Workspace σ π := { w₁ with git, disk }
        (stashed = false →
          files = index ∧ w₁.patches = w.patches ∧ s.unstash w₂ = .ok () w₂) ∧
        (stashed = true → files ≠ index ∧ ∃ file patch,
          t.Leads g top patch index files ∧ w₁.patches = (file, patch) :: w.patches ∧
          (∀ u w₃, s.unstash w₂ = .ok u w₃ → w₃.patches = w.patches ∧
            if (g.apply (w.patchPath file) patch top.text git disk).1.succeeds [0] then
              t.patched patch (t.files git disk) = some (t.files w₃.git w₃.disk)
            else t.files w₃.git w₃.disk = files) ∧
          ∀ e w₃, s.unstash w₂ = .error e w₃ →
            (∃ reason, e = .stashRestore (w.patchPath file) reason) ∧
            w₃.patches = (file, patch) :: w.patches ∧
            ∃ es, w₃.history = w₁.history ++ es ∧ .ran .checkout top.text false ∈ es) := by
  intro s index files
  refine ⟨fun e w₁ h => ?_, fun stashed w₁ h => ?_⟩
  · obtain ⟨⟨hi, hf⟩, hp, hs⟩ := stash_error ht hw hknown h
    exact ⟨hi, hf, hp, hs⟩
  · obtain ⟨hi, hf, hpath, hcase⟩ := stash_ok ht hw hknown h
    refine ⟨hi, hf, fun git disk hindex => ?_⟩
    intro w₂
    rcases hcase with ⟨rfl, heq, hp, hs⟩ | ⟨rfl, hne, stash, hholds⟩
    · exact ⟨fun _ => ⟨heq, hp, s.unstash_of_inactive hs⟩, nofun⟩
    · refine ⟨nofun, fun _ => ⟨hne, stash.file, stash.patch, hholds.leads, hholds.patches, ?_⟩⟩
      have hholds₂ : Holds t g top w stash w₂ :=
        ⟨hholds.active, hholds.atTop, hholds.patches, hholds.fresh, hholds.leads, hholds.changes⟩
      rw [← hpath]
      exact unstash_of_holds ht hholds₂ hindex

/-- The edited file is stashed, and its changes are in a patch file. -/
theorem changes_of_edited_restored :
    Git.Single.view.Laws Git.single "/tree" (.ofText "/tree") ∧ Git.edited.Unstashed ∧
      (∀ known, Git.edited.memory.top = some known → known = .ofText "/tree") ∧
      ∃ w₁, (Git.single.source "/tree").stash Git.edited = .ok true w₁ ∧
        w₁.git.file = "staged".toList ∧ ∃ file patch, w₁.patches = [(file, patch)] ∧
          Git.Single.view.Leads Git.single (.ofText "/tree") patch "staged" "edited" := by
  have hw : Git.edited.Unstashed := ⟨rfl, nofun⟩
  have hknown : ∀ known, Git.edited.memory.top = some known → known = .ofText "/tree" := nofun
  obtain ⟨w₁, h⟩ : ∃ w₁, (Git.single.source "/tree").stash Git.edited = .ok true w₁ := ⟨_, rfl⟩
  obtain ⟨hi, hf, hrest⟩ := (changes_restored Git.Single.laws hw hknown).2 true w₁ h
  obtain ⟨-, file, patch, hl, hp, -⟩ := (hrest w₁.git w₁.disk hi).2 rfl
  exact ⟨Git.Single.laws, hw, hknown, w₁, h, hf, file, patch, hp, hl⟩

end PathSelection.Stash
