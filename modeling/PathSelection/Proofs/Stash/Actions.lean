import PathSelection.Proofs.Git.Single
import PathSelection.Proofs.Stash.Account
import Mathlib.Data.List.Nodup

namespace PathSelection

variable {σ π : Type}

theorem Workspace.patchPath_injective (w : Workspace σ π) : Function.Injective w.patchPath := by
  have hname (n : Nat) : Text.isAbsolute ("tidypaths-".toList ++ Text.ofNat n ++ ".patch".toList) =
      false := rfl
  have hdigits {m n : Nat} (h : "tidypaths-".toList ++ Text.ofNat m ++ ".patch".toList =
      "tidypaths-".toList ++ Text.ofNat n ++ ".patch".toList) : m = n := by
    have h : Nat.toDigits 10 m = Nat.toDigits 10 n :=
      List.append_cancel_left (List.append_cancel_right h)
    calc
      m = Nat.ofDigitChars 10 (Nat.toDigits 10 m) 0 := Nat.ofDigitChars_ten_toDigits.symm
      _ = Nat.ofDigitChars 10 (Nat.toDigits 10 n) 0 := by rw [h]
      _ = n := Nat.ofDigitChars_ten_toDigits
  intro m n h
  simp only [patchPath, Text.below, hname, Bool.false_eq_true, if_false] at h
  split at h
  · exact hdigits (List.append_cancel_left h)
  · exact hdigits (List.cons.inj (List.append_cancel_left h)).2

namespace Stash

/-- What can be done with a stash. In the meantime files and git may change in any way. -/
inductive Action (σ : Type) where
  | stash
  | unstash
  | enter
  | leave
  | meanwhile (git : σ) (disk : Disk)

def Action.run (s : ChangeSource σ π) : Action σ → Run σ π Unit
  | .stash | .enter => do let _ ← s.stash
  | .unstash | .leave => s.unstash
  | .meanwhile git disk => modify fun w => { w with git, disk }

/-- Some actions one after another: the failures raised, and the workspace in the end. -/
def act (s : ChangeSource σ π) (actions : List (Action σ)) (w : Workspace σ π) :
    List Failure × Workspace σ π :=
  Run.runAll (actions.map (Action.run s)) w

/-- The lost patch files of the account are those that failures have named. -/
def Balanced (w₀ : Workspace σ π) (raised : List Failure) (w : Workspace σ π) : Prop :=
  ∃ lost made es, (raised.filterMap Failure.patchFile?).Perm (lost.map w₀.patchPath) ∧
    Account w₀ lost w made es

theorem Balanced.step {g : Git σ π} {directory : Text} {w₀ w : Workspace σ π}
    {raised : List Failure} (h₀ : w₀.Unstashed) (h : Balanced w₀ raised w) (action : Action σ) :
    Balanced w₀ (raised ++ Run.raised (action.run (g.source directory)) w)
      (Run.after (action.run (g.source directory)) w) := by
  obtain ⟨lost, made, es, hp, ha⟩ := h
  have hstash : Balanced w₀ (raised ++ Run.raised (g.source directory).stash w)
      (Run.after (g.source directory).stash w) := by
    obtain ⟨⟨made', es', ha'⟩, hr⟩ := ha.stash g directory h₀
    refine ⟨lost, made', es', ?_, ha'⟩
    rw [List.filterMap_append, List.filterMap_eq_nil_iff.2 hr, List.append_nil]
    exact hp
  have hunstash : Balanced w₀ (raised ++ Run.raised (g.source directory).unstash w)
      (Run.after (g.source directory).unstash w) := by
    obtain ⟨lost', made', es', ha', hr⟩ := ha.unstash g directory h₀
    refine ⟨lost' ++ lost, made', es', ?_, ha'⟩
    rw [List.filterMap_append, hr, List.map_append]
    exact (hp.append_right _).trans List.perm_append_comm
  cases action with
  | stash =>
    rw [Action.run, Run.raised_ignore, Run.after_ignore]
    exact hstash
  | enter =>
    rw [Action.run, Run.raised_ignore, Run.after_ignore]
    exact hstash
  | unstash => exact hunstash
  | leave => exact hunstash
  | meanwhile git disk =>
    refine ⟨lost, made, es, ?_, ha.directory, ha.patches, ha.files, ha.nodup, ha.bounds, ha.next,
      ha.history, ha.written, ha.present, ha.removed⟩
    rw [show Run.raised (Action.run (g.source directory) (.meanwhile git disk)) w = [] from rfl,
      List.append_nil]
    exact hp

theorem Balanced.act (g : Git σ π) (directory : Text) {w₀ : Workspace σ π} (h₀ : w₀.Unstashed)
    (actions : List (Action σ)) : Balanced w₀ (act (g.source directory) actions w₀).1
      (act (g.source directory) actions w₀).2 := by
  have hstart : Balanced w₀ [] w₀ := ⟨[], [], [], .nil, .start h₀.inactive⟩
  refine Run.runAll_keeps (fun x hx raised w h => ?_) hstart
  obtain ⟨action, -, rfl⟩ := List.mem_map.1 hx
  exact h.step h₀ action

/-- Whatever is done with a stash and whatever git does: the patch files made and still on disk are
exactly that of the active stash and those named by failures. One whose changes had been taken out
of the files goes only when git has just applied it. No stash is active after unstashing, and
neither stashing twice nor unstashing twice does anything. -/
theorem patchFiles_of_actions (g : Git σ π) (directory : Text) (actions : List (Action σ))
    {w₀ : Workspace σ π} (h₀ : w₀.Unstashed) :
    let s := g.source directory
    let raised := (act s actions w₀).1
    let w := (act s actions w₀).2
    (∃ made, w.patches = made ++ w₀.patches ∧ (made.map fun p => w.patchPath p.1).Nodup ∧
      (made.map fun p => w.patchPath p.1).Perm
        ((w.memory.stash.map fun stash => w.patchPath stash.file).toList ++
          raised.filterMap Failure.patchFile?)) ∧
    (∃ es, w.history = w₀.history ++ es ∧
      (∀ n, .patchWritten n ∈ es → n ∉ w.patches.map Prod.fst → .patchRemoved n ∈ es) ∧
      ∀ before n after, es = before ++ .patchRemoved n :: after → TakenOut before n →
        ∃ start top, before = start ++ [.ran (.apply (w.patchPath n)) top true]) ∧
    (∀ v : Workspace σ π, (Run.after s.unstash v).memory.stash = none ∧
      ∀ e ∈ Run.raised s.unstash v, ∃ patchFile reason, e = .stashRestore patchFile reason) ∧
    (∀ v : Workspace σ π, v.memory.stash.isSome = true → s.stash v = .ok true v) ∧
    ∀ v : Workspace σ π, v.memory.stash = none → s.unstash v = .ok () v := by
  intro s raised w
  obtain ⟨lost, made, es, hp, ha⟩ := Balanced.act g directory h₀ actions
  have hpath : w.patchPath = w₀.patchPath := ha.patchPath
  rw [hpath]
  refine ⟨⟨made, ha.patches, ?_, ?_⟩, ⟨es, ha.history, ?_, ha.removed⟩, ?_, ?_, ?_⟩
  · have hn := List.Nodup.map w₀.patchPath_injective ha.nodup
    rwa [List.map_map] at hn
  · have hf := ha.files.map w₀.patchPath
    rw [List.map_map, List.map_append, ← Option.toList_map, Option.map_map] at hf
    exact hf.trans (hp.symm.append_left _)
  · intro n hn hgone
    by_contra hr
    apply hgone
    rw [ha.patches, List.map_append]
    exact List.mem_append_left _ (ha.present n hn hr)
  · intro v
    obtain ⟨hs, hr⟩ := g.unstash_inactive directory v
    refine ⟨hs, fun e he => ?_⟩
    obtain ⟨reason, stash, rfl, -⟩ := hr e he
    exact ⟨_, reason, rfl⟩
  · intro v hv
    obtain ⟨stash, hs⟩ := Option.isSome_iff_exists.1 hv
    exact s.stash_of_active hs
  · intro v hv
    exact s.unstash_of_inactive hv

theorem edited_unstashed : Git.edited.Unstashed := ⟨rfl, nofun⟩

/-- A stash in whose way the file was changed, and another one that stays active. -/
theorem patchFiles_of_edited :
    Git.edited.Unstashed ∧
      let actions := [.stash, .meanwhile ⟨"staged", "fixed"⟩ ⟨[]⟩, .unstash, .enter]
      let raised := (act (Git.single.source "/tree") actions Git.edited).1
      let w := (act (Git.single.source "/tree") actions Git.edited).2
      ∃ made, w.patches = made ++ [] ∧ (made.map fun p => w.patchPath p.1).Nodup ∧
        (made.map fun p => w.patchPath p.1).Perm
          ((w.memory.stash.map fun stash => w.patchPath stash.file).toList ++
            raised.filterMap Failure.patchFile?) :=
  ⟨edited_unstashed, (patchFiles_of_actions Git.single "/tree" _ edited_unstashed).1⟩

end Stash
end PathSelection
