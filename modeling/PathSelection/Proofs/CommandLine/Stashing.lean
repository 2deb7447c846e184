import PathSelection.CommandLine.Basic
import PathSelection.Proofs.Git.Single
import PathSelection.Proofs.Selection.Session
import PathSelection.Proofs.Stash.Actions

namespace PathSelection

variable {σ π α β : Type}

namespace Run

theorem ok_of_lift {r : Except Failure α} {w w' : Workspace σ π} {a : α}
    (h : (lift r : Run σ π α) w = .ok a w') : r = .ok a := by
  cases r with
  | ok b =>
    cases h
    rfl
  | error e => cases h

end Run

namespace Stash

/-- A run that is not begun with a stash keeps the account and does not end with one. -/
def Settles (w₀ : Workspace σ π) (x : Run σ π α) (w : Workspace σ π) : Prop :=
  w.memory.stash = none → Accounts w₀ x w ∧ (x.after w).memory.stash = none

variable {w₀ w : Workspace σ π} {x : Run σ π α}

theorem settles_quiet (h : Run.Keeps Workspace.Quiet x) : Settles w₀ x w :=
  fun hn => ⟨accounts_quiet (h w), (h w).stash.trans hn⟩

theorem Settles.bind {f : α → Run σ π β} (h : Settles w₀ x w)
    (hf : ∀ a w', x w = .ok a w' → Settles w₀ (f a) w') : Settles w₀ (x >>= f) w := by
  intro hn
  obtain ⟨hx, hxn⟩ := h hn
  cases hr : x w with
  | ok a w' =>
    rw [Run.after_of_ok hr] at hxn
    refine ⟨hx.bind fun a' w'' hr' => ?_, ?_⟩
    · rw [hr] at hr'
      cases hr'
      exact (hf a w' hr hxn).1
    · rw [Run.after, Run.bind_of_ok hr]
      exact (hf a w' hr hxn).2
  | error e w' =>
    rw [Run.after_of_error hr] at hxn
    refine ⟨hx.bind fun a w'' hr' => ?_, ?_⟩
    · rw [hr] at hr'
      cases hr'
    · rw [Run.after_of_error (Run.bind_of_error hr)]
      exact hxn

end Stash

namespace Selection

open Stash

variable {s : Selection σ π} {g : Git σ π} {directory : Text} {w₀ w : Workspace σ π}
  {body : Run σ π α}

theorem use_of_ok {w₁ : Workspace σ π} {a : α} (h : body w = .ok a w₁) :
    s.use body w = (s.release >>= fun _ => pure a) w₁ := by
  rw [use, Run.bind_of_ok (Run.tryCatch_of_ok h)]

theorem use_of_error {w₁ : Workspace σ π} {e : Failure} (h : body w = .error e w₁) :
    s.use body w = (s.release >>= fun _ => throw e) w₁ := by
  have hc : tryCatch body (fun e => do s.release; throw e) w =
      (s.release >>= fun _ => throw e) w₁ := Run.tryCatch_of_error h
  rw [use]
  cases hu : s.release w₁ with
  | ok u w₂ =>
    rw [Run.bind_of_ok hu] at hc
    rw [Run.bind_of_error hc, Run.bind_of_ok hu]
    rfl
  | error e' w₂ =>
    rw [Run.bind_of_error hu] at hc
    rw [Run.bind_of_error hc, Run.bind_of_error hu]

theorem after_release_bind (hs : s.source = g.source directory) {x : Run σ π α}
    (hx : Run.Keeps Workspace.Quiet x) (w : Workspace σ π) :
    (Run.after (s.release >>= fun _ => x) w).memory.stash = none := by
  obtain ⟨hn, -⟩ := after_release hs w
  cases hu : s.release w with
  | ok u w₁ =>
    rw [Run.after_of_ok hu] at hn
    rw [Run.after, Run.bind_of_ok hu]
    exact (hx w₁).stash.trans hn
  | error e w₁ =>
    rw [Run.after_of_error hu] at hn
    rw [Run.after_of_error (Run.bind_of_error hu)]
    exact hn

theorem after_use (hs : s.source = g.source directory) (body : Run σ π α) (w : Workspace σ π) :
    (Run.after (s.use body) w).memory.stash = none := by
  cases hb : body w with
  | ok a w₁ =>
    rw [Run.after, use_of_ok hb]
    exact after_release_bind hs (Run.keeps_pure .refl a) w₁
  | error e w₁ =>
    rw [Run.after, use_of_error hb]
    exact after_release_bind hs (Run.keeps_throw (α := α) .refl e) w₁

theorem accounts_use (hs : s.source = g.source directory) (h₀ : w₀.Unstashed)
    (h : Accounts w₀ body w) : Accounts w₀ (s.use body) w := by
  cases hb : body w with
  | ok a w₁ =>
    have hend : Accounts w₀ (s.release >>= fun _ => pure a) w₁ :=
      (accounts_release hs h₀).bind fun _ _ _ => accounts_quiet (.refl _)
    refine hend.congr ?_ ?_ fun lost made es ha => h.of_ok hb ha
    · rw [Run.after, Run.after, use_of_ok hb]
    · rw [Run.raised, Run.raised, use_of_ok hb]
  | error e w₁ =>
    have hend : Accounts w₀ (s.release >>= fun _ => (throw e : Run σ π α)) w₁ :=
      (accounts_release hs h₀).bind fun _ _ _ => accounts_quiet (.refl _)
    intro lost made es ha
    obtain ⟨lost', made', es', ha', hl, hn⟩ := h lost made es ha
    rw [Run.after_of_error hb] at ha' hn
    rw [Run.raised_of_error hb] at hl
    rw [Run.after, Run.raised, use_of_error hb]
    cases lost' with
    | nil => exact hend lost made' es' ha'
    | cons n lost' =>
      -- The failure of the body names what it lost, and releasing does nothing any more.
      have hrelease : s.release w₁ = .ok () w₁ :=
        s.source.unstash_of_inactive (hn (List.cons_ne_nil n lost'))
      rw [Run.bind_of_ok hrelease]
      exact ⟨n :: lost', made', es', ha', hl, hn⟩

theorem source_of_setUp {v : View} {mode : Mode} {paths excluded ignoreFiles : List Text}
    {root : Option Text} {source : ChangeSource σ π} {followLinks : Bool}
    (h : setUp v mode paths excluded ignoreFiles root source followLinks = .ok s) :
    s.source = source := by
  obtain ⟨-, filter, -, rfl⟩ := ok_of_setUp h
  rfl

end Selection

namespace CommandLine

open Stash

theorem quiet_loadConfig (path : Text) :
    Run.Keeps Workspace.Quiet (loadConfig path : Run σ π Config) := by
  rw [loadConfig]
  apply Run.quiet_bind Run.quiet_view
  intro v
  apply Run.quiet_bind (Run.quiet_note rfl)
  intro u
  apply Run.quiet_bind (Run.quiet_lift _)
  intro table
  apply Run.quiet_bind
  · apply Run.quiet_noteAll
    intro e he
    obtain ⟨c, -, rfl⟩ := List.mem_map.1 he
    rfl
  · intro u
    exact Run.quiet_lift _

theorem quiet_chooseConfig (o : Options) :
    Run.Keeps Workspace.Quiet (chooseConfig o : Run σ π Config) := by
  unfold chooseConfig
  split
  · exact quiet_loadConfig _
  · apply Run.quiet_bind Run.quiet_view
    intro v
    apply Run.quiet_bind (Run.quiet_lift _)
    intro path
    cases path with
    | some path => exact quiet_loadConfig path
    | none => exact Run.quiet_bind (Run.quiet_note rfl) fun _ => Run.quiet_pure _

theorem quiet_print (lines : List Text) :
    Run.Keeps Workspace.Quiet (print lines : Run σ π Unit) := by
  apply Run.quiet_noteAll
  intro e he
  obtain ⟨line, -, rfl⟩ := List.mem_map.1 he
  rfl

theorem quiet_tell (o : Options) (checks : List Check) (root : Text) (paths : List Text) :
    Run.Keeps Workspace.Quiet (tell o checks root paths : Run σ π Unit) := by
  unfold tell
  split
  · exact quiet_print paths
  · exact Run.quiet_bind Run.quiet_view fun _ =>
      Run.quiet_bind (Run.quiet_lift _) fun plan => quiet_print (planLines plan)

theorem settles_useConfig (g : Git σ π) (o : Options) (mode : Mode) (config : Config)
    {w₀ : Workspace σ π} (h₀ : w₀.Unstashed) (w : Workspace σ π) :
    Settles w₀ (useConfig g o mode config) w := by
  apply (settles_quiet (Run.quiet_lift _)).bind
  intro checks w₂ _
  apply (settles_quiet Run.quiet_view).bind
  intro v w₃ _
  apply (settles_quiet (Run.quiet_lift _)).bind
  intro s w₄ hs hn
  have hs := Selection.source_of_setUp (Run.ok_of_lift hs)
  refine ⟨Selection.accounts_use hs h₀ ?_, Selection.after_use hs _ w₄⟩
  apply (Selection.accounts_get hs h₀ fun _ => hn).bind
  intro paths w₅ _
  exact accounts_quiet (quiet_tell o checks _ paths w₅)

theorem settles_carryOut (g : Git σ π) (o : Options) {w₀ : Workspace σ π} (h₀ : w₀.Unstashed)
    (w : Workspace σ π) : Settles w₀ (carryOut g o) w := by
  unfold carryOut
  split
  · exact settles_quiet (Run.keeps_throw .refl _)
  · exact (settles_quiet (quiet_chooseConfig o)).bind fun config w₁ _ =>
      settles_useConfig g o _ config h₀ w₁

theorem report_errors (level : Level) (history : List Event) (failure : Failure) :
    (report level history (some failure)).errors =
      unlines (logLines level history) ++ ("Error: ".toList ++ failure.message ++ ['\n']) := by
  simp [report, unlines]

/-- The only patch files that a run of the program makes and leaves are those that its report
names. -/
theorem patchFiles_of_run (g : Git σ π) (words : List Text) (w : Workspace σ π)
    (h : ∀ p ∈ w.patches, p.1 < w.nextPatch) :
    ∃ made, (run g words w).2.patches = made ++ w.patches ∧ ∀ p ∈ made, ∃ r log reason,
      (run g words w).1 = .reported r ∧ r.code = 1 ∧
      r.errors = log ++ ("Error: ".toList ++
        Failure.stashRestoreText (w.patchPath p.1) reason ++ ['\n']) := by
  unfold run
  cases Options.read words with
  | error stop => exact ⟨[], rfl, nofun⟩
  | ok o =>
    simp only
    by_cases hv : o.version = true
    · rw [if_pos hv]
      exact ⟨[], rfl, nofun⟩
    · rw [if_neg hv]
      let v : Workspace σ π := fresh w
      have h₀ : v.Unstashed := ⟨rfl, h⟩
      obtain ⟨hacc, hn⟩ := settles_carryOut g o h₀ v rfl
      obtain ⟨lost, made, es, ha, hl, -⟩ := hacc [] [] [] (.start rfl)
      have hmade : ∀ p ∈ made,
          v.patchPath p.1 ∈ (Run.raised (carryOut g o) v).filterMap Failure.patchFile? := by
        intro p hp
        have hf := ha.files
        rw [hn, List.append_nil] at hf
        exact hl (List.mem_map_of_mem (hf.mem_iff.1 (List.mem_map_of_mem hp)))
      cases hr : carryOut g o v with
      | ok u w' =>
        rw [Run.raised_of_ok hr] at hmade
        rw [Run.after_of_ok hr] at ha
        simp only [v] at hr
        simp only [EStateM.run, hr]
        exact ⟨made, ha.patches, fun p hp => by cases hmade p hp⟩
      | error e w' =>
        rw [Run.raised_of_error hr] at hmade
        rw [Run.after_of_error hr] at ha
        simp only [v] at hr
        simp only [EStateM.run, hr]
        refine ⟨made, ha.patches, fun p hp => ?_⟩
        obtain ⟨e', he', hpath⟩ := List.mem_filterMap.1 (hmade p hp)
        obtain rfl := List.mem_singleton.1 he'
        cases e' with
        | stashRestore patchFile reason =>
          cases hpath
          exact ⟨_, _, reason, rfl, rfl, report_errors _ _ _⟩
        | _ => cases hpath

/-- Whatever is done with a selection and whatever git does: a patch file made and still on disk is
that of the active stash, or a failure has named it. While there is a stash the paths are known,
and asking for them does nothing, now or later, nor is a stash left by a failure to give them or by
a release. So the patch files that the program leaves are those that its report names. -/
theorem stashes_settled (g : Git σ π) {directory : Text} {s : Selection σ π} {w₀ : Workspace σ π}
    (hs : s.source = g.source directory) (h₀ : w₀.Unstashed)
    (operations : List (Selection.Operation σ)) :
    let raised := (s.operate operations w₀).1
    let w := (s.operate operations w₀).2
    (∃ made, w.patches = made ++ w₀.patches ∧ (made.map Prod.fst).Nodup ∧
      ∀ p ∈ made, (∃ stash, w.memory.stash = some stash ∧ stash.file = p.1) ∨
        w.patchPath p.1 ∈ raised.filterMap Failure.patchFile?) ∧
    (∀ stash, w.memory.stash = some stash →
      ∃ paths, w.memory.paths = some paths ∧ s.get w = .ok paths w) ∧
    (∀ e w', s.get w = .error e w' → w'.memory.stash = none ∧ w'.memory.paths = none) ∧
    (Run.after s.release w).memory.stash = none ∧
    (∀ paths w', s.get w = .ok paths w' → ∀ later,
      s.get (s.operate later w').2 = .ok paths (s.operate later w').2) ∧
    ∀ words v, (∀ p ∈ v.patches, p.1 < v.nextPatch) →
      ∃ made, (run g words v).2.patches = made ++ v.patches ∧ ∀ p ∈ made, ∃ r log reason,
        (run g words v).1 = .reported r ∧ r.code = 1 ∧
        r.errors = log ++ ("Error: ".toList ++
          Failure.stashRestoreText (v.patchPath p.1) reason ++ ['\n']) := by
  intro raised w
  have hsession : Selection.Session w₀ raised w := Selection.Session.operate hs h₀ operations
  obtain ⟨lost, made, es, ha, hl⟩ := hsession.account
  refine ⟨⟨made, ha.patches, ha.nodup, fun p hp => ?_⟩, fun stash hstash => ?_, ?_,
    (Selection.after_release hs w).1, ?_, patchFiles_of_run g⟩
  · rw [ha.patchPath]
    rcases List.mem_append.1 (ha.files.mem_iff.1 (List.mem_map_of_mem hp)) with hfile | hlost
    · obtain ⟨stash, hstash, hfile⟩ := Option.map_eq_some_iff.1 (Option.mem_toList.1 hfile)
      exact .inl ⟨stash, hstash, hfile⟩
    · exact .inr (hl (List.mem_map_of_mem hlost))
  · cases hp : w.memory.paths with
    | none =>
      rw [hsession.unmade hp] at hstash
      cases hstash
    | some paths => exact ⟨paths, rfl, Selection.get_of_known hp⟩
  · exact fun e w' he => Selection.unknown_of_get_error hs hsession.unmade he
  · intro paths w' hget later
    exact Selection.get_of_known (Selection.known_of_operate hs (Selection.known_of_get hget) later)

def stagedSelection : Selection Git.Single Git.Single.Patch :=
  ⟨.staged, [], "/tree", ⟨[], [], .empty, .root⟩, Git.single.source "/tree", false⟩

theorem stashes_of_edited_settled :
    stagedSelection.source = Git.single.source "/tree" ∧ Git.edited.Unstashed ∧
      let w := (stagedSelection.operate [.enter, .get, .release, .get, .leave] Git.edited).2
      (Run.after stagedSelection.release w).memory.stash = none ∧
        ∀ stash, w.memory.stash = some stash →
          ∃ paths, w.memory.paths = some paths ∧ stagedSelection.get w = .ok paths w := by
  have hs : stagedSelection.source = Git.single.source "/tree" := rfl
  obtain ⟨-, hactive, -, hrelease, -⟩ := stashes_settled Git.single hs Stash.edited_unstashed
    [.enter, .get, .release, .get, .leave]
  exact ⟨hs, Stash.edited_unstashed, hrelease, hactive⟩

end CommandLine
end PathSelection
