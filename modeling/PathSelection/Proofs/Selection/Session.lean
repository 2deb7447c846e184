import PathSelection.Proofs.Selection.Steps
import PathSelection.Proofs.Stash.Account

namespace PathSelection

variable {σ π α β : Type}

namespace Stash

/-- A run keeps the account of the patch files. It loses only what its failure names, and then it
leaves no stash. -/
def Accounts (w₀ : Workspace σ π) (x : Run σ π α) (w : Workspace σ π) : Prop :=
  ∀ lost made es, Account w₀ lost w made es → ∃ lost' made' es',
    Account w₀ (lost' ++ lost) (x.after w) made' es' ∧
      lost'.map w₀.patchPath ⊆ (x.raised w).filterMap Failure.patchFile? ∧
      (lost' ≠ [] → (x.after w).memory.stash = none)

variable {w₀ w w' : Workspace σ π} {x : Run σ π α}

theorem Account.of_quiet {lost : List Nat} {made : List (Nat × π)} {es : List Event}
    (h : Account w₀ lost w made es) (hq : w.Quiet w') : ∃ es', Account w₀ lost w' made es' := by
  obtain ⟨es', he, hes⟩ := hq.history
  exact ⟨_, h.quiet hq he hes⟩

theorem Account.remember {lost : List Nat} {made : List (Nat × π)} {es : List Event}
    (h : Account w₀ lost w made es) (paths : Option (List Text)) :
    Account w₀ lost { w with memory := { w.memory with paths } } made es :=
  ⟨h.directory, h.patches, h.files, h.nodup, h.bounds, h.next, h.history, h.written, h.present,
    h.removed⟩

theorem accounts_quiet (h : w.Quiet (x.after w)) : Accounts w₀ x w := by
  intro lost made es ha
  obtain ⟨es', ha'⟩ := ha.of_quiet h
  exact ⟨[], made, es', ha', List.nil_subset _, fun hne => (hne rfl).elim⟩

theorem Accounts.of_ok (h : Accounts w₀ x w) {a : α} (hx : x w = .ok a w') {lost : List Nat}
    {made : List (Nat × π)} {es : List Event} (ha : Account w₀ lost w made es) :
    ∃ made' es', Account w₀ lost w' made' es' := by
  obtain ⟨lost', made', es', ha', hl, -⟩ := h lost made es ha
  rw [Run.raised_of_ok hx] at hl
  obtain rfl : lost' = [] := List.map_eq_nil_iff.1 (List.subset_nil.1 hl)
  rw [Run.after_of_ok hx] at ha'
  exact ⟨made', es', ha'⟩

theorem Accounts.congr {y : Run σ π β} {w₁ : Workspace σ π} (h : Accounts w₀ y w₁)
    (hafter : x.after w = y.after w₁) (hraised : x.raised w = y.raised w₁)
    (hstart : ∀ lost made es, Account w₀ lost w made es →
      ∃ made' es', Account w₀ lost w₁ made' es') : Accounts w₀ x w := by
  intro lost made es ha
  obtain ⟨made₁, es₁, ha₁⟩ := hstart lost made es ha
  rw [hafter, hraised]
  exact h lost made₁ es₁ ha₁

theorem Accounts.bind {f : α → Run σ π β} (h : Accounts w₀ x w)
    (hf : ∀ a w', x w = .ok a w' → Accounts w₀ (f a) w') : Accounts w₀ (x >>= f) w := by
  cases hx : x w with
  | ok a w' =>
    have hbind : (x >>= f) w = f a w' := Run.bind_of_ok hx
    refine (hf a w' hx).congr ?_ ?_ fun lost made es ha => h.of_ok hx ha
    · rw [Run.after, Run.after, hbind]
    · rw [Run.raised, Run.raised, hbind]
  | error e w' =>
    have hbind : (x >>= f) w = .error e w' := Run.bind_of_error hx
    refine h.congr ?_ ?_ fun lost made es ha => ⟨made, es, ha⟩
    · rw [Run.after_of_error hbind, Run.after_of_error hx]
    · rw [Run.raised_of_error hbind, Run.raised_of_error hx]

variable {g : Git σ π} {directory : Text}

theorem accounts_stash (h₀ : w₀.Unstashed) : Accounts w₀ (g.source directory).stash w := by
  intro lost made es ha
  obtain ⟨⟨made', es', ha'⟩, -⟩ := ha.stash g directory h₀
  exact ⟨[], made', es', ha', List.nil_subset _, fun hne => (hne rfl).elim⟩

theorem accounts_unstash (h₀ : w₀.Unstashed) : Accounts w₀ (g.source directory).unstash w := by
  intro lost made es ha
  obtain ⟨lost', made', es', ha', hl⟩ := ha.unstash g directory h₀
  rw [hl]
  exact ⟨lost', made', es', ha', List.Subset.refl _,
    fun _ => (g.unstash_inactive directory w).1⟩

end Stash

namespace Selection

open Stash

variable {s : Selection σ π} {g : Git σ π} {directory : Text} {w₀ w w' : Workspace σ π}

theorem start_paths (hs : s.source = g.source directory) (h : w.memory.stash = none) :
    (Run.after s.start w).memory.paths = w.memory.paths := by
  by_cases hm : s.mode = .staged
  · rw [Run.after, start_of_staged hm h, ← Run.after, Run.after_ignore, hs]
    exact g.paths_keptByStashing.stash directory w
  · rw [Run.after_of_ok (start_of_not_staged hm)]

theorem inactive_of_start_error (hs : s.source = g.source directory) (h : w.memory.stash = none)
    {e : Failure} (he : s.start w = .error e w') : w'.memory.stash = none := by
  by_cases hm : s.mode = .staged
  · rw [start_of_staged hm h] at he
    cases hr : s.source.stash w with
    | ok b w₁ =>
      rw [Run.bind_of_ok hr] at he
      cases he
    | error e₁ w₁ =>
      rw [Run.bind_of_error hr] at he
      cases he
      rw [hs] at hr
      exact Git.inactive_of_stash_error hr
  · rw [start_of_not_staged hm] at he
    cases he

theorem accounts_start (hs : s.source = g.source directory) (h₀ : w₀.Unstashed)
    (h : w.memory.stash = none) : Accounts w₀ s.start w := by
  by_cases hm : s.mode = .staged
  · have hstart := start_of_staged hm h
    have hstash : Accounts w₀ (do let _ ← s.source.stash) w := by
      rw [hs]
      exact (accounts_stash h₀).bind fun _ _ _ => accounts_quiet (.refl _)
    refine hstash.congr ?_ ?_ fun lost made es ha => ⟨made, es, ha⟩
    · rw [Run.after, Run.after, hstart]
    · rw [Run.raised, Run.raised, hstart]
  · apply accounts_quiet
    rw [Run.after_of_ok (start_of_not_staged hm)]
    exact .refl w

theorem accounts_release (hs : s.source = g.source directory) (h₀ : w₀.Unstashed) :
    Accounts w₀ s.release w := by
  rw [release, hs]
  exact accounts_unstash h₀

theorem after_release (hs : s.source = g.source directory) (w : Workspace σ π) :
    (Run.after s.release w).memory.stash = none ∧
      (Run.after s.release w).memory.paths = w.memory.paths := by
  rw [release, hs]
  exact ⟨(g.unstash_inactive directory w).1, g.paths_keptByStashing.unstash directory w⟩

theorem release_error (hs : s.source = g.source directory) {e : Failure}
    (h : s.release w = .error e w') :
    ∃ patchFile reason, e = .stashRestore patchFile reason ∧ w.memory.stash ≠ none := by
  rw [release, hs] at h
  have hraised := Run.raised_of_error h
  obtain ⟨reason, stash, rfl, hactive⟩ :=
    (g.unstash_inactive directory w).2 e (hraised ▸ List.mem_singleton_self e)
  refine ⟨_, reason, rfl, ?_⟩
  rw [hactive]
  exact Option.some_ne_none stash

theorem accounts_get (hs : s.source = g.source directory) (h₀ : w₀.Unstashed)
    (h : w.memory.paths = none → w.memory.stash = none) : Accounts w₀ s.get w := by
  have hfound := quiet_found hs
  have ho := s.getOutcome w
  intro lost made es ha
  cases hr : s.get w with
  | ok paths w' =>
    rw [hr] at ho
    rw [Run.after_of_ok hr, Run.raised_of_ok hr]
    cases ho with
    | known hp => exact ⟨[], made, es, ha, List.nil_subset _, fun hne => (hne rfl).elim⟩
    | made hp hb hf =>
      obtain ⟨made₁, es₁, ha₁⟩ := (accounts_start hs h₀ (h hp)).of_ok hb ha
      obtain ⟨es₂, ha₂⟩ := ha₁.of_quiet (hfound.of_ok hf)
      exact ⟨[], made₁, _, (ha₂.record rfl).remember _, List.nil_subset _,
        fun hne => (hne rfl).elim⟩
  | error e w' =>
    rw [hr] at ho
    rw [Run.after_of_error hr, Run.raised_of_error hr]
    cases ho with
    | notStarted hp hb =>
      have hstart := accounts_start hs h₀ (h hp) lost made es ha
      rwa [Run.after_of_error hb, Run.raised_of_error hb] at hstart
    | released hp hb hf hu =>
      obtain ⟨made₁, es₁, ha₁⟩ := (accounts_start hs h₀ (h hp)).of_ok hb ha
      obtain ⟨es₂, ha₂⟩ := ha₁.of_quiet (hfound.of_error hf)
      obtain ⟨made₃, es₃, ha₃⟩ := (accounts_release hs h₀).of_ok hu ha₂
      exact ⟨[], made₃, es₃, ha₃, List.nil_subset _, fun hne => (hne rfl).elim⟩
    | notReleased hp hb hf hu =>
      obtain ⟨made₁, es₁, ha₁⟩ := (accounts_start hs h₀ (h hp)).of_ok hb ha
      obtain ⟨es₂, ha₂⟩ := ha₁.of_quiet (hfound.of_error hf)
      have hrelease := accounts_release hs h₀ lost made₁ es₂ ha₂
      rwa [Run.after_of_error hu, Run.raised_of_error hu] at hrelease

theorem known_of_get {paths : List Text} (h : s.get w = .ok paths w') :
    w'.memory.paths = some paths := by
  have ho := s.getOutcome w
  rw [h] at ho
  cases ho with
  | known hp => exact hp
  | made hp hb hf => rfl

theorem unknown_of_get_error (hs : s.source = g.source directory)
    (h : w.memory.paths = none → w.memory.stash = none) {e : Failure}
    (he : s.get w = .error e w') : w'.memory.stash = none ∧ w'.memory.paths = none := by
  have hfound := quiet_found hs
  have ho := s.getOutcome w
  rw [he] at ho
  cases ho with
  | notStarted hp hb =>
    have hpaths := start_paths hs (h hp)
    rw [Run.after_of_error hb] at hpaths
    exact ⟨inactive_of_start_error hs (h hp) hb, hpaths.trans hp⟩
  | @released e w₁ w₂ w₃ hp hb hf hu =>
    have hpaths := start_paths hs (h hp)
    rw [Run.after_of_ok hb] at hpaths
    obtain ⟨hinactive, hkept⟩ := after_release hs w₂
    rw [Run.after_of_ok hu] at hinactive hkept
    exact ⟨hinactive, hkept.trans ((hfound.of_error hf).paths.trans (hpaths.trans hp))⟩
  | @notReleased e e' w₁ w₂ w₃ hp hb hf hu =>
    have hpaths := start_paths hs (h hp)
    rw [Run.after_of_ok hb] at hpaths
    obtain ⟨hinactive, hkept⟩ := after_release hs w₂
    rw [Run.after_of_error hu] at hinactive hkept
    exact ⟨hinactive, hkept.trans ((hfound.of_error hf).paths.trans (hpaths.trans hp))⟩

/-- What can be done with a selection. In the meantime files and git may change in any way. -/
inductive Operation (σ : Type) where
  | get
  | release
  | enter
  | leave
  | meanwhile (git : σ) (view : View)

def Operation.run (s : Selection σ π) : Operation σ → Run σ π Unit
  | .get => do let _ ← s.get
  | .release | .leave => s.release
  | .enter => pure ()
  | .meanwhile git view => modify fun w => { w with git, disk := view.disk, cwd := view.cwd }

def operate (s : Selection σ π) (operations : List (Operation σ)) (w : Workspace σ π) :
    List Failure × Workspace σ π :=
  Run.runAll (operations.map (Operation.run s)) w

/-- What holds all through a session: lost patch files have been named, and there is a stash only
once the paths are known. -/
structure Session (w₀ : Workspace σ π) (raised : List Failure) (w : Workspace σ π) : Prop where
  account : ∃ lost made es, Account w₀ lost w made es ∧
    lost.map w₀.patchPath ⊆ raised.filterMap Failure.patchFile?
  unmade : w.memory.paths = none → w.memory.stash = none

theorem Session.next {raised raised' : List Failure} (h : Session w₀ raised w)
    {x : Run σ π α} (hx : Accounts w₀ x w) (hraised : x.raised w = raised')
    (hu : (x.after w).memory.paths = none → (x.after w).memory.stash = none) :
    Session w₀ (raised ++ raised') (x.after w) := by
  obtain ⟨lost, made, es, ha, hl⟩ := h.account
  obtain ⟨lost', made', es', ha', hl', -⟩ := hx lost made es ha
  refine ⟨⟨lost' ++ lost, made', es', ha', ?_⟩, hu⟩
  rw [hraised] at hl'
  rw [List.map_append, List.filterMap_append]
  exact List.append_subset.2 ⟨List.subset_append_of_subset_right _ hl',
    List.subset_append_of_subset_left _ hl⟩

theorem Session.step (hs : s.source = g.source directory) (h₀ : w₀.Unstashed)
    {raised : List Failure} (h : Session w₀ raised w) (operation : Operation σ) :
    Session w₀ (raised ++ Run.raised (operation.run s) w) (Run.after (operation.run s) w) := by
  have hrelease : Session w₀ (raised ++ Run.raised s.release w) (Run.after s.release w) :=
    h.next (accounts_release hs h₀) rfl fun _ => (after_release hs w).1
  cases operation with
  | get =>
    rw [Operation.run, Run.raised_ignore, Run.after_ignore]
    refine h.next (accounts_get hs h₀ h.unmade) rfl ?_
    cases hr : s.get w with
    | ok paths w' =>
      rw [Run.after_of_ok hr, known_of_get hr]
      exact nofun
    | error e w' =>
      rw [Run.after_of_error hr]
      exact fun _ => (unknown_of_get_error hs h.unmade hr).1
  | release => exact hrelease
  | leave => exact hrelease
  | enter => exact h.next (x := pure ()) (accounts_quiet (.refl w)) rfl h.unmade
  | meanwhile git view =>
    refine h.next (x := Operation.run s (.meanwhile git view)) (accounts_quiet ?_) rfl h.unmade
    exact ⟨rfl, rfl, rfl, rfl, rfl, [], (List.append_nil _).symm, nofun⟩

theorem Session.operate (hs : s.source = g.source directory) (h₀ : w₀.Unstashed)
    (operations : List (Operation σ)) :
    Session w₀ (s.operate operations w₀).1 (s.operate operations w₀).2 := by
  have hstart : Session w₀ [] w₀ :=
    ⟨⟨[], [], [], .start h₀.inactive, List.nil_subset _⟩, fun _ => h₀.inactive⟩
  refine Run.runAll_keeps (fun x hx raised w h => ?_) hstart
  obtain ⟨operation, -, rfl⟩ := List.mem_map.1 hx
  exact h.step hs h₀ operation

theorem known_of_operate (hs : s.source = g.source directory) {paths : List Text}
    (h : w.memory.paths = some paths) (operations : List (Operation σ)) :
    (s.operate operations w).2.memory.paths = some paths := by
  let Known (w : Workspace σ π) : Prop := w.memory.paths = some paths
  refine Run.runAll_keeps_workspace (I := Known) (fun x hx w h => ?_) h
  obtain ⟨operation, -, rfl⟩ := List.mem_map.1 hx
  have hrelease : (Run.after s.release w).memory.paths = some paths :=
    (after_release hs w).2.trans h
  cases operation with
  | get =>
    rw [Operation.run, Run.after_ignore, Run.after_of_ok (get_of_known h)]
    exact h
  | release => exact hrelease
  | leave => exact hrelease
  | enter => exact h
  | meanwhile git view => exact h

end Selection
end PathSelection
