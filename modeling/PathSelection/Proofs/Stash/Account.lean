import PathSelection.Proofs.Stash.Steps

namespace PathSelection

variable {σ π α : Type}

/-- The patch file in which a failure leaves the stashed changes. -/
def Failure.patchFile? : Failure → Option Text
  | .stashRestore patchFile _ => some patchFile
  | _ => none

/-- No stash is active, and the numbers of all patch files have been given out. -/
structure Workspace.Unstashed (w : Workspace σ π) : Prop where
  inactive : w.memory.stash = none
  numbered : ∀ p ∈ w.patches, p.1 < w.nextPatch

namespace Stash

/-- The tracked files were given their staged content after a patch file had been made. -/
def TakenOut (es : List Event) (file : Nat) : Prop :=
  ∃ before after directory, es = before ++ .patchWritten file :: after ∧
    .ran .checkout directory true ∈ after

theorem split_of_append {es es' before after : List Event} {e : Event}
    (h : es ++ es' = before ++ e :: after) (he : e ∉ es') :
    ∃ after', es = before ++ e :: after' := by
  rcases List.append_eq_append_iff.1 h with ⟨t, -, rfl⟩ | ⟨t, rfl, ht⟩
  · exact (he (by simp)).elim
  · cases t with
    | nil =>
      rw [List.nil_append] at ht
      rw [← ht] at he
      exact (he List.mem_cons_self).elim
    | cons e' t =>
      obtain ⟨rfl, -⟩ := List.cons.inj ht
      exact ⟨t, rfl⟩

theorem split_of_concat {es before after : List Event} {e e' : Event}
    (h : es ++ [e'] = before ++ e :: after) :
    (∃ after', es = before ++ e :: after') ∨ before = es ∧ e = e' := by
  rcases List.append_eq_append_iff.1 h with ⟨t, rfl, ht⟩ | ⟨t, rfl, ht⟩
  · cases t with
    | nil =>
      obtain ⟨rfl, -⟩ := List.cons.inj ht
      exact .inr ⟨List.append_nil _, rfl⟩
    | cons e₁ t => simp at ht
  · cases t with
    | nil =>
      obtain ⟨rfl, -⟩ := List.cons.inj ht
      exact .inr ⟨(List.append_nil _).symm, rfl⟩
    | cons e₁ t =>
      obtain ⟨rfl, -⟩ := List.cons.inj ht
      exact .inl ⟨t, rfl⟩

theorem not_takenOut_of_fresh {es after : List Event} {file : Nat}
    (hes : .patchWritten file ∉ es) (hafter : ∀ directory, .ran .checkout directory true ∉ after) :
    ¬ TakenOut (es ++ .patchWritten file :: after) file := by
  rintro ⟨before, after', directory, h, hc⟩
  rcases List.append_eq_append_iff.1 h with ⟨t, rfl, ht⟩ | ⟨t, rfl, ht⟩
  · cases t with
    | nil =>
      obtain ⟨-, rfl⟩ := List.cons.inj ht
      exact hafter directory hc
    | cons e t =>
      obtain ⟨-, rfl⟩ := List.cons.inj ht
      exact hafter directory (by simp [hc])
  · cases t with
    | nil =>
      obtain ⟨-, rfl⟩ := List.cons.inj ht
      exact hafter directory hc
    | cons e t =>
      obtain ⟨rfl, -⟩ := List.cons.inj ht
      exact hes (by simp)

/-- The account since a workspace: the patch files made and still on disk, and the events. Those on
disk are that of the active stash and the lost ones, and one whose changes had been taken out was
removed only when git had just applied it. -/
structure Account (w₀ : Workspace σ π) (lost : List Nat) (w : Workspace σ π)
    (made : List (Nat × π)) (es : List Event) : Prop where
  directory : w.patchDirectory = w₀.patchDirectory
  patches : w.patches = made ++ w₀.patches
  files : (made.map Prod.fst).Perm ((w.memory.stash.map Stash.file).toList ++ lost)
  nodup : (made.map Prod.fst).Nodup
  bounds : ∀ p ∈ made, w₀.nextPatch ≤ p.1 ∧ p.1 < w.nextPatch
  next : w₀.nextPatch ≤ w.nextPatch
  history : w.history = w₀.history ++ es
  written : ∀ n, .patchWritten n ∈ es ↔ w₀.nextPatch ≤ n ∧ n < w.nextPatch
  present : ∀ n, .patchWritten n ∈ es → .patchRemoved n ∉ es → n ∈ made.map Prod.fst
  removed : ∀ before n after, es = before ++ .patchRemoved n :: after → TakenOut before n →
    ∃ start directory, before = start ++ [.ran (.apply (w₀.patchPath n)) directory true]

namespace Account

variable {w₀ w w' : Workspace σ π} {lost : List Nat} {made : List (Nat × π)} {es : List Event}

theorem start (h : w₀.memory.stash = none) : Account w₀ [] w₀ [] [] where
  directory := rfl
  patches := rfl
  files := by simp [h]
  nodup := .nil
  bounds := nofun
  next := Nat.le_refl _
  history := (List.append_nil _).symm
  written n := by simp only [List.not_mem_nil, false_iff]; omega
  present := nofun
  removed before n after h := by simp at h

theorem patchPath (h : Account w₀ lost w made es) : w.patchPath = w₀.patchPath := by
  funext n
  rw [Workspace.patchPath, h.directory]
  rfl

theorem quiet (h : Account w₀ lost w made es) (hq : w.Quiet w') {es' : List Event}
    (hes : w'.history = w.history ++ es') (hes' : ∀ e ∈ es', e.isQuiet = true) :
    Account w₀ lost w' made (es ++ es') := by
  have hw (n : Nat) : .patchWritten n ∉ es' := fun hn => by cases hes' _ hn
  have hr (n : Nat) : .patchRemoved n ∉ es' := fun hn => by cases hes' _ hn
  constructor
  case directory => exact hq.patchDirectory.trans h.directory
  case patches => exact hq.patches.trans h.patches
  case files =>
    rw [hq.stash]
    exact h.files
  case nodup => exact h.nodup
  case bounds =>
    rw [hq.nextPatch]
    exact h.bounds
  case next =>
    rw [hq.nextPatch]
    exact h.next
  case history => rw [hes, h.history, List.append_assoc]
  case written =>
    intro n
    rw [hq.nextPatch, ← h.written n]
    simp [hw n]
  case present =>
    intro n hn hn'
    simp only [List.mem_append, hw n, hr n, or_false] at hn hn'
    exact h.present n hn hn'
  case removed =>
    intro before n after he
    obtain ⟨after', he⟩ := split_of_append he (hr n)
    exact h.removed before n after' he

theorem ran {act : σ → Disk → Git.Reply α × σ × Disk} {command : Git.Command} {directory : Text}
    {succeeded : Bool} (h : Account w₀ lost w made es)
    (hr : Git.Ran act command directory succeeded w w') :
    Account w₀ lost w' made (es ++ [.ran command directory succeeded]) := by
  apply h.quiet hr.quiet
  · rw [hr.2]
    rfl
  · intro e he
    rw [List.mem_singleton.1 he]
    rfl

theorem record {e : Event} (h : Account w₀ lost w made es) (he : e.isQuiet = true) :
    Account w₀ lost (w.record e) made (es ++ [e]) := by
  apply h.quiet (.record w he) rfl
  intro e' he'
  rw [List.mem_singleton.1 he', he]

theorem writing (h : Account w₀ lost w made es) (hs : w.memory.stash = none) (patch : π)
    (top : WrittenPath) :
    Account w₀ lost (w.written patch top) ((w.nextPatch, patch) :: made)
      (es ++ [.patchWritten w.nextPatch, .stashed (w.patchPath w.nextPatch)]) := by
  have hnext : w.nextPatch ∉ made.map Prod.fst := by
    intro hn
    obtain ⟨p, hp, he⟩ := List.mem_map.1 hn
    have := (h.bounds p hp).2
    omega
  have hlost : (made.map Prod.fst).Perm lost := by
    have hf := h.files
    rwa [hs] at hf
  constructor
  case directory => exact h.directory
  case patches => simp only [Workspace.written, Workspace.record, h.patches, List.cons_append]
  case files => exact hlost.cons _
  case nodup => exact List.nodup_cons.2 ⟨hnext, h.nodup⟩
  case bounds =>
    intro p hp
    have hle := h.next
    rcases List.mem_cons.1 hp with rfl | hp
    · exact ⟨hle, Nat.lt_succ_self _⟩
    · obtain ⟨h₁, h₂⟩ := h.bounds p hp
      exact ⟨h₁, Nat.lt_succ_of_lt h₂⟩
  case next => exact Nat.le_succ_of_le h.next
  case history =>
    simp only [Workspace.written, Workspace.record, h.history, List.append_assoc]
    rfl
  case written =>
    intro n
    have hle := h.next
    simp only [List.mem_append, h.written n, Workspace.written, Workspace.record, List.mem_cons,
      Event.patchWritten.injEq, reduceCtorEq, List.not_mem_nil, or_false]
    omega
  case present =>
    intro n hn hn'
    simp only [List.mem_append, List.mem_cons, Event.patchWritten.injEq, reduceCtorEq,
      List.not_mem_nil, or_false] at hn hn'
    rcases hn with hn | rfl
    · exact List.mem_cons_of_mem _ (h.present n hn hn')
    · exact List.mem_cons_self
  case removed =>
    intro before n after he
    obtain ⟨after', he⟩ := split_of_append he (by simp)
    exact h.removed before n after' he

theorem dropping (h₀ : w₀.Unstashed) (h : Account w₀ lost w made es) {stash : Stash π}
    (hs : w.memory.stash = some stash) (hes : TakenOut es stash.file →
      ∃ start directory, es = start ++ [.ran (.apply (w₀.patchPath stash.file)) directory true]) :
    Account w₀ lost (w.dropped stash) (made.filter fun p => p.1 != stash.file)
      (es ++ [.patchRemoved stash.file]) := by
  have hfiles : (made.map Prod.fst).Perm (stash.file :: lost) := by
    have hf := h.files
    rwa [hs] at hf
  have hlost : stash.file ∉ lost := (List.nodup_cons.1 (hfiles.nodup_iff.1 h.nodup)).1
  have hle : w₀.nextPatch ≤ stash.file := by
    obtain ⟨p, hp, he⟩ := List.mem_map.1 (hfiles.mem_iff.2 List.mem_cons_self)
    rw [← he]
    exact (h.bounds p hp).1
  have hmap : (made.filter fun p => p.1 != stash.file).map Prod.fst =
      (made.map Prod.fst).filter (· != stash.file) := by
    rw [List.filter_map]
    rfl
  constructor
  case directory => exact h.directory
  case patches =>
    have hold : w₀.patches.filter (fun p => p.1 != stash.file) = w₀.patches := by
      apply List.filter_eq_self.2
      intro p hp
      have := h₀.numbered p hp
      simp only [bne_iff_ne, ne_eq]
      omega
    simp only [Workspace.dropped, Workspace.record, h.patches, List.filter_append, hold]
  case files =>
    have hkeep : lost.filter (· != stash.file) = lost := by
      apply List.filter_eq_self.2
      intro n hn
      apply bne_iff_ne.2
      rintro rfl
      exact hlost hn
    have hf := hfiles.filter (· != stash.file)
    rw [List.filter_cons_of_neg (by simp), hkeep] at hf
    rw [hmap]
    exact hf
  case nodup =>
    rw [hmap]
    exact h.nodup.filter _
  case bounds => exact fun p hp => h.bounds p (List.mem_filter.1 hp).1
  case next => exact h.next
  case history =>
    simp only [Workspace.dropped, Workspace.record, Workspace.unstashed, h.history,
      List.append_assoc]
  case written =>
    intro n
    rw [← show w.nextPatch = (w.dropped stash).nextPatch from rfl, ← h.written n]
    simp
  case present =>
    intro n hn hn'
    simp only [List.mem_append, List.mem_singleton, reduceCtorEq, or_false,
      Event.patchRemoved.injEq, not_or] at hn hn'
    rw [hmap]
    exact List.mem_filter.2 ⟨h.present n hn hn'.1, by simpa using hn'.2⟩
  case removed =>
    intro before n after he ht
    rcases split_of_concat he with ⟨after', he⟩ | ⟨rfl, hn⟩
    · exact h.removed before n after' he ht
    · obtain rfl := Event.patchRemoved.inj hn
      exact hes ht

theorem losing (h : Account w₀ lost w made es) {stash : Stash π}
    (hs : w.memory.stash = some stash) :
    Account w₀ (stash.file :: lost) w.unstashed made es := by
  refine ⟨h.directory, h.patches, ?_, h.nodup, h.bounds, h.next, h.history, h.written, h.present,
    h.removed⟩
  have hf := h.files
  rwa [hs] at hf

theorem stash (g : Git σ π) (directory : Text) (h₀ : w₀.Unstashed)
    (h : Account w₀ lost w made es) :
    (∃ made' es', Account w₀ lost (Run.after (g.source directory).stash w) made' es') ∧
      ∀ e ∈ Run.raised (g.source directory).stash w, e.patchFile? = none := by
  have hquiet : Run.Keeps Workspace.Quiet (g.unstagedChanges directory) :=
    g.quiet_keptByQuestions.unstagedChanges
  have ho := g.stashOutcome directory w
  unfold Run.after Run.raised
  cases hr : (g.source directory).stash w with
  | ok b w' =>
    rw [hr] at ho
    refine ⟨?_, nofun⟩
    cases ho with
    | active stash hs => exact ⟨_, _, h⟩
    | blank hs hu hb =>
      obtain ⟨es₁, he₁, hq₁⟩ := (hquiet.of_ok hu).history
      exact ⟨_, _, (h.quiet (hquiet.of_ok hu) he₁ hq₁).record rfl⟩
    | taken hs hu hb ht hd =>
      have hq := hquiet.of_ok hu
      obtain ⟨es₁, he₁, hq₁⟩ := hq.history
      exact ⟨_, _, ((h.quiet hq he₁ hq₁).writing (hq.stash.trans hs) _ _).ran hd⟩
  | error e w' =>
    rw [hr] at ho
    cases ho with
    | unknown hs hu =>
      obtain ⟨es₁, he₁, hq₁⟩ := (hquiet.of_error hu).history
      refine ⟨⟨_, _, h.quiet (hquiet.of_error hu) he₁ hq₁⟩, ?_⟩
      intro e' he'
      obtain ⟨command, errors, he⟩ := Git.failsWith_unstagedChanges _ _ _ hu
      rw [List.mem_singleton.1 he', he]
      rfl
    | @refused patch top w₁ w₂ e hs hu hb ht hd he =>
      have hq := hquiet.of_ok hu
      obtain ⟨es₁, he₁, hq₁⟩ := hq.history
      have h₁ := h.quiet hq he₁ hq₁
      have h₂ := (h₁.writing (hq.stash.trans hs) patch top).ran hd
      -- The file that is removed here was made just before, and nothing was taken out since.
      have hfresh : ¬ TakenOut ((es ++ es₁) ++ [.patchWritten w₁.nextPatch,
          .stashed (w₁.patchPath w₁.nextPatch)] ++ [.ran .checkout top.text false])
          w₁.nextPatch := by
        rw [List.append_assoc]
        refine not_takenOut_of_fresh (fun hn => ?_) (by simp)
        exact absurd ((h₁.written _).1 hn).2 (Nat.lt_irrefl _)
      refine ⟨⟨_, _, h₂.dropping h₀ (hd.quiet.stash.trans rfl) fun ht => (hfresh ht).elim⟩, ?_⟩
      intro e' he'
      obtain ⟨command, errors, he⟩ := he
      rw [List.mem_singleton.1 he', he]
      rfl

theorem unstash (g : Git σ π) (directory : Text) (h₀ : w₀.Unstashed)
    (h : Account w₀ lost w made es) :
    ∃ lost' made' es',
      Account w₀ (lost' ++ lost) (Run.after (g.source directory).unstash w) made' es' ∧
        (Run.raised (g.source directory).unstash w).filterMap Failure.patchFile? =
          lost'.map w₀.patchPath := by
  have ho := g.unstashOutcome directory w
  unfold Run.after Run.raised
  cases hr : (g.source directory).unstash w with
  | ok u w' =>
    rw [hr] at ho
    cases ho with
    | inactive hs => exact ⟨[], _, _, h, rfl⟩
    | restored hs ha =>
      rw [h.patchPath] at ha
      have h₁ := h.ran ha
      exact ⟨[], _, _, (h₁.dropping h₀ (ha.quiet.stash.trans hs) fun _ => ⟨_, _, rfl⟩).record rfl,
        rfl⟩
    | forced hs ha hd ha' =>
      rw [h.patchPath] at ha ha'
      have hq := ((ha.quiet.trans (.record _ rfl)).trans hd.quiet).trans ha'.quiet
      have h₁ := (((h.ran ha).record rfl).ran hd).ran ha'
      exact ⟨[], _, _, (h₁.dropping h₀ (hq.stash.trans hs) fun _ => ⟨_, _, rfl⟩).record rfl, rfl⟩
  | error e w' =>
    rw [hr] at ho
    cases ho with
    | notDiscarded hs ha hd =>
      have hq := (ha.quiet.trans (.record _ rfl)).trans hd.quiet
      have h₁ := ((h.ran ha).record rfl).ran hd
      refine ⟨[_], _, _, h₁.losing (hq.stash.trans hs), ?_⟩
      rw [h.patchPath]
      rfl
    | notReapplied hs ha hd ha' =>
      have hq := ((ha.quiet.trans (.record _ rfl)).trans hd.quiet).trans ha'.quiet
      have h₁ := (((h.ran ha).record rfl).ran hd).ran ha'
      refine ⟨[_], _, _, h₁.losing (hq.stash.trans hs), ?_⟩
      rw [h.patchPath]
      rfl

end Account
end Stash
end PathSelection
