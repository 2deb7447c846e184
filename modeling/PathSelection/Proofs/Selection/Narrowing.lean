import PathSelection.Proofs.Selection.Starts
import PathSelection.Proofs.Walk.Outcome

namespace PathSelection.Selection

variable {σ π : Type} {s : Selection σ π} {F : PathFilter} {w w₁ w₂ : Workspace σ π}
  {paths fewer : List Text} {v : View} {raw : Text}

def filteredBy (s : Selection σ π) (F : PathFilter) : Selection σ π := { s with filter := F }

theorem contribution_subset (h : F.Extends s.filter) (hl : s.followLinks = false)
    (hs : s.Fair v raw) (hF : (s.filteredBy F).Fair v raw) :
    (s.filteredBy F).contribution v raw ⊆ s.contribution v raw := by
  obtain ⟨hended, -⟩ := hs
  obtain ⟨hended', -⟩ := hF
  have hended' : (Walk.start v F s.followLinks raw).ended = .ok () := hended'
  rw [hl] at hended hended'
  intro t ht
  rw [contribution, List.mem_filter, Bool.and_eq_true] at ht ⊢
  obtain ⟨hcome, hadmits, hown⟩ := ht
  rw [Bool.not_eq_true', List.contains_eq_mem, decide_eq_false_iff_not] at hown ⊢
  refine ⟨?_, h.admits hadmits, fun hmem => hown ?_⟩
  · have hfiles := Walk.files_start_subset (fun q isDir => h.admits) hended' hended
    obtain ⟨p, hp, rfl⟩ := List.mem_map.1 hcome
    have hp : p ∈ (Walk.start v F s.followLinks raw).files := hp
    rw [hl] at hp ⊢
    exact List.mem_map_of_mem (hfiles hp)
  · obtain ⟨file, hfile, rfl⟩ := List.mem_map.1 hmem
    exact List.mem_map_of_mem (h.ignoreFiles hfile)

theorem contributions_of_get (hp : w.memory.paths = none) (h : s.get w = .ok paths w₁) :
    ∃ w₀ starts w₂, s.start w = .ok () w₀ ∧
      s.mode.startingPaths s.paths s.cwd s.source w₀ = .ok starts w₂ ∧
      (∀ raw ∈ starts, s.Fair w₂.view raw) ∧
      paths = Text.sorted (starts.flatMap (s.contribution w₂.view)) := by
  obtain ⟨w₀, w₃, found, hstart, hfound, rfl, -⟩ := made_of_get hp h
  obtain ⟨starts, w₂, hstarts, hended, hkeep⟩ := ok_of_found hfound
  obtain ⟨hfair, hchosen⟩ := chosen_of_keep hended hkeep
  exact ⟨w₀, starts, w₂, hstart, hstarts, hfair, hchosen⟩

theorem subset_of_extends (h : F.Extends s.filter) (hl : s.followLinks = false)
    (hp : w.memory.paths = none) (hs : s.get w = .ok paths w₁)
    (hF : (s.filteredBy F).get w = .ok fewer w₂) : fewer ⊆ paths := by
  obtain ⟨w₀, starts, w₃, hstart, hstarts, hfair, rfl⟩ := contributions_of_get hp hs
  obtain ⟨w₀', starts', w₃', hstart', hstarts', hfair', rfl⟩ := contributions_of_get hp hF
  cases hstart.symm.trans hstart'
  cases hstarts.symm.trans hstarts'
  intro t ht
  rw [Text.mem_sorted, List.mem_flatMap] at ht ⊢
  obtain ⟨raw, hraw, ht⟩ := ht
  exact ⟨raw, hraw, contribution_subset h hl (hfair raw hraw) (hfair' raw hraw) ht⟩

/-- The more is excluded, the fewer paths are selected. -/
theorem fewer_of_more_excluded {mode : Mode} {given excluded more ignored moreIgnored : List Text}
    {root : Option Text} {source : ChangeSource σ π} {s' : Selection σ π}
    (hexcluded : excluded ⊆ more) (hignored : ignored ⊆ moreIgnored)
    (hs : setUp v mode given excluded ignored root source false = .ok s)
    (hs' : setUp v mode given more moreIgnored root source false = .ok s')
    (hp : w.memory.paths = none) (h : s.get w = .ok paths w₁) (h' : s'.get w = .ok fewer w₂) :
    fewer ⊆ paths := by
  obtain ⟨-, G, hG, rfl⟩ := ok_of_setUp hs
  obtain ⟨-, F, hF, rfl⟩ := ok_of_setUp hs'
  have hextends : F.Extends G := PathFilter.extends_of_load hexcluded hignored hF hG
  exact subset_of_extends hextends rfl hp h h'

-- The directory of the retaken file, given by itself, with and without the ignore file.
namespace Retaken

def bare : PathFilter := ⟨[], [], .empty, ⟨false, [r]⟩⟩

theorem load_bare : PathFilter.load workspace.view [] [] [] none = .ok bare := by
  have hroot : workspace.view.absolute workspace.view.cwd.text = ⟨false, [r]⟩ :=
    View.absolute_text _ _
  rw [PathFilter.load, Option.getD_none, hroot]
  rfl

theorem locate_directory : disk.locate ⟨false, [r, d]⟩ = .ok ⟨[r, d], Disk.maxLinks⟩ :=
  Disk.locate_direct false rfl (e := .dir true) rfl rfl

theorem start_excluded : Walk.start workspace.view filter false "d" =
    ⟨[.skipped ⟨false, [r, d]⟩], .ok ()⟩ := by
  have hlocate : workspace.view.disk.locate (workspace.view.absolute "d") =
      .ok ⟨[r, d], Disk.maxLinks⟩ := locate_directory
  rw [Walk.start_directory hlocate rfl]
  rfl

theorem start_bare : Walk.start workspace.view bare false "d" =
    ⟨[.listed ⟨false, [r, d]⟩, .file ⟨false, [r, d, f]⟩], .ok ()⟩ := by
  have hlocate : workspace.view.disk.locate (workspace.view.absolute "d") =
      .ok ⟨[r, d], Disk.maxLinks⟩ := locate_directory
  have hnames : disk.names [r, d] = [f] := Disk.names_of_single rfl rfl
  exact Walk.start_single hlocate rfl hnames rfl rfl rfl

theorem get_excluded : ∃ w₁, (ofGiven workspace.cwd filter noGit "d").get workspace =
    .ok [] w₁ := by
  let s := ofGiven workspace.cwd filter noGit "d"
  have hstart : Walk.start workspace.view s.filter s.followLinks "d" = _ := start_excluded
  have hfair : s.Fair workspace.view "d" := by
    rw [Fair, hstart]
    exact ⟨rfl, nofun⟩
  have hcontribution : s.contribution workspace.view "d" = [] := by
    rw [contribution, hstart]
    rfl
  apply (get_given (s := s) rfl).2
  rw [List.flatMap_singleton, hcontribution]
  exact ⟨List.forall_mem_singleton.2 hfair, by simp [Text.sorted]⟩

theorem get_bare : ∃ w₁, (ofGiven workspace.cwd bare noGit "d").get workspace =
    .ok ["/r/d/f".toList] w₁ := by
  let s := ofGiven workspace.cwd bare noGit "d"
  have hstart : Walk.start workspace.view s.filter s.followLinks "d" = _ := start_bare
  have hdir : workspace.view.isDir (AbsPath.text ⟨false, [r, d, f]⟩) = false :=
    View.isDir_text (v := workspace.view) rfl locate_file
  have hexcludes : s.filter.excludes ⟨false, [r, d, f]⟩ false = .ok false := rfl
  obtain ⟨hfair, hcontribution⟩ : s.Fair workspace.view "d" ∧
      s.contribution workspace.view "d" = [AbsPath.text ⟨false, [r, d, f]⟩] := by
    apply contribution_of_single (by rw [hstart]) (by rw [hstart]; rfl) ?_ List.not_mem_nil
    rw [hdir]
    exact hexcludes
  apply (get_given (s := s) rfl).2
  rw [List.flatMap_singleton, hcontribution]
  exact ⟨List.forall_mem_singleton.2 hfair, (Text.sorted_singleton _).symm⟩

end Retaken

/-- With the ignore file, which excludes its directory, the file is no longer selected. -/
theorem fewer_of_ignored_directory : ∃ s s' paths fewer w₁ w₂,
    ([] : List Text) ⊆ ["../ig".toList] ∧
      setUp Retaken.workspace.view .explicit ["d"] [] [] none Retaken.noGit false = .ok s ∧
      setUp Retaken.workspace.view .explicit ["d"] [] ["../ig"] none Retaken.noGit false =
        .ok s' ∧
      s.get Retaken.workspace = .ok paths w₁ ∧ s'.get Retaken.workspace = .ok fewer w₂ ∧
      paths = ["/r/d/f".toList] ∧ fewer = [] ∧ fewer ⊆ paths := by
  have hbare : setUp Retaken.workspace.view .explicit ["d"] [] [] none Retaken.noGit false =
      .ok (ofGiven Retaken.workspace.cwd Retaken.bare Retaken.noGit "d") := by
    rw [setUp, Retaken.load_bare]
    rfl
  have hmore : setUp Retaken.workspace.view .explicit ["d"] [] ["../ig"] none Retaken.noGit false =
      .ok (ofGiven Retaken.workspace.cwd Retaken.filter Retaken.noGit "d") := by
    rw [setUp, Retaken.load_filter]
    rfl
  obtain ⟨w₁, hall⟩ := Retaken.get_bare
  obtain ⟨w₂, hfewer⟩ := Retaken.get_excluded
  have hignored : ([] : List Text) ⊆ ["../ig".toList] := List.nil_subset _
  exact ⟨_, _, _, _, w₁, w₂, hignored, hbare, hmore, hall, hfewer, rfl, rfl,
    fewer_of_more_excluded (List.Subset.refl []) hignored hbare hmore rfl hall hfewer⟩

end PathSelection.Selection
