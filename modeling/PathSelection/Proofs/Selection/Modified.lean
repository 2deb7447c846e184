import Mathlib.Data.List.Induction
import PathSelection.Proofs.Git.Listing
import PathSelection.Proofs.Selection.Repeated

namespace PathSelection

namespace Disk

variable {d : Disk}

/-- Every entry lies in a directory. -/
def Rooted (d : Disk) : Prop :=
  ∀ real n e, d.get? (real ++ [n]) = some e → d.isDirAt real = true

theorem Rooted.locate (h : d.Rooted) {real : RealPath} {e : Entry} (he : d.get? real = some e)
    (hl : d.isLinkAt real = false) : d.locate ⟨false, real⟩ = .ok ⟨real, maxLinks⟩ := by
  induction real using List.reverseRecOn generalizing e with
  | nil => exact follow_nil
  | append_singleton real n ih =>
    have hd := h real n e he
    obtain ⟨e, hdir, -⟩ := isDirAt_iff.1 hd
    exact locate_entry (ih hdir (isLinkAt_of_isDirAt hd)) hd he hl

end Disk

namespace Walk

variable {d : Disk} {f : PathFilter} {v : View} {followLinks : Bool} {raw t : Text}

def Stops (e : Failure) : Prop :=
  (∃ path error, e = .walk path error) ∨ ∃ pattern fault, e = .pattern pattern fault

theorem survey_error {s : Site} {e : Failure} (h : (survey d f s).ended = .error e) :
    ∃ pattern fault, e = .pattern pattern fault := by
  have hsurvey : ((prune f (s.children d)).1.andThen (takeFiles f (s.files d))).ended =
      .error e := h
  cases hp : (prune f (s.children d)).1.ended with
  | error e' =>
    rw [andThen_of_error hp, hp] at hsurvey
    cases hsurvey
    rw [ended_prune] at hp
    exact undecided_error (stopped_eq_error hp)
  | ok u =>
    rw [(andThen_of_ok hp _).1, ended_takeFiles] at hsurvey
    exact undecided_error (stopped_eq_error hsurvey)

theorem run_error {visited : List RealPath} {ahead : List Site} {e : Failure}
    (h : (run d f followLinks visited ahead).ended = .error e) : Stops e := by
  induction visited, ahead using Walk.run.induct d f followLinks with
  | case1 visited =>
    rw [run] at h
    cases h
  | case2 visited s rest hl =>
    rw [run, dif_pos hl] at h
    cases h
    exact .inl ⟨_, _, rfl⟩
  | case3 visited s rest hl hv ih =>
    rw [run, dif_neg hl, dif_pos hv] at h
    exact ih h
  | case4 visited s rest hl hv pruned here e' he =>
    have he : (survey d f s).ended = .error e' := he
    rw [run_survey (by simpa using hl) hv, he] at h
    exact .inr (survey_error h)
  | case5 visited s rest hl hv pruned here he ih =>
    have he : (survey d f s).ended = .ok () := he
    rw [run_survey (by simpa using hl) hv, he] at h
    exact ih ((andThen_of_ok he _).1.symm.trans h)

theorem below_error {path : AbsPath} {place : Place} {e : Failure}
    (h : (below d f followLinks path place).ended = .error e) : Stops e := by
  unfold below at h
  split at h
  · next he =>
    cases h
    exact .inr (PathFilter.excludes_error he)
  · cases h
  · exact run_error h

theorem start_not_found (h : (start v f followLinks raw).ended = .error (.pathNotFound t)) :
    raw = t ∧ ∀ place, v.disk.locate (v.absolute raw) ≠ .ok place := by
  cases hplace : v.disk.locate (v.absolute raw) with
  | error e =>
    rw [start_missing hplace] at h
    cases h
    refine ⟨rfl, fun place hp => ?_⟩
    cases hp
  | ok place =>
    cases hd : v.disk.isDirAt place.real with
    | false =>
      rw [start_other hplace hd] at h
      cases h
    | true =>
      rw [start_directory hplace hd] at h
      rcases below_error h with ⟨_, _, he⟩ | ⟨_, _, he⟩ <;> cases he

theorem startAll_not_found {raws : List Text}
    (h : (startAll v f followLinks raws).ended = .error (.pathNotFound t)) :
    t ∈ raws ∧ ∀ place, v.disk.locate (v.absolute t) ≠ .ok place := by
  induction raws with
  | nil => cases h
  | cons raw raws ih =>
    rw [startAll_cons] at h
    cases he : (start v f followLinks raw).ended with
    | error e =>
      rw [andThen_of_error he, he] at h
      cases h
      obtain ⟨rfl, hnone⟩ := start_not_found he
      exact ⟨List.mem_cons_self, hnone⟩
    | ok u =>
      rw [(andThen_of_ok he _).1] at h
      obtain ⟨hmem, hnone⟩ := ih h
      exact ⟨List.mem_cons_of_mem _ hmem, hnone⟩

end Walk

variable {σ π : Type} {g : Git σ π} {states : σ → Prop} {d : Disk} {r : Repository}
  {ignored : List Name → Bool} {directory : Text} {w w' : Workspace σ π}

theorem Git.Ready.record (h : Git.Ready states d r w) (e : Event) :
    Git.Ready states d r (w.record e) :=
  ⟨h.git, h.disk, h.top⟩

theorem Repository.locate_path (hd : d.Rooted) {names : List Name} (h : r.file? d names ≠ none)
    (hl : d.isLinkAt (r.top ++ names) = false) :
    d.locate (r.path names) = .ok ⟨r.top ++ names, Disk.maxLinks⟩ := by
  cases he : d.get? (r.top ++ names) with
  | none =>
    rw [file?, he] at h
    exact (h rfl).elim
  | some e => exact hd.locate he hl

namespace Selection

variable {s : Selection σ π} {paths : List Text} {w₁ : Workspace σ π} {t : Text}

theorem not_found_of_get (hm : s.mode = .modified) (hs : s.source = g.source directory)
    (hpaths : g.modifiedFiles directory (w.record .usingModified) = .ok paths w₁)
    (h : s.get w = .error (.pathNotFound t) w') :
    t ∈ paths ∧ ∀ place, w₁.disk.locate (w₁.view.absolute t) ≠ .ok place := by
  have hnot : s.mode ≠ .staged := by
    rw [hm]
    decide
  have hfound : ∃ w₂, s.found w = .error (.pathNotFound t) w₂ := by
    have ho := s.getOutcome w
    rw [h] at ho
    cases ho with
    | notStarted _ hb => cases (start_of_not_staged hnot).symm.trans hb
    | released _ hb hf hu =>
      cases (start_of_not_staged hnot).symm.trans hb
      exact ⟨_, hf⟩
    | @notReleased e _ _ w₂ w₃ _ hb hf hu =>
      -- Putting a stash back has a failure of its own.
      have hu : (g.source directory).unstash w₂ = .error (.pathNotFound t) w' := by
        rw [← hs]
        exact hu
      have hraised := (g.unstash_inactive directory w₂).2
      rw [Run.raised_of_error hu] at hraised
      obtain ⟨_, _, he, -⟩ := hraised _ (List.mem_singleton_self _)
      cases he
  obtain ⟨w₂, hfound⟩ := hfound
  cases hgiven : s.paths with
  | nil =>
    have hstarts : s.mode.startingPaths s.paths s.cwd s.source w = .ok paths w₁ := by
      rw [hm, hs, hgiven]
      exact hpaths
    rcases error_of_found hfound with he | ⟨starts, w₃, he, hfailed⟩
    · cases hstarts.symm.trans he
    · cases hstarts.symm.trans he
      rcases hfailed with hended | hkeep
      · exact Walk.startAll_not_found hended
      · obtain ⟨_, _, he⟩ := PathFilter.keep_error hkeep
        cases he
  | cons raw raws =>
    have hstarts : s.mode.startingPaths s.paths s.cwd s.source w =
        .error .conflictingSources w := by
      rw [hm, hs, hgiven]
      rfl
    rcases error_of_found hfound with he | ⟨starts, w₃, he, -⟩
    · cases hstarts.symm.trans he
    · cases hstarts.symm.trans he

/-- The files that git is asked for are the modified ones, each once, but as long as there is no
commit also those that were staged and then deleted. It is only such a file that a selection of the
modified files may not find. -/
theorem modified_unless_deleted (h : g.Reports states d r ignored directory)
    (hw : Git.Ready states d r w) (hlast : r.EndsUnblank) :
    (∃ paths w', g.modifiedFiles directory w = .ok paths w' ∧ paths.Nodup ∧
      ∀ t, t ∈ paths ↔ ∃ names, names ≠ [] ∧
        (r.IsModified d ignored names ∨ r.head = none ∧ r.IsDeleted d names) ∧
        (r.path names).text = t) ∧
    (d.Rooted → (∀ names, d.isLinkAt (r.top ++ names) = false) →
      ∀ (s : Selection σ π) (t : Text) (w' : Workspace σ π), s.mode = .modified →
        s.source = g.source directory → s.get w = .error (.pathNotFound t) w' →
        r.head = none ∧ ∃ names, r.IsDeleted d names ∧ (r.path names).text = t) := by
  constructor
  · obtain ⟨paths, w', hpaths, -, hnodup, hmem⟩ := h.modifiedFiles hw hlast
    exact ⟨paths, w', hpaths, hnodup, hmem⟩
  · intro hd hl s t w' hm hs hget
    obtain ⟨paths, w₁, hpaths, hw₁, -, hmem⟩ :=
      h.modifiedFiles (hw.record .usingModified) hlast
    obtain ⟨ht, hnone⟩ := not_found_of_get hm hs hpaths hget
    obtain ⟨names, -, hmodified | ⟨hhead, hdeleted⟩, rfl⟩ := (hmem t).1 ht
    · rw [View.absolute_text, hw₁.disk] at hnone
      exact (hnone _ (Repository.locate_path hd hmodified.present (hl names))).elim
    · exact ⟨hhead, names, hdeleted, rfl⟩

-- A repository without a commit, at the root of a disk with nothing on it. Its one file has been
-- staged and then deleted.
namespace Deleted

def gone : Name := ⟨"gone".toList, by decide⟩

def disk : Disk := ⟨[]⟩

def repository : Repository := ⟨[], none, [([gone], .file .empty)]⟩

def git : Git (List Repository) Git.Patch := Repository.git fun _ _ _ => false

def workspace : Workspace (List Repository) Git.Patch := .start ⟨disk, .root⟩ [repository] "/"

def filter : PathFilter := ⟨[], [], .empty, .root⟩

def selection : Selection (List Repository) Git.Patch :=
  ⟨.modified, [], "/", filter, git.source "/", false⟩

theorem isTracked_iff {names : List Name} : repository.IsTracked names ↔ names = [gone] := by
  rw [Repository.IsTracked, repository, List.lookup_cons]
  cases hn : names == [gone] with
  | true => simpa using hn
  | false => simpa using hn

theorem get?_eq_none {real : RealPath} (h : real ≠ []) : disk.get? real = none := by
  cases he : disk.get? real with
  | none => rfl
  | some e => exact absurd (Disk.mem_keys he (.inl h)) List.not_mem_nil

theorem file?_eq_none (names : List Name) : repository.file? disk names = none := by
  cases names with
  | nil => rfl
  | cons n ns =>
    have hnone : disk.get? (repository.top ++ n :: ns) = none := get?_eq_none (List.cons_ne_nil n ns)
    rw [Repository.file?, hnone]
    rfl

theorem not_isModified {ignored : List Name → Bool} {names : List Name} :
    ¬repository.IsModified disk ignored names := by
  intro h
  exact h.present (file?_eq_none names)

theorem isDeleted_iff {names : List Name} : repository.IsDeleted disk names ↔ names = [gone] := by
  constructor
  · intro h
    exact isTracked_iff.1 h.tracked
  · intro h
    exact ⟨isTracked_iff.2 h, file?_eq_none names⟩

theorem endsUnblank : repository.EndsUnblank := by
  intro c hc
  cases hc
  decide

theorem listable : repository.Listable disk where
  index := List.nodup_singleton _
  tracked names h := by
    rw [isTracked_iff.1 h]
    decide
  files names h := (h (file?_eq_none names)).elim

theorem holds : Repository.Holds [repository] disk "/" repository where
  isDir := by
    have hroot : disk.isDirAt [] = true := rfl
    have hplace : disk.locate .root = .ok ⟨[], Disk.maxLinks⟩ := Disk.follow_nil
    exact (View.isDir_text (v := ⟨disk, .root⟩) hroot hplace).trans hroot
  nearest := by
    have hresolved : (View.mk disk .root).resolved "/" = .root := by
      rw [View.resolved, show Step.ofPath "/" = [.here, .here] from rfl, View.settle, View.settle,
        View.settle]
      rfl
    rw [hresolved]
    rfl

theorem reports : git.Reports (· = [repository]) disk repository (fun _ => false) "/" :=
  Repository.reports listable holds holds

theorem ready : Git.Ready (· = [repository]) disk repository workspace := by
  refine ⟨rfl, rfl, fun known hk => ?_⟩
  cases hk

theorem modifiedFiles_of_ready {w : Workspace (List Repository) Git.Patch}
    (hw : Git.Ready (· = [repository]) disk repository w) :
    ∃ w', git.modifiedFiles "/" w = .ok ["/gone".toList] w' ∧
      Git.Ready (· = [repository]) disk repository w' := by
  obtain ⟨paths, w', hpaths, hw', hnodup, hmem⟩ := reports.modifiedFiles hw endsUnblank
  have hsingle : paths = ["/gone".toList] := by
    apply List.perm_singleton.1
    apply (List.perm_ext_iff_of_nodup hnodup (List.nodup_singleton _)).2
    intro t
    rw [hmem, List.mem_singleton]
    constructor
    · rintro ⟨names, -, hmodified | ⟨-, hdeleted⟩, rfl⟩
      · exact (not_isModified hmodified).elim
      · rw [isDeleted_iff.1 hdeleted]
        rfl
    · rintro rfl
      exact ⟨[gone], by simp, .inr ⟨rfl, isDeleted_iff.2 rfl⟩, rfl⟩
  rw [hsingle] at hpaths
  exact ⟨w', hpaths, hw'⟩

theorem get_selection : ∃ w', selection.get workspace = .error (.pathNotFound "/gone") w' := by
  obtain ⟨w₁, hpaths, hw₁⟩ := modifiedFiles_of_ready (ready.record .usingModified)
  have hstarts : selection.mode.startingPaths selection.paths selection.cwd selection.source
      workspace = .ok ["/gone".toList] w₁ := hpaths
  have hmissing : ∃ e, w₁.view.disk.locate (w₁.view.absolute "/gone") = .error e := by
    rw [show "/gone".toList = AbsPath.text ⟨false, [gone]⟩ from rfl, View.absolute_text,
      show w₁.view.disk = disk from hw₁.disk]
    have hnothing : disk.get? ([] ++ [gone]) = none := rfl
    obtain ⟨e, he⟩ := Disk.follow_missing hnothing
    exact ⟨e, he Disk.maxLinks []⟩
  obtain ⟨e, hmissing⟩ := hmissing
  have hended : (Walk.startAll w₁.view selection.filter selection.followLinks
      ["/gone".toList]).ended = .error (.pathNotFound "/gone") := by
    rw [Walk.startAll, List.foldr_cons, List.foldr_nil, Walk.start_missing hmissing]
    rfl
  obtain ⟨w₂, hfound, hmemory⟩ := found_of_walk_error hstarts hended
  have hstash : w₂.memory.stash = none := by
    rw [hmemory]
    exact (git.quiet_keptByQuestions.modifiedFiles.of_ok hpaths).stash
  exact ⟨w₂, get_of_found_error (by decide) rfl hstash hfound⟩

theorem setUp_selection : setUp workspace.view .modified [] [] [] none (git.source "/") false =
    .ok selection := by
  have hroot : workspace.view.absolute workspace.view.cwd.text = .root := View.absolute_text _ _
  rw [setUp, PathFilter.load, Option.getD_none, hroot]
  rfl

end Deleted

/-- A file that was staged and then deleted is listed as modified before the first commit, although
it is not there, and so the selection of the modified files fails. -/
theorem deleted_file_not_found : ∃ s w₁ w₂,
    Deleted.git.Reports (· = [Deleted.repository]) Deleted.disk Deleted.repository
        (fun _ => false) "/" ∧
      setUp Deleted.workspace.view .modified [] [] [] none (Deleted.git.source "/") false = .ok s ∧
      Deleted.git.modifiedFiles "/" Deleted.workspace = .ok ["/gone".toList] w₁ ∧
      Deleted.repository.file? Deleted.disk [Deleted.gone] = none ∧
      s.get Deleted.workspace = .error (.pathNotFound "/gone") w₂ := by
  obtain ⟨w₁, hpaths, -⟩ := Deleted.modifiedFiles_of_ready Deleted.ready
  obtain ⟨w₂, hget⟩ := Deleted.get_selection
  exact ⟨_, w₁, w₂, Deleted.reports, Deleted.setUp_selection, hpaths, Deleted.file?_eq_none _, hget⟩

/-- What is said of that repository: the path that is not found is that of a deleted file. -/
theorem file_deleted_before_commit : ∃ paths w₁ w₂,
    Deleted.git.Reports (· = [Deleted.repository]) Deleted.disk Deleted.repository
        (fun _ => false) "/" ∧
      Git.Ready (· = [Deleted.repository]) Deleted.disk Deleted.repository Deleted.workspace ∧
      Deleted.repository.EndsUnblank ∧
      Deleted.git.modifiedFiles "/" Deleted.workspace = .ok paths w₁ ∧ paths.Nodup ∧
      (AbsPath.text ⟨false, [Deleted.gone]⟩ ∈ paths) ∧
      Deleted.disk.Rooted ∧ (∀ names, Deleted.disk.isLinkAt names = false) ∧
      Deleted.selection.get Deleted.workspace = .error (.pathNotFound "/gone") w₂ ∧
      Deleted.repository.head = none ∧ ∃ names,
        Deleted.repository.IsDeleted Deleted.disk names ∧
          (Deleted.repository.path names).text = "/gone".toList := by
  have hlinks : ∀ names, Deleted.disk.isLinkAt names = false := by
    intro names
    cases names with
    | nil => rfl
    | cons n ns => rw [Disk.isLinkAt, Deleted.get?_eq_none (List.cons_ne_nil n ns)]
  obtain ⟨w₂, hget⟩ := Deleted.get_selection
  obtain ⟨⟨paths, w₁, hpaths, hnodup, hmem⟩, hmissed⟩ :=
    modified_unless_deleted Deleted.reports Deleted.ready Deleted.endsUnblank
  have hrooted : Deleted.disk.Rooted := by
    intro real n e he
    rw [Deleted.get?_eq_none (by simp)] at he
    cases he
  have hdeleted := Deleted.isDeleted_iff.2 rfl
  have hf := (hmem _).2 ⟨[Deleted.gone], List.cons_ne_nil _ _, .inr ⟨rfl, hdeleted⟩, rfl⟩
  exact ⟨paths, w₁, w₂, Deleted.reports, Deleted.ready, Deleted.endsUnblank, hpaths, hnodup, hf,
    hrooted, hlinks, hget, hmissed hrooted hlinks Deleted.selection _ w₂ rfl rfl hget⟩

end Selection
end PathSelection
