import PathSelection.Proofs.Selection.Agreement
import PathSelection.Proofs.Walk.Directory

namespace PathSelection

namespace Walk

variable {v : View} {f : PathFilter} {followLinks : Bool} {raws : List Text}

theorem ended_startAll : (startAll v f followLinks raws).ended = .ok () ↔
    ∀ raw ∈ raws, (start v f followLinks raw).ended = .ok () := by
  induction raws with
  | nil => exact ⟨nofun, fun _ => rfl⟩
  | cons raw raws ih =>
    rw [List.forall_mem_cons, ← ih, startAll_cons]
    constructor
    · intro h
      obtain ⟨hfirst, hrest, -⟩ := ended_of_andThen h
      exact ⟨hfirst, hrest⟩
    · rintro ⟨hfirst, hrest⟩
      exact (andThen_of_ok hfirst (startAll v f followLinks raws)).1.trans hrest

theorem files_startAll (h : (startAll v f followLinks raws).ended = .ok ()) :
    (startAll v f followLinks raws).files =
      raws.flatMap fun raw => (start v f followLinks raw).files := by
  induction raws with
  | nil => rfl
  | cons raw raws ih =>
    rw [startAll_cons] at h
    obtain ⟨-, hrest, hfiles⟩ := ended_of_andThen h
    rw [List.flatMap_cons, ← ih hrest]
    exact hfiles

end Walk

namespace Selection

variable {σ π : Type} {s : Selection σ π} {w w' : Workspace σ π} {paths : List Text} {v : View}
  {raws : List Text} {raw t : Text}

def given (s : Selection σ π) (raws : List Text) : Selection σ π :=
  { s with mode := .explicit, paths := raws }

/-- A path that comes from a starting path: that path itself, if it is no directory, or one that
the walk from it comes upon. -/
def ComesFrom (s : Selection σ π) (v : View) (raw t : Text) : Prop :=
  (v.disk.directory? (v.absolute raw) = none ∧ t = (v.absolute raw).text) ∨
    ∃ p ∈ (Walk.startAll v s.filter s.followLinks [raw]).files, t = p.text

/-- What it means that some paths are selected by way of some starting paths. -/
structure Selects (s : Selection σ π) (v : View) (starts paths : List Text) : Prop where
  increasing : paths.Pairwise (· < ·)
  absolute : ∀ t ∈ paths, (v.absolute t).text = t
  mem_iff : ∀ t, t ∈ paths ↔ (∃ raw ∈ starts, s.ComesFrom v raw t) ∧
    s.filter.excludes (v.absolute t) (v.isDir t) = .ok false ∧
    t ∉ s.filter.ignoreFiles.files.map AbsPath.text

def contribution (s : Selection σ π) (v : View) (raw : Text) : List Text :=
  ((Walk.start v s.filter s.followLinks raw).files.map AbsPath.text).filter fun t =>
    s.filter.admits (v.absolute t) (v.isDir t) &&
      !(s.filter.ignoreFiles.files.map AbsPath.text).contains t

/-- A starting path that gives no reason to fail. -/
def Fair (s : Selection σ π) (v : View) (raw : Text) : Prop :=
  (Walk.start v s.filter s.followLinks raw).ended = .ok () ∧
    ∀ p ∈ (Walk.start v s.filter s.followLinks raw).files,
      ∃ b, s.filter.excludes p (v.isDir p.text) = .ok b

theorem chosen_of_keep {found : List Text}
    (hended : (Walk.startAll v s.filter s.followLinks raws).ended = .ok ())
    (hkeep : s.filter.keep v ((Walk.startAll v s.filter s.followLinks raws).files.map
      AbsPath.text) = .ok found) :
    (∀ raw ∈ raws, s.Fair v raw) ∧
      s.chosen found = Text.sorted (raws.flatMap (s.contribution v)) := by
  obtain ⟨hdecided, rfl⟩ := PathFilter.keep_ok hkeep
  rw [Walk.files_startAll hended] at hdecided ⊢
  constructor
  · intro raw hraw
    refine ⟨Walk.ended_startAll.1 hended raw hraw, fun p hp => ?_⟩
    have hb := hdecided p.text (List.mem_map_of_mem (List.mem_flatMap.2 ⟨raw, hraw, hp⟩))
    rwa [View.absolute_text] at hb
  · rw [chosen, List.filter_filter, List.map_flatMap, List.filter_flatMap]
    refine congrArg Text.sorted (List.flatMap_congr fun raw _ => List.filter_congr fun t _ => ?_)
    rw [Bool.and_comm]

theorem mem_files_of_not_directory (h : s.Fair v raw)
    (hd : v.disk.directory? (v.absolute raw) = none) :
    v.absolute raw ∈ (Walk.start v s.filter s.followLinks raw).files := by
  have hended := h.1
  cases hplace : v.disk.locate (v.absolute raw) with
  | error e =>
    rw [Walk.start_missing hplace] at hended
    cases hended
  | ok place =>
    cases hdir : v.disk.isDirAt place.real with
    | true => cases hd.symm.trans (Disk.directory?_eq_some hplace hdir)
    | false =>
      rw [Walk.start_other hplace hdir]
      exact List.mem_singleton_self _

theorem mem_contribution (h : s.Fair v raw) : t ∈ s.contribution v raw ↔ s.ComesFrom v raw t ∧
    s.filter.excludes (v.absolute t) (v.isDir t) = .ok false ∧
    t ∉ s.filter.ignoreFiles.files.map AbsPath.text := by
  have hsingle : (Walk.startAll v s.filter s.followLinks [raw]).files =
      (Walk.start v s.filter s.followLinks raw).files := by
    rw [Walk.files_startAll (Walk.ended_startAll.2 (List.forall_mem_singleton.2 h.1)),
      List.flatMap_singleton]
  have hcomes : s.ComesFrom v raw t ↔
      t ∈ (Walk.start v s.filter s.followLinks raw).files.map AbsPath.text := by
    rw [ComesFrom, hsingle, List.mem_map]
    constructor
    · rintro (⟨hd, rfl⟩ | ⟨p, hp, rfl⟩)
      · exact ⟨v.absolute raw, mem_files_of_not_directory h hd, rfl⟩
      · exact ⟨p, hp, rfl⟩
    · rintro ⟨p, hp, rfl⟩
      exact .inr ⟨p, hp, rfl⟩
  rw [hcomes, contribution, List.mem_filter, Bool.and_eq_true, PathFilter.admits_iff,
    Bool.not_eq_true', List.contains_eq_mem, decide_eq_false_iff_not]

theorem contribution_of_single {p : AbsPath}
    (hended : (Walk.start v s.filter s.followLinks raw).ended = .ok ())
    (hfiles : (Walk.start v s.filter s.followLinks raw).files = [p])
    (hexcludes : s.filter.excludes p (v.isDir p.text) = .ok false)
    (hown : p.text ∉ s.filter.ignoreFiles.files.map AbsPath.text) :
    s.Fair v raw ∧ s.contribution v raw = [p.text] := by
  have hkept : (s.filter.admits (v.absolute p.text) (v.isDir p.text) &&
      !(s.filter.ignoreFiles.files.map AbsPath.text).contains p.text) = true := by
    rw [View.absolute_text, PathFilter.admits_iff.2 hexcludes, Bool.true_and, Bool.not_eq_true',
      List.contains_eq_mem, decide_eq_false_iff_not]
    exact hown
  refine ⟨⟨hended, ?_⟩, ?_⟩
  · rw [hfiles]
    exact List.forall_mem_singleton.2 ⟨false, hexcludes⟩
  · rw [contribution, hfiles, List.map_singleton]
    exact List.filter_eq_self.2 (List.forall_mem_singleton.2 hkept)

theorem selects_sorted (h : ∀ raw ∈ raws, s.Fair v raw) :
    s.Selects v raws (Text.sorted (raws.flatMap (s.contribution v))) := by
  have hmem : ∀ t, t ∈ Text.sorted (raws.flatMap (s.contribution v)) ↔
      (∃ raw ∈ raws, s.ComesFrom v raw t) ∧
        s.filter.excludes (v.absolute t) (v.isDir t) = .ok false ∧
        t ∉ s.filter.ignoreFiles.files.map AbsPath.text := by
    intro t
    rw [Text.mem_sorted, List.mem_flatMap]
    constructor
    · rintro ⟨raw, hraw, ht⟩
      obtain ⟨hcomes, hkept⟩ := (mem_contribution (h raw hraw)).1 ht
      exact ⟨⟨raw, hraw, hcomes⟩, hkept⟩
    · rintro ⟨⟨raw, hraw, hcomes⟩, hkept⟩
      exact ⟨raw, hraw, (mem_contribution (h raw hraw)).2 ⟨hcomes, hkept⟩⟩
  refine ⟨Text.pairwise_lt_sorted _, fun t ht => ?_, hmem⟩
  obtain ⟨⟨raw, -, ⟨-, rfl⟩ | ⟨p, -, rfl⟩⟩, -⟩ := (hmem t).1 ht
  · rw [View.absolute_text]
  · rw [View.absolute_text]

theorem made_of_get (hp : w.memory.paths = none) (h : s.get w = .ok paths w') :
    ∃ w₀ w₁ found, s.start w = .ok () w₀ ∧ s.found w₀ = .ok found w₁ ∧ paths = s.chosen found ∧
      w' = finished paths w₁ := by
  have ho := s.getOutcome w
  rw [h] at ho
  cases ho with
  | known hk => cases hp.symm.trans hk
  | made _ hb hf => exact ⟨_, _, _, hb, hf, rfl, rfl⟩

theorem get_given (hp : w.memory.paths = none) : (∃ w', (s.given raws).get w = .ok paths w') ↔
    (∀ raw ∈ raws, s.Fair w.view raw) ∧
      paths = Text.sorted (raws.flatMap (s.contribution w.view)) := by
  have hmode : (s.given raws).mode ≠ .staged := show Mode.explicit ≠ .staged by decide
  constructor
  · rintro ⟨w', h⟩
    obtain ⟨found, w₁, hfound, rfl⟩ := ok_of_get hmode hp h
    obtain ⟨starts, w₂, hstarts, hended, hkeep⟩ := ok_of_found hfound
    cases hstarts
    exact chosen_of_keep hended hkeep
  · rintro ⟨hfair, rfl⟩
    have hended : (Walk.startAll w.view s.filter s.followLinks raws).ended = .ok () :=
      Walk.ended_startAll.2 fun raw hraw => (hfair raw hraw).1
    have hdecided : ∀ t ∈ (Walk.startAll w.view s.filter s.followLinks raws).files.map
        AbsPath.text, ∃ b, s.filter.excludes (w.view.absolute t) (w.view.isDir t) = .ok b := by
      intro t ht
      rw [Walk.files_startAll hended] at ht
      obtain ⟨p, hp, rfl⟩ := List.mem_map.1 ht
      obtain ⟨raw, hraw, hp⟩ := List.mem_flatMap.1 hp
      rw [View.absolute_text]
      exact (hfair raw hraw).2 p hp
    have hkeep := PathFilter.keep_of_decided hdecided
    have hstarts : (s.given raws).mode.startingPaths (s.given raws).paths (s.given raws).cwd
        (s.given raws).source w = .ok raws (w.record (.usingPaths raws)) := rfl
    obtain ⟨w₁, hfound⟩ := found_of_walk hstarts hended hkeep
    rw [← (chosen_of_keep hended hkeep).2]
    exact ⟨_, get_of_found hmode hp hfound⟩

theorem sorted_contributions_congr {others : List Text} (h : ∀ raw, raw ∈ raws ↔ raw ∈ others) :
    Text.sorted (raws.flatMap (s.contribution v)) =
      Text.sorted (others.flatMap (s.contribution v)) := by
  refine Text.sorted_congr fun t => ?_
  simp only [List.mem_flatMap, h]

theorem sorted_contributions_append (raws others : List Text) :
    Text.sorted ((raws ++ others).flatMap (s.contribution v)) =
      Text.sorted (Text.sorted (raws.flatMap (s.contribution v)) ++
        Text.sorted (others.flatMap (s.contribution v))) := by
  refine Text.sorted_congr fun t => ?_
  simp only [List.flatMap_append, List.mem_append, Text.mem_sorted]

/-- A selection is in increasing order, and holds what comes from its starting paths and is not
excluded. Of paths that are given it is the union of what each gives, in whatever order and however
often they are given. -/
theorem get_selects (s : Selection σ π) (hp : w.memory.paths = none) :
    (∀ paths w', s.get w = .ok paths w' → s.get w' = .ok paths w' ∧
      ∃ starts w₀ w₁, s.start w = .ok () w₀ ∧
        s.mode.startingPaths s.paths s.cwd s.source w₀ = .ok starts w₁ ∧
        s.Selects w₁.view starts paths) ∧
    (∀ raws paths w', (s.given raws).get w = .ok paths w' → s.Selects w.view raws paths) ∧
    (∀ raws others paths more w₁ w₂, (s.given raws).get w = .ok paths w₁ →
      (s.given others).get w = .ok more w₂ →
      ∃ w', (s.given (raws ++ others)).get w = .ok (Text.sorted (paths ++ more)) w') ∧
    ∀ raws others paths w₁, (∀ raw, raw ∈ raws ↔ raw ∈ others) →
      (s.given raws).get w = .ok paths w₁ → ∃ w', (s.given others).get w = .ok paths w' := by
  refine ⟨?_, ?_, ?_, ?_⟩
  · intro paths w' h
    obtain ⟨w₀, w₁, found, hstart, hfound, rfl, rfl⟩ := made_of_get hp h
    obtain ⟨starts, w₂, hstarts, hended, hkeep⟩ := ok_of_found hfound
    obtain ⟨hfair, hchosen⟩ := chosen_of_keep hended hkeep
    refine ⟨get_of_known rfl, starts, w₀, w₂, hstart, hstarts, ?_⟩
    rw [hchosen]
    exact selects_sorted hfair
  · intro raws paths w' h
    obtain ⟨hfair, rfl⟩ := (get_given hp).1 ⟨w', h⟩
    exact selects_sorted hfair
  · intro raws others paths more w₁ w₂ hraws hothers
    obtain ⟨hfair, rfl⟩ := (get_given hp).1 ⟨w₁, hraws⟩
    obtain ⟨hfair', rfl⟩ := (get_given hp).1 ⟨w₂, hothers⟩
    rw [get_given hp, sorted_contributions_append]
    exact ⟨List.forall_mem_append.2 ⟨hfair, hfair'⟩, rfl⟩
  · intro raws others paths w₁ hsame h
    obtain ⟨hfair, rfl⟩ := (get_given hp).1 ⟨w₁, h⟩
    rw [get_given hp]
    exact ⟨fun raw hraw => hfair raw ((hsame raw).2 hraw), sorted_contributions_congr hsame⟩

/-- A file that is given twice is selected as if it were given once. -/
theorem get_of_given_twice : ∃ w', ((ofGiven Retaken.workspace.cwd Retaken.filter Retaken.noGit
      "d/f").given ["d/f", "d/f"]).get Retaken.workspace =
    .ok ["/r/d/f"] w' := by
  have hsorted : Text.sorted ["/r/d/f", "/r/d/f"] = (["/r/d/f"] : List Text) := by
    rw [Text.sorted]
    simp [List.eraseDups_cons]
  obtain ⟨w₂, hgiven⟩ := Retaken.get_file
  obtain ⟨-, -, hunion, -⟩ := get_selects (ofGiven Retaken.workspace.cwd Retaken.filter
    Retaken.noGit "d/f") (w := Retaken.workspace) rfl
  obtain ⟨w', hget⟩ := hunion ["d/f"] ["d/f"] _ _ w₂ w₂ hgiven hgiven
  exact ⟨w', hget.trans (congrArg (EStateM.Result.ok · w') hsorted)⟩

end Selection
end PathSelection
