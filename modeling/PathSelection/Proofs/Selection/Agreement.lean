import PathSelection.Proofs.IgnoreFile
import PathSelection.Proofs.Selection.Membership
import PathSelection.Proofs.Walk.Places

namespace PathSelection.Selection

variable {σ π : Type}

def ofAll (cwd : AbsPath) (filter : PathFilter) (source : ChangeSource σ π) : Selection σ π :=
  ⟨.all, [], cwd.text, filter, source, false⟩

def ofGiven (cwd : AbsPath) (filter : PathFilter) (source : ChangeSource σ π) (raw : Text) :
    Selection σ π :=
  ⟨.explicit, [raw], cwd.text, filter, source, false⟩

variable {F : PathFilter} {source : ChangeSource σ π} {w w' : Workspace σ π}
  {paths : List Text} {place here : Place} {p : AbsPath}

theorem mem_get {s : Selection σ π} (hm : s.mode ≠ .staged) (hp : w.memory.paths = none)
    (h : s.get w = .ok paths w') {raw : Text} (hstart : ∀ starts w₁,
      s.mode.startingPaths s.paths s.cwd s.source w = .ok starts w₁ →
        starts = [raw] ∧ w₁.view = w.view) :
    (Walk.start w.view s.filter s.followLinks raw).ended = .ok () ∧ ∀ p,
      p.text ∈ paths ↔ p ∈ (Walk.start w.view s.filter s.followLinks raw).files ∧
        s.filter.admits p (w.view.isDir p.text) = true ∧
        p.text ∉ s.filter.ignoreFiles.files.map AbsPath.text := by
  obtain ⟨found, w₂, hfound, rfl⟩ := ok_of_get hm hp h
  obtain ⟨starts, w₁, hstarts, hended, hkeep⟩ := ok_of_found hfound
  obtain ⟨rfl, hview⟩ := hstart starts w₁ hstarts
  rw [hview] at hended hkeep
  obtain ⟨hend, hfiles⟩ := Walk.startAll_singleton hended
  obtain ⟨-, rfl⟩ := PathFilter.keep_ok hkeep
  refine ⟨hend, fun p => ?_⟩
  rw [mem_chosen, List.mem_filter, View.absolute_text, hfiles, AbsPath.text_mem_map, and_assoc]

theorem mem_ofAll (hp : w.memory.paths = none)
    (h : (ofAll w.cwd F source).get w = .ok paths w') :
    (Walk.start w.view F false w.cwd.text).ended = .ok () ∧ ∀ p,
      p.text ∈ paths ↔ p ∈ (Walk.start w.view F false w.cwd.text).files ∧
        F.admits p (w.view.isDir p.text) = true ∧ p.text ∉ F.ignoreFiles.files.map AbsPath.text := by
  apply mem_get (show Mode.all ≠ .staged by decide) hp h
  intro starts w₁ hs
  cases hs
  exact ⟨rfl, rfl⟩

theorem mem_ofGiven (hp : w.memory.paths = none) {raw : Text}
    (h : (ofGiven w.cwd F source raw).get w = .ok paths w') :
    (Walk.start w.view F false raw).ended = .ok () ∧ ∀ p,
      p.text ∈ paths ↔ p ∈ (Walk.start w.view F false raw).files ∧
        F.admits p (w.view.isDir p.text) = true ∧ p.text ∉ F.ignoreFiles.files.map AbsPath.text := by
  apply mem_get (show Mode.explicit ≠ .staged by decide) hp h
  intro starts w₁ hs
  cases hs
  exact ⟨rfl, rfl⟩

theorem files_start_of_file {v : View} {raw : Text} (hraw : v.absolute raw = p)
    (hplace : v.disk.locate p = .ok place) (hfile : v.disk.isDirAt place.real = false) :
    (Walk.start v F false raw).files = [p] := by
  simp only [Walk.start, hraw, hplace, hfile, Bool.false_eq_true, if_false]
  rfl

theorem mem_files_start {v : View} (hcwd : v.disk.locate v.cwd = .ok here) {dirs : List Name}
    {n : Name} (hplace : v.disk.locate (v.cwd.descend (dirs ++ [n])) = .ok place)
    (hfile : v.disk.isDirAt place.real = false)
    (hlinks : ∀ ms, ms <+: dirs → ms ≠ [] → v.disk.isLinkAt (here.real ++ ms) = false)
    (hended : (Walk.start v F false v.cwd.text).ended = .ok ()) :
    v.cwd.descend (dirs ++ [n]) ∈ (Walk.start v F false v.cwd.text).files ↔
      F.admits (v.cwd.descend (dirs ++ [n])) false = true ∧
        ∀ ms, ms <+: dirs → F.excludes (v.cwd.descend ms) true ≠ .ok true := by
  have hfollow : v.disk.follow here.links here.real ((dirs ++ [n]).map .down) = .ok place := by
    rw [Disk.locate_descend, hcwd] at hplace
    exact hplace
  obtain ⟨hdirs, hlast⟩ := Disk.follow_dirs hfollow hlinks
  have hhere : v.disk.isDirAt here.real = true := by
    have hnil := hdirs [] List.nil_prefix
    rwa [List.append_nil] at hnil
  have hstart : Walk.start v F false v.cwd.text = Walk.below v.disk F false v.cwd here := by
    simp only [Walk.start, View.absolute_text, hcwd, hhere, if_true]
  rw [hstart] at hended ⊢
  obtain ⟨⟨b, hb⟩, hsurveyed, hmem⟩ := Walk.below_ok hended
  rw [hmem]
  constructor
  · rintro ⟨hroot, t, ht, hp, ha⟩
    obtain ⟨ns, hpath, -, hadmits⟩ := ht.descend
    obtain ⟨n', -, -, hn'⟩ := Site.mem_files.1 hp
    rw [hpath, AbsPath.descend_descend] at hn'
    obtain ⟨rfl, -⟩ := List.append_inj' (AbsPath.descend_inj hn') rfl
    refine ⟨ha, fun ms hms he => ?_⟩
    have hadmit : F.admits (v.cwd.descend ms) true = true := by
      by_cases hne : ms = []
      · rwa [hne, AbsPath.descend_nil]
      · exact hadmits ms hms hne
    rw [PathFilter.admits_eq_false he] at hadmit
    cases hadmit
  · rintro ⟨ha, he⟩
    have hroot : F.admits v.cwd true = true := by
      have hnil := he [] List.nil_prefix
      rw [AbsPath.descend_nil] at hnil
      cases b with
      | true => exact (hnil hb).elim
      | false => exact PathFilter.admits_iff.2 hb
    obtain ⟨t, ht, hpath, htplace⟩ := Walk.reached_descend (hsurveyed hroot)
      (fun ms hms _ => hdirs ms hms) (fun ms hms _ => he ms hms)
    refine ⟨hroot, t, ht, Site.mem_files.2 ⟨n, ?_⟩, ha⟩
    obtain ⟨hname, hchild⟩ := Site.child?_of_not_dir (s := t) (by rw [htplace]; exact hlast) hfile
    exact ⟨hname, hchild, by rw [hpath, AbsPath.descend_descend]⟩

/-- A file beneath the working directory is among all files exactly if it is selected when it is
given and no directory from the working directory down to it is excluded. -/
theorem mem_ofAll_iff_mem_ofGiven (hp : w.memory.paths = none)
    (hcwd : w.disk.locate w.cwd = .ok here) (dirs : List Name) (n : Name)
    (hplace : w.disk.locate (w.cwd.descend (dirs ++ [n])) = .ok place)
    (hfile : w.disk.isDirAt place.real = false)
    (hlinks : ∀ ms, ms <+: dirs → ms ≠ [] → w.disk.isLinkAt (here.real ++ ms) = false)
    {raw : Text} (hraw : w.view.absolute raw = w.cwd.descend (dirs ++ [n]))
    {all given : List Text} {w₁ w₂ : Workspace σ π}
    (hall : (ofAll w.cwd F source).get w = .ok all w₁)
    (hgiven : (ofGiven w.cwd F source raw).get w = .ok given w₂) :
    (w.cwd.descend (dirs ++ [n])).text ∈ all ↔ (w.cwd.descend (dirs ++ [n])).text ∈ given ∧
      ∀ ms, ms <+: dirs → F.excludes (w.cwd.descend ms) true ≠ .ok true := by
  obtain ⟨hended, hmemAll⟩ := mem_ofAll hp hall
  obtain ⟨-, hmemGiven⟩ := mem_ofGiven hp hgiven
  have hroot : w.view.disk.isDirAt [] = true :=
    Disk.isDirAt_root hplace (by simp [AbsPath.descend])
  have hdir : w.view.isDir (w.cwd.descend (dirs ++ [n])).text = false :=
    (View.isDir_text hroot hplace).trans hfile
  have hwalk : w.cwd.descend (dirs ++ [n]) ∈ (Walk.start w.view F false w.cwd.text).files ↔ _ :=
    mem_files_start (v := w.view) hcwd hplace hfile hlinks hended
  rw [hmemAll, hmemGiven, hwalk, files_start_of_file hraw hplace hfile, hdir]
  simp only [List.mem_singleton, true_and]
  constructor
  · rintro ⟨⟨-, he⟩, ha, hown⟩
    exact ⟨⟨ha, hown⟩, he⟩
  · rintro ⟨⟨ha, hown⟩, he⟩
    exact ⟨⟨ha, he⟩, ha, hown⟩

-- A file in a directory. Above it lies an ignore file of two lines: the first excludes the
-- directory, and the second takes back what the first says of the file.
namespace Retaken

def r : Name := ⟨"r".toList, by decide⟩
def d : Name := ⟨"d".toList, by decide⟩
def f : Name := ⟨"f".toList, by decide⟩
def ig : Name := ⟨"ig".toList, by decide⟩

def disk : Disk where
  entries :=
    [([r], .dir true), ([r, d], .dir true), ([r, d, f], .file .empty),
      ([ig], .file "d/\n!f\n".toUTF8)]

def workspace : Workspace Unit Unit := .start ⟨disk, ⟨false, [r]⟩⟩ () "/tmp"

def ignoreFile : IgnoreFile :=
  ⟨⟨false, [ig]⟩, [⟨false, true, [.anyDepth, .glob [.literal 'd'], .anyDepth]⟩,
    ⟨true, false, [.anyDepth, .glob [.literal 'f']]⟩]⟩

def filter : PathFilter := ⟨[], [], .add .empty ignoreFile, ⟨false, [r]⟩⟩

theorem ofLine_directory : Rule.ofLine "d/".toList =
    .ok (some ⟨false, true, [.anyDepth, .glob [.literal 'd'], .anyDepth]⟩) := by
  have hsegments : [['*', '*'], ['d'], ['*', '*']].mapM Rule.segment =
      .ok [.anyDepth, .glob [.literal 'd'], .anyDepth] := by
    simp only [List.mapM_cons, List.mapM_nil, Rule.segment_literal (t := ['d']) (by decide)]
    rfl
  exact Rule.ofLine_ok [['d'], []] rfl rfl rfl nofun hsegments rfl

theorem ofLine_file : Rule.ofLine "!f".toList =
    .ok (some ⟨true, false, [.anyDepth, .glob [.literal 'f']]⟩) := by
  have hsegments : [['*', '*'], ['f']].mapM Rule.segment =
      .ok [.anyDepth, .glob [.literal 'f']] := by
    simp only [List.mapM_cons, List.mapM_nil, Rule.segment_literal (t := ['f']) (by decide)]
    rfl
  exact Rule.ofLine_ok [['f']] rfl rfl rfl nofun hsegments rfl

theorem readText_rules : workspace.view.readText (AbsPath.text ⟨false, [ig]⟩) =
    .ok "d/\n!f\n".toList := by
  have hfile : workspace.view.disk.get? [ig] = some (.file "d/\n!f\n".toUTF8) := rfl
  exact View.readText_direct (v := workspace.view) false (by decide) rfl rfl hfile

theorem load_filter : PathFilter.load workspace.view [] [] ["../ig"] none = .ok filter := by
  have hlines : IgnoreFile.readLines workspace.view (AbsPath.text ⟨false, [ig]⟩) =
      .ok ["d/".toList, "!f".toList] := by
    rw [IgnoreFile.readLines, readText_rules]
    rfl
  have hrules : Rule.ofLines ["d/".toList, "!f".toList] =
      .ok ignoreFile.rules := by
    rw [Rule.ofLines, List.mapM_cons, List.mapM_cons, List.mapM_nil, ofLine_directory, ofLine_file]
    rfl
  have hload : IgnoreFile.load workspace.view "../ig" = .ok ignoreFile :=
    IgnoreFile.load_ok hlines hrules
  rw [PathFilter.load, IgnoreFile.Registry.load, List.foldlM_cons, hload]
  rfl

theorem locate_cwd : disk.locate ⟨false, [r]⟩ = .ok ⟨[r], Disk.maxLinks⟩ :=
  Disk.locate_direct false rfl (e := .dir true) rfl rfl

theorem locate_file : disk.locate ⟨false, [r, d, f]⟩ = .ok ⟨[r, d, f], Disk.maxLinks⟩ :=
  Disk.locate_direct false rfl (e := .file .empty) rfl rfl

theorem start_cwd : Walk.start workspace.view filter false "/r" =
    ⟨[.listed ⟨false, [r]⟩, .pruned ⟨false, [r, d]⟩], .ok ()⟩ := by
  let cwd : Site := ⟨⟨false, [r]⟩, ⟨[r], Disk.maxLinks⟩, false⟩
  have hnames : disk.names [r] = [d] := Disk.names_of_single rfl rfl
  have hchildren : cwd.children disk = [cwd.descend [d]] := by
    rw [Site.children, show disk.names cwd.place.real = [d] from hnames]
    rfl
  have hfiles : cwd.files disk = [] := by
    rw [Site.files, show disk.names cwd.place.real = [d] from hnames]
    rfl
  have hentered : Walk.entered disk filter false cwd = [] := by
    rw [Walk.entered, hchildren]
    rfl
  have hrun : Walk.run disk filter false [] [cwd] =
      ⟨[.listed ⟨false, [r]⟩, .pruned ⟨false, [r, d]⟩], .ok ()⟩ := by
    rw [Walk.run_alone rfl hentered, Walk.survey, hchildren, hfiles]
    rfl
  have hlocate : workspace.view.disk.locate (workspace.view.absolute "/r") =
      .ok ⟨[r], Disk.maxLinks⟩ := locate_cwd
  rw [Walk.start]
  simp only [hlocate]
  exact hrun

theorem start_file : Walk.start workspace.view filter false "d/f" =
    ⟨[.file ⟨false, [r, d, f]⟩], .ok ()⟩ := by
  have hlocate : workspace.view.disk.locate (workspace.view.absolute "d/f") =
      .ok ⟨[r, d, f], Disk.maxLinks⟩ := locate_file
  rw [Walk.start]
  simp only [hlocate]
  rfl

def noGit : ChangeSource Unit Unit := Git.missing.source "/r"

theorem get_all : ∃ w₁, (ofAll workspace.cwd filter noGit).get workspace = .ok [] w₁ := by
  let s := ofAll workspace.cwd filter noGit
  have hstarts : s.mode.startingPaths s.paths s.cwd s.source workspace =
      .ok ["/r".toList] (workspace.record (.usingDirectory "/r")) := rfl
  have hwalk : Walk.startAll workspace.view s.filter s.followLinks ["/r"] =
      ⟨[.listed ⟨false, [r]⟩, .pruned ⟨false, [r, d]⟩], .ok ()⟩ :=
    congrArg (Walk.andThen · Walk.done) start_cwd
  have hkeep : s.filter.keep workspace.view ((Walk.startAll workspace.view s.filter
      s.followLinks ["/r"]).files.map AbsPath.text) = .ok [] := by
    rw [hwalk]
    rfl
  obtain ⟨w₁, hfound⟩ := found_of_walk hstarts (congrArg Walk.ended hwalk) hkeep
  have hget := get_of_found (show Mode.all ≠ .staged by decide) rfl hfound
  have hchosen : s.chosen [] = [] := by
    rw [chosen, Text.sorted, List.filter_nil]
    simp
  rw [hchosen] at hget
  exact ⟨_, hget⟩

theorem get_file :
    ∃ w₁, (ofGiven workspace.cwd filter noGit "d/f").get workspace = .ok ["/r/d/f".toList] w₁ := by
  let s := ofGiven workspace.cwd filter noGit "d/f"
  have hstarts : s.mode.startingPaths s.paths s.cwd s.source workspace =
      .ok ["d/f".toList] (workspace.record (.usingPaths ["d/f"])) := rfl
  have hwalk : Walk.startAll workspace.view s.filter s.followLinks ["d/f"] =
      ⟨[.file ⟨false, [r, d, f]⟩], .ok ()⟩ :=
    congrArg (Walk.andThen · Walk.done) start_file
  have hdir : workspace.view.isDir (AbsPath.text ⟨false, [r, d, f]⟩) = false :=
    View.isDir_text (v := workspace.view) rfl locate_file
  have hexcludes : s.filter.excludes ⟨false, [r, d, f]⟩ false = .ok false := rfl
  have hkeep : s.filter.keep workspace.view ((Walk.startAll workspace.view s.filter
      s.followLinks ["d/f"]).files.map AbsPath.text) = .ok ["/r/d/f".toList] := by
    rw [hwalk, show List.map AbsPath.text (Walk.files _) = [AbsPath.text ⟨false, [r, d, f]⟩]
      from rfl, PathFilter.keep_of_decided]
    · rw [List.filter_cons, View.absolute_text, hdir, if_pos (PathFilter.admits_iff.2 hexcludes)]
      rfl
    · intro t ht
      rw [List.mem_singleton.1 ht, View.absolute_text, hdir]
      exact ⟨false, hexcludes⟩
  obtain ⟨w₁, hfound⟩ := found_of_walk hstarts (congrArg Walk.ended hwalk) hkeep
  have hget := get_of_found (show Mode.explicit ≠ .staged by decide) rfl hfound
  have hchosen : s.chosen ["/r/d/f".toList] = ["/r/d/f".toList] := by
    rw [chosen, show List.filter _ _ = ["/r/d/f".toList] from rfl, Text.sorted_singleton]
  rw [hchosen] at hget
  exact ⟨_, hget⟩

end Retaken

/-- The file is not among all files, but it is selected when it is given. -/
theorem given_in_excluded_directory :
    PathFilter.load Retaken.workspace.view [] [] ["../ig"] none = .ok Retaken.filter ∧
    ∃ w₁ w₂, (ofAll Retaken.workspace.cwd Retaken.filter Retaken.noGit).get Retaken.workspace =
        .ok [] w₁ ∧
      (ofGiven Retaken.workspace.cwd Retaken.filter Retaken.noGit "d/f").get Retaken.workspace =
        .ok ["/r/d/f".toList] w₂ := by
  obtain ⟨w₁, hall⟩ := Retaken.get_all
  obtain ⟨w₂, hgiven⟩ := Retaken.get_file
  exact ⟨Retaken.load_filter, w₁, w₂, hall, hgiven⟩

/-- What keeps that file from being among all files: its directory is excluded. -/
theorem excluded_directory_of_given : ∃ here place all given w₁ w₂,
    Retaken.workspace.memory.paths = none ∧
      Retaken.disk.locate Retaken.workspace.cwd = .ok here ∧
      Retaken.disk.locate (Retaken.workspace.cwd.descend [Retaken.d, Retaken.f]) = .ok place ∧
      Retaken.disk.isDirAt place.real = false ∧
      (∀ ms, ms <+: [Retaken.d] → ms ≠ [] → Retaken.disk.isLinkAt (here.real ++ ms) = false) ∧
      (ofAll Retaken.workspace.cwd Retaken.filter Retaken.noGit).get Retaken.workspace =
        .ok all w₁ ∧
      (ofGiven Retaken.workspace.cwd Retaken.filter Retaken.noGit "d/f").get Retaken.workspace =
        .ok given w₂ ∧
      ("/r/d/f".toList ∈ all ↔ "/r/d/f".toList ∈ given ∧ ∀ ms, ms <+: [Retaken.d] →
        Retaken.filter.excludes (Retaken.workspace.cwd.descend ms) true ≠ .ok true) := by
  obtain ⟨w₁, hall⟩ := Retaken.get_all
  obtain ⟨w₂, hgiven⟩ := Retaken.get_file
  have hlinks : ∀ ms, ms <+: [Retaken.d] → ms ≠ [] →
      Retaken.disk.isLinkAt ([Retaken.r] ++ ms) = false := by
    intro ms hms hne
    cases ms with
    | nil => exact (hne rfl).elim
    | cons m ms =>
      obtain ⟨rfl, hnil⟩ := List.cons_prefix_cons.1 hms
      rw [List.prefix_nil.1 hnil]
      rfl
  exact ⟨_, _, _, _, w₁, w₂, rfl, Retaken.locate_cwd, Retaken.locate_file, rfl, hlinks, hall,
    hgiven, mem_ofAll_iff_mem_ofGiven (w := Retaken.workspace) rfl Retaken.locate_cwd
      [Retaken.d] Retaken.f Retaken.locate_file rfl hlinks rfl hall hgiven⟩

end PathSelection.Selection
