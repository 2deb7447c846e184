import PathSelection.Proofs.Selection.Narrowing

namespace PathSelection

namespace Disk

variable {d : Disk} {p q : AbsPath}

/-- A path that names a link in a directory, but leads nowhere. -/
structure Dangling (d : Disk) (p : AbsPath) : Prop where
  nowhere : ∀ place, d.locate p ≠ .ok place
  link : ∃ q real n, p = q.child n ∧ d.directory? q = some real ∧ d.isLinkAt (real ++ [n]) = true

theorem directory?_of_mem_leaves (h : q ∈ d.leaves p) : d.directory? q = none := by
  obtain ⟨real, n, -, -, hnone, rfl⟩ := mem_entriesAt.1 h
  exact Option.isNone_iff_eq_none.1 hnone

theorem dangling_of_mem_leaves (h : q ∈ d.leaves p) (hq : ∀ place, d.locate q ≠ .ok place) :
    d.Dangling q := by
  refine ⟨hq, ?_⟩
  obtain ⟨real, n, hp, hn, hnone, rfl⟩ := mem_entriesAt.1 h
  refine ⟨p, real, n, rfl, hp, ?_⟩
  obtain ⟨links, hplace, hd⟩ := directory?_ok hp
  obtain ⟨e, he⟩ := get?_of_mem_names hn
  cases hl : d.isLinkAt (real ++ [n]) with
  | true => rfl
  | false =>
    exact (hq _ (locate_entry hplace hd he hl)).elim

end Disk

def View.missing? (v : View) (paths : List Text) : Option Text :=
  paths.find? fun t => !(v.disk.locate (v.absolute t)).isOk

namespace Walk

variable {f : PathFilter} {v : View} {raw : Text} {p : AbsPath} {followLinks : Bool}

theorem leaf_of_mem_files (h : (start v f false raw).ended = .ok ())
    (hp : p ∈ (start v f false raw).files) : v.disk.directory? p = none ∧
      ((∀ place, v.disk.locate p ≠ .ok place) → v.disk.Dangling p) := by
  obtain ⟨place, hplace, hfiles⟩ := files_start h
  rw [hfiles] at hp
  split at hp
  · rw [gathered_eq_flatMap] at hp
    obtain ⟨q, -, hp⟩ := List.mem_flatMap.1 hp
    obtain ⟨hleaf, -⟩ := List.mem_filter.1 hp
    exact ⟨Disk.directory?_of_mem_leaves hleaf, Disk.dangling_of_mem_leaves hleaf⟩
  · next hd =>
    obtain rfl := List.mem_singleton.1 hp
    refine ⟨?_, fun hnone => (hnone place hplace).elim⟩
    simp only [Disk.directory?, hplace, hd, Bool.false_eq_true, if_false]

theorem ended_startAll_of_leaves {paths : List Text}
    (h : ∀ t ∈ paths, v.disk.directory? (v.absolute t) = none) :
    (startAll v f followLinks paths).ended =
      match v.missing? paths with
      | none => .ok ()
      | some t => .error (.pathNotFound t) := by
  induction paths with
  | nil => rfl
  | cons t paths ih =>
    have ih := ih fun u hu => h u (List.mem_cons_of_mem _ hu)
    rw [startAll_cons, View.missing?, List.find?_cons]
    cases hplace : v.disk.locate (v.absolute t) with
    | error e =>
      rw [start_missing hplace]
      rfl
    | ok place =>
      have hd : v.disk.isDirAt place.real = false := by
        cases hd : v.disk.isDirAt place.real with
        | false => rfl
        | true =>
          cases (h t List.mem_cons_self).symm.trans (Disk.directory?_eq_some hplace hd)
      rw [start_other hplace hd]
      exact (andThen_of_ok rfl _).1.trans ih

end Walk

namespace Selection

variable {σ π : Type} {s : Selection σ π} {w w₁ : Workspace σ π} {paths : List Text} {v : View}
  {t : Text}

theorem view_of_startingPaths {m : Mode} (hm : m = .explicit ∨ m = .all) {given starts : List Text}
    {cwd : Text} {source : ChangeSource σ π}
    (h : m.startingPaths given cwd source w = .ok starts w₁) : w₁.view = w.view := by
  rcases hm with rfl | rfl
  · cases h
    rfl
  · cases given with
    | nil =>
      cases h
      rfl
    | cons t given => cases h

/-- What it takes for a path that has been selected to be selected again. -/
structure Recurs (s : Selection σ π) (v : View) (t : Text) : Prop where
  leaf : v.disk.directory? (v.absolute t) = none
  dangling : (∀ place, v.disk.locate (v.absolute t) ≠ .ok place) → v.disk.Dangling (v.absolute t)
  again : ∀ place, v.disk.locate (v.absolute t) = .ok place →
    s.Fair v t ∧ s.contribution v t = [t]

theorem recurs_of_mem_contribution {raw : Text} (hl : s.followLinks = false)
    (hfair : s.Fair v raw) (ht : t ∈ s.contribution v raw) : s.Recurs v t := by
  obtain ⟨hended, -⟩ := hfair
  rw [contribution, List.mem_filter, Bool.and_eq_true] at ht
  obtain ⟨hfile, hadmits, hown⟩ := ht
  obtain ⟨p, hp, rfl⟩ := List.mem_map.1 hfile
  rw [hl] at hended hp
  obtain ⟨hleaf, hdangling⟩ := Walk.leaf_of_mem_files hended hp
  rw [View.absolute_text] at hadmits
  constructor
  · rwa [View.absolute_text]
  · rwa [View.absolute_text]
  · intro place hplace
    have hd : v.disk.isDirAt place.real = false := by
      rw [View.absolute_text] at hplace
      cases hd : v.disk.isDirAt place.real with
      | false => rfl
      | true => cases hleaf.symm.trans (Disk.directory?_eq_some hplace hd)
    have hstart : Walk.start v s.filter s.followLinks p.text = Walk.done.after (.file p) := by
      rw [Walk.start_other hplace hd, View.absolute_text]
    rw [Bool.not_eq_true', List.contains_eq_mem, decide_eq_false_iff_not] at hown
    apply contribution_of_single (by rw [hstart]; rfl) (by rw [hstart]; rfl) ?_ hown
    exact PathFilter.admits_iff.1 hadmits

theorem get_of_recurring (h : ∀ t ∈ paths, s.Recurs w.view t) (hp : paths.Pairwise (· < ·))
    (hw : w.memory = .empty) : ∃ w', (s.given paths).get w =
      match w.view.missing? paths with
      | none => .ok paths w'
      | some t => .error (.pathNotFound t) w' := by
  have hended : (Walk.startAll w.view s.filter s.followLinks paths).ended = _ :=
    Walk.ended_startAll_of_leaves fun t ht => (h t ht).leaf
  have hpaths : w.memory.paths = none := by rw [hw]; rfl
  cases hm : w.view.missing? paths with
  | none =>
    have hagain : ∀ t ∈ paths, s.Fair w.view t ∧ s.contribution w.view t = [t] := by
      intro t ht
      have hfound := List.find?_eq_none.1 hm t ht
      cases hplace : w.view.disk.locate (w.view.absolute t) with
      | error e =>
        rw [hplace] at hfound
        exact (hfound rfl).elim
      | ok place => exact (h t ht).again place hplace
    have hcontributions : paths.flatMap (s.contribution w.view) = paths := by
      rw [List.flatMap_congr fun t ht => (hagain t ht).2, List.flatMap_singleton']
    apply (get_given hpaths).2
    rw [hcontributions, Text.sorted_of_pairwise_lt hp]
    exact ⟨fun t ht => (hagain t ht).1, rfl⟩
  | some t =>
    rw [hm] at hended
    have hstarts : (s.given paths).mode.startingPaths (s.given paths).paths (s.given paths).cwd
        (s.given paths).source w = .ok paths (w.record (.usingPaths paths)) := rfl
    obtain ⟨w₁, hfound, hmemory⟩ := found_of_walk_error hstarts hended
    have hstash : w₁.memory.stash = none := by
      rw [hmemory, Workspace.record, hw]
      rfl
    have hmode : (s.given paths).mode ≠ .staged := show Mode.explicit ≠ .staged by decide
    exact ⟨w₁, get_of_found_error hmode hpaths hstash hfound⟩

/-- Paths that have been selected, of those given or of all, are selected again when they are
given, provided that each of them leads somewhere. If not, the first that leads nowhere is not
found; it is a link. -/
theorem selected_again {mode : Mode} (hm : mode = .explicit ∨ mode = .all)
    {given excluded ignored : List Text} {root : Option Text} {source : ChangeSource σ π}
    (hs : setUp w.view mode given excluded ignored root source false = .ok s)
    (hp : w.memory.paths = none) (h : s.get w = .ok paths w₁) :
    ∃ s', setUp w.view .explicit paths excluded ignored root source false = .ok s' ∧
      (∀ w', w'.view = w.view → w'.memory = .empty → ∃ w₂, s'.get w' =
        match w.view.missing? paths with
        | none => .ok paths w₂
        | some t => .error (.pathNotFound t) w₂) ∧
      ∀ t ∈ paths, (∀ place, w.disk.locate (w.view.absolute t) ≠ .ok place) →
        w.disk.Dangling (w.view.absolute t) := by
  obtain ⟨-, F, hF, rfl⟩ := ok_of_setUp hs
  obtain ⟨w₀, starts, w₂, hstart, hstarts, hfair, rfl⟩ := contributions_of_get hp h
  have hnot : mode ≠ .staged := by
    rintro rfl
    rcases hm with hm | hm <;> cases hm
  cases (start_of_not_staged hnot).symm.trans hstart
  have hview := view_of_startingPaths hm hstarts
  rw [hview] at hfair ⊢
  let s : Selection σ π := ⟨mode, given, w.view.cwd.text, F, source, false⟩
  have hrecurs : ∀ t ∈ Text.sorted (starts.flatMap (s.contribution w.view)),
      s.Recurs w.view t := by
    intro t ht
    rw [Text.mem_sorted] at ht
    obtain ⟨raw, hraw, ht⟩ := List.mem_flatMap.1 ht
    exact recurs_of_mem_contribution rfl (hfair raw hraw) ht
  refine ⟨s.given (Text.sorted (starts.flatMap (s.contribution w.view))), ?_, ?_, ?_⟩
  · rw [setUp, hF]
    rfl
  · intro w' hview' hmemory
    rw [← hview'] at hrecurs ⊢
    exact get_of_recurring hrecurs (Text.pairwise_lt_sorted _) hmemory
  · intro t ht
    exact (hrecurs t ht).dangling

-- A directory with one entry, a link to nothing.
namespace Broken

def lost : Name := ⟨"lost".toList, by decide⟩

def disk : Disk := ⟨[([lost], .link "x")]⟩

def workspace : Workspace Unit Unit := .start ⟨disk, .root⟩ () "/"

def filter : PathFilter := ⟨[], [], .empty, .root⟩

def noGit : ChangeSource Unit Unit := Git.missing.source "/"

def selection (raw : Text) : Selection Unit Unit := ofGiven .root filter noGit raw

theorem setUp_selection (raw : Text) :
    setUp workspace.view .explicit [raw] [] [] none noGit false = .ok (selection raw) := by
  have hroot : workspace.view.absolute workspace.view.cwd.text = .root := View.absolute_text _ _
  rw [setUp, PathFilter.load, Option.getD_none, hroot]
  rfl

theorem follow_link : ∃ e, disk.follow Disk.maxLinks [] [.down lost] = .error e := by
  have hroot : disk.isDirAt [] = true := rfl
  have hlink : disk.get? ([] ++ [lost]) = some (.link "x") := rfl
  have hnothing : disk.get? ([] ++ [⟨"x".toList, by decide⟩]) = none := rfl
  obtain ⟨e, he⟩ := Disk.follow_missing hnothing
  refine ⟨e, ?_⟩
  rw [Disk.maxLinks, Disk.follow_link hroot hlink]
  exact he 39 []

theorem start_root : Walk.start workspace.view filter false "." =
    ⟨[.listed .root, .file ⟨false, [lost]⟩], .ok ()⟩ := by
  have hlocate : workspace.view.disk.locate (workspace.view.absolute ".") =
      .ok ⟨[], Disk.maxLinks⟩ := Disk.follow_nil
  have hnames : disk.names [] = [lost] := Disk.names_of_single rfl rfl
  have hchild : Site.child? disk ⟨.root, ⟨[], Disk.maxLinks⟩, false⟩ lost = none := by
    obtain ⟨e, he⟩ := follow_link
    rw [Site.child?, show disk.get? ([] ++ [lost]) = some (.link "x") from rfl]
    simp only [he]
  exact Walk.start_single hlocate rfl hnames hchild rfl rfl

theorem contribution_root : (selection ".").Fair workspace.view "." ∧
    (selection ".").contribution workspace.view "." = ["/lost".toList] := by
  have hstart : Walk.start workspace.view (selection ".").filter (selection ".").followLinks "." =
    _ := start_root
  have hexcludes (isDir : Bool) : (selection ".").filter.excludes ⟨false, [lost]⟩ isDir =
      .ok false := by
    cases isDir <;> rfl
  exact contribution_of_single (by rw [hstart]) (by rw [hstart]; rfl) (hexcludes _) List.not_mem_nil

theorem get_root : ∃ w₁, (selection ".").get workspace = .ok ["/lost".toList] w₁ := by
  apply (get_given (s := selection ".") rfl).2
  obtain ⟨hfair, hcontribution⟩ := contribution_root
  rw [List.flatMap_singleton, hcontribution]
  exact ⟨List.forall_mem_singleton.2 hfair, (Text.sorted_singleton _).symm⟩

theorem missing_link : workspace.view.missing? ["/lost".toList] = some "/lost".toList := by
  obtain ⟨e, he⟩ := follow_link
  have hlocate : workspace.view.disk.locate (workspace.view.absolute "/lost") = .error e := he
  rw [View.missing?, List.find?_cons, hlocate]
  rfl

end Broken

/-- A link to nothing is selected with the directory that holds it, but not found when it is given
itself. -/
theorem broken_link_not_found : ∃ s s' w₁ w₂,
    setUp Broken.workspace.view .explicit ["."] [] [] none Broken.noGit false = .ok s ∧
      s.get Broken.workspace = .ok ["/lost".toList] w₁ ∧
      setUp Broken.workspace.view .explicit ["/lost"] [] [] none Broken.noGit false = .ok s' ∧
      s'.get Broken.workspace = .error (.pathNotFound "/lost") w₂ := by
  obtain ⟨w₁, hroot⟩ := Broken.get_root
  have hrecurs : ∀ t ∈ ["/lost".toList], (Broken.selection ".").Recurs Broken.workspace.view t := by
    obtain ⟨hfair, hcontribution⟩ := Broken.contribution_root
    intro t ht
    rw [← hcontribution] at ht
    exact recurs_of_mem_contribution rfl hfair ht
  obtain ⟨w₂, hlink⟩ := get_of_recurring hrecurs (List.pairwise_singleton _ _) rfl
  rw [Broken.missing_link] at hlink
  exact ⟨_, _, w₁, w₂, Broken.setUp_selection ".", hroot, Broken.setUp_selection "/lost", hlink⟩

/-- What is said of that directory: its link is given again, and is found to lead nowhere. -/
theorem link_given_again : ∃ s s' w₁ w₂,
    setUp Broken.workspace.view .explicit ["."] [] [] none Broken.noGit false = .ok s ∧
      Broken.workspace.memory.paths = none ∧ s.get Broken.workspace = .ok ["/lost".toList] w₁ ∧
      setUp Broken.workspace.view .explicit ["/lost"] [] [] none Broken.noGit false = .ok s' ∧
      (s'.get Broken.workspace = match Broken.workspace.view.missing? ["/lost"] with
        | none => .ok ["/lost".toList] w₂
        | some t => .error (.pathNotFound t) w₂) := by
  obtain ⟨w₁, hroot⟩ := Broken.get_root
  obtain ⟨s', hs', hagain, -⟩ := selected_again (.inl rfl) (Broken.setUp_selection ".") rfl hroot
  obtain ⟨w₂, hlink⟩ := hagain Broken.workspace rfl rfl
  exact ⟨_, s', w₁, w₂, Broken.setUp_selection ".", rfl, hroot, hs', hlink⟩

end Selection
end PathSelection
