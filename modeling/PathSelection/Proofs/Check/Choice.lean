import PathSelection.Proofs.Check.Planning
import PathSelection.Proofs.Path.Written
import PathSelection.Proofs.PathFilter
import PathSelection.Proofs.Text.Order

namespace PathSelection

/-- The text that patterns see of a path: what leads to it from a root, or, outside the root, the
path without its leading slash. -/
inductive AbsPath.Seen (root : AbsPath) : AbsPath → Text → Prop
  | below {names : List Name} (h : names ≠ []) : Seen root (root.descend names) (Name.join names)
  | outside {p : AbsPath} (h : ∀ names, p ≠ root.descend names) : Seen root p (Name.join p.names)

theorem AbsPath.text_parent (p : AbsPath) :
    (WrittenPath.ofText p.text).parent.text = p.parent.text := by
  rw [ofText_text_written, ← text_written]
  have hparent : p.written.parent = p.parent.written := by
    rw [written, written, WrittenPath.parent, ← List.map_dropLast]
    rfl
  rw [hparent]

namespace PathFilter

variable {f : PathFilter} {p : AbsPath} {isDir b : Bool} {v : View} {paths kept : List Text}
  {patterns : List Text} {path : Text}

theorem relative_descend {names : List Name} (h : names ≠ []) :
    f.relative (f.root.descend names) = Name.join names := by
  rw [relative, AbsPath.relativeTo?_eq_some.2 rfl]
  cases names with
  | nil => exact (h rfl).elim
  | cons n ns => rfl

theorem relative_outside (h : ∀ names, p ≠ f.root.descend names) :
    f.relative p = Name.join p.names := by
  rw [relative]
  cases hp : p.relativeTo? f.root with
  | none => rfl
  | some names => exact (h names (AbsPath.relativeTo?_eq_some.1 hp)).elim

theorem relative_of_seen (h : f.root.Seen p path) : f.relative p = path := by
  cases h with
  | below hne => exact relative_descend hne
  | outside houtside => exact relative_outside houtside

theorem seen_relative (h : p ≠ f.root) : f.root.Seen p (f.relative p) := by
  by_cases hbelow : ∃ names, p = f.root.descend names
  · obtain ⟨names, rfl⟩ := hbelow
    have hne : names ≠ [] := by
      rintro rfl
      exact h (AbsPath.descend_nil _)
    rw [relative_descend hne]
    exact .below hne
  · have houtside := not_exists.1 hbelow
    rw [relative_outside houtside]
    exact .outside houtside

theorem relative_ne (h : p ≠ f.root) : f.relative p ≠ ['.'] := by
  generalize hpath : f.relative p = path
  have hseen := seen_relative h
  rw [hpath] at hseen
  cases hseen with
  | below _ => exact Name.join_ne_dot _
  | outside _ => exact Name.join_ne_dot _

theorem matchesAny_ok (h : matchesAny patterns path isDir = .ok b) :
    b = true ↔ ∃ pattern ∈ patterns, Pattern.isMatch pattern path isDir = .ok true := by
  induction patterns with
  | nil =>
    cases h
    simp
  | cons pattern patterns ih =>
    rw [matchesAny, List.anyM] at h
    rw [List.exists_mem_cons_iff]
    cases hm : Pattern.isMatch pattern path isDir with
    | error fault =>
      rw [hm] at h
      cases h
    | ok matched =>
      rw [hm] at h
      cases matched with
      | true =>
        cases h
        simp
      | false =>
        have hrest := ih h
        simp [hrest]

theorem excludes_ok (h : f.excludes p isDir = .ok b) (hp : p ≠ f.root) : b = true ↔
    f.ignoreFiles.excludes p isDir = true ∨
      ∃ pattern ∈ f.excluded, Pattern.isMatch pattern (f.relative p) isDir = .ok true := by
  unfold excludes at h
  rw [if_neg (relative_ne hp)] at h
  split at h
  · next hignored =>
    cases h
    exact iff_of_true rfl (.inl hignored)
  · next hignored =>
    rw [matchesAny_ok h]
    exact (or_iff_right hignored).symm

theorem includes_ok (h : f.includes p isDir = .ok b) : b = true ↔ f.included = [] ∨
    ∃ pattern ∈ f.included, Pattern.isMatch pattern (f.relative p) isDir = .ok true := by
  unfold includes at h
  split at h
  · next hnone =>
    cases h
    exact iff_of_true rfl (.inl (List.isEmpty_iff.1 hnone))
  · next hsome =>
    rw [matchesAny_ok h]
    exact (or_iff_right fun hnone => hsome (List.isEmpty_iff.2 hnone)).symm

theorem select_ok (h : f.select v paths = .ok kept) : kept.Sublist paths ∧
    (∀ t ∈ paths, ∃ b, f.excludes (v.absolute t) (v.isDir t) = .ok b ∧
      (b = false → ∃ b', f.includes (v.absolute t) (v.isDir t) = .ok b')) ∧
    ∀ t, t ∈ kept ↔ t ∈ paths ∧ f.excludes (v.absolute t) (v.isDir t) = .ok false ∧
      f.includes (v.absolute t) (v.isDir t) = .ok true := by
  obtain ⟨unexcluded, hkeep, h⟩ := ok_of_bind h
  obtain ⟨hexcludes, rfl⟩ := keep_ok hkeep
  obtain ⟨hsub, hincludes, hmem⟩ := ok_of_filterM h
  simp only [List.mem_filter, admits_iff] at hincludes hmem
  refine ⟨hsub.trans List.filter_sublist, ?_, ?_⟩
  · intro t ht
    obtain ⟨b, hb⟩ := hexcludes t ht
    refine ⟨b, hb, ?_⟩
    rintro rfl
    exact hincludes t ⟨ht, hb⟩
  · intro t
    rw [hmem, and_assoc]

end PathFilter

namespace Check

variable {v : View} {root : Option Text} {c : Check} {p : AbsPath} {ps : List AbsPath}
  {paths : List Text} {f : PathFilter}

/-- Whether the settings of a check choose a file: none of its ignore files ignores it, none of its
exclude patterns matches it, and one of its include patterns does if there are any. -/
structure Chooses (v : View) (root : AbsPath) (c : Check) (p : AbsPath) : Prop where
  unignored : ∀ path ∈ c.ignoreFiles, ¬IgnoreFile.IgnoredBy v path p false
  unexcluded : ∀ text, root.Seen p text → ∀ pattern ∈ c.excluded,
    Pattern.isMatch pattern text false ≠ .ok true
  included : c.included = [] ∨ ∃ text, root.Seen p text ∧ ∃ pattern ∈ c.included,
    Pattern.isMatch pattern text false = .ok true

def rootIn (v : View) (root : Option Text) : AbsPath := v.absolute (root.getD v.cwd.text)

theorem filter_ok (h : c.filter v root = .ok f) :
    IgnoreFile.Registry.load v c.ignoreFiles = .ok f.ignoreFiles ∧ f.included = c.included ∧
      f.excluded = c.excluded ∧ f.root = rootIn v root := by
  obtain ⟨files, hfiles, h⟩ := ok_of_bind h
  cases h
  exact ⟨hfiles, rfl, rfl, rfl⟩

theorem chooses_iff (h : c.filter v root = .ok f) (hp : p ≠ rootIn v root) {b : Bool}
    (hexcludes : f.excludes p false = .ok b)
    (hincludes : b = false → ∃ b', f.includes p false = .ok b') :
    c.Chooses v (rootIn v root) p ↔
      f.excludes p false = .ok false ∧ f.includes p false = .ok true := by
  obtain ⟨hfiles, hincluded, hexcluded, hroot⟩ := filter_ok h
  rw [← hroot] at hp ⊢
  have hseen := PathFilter.seen_relative hp
  have hexcluded' := PathFilter.excludes_ok hexcludes hp
  rw [hexcluded, IgnoreFile.Registry.excludes_iff hfiles] at hexcluded'
  constructor
  · rintro ⟨hignored, hpatterns, hinclude⟩
    have hb : b = false := by
      rw [← Bool.not_eq_true, hexcluded']
      rintro (⟨path, hpath, hby⟩ | ⟨pattern, hpattern, hmatch⟩)
      · exact hignored path hpath hby
      · exact hpatterns _ hseen pattern hpattern hmatch
    obtain ⟨b', hb'⟩ := hincludes hb
    refine ⟨hb ▸ hexcludes, ?_⟩
    rw [hb', (PathFilter.includes_ok hb').2]
    rw [hincluded]
    refine hinclude.imp_right ?_
    rintro ⟨text, htext, hmatch⟩
    rwa [PathFilter.relative_of_seen htext]
  · rintro ⟨hnot, hinclude⟩
    cases hexcludes.symm.trans hnot
    have hnone := hexcluded'.not.1 Bool.false_ne_true
    refine ⟨?_, ?_, ?_⟩
    · intro path hpath hby
      exact hnone (.inl ⟨path, hpath, hby⟩)
    · intro text htext pattern hpattern hmatch
      rw [← PathFilter.relative_of_seen htext] at hmatch
      exact hnone (.inr ⟨pattern, hpattern, hmatch⟩)
    · have hincluded' := (PathFilter.includes_ok hinclude).1 rfl
      rw [hincluded] at hincluded'
      exact hincluded'.imp_right fun hmatch => ⟨_, hseen, hmatch⟩

theorem paths_ok (hsorted : (ps.map AbsPath.text).Pairwise (· < ·))
    (hfiles : ∀ p ∈ ps, v.isDir p.text = false ∧ p ≠ rootIn v root)
    (h : c.paths v root (ps.map AbsPath.text) = .ok paths) :
    paths.Pairwise (· < ·) ∧ ∀ t, t ∈ paths ↔ ∃ p ∈ ps, c.Chooses v (rootIn v root) p ∧
      t = (if c.onDirectories then p.parent else p).text := by
  obtain ⟨f, hf, h⟩ := ok_of_bind h
  obtain ⟨kept, hkept, h⟩ := ok_of_bind h
  obtain ⟨hsub, hdecided, hmem⟩ := PathFilter.select_ok hkept
  have hkeptText (p : AbsPath) (hp : p ∈ ps) :
      p.text ∈ kept ↔ c.Chooses v (rootIn v root) p := by
    obtain ⟨hfile, hroot⟩ := hfiles p hp
    obtain ⟨b, hexcludes, hincludes⟩ := hdecided _ (List.mem_map_of_mem hp)
    rw [View.absolute_text, hfile] at hexcludes hincludes
    rw [chooses_iff hf hroot hexcludes hincludes, hmem, View.absolute_text, hfile]
    exact and_iff_right (List.mem_map_of_mem hp)
  have hkeptMem (t : Text) : t ∈ kept ↔ ∃ p ∈ ps, c.Chooses v (rootIn v root) p ∧ t = p.text := by
    constructor
    · intro ht
      obtain ⟨p, hp, rfl⟩ := List.mem_map.1 (hsub.subset ht)
      exact ⟨p, hp, (hkeptText p hp).1 ht, rfl⟩
    · rintro ⟨p, hp, hchooses, rfl⟩
      exact (hkeptText p hp).2 hchooses
  cases h
  cases c.onDirectories with
  | false => exact ⟨hsorted.sublist hsub, hkeptMem⟩
  | true =>
    refine ⟨Text.pairwise_lt_sorted _, fun t => ?_⟩
    change t ∈ directories kept ↔ _
    simp only [directories, Text.mem_sorted, List.mem_map, hkeptMem]
    constructor
    · rintro ⟨-, ⟨p, hp, hchooses, rfl⟩, rfl⟩
      exact ⟨p, hp, hchooses, p.text_parent⟩
    · rintro ⟨p, hp, hchooses, rfl⟩
      exact ⟨p.text, ⟨p, hp, hchooses, rfl⟩, p.text_parent⟩

end Check

namespace Plan

variable {v : View} {checks : List Check} {ps : List AbsPath} {action : Purpose}
  {root : Option Text} {plan : Plan}

/-- An entry of a plan has the name of a check, and in increasing order the files that the check
chooses, or the directories that hold them. -/
structure IsChoice (v : View) (root : Option Text) (ps : List AbsPath) (c : Check)
    (e : Text × List Text) : Prop where
  name : e.1 = c.name
  increasing : e.2.Pairwise (· < ·)
  mem_iff : ∀ t, t ∈ e.2 ↔ ∃ p ∈ ps, c.Chooses v (Check.rootIn v root) p ∧
    t = (if c.onDirectories then p.parent else p).text

/-- A plan for files in increasing order has an entry for each check that runs, and in it exactly
what the check chooses. -/
theorem make_chooses (hnames : (checks.map Check.name).Nodup)
    (hsorted : (ps.map AbsPath.text).Pairwise (· < ·))
    (hfiles : ∀ p ∈ ps, v.isDir p.text = false ∧ p ≠ Check.rootIn v root)
    (h : make v checks (ps.map AbsPath.text) action root = .ok plan) :
    (running checks action).Forall₂ (IsChoice v root ps) plan := by
  obtain ⟨es, hes, rfl⟩ := make_ok h
  have hnodup : (es.map Prod.fst).Nodup := by
    rw [names_of_entries hes]
    exact hnames.sublist (List.filter_sublist.map Check.name)
  rw [putAll_eq, Entries.putAll_of_nodup hnodup]
  apply hes.imp
  rintro c e ⟨hname, hpaths⟩
  obtain ⟨hincreasing, hmem⟩ := Check.paths_ok hsorted hfiles hpaths
  exact ⟨hname, hincreasing, hmem⟩

-- A check on directories, with one pattern to include and one to exclude, and two files.
namespace Held

def check : Check := ⟨"a", .lint, ["c"], ["*.toml"], ["*.md"], [], [], true, [], [0], none⟩

def notes : AbsPath := ⟨false, [⟨"notes.md", by decide⟩]⟩

def settings : AbsPath := ⟨false, [Shared.file]⟩

def filter : PathFilter := ⟨["*.toml"], ["*.md"], .empty, .root⟩

theorem isDir_notes : Shared.view.isDir notes.text = false := by
  have hnotes : Shared.view.entry? notes.text = none :=
    View.entry?_child (p := .root) rfl (Disk.locate_direct false rfl rfl rfl) rfl rfl
  rw [View.isDir, hnotes]
  rfl

theorem isDir_settings : Shared.view.isDir settings.text = false :=
  View.isDir_text (v := Shared.view) rfl Shared.locate_file

theorem select_files :
    filter.select Shared.view [notes.text, settings.text] = .ok [settings.text] := by
  have hnotes : filter.excludes notes false = .ok true := by decide +kernel
  have hsettings : filter.excludes settings false = .ok false := by decide +kernel
  have hincluded : filter.includes settings false = .ok true := by decide +kernel
  have hkeep : filter.keep Shared.view [notes.text, settings.text] = .ok [settings.text] := by
    rw [PathFilter.keep_cons, PathFilter.keep_cons, View.absolute_text, View.absolute_text,
      isDir_notes, isDir_settings, hnotes, hsettings]
    rfl
  rw [PathFilter.select, hkeep]
  change List.filterM (fun t => filter.includes (Shared.view.absolute t) (Shared.view.isDir t))
    [settings.text] = _
  rw [filterM_cons, View.absolute_text, isDir_settings, hincluded]
  rfl

theorem make_plan : make Shared.view [check] [notes.text, settings.text] .lint (some "/") =
    .ok [("a", ["/"])] := by
  have hpaths : check.paths Shared.view (some "/") [notes.text, settings.text] = .ok ["/"] := by
    have hdirectories : Check.directories [settings.text] = [['/']] := Text.sorted_singleton ['/']
    change (filter.select Shared.view _ >>= fun kept => .ok (Check.directories kept)) = _
    rw [select_files]
    exact congrArg Except.ok hdirectories
  have hrunning : [check].filter (·.runsFor .lint) = [check] := by decide +kernel
  simp only [make, hrunning, List.foldlM_cons, List.foldlM_nil, hpaths, bind, Except.bind, pure,
    Except.pure]
  rfl

end Held

/-- The directory is planned for the sake of the file that the check chooses. -/
theorem directory_of_chosen :
    make Shared.view [Held.check] ([Held.notes, Held.settings].map AbsPath.text) .lint (some "/") =
      .ok [("a", ["/"])] ∧
    ∃ p ∈ [Held.notes, Held.settings], Held.check.Chooses Shared.view .root p ∧
      "/" = p.parent.text := by
  have hsorted : ([Held.notes, Held.settings].map AbsPath.text).Pairwise (· < ·) := by
    decide +kernel
  have hroot : Check.rootIn Shared.view (some "/") = .root := by decide +kernel
  have hfiles : ∀ p ∈ [Held.notes, Held.settings],
      Shared.view.isDir p.text = false ∧ p ≠ Check.rootIn Shared.view (some "/") := by
    rw [hroot, List.forall_mem_cons, List.forall_mem_singleton]
    exact ⟨⟨Held.isDir_notes, by decide⟩, ⟨Held.isDir_settings, by decide⟩⟩
  have hrunning : running [Held.check] .lint = [Held.check] := by decide +kernel
  have hnames : ([Held.check].map Check.name).Nodup := List.nodup_singleton _
  have hchoices := make_chooses hnames hsorted hfiles Held.make_plan
  rw [hrunning] at hchoices
  obtain ⟨hchoice, -⟩ := List.forall₂_cons.1 hchoices
  refine ⟨Held.make_plan, ?_⟩
  rw [← hroot]
  exact (hchoice.mem_iff "/").1 List.mem_cons_self

end Plan
end PathSelection
