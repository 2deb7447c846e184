import PathSelection.IgnoreFile.Registry
import PathSelection.Proofs.Disk.Follow
import PathSelection.Proofs.IgnoreFile

namespace PathSelection

theorem AbsPath.relativeTo?_eq_some {p directory : AbsPath} {names : List Name} :
    p.relativeTo? directory = some names ↔ p = directory.descend names := by
  unfold relativeTo? descend
  constructor
  · intro h
    split at h
    · next hbelow =>
      obtain ⟨hdoubled, rest, hrest⟩ := hbelow
      rw [← hrest, List.drop_left, Option.some.injEq] at h
      rw [← hdoubled, ← h, hrest]
    · cases h
  · rintro rfl
    rw [if_pos ⟨rfl, List.prefix_append _ _⟩, List.drop_left]

namespace IgnoreFile

variable {v : View} {path : Text} {paths : List Text} {f : IgnoreFile} {files : List IgnoreFile}
  {p : AbsPath} {isDir : Bool}

/-- Whether a file ignores a path. It has no say on its own directory and on what lies outside. -/
def ignores (f : IgnoreFile) (p : AbsPath) (isDir : Bool) : Bool :=
  match p.relativeTo? f.path.parent with
  | some (n :: ns) => Rule.ignores f.rules (candidate (n :: ns) isDir)
  | _ => false

theorem load_eq_ok : load v path = .ok f ↔ ∃ lines rules,
    readLines v (v.absolute path).text = .ok lines ∧ Rule.ofLines lines = .ok rules ∧
      f = ⟨v.absolute path, rules⟩ := by
  constructor
  · intro h
    obtain ⟨lines, hlines, h⟩ := ok_of_bind h
    cases hrules : Rule.ofLines lines with
    | error fault =>
      rw [hrules] at h
      cases h
    | ok rules =>
      rw [hrules] at h
      cases h
      exact ⟨lines, rules, hlines, hrules, rfl⟩
  · rintro ⟨lines, rules, hlines, hrules, rfl⟩
    exact load_ok hlines hrules

theorem ignores_iff : f.ignores p isDir = true ↔ ∃ names, names ≠ [] ∧
    p = f.path.parent.descend names ∧ Rule.ignores f.rules (candidate names isDir) = true := by
  simp only [← AbsPath.relativeTo?_eq_some]
  unfold ignores
  split
  · next n ns hp =>
    constructor
    · intro h
      exact ⟨n :: ns, List.cons_ne_nil n ns, hp, h⟩
    · rintro ⟨names, -, hnames, h⟩
      obtain rfl := Option.some.inj (hp.symm.trans hnames)
      exact h
  · next hp =>
    constructor
    · exact nofun
    · rintro ⟨names, hne, hnames, -⟩
      obtain ⟨n, ns, rfl⟩ := List.exists_cons_of_ne_nil hne
      exact (hp n ns hnames).elim

/-- The ignore file at `path`, read by itself, ignores a path: the path lies beneath the directory
of the file, and the rules on the lines of the file match what leads from there to it. -/
def IgnoredBy (v : View) (path : Text) (p : AbsPath) (isDir : Bool) : Prop :=
  ∃ lines rules names, readLines v (v.absolute path).text = .ok lines ∧
    Rule.ofLines lines = .ok rules ∧ names ≠ [] ∧ p = (v.absolute path).parent.descend names ∧
    Rule.ignores rules (candidate names isDir) = true

def loadAll (v : View) (paths : List Text) : Except Failure (List IgnoreFile) :=
  paths.mapM (load v)

theorem mem_loadAll (h : loadAll v paths = .ok files) :
    f ∈ files ↔ ∃ path ∈ paths, load v path = .ok f :=
  (ok_of_mapM h).2 f

theorem any_ignores_iff (h : loadAll v paths = .ok files) :
    files.any (·.ignores p isDir) = true ↔ ∃ path ∈ paths, IgnoredBy v path p isDir := by
  simp only [List.any_eq_true, mem_loadAll h, load_eq_ok, ignores_iff]
  constructor
  · rintro ⟨f, ⟨path, hpath, lines, rules, hlines, hrules, rfl⟩, names, hne, hp, hi⟩
    exact ⟨path, hpath, lines, rules, names, hlines, hrules, hne, hp, hi⟩
  · rintro ⟨path, hpath, lines, rules, names, hlines, hrules, hne, hp, hi⟩
    exact ⟨_, ⟨path, hpath, lines, rules, hlines, hrules, rfl⟩, names, hne, hp, hi⟩

namespace Registry

variable {r s : Registry}

/-- A file that is added takes nothing back, whether its directory is new or not. -/
theorem excludes_add (r : Registry) (f : IgnoreFile) :
    (r.add f).excludes p isDir = (r.excludes p isDir || f.ignores p isDir) := by
  obtain ⟨governed, files⟩ := r
  simp only [add, excludes]
  induction governed with
  | nil =>
    simp only [Governed.add, List.any_cons, List.any_nil, Bool.or_false, Bool.false_or]
    rfl
  | cons g gs ih =>
    rw [Governed.add]
    split
    · next hg =>
      rw [List.any_cons, List.any_cons, Bool.or_right_comm]
      congr 1
      rw [ignores, ← hg]
      cases p.relativeTo? g.1 with
      | none => rfl
      | some names =>
        cases names with
        | nil => rfl
        | cons n ns => simp only [List.any_append, List.any_cons, List.any_nil, Bool.or_false]
    · rw [List.any_cons, List.any_cons, ih, Bool.or_assoc]

theorem size_add (r : Registry) (f : IgnoreFile) : (r.add f).size = r.size + 1 := by
  obtain ⟨governed, files⟩ := r
  simp only [add, size]
  induction governed with
  | nil => rfl
  | cons g gs ih =>
    rw [Governed.add]
    split
    · simp only [List.foldr_cons, List.length_append, List.length_singleton]
      omega
    · simp only [List.foldr_cons, ih]
      omega

theorem excludes_addAll (files : List IgnoreFile) (r : Registry) :
    (files.foldl add r).excludes p isDir =
      (r.excludes p isDir || files.any (·.ignores p isDir)) := by
  induction files generalizing r with
  | nil => exact (Bool.or_false _).symm
  | cons f files ih => rw [List.foldl_cons, ih, excludes_add, List.any_cons, Bool.or_assoc]

theorem size_addAll (files : List IgnoreFile) (r : Registry) :
    (files.foldl add r).size = r.size + files.length := by
  induction files generalizing r with
  | nil => rfl
  | cons f files ih =>
    rw [List.foldl_cons, ih, size_add, List.length_cons]
    omega

theorem foldlM_add (v : View) (paths : List Text) (r : Registry) :
    paths.foldlM (fun r path => return r.add (← IgnoreFile.load v path)) r =
      (loadAll v paths).map fun files => files.foldl add r := by
  induction paths generalizing r with
  | nil => rfl
  | cons path paths ih =>
    rw [List.foldlM_cons, loadAll, List.mapM_cons]
    cases IgnoreFile.load v path with
    | error e => rfl
    | ok f =>
      have hrest := ih (r.add f)
      rw [loadAll] at hrest
      change List.foldlM _ (r.add f) paths = _
      rw [hrest]
      cases paths.mapM (IgnoreFile.load v) <;> rfl

theorem load_eq (v : View) (paths : List Text) :
    load v paths = (loadAll v paths).map fun files => files.foldl add empty :=
  foldlM_add v paths empty

theorem load_eq_ok : load v paths = .ok r ↔
    ∃ files, loadAll v paths = .ok files ∧ r = files.foldl add empty := by
  rw [load_eq]
  cases loadAll v paths with
  | error e => simp [Except.map]
  | ok files => simp [Except.map, eq_comm]

theorem size_of_load (h : load v paths = .ok r) : r.size = paths.length := by
  obtain ⟨files, hfiles, rfl⟩ := load_eq_ok.1 h
  rw [size_addAll, length_of_mapM hfiles]
  exact Nat.zero_add _

theorem excludes_iff (h : load v paths = .ok r) :
    r.excludes p isDir = true ↔ ∃ path ∈ paths, IgnoredBy v path p isDir := by
  obtain ⟨files, hfiles, rfl⟩ := load_eq_ok.1 h
  rw [excludes_addAll, ← any_ignores_iff hfiles]
  exact Bool.or_eq_true_iff.trans (or_iff_right nofun)

theorem files_addAll (files : List IgnoreFile) (r : Registry) :
    (files.foldl add r).files = r.files ++ files.map IgnoreFile.path := by
  induction files generalizing r with
  | nil => exact (List.append_nil _).symm
  | cons f files ih =>
    rw [List.foldl_cons, ih, List.map_cons]
    exact (List.append_cons _ _ _).symm

theorem mem_files (h : load v paths = .ok r) :
    p ∈ r.files ↔ ∃ path ∈ paths, p = v.absolute path := by
  obtain ⟨files, hfiles, rfl⟩ := load_eq_ok.1 h
  have hpath {path : Text} {f : IgnoreFile} (hf : IgnoreFile.load v path = .ok f) :
      f.path = v.absolute path := by
    obtain ⟨lines, rules, -, -, rfl⟩ := IgnoreFile.load_eq_ok.1 hf
    rfl
  rw [files_addAll, show empty.files = [] from rfl, List.nil_append, List.mem_map]
  constructor
  · rintro ⟨f, hf, rfl⟩
    obtain ⟨path, hmem, hload⟩ := (mem_loadAll hfiles).1 hf
    exact ⟨path, hmem, hpath hload⟩
  · rintro ⟨path, hmem, rfl⟩
    obtain ⟨f, hload⟩ := (ok_of_mapM hfiles).1 path hmem
    exact ⟨f, (mem_loadAll hfiles).2 ⟨path, hmem, hload⟩, hpath hload⟩

theorem load_append (h : load v paths = .ok r) {others : List Text}
    (ho : load v others = .ok s) : ∃ both, load v (paths ++ others) = .ok both := by
  obtain ⟨files, hfiles, -⟩ := load_eq_ok.1 h
  obtain ⟨files', hfiles', -⟩ := load_eq_ok.1 ho
  exact ⟨_, load_eq_ok.2 ⟨_, mapM_append_of_ok hfiles hfiles', rfl⟩⟩

theorem load_of_mem (h : load v paths = .ok r) {others : List Text}
    (ho : ∀ path ∈ others, path ∈ paths) : ∃ s, load v others = .ok s := by
  obtain ⟨files, hfiles, -⟩ := load_eq_ok.1 h
  obtain ⟨files', hfiles'⟩ :=
    exists_mapM_ok fun path hpath => (ok_of_mapM hfiles).1 path (ho path hpath)
  exact ⟨_, load_eq_ok.2 ⟨files', hfiles', rfl⟩⟩

/-- A registry excludes what one of its files, read by itself, ignores. Two lists of files together
exclude what one of the lists excludes, and neither order nor repetition matters. -/
theorem excludes_of_load (h : load v paths = .ok r) :
    (∀ p isDir, r.excludes p isDir = true ↔ ∃ path ∈ paths, IgnoredBy v path p isDir) ∧
      r.size = paths.length ∧
      (∀ others s, load v others = .ok s → ∃ both, load v (paths ++ others) = .ok both ∧
        both.size = r.size + s.size ∧
        ∀ p isDir, both.excludes p isDir = (r.excludes p isDir || s.excludes p isDir)) ∧
      ∀ others, (∀ path, path ∈ others ↔ path ∈ paths) → ∃ s, load v others = .ok s ∧
        ∀ p isDir, s.excludes p isDir = r.excludes p isDir := by
  refine ⟨fun p isDir => excludes_iff h, size_of_load h, ?_, ?_⟩
  · intro others s ho
    obtain ⟨both, hboth⟩ := load_append h ho
    refine ⟨both, hboth, ?_, fun p isDir => ?_⟩
    · rw [size_of_load hboth, size_of_load h, size_of_load ho, List.length_append]
    · rw [Bool.eq_iff_iff, Bool.or_eq_true, excludes_iff hboth, excludes_iff h, excludes_iff ho]
      simp only [List.mem_append, or_and_right, exists_or]
  · intro others ho
    obtain ⟨s, hs⟩ := load_of_mem h fun path hpath => (ho path).1 hpath
    refine ⟨s, hs, fun p isDir => ?_⟩
    rw [Bool.eq_iff_iff, excludes_iff hs, excludes_iff h]
    simp only [ho]

-- Two files in one directory: `a` ignores everything, and `b` takes everything back.
namespace Retaken

def d : Name := ⟨['d'], by decide⟩
def a : Name := ⟨['a'], by decide⟩
def b : Name := ⟨['b'], by decide⟩
def x : Name := ⟨['x'], by decide⟩

def disk : Disk :=
  ⟨[([d], .dir true), ([d, a], .file "*\n".toUTF8), ([d, b], .file "!*\n".toUTF8)]⟩

def view : View := ⟨disk, .root⟩

def star (reincludes : Bool) : Rule := ⟨reincludes, false, [.anyDepth, .anyName]⟩

def registry : Registry :=
  ⟨[(⟨false, [d]⟩, [[star false], [star true]])], [⟨false, [d, a]⟩, ⟨false, [d, b]⟩]⟩

theorem load_file {n : Name} {s : String} {rule : Rule} {line : Text}
    (ht : View.Takes (AbsPath.text ⟨false, [d, n]⟩))
    (hdown : disk.get? [d, n] = some (.file s.toUTF8))
    (hlines : ruleLines (Text.unifyNewlines s.toList) = [line])
    (hrule : Rule.ofLine line = .ok (some rule)) :
    IgnoreFile.load view (AbsPath.text ⟨false, [d, n]⟩) = .ok ⟨⟨false, [d, n]⟩, [rule]⟩ := by
  have htext := View.readText_direct (v := view) false ht rfl rfl hdown
  have hread : readLines view (AbsPath.text ⟨false, [d, n]⟩) = .ok [line] := by
    simp only [readLines, htext, hlines]
  have hrules : Rule.ofLines [line] = .ok [rule] := by
    rw [Rule.ofLines, List.mapM_cons, List.mapM_nil, hrule]
    rfl
  rw [IgnoreFile.load_eq_ok, View.absolute_text]
  exact ⟨[line], [rule], hread, hrules, rfl⟩

theorem load_registry : load view ["/d/a", "/d/b"] = .ok registry := by
  have ha : IgnoreFile.load view "/d/a" = .ok ⟨⟨false, [d, a]⟩, [star false]⟩ :=
    load_file (n := a) (s := "*\n") (by decide) rfl rfl rfl
  have hb : IgnoreFile.load view "/d/b" = .ok ⟨⟨false, [d, b]⟩, [star true]⟩ :=
    load_file (n := b) (s := "!*\n") (by decide) rfl rfl rfl
  rw [load_eq, loadAll, List.mapM_cons, List.mapM_cons, List.mapM_nil, ha, hb]
  rfl

end Retaken

/-- The path stays excluded, for the sake of the first file. -/
theorem excluded_beside_retaking : load Retaken.view ["/d/a", "/d/b"] = .ok Retaken.registry ∧
    Retaken.registry.excludes ⟨false, [Retaken.d, Retaken.x]⟩ false = true ∧
    (∃ path ∈ (["/d/a", "/d/b"] : List Text),
      IgnoredBy Retaken.view path ⟨false, [Retaken.d, Retaken.x]⟩ false) ∧
    Retaken.registry.size = 2 := by
  obtain ⟨hexcludes, hsize, -⟩ := excludes_of_load Retaken.load_registry
  have hignored : Retaken.registry.excludes ⟨false, [Retaken.d, Retaken.x]⟩ false = true := by
    decide
  exact ⟨Retaken.load_registry, hignored, (hexcludes _ _).1 hignored, hsize⟩

end Registry
end IgnoreFile

end PathSelection
