import PathSelection.Proofs.Failure
import PathSelection.Proofs.IgnoreFile.Registry
import PathSelection.PathFilter

namespace PathSelection

namespace PathFilter

variable {f g : PathFilter} {p : AbsPath} {isDir : Bool}

/-- Whether the filter has decided that it does not exclude a path. -/
def admits (f : PathFilter) (p : AbsPath) (isDir : Bool) : Bool :=
  match f.excludes p isDir with
  | .ok false => true
  | _ => false

theorem admits_iff : f.admits p isDir = true ↔ f.excludes p isDir = .ok false := by
  unfold admits
  split
  · next h => exact ⟨fun _ => h, fun _ => rfl⟩
  · next h => exact ⟨nofun, fun he => (h he).elim⟩

theorem admits_eq_false {b : Bool} (h : f.excludes p isDir = .ok b) :
    f.admits p isDir = !b := by
  cases b with
  | true => rw [admits, h]; rfl
  | false => exact admits_iff.2 h

theorem keep_cons (v : View) (t : Text) (paths : List Text) :
    f.keep v (t :: paths) = f.excludes (v.absolute t) (v.isDir t) >>= fun b =>
      f.keep v paths >>= fun kept => .ok (if b then kept else t :: kept) := by
  rw [keep, keep, filterM_cons]
  cases f.excludes (v.absolute t) (v.isDir t) with
  | error e => rfl
  | ok b => cases b <;> rfl

theorem keep_ok {v : View} {paths kept : List Text} (h : f.keep v paths = .ok kept) :
    (∀ t ∈ paths, ∃ b, f.excludes (v.absolute t) (v.isDir t) = .ok b) ∧
      kept = paths.filter fun t => f.admits (v.absolute t) (v.isDir t) := by
  induction paths generalizing kept with
  | nil =>
    cases h
    exact ⟨nofun, rfl⟩
  | cons t paths ih =>
    rw [keep_cons] at h
    obtain ⟨b, hb, h⟩ := ok_of_bind h
    obtain ⟨rest, hrest, h⟩ := ok_of_bind h
    obtain ⟨hdecided, rfl⟩ := ih hrest
    cases h
    refine ⟨List.forall_mem_cons.2 ⟨⟨b, hb⟩, hdecided⟩, ?_⟩
    rw [List.filter_cons, admits_eq_false hb]
    cases b <;> rfl

theorem keep_of_decided {v : View} {paths : List Text}
    (h : ∀ t ∈ paths, ∃ b, f.excludes (v.absolute t) (v.isDir t) = .ok b) :
    f.keep v paths = .ok (paths.filter fun t => f.admits (v.absolute t) (v.isDir t)) := by
  induction paths with
  | nil => rfl
  | cons t paths ih =>
    obtain ⟨⟨b, hb⟩, hpaths⟩ := List.forall_mem_cons.1 h
    rw [keep_cons, hb, ih hpaths, List.filter_cons, admits_eq_false hb]
    cases b <;> rfl

theorem matchesAny_error {patterns : List Text} {path : Text} {e : Failure}
    (h : matchesAny patterns path isDir = .error e) :
    ∃ pattern fault, e = .pattern pattern fault := by
  induction patterns with
  | nil => cases h
  | cons pattern patterns ih =>
    rw [matchesAny, List.anyM] at h
    cases hm : Pattern.isMatch pattern path isDir with
    | error fault =>
      rw [hm] at h
      cases h
      exact ⟨pattern, fault, rfl⟩
    | ok b =>
      rw [hm] at h
      cases b with
      | true => cases h
      | false => exact ih h

theorem excludes_error {e : Failure} (h : f.excludes p isDir = .error e) :
    ∃ pattern fault, e = .pattern pattern fault := by
  unfold excludes at h
  split at h
  · cases h
  · split at h
    · cases h
    · exact matchesAny_error h

theorem keep_error {v : View} {paths : List Text} {e : Failure}
    (h : f.keep v paths = .error e) : ∃ pattern fault, e = .pattern pattern fault := by
  have hexcludes (p : AbsPath) (isDir : Bool) :
      OnlyFails (fun e => ∃ pattern fault, e = .pattern pattern fault) (f.excludes p isDir) :=
    fun _ => excludes_error
  exact onlyFails_filterM (fun t => (hexcludes _ _).bind fun b => onlyFails_ok (!b)) paths e h

theorem matchesAny_eq_false {patterns : List Text} {path : Text} :
    matchesAny patterns path isDir = .ok false ↔
      ∀ pattern ∈ patterns, Pattern.isMatch pattern path isDir = .ok false := by
  induction patterns with
  | nil => exact ⟨fun _ => nofun, fun _ => rfl⟩
  | cons pattern patterns ih =>
    rw [List.forall_mem_cons, ← ih, matchesAny, List.anyM]
    cases hm : Pattern.isMatch pattern path isDir with
    | error fault => simp [bind, Except.bind, Except.mapError]
    | ok b =>
      cases b with
      | true => simp [bind, Except.bind, Except.mapError, pure, Except.pure]
      | false => exact ⟨fun h => ⟨rfl, h⟩, fun h => h.2⟩

theorem admits_iff_forall : f.admits p isDir = true ↔
    f.ignoreFiles.excludes p isDir = false ∧ (f.relative p = ['.'] ∨
      ∀ pattern ∈ f.excluded, Pattern.isMatch pattern (f.relative p) isDir = .ok false) := by
  rw [admits_iff, excludes, ← matchesAny_eq_false]
  cases f.ignoreFiles.excludes p isDir with
  | true => exact ⟨nofun, fun h => nomatch h.1⟩
  | false =>
    by_cases hroot : f.relative p = ['.']
    · simp [hroot]
    · simp [hroot]

/-- Whether a filter excludes by all that another excludes by, below the same root. -/
structure Extends (f g : PathFilter) : Prop where
  root : f.root = g.root
  excluded : g.excluded ⊆ f.excluded
  ignored : ∀ p isDir, g.ignoreFiles.excludes p isDir = true → f.ignoreFiles.excludes p isDir = true
  ignoreFiles : g.ignoreFiles.files ⊆ f.ignoreFiles.files

theorem Extends.admits (h : f.Extends g) (ha : f.admits p isDir = true) :
    g.admits p isDir = true := by
  have hrelative : g.relative p = f.relative p := by
    rw [relative, relative, h.root]
  rw [admits_iff_forall] at ha ⊢
  obtain ⟨hnone, hpatterns⟩ := ha
  rw [hrelative]
  constructor
  · refine eq_false_of_ne_true fun hignored => ?_
    cases hnone.symm.trans (h.ignored p isDir hignored)
  · rcases hpatterns with hroot | hpatterns
    · exact .inl hroot
    · right
      intro pattern hpattern
      exact hpatterns pattern (h.excluded hpattern)

theorem extends_of_load {v : View} {included excluded more ignored moreIgnored : List Text}
    {root : Option Text} (hexcluded : excluded ⊆ more) (hignored : ignored ⊆ moreIgnored)
    (hf : load v included more moreIgnored root = .ok f)
    (hg : load v included excluded ignored root = .ok g) : f.Extends g := by
  rw [load] at hf hg
  obtain ⟨r, hmore, hf⟩ := ok_of_bind hf
  obtain ⟨s, hfew, hg⟩ := ok_of_bind hg
  cases hf
  cases hg
  refine ⟨rfl, hexcluded, fun p isDir h => ?_, fun p hp => ?_⟩
  · obtain ⟨path, hpath, hby⟩ := (IgnoreFile.Registry.excludes_iff hfew).1 h
    exact (IgnoreFile.Registry.excludes_iff hmore).2 ⟨path, hignored hpath, hby⟩
  · obtain ⟨path, hpath, rfl⟩ := (IgnoreFile.Registry.mem_files hfew).1 hp
    exact (IgnoreFile.Registry.mem_files hmore).2 ⟨path, hignored hpath, rfl⟩

end PathFilter
end PathSelection
