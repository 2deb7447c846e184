import PathSelection.Proofs.Disk.Follow
import PathSelection.Proofs.PathFilter
import PathSelection.Proofs.Pattern.Matching

namespace PathSelection

open Pattern

/-- How a list of patterns falls apart at the first one that is refused. -/
structure FirstInvalid (patterns valid : List Text) (bad : Text) (fault : PatternFault) : Prop where
  split : ∃ more, patterns = valid ++ bad :: more
  valid : ∀ pattern ∈ valid, ∃ rules, compile pattern = .ok rules
  refused : compile bad = .error fault

theorem exists_firstInvalid {patterns : List Text}
    (h : ∃ pattern ∈ patterns, ∃ fault, compile pattern = .error fault) :
    ∃ valid bad fault, FirstInvalid patterns valid bad fault := by
  induction patterns with
  | nil =>
    obtain ⟨pattern, hm, -⟩ := h
    cases hm
  | cons pattern patterns ih =>
    cases hc : compile pattern with
    | error fault => exact ⟨[], pattern, fault, ⟨patterns, rfl⟩, nofun, hc⟩
    | ok rules =>
      have hlater : ∃ pattern ∈ patterns, ∃ fault, compile pattern = .error fault := by
        obtain ⟨pattern', hm, fault, hfault⟩ := h
        rcases List.mem_cons.1 hm with rfl | hm
        · rw [hc] at hfault
          cases hfault
        · exact ⟨pattern', hm, fault, hfault⟩
      obtain ⟨valid, bad, fault, ⟨more, rfl⟩, hvalid, hbad⟩ := ih hlater
      exact ⟨pattern :: valid, bad, fault, ⟨more, rfl⟩,
        List.forall_mem_cons.2 ⟨⟨rules, hc⟩, hvalid⟩, hbad⟩

namespace PathFilter

section FirstInvalid

variable {f : PathFilter} {v : View} {p : AbsPath} {path : Text} {isDir : Bool}
  {patterns valid : List Text} {bad : Text} {fault : PatternFault}

def excluding (f : PathFilter) (patterns : List Text) : PathFilter :=
  { f with excluded := patterns }

/-- Whether a path lies below the root of the filter and is not the root. -/
def Holds (f : PathFilter) (p : AbsPath) : Prop := ∃ n ns, p.relativeTo? f.root = some (n :: ns)

theorem Holds.relative_ne (h : f.Holds p) : f.relative p ≠ ['.'] := by
  obtain ⟨n, ns, hp⟩ := h
  rw [relative, hp]
  exact Name.join_ne_dot (n :: ns)

theorem matchesAny_of_firstInvalid (h : FirstInvalid patterns valid bad fault) :
    matchesAny patterns path isDir =
      if matchesAny valid path isDir = .ok false then .error (.pattern bad fault) else .ok true := by
  obtain ⟨⟨more, rfl⟩, hvalid, hbad⟩ := h
  induction valid with
  | nil =>
    have hmatch : isMatch bad path isDir = .error fault := by
      rw [isMatch, hbad]
      rfl
    rw [List.nil_append, matchesAny, List.anyM, hmatch]
    rfl
  | cons pattern valid ih =>
    obtain ⟨⟨rules, hrules⟩, hvalid⟩ := List.forall_mem_cons.1 hvalid
    have hmatch : isMatch pattern path isDir = _ := isMatch_of_compile hrules
    rw [List.cons_append, matchesAny, List.anyM, matchesAny, List.anyM, hmatch]
    cases Rule.ignores rules (candidate path isDir) with
    | true => rfl
    | false => exact ih hvalid

theorem excludes_of_firstInvalid (h : FirstInvalid f.excluded valid bad fault) (hp : f.Holds p) :
    f.excludes p isDir = if (f.excluding valid).admits p isDir then .error (.pattern bad fault)
      else .ok true := by
  have hrelative : f.relative p ≠ ['.'] := hp.relative_ne
  have hadmits : (f.excluding valid).admits p isDir = true ↔
      ¬f.ignoreFiles.excludes p isDir = true ∧
        matchesAny valid (f.relative p) isDir = .ok false := by
    rw [admits_iff]
    change (if f.ignoreFiles.excludes p isDir then .ok true else
      if f.relative p = ['.'] then .ok false else matchesAny valid (f.relative p) isDir) = _ ↔ _
    rw [if_neg hrelative]
    split
    · next hignored => exact ⟨nofun, fun h => (h.1 hignored).elim⟩
    · next hnone => exact ⟨fun h => ⟨hnone, h⟩, fun h => h.2⟩
  rw [excludes, if_neg hrelative, matchesAny_of_firstInvalid h]
  by_cases ha : (f.excluding valid).admits p isDir = true
  · obtain ⟨hnone, hmatches⟩ := hadmits.1 ha
    rw [if_pos ha, if_neg hnone, if_pos hmatches]
  · rw [if_neg ha]
    split
    · rfl
    · next hnone => exact if_neg fun hmatches => ha (hadmits.2 ⟨hnone, hmatches⟩)

theorem keep_of_excluded_or_failing {paths : List Text} {e : Failure} {fails : Text → Bool}
    (h : ∀ t ∈ paths, f.excludes (v.absolute t) (v.isDir t) =
      if fails t then .error e else .ok true) :
    f.keep v paths = if paths.any fails then .error e else .ok [] := by
  induction paths with
  | nil => rfl
  | cons t paths ih =>
    obtain ⟨ht, hpaths⟩ := List.forall_mem_cons.1 h
    rw [keep_cons, ht, ih hpaths, List.any_cons]
    cases fails t with
    | true => rfl
    | false => cases paths.any fails <;> rfl

/-- Of the paths below the root none is kept if an exclude pattern is refused. They fail if one of
them comes to the first such pattern, that is, if no ignore file ignores it and no pattern before
that one matches it. -/
theorem keep_of_invalid {paths : List Text}
    (hinvalid : ∃ pattern ∈ f.excluded, ∃ fault, compile pattern = .error fault)
    (hpaths : ∀ t ∈ paths, f.Holds (v.absolute t)) :
    ∃ valid bad fault, FirstInvalid f.excluded valid bad fault ∧ f.keep v paths =
      if paths.any fun t => (f.excluding valid).admits (v.absolute t) (v.isDir t) then
        .error (.pattern bad fault)
      else .ok [] := by
  obtain ⟨valid, bad, fault, hfirst⟩ := exists_firstInvalid hinvalid
  refine ⟨valid, bad, fault, hfirst, ?_⟩
  apply keep_of_excluded_or_failing
  intro t ht
  exact excludes_of_firstInvalid hfirst (hpaths t ht)

end FirstInvalid

namespace Starred

def repository : Name := ⟨"repo", by decide⟩

def file : Name := ⟨"a.py", by decide⟩

def path : AbsPath := ⟨false, [repository, file]⟩

def view : View := ⟨⟨[]⟩, .root⟩

def bad : Text := "*.\x7bpy"

def filter (excluded : List Text) : PathFilter := ⟨[], excluded, .empty, ⟨false, [repository]⟩⟩

theorem compile_bad : compile bad = .error (.braces .unclosed) := by decide +kernel

theorem holds_path (excluded : List Text) :
    ∀ t ∈ [path.text], (filter excluded).Holds (view.absolute t) := by
  rw [List.forall_mem_singleton, View.absolute_text]
  have hnames : path.relativeTo? ⟨false, [repository]⟩ = some [file] := by decide +kernel
  exact ⟨file, [], hnames⟩

end Starred

open Starred

/-- The star matches the path, so the refused pattern after it is not read. -/
theorem refused_behind_star : compile bad = .error (.braces .unclosed) ∧
    (filter ["*".toList, bad]).Holds (view.absolute path.text) ∧
    (filter ["*".toList, bad]).keep view [path.text] = .ok [] := by
  have hfirst : FirstInvalid ["*".toList, bad] ["*".toList] bad (.braces .unclosed) := by
    refine ⟨⟨[], rfl⟩, List.forall_mem_singleton.2 ⟨[⟨false, false, [.anyDepth, .anyName]⟩], ?_⟩,
      compile_bad⟩
    decide +kernel
  have hholds := holds_path ["*".toList, bad] _ List.mem_cons_self
  have hexcluded : ∀ isDir, ((filter ["*".toList, bad]).excluding ["*".toList]).admits path isDir =
      false := by decide +kernel
  have hkeep : (filter ["*".toList, bad]).keep view [path.text] =
      if [path.text].any fun _ => false then .error (.pattern bad (.braces .unclosed))
      else .ok [] := by
    apply keep_of_excluded_or_failing
    intro t ht
    obtain rfl := List.mem_singleton.1 ht
    rw [excludes_of_firstInvalid hfirst hholds, View.absolute_text, hexcluded]
  exact ⟨compile_bad, hholds, hkeep⟩

theorem refused_before_star : (∃ pattern ∈ [bad, "*".toList], ∃ fault,
      compile pattern = .error fault) ∧
    (∀ t ∈ [path.text], (filter [bad, "*".toList]).Holds (view.absolute t)) ∧
    (filter [bad, "*".toList]).keep view [path.text] =
      .error (.pattern bad (.braces .unclosed)) := by
  have hinvalid : ∃ pattern ∈ [bad, "*".toList], ∃ fault, compile pattern = .error fault :=
    ⟨bad, List.mem_cons_self, _, compile_bad⟩
  have hholds := holds_path [bad, "*".toList]
  refine ⟨hinvalid, hholds, ?_⟩
  obtain ⟨valid, _, fault, ⟨⟨more, hsplit⟩, hvalid, hbad⟩, hkeep⟩ :=
    keep_of_invalid (f := filter [bad, "*".toList]) hinvalid hholds
  cases valid with
  | nil =>
    cases hsplit
    cases compile_bad.symm.trans hbad
    have hadmits : ∀ isDir, ((filter [bad, "*".toList]).excluding []).admits path isDir = true := by
      decide +kernel
    rw [hkeep, List.any_cons, View.absolute_text, hadmits]
    rfl
  | cons pattern valid =>
    obtain ⟨rfl, -⟩ := List.cons.inj hsplit
    obtain ⟨rules, hrules⟩ := hvalid bad List.mem_cons_self
    rw [compile_bad] at hrules
    cases hrules

end PathFilter
end PathSelection
