import PathSelection.Proofs.Path.Relative
import PathSelection.Proofs.Pattern.Matching
import PathSelection.Proofs.Rule.Beneath

namespace PathSelection.Pattern

open Rule

variable {pattern : Text} {alternatives : List Text} {rules : List Rule} {p q d : RelativePath}
  {isDir : Bool}

theorem searched_append {part : Text} (hne : part ≠ []) (hslash : '/' ∉ part)
    (hdot : part ≠ ['.']) (t : Text) : searched (part ++ t) = part ++ t := by
  obtain ⟨c, cs, rfl⟩ := List.exists_cons_of_ne_nil hne
  simp only [List.mem_cons, not_or] at hslash
  obtain ⟨hc, hcs⟩ := hslash
  unfold searched
  split
  · next u h =>
    cases h
    exact (hc rfl).elim
  · next u h =>
    obtain ⟨rfl, h⟩ := List.cons.inj h
    cases cs with
    | nil => exact (hdot rfl).elim
    | cons c' cs =>
      cases h
      exact (hcs List.mem_cons_self).elim
  · rfl

theorem candidate_text (p : RelativePath) (isDir : Bool) :
    candidate p.text isDir = p.text ++ if isDir then ['/'] else [] := by
  have hlast : (p.text.getLast? != some '/') = true := bne_iff_ne.2 p.getLast?_text
  rw [candidate, hlast]
  cases isDir with
  | false => exact (List.append_nil _).symm
  | true => rfl

theorem searched_candidate (h : p.parts ≠ []) :
    searched (candidate p.text isDir) = p.text ++ if isDir then ['/'] else [] := by
  obtain ⟨part, more, htext, hne, hslash, hdot⟩ := RelativePath.exists_text h
  rw [candidate_text, htext, List.append_assoc, searched_append hne hslash hdot]

theorem searched_candidate_file (p : RelativePath) :
    searched (candidate p.text false) = p.text := by
  by_cases h : p.parts = []
  · rw [candidate_text, RelativePath.text_of_here h]
    rfl
  · rw [searched_candidate h]
    exact List.append_nil _

theorem searched_candidate_here (h : p.parts = []) : searched (candidate p.text true) = [] := by
  rw [candidate_text, RelativePath.text_of_here h]
  rfl

theorem searched_candidate_below (hq : q.parts ≠ []) :
    searched (candidate (d.below q).text isDir) =
      searched (candidate d.text true) ++ searched (candidate q.text isDir) := by
  have hbelow : (d.below q).parts ≠ [] := List.append_ne_nil_of_right_ne_nil _ hq
  rw [searched_candidate hbelow, searched_candidate hq]
  by_cases hd : d.parts = []
  · rw [searched_candidate_here hd, RelativePath.text_below_here hd]
    rfl
  · rw [searched_candidate hd, RelativePath.text_below hd hq]
    simp only [if_true, List.append_assoc, List.cons_append, List.nil_append]

theorem atDirectory_searched (d : RelativePath) :
    AtDirectory (searched (candidate d.text true)) := by
  by_cases hd : d.parts = []
  · exact .inl (searched_candidate_here hd)
  · right
    rw [searched_candidate hd]
    exact List.getLast?_concat

/-- A pattern that matches a directory matches all that lies beneath it, if none of its alternatives
is an exception or holds a class. -/
theorem isMatch_beneath (hexpand : Braces.expand pattern = .ok alternatives)
    (hplain : ∀ a ∈ alternatives, a.head? ≠ some '!' ∧ opensClass a = false)
    (hq : q.parts ≠ []) (hd : isMatch pattern d.text true = .ok true) (isDir : Bool) :
    isMatch pattern (d.below q).text isDir = .ok true := by
  obtain ⟨rules, hrules⟩ := isMatch_ok_iff.1 ⟨true, hd⟩
  have hmark : ∀ a ∈ alternatives, a.head? ≠ some '!' := fun a ha => (hplain a ha).1
  obtain ⟨a, ha, r, hline, hfound⟩ := (isMatch_iff hrules hexpand hmark).1 hd
  obtain ⟨-, init, s, hr, hs⟩ :=
    rule_without_class (read_of_ofLine hline) (hmark a ha) (hplain a ha).2
  refine (isMatch_iff hrules hexpand hmark).2 ⟨a, ha, r, hline, ?_⟩
  rw [searched_candidate_below hq]
  exact handsDown_search hr hs _ hfound (atDirectory_searched d) _

theorem metadata_matched_beneath :
    isMatch "\x7b/build,**/*.egg-info\x7d" "lib/a.egg-info" true = .ok true ∧
      ∀ isDir, isMatch "\x7b/build,**/*.egg-info\x7d" "lib/a.egg-info/top/level" isDir =
        .ok true := by
  have hexpand : Braces.expand "\x7b/build,**/*.egg-info\x7d" =
      .ok ["/build".toList, "**/*.egg-info".toList] := by decide +kernel
  have hplain : ∀ a ∈ ["/build".toList, "**/*.egg-info".toList],
      a.head? ≠ some '!' ∧ opensClass a = false := by decide +kernel
  have hd : isMatch "\x7b/build,**/*.egg-info\x7d" "lib/a.egg-info" true = .ok true := by
    decide +kernel
  refine ⟨hd, fun isDir => ?_⟩
  exact isMatch_beneath (d := ⟨["lib".toList, "a.egg-info".toList], by decide⟩)
    (q := ⟨["top".toList, "level".toList], by decide⟩) hexpand hplain (by decide) hd isDir

/-- A pattern that ends in a slash matches a path that is no directory exactly if it matches a
directory above it. -/
theorem isMatch_of_directory (hvalid : compile pattern = .ok rules)
    (hexpand : Braces.expand pattern = .ok alternatives)
    (hmark : ∀ a ∈ alternatives, a.head? ≠ some '!') (hslash : pattern.getLast? = some '/')
    (p : RelativePath) : ∃ b, isMatch pattern p.text false = .ok b ∧
      (b = true ↔ ∃ d q : RelativePath, p = d.below q ∧ q.parts ≠ [] ∧
        isMatch pattern d.text true = .ok true) := by
  have hrule : ∀ a ∈ alternatives, ∀ r, ofLine a = .ok (some r) →
      r.dirOnly = true ∧ ∃ init, r.segments = init ++ [.anyDepth] := by
    intro a ha r hline
    exact (rule_of_slash (read_of_ofLine hline) (hmark a ha)
      (Braces.getLast?_of_mem hexpand hslash ha)).2
  have hmatch : isMatch pattern p.text false = _ := isMatch_of_compile hvalid
  refine ⟨_, hmatch, ?_⟩
  have hiff : isMatch pattern p.text false = .ok true ↔ _ := isMatch_iff hvalid hexpand hmark
  rw [hmatch, Except.ok.injEq, searched_candidate_file] at hiff
  rw [hiff]
  constructor
  · rintro ⟨a, ha, r, hline, hfound⟩
    obtain ⟨hdir, init, hr⟩ := hrule a ha r hline
    obtain ⟨u, v, hsplit, hu⟩ := throughDirectory_search hr hdir _ hfound
    obtain ⟨d, q, rfl, hd, hq, rfl⟩ := RelativePath.exists_below hsplit
    refine ⟨d, q, rfl, hq, (isMatch_iff hvalid hexpand hmark).2 ⟨a, ha, r, hline, ?_⟩⟩
    rw [searched_candidate hd]
    exact hu
  · rintro ⟨d, q, rfl, hq, hd⟩
    obtain ⟨a, ha, r, hline, hfound⟩ := (isMatch_iff hvalid hexpand hmark).1 hd
    obtain ⟨-, init, hr⟩ := hrule a ha r hline
    refine ⟨a, ha, r, hline, ?_⟩
    rw [← searched_candidate_file, searched_candidate_below hq]
    exact handsDown_search hr trivial _ hfound (atDirectory_searched d) _

theorem file_behind_class_over_slash :
    isMatch "a[^b]c/" "a/c/f" false = .ok true ∧ isMatch "a[^b]c/" "a/c" true = .ok true ∧
      isMatch "a[^b]c/" "a/c" false = .ok false := by
  have hvalid : compile "a[^b]c/" = .ok [⟨false, true, [.anyDepth,
      .glob [.literal 'a', .oneOf ⟨true, [.one 'b']⟩, .literal 'c'], .anyDepth]⟩] := by
    decide +kernel
  have hexpand : Braces.expand "a[^b]c/" = .ok ["a[^b]c/".toList] := by decide +kernel
  have hmark : ∀ a ∈ ["a[^b]c/".toList], a.head? ≠ some '!' := by decide +kernel
  have hd : isMatch "a[^b]c/" "a/c" true = .ok true := by decide +kernel
  obtain ⟨b, hb, hiff⟩ := isMatch_of_directory hvalid hexpand hmark rfl
    ⟨["a".toList, "c".toList, "f".toList], by decide⟩
  obtain rfl : b = true := hiff.2 ⟨⟨["a".toList, "c".toList], by decide⟩, ⟨["f".toList], by decide⟩,
    rfl, by decide, hd⟩
  exact ⟨hb, hd, by decide +kernel⟩

end PathSelection.Pattern
