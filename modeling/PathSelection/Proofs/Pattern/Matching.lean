import PathSelection.Proofs.Pattern.Alternatives
import PathSelection.Proofs.Pattern.Liveness
import PathSelection.Proofs.Rule.LastSegment

namespace PathSelection

namespace Rule

theorem ignores_iff {rules : List Rule} {path : Text} (h : ∀ r ∈ rules, r.reincludes = false) :
    ignores rules path = true ↔ ∃ r ∈ rules, searched path ∈ found r.search := by
  unfold ignores
  generalize hhits : (rules.reverse.filterMap fun r =>
    (r.search (searched path)).map fun hit => (hit, r)) = hits
  have hmem (hit : Hit) (r : Rule) :
      (hit, r) ∈ hits ↔ r ∈ rules ∧ r.search (searched path) = some hit := by
    rw [← hhits]
    simp only [List.mem_filterMap, List.mem_reverse, Option.map_eq_some_iff, Prod.mk.injEq]
    constructor
    · rintro ⟨r', hr, hit', hsearch, rfl, rfl⟩
      exact ⟨hr, hsearch⟩
    · rintro ⟨hr, hsearch⟩
      exact ⟨r, hr, hit, hsearch, rfl, rfl⟩
  have hfound (r : Rule) (hr : r ∈ rules) :
      searched path ∈ found r.search ↔ ∃ hit, (hit, r) ∈ hits := by
    rw [mem_found, Option.isSome_iff_exists]
    exact exists_congr fun hit => by rw [hmem, and_iff_right hr]
  have hchosen : ∀ chosen, (hits.find? (·.1 == .direct) <|> hits.head?) = chosen →
      (chosen = none → hits = []) ∧ ∀ p, chosen = some p → p ∈ hits := by
    rintro _ rfl
    cases hfind : hits.find? (·.1 == .direct) with
    | none =>
      change (hits.head? = none → hits = []) ∧ ∀ p, hits.head? = some p → p ∈ hits
      exact ⟨List.head?_eq_none_iff.1, fun p hp => List.mem_of_head? hp⟩
    | some q => exact ⟨nofun, fun p hp => List.mem_of_find?_eq_some (hfind.trans hp)⟩
  dsimp only
  split
  · next hnone =>
    have hnil := (hchosen _ hnone).1 rfl
    refine ⟨nofun, ?_⟩
    rintro ⟨r, hr, hsearch⟩
    obtain ⟨hit, hm⟩ := (hfound r hr).1 hsearch
    rw [hnil] at hm
    cases hm
  · next hit r hsome =>
    have hm := (hchosen _ hsome).2 _ rfl
    have hr := ((hmem hit r).1 hm).1
    rw [h r hr]
    exact ⟨fun _ => ⟨r, hr, (hfound r hr).2 ⟨hit, hm⟩⟩, fun _ => rfl⟩

end Rule

namespace Pattern

open Rule

variable {pattern path : Text} {isDir : Bool} {alternatives : List Text} {rules : List Rule}

theorem isMatch_of_compile (h : compile pattern = .ok rules) :
    isMatch pattern path isDir = .ok (ignores rules (candidate path isDir)) := by
  rw [isMatch, h]
  rfl

theorem isMatch_ok_iff :
    (∃ b, isMatch pattern path isDir = .ok b) ↔ ∃ rules, compile pattern = .ok rules := by
  constructor
  · rintro ⟨b, h⟩
    obtain ⟨rules, hrules, -⟩ := ok_of_bind h
    exact ⟨rules, hrules⟩
  · rintro ⟨rules, h⟩
    exact ⟨_, isMatch_of_compile h⟩

theorem compile_ok_iff (hexpand : Braces.expand pattern = .ok alternatives) :
    (∃ rules, compile pattern = .ok rules) ↔
      ∀ a ∈ alternatives, checkSegments a = .ok () ∧ ∃ r?, ofLine a = .ok r? := by
  constructor
  · rintro ⟨rules, h⟩ a ha
    obtain ⟨as, has, hcheck, hrules⟩ := compile_ok h
    cases hexpand.symm.trans has
    exact ⟨hcheck a ha, (ofLines_ok hrules).1 a ha⟩
  · intro h
    have hcheck := forM_of_ok fun a ha => (h a ha).1
    obtain ⟨rs, hrs⟩ := exists_mapM_ok fun a ha => (h a ha).2
    refine ⟨rs.filterMap id, ?_⟩
    rw [compile, hexpand]
    change (alternatives.forM checkSegments >>= fun _ =>
      (ofLines alternatives).mapError .rule) = _
    rw [hcheck, ofLines, hrs]
    rfl

theorem mem_rules (h : compile pattern = .ok rules)
    (hexpand : Braces.expand pattern = .ok alternatives) {r : Rule} :
    r ∈ rules ↔ ∃ a ∈ alternatives, ofLine a = .ok (some r) := by
  obtain ⟨as, has, -, hrules⟩ := compile_ok h
  cases hexpand.symm.trans has
  exact (ofLines_ok hrules).2 r

theorem isMatch_iff (h : compile pattern = .ok rules)
    (hexpand : Braces.expand pattern = .ok alternatives)
    (hmark : ∀ a ∈ alternatives, a.head? ≠ some '!') :
    isMatch pattern path isDir = .ok true ↔ ∃ a ∈ alternatives, ∃ r, ofLine a = .ok (some r) ∧
      searched (candidate path isDir) ∈ found r.search := by
  have hkeeps : ∀ r ∈ rules, r.reincludes = false := by
    intro r hr
    obtain ⟨a, ha, hline⟩ := (mem_rules h hexpand).1 hr
    exact (lastSegment_of_read (read_of_ofLine hline) (hmark a ha)).1
  rw [isMatch_of_compile h, Except.ok.injEq, ignores_iff hkeeps]
  constructor
  · rintro ⟨r, hr, hfound⟩
    obtain ⟨a, ha, hline⟩ := (mem_rules h hexpand).1 hr
    exact ⟨a, ha, r, hline, hfound⟩
  · rintro ⟨a, ha, r, hline, hfound⟩
    exact ⟨r, (mem_rules h hexpand).2 ⟨a, ha, hline⟩, hfound⟩

/-- A pattern is refused if one of its alternatives is refused as a pattern of its own, and else
matches what one of them matches. -/
theorem isMatch_disjunction (hexpand : Braces.expand pattern = .ok alternatives)
    (hmark : ∀ a ∈ alternatives, a.head? ≠ some '!') (path : Text) (isDir : Bool) :
    ((∃ fault, isMatch pattern path isDir = .error fault) ↔
        ∃ a ∈ alternatives, ∃ fault, isMatch a path isDir = .error fault) ∧
      ∀ b, isMatch pattern path isDir = .ok b →
        (b = true ↔ ∃ a ∈ alternatives, isMatch a path isDir = .ok true) := by
  have halone : ∀ a ∈ alternatives, Braces.expand a = .ok [a] := fun a ha =>
    Braces.expand_of_mem hexpand ha
  have hvalid : (∃ rules, compile pattern = .ok rules) ↔
      ∀ a ∈ alternatives, ∃ rules, compile a = .ok rules := by
    rw [compile_ok_iff hexpand]
    refine forall₂_congr fun a ha => ?_
    rw [compile_ok_iff (halone a ha), List.forall_mem_singleton]
  constructor
  · rw [exists_error_iff, isMatch_ok_iff, hvalid]
    simp only [exists_error_iff, isMatch_ok_iff, not_forall, exists_prop]
  · intro b hb
    obtain ⟨rules, hrules⟩ := isMatch_ok_iff.1 ⟨b, hb⟩
    have hiff : isMatch pattern path isDir = .ok true ↔ _ := isMatch_iff hrules hexpand hmark
    rw [hb, Except.ok.injEq] at hiff
    rw [hiff]
    refine exists_congr fun a => and_congr_right fun ha => ?_
    obtain ⟨rules', hrules'⟩ := hvalid.1 ⟨rules, hrules⟩ a ha
    have hmark' : ∀ a' ∈ [a], a'.head? ≠ some '!' :=
      List.forall_mem_singleton.2 (hmark a ha)
    rw [isMatch_iff hrules' (halone a ha) hmark']
    simp only [List.mem_singleton, exists_eq_left]

theorem matched_by_second_alternative :
    Braces.expand "\x7b*.py,lib/\x7d" = .ok ["*.py".toList, "lib/".toList] ∧
      isMatch "\x7b*.py,lib/\x7d" "src/lib/a.c" false = .ok true ∧
      ∃ a ∈ ["*.py".toList, "lib/".toList], isMatch a "src/lib/a.c" false = .ok true := by
  have hexpand : Braces.expand "\x7b*.py,lib/\x7d" = .ok ["*.py".toList, "lib/".toList] := by
    decide +kernel
  have hmark : ∀ a ∈ ["*.py".toList, "lib/".toList], a.head? ≠ some '!' := by decide +kernel
  have hmatch : isMatch "\x7b*.py,lib/\x7d" "src/lib/a.c" false = .ok true := by decide +kernel
  obtain ⟨-, hiff⟩ := isMatch_disjunction hexpand hmark "src/lib/a.c" false
  exact ⟨hexpand, hmatch, (hiff true hmatch).1 rfl⟩

end Pattern
end PathSelection
