import PathSelection.Proofs.Rule.Reading
import PathSelection.Rule.Search

namespace PathSelection

variable {α β : Type} {P : α → Prop} {fewer as : List α}

/-- A list, and what is left of it when some elements with a property are left out. -/
inductive Thinned (P : α → Prop) : List α → List α → Prop
  | nil : Thinned P [] []
  | keep {fewer as : List α} (a : α) (h : Thinned P fewer as) : Thinned P (a :: fewer) (a :: as)
  | drop {fewer as : List α} {a : α} (ha : P a) (h : Thinned P fewer as) : Thinned P fewer (a :: as)

namespace Thinned

theorem filter (p : α → Bool) (as : List α) : Thinned (fun a => p a = false) (as.filter p) as := by
  induction as with
  | nil => exact .nil
  | cons a as ih =>
    cases ha : p a with
    | true =>
      rw [List.filter_cons_of_pos ha]
      exact .keep a ih
    | false =>
      rw [List.filter_cons_of_neg (by simp [ha])]
      exact .drop ha ih

theorem filterMap {f : α → Option β} {Q : β → Prop} (h : Thinned P fewer as)
    (hf : ∀ a ∈ as, P a → ∀ b, f a = some b → Q b) :
    Thinned Q (fewer.filterMap f) (as.filterMap f) := by
  induction h with
  | nil => exact .nil
  | keep a h ih =>
    have hrest := ih fun a ha => hf a (List.mem_cons_of_mem _ ha)
    rw [List.filterMap_cons, List.filterMap_cons]
    cases f a with
    | none => exact hrest
    | some b => exact .keep b hrest
  | @drop fewer as a ha h ih =>
    have hrest := ih fun a ha => hf a (List.mem_cons_of_mem _ ha)
    rw [List.filterMap_cons]
    cases hb : f a with
    | none => exact hrest
    | some b => exact .drop (hf a List.mem_cons_self ha b hb) hrest

theorem append {fewer' as' : List α} (h : Thinned P fewer as) (h' : Thinned P fewer' as') :
    Thinned P (fewer ++ fewer') (as ++ as') := by
  induction h with
  | nil => exact h'
  | keep a h ih => exact .keep a ih
  | drop ha h ih => exact .drop ha ih

theorem reverse (h : Thinned P fewer as) : Thinned P fewer.reverse as.reverse := by
  induction h with
  | nil => exact .nil
  | keep a h ih =>
    rw [List.reverse_cons, List.reverse_cons]
    exact ih.append (.keep a .nil)
  | @drop fewer as a ha h ih =>
    rw [List.reverse_cons, ← List.append_nil fewer.reverse]
    exact ih.append (.drop ha .nil)

theorem eq_of_none (h : Thinned P fewer as) (hP : ∀ a ∈ as, ¬P a) : fewer = as := by
  induction h with
  | nil => rfl
  | keep a h ih => rw [ih fun b hb => hP b (List.mem_cons_of_mem a hb)]
  | drop ha h ih => exact (hP _ List.mem_cons_self ha).elim

theorem subset (h : Thinned P fewer as) : fewer ⊆ as := by
  induction h with
  | nil => exact List.Subset.refl []
  | keep a h ih => exact List.cons_subset_cons a ih
  | drop ha h ih => exact List.subset_cons_of_subset _ ih

theorem find? {q : α → Bool} {a : α} (h : Thinned P fewer as) (ha : ¬P a)
    (hfind : as.find? q = some a) : fewer.find? q = some a := by
  induction h with
  | nil => exact hfind
  | keep b h ih =>
    rw [List.find?_cons] at hfind ⊢
    cases hb : q b with
    | true => rwa [hb] at hfind
    | false =>
      rw [hb] at hfind
      exact ih hfind
  | @drop fewer as b hb h ih =>
    rw [List.find?_cons] at hfind
    cases hq : q b with
    | true =>
      rw [hq] at hfind
      exact (ha (Option.some.inj hfind ▸ hb)).elim
    | false =>
      rw [hq] at hfind
      exact ih hfind

end Thinned

namespace Rule

variable {rules fewer : List Rule} {P : Rule → Prop} {path : Text}

def hits (rules : List Rule) (path : Text) : List (Hit × Rule) :=
  rules.reverse.filterMap fun r => (r.search (searched path)).map fun h => (h, r)

def deciding (hits : List (Hit × Rule)) : Option (Hit × Rule) :=
  hits.find? (·.1 == .direct) <|> hits.head?

theorem eq_nil_of_deciding {hits : List (Hit × Rule)} (h : deciding hits = none) : hits = [] := by
  cases hits with
  | nil => rfl
  | cons hit hits =>
    unfold deciding at h
    cases hdirect : (hit :: hits).find? (·.1 == .direct) <;> rw [hdirect] at h <;> cases h

theorem ignores_eq (rules : List Rule) (path : Text) :
    ignores rules path = match deciding (hits rules path) with
      | none => false
      | some (_, r) => !r.reincludes :=
  rfl

theorem thinned_hits (h : Thinned P fewer rules) :
    Thinned (fun hit => P hit.2) (hits fewer path) (hits rules path) := by
  apply h.reverse.filterMap
  intro r _ hr hit hhit
  obtain ⟨_, -, rfl⟩ := Option.map_eq_some_iff.1 hhit
  exact hr

theorem thinned_deciding {Q : Hit × Rule → Prop} {hits fewer : List (Hit × Rule)}
    (h : Thinned Q fewer hits) {hit : Hit × Rule} (hhit : ¬Q hit)
    (hd : deciding hits = some hit) : deciding fewer = some hit := by
  have hhead (hits : List (Hit × Rule)) : hits.head? = hits.find? fun _ => true := by
    cases hits <;> rfl
  unfold deciding at hd ⊢
  cases hdirect : hits.find? (·.1 == .direct) with
  | some direct =>
    rw [hdirect] at hd
    cases hd
    rw [h.find? hhit hdirect]
    rfl
  | none =>
    have hnone : fewer.find? (·.1 == .direct) = none :=
      List.find?_eq_none.2 fun x hx => List.find?_eq_none.1 hdirect x (h.subset hx)
    rw [hdirect] at hd
    change hits.head? = some hit at hd
    rw [hnone]
    change fewer.head? = some hit
    rw [hhead] at hd ⊢
    exact h.find? hhit hd

/-- Without some rules that take nothing back no path is ignored that is not ignored with them. -/
theorem ignores_of_thinned (h : Thinned P fewer rules) (hP : ∀ r, P r → r.reincludes = false)
    (hi : ignores fewer path = true) : ignores rules path = true := by
  rw [ignores_eq] at hi ⊢
  cases hd : deciding (hits rules path) with
  | some hit =>
    simp only [Bool.not_eq_true']
    by_cases hr : P hit.2
    · exact hP hit.2 hr
    · rw [thinned_deciding (thinned_hits h) hr hd] at hi
      simpa using hi
  | none =>
    have hfewer : hits fewer path = [] := by
      have hsubset : hits fewer path ⊆ hits rules path := (thinned_hits h).subset
      rw [eq_nil_of_deciding hd] at hsubset
      exact List.subset_nil.1 hsubset
    rw [hfewer] at hi
    cases hi

theorem ignores_eq_of_thinned (h : Thinned P fewer rules)
    (hP : ∀ r ∈ rules, P r → r.search (searched path) = none) :
    ignores fewer path = ignores rules path := by
  have hhits : hits fewer path = hits rules path := by
    refine (thinned_hits h).eq_of_none fun hit hhit hP' => ?_
    obtain ⟨r, hr, hsome⟩ := List.mem_filterMap.1 hhit
    obtain ⟨_, hsearch, rfl⟩ := Option.map_eq_some_iff.1 hsome
    rw [hP r (List.mem_reverse.1 hr) hP'] at hsearch
    cases hsearch
  rw [ignores_eq, ignores_eq, hhits]

def ofLine? (line : Text) : Option Rule :=
  match ofLine line with
  | .ok r? => r?
  | .error _ => none

theorem ofLines_eq_ok {lines : List Text} : ofLines lines = .ok rules ↔
    (∀ line ∈ lines, ∃ r?, ofLine line = .ok r?) ∧ rules = lines.filterMap ofLine? := by
  have hmapM (rs : List (Option Rule)) (h : lines.mapM ofLine = .ok rs) :
      rs.filterMap id = lines.filterMap ofLine? := by
    induction lines generalizing rs with
    | nil =>
      cases h
      rfl
    | cons line lines ih =>
      rw [List.mapM_cons] at h
      obtain ⟨r?, hr, h⟩ := ok_of_bind h
      obtain ⟨rest, hrest, h⟩ := ok_of_bind h
      cases h
      have hline : ofLine? line = r? := by rw [ofLine?, hr]
      rw [List.filterMap_cons, List.filterMap_cons, hline, ih rest hrest]
      rfl
  constructor
  · intro h
    obtain ⟨rs, hrs, h⟩ := ok_of_bind h
    cases h
    exact ⟨(ok_of_mapM hrs).1, hmapM rs hrs⟩
  · rintro ⟨hlines, rfl⟩
    obtain ⟨rs, hrs⟩ := exists_mapM_ok hlines
    rw [ofLines, hrs, ← hmapM rs hrs]
    rfl

end Rule
end PathSelection
