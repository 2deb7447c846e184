import PathSelection.Proofs.IgnoreFile
import PathSelection.Proofs.Rule.Beneath
import PathSelection.Proofs.Rule.Reading

namespace PathSelection

/-- Whether a character begins a name in the text of a path. -/
def BeginsName (c : Char) (t : Text) : Prop := ∃ u w, t = u ++ c :: w ∧ AtDirectory u

namespace Rule

variable {c : Char}

def LeadsWith (c : Char) (ss : List Text) : Prop :=
  ∃ s more, ss = (c :: s) :: more ∨ ss = ['*', '*'] :: (c :: s) :: more

theorem leadsWith_anchor (hc : c ≠ '*') (s : Text) (more : List Text) :
    LeadsWith c (anchor ((c :: s) :: more)) := by
  have hne : c :: s ≠ ['*', '*'] := fun h => hc (List.cons.inj h).1
  unfold anchor
  split
  · next h => cases h
  · next h =>
    cases h
    rw [if_neg hne]
    exact ⟨s, [], .inr rfl⟩
  · next h =>
    cases h
    rw [if_neg hne]
    exact ⟨s, [[]], .inr rfl⟩
  · exact ⟨s, more, .inl rfl⟩

theorem LeadsWith.openEnd {ss : List Text} (h : LeadsWith c ss) : LeadsWith c (openEnd ss) := by
  have hlast (s : Text) (more : List Text) (hl : ((c :: s) :: more).getLast? = some []) :
      ∃ more', ((c :: s) :: more).dropLast = (c :: s) :: more' := by
    cases more with
    | nil => cases hl
    | cons t more => exact ⟨_, rfl⟩
  unfold Rule.openEnd
  split
  · next hl =>
    obtain ⟨s, more, rfl | rfl⟩ := h
    · obtain ⟨more', hmore⟩ := hlast s more hl
      rw [hmore]
      exact ⟨s, _, .inl rfl⟩
    · obtain ⟨more', hmore⟩ := hlast s more (by rwa [List.getLast?_cons_cons] at hl)
      rw [List.dropLast_cons_cons, hmore]
      exact ⟨s, _, .inr rfl⟩
  · exact h

theorem mergeDepths_cons {s : Text} (hs : s ≠ ['*', '*']) (ss : List Text) :
    mergeDepths (s :: ss) = s :: mergeDepths ss := by
  cases ss with
  | nil => rfl
  | cons t ss => rw [mergeDepths, if_neg fun h => hs h.1]

theorem LeadsWith.mergeDepths {ss : List Text} (h : LeadsWith c ss) (hc : c ≠ '*') :
    LeadsWith c (mergeDepths ss) := by
  obtain ⟨s, more, h⟩ := h
  have hne : c :: s ≠ ['*', '*'] := fun h => hc (List.cons.inj h).1
  rcases h with rfl | rfl
  · rw [mergeDepths_cons hne]
    exact ⟨s, _, .inl rfl⟩
  · rw [Rule.mergeDepths, if_neg fun h => hne h.2, mergeDepths_cons hne]
    exact ⟨s, _, .inr rfl⟩

/-- The first segment of a rule, but for a leading `**`, asks for a character first. -/
def AsksFor (c : Char) (segments : List Segment) : Prop :=
  ∃ ts more, segments = .glob (.literal c :: ts) :: more ∨
    segments = .anyDepth :: .glob (.literal c :: ts) :: more

theorem LeadsWith.asksFor {ss : List Text} {segments : List Segment} (h : LeadsWith c ss)
    (hc : c ∉ ['\\', '*', '?', '[']) (hss : ss.mapM segment = .ok segments) :
    AsksFor c segments := by
  have hfirst {s : Text} {x : Segment} (hx : segment (c :: s) = .ok x) :
      ∃ ts, x = .glob (.literal c :: ts) := by
    have hstar : c ≠ '*' := by
      rintro rfl
      exact hc (by decide)
    rw [segment, if_neg fun h => hstar (List.cons.inj h).1,
      if_neg fun h => hstar (List.cons.inj h).1, Token.ofSegment_character hc] at hx
    cases hs : Token.ofSegment s with
    | error e =>
      rw [hs] at hx
      cases hx
    | ok ts =>
      rw [hs] at hx
      cases hx
      exact ⟨ts, rfl⟩
  have hrest {s : Text} {more : List Text} {segments : List Segment}
      (h : ((c :: s) :: more).mapM segment = .ok segments) :
      ∃ ts more', segments = .glob (.literal c :: ts) :: more' := by
    rw [List.mapM_cons] at h
    obtain ⟨x, hx, h⟩ := ok_of_bind h
    obtain ⟨more', -, h⟩ := ok_of_bind h
    obtain ⟨ts, rfl⟩ := hfirst hx
    cases h
    exact ⟨ts, more', rfl⟩
  obtain ⟨s, more, rfl | rfl⟩ := h
  · obtain ⟨ts, more', rfl⟩ := hrest hss
    exact ⟨ts, more', .inl rfl⟩
  · rw [List.mapM_cons] at hss
    obtain ⟨x, hx, hss⟩ := ok_of_bind hss
    obtain ⟨xs, hxs, hss⟩ := ok_of_bind hss
    obtain ⟨ts, more', rfl⟩ := hrest hxs
    cases hx
    cases hss
    exact ⟨ts, more', .inr rfl⟩

theorem asksFor_of_read {line : Text} {r : Rule} (h : read line = .ok (some r))
    (hline : line.head? = some c) (hblank : isBlank c = true) :
    r.reincludes = false ∧ AsksFor c r.segments := by
  have hplain : ∀ d, isBlank d = false → c ≠ d := by
    rintro d hd rfl
    rw [hblank] at hd
    cases hd
  unfold read at h
  simp only at h
  split at h
  · cases h
  · next hbody =>
    obtain ⟨blanks, heq, -⟩ := exists_trimLine line
    obtain ⟨body, hc⟩ : ∃ body, trimLine line = c :: body := by
      cases ht : trimLine line with
      | nil =>
        rw [ht] at hbody
        exact (hbody rfl).elim
      | cons d body =>
        rw [heq, ht] at hline
        exact ⟨body, by rw [Option.some.inj hline]⟩
    have hmark : ((c :: body).head? == some '!') = false :=
      beq_eq_false_iff_ne.2 fun h => hplain '!' rfl (Option.some.inj h)
    have hslash : (c == '/') = false := beq_eq_false_iff_ne.2 (hplain '/' rfl)
    obtain ⟨s, more, hsplit⟩ := List.exists_cons_of_ne_nil (List.splitOn_ne_nil '/' body)
    have hwritten : (c :: body).splitOn '/' = (c :: s) :: more := by
      rw [List.splitOn_cons_eq_if_modifyHead, hslash, hsplit]
      rfl
    simp only [hc, hmark, Bool.false_eq_true, if_false, hwritten] at h
    have hleads := (leadsWith_anchor (hplain '*' rfl) s more).openEnd.mergeDepths (hplain '*' rfl)
    have hspecial : c ∉ ['\\', '*', '?', '['] := by
      simp only [List.mem_cons, List.not_mem_nil, or_false, not_or]
      exact ⟨hplain _ rfl, hplain _ rfl, hplain _ rfl, hplain _ rfl⟩
    split at h
    · cases h
    · split at h
      · cases h
      · cases h
      · next hsegments =>
        cases h
        exact ⟨rfl, hleads.asksFor hspecial hsegments⟩

theorem beginsName_of_found {r : Rule} (h : AsksFor c r.segments) {t : Text}
    (ht : t ∈ found r.search) : BeginsName c t := by
  have hanchored {ts : List Token} {more : List Segment} {t : Text}
      (ht : t ∈ found (anchored r.dirOnly (.glob (.literal c :: ts) :: more))) :
      ∃ w, t = c :: w := by
    rw [found_anchored (by simp), Segment.language, Token.spelled_cons, mul_assoc] at ht
    obtain ⟨_, ⟨d, hd, rfl⟩, w, -, rfl⟩ := Language.mem_mul.1 ht
    exact ⟨w, by rw [← beq_iff_eq.1 hd, List.singleton_append]⟩
  obtain ⟨ts, more, h | h⟩ := h
  · have hsearch : r.search = anchored r.dirOnly r.segments := by
      funext t
      simp only [search, h]
    rw [hsearch, h] at ht
    obtain ⟨w, rfl⟩ := hanchored ht
    exact ⟨[], w, rfl, .inl rfl⟩
  · have hsearch : r.search = floating r.dirOnly (.glob (.literal c :: ts) :: more) := by
      funext t
      simp only [search, h]
    rw [hsearch, found_floating, add_mul, one_mul, Language.mem_add] at ht
    rcases ht with ht | ht
    · obtain ⟨u, hu, v, hv, rfl⟩ := Language.mem_mul.1 ht
      obtain ⟨u', -, _, rfl, rfl⟩ := Language.mem_mul.1 hu
      obtain ⟨w, rfl⟩ := hanchored hv
      exact ⟨u' ++ ['/'], w, rfl, .inr List.getLast?_concat⟩
    · obtain ⟨w, rfl⟩ := hanchored ht
      exact ⟨[], w, rfl, .inl rfl⟩

end Rule
end PathSelection
