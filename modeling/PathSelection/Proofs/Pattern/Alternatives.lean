import PathSelection.Proofs.Pattern.Expansion

namespace PathSelection.Braces

theorem Means.append {inGroup : Bool} {s t : Text} {ss ts : List Text} (hs : Means true s ss)
    (ht : Means inGroup t ts) : Means inGroup (s ++ t) (followedBy ss ts) := by
  refine @Means.rec
    (fun ofGroup s ss _ => ofGroup = true → Means inGroup (s ++ t) (followedBy ss ts))
    (fun _ _ _ => True)
    ?nothing ?character ?escaped ?lastBackslash ?group ?last ?more true s ss hs rfl
  case nothing =>
    intro _ _
    rw [List.nil_append, empty_followedBy]
    exact ht
  case character =>
    intro _ c s ss hc hcomma _ ih hgroup
    rw [List.cons_append, followedBy_assoc]
    exact .character hc (fun _ => hcomma hgroup) (ih hgroup)
  case escaped =>
    intro _ c s ss _ ih hgroup
    rw [List.cons_append, List.cons_append, followedBy_assoc]
    exact .escaped (ih hgroup)
  case lastBackslash => exact nofun
  case group =>
    intro _ inside s alternatives ss ha _ _ ih hgroup
    rw [List.append_assoc, List.cons_append, followedBy_assoc]
    exact .group ha (ih hgroup)
  case last => exact fun _ _ => trivial
  case more => exact fun _ _ _ _ => trivial

theorem mem_followedBy {t : Text} {heads tails : List Text} :
    t ∈ followedBy heads tails ↔ ∃ h ∈ heads, ∃ u ∈ tails, t = h ++ u := by
  simp only [followedBy, List.mem_flatMap, List.mem_map, eq_comm]

/-- What a pattern stands for stands for itself, and what an alternative stands for does so too. -/
theorem Means.of_mem {inGroup : Bool} {t : Text} {ts : List Text} (h : Means inGroup t ts) :
    ∀ e ∈ ts, Means inGroup e [e] := by
  refine @Means.rec
    (fun inGroup _ ts _ => ∀ e ∈ ts, Means inGroup e [e])
    (fun _ alternatives _ => ∀ ts ∈ alternatives, ∀ e ∈ ts, Means true e [e])
    ?nothing ?character ?escaped ?lastBackslash ?group ?last ?more inGroup t ts h
  case nothing =>
    intro _ e he
    obtain rfl := List.mem_singleton.1 he
    exact .nothing
  case character =>
    intro _ c t ts hc hcomma _ ih e he
    obtain ⟨_, hh, u, hu, rfl⟩ := mem_followedBy.1 he
    obtain rfl := List.mem_singleton.1 hh
    exact .character hc hcomma (ih u hu)
  case escaped =>
    intro _ c t ts _ ih e he
    obtain ⟨_, hh, u, hu, rfl⟩ := mem_followedBy.1 he
    obtain rfl := List.mem_singleton.1 hh
    exact .escaped (ih u hu)
  case lastBackslash =>
    intro e he
    obtain rfl := List.mem_singleton.1 he
    exact .lastBackslash
  case group =>
    intro inGroup inside t alternatives ts _ _ iha iht e he
    obtain ⟨h, hh, u, hu, rfl⟩ := mem_followedBy.1 he
    match alternatives, iha, hh with
    | [ts], iha, hh =>
      obtain ⟨i, hi, rfl⟩ := List.mem_map.1 hh
      have hgroup := Means.group (.last (iha ts List.mem_cons_self i hi)) (iht u hu)
      simpa [followedBy, groupMeaning] using hgroup
    | ts :: us :: tss, iha, hh =>
      obtain ⟨vs, hvs, hv⟩ := List.mem_flatten.1 hh
      exact (iha vs hvs h hv).append (iht u hu)
  case last =>
    intro t ts _ ih us hus
    obtain rfl := List.mem_singleton.1 hus
    exact ih
  case more =>
    intro t inside ts alternatives _ _ iht iha us hus
    rcases List.mem_cons.1 hus with rfl | hus
    · exact iht
    · exact iha us hus

theorem expand_ok_iff {t : Text} {es : List Text} :
    expand t = .ok es ↔ ∃ ts, Means false t ts ∧ es = ts.eraseDups := by
  rw [expand, expansions_eq]
  constructor
  · intro h
    cases hread : read [[]] [] (lexemes t) with
    | error fault =>
      rw [hread] at h
      cases h
    | ok ts =>
      rw [hread] at h
      cases h
      exact ⟨ts, read_eq_ok_iff.1 hread, rfl⟩
  · rintro ⟨ts, hts, rfl⟩
    rw [read_eq_ok_iff.2 hts]
    rfl

theorem expand_of_mem {t e : Text} {es : List Text} (h : expand t = .ok es) (he : e ∈ es) :
    expand e = .ok [e] := by
  obtain ⟨ts, hts, rfl⟩ := expand_ok_iff.1 h
  refine expand_ok_iff.2 ⟨[e], hts.of_mem e (List.mem_eraseDups.1 he), ?_⟩
  exact (eraseDups_of_nodup (by simp)).symm

theorem eq_nil_of_means {inGroup : Bool} {ts : List Text} (h : Means inGroup [] ts) :
    ts = [[]] := by
  cases h
  rfl

theorem Means.getLast? {inGroup : Bool} {t : Text} {ts : List Text} (h : Means inGroup t ts) :
    t.getLast? = some '/' → ∀ e ∈ ts, e.getLast? = some '/' := by
  have hrest {s t s' u : Text} (hs : s.getLast? = some '/' → s'.getLast? = some '/')
      (hnil : t = [] → u = []) (hu : t.getLast? = some '/' → u.getLast? = some '/')
      (h : (s ++ t).getLast? = some '/') : (s' ++ u).getLast? = some '/' := by
    by_cases ht : t = []
    · rw [ht, List.append_nil] at h
      rw [hnil ht, List.append_nil]
      exact hs h
    · rw [List.getLast?_append_of_ne_nil _ ht] at h
      rw [List.getLast?_append, hu h]
      rfl
  have hempty {inGroup : Bool} {t u : Text} {ts : List Text} (h : Means inGroup t ts)
      (hu : u ∈ ts) : t = [] → u = [] := by
    rintro rfl
    rw [eq_nil_of_means h] at hu
    exact List.mem_singleton.1 hu
  refine @Means.rec
    (fun _ t ts _ => t.getLast? = some '/' → ∀ e ∈ ts, e.getLast? = some '/')
    (fun _ _ _ => True)
    ?nothing ?character ?escaped ?lastBackslash ?group ?last ?more inGroup t ts h
  case nothing => exact fun h => nomatch h
  case character =>
    intro _ c t ts _ _ ht ih hlast e he
    obtain ⟨_, hh, u, hu, rfl⟩ := mem_followedBy.1 he
    obtain rfl := List.mem_singleton.1 hh
    exact hrest (s := [c]) id (hempty ht hu) (fun h => ih h u hu) hlast
  case escaped =>
    intro _ c t ts ht ih hlast e he
    obtain ⟨_, hh, u, hu, rfl⟩ := mem_followedBy.1 he
    obtain rfl := List.mem_singleton.1 hh
    exact hrest (s := ['\\', c]) id (hempty ht hu) (fun h => ih h u hu) hlast
  case lastBackslash => exact fun h => absurd h (by decide)
  case group =>
    intro _ inside t alternatives ts _ ht _ ih hlast e he
    obtain ⟨h, -, u, hu, rfl⟩ := mem_followedBy.1 he
    refine hrest (s := '{' :: inside ++ ['}']) (fun hs => ?_) (hempty ht hu) (fun h => ih h u hu) ?_
    · rw [List.getLast?_concat] at hs
      exact absurd hs (by decide)
    · rwa [List.append_assoc]
  case last => exact fun _ _ => trivial
  case more => exact fun _ _ _ _ => trivial

theorem getLast?_of_mem {t e : Text} {es : List Text} (h : expand t = .ok es)
    (hslash : t.getLast? = some '/') (he : e ∈ es) : e.getLast? = some '/' := by
  obtain ⟨ts, hts, rfl⟩ := expand_ok_iff.1 h
  exact hts.getLast? hslash e (List.mem_eraseDups.1 he)

end PathSelection.Braces
