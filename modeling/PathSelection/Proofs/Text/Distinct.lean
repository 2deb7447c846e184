import PathSelection.Walk.Site

namespace PathSelection

variable {α β : Type} [BEq β] [LawfulBEq β]

section

variable [BEq α] [LawfulBEq α]

theorem eraseDups_filter (p : α → Bool) (as : List α) :
    (as.filter p).eraseDups = as.eraseDups.filter p := by
  induction hn : as.length using Nat.strongRecOn generalizing as with
  | ind n ih =>
    subst hn
    cases as with
    | nil => simp
    | cons a as =>
      have hlt : (as.filter (!· == a)).length < (a :: as).length :=
        Nat.lt_succ_of_le (List.length_filter_le _ _)
      have hrest := ih _ hlt (as.filter (!· == a)) rfl
      rw [List.eraseDups_cons]
      cases hp : p a with
      | true =>
        have hcomm : (as.filter p).filter (!· == a) = (as.filter (!· == a)).filter p := by
          simp only [List.filter_filter, Bool.and_comm]
        rw [List.filter_cons_of_pos hp, List.filter_cons_of_pos hp, List.eraseDups_cons, hcomm,
          hrest]
      | false =>
        have hsame : (as.filter (!· == a)).filter p = as.filter p := by
          rw [List.filter_filter]
          apply List.filter_congr
          intro b _
          by_cases hb : b = a
          · rw [hb, hp, Bool.false_and]
          · simp [hb]
        rw [List.filter_cons_of_neg (by simp [hp]), List.filter_cons_of_neg (by simp [hp]),
          ← hrest, hsame]

theorem eraseDups_of_nodup {as : List α} (h : as.Nodup) : as.eraseDups = as := by
  induction as with
  | nil => simp
  | cons a as ih =>
    obtain ⟨ha, has⟩ := List.nodup_cons.1 h
    have hrest : as.filter (!· == a) = as := by
      apply List.filter_eq_self.2
      intro b hb
      have hne : b ≠ a := fun he => ha (he ▸ hb)
      simp [hne]
    rw [List.eraseDups_cons, hrest, ih has]

@[simp] theorem eraseDups_eraseDups (as : List α) : as.eraseDups.eraseDups = as.eraseDups :=
  eraseDups_of_nodup (nodup_eraseDups as)

theorem eraseDups_append_congr {as as' bs bs' : List α} (ha : as.eraseDups = as'.eraseDups)
    (hb : bs.eraseDups = bs'.eraseDups) : (as ++ bs).eraseDups = (as' ++ bs').eraseDups := by
  have hremove : (fun b => !as.elem b) = fun b => !as'.elem b := by
    funext b
    rw [Bool.eq_iff_iff]
    simp only [Bool.not_eq_true', List.elem_eq_mem, decide_eq_false_iff_not]
    rw [← List.mem_eraseDups, ha, List.mem_eraseDups]
  rw [List.eraseDups_append, List.eraseDups_append, List.removeAll, List.removeAll, hremove,
    eraseDups_filter, eraseDups_filter, ha, hb]

theorem eraseDups_append_flatMap_filter (a : α) (f : α → List β) (as : List α) :
    (f a ++ (as.filter (!· == a)).flatMap f).eraseDups = (f a ++ as.flatMap f).eraseDups := by
  have hremove : ((as.filter (!· == a)).flatMap f).removeAll (f a) =
      (as.flatMap f).removeAll (f a) := by
    induction as with
    | nil => rfl
    | cons b as ih =>
      by_cases hb : b = a
      · rw [hb, List.filter_cons_of_neg (by simp), List.flatMap_cons, ih]
        simp [List.removeAll]
      · rw [List.filter_cons_of_pos (by simp [hb]), List.flatMap_cons, List.flatMap_cons]
        unfold List.removeAll at ih ⊢
        rw [List.filter_append, List.filter_append, ih]
  rw [List.eraseDups_append, List.eraseDups_append, hremove]

theorem eraseDups_flatMap (f : α → List β) (as : List α) :
    (as.eraseDups.flatMap f).eraseDups = (as.flatMap f).eraseDups := by
  induction hn : as.length using Nat.strongRecOn generalizing as with
  | ind n ih =>
    subst hn
    cases as with
    | nil => simp
    | cons a as =>
      have hlt : (as.filter (!· == a)).length < (a :: as).length :=
        Nat.lt_succ_of_le (List.length_filter_le _ _)
      have hrest := ih _ hlt (as.filter (!· == a)) rfl
      rw [List.eraseDups_cons, List.flatMap_cons, List.flatMap_cons]
      exact (eraseDups_append_congr rfl hrest).trans (eraseDups_append_flatMap_filter a f as)

theorem eraseDups_map (f : α → β) (as : List α) :
    (as.eraseDups.map f).eraseDups = (as.map f).eraseDups := by
  rw [List.map_eq_flatMap, List.map_eq_flatMap]
  exact eraseDups_flatMap _ as

end

theorem eraseDups_flatMap_congr {f g : α → List β} {as : List α}
    (h : ∀ a ∈ as, (f a).eraseDups = (g a).eraseDups) :
    (as.flatMap f).eraseDups = (as.flatMap g).eraseDups := by
  induction as with
  | nil => rfl
  | cons a as ih =>
    rw [List.flatMap_cons, List.flatMap_cons]
    exact eraseDups_append_congr (h a List.mem_cons_self)
      (ih fun b hb => h b (List.mem_cons_of_mem a hb))

end PathSelection
