import PathSelection.Proofs.Failure
import PathSelection.Proofs.Pattern.Alternatives

namespace PathSelection.Braces

/-- No comma stands where a group is open: before it, as many groups are closed as are opened. -/
def CommasOutside (t : Text) : Prop :=
  ∀ before after, lexemes t = before ++ .comma :: after →
    before.count .opening = before.count .closing

/-- A text that ends where a lexeme does, whatever comes after it. -/
def Whole (s : Text) : Prop := ∀ t, lexemes (s ++ t) = lexemes s ++ lexemes t

/-- Of a pattern, or a piece of one that lies in a group, a text keeps some lexemes, and nothing to
choose from. -/
structure Keeps (inGroup : Bool) (t e : Text) : Prop where
  sublist : (lexemes e).Sublist (lexemes t)
  balanced : (lexemes e).count .opening = (lexemes e).count .closing
  outside : CommasOutside e
  comma : inGroup = true → .comma ∉ lexemes e

section Whole

variable {s t : Text} {c : Char}

theorem Whole.append (hs : Whole s) (ht : Whole t) : Whole (s ++ t) := by
  intro u
  rw [List.append_assoc, hs, ht, hs, List.append_assoc]

theorem whole_nil : Whole [] := fun _ => rfl

theorem whole_escaped (c : Char) : Whole ['\\', c] := by
  intro t
  rw [List.cons_append, List.singleton_append, lexemes_backslash]
  rfl

theorem whole_character (hc : c ≠ '\\' ∧ c ≠ '{' ∧ c ≠ '}') : Whole [c] := by
  intro t
  rw [List.singleton_append, lexemes_character hc, lexemes_character hc]
  rfl

theorem lexemes_group (h : Whole t) :
    lexemes ('{' :: t ++ ['}']) = .opening :: lexemes t ++ [.closing] := by
  rw [List.cons_append, lexemes, h]
  rfl

theorem Whole.group (h : Whole t) : Whole ('{' :: t ++ ['}']) := by
  intro u
  rw [lexemes_group h, List.append_assoc, List.cons_append, lexemes, h, List.singleton_append,
    lexemes, List.append_assoc]
  rfl

theorem Means.whole {ss : List Text} (h : Means true s ss) : Whole s := by
  refine @Means.rec
    (fun inGroup s _ _ => inGroup = true → Whole s)
    (fun inside _ _ => Whole inside)
    ?nothing ?character ?escaped ?lastBackslash ?group ?last ?more true s ss h rfl
  case nothing => exact fun _ => whole_nil
  case character => exact fun hc _ _ ih hg => (whole_character hc).append (ih hg)
  case escaped => exact fun _ ih hg => (whole_escaped _).append (ih hg)
  case lastBackslash => exact nofun
  case group =>
    intro _ inside s _ _ _ _ iha ih hg
    rw [List.append_cons]
    exact iha.group.append (ih hg)
  case last => exact fun _ ih => ih rfl
  case more =>
    intro s inside _ _ _ _ ih iha
    rw [List.append_cons]
    exact ((ih rfl).append (whole_character (by decide))).append iha

end Whole

namespace Keeps

variable {inGroup : Bool} {s t h u : Text}

theorem nil : Keeps inGroup [] [] := by
  refine ⟨.slnil, rfl, ?_, fun _ => List.not_mem_nil⟩
  intro before after hnil
  exact (List.append_ne_nil_of_right_ne_nil before (List.cons_ne_nil _ _) hnil.symm).elim

theorem outside_of_comma_not_mem (hc : .comma ∉ lexemes h) : CommasOutside h := by
  intro before after heq
  rw [heq] at hc
  exact (hc (List.mem_append_right _ List.mem_cons_self)).elim

theorem lexeme {l : Lexeme} (ht : lexemes t = [l]) (hl : l ≠ .opening ∧ l ≠ .closing)
    (hcomma : inGroup = true → l ≠ .comma) : Keeps inGroup t t where
  sublist := .refl _
  balanced := by
    rw [ht, List.count_singleton, List.count_singleton, if_neg (by simpa using hl.1),
      if_neg (by simpa using hl.2)]
  outside := by
    intro before after heq
    rw [ht] at heq
    cases before with
    | nil => rfl
    | cons l' before => cases before <;> cases heq
  comma hg hm := by
    rw [ht, List.mem_singleton] at hm
    exact hcomma hg hm.symm

theorem append (hs : Whole s) (hh : Whole h) (hfirst : Keeps inGroup s h)
    (hrest : Keeps inGroup t u) : Keeps inGroup (s ++ t) (h ++ u) where
  sublist := by
    rw [hs, hh]
    exact hfirst.sublist.append hrest.sublist
  balanced := by
    rw [hh, List.count_append, List.count_append, hfirst.balanced, hrest.balanced]
  outside := by
    intro before after heq
    rw [hh] at heq
    -- The comma stands in the second text, or in the first one.
    rcases List.append_eq_append_iff.1 heq with ⟨more, rfl, hmore⟩ | ⟨more, hmore, hafter⟩
    · rw [List.count_append, List.count_append, hfirst.balanced, hrest.outside more after hmore]
    · cases more with
      | nil =>
        rw [List.append_nil] at hmore
        rw [← hmore, hfirst.balanced]
      | cons l more =>
        rw [List.cons_append, List.cons.injEq] at hafter
        rw [← hafter.1] at hmore
        exact hfirst.outside before more hmore
  comma hg := by
    rw [hh, List.mem_append, not_or]
    exact ⟨hfirst.comma hg, hrest.comma hg⟩

theorem of_piece (h : Keeps true s u) (hs : (lexemes s).Sublist (lexemes t)) :
    Keeps inGroup t u where
  sublist := h.sublist.trans hs
  balanced := h.balanced
  outside := h.outside
  comma _ := h.comma rfl

theorem group (hs : Whole s) (ht : Whole t) (h : Keeps true s t) :
    Keeps inGroup ('{' :: s ++ ['}']) ('{' :: t ++ ['}']) := by
  have hcomma : .comma ∉ lexemes ('{' :: t ++ ['}']) := by
    rw [lexemes_group ht]
    simpa using h.comma rfl
  refine ⟨?_, ?_, outside_of_comma_not_mem hcomma, fun _ => hcomma⟩
  · rw [lexemes_group hs, lexemes_group ht]
    exact (h.sublist.cons_cons _).append (.refl _)
  · rw [lexemes_group ht]
    simp [h.balanced]

theorem of_mem_groupMeaning {alternatives : List (List Text)} (hs : Whole s)
    (ha : ∀ ts ∈ alternatives, ∀ e ∈ ts, Whole e ∧ Keeps true s e)
    (hh : h ∈ groupMeaning alternatives) : Whole h ∧ Keeps inGroup ('{' :: s ++ ['}']) h := by
  match alternatives, ha, hh with
  | [ts], ha, hh =>
    obtain ⟨i, hi, rfl⟩ := List.mem_map.1 hh
    obtain ⟨hwhole, hkeeps⟩ := ha ts List.mem_cons_self i hi
    exact ⟨hwhole.group, hkeeps.group hs hwhole⟩
  | ts :: us :: tss, ha, hh =>
    obtain ⟨vs, hvs, hv⟩ := List.mem_flatten.1 hh
    obtain ⟨hwhole, hkeeps⟩ := ha vs hvs h hv
    refine ⟨hwhole, hkeeps.of_piece ?_⟩
    rw [lexemes_group hs]
    exact (List.sublist_cons_self _ _).trans (List.sublist_append_left _ _)

end Keeps

theorem Means.keeps {inGroup : Bool} {t : Text} {ts : List Text} (h : Means inGroup t ts) :
    ∀ e ∈ ts, Keeps inGroup t e := by
  -- What the alternatives of a group stand for is put between other texts, so it has to be whole.
  refine @Means.rec
    (fun inGroup t ts _ => ∀ e ∈ ts, Keeps inGroup t e)
    (fun inside alternatives _ =>
      Whole inside ∧ ∀ ts ∈ alternatives, ∀ e ∈ ts, Whole e ∧ Keeps true inside e)
    ?nothing ?character ?escaped ?lastBackslash ?group ?last ?more inGroup t ts h
  case nothing =>
    intro _ e he
    rw [List.mem_singleton.1 he]
    exact .nil
  case character =>
    intro inGroup c t ts hc hcomma _ ih e he
    obtain ⟨_, hh, u, hu, rfl⟩ := mem_followedBy.1 he
    obtain rfl := List.mem_singleton.1 hh
    have hkeeps : Keeps inGroup [c] [c] := by
      refine .lexeme (lexemes_character hc) ?_ fun hg => ?_
      · split <;> exact ⟨nofun, nofun⟩
      · rw [if_neg (hcomma hg)]
        exact nofun
    exact .append (whole_character hc) (whole_character hc) hkeeps (ih u hu)
  case escaped =>
    intro inGroup c t ts _ ih e he
    obtain ⟨_, hh, u, hu, rfl⟩ := mem_followedBy.1 he
    obtain rfl := List.mem_singleton.1 hh
    have hkeeps : Keeps inGroup ['\\', c] ['\\', c] :=
      .lexeme (lexemes_backslash c []) ⟨nofun, nofun⟩ fun _ => nofun
    exact .append (whole_escaped c) (whole_escaped c) hkeeps (ih u hu)
  case lastBackslash =>
    intro e he
    rw [List.mem_singleton.1 he]
    exact .lexeme rfl ⟨nofun, nofun⟩ fun _ => nofun
  case group =>
    intro inGroup inside t alternatives ts _ _ ⟨hwhole, iha⟩ iht e he
    obtain ⟨h, hh, u, hu, rfl⟩ := mem_followedBy.1 he
    obtain ⟨hh, hkeeps⟩ := Keeps.of_mem_groupMeaning hwhole iha hh
    rw [List.append_cons]
    exact .append hwhole.group hh hkeeps (iht u hu)
  case last =>
    intro t ts ht ih
    exact ⟨ht.whole, List.forall_mem_singleton.2 fun e he => ⟨(ht.of_mem e he).whole, ih e he⟩⟩
  case more =>
    intro t inside ts alternatives ht _ iht ⟨hwhole, iha⟩
    have hcomma : Whole [','] := whole_character (by decide)
    have hlexemes : lexemes (t ++ ',' :: inside) = lexemes t ++ .comma :: lexemes inside := by
      rw [ht.whole, lexemes]
    have hfirst : (lexemes t).Sublist (lexemes (t ++ ',' :: inside)) := by
      rw [hlexemes]
      exact List.sublist_append_left _ _
    have hrest : (lexemes inside).Sublist (lexemes (t ++ ',' :: inside)) := by
      rw [hlexemes]
      exact (List.sublist_cons_self _ _).trans (List.sublist_append_right _ _)
    refine ⟨?_, List.forall_mem_cons.2 ⟨fun e he => ?_, fun us hus e he => ?_⟩⟩
    · rw [List.append_cons]
      exact (ht.whole.append hcomma).append hwhole
    · exact ⟨(ht.of_mem e he).whole, (iht e he).of_piece hfirst⟩
    · obtain ⟨he, hkeeps⟩ := iha us hus e he
      exact ⟨he, hkeeps.of_piece hrest⟩

/-- An expansion of a pattern has itself as its only expansion. Its braces are balanced, no comma
parts alternatives in it, and its lexemes are lexemes of the pattern in their order: what a
backslash takes literally there, it does in the pattern. -/
theorem expand_again {pattern e : Text} {es : List Text} (h : Pattern.expand pattern = .ok es)
    (he : e ∈ es) : Pattern.expand e = .ok [e] ∧ Balanced e ∧ CommasOutside e ∧
      (lexemes e).Sublist (lexemes pattern) := by
  have h : expand pattern = .ok es := ok_of_mapError h
  obtain ⟨ts, hts, rfl⟩ := expand_ok_iff.1 h
  have hmem : e ∈ ts := List.mem_eraseDups.1 he
  have hkeeps := hts.keeps e hmem
  refine ⟨?_, ?_, hkeeps.outside, hkeeps.sublist⟩
  · rw [Pattern.expand, expand_of_mem h he]
    rfl
  · exact read_isOk_iff.1 ⟨[e], read_eq_ok_iff.2 (hts.of_mem e hmem)⟩

/-- A comma outside, an escaped brace and a group without a comma of its own are left. -/
theorem expanded_group_again :
    Pattern.expand "x,\x7b\\\x7d,\x7by\x7d\x7d" = .ok ["x,\\\x7d".toList, "x,\x7by\x7d".toList] ∧
      ∀ e ∈ ["x,\\\x7d".toList, "x,\x7by\x7d".toList],
        Pattern.expand e = .ok [e] ∧ Balanced e ∧ CommasOutside e ∧
          (lexemes e).Sublist (lexemes "x,\x7b\\\x7d,\x7by\x7d\x7d") := by
  have hexpand : Pattern.expand "x,\x7b\\\x7d,\x7by\x7d\x7d" =
      .ok ["x,\\\x7d".toList, "x,\x7by\x7d".toList] := by
    decide +kernel
  exact ⟨hexpand, fun e he => expand_again hexpand he⟩

end PathSelection.Braces
