import PathSelection.Proofs.Failure
import PathSelection.Proofs.Rule.Beneath
import PathSelection.Proofs.Rule.Reading

namespace PathSelection

/-- Whether a bracket that no backslash escapes opens a class. -/
def Rule.opensClass : Text → Bool
  | '\\' :: _ :: cs => opensClass cs
  | '[' :: _ => true
  | _ :: cs => opensClass cs
  | [] => false

namespace Rule

theorem opensClass_character {c : Char} (hescape : c ≠ '\\') (hclass : c ≠ '[') (cs : Text) :
    opensClass (c :: cs) = opensClass cs := by
  rw [opensClass]
  · exact fun _ _ h _ => hescape h
  · exact hclass

theorem opensClass_append {t u : Text} (h : opensClass (t ++ u) = false) :
    opensClass t = false ∧ (opensClass u = false ∨ opensClass u.tail = false) := by
  fun_induction opensClass t with
  | case1 c cs ih => exact ih h
  | case2 cs => cases h
  | case3 c cs hescape hclass ih =>
    by_cases hc : c = '\\'
    · subst hc
      cases cs with
      | nil =>
        cases u with
        | nil => exact ⟨rfl, .inl rfl⟩
        | cons d u => exact ⟨rfl, .inr h⟩
      | cons d cs => exact (hescape d cs rfl rfl).elim
    · rw [List.cons_append, opensClass_character hc hclass] at h
      exact ih h
  | case4 => exact ⟨rfl, .inl h⟩

theorem opensClass_slash {t u : Text} (h : opensClass (t ++ '/' :: u) = false) :
    opensClass t = false ∧ opensClass u = false := by
  obtain ⟨ht, hu | hu⟩ := opensClass_append h
  · exact ⟨ht, hu⟩
  · exact ⟨ht, hu⟩

theorem opensClass_of_mem_splitOn {t s : Text} (h : opensClass t = false)
    (hs : s ∈ t.splitOn '/') : opensClass s = false := by
  have hparts : ∀ ss : List Text, opensClass (['/'].intercalate ss) = false →
      ∀ s ∈ ss, opensClass s = false := by
    intro ss h
    induction ss with
    | nil => exact nofun
    | cons s ss ih =>
      cases ss with
      | nil => simpa using h
      | cons s' ss =>
        rw [List.intercalate_cons_cons, List.append_assoc] at h
        obtain ⟨hs, hss⟩ := opensClass_slash h
        exact List.forall_mem_cons.2 ⟨hs, ih hss⟩
  refine hparts _ ?_ s hs
  rwa [List.intercalate_splitOn]

theorem slash_not_mem_splitOn {t s : Text} (hs : s ∈ t.splitOn '/') : '/' ∉ s := by
  induction t generalizing s with
  | nil =>
    rw [List.splitOn_nil, List.mem_singleton] at hs
    rw [hs]
    exact List.not_mem_nil
  | cons c t ih =>
    rw [List.splitOn_cons_eq_if_modifyHead] at hs
    split at hs
    · rcases List.mem_cons.1 hs with rfl | hs
      · exact List.not_mem_nil
      · exact ih hs
    · next hc =>
      obtain ⟨first, more, hsplit⟩ := List.exists_cons_of_ne_nil (List.splitOn_ne_nil '/' t)
      rw [hsplit, List.modifyHead_cons] at hs
      rw [hsplit] at ih
      rcases List.mem_cons.1 hs with rfl | hs
      · intro hm
        rcases List.mem_cons.1 hm with rfl | hm
        · exact hc (beq_self_eq_true _)
        · exact ih List.mem_cons_self hm
      · exact ih (List.mem_cons_of_mem _ hs)

theorem eq_nil_of_ofSegment {s : Text} (h : Token.ofSegment s = .ok []) : s = [] := by
  have hnone {token : Token} {x : Except GlobFault (List Token)}
      (h : (x >>= fun ts => pure (token :: ts)) = .ok []) : s = [] := by
    obtain ⟨ts, -, he⟩ := ok_of_bind h
    cases he
  rw [Token.ofSegment.eq_def] at h
  split at h
  · rfl
  · cases h
  · exact hnone h
  · exact hnone h
  · exact hnone h
  · split at h
    · cases h
    · exact hnone h
  · exact hnone h

theorem spansSlash_of_ofSegment {s : Text} {ts : List Token} (h : Token.ofSegment s = .ok ts)
    (hclass : opensClass s = false) (hslash : '/' ∉ s) :
    ∀ token ∈ ts, token.spansSlash = false := by
  have hliteral {c : Char} (h : '/' ≠ c) : Token.spansSlash (.literal c) = false :=
    beq_eq_false_iff_ne.2 h.symm
  induction s using Token.ofSegment.induct generalizing ts with
  | case1 =>
    rw [Token.ofSegment] at h
    cases h
    exact List.forall_mem_nil _
  | case2 =>
    rw [Token.ofSegment] at h
    cases h
  | case3 c cs ih =>
    rw [Token.ofSegment] at h
    obtain ⟨us, hus, he⟩ := ok_of_bind h
    cases he
    simp only [List.mem_cons, not_or] at hslash
    exact List.forall_mem_cons.2 ⟨hliteral hslash.2.1, ih hus hclass hslash.2.2⟩
  | case4 cs ih =>
    rw [Token.ofSegment] at h
    obtain ⟨us, hus, he⟩ := ok_of_bind h
    cases he
    simp only [List.mem_cons, not_or] at hslash
    exact List.forall_mem_cons.2 ⟨rfl, ih hus hclass hslash.2⟩
  | case5 cs ih =>
    rw [Token.ofSegment] at h
    obtain ⟨us, hus, he⟩ := ok_of_bind h
    cases he
    simp only [List.mem_cons, not_or] at hslash
    exact List.forall_mem_cons.2 ⟨rfl, ih hus hclass hslash.2⟩
  | case6 cs hr => cases hclass
  | case7 cs k rest hr _ ih => cases hclass
  | case8 c cs hlone hescape hrun hone hbracket ih =>
    have hc : c ≠ '\\' := by
      intro hc
      cases cs with
      | nil => exact hlone hc rfl
      | cons d cs => exact hescape d cs hc rfl
    rw [Token.ofSegment] at h
    · obtain ⟨us, hus, he⟩ := ok_of_bind h
      cases he
      simp only [List.mem_cons, not_or] at hslash
      rw [opensClass_character hc hbracket] at hclass
      exact List.forall_mem_cons.2 ⟨hliteral hslash.1, ih hus hclass hslash.2⟩
    · exact hlone
    · exact hescape
    · exact hrun
    · exact hone
    · exact hbracket

theorem segment_staysInName {t : Text} {s : Segment} (h : segment t = .ok s) (ht : t ≠ [])
    (hclass : opensClass t = false) (hslash : '/' ∉ t) : s.StaysInName := by
  unfold segment at h
  split at h
  · cases h
    trivial
  · split at h
    · cases h
      trivial
    · cases hts : Token.ofSegment t with
      | error e =>
        rw [hts] at h
        cases h
      | ok ts =>
        rw [hts] at h
        cases h
        refine ⟨?_, spansSlash_of_ofSegment hts hclass hslash⟩
        rintro rfl
        exact ht (eq_nil_of_ofSegment hts)

-- What is done to the segments before they are read leaves the last one, but for an empty one.

theorem getLast?_anchor {ss : List Text} (h : anchor ss ≠ []) :
    (anchor ss).getLast? = ss.getLast? := by
  unfold anchor at h ⊢
  split
  · next rest =>
    obtain ⟨s, rest, rfl⟩ := List.exists_cons_of_ne_nil h
    rfl
  · split <;> rfl
  · split <;> rfl
  · rfl

theorem getLast?_openEnd {ss : List Text} : (openEnd ss).getLast? =
    if ss.getLast? = some [] then some ['*', '*'] else ss.getLast? := by
  unfold openEnd
  split
  · exact List.getLast?_concat
  · rfl

theorem getLast?_mergeDepths (ss : List Text) : (mergeDepths ss).getLast? = ss.getLast? := by
  fun_induction mergeDepths ss with
  | case1 s t rest h ih => rw [ih, List.getLast?_cons_cons]
  | case2 s t rest h ih =>
    have hrest : mergeDepths (t :: rest) ≠ [] := by
      intro hnil
      rw [hnil, eq_comm, List.getLast?_nil, List.getLast?_eq_none_iff] at ih
      cases ih
    rw [List.getLast?_cons_of_ne_nil hrest, ih, List.getLast?_cons_cons]
  | case3 ss => rfl

theorem mapM_concat_ok {init ss : List Text} {t : Text} {segments : List Segment}
    (h : ss.mapM segment = .ok segments) (hss : ss = init ++ [t]) :
    ∃ init' s, segments = init' ++ [s] ∧ segment t = .ok s := by
  rw [hss, List.mapM_append] at h
  obtain ⟨init', -, h⟩ := ok_of_bind h
  obtain ⟨last, hlast, h⟩ := ok_of_bind h
  cases h
  rw [List.mapM_cons] at hlast
  obtain ⟨s, hs, hlast⟩ := ok_of_bind hlast
  cases hlast
  exact ⟨init', s, rfl, hs⟩

theorem lastSegment_of_read {line : Text} {r : Rule} (h : read line = .ok (some r))
    (hmark : line.head? ≠ some '!') : r.reincludes = false ∧
      ∃ init s last, r.segments = init ++ [s] ∧
        ((trimLine line).splitOn '/').getLast? = some last ∧
        r.dirOnly = (last == []) ∧ segment (if last = [] then ['*', '*'] else last) = .ok s := by
  have hbody : (trimLine line).head? ≠ some '!' := by
    obtain ⟨blanks, hline, -⟩ := exists_trimLine line
    intro hb
    rw [hline, List.head?_append, hb] at hmark
    exact hmark rfl
  have hmarked : ((trimLine line).head? == some '!') = false := beq_eq_false_iff_ne.2 hbody
  unfold read at h
  simp only [hmarked, Bool.false_eq_true, if_false] at h
  split at h
  · cases h
  · split at h
    · cases h
    · next hanchor =>
      split at h
      · cases h
      · cases h
      · next segments hsegments =>
        cases h
        obtain ⟨last, hlast⟩ := Option.isSome_iff_exists.1
          (List.getLast?_isSome.2 (List.splitOn_ne_nil '/' (trimLine line)))
        have hwritten : (mergeDepths (openEnd (anchor ((trimLine line).splitOn '/')))).getLast? =
            some (if last = [] then ['*', '*'] else last) := by
          rw [getLast?_mergeDepths, getLast?_openEnd, getLast?_anchor hanchor, hlast]
          simp only [Option.some.injEq]
          split <;> rfl
        obtain ⟨init, hinit⟩ := List.getLast?_eq_some_iff.1 hwritten
        obtain ⟨init', s, hs, hsegment⟩ := mapM_concat_ok hsegments hinit
        refine ⟨rfl, init', s, last, hs, hlast, ?_, hsegment⟩
        rw [hlast]
        rfl

theorem trimLine_of_slash {line : Text} (h : line.getLast? = some '/') : trimLine line = line := by
  obtain ⟨blanks, hline, hblanks⟩ := exists_trimLine line
  by_cases hnil : blanks = []
  · rw [hnil, List.append_nil] at hline
    exact hline.symm
  · rw [hline, List.getLast?_append_of_ne_nil _ hnil] at h
    exact absurd (hblanks '/' (List.mem_of_getLast? h)) (by decide)

theorem rule_of_slash {line : Text} {r : Rule} (h : read line = .ok (some r))
    (hmark : line.head? ≠ some '!') (hslash : line.getLast? = some '/') :
    r.reincludes = false ∧ r.dirOnly = true ∧ ∃ init, r.segments = init ++ [.anyDepth] := by
  obtain ⟨hkeeps, init, s, last, hr, hlast, hdir, hs⟩ := lastSegment_of_read h hmark
  obtain ⟨body, rfl⟩ := List.getLast?_eq_some_iff.1 hslash
  rw [trimLine_of_slash hslash, List.splitOn_append_cons_self, List.splitOn_nil,
    List.getLast?_concat, Option.some.injEq] at hlast
  subst hlast
  rw [if_pos rfl] at hs
  cases hs
  exact ⟨hkeeps, hdir, init, hr⟩

theorem rule_without_class {line : Text} {r : Rule} (h : read line = .ok (some r))
    (hmark : line.head? ≠ some '!') (hclass : opensClass line = false) :
    r.reincludes = false ∧ ∃ init s, r.segments = init ++ [s] ∧ s.StaysInName := by
  obtain ⟨hkeeps, init, s, last, hr, hlast, -, hs⟩ := lastSegment_of_read h hmark
  refine ⟨hkeeps, init, s, hr, ?_⟩
  by_cases hnil : last = []
  · rw [if_pos hnil] at hs
    cases hs
    trivial
  · rw [if_neg hnil] at hs
    obtain ⟨blanks, hline, -⟩ := exists_trimLine line
    rw [hline] at hclass
    have hmem := List.mem_of_getLast? hlast
    exact segment_staysInName hs hnil
      (opensClass_of_mem_splitOn (opensClass_append hclass).1 hmem) (slash_not_mem_splitOn hmem)

end Rule
end PathSelection
