import PathSelection.IgnoreFile
import PathSelection.Proofs.Failure

namespace PathSelection

theorem Token.ofSegment_character {c : Char} (hc : c ∉ ['\\', '*', '?', '[']) (cs : Text) :
    ofSegment (c :: cs) = (.literal c :: ·) <$> ofSegment cs := by
  simp only [List.mem_cons, List.not_mem_nil, or_false, not_or] at hc
  obtain ⟨hescape, hrun, hone, hclass⟩ := hc
  rw [ofSegment]
  · cases ofSegment cs <;> rfl
  · exact fun h _ => hescape h
  · exact fun _ _ h _ => hescape h
  · exact hrun
  · exact hone
  · exact hclass

theorem Rule.segment_literal {t : Text} (ht : t.all (· ∉ ['\\', '*', '?', '[']) = true) :
    segment t = .ok (.glob (t.map .literal)) := by
  have htokens (u : Text) (hu : u.all (· ∉ ['\\', '*', '?', '[']) = true) :
      Token.ofSegment u = .ok (u.map .literal) := by
    induction u with
    | nil =>
      rw [Token.ofSegment]
      rfl
    | cons c u ih =>
      obtain ⟨hc, hu⟩ := Bool.and_eq_true_iff.1 hu
      rw [Token.ofSegment_character (of_decide_eq_true hc), ih hu]
      rfl
  have hstar : '*' ∉ t := fun h => absurd (List.all_eq_true.1 ht '*' h) (by decide)
  rw [segment, if_neg, if_neg, htokens t ht]
  · rfl
  · rintro rfl
    exact hstar List.mem_cons_self
  · rintro rfl
    exact hstar List.mem_cons_self

theorem Rule.ofLine_ok {line : Text} {reincludes : Bool} (written : List Text)
    {segments : List Segment} (hline : ((trimLine line).isEmpty ||
      (trimLine line).head? == some '#' || trimLine line == ['/']) = false)
    (hmark : ((trimLine line).head? == some '!') = reincludes)
    (hwritten : (if reincludes then (trimLine line).tail else trimLine line).splitOn '/' = written)
    (hanchor : anchor written ≠ [])
    (hsegments : (mergeDepths (openEnd (anchor written))).mapM segment = .ok segments)
    (hranges : reversedRange? ⟨reincludes, written.getLast? == some [], segments⟩ = none) :
    ofLine line = .ok (some ⟨reincludes, written.getLast? == some [], segments⟩) := by
  have hread : read line = .ok (some ⟨reincludes, written.getLast? == some [], segments⟩) := by
    subst hmark hwritten
    obtain ⟨s, rest, ha⟩ := List.exists_cons_of_ne_nil hanchor
    rw [ha] at hsegments
    simp only [read, hline, ha, hsegments, Bool.false_eq_true, if_false]
  rw [ofLine, hread]
  simp only [bind, Except.bind, hranges]
  rfl

theorem Rule.ofLine_plain {line : Text} (hplain : line.all (· ∉ ['\\', '*', '?', '[']) = true)
    (hslash : '/' ∉ line) (htrim : trimLine line = line)
    (hfirst : line.head? ∉ [none, some '#', some '!'])
    (hranges : reversedRange? ⟨false, false, [.anyDepth, .glob (line.map .literal)]⟩ = none) :
    ofLine line = .ok (some ⟨false, false, [.anyDepth, .glob (line.map .literal)]⟩) := by
  simp only [List.mem_cons, List.not_mem_nil, or_false, not_or] at hfirst
  obtain ⟨hnone, hcomment, hmark⟩ := hfirst
  have hdepth : line ≠ ['*', '*'] := by
    rintro rfl
    cases hplain
  have hsegment : segment line = .ok (.glob (line.map .literal)) :=
    segment_literal hplain
  cases line with
  | nil => exact (hnone rfl).elim
  | cons c cs =>
    have hanchor : anchor [c :: cs] = [['*', '*'], c :: cs] := if_neg hdepth
    have hmerged : mergeDepths (openEnd (anchor [c :: cs])) = [['*', '*'], c :: cs] := by
      rw [hanchor]
      exact if_neg fun h => hdepth h.2
    refine ofLine_ok [c :: cs] ?_ ?_ ?_ ?_ ?_ hranges
    · rw [htrim]
      have hhead : ((c :: cs).head? == some '#') = false := beq_eq_false_iff_ne.2 hcomment
      have hlone : (c :: cs == ['/']) = false := by
        refine beq_eq_false_iff_ne.2 ?_
        rintro ⟨⟩
        exact hslash List.mem_cons_self
      rw [hhead, hlone]
      rfl
    · rw [htrim]
      exact beq_eq_false_iff_ne.2 hmark
    · rw [htrim]
      exact List.splitOn_eq_singleton hslash
    · rw [hanchor]
      exact List.cons_ne_nil _ _
    · rw [hmerged, List.mapM_cons, List.mapM_cons, List.mapM_nil, hsegment]
      rfl

theorem IgnoreFile.load_ok {v : View} {path : Text} {lines : List Text} {rules : List Rule}
    (hlines : readLines v (v.absolute path).text = .ok lines)
    (hrules : Rule.ofLines lines = .ok rules) : load v path = .ok ⟨v.absolute path, rules⟩ := by
  rw [load]
  simp only [hlines, bind, Except.bind, hrules]

end PathSelection
