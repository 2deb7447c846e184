import Mathlib.Data.List.TakeWhile
import PathSelection.Proofs.Failure
import PathSelection.Rule.Expression

namespace PathSelection

namespace CharClass

theorem close_ok {t i rest : Text} (h : close t = some (i, rest)) :
    t = i ++ ']' :: rest ∧ ∀ q, close (i ++ ']' :: q) = some (i, q) := by
  fun_induction close t generalizing i with
  | case1 => cases h
  | case2 cs =>
    cases h
    exact ⟨rfl, fun q => rfl⟩
  | case3 c cs hc ih =>
    obtain ⟨⟨j, r⟩, hr, he⟩ := Option.map_eq_some_iff.1 h
    cases he
    obtain ⟨rfl, hj⟩ := ih hr
    refine ⟨rfl, fun q => ?_⟩
    rw [List.cons_append, close.eq_3 c _ hc, hj]
    rfl

theorem inside_ok {t i rest : Text} (h : inside t = some (i, rest)) :
    t = i ++ ']' :: rest ∧ ∀ q, inside (i ++ ']' :: q) = some (i, q) := by
  unfold inside at h
  split at h
  · next cs =>
    obtain ⟨⟨j, r⟩, hr, he⟩ := Option.map_eq_some_iff.1 h
    cases he
    obtain ⟨rfl, hj⟩ := close_ok hr
    refine ⟨rfl, fun q => ?_⟩
    change (close (j ++ ']' :: q)).map _ = _
    rw [hj]
    rfl
  · next hne =>
    obtain ⟨rfl, hi⟩ := close_ok h
    refine ⟨rfl, fun q => ?_⟩
    cases i with
    | nil => exact (hne rest rfl).elim
    | cons c i =>
      have hc : c ≠ ']' := fun hc => hne (i ++ ']' :: rest) (by rw [hc]; rfl)
      rw [List.cons_append, inside.eq_2 _ fun cs hcs => hc (List.cons.inj hcs).1]
      exact hi q

theorem read_ok {t rest : Text} {k : CharClass} (h : read t = some (k, rest)) :
    ∃ held, t = held ++ ']' :: rest ∧ ∀ q, read (held ++ ']' :: q) = some (k, q) := by
  unfold read at h
  split at h
  · next cs =>
    obtain ⟨⟨i, r⟩, hr, he⟩ := Option.map_eq_some_iff.1 h
    cases he
    obtain ⟨rfl, hi⟩ := inside_ok hr
    exact ⟨'!' :: i, rfl, fun q => congrArg (Option.map _) (hi q)⟩
  · next cs =>
    obtain ⟨⟨i, r⟩, hr, he⟩ := Option.map_eq_some_iff.1 h
    cases he
    obtain ⟨rfl, hi⟩ := inside_ok hr
    exact ⟨'^' :: i, rfl, fun q => congrArg (Option.map _) (hi q)⟩
  · next hbang hcaret =>
    obtain ⟨⟨i, r⟩, hr, he⟩ := Option.map_eq_some_iff.1 h
    cases he
    obtain ⟨rfl, hi⟩ := inside_ok hr
    refine ⟨i, rfl, fun q => ?_⟩
    have hne (c : Char) (h : ∀ cs, i ++ ']' :: rest ≠ c :: cs) (hc : c ≠ ']') :
        ∀ cs, i ++ ']' :: q ≠ c :: cs := by
      intro cs he
      cases i with
      | nil => exact hc (List.cons.inj he).1.symm
      | cons d i => exact h (i ++ ']' :: rest) (by rw [(List.cons.inj he).1.symm]; rfl)
    rw [read.eq_3 _ (hne '!' hbang (by decide)) (hne '^' hcaret (by decide)), hi]
    rfl

theorem read_append_none {t u : Text} (h : read t = none) (hu : ']' ∉ u) :
    read (t ++ u) = none := by
  cases hr : read (t ++ u) with
  | none => rfl
  | some p =>
    obtain ⟨held, he, hheld⟩ := read_ok hr
    rcases List.append_eq_append_iff.1 he with ⟨a, rfl, ha⟩ | ⟨b, rfl, hb⟩
    · exact (hu (ha ▸ List.mem_append_right a List.mem_cons_self)).elim
    · cases b with
      | nil =>
        rw [List.nil_append] at hb
        exact (hu (hb ▸ List.mem_cons_self)).elim
      | cons c b =>
        obtain rfl := (List.cons.inj hb).1
        rw [hheld] at h
        cases h

end CharClass

namespace Token

def fault? (segment : Text) : Option GlobFault :=
  match ofSegment segment with
  | .ok _ => none
  | .error e => some e

theorem fault?_eq_some {s : Text} {e : GlobFault} : fault? s = some e ↔ ofSegment s = .error e := by
  unfold fault?
  cases ofSegment s <;> simp

theorem fault?_eq_none {s : Text} : fault? s = none ↔ ∃ ts, ofSegment s = .ok ts := by
  unfold fault?
  cases ofSegment s <;> simp

theorem fault?_nil : fault? [] = none := by
  rw [fault?, ofSegment]

theorem fault?_backslash : fault? ['\\'] = some .danglingEscape := by
  rw [fault?, ofSegment]

theorem fault?_escaped (c : Char) (cs : Text) : fault? ('\\' :: c :: cs) = fault? cs := by
  rw [fault?, fault?, ofSegment]
  cases ofSegment cs <;> rfl

theorem fault?_unclosed {cs : Text} (h : CharClass.read cs = none) :
    fault? ('[' :: cs) = some .unclosedClass := by
  have hfault : ofSegment ('[' :: cs) = .error .unclosedClass := by
    rw [ofSegment.eq_def]
    simp only
    split
    · rfl
    · next hr =>
      rw [hr] at h
      cases h
  rw [fault?, hfault]

theorem fault?_class {cs rest : Text} {k : CharClass} (h : CharClass.read cs = some (k, rest)) :
    fault? ('[' :: cs) = fault? rest := by
  have hclass : ofSegment ('[' :: cs) = (.oneOf k :: ·) <$> ofSegment rest := by
    rw [ofSegment.eq_def]
    simp only
    split
    · next hr =>
      rw [hr] at h
      cases h
    · next hr =>
      rw [hr] at h
      cases h
      rfl
  rw [fault?, fault?, hclass]
  cases ofSegment rest <;> rfl

theorem fault?_character {c : Char} (hescape : c ≠ '\\') (hclass : c ≠ '[') (cs : Text) :
    fault? (c :: cs) = fault? cs := by
  by_cases hrun : c = '*'
  · subst hrun
    rw [fault?, fault?, ofSegment]
    cases ofSegment cs <;> rfl
  by_cases hone : c = '?'
  · subst hone
    rw [fault?, fault?, ofSegment]
    cases ofSegment cs <;> rfl
  rw [fault?, fault?, ofSegment]
  · cases ofSegment cs <;> rfl
  · exact fun h _ => hescape h
  · exact fun _ _ h _ => hescape h
  · exact hrun
  · exact hone
  · exact hclass

theorem fault?_blanks {u : Text} (hu : ∀ c ∈ u, isBlank c = true) : fault? u = none := by
  induction u with
  | nil => exact fault?_nil
  | cons c u ih =>
    have hc := hu c List.mem_cons_self
    rw [fault?_character (by rintro rfl; cases hc) (by rintro rfl; cases hc)]
    exact ih fun d hd => hu d (List.mem_cons_of_mem c hd)

theorem fault?_append_blanks {s u : Text} (hu : ∀ c ∈ u, isBlank c = true) :
    fault? (s ++ u) = fault? s ∨ fault? s = some .danglingEscape ∧ fault? (s ++ u) = none := by
  have hbracket : ']' ∉ u := fun h => absurd (hu _ h) (by decide)
  induction s using ofSegment.induct with
  | case1 =>
    rw [List.nil_append, fault?_nil]
    exact .inl (fault?_blanks hu)
  | case2 =>
    rw [fault?_backslash]
    cases u with
    | nil => exact .inl fault?_backslash
    | cons c u =>
      refine .inr ⟨rfl, ?_⟩
      rw [List.cons_append, List.nil_append, fault?_escaped]
      exact fault?_blanks fun d hd => hu d (List.mem_cons_of_mem c hd)
  | case3 c cs ih =>
    rw [List.cons_append, List.cons_append, fault?_escaped, fault?_escaped]
    exact ih
  | case4 cs ih =>
    rw [List.cons_append, fault?_character (by decide) (by decide),
      fault?_character (by decide) (by decide)]
    exact ih
  | case5 cs ih =>
    rw [List.cons_append, fault?_character (by decide) (by decide),
      fault?_character (by decide) (by decide)]
    exact ih
  | case6 cs h =>
    rw [List.cons_append, fault?_unclosed h, fault?_unclosed (CharClass.read_append_none h hbracket)]
    exact .inl rfl
  | case7 cs k rest h _ ih =>
    obtain ⟨held, rfl, hheld⟩ := CharClass.read_ok h
    rw [fault?_class h, List.cons_append, List.append_assoc, List.cons_append,
      fault?_class (hheld _)]
    exact ih
  | case8 c cs hlone hescape hrun hone hclass ih =>
    have hc : c ≠ '\\' := by
      intro hc
      cases cs with
      | nil => exact hlone hc rfl
      | cons d cs => exact hescape d cs hc rfl
    rw [List.cons_append, fault?_character hc hclass, fault?_character hc hclass]
    exact ih

end Token

namespace Rule

def faults (t : Text) : List GlobFault := (t.splitOn '/').filterMap Token.fault?

theorem unclosedClass_mem_faults {t : Text} : .unclosedClass ∈ faults t ↔
    ∃ s ∈ t.splitOn '/', Token.ofSegment s = .error .unclosedClass := by
  simp only [faults, List.mem_filterMap, Token.fault?_eq_some]

theorem exists_splitOn (t : Text) :
    ∃ s ss u, t.splitOn '/' = s :: ss ∧ t = s ++ u ∧ '/' ∉ s := by
  induction t with
  | nil => exact ⟨[], [], [], rfl, rfl, List.not_mem_nil⟩
  | cons c t ih =>
    rw [List.splitOn_cons_eq_if_modifyHead]
    by_cases hc : c = '/'
    · subst hc
      exact ⟨[], t.splitOn '/', '/' :: t, rfl, rfl, List.not_mem_nil⟩
    · obtain ⟨s, ss, u, hs, rfl, hslash⟩ := ih
      rw [if_neg (by simpa using hc), hs]
      refine ⟨c :: s, ss, u, rfl, rfl, ?_⟩
      simpa [Ne.symm hc] using hslash

theorem splitOn_append {u t s : Text} {ss : List Text} (hu : '/' ∉ u)
    (h : t.splitOn '/' = s :: ss) : (u ++ t).splitOn '/' = (u ++ s) :: ss := by
  induction u with
  | nil => exact h
  | cons c u ih =>
    have hc : c ≠ '/' := fun hc => hu (hc ▸ List.mem_cons_self)
    rw [List.cons_append, List.splitOn_cons_eq_if_modifyHead, if_neg (by simpa using hc),
      ih fun hm => hu (List.mem_cons_of_mem c hm)]
    rfl

theorem faults_nil : faults [] = [] := by
  rw [faults, List.splitOn_nil, List.filterMap_cons, Token.fault?_nil]
  rfl

theorem faults_slash (t : Text) : faults ('/' :: t) = faults t := by
  rw [faults, List.splitOn_cons_eq_if_modifyHead, if_pos (beq_self_eq_true _),
    List.filterMap_cons, Token.fault?_nil]
  rfl

theorem faults_append {u : Text} (hu : '/' ∉ u)
    (h : ∀ s, Token.fault? (u ++ s) = Token.fault? s) (t : Text) :
    faults (u ++ t) = faults t := by
  obtain ⟨s, ss, -, hs, -, -⟩ := exists_splitOn t
  rw [faults, splitOn_append hu hs, faults, hs, List.filterMap_cons, List.filterMap_cons, h]

theorem faults_character {c : Char} (hescape : c ≠ '\\') (hclass : c ≠ '[') (t : Text) :
    faults (c :: t) = faults t := by
  by_cases hc : c = '/'
  · rw [hc, faults_slash]
  · exact faults_append (u := [c]) (by simpa using Ne.symm hc)
      (Token.fault?_character hescape hclass) t

theorem faults_backslash : faults ['\\'] = [.danglingEscape] := by
  rw [faults, List.splitOn_eq_singleton (by decide), List.filterMap_cons, Token.fault?_backslash]
  rfl

theorem faults_escaped {c : Char} (hc : c ≠ '/') (t : Text) :
    faults ('\\' :: c :: t) = faults t :=
  faults_append (u := ['\\', c]) (by simpa using Ne.symm hc) (Token.fault?_escaped c) t

theorem faults_escapedSlash (t : Text) :
    faults ('\\' :: '/' :: t) = .danglingEscape :: faults t := by
  have hsplit : (['\\'] ++ '/' :: t).splitOn '/' = ['\\'] :: t.splitOn '/' :=
    List.splitOn_append_cons_self_of_not_mem (by decide) t
  rw [List.singleton_append] at hsplit
  rw [faults, hsplit, List.filterMap_cons, Token.fault?_backslash]
  rfl

theorem faults_open {cs : Text}
    (h : ∀ held k rest, cs = held ++ ']' :: rest → CharClass.read cs = some (k, rest) →
      '/' ∈ held) :
    ∃ es, faults ('[' :: cs) = .unclosedClass :: es := by
  obtain ⟨s, ss, u, hs, rfl, hslash⟩ := exists_splitOn cs
  have hread : CharClass.read s = none := by
    cases hr : CharClass.read s with
    | none => rfl
    | some p =>
      obtain ⟨held, rfl, hheld⟩ := CharClass.read_ok hr
      rw [List.append_assoc, List.cons_append] at h
      have hm := h held p.1 (p.2 ++ u) rfl (hheld _)
      exact (hslash (List.mem_append_left _ hm)).elim
  refine ⟨ss.filterMap Token.fault?, ?_⟩
  have hsplit : ('[' :: (s ++ u)).splitOn '/' = ('[' :: s) :: ss :=
    splitOn_append (u := ['[']) (by decide) hs
  rw [faults, hsplit, List.filterMap_cons, Token.fault?_unclosed hread]

theorem faults_class {cs rest : Text} {k : CharClass} (h : CharClass.read cs = some (k, rest)) :
    ∃ held, cs = held ++ ']' :: rest ∧
      ('/' ∉ held ∧ faults ('[' :: cs) = faults rest ∨
        '/' ∈ held ∧ ∃ es, faults ('[' :: cs) = .unclosedClass :: es) := by
  obtain ⟨held, rfl, hheld⟩ := CharClass.read_ok h
  refine ⟨held, rfl, ?_⟩
  by_cases hslash : '/' ∈ held
  · refine .inr ⟨hslash, faults_open fun held' k' rest' he hr => ?_⟩
    rw [hheld] at hr
    cases hr
    exact List.append_cancel_right he ▸ hslash
  · refine .inl ⟨hslash, ?_⟩
    have hu : '/' ∉ '[' :: (held ++ [']']) := by simpa using hslash
    have hfault (s : Text) : Token.fault? ('[' :: (held ++ [']']) ++ s) = Token.fault? s := by
      rw [List.cons_append, List.append_assoc]
      exact Token.fault?_class (hheld s)
    have happend := faults_append hu hfault rest
    rwa [List.cons_append, List.append_assoc] at happend

theorem exists_splitOn_append {u : Text} (hu : '/' ∉ u) (t : Text) :
    ∃ init last, t.splitOn '/' = init ++ [last] ∧ (t ++ u).splitOn '/' = init ++ [last ++ u] := by
  induction t with
  | nil => exact ⟨[], [], rfl, List.splitOn_eq_singleton hu⟩
  | cons c t ih =>
    obtain ⟨init, last, ht, htu⟩ := ih
    rw [List.cons_append, List.splitOn_cons_eq_if_modifyHead, List.splitOn_cons_eq_if_modifyHead,
      ht, htu]
    split
    · exact ⟨[] :: init, last, rfl, rfl⟩
    · cases init with
      | nil => exact ⟨[], c :: last, rfl, rfl⟩
      | cons s init => exact ⟨(c :: s) :: init, last, rfl, rfl⟩

theorem faults_append_blanks {u : Text} (hu : ∀ c ∈ u, isBlank c = true) (t : Text) :
    faults (t ++ u) = faults t ∨ faults t = faults (t ++ u) ++ [.danglingEscape] := by
  have hslash : '/' ∉ u := fun h => absurd (hu _ h) (by decide)
  obtain ⟨init, last, ht, htu⟩ := exists_splitOn_append hslash t
  rw [faults, faults, ht, htu, List.filterMap_append, List.filterMap_append]
  rcases Token.fault?_append_blanks (s := last) hu with h | ⟨h, hn⟩
  · rw [List.filterMap_cons, h, List.filterMap_cons]
    exact .inl rfl
  · rw [List.filterMap_cons, hn, List.filterMap_cons, h]
    exact .inr (by simp)

-- What is done to the segments before they are read adds no fault and takes none away.

theorem fault?_anyDepth : Token.fault? ['*', '*'] = none := by
  rw [Token.fault?_character (by decide) (by decide), Token.fault?_character (by decide) (by decide),
    Token.fault?_nil]

theorem faults_anchor (ss : List Text) :
    (anchor ss).filterMap Token.fault? = ss.filterMap Token.fault? := by
  unfold anchor
  split
  · rw [List.filterMap_cons, Token.fault?_nil]
  · split
    · rfl
    · rw [List.filterMap_cons, fault?_anyDepth]
  · split
    · rfl
    · rw [List.filterMap_cons, fault?_anyDepth]
  · rfl

theorem faults_openEnd (ss : List Text) :
    (openEnd ss).filterMap Token.fault? = ss.filterMap Token.fault? := by
  unfold openEnd
  split
  · next h =>
    obtain ⟨init, rfl⟩ := List.getLast?_eq_some_iff.1 h
    rw [List.dropLast_concat, List.filterMap_append, List.filterMap_append]
    congr 1
    rw [List.filterMap_cons, List.filterMap_cons, fault?_anyDepth, Token.fault?_nil]
  · rfl

theorem faults_mergeDepths (ss : List Text) :
    (mergeDepths ss).filterMap Token.fault? = ss.filterMap Token.fault? := by
  fun_induction mergeDepths ss with
  | case1 s t rest h ih =>
    rw [ih, h.1, List.filterMap_cons (a := ['*', '*']), fault?_anyDepth]
  | case2 s t rest h ih => rw [List.filterMap_cons, ih, List.filterMap_cons (a := s)]
  | case3 ss => rfl

theorem segment_error {s : Text} {e : GlobFault} (h : Token.fault? s = some e) :
    segment s = .error e := by
  have hdepth : s ≠ ['*', '*'] := by
    rintro rfl
    rw [fault?_anyDepth] at h
    cases h
  have hname : s ≠ ['*'] := by
    rintro rfl
    rw [Token.fault?_character (by decide) (by decide), Token.fault?_nil] at h
    cases h
  rw [segment, if_neg hdepth, if_neg hname, Token.fault?_eq_some.1 h]
  rfl

theorem segment_ok {s : Text} (h : Token.fault? s = none) : ∃ x, segment s = .ok x := by
  obtain ⟨ts, hts⟩ := Token.fault?_eq_none.1 h
  unfold segment
  split
  · exact ⟨.anyDepth, rfl⟩
  · split
    · exact ⟨.anyName, rfl⟩
    · rw [hts]
      exact ⟨.glob ts, rfl⟩

theorem mapM_segment_error {ss : List Text} {e : GlobFault} {es : List GlobFault}
    (h : ss.filterMap Token.fault? = e :: es) : ss.mapM segment = .error e := by
  induction ss with
  | nil => cases h
  | cons s ss ih =>
    rw [List.mapM_cons]
    cases hs : Token.fault? s with
    | none =>
      obtain ⟨x, hx⟩ := segment_ok hs
      rw [List.filterMap_cons, hs] at h
      rw [hx, ih h]
      rfl
    | some e' =>
      rw [List.filterMap_cons, hs] at h
      rw [segment_error hs, (List.cons.inj h).1]
      rfl

theorem mapM_segment_ok {ss : List Text} (h : ss.filterMap Token.fault? = []) :
    ∃ segments, ss.mapM segment = .ok segments := by
  apply exists_mapM_ok
  intro s hs
  exact segment_ok (List.filterMap_eq_nil_iff.1 h s hs)

theorem exists_trimLine (line : Text) :
    ∃ blanks, line = trimLine line ++ blanks ∧ ∀ c ∈ blanks, isBlank c = true := by
  unfold trimLine
  split
  · exact ⟨[], (List.append_nil line).symm, nofun⟩
  · refine ⟨(line.reverse.takeWhile isBlank).reverse, ?_, fun c hc => ?_⟩
    · rw [Text.stripRight, ← List.reverse_append, List.takeWhile_append_dropWhile,
        List.reverse_reverse]
    · exact List.mem_takeWhile_imp (List.mem_reverse.1 hc)

/-- A line that is left out when rules are read: trailing white space aside it is empty, a comment
or a lone slash. -/
def IsNote (line : Text) : Prop :=
  line.stripRight = [] ∨ line.stripRight.head? = some '#' ∨ line.stripRight = ['/']

instance (line : Text) : Decidable (IsNote line) :=
  inferInstanceAs (Decidable (_ ∨ _ ∨ _))

theorem isNote_iff (line : Text) : IsNote line ↔
    ((trimLine line).isEmpty || (trimLine line).head? == some '#' || trimLine line == ['/']) =
      true := by
  have htrim : IsNote line ↔
      trimLine line = [] ∨ (trimLine line).head? = some '#' ∨ trimLine line = ['/'] := by
    unfold trimLine
    split
    · next h =>
      -- An escaped blank at the end stays, but what it is appended to is no note either way.
      obtain ⟨u, rfl⟩ := List.isSuffixOf_iff_suffix.1 h
      have hstrip : Text.stripRight (u ++ ['\\', ' ']) = u ++ ['\\'] := by
        rw [Text.stripRight, List.reverse_append]
        simp [show isBlank ' ' = true from rfl,
          show isBlank '\\' = false from rfl]
      rw [IsNote, hstrip]
      cases u with
      | nil => simp
      | cons c u => simp
    · rfl
  rw [htrim]
  simp [or_assoc]

theorem read_of_note {line : Text} (h : IsNote line) : read line = .ok none := by
  unfold read
  simp only [(isNote_iff line).1 h, if_true]

theorem read_of_not_note {line : Text} (h : ¬IsNote line) :
    (∃ es, faults (trimLine line) = .unclosedClass :: es ∧ read line = .ok none) ∨
    (∃ es, faults (trimLine line) = .danglingEscape :: es ∧ read line = .error (.unusable line)) ∨
    faults (trimLine line) = [] ∧ read line ≠ .ok none := by
  rw [isNote_iff, Bool.not_eq_true] at h
  have hmark : faults (if ((trimLine line).head? == some '!') = true then (trimLine line).tail
      else trimLine line) = faults (trimLine line) := by
    split
    · next hm =>
      obtain ⟨t, ht⟩ := List.head?_eq_some_iff.1 (beq_iff_eq.1 hm)
      rw [ht, List.tail_cons, faults_character (by decide) (by decide)]
    · rfl
  unfold read
  simp only [h, Bool.false_eq_true, if_false]
  generalize (if ((trimLine line).head? == some '!') = true then (trimLine line).tail
    else trimLine line) = written at hmark ⊢
  rw [← hmark, faults, ← faults_anchor]
  cases ha : anchor (written.splitOn '/') with
  | nil => exact .inr (.inr ⟨rfl, nofun⟩)
  | cons s ss =>
    rw [← faults_openEnd, ← faults_mergeDepths]
    cases hf : (mergeDepths (openEnd (s :: ss))).filterMap Token.fault? with
    | nil =>
      obtain ⟨segments, hsegments⟩ := mapM_segment_ok hf
      refine .inr (.inr ⟨rfl, ?_⟩)
      simp only [hsegments]
      exact nofun
    | cons e es =>
      have herror := mapM_segment_error hf
      cases e with
      | unclosedClass =>
        refine .inl ⟨es, rfl, ?_⟩
        simp only [herror]
      | danglingEscape =>
        refine .inr (.inl ⟨es, rfl, ?_⟩)
        simp only [herror]

theorem read_of_ofLine {line : Text} {r? : Option Rule} (h : ofLine line = .ok r?) :
    read line = .ok r? := by
  unfold ofLine at h
  cases hr : read line with
  | error e =>
    rw [hr] at h
    cases h
  | ok q =>
    rw [hr] at h
    cases q with
    | none =>
      cases h
      rfl
    | some r =>
      simp only [bind, Except.bind] at h
      split at h
      · cases h
        rfl
      · cases h

theorem ofLine_none_iff {line : Text} : ofLine line = .ok none ↔ read line = .ok none := by
  refine ⟨read_of_ofLine, fun h => ?_⟩
  rw [ofLine, h]
  rfl

theorem ofLines_ok {lines : List Text} {rules : List Rule} (h : ofLines lines = .ok rules) :
    (∀ line ∈ lines, ∃ r?, ofLine line = .ok r?) ∧
      ∀ r, r ∈ rules ↔ ∃ line ∈ lines, ofLine line = .ok (some r) := by
  obtain ⟨rs, hrs, h⟩ := ok_of_bind h
  cases h
  obtain ⟨hread, hmem⟩ := ok_of_mapM hrs
  refine ⟨hread, fun r => ?_⟩
  simp only [List.mem_filterMap, id_eq, exists_eq_right, hmem]

end Rule
end PathSelection
