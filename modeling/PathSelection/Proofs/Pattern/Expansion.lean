import PathSelection.Failure
import PathSelection.Proofs.Pattern.Meaning
import PathSelection.Proofs.Text.Distinct
import Mathlib.Data.List.Forall2

namespace PathSelection.Braces

/-- Whether a piece has no comma but in its groups. -/
def freeOfCommas : (depth : Nat) → List Lexeme → Bool
  | _, [] => true
  | 0, .comma :: _ => false
  | depth, l :: ls => freeOfCommas (l.depthAfter depth) ls

/-- A pass over some lexemes puts these texts after the level, unless a comma among them parts the
alternatives of an open group. -/
def Stands (ls : List Lexeme) (ts : List Text) : Prop :=
  ∀ level gs more, gs = [] ∨ freeOfCommas 0 ls = true →
    read level gs (ls ++ more) = read (followedBy level ts) gs more

def Literal (ls : List Lexeme) : Prop := ∀ l ∈ ls, l ≠ .opening ∧ l ≠ .closing

/-- What comes before the first brace of a pattern, and which brace it is. -/
inductive FirstBrace (ls : List Lexeme) : Except Fault (Option (Text × List Lexeme)) → Prop
  | none (h : Literal ls) : FirstBrace ls (.ok none)
  | opening {before rest : List Lexeme} (h : Literal before)
    (hls : ls = before ++ .opening :: rest) :
      FirstBrace ls (.ok (some (before.flatMap Lexeme.text, rest)))
  | closing {before rest : List Lexeme} (h : Literal before)
    (hls : ls = before ++ .closing :: rest) : FirstBrace ls (.error .strayClose)

theorem firstBrace (ls : List Lexeme) : FirstBrace ls (firstGroup ls) := by
  induction ls using firstGroup.induct with
  | case1 => exact .none nofun
  | case2 ls => exact @FirstBrace.opening _ [] ls nofun rfl
  | case3 ls => exact @FirstBrace.closing _ [] ls nofun rfl
  | case4 l ls ho hc ih =>
    have hl {before : List Lexeme} (h : Literal before) : Literal (l :: before) :=
      List.forall_mem_cons.2 ⟨⟨ho, hc⟩, h⟩
    rw [firstGroup]
    · generalize firstGroup ls = cut at ih ⊢
      cases ih with
      | none h => exact .none (hl h)
      | opening h hls => exact .opening (hl h) (by rw [hls]; rfl)
      | closing h hls => exact .closing (hl h) (by rw [hls]; rfl)
    · exact ho
    · exact hc

theorem stands_of_literal {ls : List Lexeme} (h : Literal ls) :
    Stands ls [ls.flatMap Lexeme.text] := by
  induction ls with
  | nil =>
    intro level gs more _
    exact congrArg (read · gs more) followedBy_empty.symm
  | cons l ls ih =>
    obtain ⟨hl, hls⟩ := List.forall_mem_cons.1 h
    intro level gs more hcommas
    cases l with
    | opening => exact (hl.1 rfl).elim
    | closing => exact (hl.2 rfl).elim
    | plain t =>
      rw [List.cons_append, read, ih hls _ gs more hcommas, followedBy_assoc]
      rfl
    | comma =>
      rcases hcommas with rfl | hcommas
      · rw [List.cons_append, read, ih hls _ [] more (.inl rfl), followedBy_assoc]
        rfl
      · cases hcommas

/-- A piece between the commas of a group closes what it opens. The depth counts the groups that
were open before it. -/
structure Piece (depth : Nat) (ls : List Lexeme) : Prop where
  freeOfCommas : freeOfCommas depth ls = true
  read : ∀ level gs, gs.length = depth → ∃ ts, read level gs ls = .ok ts

theorem piece_nil : Piece 0 [] where
  freeOfCommas := rfl
  read := by
    intro level gs h
    rw [List.eq_nil_of_length_eq_zero h]
    exact ⟨level, rfl⟩

theorem Piece.cons {depth : Nat} {l : Lexeme} {ls : List Lexeme}
    (hclosing : depth = 0 → l = .closing → False) (hcomma : depth = 0 → l = .comma → False)
    (h : Piece (l.depthAfter depth) ls) : Piece depth (l :: ls) where
  freeOfCommas := by
    rw [Braces.freeOfCommas]
    · exact h.freeOfCommas
    · exact hcomma
  read := by
    intro level gs hgs
    cases l with
    | opening =>
      rw [Braces.read]
      exact h.read _ (_ :: gs) (congrArg (· + 1) hgs)
    | plain t =>
      rw [Braces.read]
      exact h.read _ gs hgs
    | closing =>
      cases gs with
      | nil => exact (hclosing hgs.symm rfl).elim
      | cons g gs =>
        rw [Braces.read]
        exact h.read _ gs (by rw [← hgs]; rfl)
    | comma =>
      cases gs with
      | nil => exact (hcomma hgs.symm rfl).elim
      | cons g gs =>
        rw [Braces.read]
        exact h.read _ (_ :: gs) hgs

theorem groupBody_some {depth : Nat} {ls rest : List Lexeme} {pieces : List (List Lexeme)}
    (h : groupBody depth ls = some (pieces, rest)) :
    ∃ p ps, pieces = p :: ps ∧ ls = p ++ ps.flatMap (.comma :: ·) ++ .closing :: rest ∧
      Piece depth p ∧ ∀ q ∈ ps, Piece 0 q := by
  induction depth, ls using groupBody.induct generalizing pieces with
  | case1 => cases h
  | case2 ls =>
    cases h
    exact ⟨[], [], rfl, rfl, piece_nil, nofun⟩
  | case3 ls ih =>
    rw [groupBody] at h
    obtain ⟨⟨ps, r⟩, hbody, h⟩ := Option.bind_eq_some_iff.1 h
    cases h
    obtain ⟨p, ps, rfl, rfl, hp, hps⟩ := ih hbody
    exact ⟨[], p :: ps, rfl, by simp, piece_nil, List.forall_mem_cons.2 ⟨hp, hps⟩⟩
  | case4 depth l ls hclosing hcomma ih =>
    rw [groupBody] at h
    · obtain ⟨⟨ps, r⟩, hbody, h⟩ := Option.bind_eq_some_iff.1 h
      cases h
      obtain ⟨p, ps, rfl, rfl, hp, hps⟩ := ih hbody
      exact ⟨l :: p, ps, rfl, rfl, hp.cons hclosing hcomma, hps⟩
    · exact hclosing
    · exact hcomma

theorem depthAfter_succ {depth : Nat} {l : Lexeme} (h : depth = 0 → l = .closing → False) :
    l.depthAfter (depth + 1) = l.depthAfter depth + 1 := by
  cases l with
  | closing =>
    cases depth with
    | zero => exact (h rfl rfl).elim
    | succ depth => rfl
  | opening => rfl
  | comma => rfl
  | plain t => rfl

theorem freeOfCommas_of_groupBody {depth : Nat} {ls rest : List Lexeme}
    {pieces : List (List Lexeme)} (h : groupBody depth ls = some (pieces, rest))
    (hcommas : freeOfCommas (depth + 1) ls = true) : freeOfCommas 0 rest = true := by
  induction depth, ls using groupBody.induct generalizing pieces with
  | case1 => cases h
  | case2 ls =>
    cases h
    exact hcommas
  | case3 ls ih =>
    rw [groupBody] at h
    obtain ⟨⟨ps, r⟩, hbody, h⟩ := Option.bind_eq_some_iff.1 h
    cases h
    exact ih hbody hcommas
  | case4 depth l ls hclosing hcomma ih =>
    rw [groupBody] at h
    · obtain ⟨⟨ps, r⟩, hbody, h⟩ := Option.bind_eq_some_iff.1 h
      cases h
      rw [freeOfCommas, depthAfter_succ hclosing] at hcommas
      · exact ih hbody hcommas
      · intro hplain
        cases hplain
    · exact hclosing
    · exact hcomma

theorem read_of_groupBody_none {depth : Nat} {ls : List Lexeme} (h : groupBody depth ls = none)
    {level : List Text} {gs : List OpenGroup} (hgs : gs.length = depth + 1) :
    read level gs ls = .error .unclosed := by
  have hnone {α β : Type} {x : Option α} {f : α → β} (h : (x >>= fun a => some (f a)) = none) :
      x = none := by
    cases x with
    | none => rfl
    | some a => cases h
  obtain ⟨g, gs, rfl⟩ := List.exists_cons_of_length_eq_add_one hgs
  induction depth, ls using groupBody.induct generalizing level g gs with
  | case1 depth => rfl
  | case2 ls => cases h
  | case3 ls ih =>
    rw [groupBody] at h
    rw [read]
    exact ih (hnone h) _ _ hgs
  | case4 depth l ls hclosing hcomma ih =>
    rw [groupBody] at h
    · have hls := hnone h
      cases l with
      | opening =>
        rw [read]
        exact ih hls _ _ (congrArg (· + 1) hgs)
      | plain t =>
        rw [read]
        exact ih hls _ _ hgs
      | comma =>
        rw [read]
        exact ih hls _ _ hgs
      | closing =>
        cases depth with
        | zero => exact (hclosing rfl rfl).elim
        | succ depth =>
          rw [List.length_cons, Nat.add_right_cancel_iff] at hgs
          obtain ⟨g', gs, rfl⟩ := List.exists_cons_of_length_eq_add_one hgs
          rw [read]
          exact ih hls _ _ hgs
    · exact hclosing
    · exact hcomma

theorem read_group {p : List Lexeme} {ps : List (List Lexeme)} {ts : List Text}
    {tss : List (List Text)} {more : List Lexeme} {gs : List OpenGroup}
    (hp : Stands p ts ∧ Piece 0 p)
    (hps : List.Forall₂ (fun q us => Stands q us ∧ Piece 0 q) ps tss) (g : OpenGroup) :
    read [[]] (g :: gs) (p ++ ps.flatMap (.comma :: ·) ++ .closing :: more) =
      read (followedBy g.before (groupMeaning (g.alternatives ++ ts :: tss))) gs more := by
  induction hps generalizing p ts g with
  | nil =>
    rw [List.flatMap_nil, List.append_nil, hp.1 _ _ _ (.inr hp.2.freeOfCommas), read,
      empty_followedBy]
  | @cons q us ps tss hq hps ih =>
    have hnext := ih hq ⟨g.before, g.alternatives ++ [ts]⟩
    rw [List.append_assoc, List.append_assoc] at hnext
    rw [List.flatMap_cons, List.append_assoc, List.append_assoc,
      hp.1 _ _ _ (.inr hp.2.freeOfCommas), List.cons_append, read, empty_followedBy, hnext]
    rfl

theorem read_to_group {pre p more : List Lexeme} {ps : List (List Lexeme)}
    {tss : List (List Text)} {level : List Text} {gs : List OpenGroup} (hpre : Literal pre)
    (hstands : List.Forall₂ (fun q us => Stands q us ∧ Piece 0 q) (p :: ps) tss)
    (hcommas : gs = [] ∨ freeOfCommas 0 pre = true) :
    read level gs (pre ++ .opening :: (p ++ ps.flatMap (.comma :: ·) ++ .closing :: more)) =
      read (followedBy level (followedBy [pre.flatMap Lexeme.text] (groupMeaning tss))) gs
        more := by
  cases hstands with
  | cons hp hps =>
    rw [stands_of_literal hpre _ _ _ hcommas, read, read_group hp hps, followedBy_assoc]
    rfl

section Expansions

variable {ls rest after : List Lexeme} {before : Text} {pieces : List (List Lexeme)}

theorem expansions_of_strayClose {fault : Fault} (h : firstGroup ls = .error fault) :
    expansions ls = .error fault := by
  rw [expansions]
  split
  · next e he =>
    cases he.symm.trans h
    rfl
  · next he => cases he.symm.trans h
  · next he => cases he.symm.trans h

theorem expansions_of_literal (h : firstGroup ls = .ok none) :
    expansions ls = .ok [ls.flatMap Lexeme.text] := by
  rw [expansions]
  split
  · next he => cases he.symm.trans h
  · rfl
  · next he => cases he.symm.trans h

theorem expansions_of_unclosed (h : firstGroup ls = .ok (some (before, rest)))
    (hbody : groupBody 0 rest = none) : expansions ls = .error .unclosed := by
  rw [expansions]
  split
  · next he => cases he.symm.trans h
  · next he => cases he.symm.trans h
  · next he =>
    cases he.symm.trans h
    split
    · rfl
    · next hb => cases hb.symm.trans hbody

theorem expansions_of_group (h : firstGroup ls = .ok (some (before, rest)))
    (hbody : groupBody 0 rest = some (pieces, after)) :
    expansions ls = do
      let tails ← expansions after
      let heads ← pieces.mapM expansions
      return (followedBy [before] (followedBy (groupMeaning heads) tails)).eraseDups := by
  rw [expansions]
  split
  · next he => cases he.symm.trans h
  · next he => cases he.symm.trans h
  · next he =>
    cases he.symm.trans h
    split
    · next hb => cases hb.symm.trans hbody
    · next hb =>
      cases hb.symm.trans hbody
      rw [List.mapM_subtype (f := fun x => expansions x.1) fun p _ => rfl, List.unattach_attach]
      apply bind_congr
      intro tails
      apply bind_congr
      intro heads
      have hproduct (heads : List Text) :
          (heads.flatMap fun h => tails.map fun t => before ++ h ++ t) =
            followedBy [before] (followedBy heads tails) := by
        simp [followedBy, List.map_flatMap, Function.comp_def]
      simp only [hproduct]
      cases heads with
      | nil => rfl
      | cons inside more => cases more <;> rfl

end Expansions

theorem eraseDups_groupMeaning (tss : List (List Text)) :
    (groupMeaning (tss.map List.eraseDups)).eraseDups = (groupMeaning tss).eraseDups := by
  match tss with
  | [] => rfl
  | [ts] => exact eraseDups_map _ ts
  | ts :: us :: tss =>
    have h : ((ts :: us :: tss).flatMap List.eraseDups).eraseDups =
        ((ts :: us :: tss).flatMap id).eraseDups :=
      eraseDups_flatMap_congr fun ts _ => eraseDups_eraseDups ts
    rwa [List.flatMap_id, List.flatMap_def] at h

theorem eraseDups_followedBy {heads heads' tails tails' : List Text}
    (hheads : heads.eraseDups = heads'.eraseDups) (htails : tails.eraseDups = tails'.eraseDups) :
    (followedBy heads tails).eraseDups = (followedBy heads' tails').eraseDups := by
  have hleft (heads : List Text) :
      (followedBy heads tails).eraseDups = (followedBy heads.eraseDups tails).eraseDups :=
    (eraseDups_flatMap _ heads).symm
  rw [hleft, hheads, ← hleft]
  apply eraseDups_flatMap_congr
  intro h _
  rw [← eraseDups_map, htails, eraseDups_map]

theorem freeOfCommas_append {before ls : List Lexeme} (h : Literal before) :
    freeOfCommas 0 (before ++ ls) = (freeOfCommas 0 before && freeOfCommas 0 ls) := by
  induction before with
  | nil => rfl
  | cons l before ih =>
    obtain ⟨hl, hbefore⟩ := List.forall_mem_cons.1 h
    cases l with
    | opening => exact (hl.1 rfl).elim
    | closing => exact (hl.2 rfl).elim
    | comma => rfl
    | plain t => exact ih hbefore

theorem exists_stands {ps : List (List Lexeme)}
    (h : ∀ p ∈ ps, ∃ ts, expansions p = .ok ts.eraseDups ∧ Stands p ts ∧ Piece 0 p) :
    ∃ tss, ps.mapM expansions = .ok (tss.map List.eraseDups) ∧
      List.Forall₂ (fun p ts => Stands p ts ∧ Piece 0 p) ps tss := by
  induction ps with
  | nil => exact ⟨[], rfl, .nil⟩
  | cons p ps ih =>
    obtain ⟨⟨ts, hts, hp⟩, hps⟩ := List.forall_mem_cons.1 h
    obtain ⟨tss, htss, hstands⟩ := ih hps
    refine ⟨ts :: tss, ?_, .cons hp hstands⟩
    rw [List.mapM_cons, hts, htss]
    rfl

/-- Either both the expansion and the pass fail, and for the same reason, or the expansion finds
what the pass does, without repetitions. -/
theorem expansions_stands (ls : List Lexeme) :
    (∃ ts, expansions ls = .ok ts.eraseDups ∧ Stands ls ts) ∨
      ∃ fault, expansions ls = .error fault ∧ ∀ level, read level [] ls = .error fault := by
  induction ls using expansions.induct with
  | case1 ls fault hfirst =>
    refine .inr ⟨fault, expansions_of_strayClose hfirst, fun level => ?_⟩
    have hbrace := firstBrace ls
    rw [hfirst] at hbrace
    cases hbrace with
    | closing h hls => rw [hls, stands_of_literal h _ _ _ (.inl rfl), read]
  | case2 ls hfirst =>
    have hbrace := firstBrace ls
    rw [hfirst] at hbrace
    cases hbrace with
    | none h =>
      refine .inl ⟨[ls.flatMap Lexeme.text], ?_, stands_of_literal h⟩
      rw [expansions_of_literal hfirst, eraseDups_of_nodup (by simp)]
  | case3 ls before rest hfirst hbody =>
    refine .inr ⟨.unclosed, expansions_of_unclosed hfirst hbody, fun level => ?_⟩
    have hbrace := firstBrace ls
    rw [hfirst] at hbrace
    cases hbrace with
    | opening h hls =>
      rw [hls, stands_of_literal h _ _ _ (.inl rfl), read]
      exact read_of_groupBody_none hbody rfl
  | case4 ls before rest hfirst pieces after hbody ihafter ihpieces =>
    have hbrace := firstBrace ls
    rw [hfirst] at hbrace
    cases hbrace with
    | @opening pre _ hpre hls =>
      obtain ⟨p, ps, rfl, hrest, hp, hps⟩ := groupBody_some hbody
      -- The pieces of a group close what they open, so none of them fails.
      have hall : ∀ q ∈ p :: ps,
          ∃ us, expansions q = .ok us.eraseDups ∧ Stands q us ∧ Piece 0 q := by
        intro q hq
        have hpiece := List.forall_mem_cons.2 ⟨hp, hps⟩ q hq
        rcases ihpieces q hq with ⟨us, hus, hstands⟩ | ⟨fault, -, hfault⟩
        · exact ⟨us, hus, hstands, hpiece⟩
        · obtain ⟨us, hus⟩ := hpiece.read [[]] [] rfl
          cases hus.symm.trans (hfault [[]])
      obtain ⟨tss, htss, hstands⟩ := exists_stands hall
      have hgroup (level : List Text) (gs : List OpenGroup) (more : List Lexeme)
          (hcommas : gs = [] ∨ freeOfCommas 0 pre = true) : read level gs (ls ++ more) =
            read (followedBy level (followedBy [pre.flatMap Lexeme.text] (groupMeaning tss))) gs
              (after ++ more) := by
        rw [← read_to_group hpre hstands hcommas, hls, hrest]
        simp only [List.append_assoc, List.cons_append]
      rcases ihafter with ⟨us, hus, hafter⟩ | ⟨fault, hfault, hread⟩
      · refine .inl ⟨followedBy [pre.flatMap Lexeme.text] (followedBy (groupMeaning tss) us),
          ?_, ?_⟩
        · rw [expansions_of_group hfirst hbody, hus, htss]
          exact congrArg Except.ok (eraseDups_followedBy rfl (eraseDups_followedBy
            (eraseDups_groupMeaning tss) (eraseDups_eraseDups us)))
        · intro level gs more hcommas
          have hparts : gs = [] ∨ freeOfCommas 0 pre = true ∧ freeOfCommas 0 after = true := by
            rcases hcommas with h | h
            · exact .inl h
            · rw [hls, freeOfCommas_append hpre, Bool.and_eq_true] at h
              exact .inr ⟨h.1, freeOfCommas_of_groupBody hbody h.2⟩
          rw [hgroup level gs more (hparts.imp_right And.left),
            hafter _ gs more (hparts.imp_right And.right), followedBy_assoc, followedBy_assoc]
      · refine .inr ⟨fault, ?_, fun level => ?_⟩
        · rw [expansions_of_group hfirst hbody, hfault]
          rfl
        · have hpass := hgroup level [] [] (.inl rfl)
          rw [List.append_nil, List.append_nil] at hpass
          rw [hpass, hread]

theorem expansions_eq (ls : List Lexeme) :
    expansions ls = (read [[]] [] ls).map List.eraseDups := by
  rcases expansions_stands ls with ⟨ts, hts, hstands⟩ | ⟨fault, hfault, hread⟩
  · have hread := hstands [[]] [] [] (.inl rfl)
    rw [List.append_nil, empty_followedBy] at hread
    rw [hts, hread]
    rfl
  · rw [hfault, hread]
    rfl

/-- Expansion gives what a pattern means, without the repetitions. It fails, and then names the
whole pattern, exactly if the braces of the pattern are not balanced. -/
theorem expand_iff_means (t : Text) :
    (∀ es, Pattern.expand t = .ok es ↔ ∃ ts, Means false t ts ∧ es = ts.eraseDups) ∧
      ((∃ fault, Pattern.expand t = .error (.pattern t (.braces fault))) ↔ ¬ Balanced t) ∧
      (Balanced t ↔ ∃! ts, Means false t ts) := by
  have hexpand : Pattern.expand t = ((read [[]] [] (lexemes t)).map List.eraseDups).mapError
      fun fault => .pattern t (.braces fault) := by
    rw [Pattern.expand, Braces.expand, expansions_eq]
  cases hread : read [[]] [] (lexemes t) with
  | ok ts =>
    have hmeans : Means false t ts := read_eq_ok_iff.1 hread
    have hbalanced : Balanced t := read_isOk_iff.1 ⟨ts, hread⟩
    rw [hread] at hexpand
    refine ⟨fun es => ?_, ?_, balanced_iff_existsUnique⟩
    · rw [hexpand]
      constructor
      · intro h
        cases h
        exact ⟨ts, hmeans, rfl⟩
      · rintro ⟨us, hus, rfl⟩
        cases hread.symm.trans (read_eq_ok_iff.2 hus)
        rfl
    · rw [hexpand]
      exact ⟨nofun, fun h => (h hbalanced).elim⟩
  | error fault =>
    have hnone (ts : List Text) : ¬ Means false t ts :=
      fun h => nomatch hread.symm.trans (read_eq_ok_iff.2 h)
    rw [hread] at hexpand
    refine ⟨fun es => ?_, ?_, balanced_iff_existsUnique⟩
    · rw [hexpand]
      exact ⟨nofun, fun ⟨ts, h, _⟩ => (hnone ts h).elim⟩
    · refine ⟨fun _ h => ?_, fun _ => ⟨fault, hexpand⟩⟩
      obtain ⟨ts, hts⟩ := exists_means h
      exact hnone ts hts

end PathSelection.Braces
