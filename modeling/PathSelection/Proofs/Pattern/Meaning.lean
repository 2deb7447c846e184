import PathSelection.Pattern.Braces
import Mathlib.Logic.ExistsUnique

namespace PathSelection.Braces

/-- Each text of one list before each of another, all with the first text coming first. -/
def followedBy (heads tails : List Text) : List Text := heads.flatMap fun h => tails.map (h ++ ·)

/-- What a group stands for, by what its alternatives stand for: a single one keeps its braces. -/
def groupMeaning : List (List Text) → List Text
  | [inside] => inside.map fun t => '{' :: t ++ ['}']
  | alternatives => alternatives.flatten

mutual

/-- A pattern, or a piece of one that lies in a group and has no comma of its own, stands for some
texts in this order. -/
inductive Means : (inGroup : Bool) → Text → List Text → Prop
  | nothing {inGroup : Bool} : Means inGroup [] [[]]
  | character {inGroup : Bool} {c : Char} {t : Text} {ts : List Text}
    (hc : c ≠ '\\' ∧ c ≠ '{' ∧ c ≠ '}') (hcomma : inGroup = true → c ≠ ',')
    (ht : Means inGroup t ts) : Means inGroup (c :: t) (followedBy [[c]] ts)
  | escaped {inGroup : Bool} {c : Char} {t : Text} {ts : List Text} (ht : Means inGroup t ts) :
    Means inGroup ('\\' :: c :: t) (followedBy [['\\', c]] ts)
  | lastBackslash : Means false ['\\'] [['\\']]
  | group {inGroup : Bool} {inside t : Text} {alternatives : List (List Text)} {ts : List Text}
    (ha : Alternatives inside alternatives) (ht : Means inGroup t ts) :
    Means inGroup ('{' :: inside ++ '}' :: t) (followedBy (groupMeaning alternatives) ts)

/-- The inside of a group holds alternatives that stand for some texts each. -/
inductive Alternatives : Text → List (List Text) → Prop
  | last {t : Text} {ts : List Text} (ht : Means true t ts) : Alternatives t [ts]
  | more {t inside : Text} {ts : List Text} {alternatives : List (List Text)}
    (ht : Means true t ts) (ha : Alternatives inside alternatives) :
    Alternatives (t ++ ',' :: inside) (ts :: alternatives)

end

/-- Whether the braces of a text close what is open before it, and no more; a backslash takes the
next character away. -/
def closes : (depth : Nat) → Text → Bool
  | depth, [] => depth == 0
  | depth, '\\' :: _ :: cs => closes depth cs
  | depth, '{' :: cs => closes (depth + 1) cs
  | 0, '}' :: _ => false
  | depth + 1, '}' :: cs => closes depth cs
  | depth, _ :: cs => closes depth cs

def Balanced (t : Text) : Prop := closes 0 t = true

/-- A group that is still open: what stands before it at its own level, and the alternatives that
are complete. -/
structure OpenGroup where
  before : List Text
  alternatives : List (List Text)

/-- Reads a pattern in one pass. The level is what has been read since the last brace or comma
that counts. -/
def read (level : List Text) : List OpenGroup → List Lexeme → Except Fault (List Text)
  | [], [] => .ok level
  | _ :: _, [] => .error .unclosed
  | gs, .plain t :: ls => read (followedBy level [t]) gs ls
  | gs, .opening :: ls => read [[]] (⟨level, []⟩ :: gs) ls
  | [], .comma :: ls => read (followedBy level [[',']]) [] ls
  | g :: gs, .comma :: ls => read [[]] (⟨g.before, g.alternatives ++ [level]⟩ :: gs) ls
  | [], .closing :: _ => .error .strayClose
  | g :: gs, .closing :: ls =>
    read (followedBy g.before (groupMeaning (g.alternatives ++ [level]))) gs ls

section FollowedBy

variable {xs ys zs : List Text}

@[simp] theorem empty_followedBy : followedBy [[]] xs = xs := by
  simp [followedBy]

@[simp] theorem followedBy_empty : followedBy xs [[]] = xs := by
  simp [followedBy]

theorem followedBy_assoc :
    followedBy (followedBy xs ys) zs = followedBy xs (followedBy ys zs) := by
  simp [followedBy, List.flatMap_assoc, List.map_flatMap, List.flatMap_map, Function.comp_def]

end FollowedBy

theorem lexemes_character {c : Char} {t : Text} (hc : c ≠ '\\' ∧ c ≠ '{' ∧ c ≠ '}') :
    lexemes (c :: t) = (if c = ',' then .comma else .plain [c]) :: lexemes t := by
  obtain ⟨hb, ho, hcl⟩ := hc
  by_cases hcomma : c = ','
  · rw [hcomma, if_pos rfl, lexemes]
  · rw [if_neg hcomma, lexemes]
    · exact fun h _ => hb h
    · exact fun _ _ h _ => hb h
    · exact ho
    · exact hcl
    · exact hcomma

theorem lexemes_backslash (c : Char) (t : Text) :
    lexemes ('\\' :: c :: t) = .plain ['\\', c] :: lexemes t := by
  rw [lexemes]

theorem Means.read {inGroup : Bool} {t : Text} {ts : List Text} (h : Means inGroup t ts) :
    ∀ level gs more, inGroup = true ∨ gs = [] ∧ more = [] →
      Braces.read level gs (lexemes (t ++ more)) =
        Braces.read (followedBy level ts) gs (lexemes more) := by
  -- A pass over the inside of a group closes the group.
  refine @Means.rec
    (fun inGroup t ts _ => ∀ level gs more, inGroup = true ∨ gs = [] ∧ more = [] →
      Braces.read level gs (lexemes (t ++ more)) =
        Braces.read (followedBy level ts) gs (lexemes more))
    (fun inside alternatives _ => ∀ g gs more,
      Braces.read [[]] (g :: gs) (lexemes (inside ++ '}' :: more)) =
        Braces.read (followedBy g.before (groupMeaning (g.alternatives ++ alternatives))) gs
          (lexemes more))
    ?nothing ?character ?escaped ?lastBackslash ?group ?last ?more inGroup t ts h
  case nothing =>
    intro _ level gs more _
    rw [followedBy_empty, List.nil_append]
  case character =>
    intro inGroup c t ts hc hcomma ht ih level gs more hmore
    rw [List.cons_append, lexemes_character hc, ← followedBy_assoc, ← ih _ gs more hmore]
    by_cases h : c = ','
    · rcases hmore with hg | ⟨rfl, -⟩
      · exact (hcomma hg h).elim
      · rw [if_pos h, Braces.read, h]
    · rw [if_neg h, Braces.read]
  case escaped =>
    intro _ c t ts ht ih level gs more hmore
    rw [List.cons_append, List.cons_append, lexemes_backslash, Braces.read, ih _ gs more hmore,
      followedBy_assoc]
  case lastBackslash =>
    intro level gs more hmore
    rcases hmore with h | ⟨rfl, rfl⟩
    · cases h
    · rfl
  case group =>
    intro _ inside t alternatives ts ha ht iha iht level gs more hmore
    rw [List.append_assoc, List.cons_append, List.cons_append, lexemes, Braces.read, iha,
      iht _ gs more hmore, followedBy_assoc]
    rfl
  case last =>
    intro t ts ht ih g gs more
    rw [ih _ _ _ (.inl rfl), empty_followedBy, lexemes, Braces.read]
  case more =>
    intro t inside ts alternatives ht ha iht iha g gs more
    rw [List.append_assoc, iht _ _ _ (.inl rfl), List.cons_append, lexemes, Braces.read, iha,
      empty_followedBy, List.append_assoc]
    rfl

theorem closes_character {depth : Nat} {c : Char} {t : Text}
    (hc : c ≠ '\\' ∧ c ≠ '{' ∧ c ≠ '}') : closes depth (c :: t) = closes depth t := by
  obtain ⟨hb, ho, hcl⟩ := hc
  rw [closes]
  · exact fun _ _ h _ => hb h
  · exact ho
  · exact fun _ => hcl
  · exact fun _ _ => hcl

/-- A text is read piece by piece: a backslash with what it escapes, a brace, another character. -/
@[elab_as_elim]
theorem piecewise {motive : Text → Prop} (t : Text) (nothing : motive [])
    (lastBackslash : motive ['\\']) (escaped : ∀ c cs, motive cs → motive ('\\' :: c :: cs))
    (opening : ∀ cs, motive cs → motive ('{' :: cs))
    (closing : ∀ cs, motive cs → motive ('}' :: cs))
    (character : ∀ c cs, c ≠ '\\' ∧ c ≠ '{' ∧ c ≠ '}' → motive cs → motive (c :: cs)) :
    motive t := by
  induction t using lexemes.induct with
  | case1 => exact nothing
  | case2 => exact lastBackslash
  | case3 c cs ih => exact escaped c cs ih
  | case4 cs ih => exact opening cs ih
  | case5 cs ih => exact closing cs ih
  | case6 cs ih => exact character ',' cs (by decide) ih
  | case7 c cs hlast hescape ho hcl hcomma ih =>
    refine character c cs ⟨fun hb => ?_, ho, hcl⟩ ih
    cases cs with
    | nil => exact hlast hb rfl
    | cons c' cs => exact hescape c' cs hb rfl

theorem read_isOk_iff {level : List Text} {gs : List OpenGroup} {t : Text} :
    (∃ ts, read level gs (lexemes t) = .ok ts) ↔ closes gs.length t = true := by
  induction t using piecewise generalizing level gs with
  | nothing => cases gs <;> simp [lexemes, read, closes]
  | lastBackslash => cases gs <;> simp [lexemes, read, closes]
  | escaped c cs ih =>
    rw [lexemes_backslash, read, closes]
    exact ih
  | opening cs ih =>
    rw [lexemes, read, closes]
    exact ih
  | closing cs ih =>
    cases gs with
    | nil => simp [lexemes, read, closes]
    | cons g gs =>
      rw [lexemes, read, List.length_cons, closes]
      exact ih
  | character c cs hc ih =>
    rw [lexemes_character hc, closes_character hc]
    by_cases h : c = ','
    · rw [if_pos h]
      cases gs with
      | nil => exact @ih _ []
      | cons g gs => exact @ih _ (_ :: gs)
    · rw [if_neg h, read]
      exact ih

theorem Alternatives.character {c : Char} {inside : Text} {alternatives : List (List Text)}
    (hc : c ≠ '\\' ∧ c ≠ '{' ∧ c ≠ '}') (h : Alternatives inside alternatives) :
    ∃ as, Alternatives (c :: inside) as := by
  by_cases hcomma : c = ','
  · rw [hcomma]
    exact ⟨_, .more .nothing h⟩
  · cases h with
    | last ht => exact ⟨_, .last (.character hc (fun _ => hcomma) ht)⟩
    | more ht ha => exact ⟨_, .more (.character hc (fun _ => hcomma) ht) ha⟩

theorem Alternatives.escaped {c : Char} {inside : Text} {alternatives : List (List Text)}
    (h : Alternatives inside alternatives) : ∃ as, Alternatives ('\\' :: c :: inside) as := by
  cases h with
  | last ht => exact ⟨_, .last (.escaped ht)⟩
  | more ht ha => exact ⟨_, .more (.escaped ht) ha⟩

theorem Alternatives.group {nested inside : Text} {as alternatives : List (List Text)}
    (ha : Alternatives nested as) (h : Alternatives inside alternatives) :
    ∃ as, Alternatives ('{' :: nested ++ '}' :: inside) as := by
  cases h with
  | last ht => exact ⟨_, .last (.group ha ht)⟩
  | @more t inside ts alternatives ht h =>
    have hgroup := Alternatives.more (.group ha ht) h
    rw [List.append_assoc, List.cons_append] at hgroup
    exact ⟨_, hgroup⟩

theorem exists_alternatives {depth : Nat} {t : Text} (h : closes (depth + 1) t = true) :
    ∃ inside alternatives rest, t = inside ++ '}' :: rest ∧ Alternatives inside alternatives ∧
      closes depth rest = true := by
  -- After a group in the text comes a rest that is shorter, but no tail: hence by length.
  induction hn : t.length using Nat.strongRecOn generalizing depth t with
  | ind n ih =>
    subst hn
    cases t using piecewise with
    | nothing => cases h
    | lastBackslash => cases h
    | escaped c cs =>
      rw [closes] at h
      obtain ⟨inside, as, rest, rfl, ha, hr⟩ :=
        ih cs.length (by simp only [List.length_cons]; omega) h rfl
      obtain ⟨as, ha⟩ := ha.escaped
      exact ⟨_, as, rest, rfl, ha, hr⟩
    | opening cs =>
      rw [closes] at h
      obtain ⟨nested, as, rest, rfl, hnested, hr⟩ := ih cs.length (by simp) h rfl
      obtain ⟨inside, alternatives, rest', rfl, ha, hr'⟩ :=
        ih rest.length (by simp; omega) hr rfl
      obtain ⟨as, ha⟩ := hnested.group ha
      exact ⟨_, as, rest', by simp, ha, hr'⟩
    | closing cs =>
      rw [closes] at h
      exact ⟨[], _, cs, rfl, .last .nothing, h⟩
    | character c cs hc =>
      rw [closes_character hc] at h
      obtain ⟨inside, as, rest, rfl, ha, hr⟩ := ih cs.length (by simp) h rfl
      obtain ⟨as, ha⟩ := ha.character hc
      exact ⟨_, as, rest, rfl, ha, hr⟩

theorem exists_means {t : Text} (h : Balanced t) : ∃ ts, Means false t ts := by
  unfold Balanced at h
  induction hn : t.length using Nat.strongRecOn generalizing t with
  | ind n ih =>
    subst hn
    cases t using piecewise with
    | nothing => exact ⟨_, .nothing⟩
    | lastBackslash => exact ⟨_, .lastBackslash⟩
    | escaped c cs =>
      rw [closes] at h
      obtain ⟨ts, ht⟩ := ih cs.length (by simp only [List.length_cons]; omega) h rfl
      exact ⟨_, .escaped ht⟩
    | opening cs =>
      rw [closes] at h
      obtain ⟨inside, alternatives, rest, rfl, ha, hr⟩ := exists_alternatives h
      obtain ⟨ts, ht⟩ := ih rest.length (by simp; omega) hr rfl
      exact ⟨_, .group ha ht⟩
    | closing cs => cases h
    | character c cs hc =>
      rw [closes_character hc] at h
      obtain ⟨ts, ht⟩ := ih cs.length (by simp) h rfl
      exact ⟨_, .character hc nofun ht⟩

theorem read_eq_ok_iff {t : Text} {ts : List Text} :
    read [[]] [] (lexemes t) = .ok ts ↔ Means false t ts := by
  have hread {ts : List Text} (h : Means false t ts) : read [[]] [] (lexemes t) = .ok ts := by
    have hpass := h.read [[]] [] [] (.inr ⟨rfl, rfl⟩)
    rw [List.append_nil, empty_followedBy] at hpass
    exact hpass
  constructor
  · intro h
    obtain ⟨us, hu⟩ := exists_means (read_isOk_iff.1 ⟨ts, h⟩)
    cases h.symm.trans (hread hu)
    exact hu
  · exact hread

theorem balanced_iff_existsUnique {t : Text} : Balanced t ↔ ∃! ts, Means false t ts := by
  constructor
  · intro h
    obtain ⟨ts, ht⟩ := exists_means h
    refine ⟨ts, ht, fun us hu => ?_⟩
    exact Except.ok.inj ((read_eq_ok_iff.2 hu).symm.trans (read_eq_ok_iff.2 ht))
  · rintro ⟨ts, ht, -⟩
    exact read_isOk_iff.1 ⟨ts, read_eq_ok_iff.2 ht⟩

end PathSelection.Braces
