import PathSelection.Proofs.Rule.Language

namespace PathSelection

/-- How the text of a directory ends. The directory that rules are relative to has an empty text. -/
def AtDirectory (t : Text) : Prop := t = [] ∨ t.getLast? = some '/'

theorem AtDirectory.of_append {t u : Text} (h : AtDirectory (t ++ u)) : AtDirectory u := by
  by_cases hu : u = []
  · exact .inl hu
  · rcases h with h | h
    · exact (hu (List.append_eq_nil_iff.1 h).2).elim
    · rw [List.getLast?_append_of_ne_nil _ hu] at h
      exact .inr h

theorem AtDirectory.eq_nil {t : Text} (h : AtDirectory t) (hslash : '/' ∉ t) : t = [] := by
  rcases h with h | h
  · exact h
  · exact (hslash (List.mem_of_getLast? h)).elim

/-- With the text of a directory, the language holds every text that goes on from it. -/
def HandsDown (L : Language Char) : Prop := ∀ t ∈ L, AtDirectory t → ∀ u, t ++ u ∈ L

/-- With any text, the language holds that of a directory above it. -/
def ThroughDirectory (L : Language Char) : Prop :=
  ∀ t ∈ L, ∃ u v, t = u ++ '/' :: v ∧ u ++ ['/'] ∈ L

theorem HandsDown.mul (K : Language Char) {L : Language Char} (hL : HandsDown L) :
    HandsDown (K * L) := by
  rintro _ ⟨s, hs, t, ht, rfl⟩ hd u
  have hrest := hL t ht hd.of_append u
  change (s ++ t) ++ u ∈ K * L
  rw [List.append_assoc]
  exact Language.append_mem_mul hs hrest

theorem ThroughDirectory.mul (K : Language Char) {L : Language Char} (hL : ThroughDirectory L) :
    ThroughDirectory (K * L) := by
  rintro _ ⟨s, hs, t, ht, rfl⟩
  obtain ⟨u, v, rfl, hu⟩ := hL t ht
  refine ⟨s ++ u, v, (List.append_assoc _ _ _).symm, ?_⟩
  rw [List.append_assoc]
  exact Language.append_mem_mul hs hu

namespace Token

def spansSlash : Token → Bool
  | .literal c => c == '/'
  | .oneOf k => k.holds '/'
  | .anyOne | .anyRun => false

variable {ts : List Token}

theorem slash_not_mem_language {token : Token} (h : token.spansSlash = false) {t : Text}
    (ht : t ∈ token.language) : '/' ∉ t := by
  have hone {test : Char → Bool} (htest : test '/' = false)
      (ht : t ∈ PathSelection.oneOf test) : '/' ∉ t := by
    obtain ⟨c, hc, rfl⟩ := ht
    intro hm
    obtain rfl := List.mem_singleton.1 hm
    rw [htest] at hc
    cases hc
  cases token with
  | literal c =>
    refine hone ?_ ht
    rw [spansSlash, beq_eq_false_iff_ne] at h
    exact beq_eq_false_iff_ne.2 h.symm
  | anyOne => exact hone rfl ht
  | anyRun => exact fun hm => absurd (ht '/' hm) (by decide)
  | oneOf k => exact hone h ht

theorem slash_not_mem_spelled (h : ∀ token ∈ ts, token.spansSlash = false) {t : Text}
    (ht : t ∈ spelled ts) : '/' ∉ t := by
  induction ts generalizing t with
  | nil =>
    obtain rfl : t = [] := ht
    exact List.not_mem_nil
  | cons token ts ih =>
    obtain ⟨htoken, hts⟩ := List.forall_mem_cons.1 h
    rw [spelled_cons] at ht
    obtain ⟨u, hu, v, hv, rfl⟩ := Language.mem_mul.1 ht
    intro hm
    rcases List.mem_append.1 hm with hm | hm
    · exact slash_not_mem_language htoken hu hm
    · exact ih hts hv hm

theorem mem_spelled_of_nil (hts : ts ≠ []) (h : [] ∈ spelled ts) {t : Text} (ht : '/' ∉ t) :
    t ∈ spelled ts := by
  obtain ⟨token, ts, rfl⟩ := List.exists_cons_of_ne_nil hts
  rw [spelled_cons] at h ⊢
  obtain ⟨u, hu, v, hv, he⟩ := Language.mem_mul.1 h
  obtain ⟨rfl, rfl⟩ := List.append_eq_nil_iff.1 he
  have hone {test : Char → Bool} (h : [] ∈ PathSelection.oneOf test) : False := by
    obtain ⟨c, -, hc⟩ := h
    cases hc
  cases token with
  | literal c => exact (hone hu).elim
  | anyOne => exact (hone hu).elim
  | oneOf k => exact (hone hu).elim
  | anyRun =>
    have hrun : t ∈ language .anyRun := by
      intro c hc
      exact bne_iff_ne.2 fun he => ht (he ▸ hc)
    have happend := Language.append_mem_mul hrun hv
    rwa [List.append_nil] at happend

end Token

/-- Whether a segment at the end of a rule leaves the slash after a name alone. -/
def Segment.StaysInName : Segment → Prop
  | .anyDepth | .anyName => True
  | .glob ts => ts ≠ [] ∧ ∀ token ∈ ts, token.spansSlash = false

namespace Rule

variable {dirOnly : Bool} {s : Segment}

theorem handsDown_spelled_ending {ts : List Token} (hts : ts ≠ [])
    (h : ∀ token ∈ ts, token.spansSlash = false) :
    HandsDown (Token.spelled ts * found ending) := by
  intro t ht hd u
  obtain ⟨name, hname, rest, hrest, rfl⟩ := Language.mem_mul.1 ht
  have hslash := Token.slash_not_mem_spelled h hname
  rw [mem_found] at hrest
  unfold ending at hrest
  split at hrest
  · next cs =>
    rw [List.append_assoc]
    exact Language.append_mem_mul hname rfl
  · -- The text is empty, so the tokens are runs and take the first name of what follows.
    rw [List.append_nil] at hd ⊢
    obtain rfl := hd.eq_nil hslash
    rw [List.nil_append]
    by_cases hu : '/' ∈ u
    · obtain ⟨first, more, rfl, hfirst⟩ := List.eq_append_cons_of_mem hu
      exact Language.append_mem_mul (Token.mem_spelled_of_nil hts hname hfirst) rfl
    · rw [← List.append_nil u]
      exact Language.append_mem_mul (Token.mem_spelled_of_nil hts hname hu) rfl
  · rcases hd.of_append with h | h <;> cases h
  · cases hrest

-- Whatever a rule says before its last segment, it is found in a product that ends in what the
-- last segment is found in by itself.

theorem exists_found_following (dirOnly : Bool) (init : List Segment) (s : Segment) :
    ∃ K, found (following dirOnly (init ++ [s])) = K * found (anchored dirOnly [s]) := by
  induction init with
  | nil =>
    by_cases hs : s = .anyDepth
    · rw [hs]
      exact ⟨1, (one_mul _).symm⟩
    · rw [List.nil_append, found_following hs, found_anchored hs]
      exact ⟨slash, rfl⟩
  | cons x init ih =>
    obtain ⟨K, hK⟩ := ih
    by_cases hx : x = .anyDepth
    · rw [hx, List.cons_append, found_following_anyDepth (by simp), hK, ← mul_assoc]
      exact ⟨_, rfl⟩
    · rw [List.cons_append, found_following hx, hK, ← mul_assoc, ← mul_assoc]
      exact ⟨_, rfl⟩

theorem exists_found_anchored (dirOnly : Bool) (init : List Segment) (s : Segment) :
    ∃ K, found (anchored dirOnly (init ++ [s])) = K * found (anchored dirOnly [s]) := by
  cases init with
  | nil => exact ⟨1, (one_mul _).symm⟩
  | cons x init =>
    by_cases hx : x = .anyDepth
    · rw [hx]
      exact exists_found_following dirOnly (.anyDepth :: init) s
    · obtain ⟨K, hK⟩ := exists_found_following dirOnly init s
      rw [List.cons_append, found_anchored hx, hK, ← mul_assoc]
      exact ⟨_, rfl⟩

/-- How a rule is searched whose last segment is given. -/
inductive Searched (r : Rule) (last : Segment) : Prop
  | anySlash (h : found r.search = {t | '/' ∈ t})
  | anyCharacter (h : found r.search = {t | t.any isInline = true})
    (hlast : last = .anyDepth → r.dirOnly = false)
  | product (K : Language Char) (h : found r.search = K * found (anchored r.dirOnly [last]))

theorem searched_rule {r : Rule} {init : List Segment} {last : Segment}
    (hr : r.segments = init ++ [last]) : Searched r last := by
  by_cases hdepth : r.segments = [.anyDepth]
  · cases hdir : r.dirOnly with
    | true =>
      have hsearch : r.search = fun t => if '/' ∈ t then some .throughDirectory else none := by
        funext t
        simp only [search, hdepth, hdir, if_true]
      exact .anySlash (by rw [hsearch, found_guard])
    | false =>
      have hsearch : r.search = fun t => if t.any isInline then some .direct else none := by
        funext t
        simp only [search, hdepth, hdir, Bool.false_eq_true, if_false]
      exact .anyCharacter (by rw [hsearch, found_guard]) fun _ => hdir
  by_cases hname : r.segments = [.anyDepth, .anyName]
  · have hsearch : r.search = fun t => if t.any isInline then some .direct else none := by
      funext t
      simp only [search, hname]
    refine .anyCharacter (by rw [hsearch, found_guard]) ?_
    rintro rfl
    obtain ⟨-, h⟩ := List.append_inj' (hr.symm.trans hname : init ++ _ = [.anyDepth] ++ _) rfl
    cases h
  by_cases hboth : r.segments = [.anyDepth, .anyName, .anyDepth]
  · have hsearch : r.search = fun t => if '/' ∈ t then some (beneath r.dirOnly) else none := by
      funext t
      simp only [search, hboth]
    exact .anySlash (by rw [hsearch, found_guard])
  by_cases hfloat : ∃ rest, r.segments = .anyDepth :: rest
  · obtain ⟨rest, hrest⟩ := hfloat
    have hsearch : r.search = Rule.floating r.dirOnly rest := by
      funext t
      unfold search
      split
      · next h => exact (hdepth h).elim
      · next h => exact (hname h).elim
      · next h => exact (hboth h).elim
      · next h =>
        cases hrest.symm.trans h
        rfl
      · next h => exact (h rest hrest).elim
    have hne : rest ≠ [] := fun hnil => hdepth (by rw [hrest, hnil])
    obtain ⟨init', last', rfl⟩ := (List.eq_nil_or_concat' rest).resolve_left hne
    obtain ⟨-, hlast⟩ :=
      List.append_inj' (hr.symm.trans hrest : init ++ _ = (.anyDepth :: init') ++ _) rfl
    cases hlast
    obtain ⟨K, hK⟩ := exists_found_anchored r.dirOnly init' last
    refine .product ((Segment.anyDepth.language * slash + 1) * K) ?_
    rw [hsearch, found_floating, hK, mul_assoc]
  · have hsearch : r.search = anchored r.dirOnly r.segments := by
      funext t
      unfold search
      split
      · next h => exact (hdepth h).elim
      · next h => exact (hname h).elim
      · next h => exact (hboth h).elim
      · next h => exact (hfloat ⟨_, h⟩).elim
      · rfl
    obtain ⟨K, hK⟩ := exists_found_anchored r.dirOnly init last
    exact .product K (by rw [hsearch, hr, hK])

theorem handsDown_anchored (h : s.StaysInName) : HandsDown (found (anchored dirOnly [s])) := by
  cases s with
  | anyDepth =>
    change HandsDown (found (following dirOnly [.anyDepth]))
    rw [found_following_beneath]
    exact .mul _ fun _ _ _ _ => trivial
  | anyName =>
    -- Any one name is any one character and then a run.
    have hname : HandsDown (Token.spelled [.anyOne, .anyRun] * found ending) :=
      handsDown_spelled_ending (by decide) (by decide)
    have hsame : Segment.anyName.language = Token.spelled [.anyOne, .anyRun] := by
      rw [Token.spelled_cons, Token.spelled_cons, Segment.language]
      exact congrArg _ (mul_one _).symm
    rw [found_anchored (by simp), hsame]
    exact hname
  | glob ts =>
    rw [found_anchored (by simp)]
    exact handsDown_spelled_ending h.1 h.2

theorem throughDirectory_anchored :
    ThroughDirectory (found (anchored dirOnly [.anyDepth])) := by
  change ThroughDirectory (found (following dirOnly [.anyDepth]))
  rw [found_following_beneath]
  rintro _ ⟨_, rfl, v, -, rfl⟩
  exact ⟨[], v, rfl, ['/'], rfl, [], trivial, rfl⟩

variable {r : Rule} {init : List Segment}

theorem handsDown_search (hr : r.segments = init ++ [s]) (h : s.StaysInName) :
    HandsDown (found r.search) := by
  cases searched_rule hr with
  | anySlash hfound =>
    rw [hfound]
    exact fun t ht _ u => List.mem_append_left u ht
  | anyCharacter hfound =>
    rw [hfound]
    intro t ht _ u
    change (t ++ u).any isInline = true
    rw [List.any_append, Bool.or_eq_true]
    exact .inl ht
  | product K hfound =>
    rw [hfound]
    exact .mul K (handsDown_anchored h)

theorem throughDirectory_search (hr : r.segments = init ++ [.anyDepth]) (hdir : r.dirOnly = true) :
    ThroughDirectory (found r.search) := by
  cases searched_rule hr with
  | anySlash hfound =>
    rw [hfound]
    intro t ht
    obtain ⟨u, v, rfl⟩ := List.append_of_mem ht
    exact ⟨u, v, rfl, List.mem_append_right u List.mem_cons_self⟩
  | anyCharacter hfound hlast =>
    cases hdir.symm.trans (hlast rfl)
  | product K hfound =>
    rw [hfound]
    exact .mul K throughDirectory_anchored

end Rule
end PathSelection
