import PathSelection.Text.Basic

namespace PathSelection.Braces

inductive Fault where
  | strayClose
  | unclosed
deriving DecidableEq, Repr

/-- A pattern is read as braces, commas and plain text; an escaped character is plain text. -/
inductive Lexeme where
  | opening
  | closing
  | comma
  | plain (t : Text)
deriving DecidableEq, Repr

def Lexeme.text : Lexeme → Text
  | .opening => ['{']
  | .closing => ['}']
  | .comma => [',']
  | .plain t => t

def Lexeme.depthAfter (d : Nat) : Lexeme → Nat
  | .opening => d + 1
  | .closing => d - 1
  | _ => d

/-- The lexemes of a pattern. A backslash at the very end is plain text by itself. -/
def lexemes : Text → List Lexeme
  | [] => []
  | ['\\'] => [.plain ['\\']]
  | '\\' :: c :: cs => .plain ['\\', c] :: lexemes cs
  | '{' :: cs => .opening :: lexemes cs
  | '}' :: cs => .closing :: lexemes cs
  | ',' :: cs => .comma :: lexemes cs
  | c :: cs => .plain [c] :: lexemes cs

/-- Cuts at the first opening brace: the text before it, and what follows it. -/
def firstGroup : List Lexeme → Except Fault (Option (Text × List Lexeme))
  | [] => .ok none
  | .opening :: ls => .ok (some ([], ls))
  | .closing :: _ => .error .strayClose
  | l :: ls => do
    let cut ← firstGroup ls
    return cut.map fun (before, rest) => (l.text ++ before, rest)

/-- Reads a group up to the brace that closes it: the pieces between its own commas, and what
follows the group. The depth counts the groups open inside it. -/
def groupBody : (depth : Nat) → List Lexeme → Option (List (List Lexeme) × List Lexeme)
  | _, [] => none
  | 0, .closing :: ls => some ([[]], ls)
  | 0, .comma :: ls => do
    let (pieces, rest) ← groupBody 0 ls
    return ([] :: pieces, rest)
  | d, l :: ls => do
    let (pieces, rest) ← groupBody (l.depthAfter d) ls
    return (pieces.modifyHead (l :: ·), rest)

theorem firstGroup_length {ls rest : List Lexeme} {before : Text}
    (h : firstGroup ls = .ok (some (before, rest))) : rest.length < ls.length := by
  fun_induction firstGroup ls generalizing before with
  | case1 => simp at h
  | case2 ls =>
    simp only [Except.ok.injEq, Option.some.injEq, Prod.mk.injEq] at h
    simp [h.2]
  | case3 => simp at h
  | case4 l ls _ _ ih =>
    cases hc : firstGroup ls with
    | error e => simp [hc, bind, Except.bind] at h
    | ok cut =>
      cases cut with
      | none => simp [hc, bind, Except.bind, pure, Except.pure] at h
      | some p =>
        simp only [hc, bind, Except.bind, pure, Except.pure, Option.map_some, Except.ok.injEq,
          Option.some.injEq, Prod.mk.injEq] at h
        have := ih (show firstGroup ls = .ok (some (p.1, rest)) by rw [hc, ← h.2])
        simp only [List.length_cons]
        omega

theorem groupBody_length {d : Nat} {ls rest : List Lexeme} {pieces : List (List Lexeme)}
    (h : groupBody d ls = some (pieces, rest)) :
    rest.length < ls.length ∧ ∀ p ∈ pieces, p.length < ls.length := by
  fun_induction groupBody d ls generalizing pieces rest with
  | case1 => simp at h
  | case2 ls =>
    simp only [Option.some.injEq, Prod.mk.injEq] at h
    obtain ⟨rfl, rfl⟩ := h
    simp
  | case3 ls ih =>
    simp only [Option.bind_eq_bind, Option.bind_eq_some_iff, Option.pure_def,
      Option.some.injEq, Prod.mk.injEq, Prod.exists] at h
    obtain ⟨ps, r, hr, rfl, rfl⟩ := h
    have := ih hr
    simp only [List.length_cons, List.mem_cons, forall_eq_or_imp, List.length_nil]
    exact ⟨by omega, by omega, fun p hp => by have := this.2 p hp; omega⟩
  | case4 d l ls _ _ ih =>
    simp only [Option.bind_eq_bind, Option.bind_eq_some_iff, Option.pure_def,
      Option.some.injEq, Prod.mk.injEq, Prod.exists] at h
    obtain ⟨ps, r, hr, rfl, rfl⟩ := h
    have := ih hr
    refine ⟨by simp only [List.length_cons]; omega, fun p hp => ?_⟩
    cases ps with
    | nil => simp at hp
    | cons q qs =>
      simp only [List.modifyHead_cons, List.mem_cons] at hp
      simp only [List.length_cons]
      rcases hp with rfl | hp
      · have := this.2 q (by simp)
        simp only [List.length_cons]
        omega
      · have := this.2 p (by simp [hp])
        omega

/-- The expansions of a list of lexemes: the pieces of its first group, each followed by every
expansion of what comes after the group. The first of several equal expansions is kept. -/
def expansions (ls : List Lexeme) : Except Fault (List Text) :=
  match hg : firstGroup ls with
  | .error e => .error e
  | .ok none => .ok [ls.flatMap Lexeme.text]
  | .ok (some (before, rest)) =>
    match hb : groupBody 0 rest with
    | none => .error .unclosed
    | some (pieces, after) => do
      let tails ← expansions after
      let heads ← pieces.attach.mapM fun ⟨p, _⟩ => expansions p
      let heads := match heads with
        | [inner] => inner.map fun h => '{' :: h ++ ['}']
        | _ => heads.flatten
      return (heads.flatMap fun h => tails.map fun t => before ++ h ++ t).eraseDups
termination_by ls.length
decreasing_by
  all_goals have := firstGroup_length hg
  · have := (groupBody_length hb).1
    omega
  · have := (groupBody_length hb).2 _ ‹_›
    omega

def expand (pattern : Text) : Except Fault (List Text) := expansions (lexemes pattern)

def Fault.message : Fault → Text
  | .strayClose => "unbalanced '\x7d'"
  | .unclosed => "unbalanced '\x7b'"

end PathSelection.Braces
