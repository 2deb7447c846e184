import Mathlib.Computability.Language
import PathSelection.Rule.Search

namespace PathSelection

def found {α : Type} (search : Text → Option α) : Language Char := {t | (search t).isSome = true}

theorem mem_found {α : Type} {search : Text → Option α} {t : Text} :
    t ∈ found search ↔ (search t).isSome = true := Iff.rfl

def oneOf (test : Char → Bool) : Language Char := {t | ∃ c, test c = true ∧ t = [c]}

def runOf (test : Char → Bool) : Language Char := {t | ∀ c ∈ t, test c = true}

def slash : Language Char := {['/']}

section Found

variable {α : Type} {test : Char → Bool} {rest : Text → Option α}

theorem found_orElse (first second : Text → Option α) :
    found (fun t => first t <|> second t) = found first + found second := by
  ext t
  rw [Language.mem_add, mem_found, mem_found, mem_found]
  cases first t <;> simp

theorem found_guard (p : Text → Prop) [DecidablePred p] (a : α) :
    found (fun t => if p t then some a else none) = {t | p t} := by
  ext t
  change (if p t then some a else none).isSome = true ↔ p t
  by_cases h : p t <;> simp [h]

theorem found_single : found (Token.single test rest) = oneOf test * found rest := by
  ext t
  rw [Language.mem_mul]
  constructor
  · intro h
    cases t with
    | nil => cases h
    | cons c cs =>
      rw [mem_found, Token.single] at h
      split at h
      · next hc => exact ⟨[c], ⟨c, hc, rfl⟩, cs, h, rfl⟩
      · cases h
  · rintro ⟨_, ⟨c, hc, rfl⟩, cs, hcs, rfl⟩
    rw [mem_found, List.singleton_append, Token.single, if_pos hc]
    exact hcs

theorem found_longestFirst : found (Token.longestFirst test rest) = runOf test * found rest := by
  ext t
  rw [Language.mem_mul]
  constructor
  · intro h
    induction t with
    | nil => exact ⟨[], nofun, [], h, rfl⟩
    | cons c cs ih =>
      rw [mem_found, Token.longestFirst] at h
      split at h
      · next hc =>
        cases hcs : Token.longestFirst test rest cs with
        | none =>
          rw [hcs] at h
          exact ⟨[], nofun, c :: cs, h, rfl⟩
        | some a =>
          obtain ⟨u, hu, v, hv, rfl⟩ := ih (by rw [mem_found, hcs]; rfl)
          exact ⟨c :: u, List.forall_mem_cons.2 ⟨hc, hu⟩, v, hv, rfl⟩
      · exact ⟨[], nofun, c :: cs, h, rfl⟩
  · rintro ⟨u, hu, v, hv, rfl⟩
    induction u with
    | nil =>
      cases v with
      | nil => exact hv
      | cons c cs =>
        rw [mem_found] at hv
        rw [List.nil_append, mem_found, Token.longestFirst]
        split
        · cases Token.longestFirst test rest cs with
          | none => exact hv
          | some a => rfl
        · exact hv
    | cons c u ih =>
      obtain ⟨hc, hu⟩ := List.forall_mem_cons.1 hu
      have hrest := ih hu
      rw [mem_found] at hrest
      obtain ⟨a, ha⟩ := Option.isSome_iff_exists.1 hrest
      rw [List.cons_append, mem_found, Token.longestFirst, if_pos hc, ha]
      rfl

theorem longestFirstSome_eq : Token.longestFirstSome test rest =
    Token.single test (Token.longestFirst test rest) := by
  funext t
  cases t <;> rfl

theorem found_longestFirstSome :
    found (Token.longestFirstSome test rest) = oneOf test * runOf test * found rest := by
  rw [longestFirstSome_eq, found_single, found_longestFirst, mul_assoc]

theorem found_afterSlash : found (afterSlash rest) = slash * found rest := by
  ext t
  rw [Language.mem_mul]
  constructor
  · intro h
    rw [mem_found] at h
    unfold afterSlash at h
    split at h
    · next cs => exact ⟨['/'], rfl, cs, h, rfl⟩
    · cases h
  · rintro ⟨_, rfl, cs, hcs, rfl⟩
    exact hcs

end Found

namespace Token

/-- The texts that a token stands for. -/
def language : Token → Language Char
  | .literal c => PathSelection.oneOf (· == c)
  | .anyOne => PathSelection.oneOf (· != '/')
  | .anyRun => runOf (· != '/')
  | .oneOf k => PathSelection.oneOf k.holds

def spelled (ts : List Token) : Language Char := (ts.map language).prod

theorem spelled_cons (t : Token) (ts : List Token) :
    spelled (t :: ts) = t.language * spelled ts := List.prod_cons

theorem found_run {α : Type} (ts : List Token) (rest : Text → Option α) :
    found (run ts rest) = spelled ts * found rest := by
  induction ts with
  | nil => exact (one_mul _).symm
  | cons t ts ih =>
    rw [spelled_cons, mul_assoc, ← ih]
    cases t with
    | literal c => exact found_single
    | anyOne => exact found_single
    | anyRun => exact found_longestFirst
    | oneOf k => exact found_single

end Token

namespace Segment

/-- The texts that a segment stands for, slashes before and after it aside. -/
def language : Segment → Language Char
  | .anyDepth => oneOf isInline * runOf isInline
  | .anyName => oneOf (· != '/') * runOf (· != '/')
  | .glob ts => Token.spelled ts

end Segment

namespace Rule

variable {dirOnly : Bool} {segments : List Segment}

theorem found_following_beneath :
    found (following dirOnly [.anyDepth]) = slash * ⊤ := by
  have hall : found (fun _ => some (beneath dirOnly)) = ⊤ := by
    ext t
    exact ⟨fun _ => trivial, fun _ => rfl⟩
  rw [← hall, ← found_afterSlash]
  rfl

theorem found_following_anyDepth (h : segments ≠ []) :
    found (following dirOnly (.anyDepth :: segments)) =
      (slash * Segment.anyDepth.language + 1) * found (following dirOnly segments) := by
  have hstep : following dirOnly (.anyDepth :: segments) = fun t =>
      afterSlash (Token.longestFirstSome isInline (following dirOnly segments)) t
        <|> following dirOnly segments t := by
    funext t
    rw [following]
    exact h
  rw [hstep, found_orElse, found_afterSlash, found_longestFirstSome, add_mul, one_mul, mul_assoc,
    mul_assoc, Segment.language, mul_assoc]

theorem found_anchored {s : Segment} (h : s ≠ .anyDepth) :
    found (anchored dirOnly (s :: segments)) = s.language * found (following dirOnly segments) := by
  cases s with
  | anyDepth => exact (h rfl).elim
  | anyName => exact found_longestFirstSome
  | glob ts => exact Token.found_run ts _

theorem found_following {s : Segment} (h : s ≠ .anyDepth) :
    found (following dirOnly (s :: segments)) =
      slash * (s.language * found (following dirOnly segments)) := by
  have hstep : following dirOnly (s :: segments) =
      afterSlash (anchored dirOnly (s :: segments)) := by
    funext t
    cases s with
    | anyDepth => exact (h rfl).elim
    | anyName => rfl
    | glob ts => rfl
  rw [hstep, found_afterSlash, found_anchored h]

theorem found_floating : found (floating dirOnly segments) =
    (Segment.anyDepth.language * slash + 1) * found (anchored dirOnly segments) := by
  have hfloating : found (floating dirOnly segments) =
      found (Token.longestFirstSome isInline (afterSlash (anchored dirOnly segments))) +
        found (anchored dirOnly segments) := found_orElse _ _
  rw [hfloating, found_longestFirstSome, found_afterSlash, add_mul, one_mul, mul_assoc,
    mul_assoc, Segment.language, mul_assoc]

end Rule
end PathSelection
