import Mathlib.Control.Monad.Basic
import PathSelection.Pattern.Basic
import PathSelection.Proofs.Failure
import PathSelection.Proofs.Rule.Reading

namespace PathSelection.Pattern

/-- Read from left to right, with an escaped character and a class each taken as one, some class of
the text holds a slash. -/
inductive SlashInClass : Text → Prop
  | here {cs held rest : Text} {k : CharClass} (hclass : CharClass.read cs = some (k, rest))
    (hcs : cs = held ++ ']' :: rest) (hslash : '/' ∈ held) : SlashInClass ('[' :: cs)
  | afterClass {cs rest : Text} {k : CharClass} (hclass : CharClass.read cs = some (k, rest))
    (h : SlashInClass rest) : SlashInClass ('[' :: cs)
  | afterEscape {c : Char} {cs : Text} (h : SlashInClass cs) : SlashInClass ('\\' :: c :: cs)
  | afterCharacter {c : Char} {cs : Text} (hescape : c ≠ '\\') (hclass : c ≠ '[')
    (h : SlashInClass cs) : SlashInClass (c :: cs)

open Rule

theorem SlashInClass.open_class {t : Text} (h : SlashInClass t) :
    GlobFault.unclosedClass ∈ faults t := by
  induction h with
  | @here cs held rest k hclass hcs hslash =>
    obtain ⟨held', hcs', ⟨hslash', -⟩ | ⟨-, es, hes⟩⟩ := faults_class hclass
    · rw [hcs] at hcs'
      exact (hslash' (List.append_cancel_right hcs' ▸ hslash)).elim
    · rw [hes]
      exact List.mem_cons_self
  | afterClass hclass h ih =>
    obtain ⟨held, -, ⟨-, hrest⟩ | ⟨-, es, hes⟩⟩ := faults_class hclass
    · rwa [hrest]
    · rw [hes]
      exact List.mem_cons_self
  | @afterEscape c cs h ih =>
    by_cases hc : c = '/'
    · rw [hc, faults_escapedSlash]
      exact List.mem_cons_of_mem _ ih
    · rwa [faults_escaped hc]
  | afterCharacter hescape hclass h ih => rwa [faults_character hescape hclass]

/-- The texts that the check of a pattern lets pass: no two slashes follow each other, and every
class is closed, if only beyond a slash. -/
inductive Checked : Text → Prop
  | nil : Checked []
  | backslash : Checked ['\\']
  | escaped {c : Char} {cs : Text} (h : Checked cs) : Checked ('\\' :: c :: cs)
  | inClass {cs rest : Text} {k : CharClass} (hclass : CharClass.read cs = some (k, rest))
    (h : Checked rest) : Checked ('[' :: cs)
  | character {c : Char} {cs : Text} (hescape : c ≠ '\\') (hclass : c ≠ '[')
    (hslash : c = '/' → ∀ t, cs ≠ '/' :: t) (h : Checked cs) : Checked (c :: cs)

theorem checked_of_ok {t : Text} (h : checkSegments t = .ok ()) : Checked t := by
  induction t using checkSegments.induct with
  | case1 => exact .nil
  | case2 => exact .backslash
  | case3 c cs ih =>
    rw [checkSegments] at h
    exact .escaped (ih h)
  | case4 t =>
    rw [checkSegments] at h
    cases h
  | case5 cs hr =>
    rw [checkSegments.eq_def] at h
    simp only at h
    split at h
    · cases h
    · next hr' =>
      rw [hr] at hr'
      cases hr'
  | case6 cs k rest hr _ ih =>
    rw [checkSegments.eq_def] at h
    simp only at h
    split at h
    · cases h
    · next hr' =>
      rw [hr] at hr'
      cases hr'
      exact .inClass hr (ih h)
  | case7 c cs hlone hescape hslash hclass ih =>
    have hc : c ≠ '\\' := by
      intro hc
      cases cs with
      | nil => exact hlone hc rfl
      | cons d cs => exact hescape d cs hc rfl
    rw [checkSegments] at h
    · exact .character hc hclass (fun hc t => hslash t hc) (ih h)
    · exact hlone
    · exact hescape
    · exact hslash
    · exact hclass

theorem Checked.slashInClass {t : Text} (ht : Checked t)
    (h : .unclosedClass ∈ faults t) : SlashInClass t := by
  induction ht with
  | nil =>
    rw [faults_nil] at h
    cases h
  | backslash =>
    rw [faults_backslash] at h
    simp at h
  | @escaped c cs ht ih =>
    by_cases hc : c = '/'
    · rw [hc, faults_escapedSlash] at h
      exact .afterEscape (ih (by simpa using h))
    · rw [faults_escaped hc] at h
      exact .afterEscape (ih h)
  | inClass hclass ht ih =>
    obtain ⟨held, hcs, ⟨-, hrest⟩ | ⟨hslash, -⟩⟩ := faults_class hclass
    · rw [hrest] at h
      exact .afterClass hclass (ih h)
    · exact .here hclass hcs hslash
  | character hescape hclass hslash ht ih =>
    rw [faults_character hescape hclass] at h
    exact .afterCharacter hescape hclass (ih h)

theorem doubled_of_append {u t : Text} (hu : '/' ∉ u) (h : ['/', '/'] <:+: u ++ t) :
    ['/', '/'] <:+: t := by
  induction u with
  | nil => exact h
  | cons c u ih =>
    rcases List.infix_cons_iff.1 h with h | h
    · exact (hu ((List.cons_prefix_cons.1 h).1 ▸ List.mem_cons_self)).elim
    · exact ih (fun hm => hu (List.mem_cons_of_mem c hm)) h

theorem Checked.faults_of_doubled {t : Text} (ht : Checked t) (h : ['/', '/'] <:+: t) :
    faults t ≠ [] := by
  induction ht with
  | nil => simp at h
  | backslash => exact absurd h (by decide)
  | @escaped c cs ht ih =>
    by_cases hc : c = '/'
    · rw [hc, faults_escapedSlash]
      exact List.cons_ne_nil _ _
    · rw [faults_escaped hc]
      exact ih (doubled_of_append (u := ['\\', c]) (by simpa using Ne.symm hc) h)
  | @inClass cs rest k hclass ht ih =>
    obtain ⟨held, rfl, ⟨hslash, hrest⟩ | ⟨-, es, hes⟩⟩ := faults_class hclass
    · rw [hrest]
      refine ih (doubled_of_append (u := '[' :: (held ++ [']'])) (by simpa using hslash) ?_)
      simpa using h
    · rw [hes]
      exact List.cons_ne_nil _ _
  | @character c cs hescape hclass hslash ht ih =>
    rw [faults_character hescape hclass]
    rcases List.infix_cons_iff.1 h with h | h
    · obtain ⟨hc, t, rfl⟩ := List.cons_prefix_cons.1 h
      exact (hslash hc.symm t rfl).elim
    · exact ih h

theorem compile_ok {pattern : Text} {rules : List Rule} (h : compile pattern = .ok rules) :
    ∃ alternatives, Braces.expand pattern = .ok alternatives ∧
      (∀ a ∈ alternatives, checkSegments a = .ok ()) ∧ ofLines alternatives = .ok rules := by
  obtain ⟨alternatives, hexpand, h⟩ := ok_of_bind h
  obtain ⟨u, hcheck, hrules⟩ := ok_of_bind h
  exact ⟨alternatives, ok_of_mapError hexpand, ok_of_forM hcheck, ok_of_mapError hrules⟩

theorem Checked.read {a : Text} (ht : Checked a) (hnote : ¬IsNote a) {r? : Option Rule}
    (hr : Rule.read a = .ok r?) :
    (SlashInClass a ∧ r? = none) ∨ (faults a = [] ∧ ∃ r, r? = some r) := by
  obtain ⟨blanks, ha, hblanks⟩ := exists_trimLine a
  have hfaults := faults_append_blanks hblanks (trimLine a)
  rw [← ha] at hfaults
  rcases read_of_not_note hnote with ⟨es, hes, hnone⟩ | ⟨es, -, herror⟩ | ⟨hnil, hsome⟩
  · rw [hr] at hnone
    cases hnone
    refine .inl ⟨ht.slashInClass ?_, rfl⟩
    have hm : GlobFault.unclosedClass ∈ faults (trimLine a) := by
      rw [hes]
      exact List.mem_cons_self
    rcases hfaults with h | h
    · rwa [h]
    · rw [h] at hm
      simpa using hm
  · rw [hr] at herror
    cases herror
  · right
    constructor
    · rcases hfaults with h | h
      · rw [h, hnil]
      · rw [hnil] at h
        simp at h
    · cases r? with
      | none => exact (hsome hr).elim
      | some r => exact ⟨r, rfl⟩

/-- An alternative of an accepted pattern holds no rule exactly if it is a note or has a slash in a
class. Its class is then not closed in its segment, and nothing else lets such an alternative or
one with an empty segment pass. -/
theorem live_unless_slash_in_class {pattern : Text} {rules : List Rule}
    (h : compile pattern = .ok rules) :
    ∃ alternatives, Braces.expand pattern = .ok alternatives ∧ ∀ a ∈ alternatives,
      (ofLine a = .ok none ↔ IsNote a ∨ SlashInClass a) ∧
      (¬IsNote a → ¬SlashInClass a → ∃ r ∈ rules, ofLine a = .ok (some r)) ∧
      ((∃ s ∈ a.splitOn '/', Token.ofSegment s = .error .unclosedClass) ↔ SlashInClass a) ∧
      (['/', '/'] <:+: a → IsNote a ∨ SlashInClass a) := by
  obtain ⟨alternatives, hexpand, hcheck, hrules⟩ := compile_ok h
  obtain ⟨hread, hmem⟩ := ofLines_ok hrules
  refine ⟨alternatives, hexpand, fun a ha => ?_⟩
  have ht := checked_of_ok (hcheck a ha)
  have hopen : (∃ s ∈ a.splitOn '/', Token.ofSegment s = .error .unclosedClass) ↔
      SlashInClass a := by
    rw [← unclosedClass_mem_faults]
    exact ⟨ht.slashInClass, SlashInClass.open_class⟩
  obtain ⟨r?, hline⟩ := hread a ha
  by_cases hnote : IsNote a
  · exact ⟨⟨fun _ => .inl hnote, fun _ => ofLine_none_iff.2 (read_of_note hnote)⟩,
      fun h => (h hnote).elim, hopen, fun _ => .inl hnote⟩
  · rcases ht.read hnote (read_of_ofLine hline) with ⟨hslash, rfl⟩ | ⟨hnil, r, rfl⟩
    · exact ⟨⟨fun _ => .inr hslash, fun _ => hline⟩, fun _ h => (h hslash).elim, hopen,
        fun _ => .inr hslash⟩
    · have hno : ¬SlashInClass a := fun h => by simpa [hnil] using h.open_class
      refine ⟨⟨fun h => ?_, fun h => (h.elim hnote hno).elim⟩,
        fun _ _ => ⟨r, (hmem r).2 ⟨a, ha, hline⟩, hline⟩, hopen,
        fun h => (ht.faults_of_doubled h hnil).elim⟩
      rw [hline] at h
      cases h

/-- A class that goes on over a slash is let pass, but there is no rule in it. -/
theorem class_over_slash_dead : compile "[/]" = .ok [] ∧
    Braces.expand "[/]" = .ok ["[/]".toList] ∧ ¬IsNote "[/]" ∧ ofLine "[/]" = .ok none ∧
    Token.ofSegment "[" = .error .unclosedClass ∧ ['['] ∈ List.splitOn '/' "[/]".toList := by
  decide +kernel

theorem live_beside_dead : compile "\x7ba,[/]\x7d" =
      .ok [⟨false, false, [.anyDepth, .glob [.literal 'a']]⟩] ∧
    ∃ alternatives, Braces.expand "\x7ba,[/]\x7d" = .ok alternatives ∧
      ("[/]".toList ∈ alternatives ∧ ofLine "[/]" = .ok none) ∧
      ("a".toList ∈ alternatives ∧ ∃ r ∈ [⟨false, false, [.anyDepth, .glob [.literal 'a']]⟩],
        ofLine "a" = .ok (some r)) := by
  have h : compile "\x7ba,[/]\x7d" = .ok [⟨false, false, [.anyDepth, .glob [.literal 'a']]⟩] := by
    decide +kernel
  have hexpand : Braces.expand "\x7ba,[/]\x7d" = .ok ["a".toList, "[/]".toList] := by
    decide +kernel
  obtain ⟨alternatives, he, hall⟩ := live_unless_slash_in_class h
  rw [hexpand] at he
  cases he
  have hread : CharClass.read "/]" = some (⟨false, [.one '/']⟩, []) := rfl
  have hheld : "/]".toList = ['/'] ++ ']' :: [] := rfl
  have hslash : SlashInClass "[/]" := .here hread hheld List.mem_cons_self
  have hplain : ¬SlashInClass "a" := fun h => absurd h.open_class (by decide +kernel)
  obtain ⟨hdead, -⟩ := hall "[/]".toList (by simp)
  obtain ⟨-, hlive, -⟩ := hall "a".toList (by simp)
  exact ⟨h, _, hexpand, ⟨by simp, hdead.2 (.inr hslash)⟩,
    by simp, hlive (by decide +kernel) hplain⟩

end PathSelection.Pattern
