import PathSelection.Proofs.Path.Written

namespace PathSelection

/-- A relative path in normal form: no part of it is empty, holds a slash or is `.`. -/
structure RelativePath where
  parts : List Text
  proper : ∀ part ∈ parts, part ≠ [] ∧ '/' ∉ part ∧ part ≠ ['.']

namespace RelativePath

variable (p q d : RelativePath)

def text : Text := WrittenPath.text ⟨0, p.parts⟩

def below (d p : RelativePath) : RelativePath where
  parts := d.parts ++ p.parts
  proper := List.forall_mem_append.2 ⟨d.proper, p.proper⟩

variable {p q d}

theorem text_of_parts (h : p.parts ≠ []) : p.text = ['/'].intercalate p.parts := by
  rw [text, WrittenPath.text, if_neg fun hp => h hp.2]
  rfl

theorem text_below (hd : d.parts ≠ []) (hp : p.parts ≠ []) :
    (d.below p).text = d.text ++ '/' :: p.text := by
  rw [text_of_parts (p := d.below p) (List.append_ne_nil_of_left_ne_nil hd _), text_of_parts hd,
    text_of_parts hp]
  exact intercalate_append hd hp

theorem text_below_here (hd : d.parts = []) : (d.below p).text = p.text := by
  change WrittenPath.text ⟨0, d.parts ++ p.parts⟩ = p.text
  rw [hd, List.nil_append]
  rfl

theorem text_of_here (h : p.parts = []) : p.text = ['.'] := by
  rw [text, h]
  rfl

theorem exists_text (h : p.parts ≠ []) : ∃ part more, p.text = part ++ more ∧ part ≠ [] ∧
    '/' ∉ part ∧ part ≠ ['.'] := by
  obtain ⟨part, parts, hparts⟩ := List.exists_cons_of_ne_nil h
  obtain ⟨hne, hslash, hdot⟩ := p.proper part (hparts ▸ List.mem_cons_self)
  rw [text_of_parts h, hparts]
  cases parts with
  | nil => exact ⟨part, [], by simp, hne, hslash, hdot⟩
  | cons part' parts =>
    rw [List.intercalate_cons_cons, List.append_assoc]
    exact ⟨part, _, rfl, hne, hslash, hdot⟩

theorem getLast?_text : p.text.getLast? ≠ some '/' := by
  by_cases h : p.parts = []
  · rw [text_of_here h]
    decide
  · obtain ⟨init, part, hparts⟩ := (List.eq_nil_or_concat' p.parts).resolve_left h
    obtain ⟨hne, hslash, -⟩ := p.proper part (hparts ▸ List.mem_concat_self)
    have hlast : p.text.getLast? = part.getLast? := by
      rw [text_of_parts h, hparts]
      by_cases hinit : init = []
      · rw [hinit, List.nil_append, List.intercalate_singleton]
      · rw [intercalate_append hinit (by simp), List.intercalate_singleton,
          List.getLast?_append_of_ne_nil _ (by simp), List.getLast?_cons_of_ne_nil hne]
    rw [hlast]
    exact fun hl => hslash (List.mem_of_getLast? hl)

theorem exists_below {u v : Text} (h : p.text = u ++ '/' :: v) :
    ∃ d q : RelativePath, p = d.below q ∧ d.parts ≠ [] ∧ q.parts ≠ [] ∧ d.text = u := by
  have hp : p.parts ≠ [] := by
    intro hp
    rw [text_of_here hp] at h
    have hm : '/' ∈ ['.'] := h ▸ List.mem_append_right u List.mem_cons_self
    exact absurd hm (by decide)
  have hparts : p.parts = u.splitOn '/' ++ v.splitOn '/' := by
    rw [← List.splitOn_append_cons_self, ← h, text_of_parts hp]
    exact (List.splitOn_intercalate '/' (fun part hm => (p.proper part hm).2.1) hp).symm
  have hproper := p.proper
  rw [hparts, List.forall_mem_append] at hproper
  obtain ⟨hd, hq⟩ := hproper
  have hu := List.splitOn_ne_nil '/' u
  refine ⟨⟨u.splitOn '/', hd⟩, ⟨v.splitOn '/', hq⟩, ?_, hu, List.splitOn_ne_nil '/' v, ?_⟩
  · cases p
    cases hparts
    rfl
  · rw [text_of_parts hu, List.intercalate_splitOn]

end RelativePath
end PathSelection
