import PathSelection.Path.Absolute

namespace PathSelection

namespace Name

theorem slash_not_mem (n : Name) : '/' ∉ n.text := n.proper.2.1

theorem text_injective : Function.Injective Name.text := by
  intro m n h
  cases m
  cases n
  cases h
  rfl

theorem join_cons (n : Name) (ns : List Name) :
    join (n :: ns) = n.text ++ if ns = [] then [] else '/' :: join ns := by
  cases ns with
  | nil => simp [join]
  | cons m ns => simp [join, List.intercalate_cons_cons]

theorem join_ne_dot (ns : List Name) : join ns ≠ ['.'] := by
  cases ns with
  | nil => exact nofun
  | cons n ns =>
    rw [join_cons]
    intro hdot
    rcases List.append_eq_singleton_iff.1 hdot with ⟨hn, -⟩ | ⟨hn, -⟩
    · exact n.proper.1 hn
    · exact n.proper.2.2.1 hn

theorem splitOn_join {ns : List Name} (h : ns ≠ []) : (join ns).splitOn '/' = ns.map text := by
  refine List.splitOn_intercalate '/' (fun t ht => ?_) (by simpa using h)
  obtain ⟨n, -, rfl⟩ := List.mem_map.1 ht
  exact n.slash_not_mem

theorem head?_join_ne (ns : List Name) : (join ns).head? ≠ some '/' := by
  cases ns with
  | nil => simp [join]
  | cons n ns =>
    obtain ⟨c, cs, hn⟩ := List.exists_cons_of_ne_nil n.proper.1
    have hc := n.slash_not_mem
    rw [hn] at hc
    rw [join_cons, hn]
    intro h
    obtain rfl := Option.some.inj h
    exact hc List.mem_cons_self

end Name

namespace Step

theorem ofPath_slash (t : Text) : ofPath ('/' :: t) = .here :: ofPath t := by
  rw [ofPath, show '/' :: t = [] ++ '/' :: t from rfl, List.splitOn_append_cons_self]
  rfl

theorem ofPath_join {ns : List Name} (h : ns ≠ []) : ofPath (Name.join ns) = ns.map .down := by
  rw [ofPath, Name.splitOn_join h, List.map_map]
  exact List.map_congr_left fun n _ => ofText_text n

theorem foldl_lexical_down (here ns : List Name) :
    (ns.map down).foldl lexical here = here ++ ns := by
  induction ns generalizing here with
  | nil => exact (List.append_nil here).symm
  | cons n ns ih =>
    rw [List.map_cons, List.foldl_cons, ih, lexical, List.append_assoc]
    rfl

theorem foldl_lexical_join (ns : List Name) : (ofPath (Name.join ns)).foldl lexical [] = ns := by
  by_cases h : ns = []
  · rw [h]
    rfl
  · rw [ofPath_join h, foldl_lexical_down, List.nil_append]

end Step

namespace AbsPath

theorem leadingSlashes_text (p : AbsPath) :
    p.text.leadingSlashes = if p.doubled then 2 else 1 := by
  have hhead := Name.head?_join_ne p.names
  unfold text
  cases hj : Name.join p.names with
  | nil => cases p.doubled <;> rfl
  | cons c cs =>
    rw [hj] at hhead
    have hc : c ≠ '/' := fun h => hhead (by rw [h]; rfl)
    cases p.doubled with
    | false => simp [Text.leadingSlashes, hc]
    | true => simp [Text.leadingSlashes, hc]

theorem ofPath_text (p : AbsPath) :
    Step.ofPath p.text = (if p.doubled then [.here, .here] else [.here]) ++
      Step.ofPath (Name.join p.names) := by
  unfold text
  cases p.doubled with
  | false => exact Step.ofPath_slash _
  | true => exact (Step.ofPath_slash _).trans (congrArg (Step.here :: ·) (Step.ofPath_slash _))

theorem isAbsolute_text (p : AbsPath) : p.text.isAbsolute = true := by
  unfold text
  cases p.doubled <;> rfl

@[simp] theorem ofText_text (cwd p : AbsPath) : ofText cwd p.text = p := by
  have hnames : (Step.ofPath p.text).foldl Step.lexical [] = p.names := by
    rw [ofPath_text]
    cases p.doubled <;> exact Step.foldl_lexical_join p.names
  have hdoubled : (p.text.leadingSlashes == 2) = p.doubled := by
    rw [leadingSlashes_text]
    cases p.doubled <;> rfl
  rw [ofText, if_pos p.isAbsolute_text, hnames, hdoubled]

theorem text_injective : Function.Injective AbsPath.text := by
  intro p q h
  have hp := ofText_text root p
  rw [h, ofText_text] at hp
  exact hp.symm

theorem text_mem_map {p : AbsPath} {ps : List AbsPath} : p.text ∈ ps.map text ↔ p ∈ ps := by
  constructor
  · intro h
    obtain ⟨q, hq, he⟩ := List.mem_map.1 h
    rwa [← text_injective he]
  · exact List.mem_map_of_mem

def descend (p : AbsPath) (ns : List Name) : AbsPath := ⟨p.doubled, p.names ++ ns⟩

@[simp] theorem descend_nil (p : AbsPath) : p.descend [] = p := by
  rw [descend, List.append_nil]

@[simp] theorem descend_descend (p : AbsPath) (ms ns : List Name) :
    (p.descend ms).descend ns = p.descend (ms ++ ns) := by
  simp only [descend, List.append_assoc]

theorem child_eq_descend (p : AbsPath) (n : Name) : p.child n = p.descend [n] := rfl

theorem descend_inj {p : AbsPath} {ms ns : List Name} (h : p.descend ms = p.descend ns) :
    ms = ns :=
  List.append_cancel_left (AbsPath.mk.inj h).2

end AbsPath
end PathSelection
