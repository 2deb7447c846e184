import Mathlib.Data.List.Basic
import PathSelection.Proofs.Path.Absolute

namespace PathSelection

theorem intercalate_append {ps qs : List Text} (hp : ps ≠ []) (hq : qs ≠ []) :
    ['/'].intercalate (ps ++ qs) = ['/'].intercalate ps ++ '/' :: ['/'].intercalate qs := by
  induction ps with
  | nil => exact (hp rfl).elim
  | cons p ps ih =>
    cases ps with
    | nil =>
      obtain ⟨q, qs, rfl⟩ := List.exists_cons_of_ne_nil hq
      rw [List.singleton_append, List.intercalate_cons_cons, List.intercalate_singleton,
        List.append_assoc]
      rfl
    | cons p' ps =>
      rw [List.cons_append, List.cons_append, List.intercalate_cons_cons,
        List.intercalate_cons_cons, List.append_assoc, ← List.cons_append, ih (by simp)]
      simp only [List.append_assoc]

namespace Name

theorem join_ne_nil {ns : List Name} (h : ns ≠ []) : join ns ≠ [] := by
  cases ns with
  | nil => exact (h rfl).elim
  | cons n ns =>
    rw [join_cons]
    exact List.append_ne_nil_of_left_ne_nil n.proper.1 _

theorem join_append {ms ns : List Name} (hm : ms ≠ []) (hn : ns ≠ []) :
    join (ms ++ ns) = join ms ++ '/' :: join ns := by
  rw [join, List.map_append]
  exact intercalate_append (by simpa using hm) (by simpa using hn)

theorem getLast?_join_ne (ns : List Name) : (join ns).getLast? ≠ some '/' := by
  induction ns with
  | nil => simp [join]
  | cons n ns ih =>
    rw [join_cons]
    by_cases h : ns = []
    · rw [if_pos h, List.append_nil]
      intro hlast
      exact n.slash_not_mem (List.mem_of_getLast? hlast)
    · rw [if_neg h, List.getLast?_append_of_ne_nil _ (List.cons_ne_nil _ _)]
      rwa [List.getLast?_cons_of_ne_nil (join_ne_nil h)]

end Name

namespace AbsPath

theorem splitOn_text (p : AbsPath) : p.text.splitOn '/' =
    (if p.doubled then [[], []] else [[]]) ++ (Name.join p.names).splitOn '/' := by
  have hslash (t : Text) : ('/' :: t).splitOn '/' = [] :: t.splitOn '/' :=
    List.splitOn_append_cons_self [] t
  unfold text
  cases p.doubled with
  | false => exact hslash _
  | true => exact (hslash _).trans (congrArg ([] :: ·) (hslash _))

theorem ofText_text_written (p : AbsPath) : WrittenPath.ofText p.text = p.written := by
  have hproper (part : Text) (h : part ∈ p.names.map Name.text) :
      (part != [] && part != ['.']) = true := by
    obtain ⟨n, -, rfl⟩ := List.mem_map.1 h
    simp [n.proper.1, n.proper.2.2.1]
  have hjoin : ((Name.join p.names).splitOn '/').filter
      (fun part => part != [] && part != ['.']) = p.names.map Name.text := by
    by_cases hn : p.names = []
    · rw [hn]
      rfl
    · rw [Name.splitOn_join hn, List.filter_eq_self.2 hproper]
  have hempty : (if p.doubled then [[], []] else [[]] : List Text).filter
      (fun part => part != [] && part != ['.']) = [] := by
    cases p.doubled <;> rfl
  rw [WrittenPath.ofText, leadingSlashes_text, splitOn_text, List.filter_append, hjoin, hempty]
  rfl

theorem text_written (p : AbsPath) : p.written.text = p.text := by
  have hslashes : p.written.slashes ≠ 0 := by
    rw [written]
    cases p.doubled <;> simp
  rw [WrittenPath.text, if_neg fun h => hslashes h.1, text, written]
  cases p.doubled <;> rfl

theorem below_relative (p : AbsPath) {t : Text} (h : t.isAbsolute = false) :
    p.text.below t = p.text ++ if p.names = [] then t else '/' :: t := by
  rw [Text.below, if_neg (by simp [h])]
  by_cases hn : p.names = []
  · have hslash : (p.text.isEmpty || p.text.getLast? == some '/') = true := by
      rw [text, hn]
      cases p.doubled <;> rfl
    rw [if_pos hslash, if_pos hn]
  · have hlast : (p.text.isEmpty || p.text.getLast? == some '/') = false := by
      rw [text, List.getLast?_append_of_ne_nil _ (Name.join_ne_nil hn), Bool.or_eq_false_iff]
      refine ⟨?_, beq_eq_false_iff_ne.2 (Name.getLast?_join_ne p.names)⟩
      cases p.doubled <;> rfl
    rw [if_neg (by simp [hlast]), if_neg hn]

theorem text_below (p : AbsPath) {ns : List Name} (h : ns ≠ []) :
    p.text.below (Name.join ns) = (p.descend ns).text := by
  rw [p.below_relative (beq_eq_false_iff_ne.2 (Name.head?_join_ne ns)), text, text, descend]
  by_cases hn : p.names = []
  · rw [if_pos hn, hn, List.append_assoc]
    rfl
  · rw [if_neg hn, Name.join_append hn h, List.append_assoc]

end AbsPath
end PathSelection
