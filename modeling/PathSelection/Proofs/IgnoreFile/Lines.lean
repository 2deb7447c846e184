import PathSelection.Proofs.IgnoreFile.Registry
import PathSelection.Proofs.Pattern.Beneath
import PathSelection.Proofs.Rule.FirstSegment
import PathSelection.Proofs.Rule.Thinned

namespace PathSelection

namespace Text

theorem return_not_mem_unifyNewlines (t : Text) : '\r' ∉ unifyNewlines t := by
  fun_induction unifyNewlines t with
  | case1 cs ih => exact List.not_mem_cons_of_ne_of_not_mem (by decide) ih
  | case2 cs _ ih => exact List.not_mem_cons_of_ne_of_not_mem (by decide) ih
  | case3 c cs _ hreturn ih => exact List.not_mem_cons_of_ne_of_not_mem (Ne.symm hreturn) ih
  | case4 => exact List.not_mem_nil

theorem lines_cons {c : Char} (hc : c ≠ '\r') (cs : Text) : lines (c :: cs) =
    if isLineBreak c then [] :: lines cs
    else match lines cs with
      | [] => [[c]]
      | l :: ls => (c :: l) :: ls := by
  refine (lines.eq_3 c cs fun _ h _ => hc h).trans ?_
  split
  · rfl
  · cases lines cs <;> rfl

theorem splitOnP_isLineBreak {t : Text} (h : '\r' ∉ t) :
    t.splitOnP isLineBreak = lines t ∧ lines t ≠ [] ∨
      t.splitOnP isLineBreak = lines t ++ [[]] := by
  induction t with
  | nil => exact .inr List.splitOnP_nil
  | cons c cs ih =>
    obtain ⟨hc, hcs⟩ := not_or.1 (List.mem_cons.not.1 h)
    rw [List.splitOnP_cons_eq_if_modifyHead, lines_cons (Ne.symm hc)]
    split
    · rcases ih hcs with ⟨ih, -⟩ | ih
      · exact .inl ⟨by rw [ih], List.cons_ne_nil _ _⟩
      · exact .inr (by rw [ih, List.cons_append])
    · rcases ih hcs with ⟨ih, hne⟩ | ih
      · obtain ⟨l, ls, hlines⟩ := List.exists_cons_of_ne_nil hne
        rw [ih, hlines]
        exact .inl ⟨rfl, List.cons_ne_nil _ _⟩
      · rw [ih]
        cases lines cs with
        | nil => exact .inl ⟨rfl, List.cons_ne_nil _ _⟩
        | cons l ls => exact .inr rfl

theorem splitOnP_eq_splitOn {t : Text} (h : ∀ c ∈ t, isLineBreak c = true → c = '\n') :
    t.splitOnP isLineBreak = t.splitOn '\n' := by
  induction t with
  | nil => rfl
  | cons c cs ih =>
    obtain ⟨hc, hcs⟩ := List.forall_mem_cons.1 h
    have hbreak : isLineBreak c = (c == '\n') := by
      rw [Bool.eq_iff_iff, beq_iff_eq]
      refine ⟨hc, ?_⟩
      rintro rfl
      rfl
    rw [List.splitOnP_cons_eq_if_modifyHead, List.splitOn_cons_eq_if_modifyHead, hbreak, ih hcs]

def beginsBlank (t : Text) : Bool := t.head?.any PathSelection.isBlank

end Text

theorem View.return_not_mem_of_readText {v : View} {path content : Text}
    (h : v.readText path = .ok content) : '\r' ∉ content := by
  unfold readText at h
  split at h
  · cases h
  · split at h
    · cases h
    · split at h
      · cases h
      · cases h
        exact Text.return_not_mem_unifyNewlines _

theorem BeginsName.exists_name {c : Char} {names : List Name} {isDir : Bool} (hc : c ≠ '/')
    (hne : names ≠ []) (h : BeginsName c (Rule.searched (IgnoreFile.candidate names isDir))) :
    ∃ n ∈ names, n.text.head? = some c := by
  have hsearched : Rule.searched (IgnoreFile.candidate names isDir) =
      IgnoreFile.candidate names isDir := by
    obtain ⟨n, ns, rfl⟩ := List.exists_cons_of_ne_nil hne
    obtain ⟨hn, hslash, hdot, -⟩ := n.proper
    unfold IgnoreFile.candidate
    rw [Name.join_cons]
    split
    · rw [List.append_assoc, Pattern.searched_append hn hslash hdot]
    · rw [Pattern.searched_append hn hslash hdot]
  have hparts : (IgnoreFile.candidate names isDir).splitOn '/' =
      names.map Name.text ++ if isDir then [[]] else [] := by
    unfold IgnoreFile.candidate
    split
    · rw [List.splitOn_append_cons_self, Name.splitOn_join hne]
      rfl
    · rw [Name.splitOn_join hne, List.append_nil]
  rw [hsearched] at h
  obtain ⟨u, w, hsplit, hu⟩ := h
  obtain ⟨s, more, hcs⟩ : ∃ s more, (c :: w).splitOn '/' = (c :: s) :: more := by
    obtain ⟨s, more, hw⟩ := List.exists_cons_of_ne_nil (List.splitOn_ne_nil '/' w)
    refine ⟨s, more, ?_⟩
    rw [List.splitOn_cons_eq_if_modifyHead, if_neg (by simpa using hc), hw]
    rfl
  have hmem : c :: s ∈ names.map Name.text ++ if isDir then [[]] else [] := by
    rw [← hparts, hsplit]
    rcases hu with rfl | hu
    · rw [List.nil_append, hcs]
      exact List.mem_cons_self
    · obtain ⟨u, rfl⟩ := List.getLast?_eq_some_iff.1 hu
      rw [List.append_assoc, List.singleton_append, List.splitOn_append_cons_self, hcs]
      exact List.mem_append_right _ List.mem_cons_self
  rcases List.mem_append.1 hmem with hmem | hmem
  · obtain ⟨n, hn, htext⟩ := List.mem_map.1 hmem
    exact ⟨n, hn, by rw [htext]; rfl⟩
  · cases isDir <;> simp at hmem

theorem Rule.isNote_of_hash {line : Text} (h : line.head? = some '#') : IsNote line := by
  obtain ⟨blanks, hline, hblanks⟩ := exists_trimLine line
  rw [isNote_iff]
  cases htrim : trimLine line with
  | nil => rfl
  | cons c body =>
    rw [hline, htrim] at h
    obtain rfl := Option.some.inj h
    rfl

theorem Rule.isNote_of_isBlank {line : Text} (h : line.isBlank = true) : IsNote line := by
  left
  rw [Text.stripRight, List.reverse_eq_nil_iff, List.dropWhile_eq_nil_iff]
  exact fun c hc => List.all_eq_true.1 h c (List.mem_reverse.1 hc)

namespace IgnoreFile

variable {line content path : Text} {lines : List Text} {rules : List Rule} {r : Rule} {v : View}

/-- A comment behind white space. A rule on such a line would begin with the white space. -/
def isIndentedComment (line : Text) : Bool :=
  line.beginsBlank && line.stripLeft.head? == some '#'

theorem ruleLines_eq (h : '\r' ∉ content) :
    ruleLines content = (content.splitOnP Text.isLineBreak).filter isRuleLine := by
  rcases Text.splitOnP_isLineBreak h with ⟨h, -⟩ | h
  · rw [h, ruleLines]
  · rw [h, List.filter_append, ruleLines]
    exact (List.append_nil _).symm

theorem isIndentedComment_of_left_out (h : isRuleLine line = false)
    (hr : Rule.ofLine? line = some r) : isIndentedComment line = true := by
  have hnote : ¬Rule.IsNote line := by
    intro hnote
    rw [Rule.ofLine?, Rule.ofLine_none_iff.2 (Rule.read_of_note hnote)] at hr
    cases hr
  have hblank : line.isBlank = false :=
    Bool.eq_false_iff.2 fun h => hnote (Rule.isNote_of_isBlank h)
  have hhash : line.stripLeft.head? = some '#' := by
    simpa [isRuleLine, hblank] using h
  rw [isIndentedComment, hhash, beq_self_eq_true, Bool.and_true]
  cases line with
  | nil => cases hhash
  | cons c cs =>
    by_contra hc
    have hkept : Text.stripLeft (c :: cs) = c :: cs := List.dropWhile_cons_of_neg hc
    rw [hkept] at hhash
    exact hnote (Rule.isNote_of_hash hhash)

theorem rules_of_isRuleLine (lines : List Text) :
    (lines.filter isRuleLine).filterMap Rule.ofLine? =
      (lines.filter fun line => !isIndentedComment line).filterMap Rule.ofLine? := by
  rw [List.filterMap_filter, List.filterMap_filter]
  refine List.filterMap_congr fun line _ => ?_
  cases hkept : isRuleLine line with
  | true =>
    have hhash : (line.stripLeft.head? == some '#') = false := by
      simp only [isRuleLine, Bool.and_eq_true, bne_iff_ne] at hkept
      exact beq_eq_false_iff_ne.2 hkept.2
    rw [isIndentedComment, hhash, Bool.and_false]
    rfl
  | false =>
    cases hr : Rule.ofLine? line with
    | none => simp
    | some r =>
      rw [isIndentedComment_of_left_out hkept hr]
      rfl

/-- What is said of the rules on lines that are left out: they take nothing back, and they are only
found where a name begins with white space. -/
def IsIndented (r : Rule) : Prop :=
  r.reincludes = false ∧ ∃ c, isBlank c = true ∧ Rule.AsksFor c r.segments

theorem isIndented_of_comment (h : isIndentedComment line = true)
    (hr : Rule.ofLine? line = some r) : IsIndented r := by
  obtain ⟨hbegins, -⟩ := Bool.and_eq_true_iff.1 h
  obtain ⟨c, hhead, hc⟩ := (Option.any_eq_true _ _).1 hbegins
  unfold Rule.ofLine? at hr
  split at hr
  · next r? hline =>
    rw [hr] at hline
    obtain ⟨hreincludes, hasks⟩ := Rule.asksFor_of_read (Rule.read_of_ofLine hline) hhead hc
    exact ⟨hreincludes, c, hc, hasks⟩
  · cases hr

theorem thinned_rules (lines : List Text) : Thinned IsIndented
    ((lines.filter fun line => !isIndentedComment line).filterMap Rule.ofLine?)
    (lines.filterMap Rule.ofLine?) := by
  refine (Thinned.filter _ lines).filterMap fun line _ hline r hr => ?_
  exact isIndented_of_comment (by simpa using hline) hr

theorem IsIndented.search (h : IsIndented r) {names : List Name} {isDir : Bool} (hne : names ≠ [])
    (hnames : ∀ n ∈ names, n.text.beginsBlank = false) :
    r.search (Rule.searched (candidate names isDir)) = none := by
  obtain ⟨-, c, hc, hasks⟩ := h
  by_contra hfound
  have hslash : c ≠ '/' := by
    rintro rfl
    cases hc
  obtain ⟨n, hn, hhead⟩ :=
    (Rule.beginsName_of_found hasks (Option.isSome_iff_ne_none.2 hfound)).exists_name hslash hne
  have hbegins := hnames n hn
  rw [Text.beginsBlank, hhead, Option.any_some, hc] at hbegins
  cases hbegins

theorem load_of_lines (hread : v.readText (v.absolute path).text = .ok content)
    (hrules : Rule.ofLines (content.splitOnP Text.isLineBreak) = .ok rules) :
    ∃ kept, Rule.ofLines ((content.splitOnP Text.isLineBreak).filter
        fun line => !isIndentedComment line) = .ok kept ∧
      Thinned IsIndented kept rules ∧ load v path = .ok ⟨v.absolute path, kept⟩ := by
  obtain ⟨hlines, rfl⟩ := Rule.ofLines_eq_ok.1 hrules
  have hruleLines : readLines v (v.absolute path).text =
      .ok ((content.splitOnP Text.isLineBreak).filter isRuleLine) := by
    rw [readLines, hread, ← ruleLines_eq (View.return_not_mem_of_readText hread)]
  refine ⟨_, Rule.ofLines_eq_ok.2 ⟨fun line hline => ?_, rfl⟩, thinned_rules _, ?_⟩
  · exact hlines line (List.mem_of_mem_filter hline)
  · refine load_ok hruleLines (Rule.ofLines_eq_ok.2 ⟨fun line hline => ?_, ?_⟩)
    · exact hlines line (List.mem_of_mem_filter hline)
    · exact (rules_of_isRuleLine _).symm

theorem ignores_congr {kept : List Rule} {f : AbsPath} {p : AbsPath} {isDir : Bool}
    (h : ∀ names, names ≠ [] → p = f.parent.descend names →
      Rule.ignores kept (candidate names isDir) = Rule.ignores rules (candidate names isDir)) :
    ignores ⟨f, kept⟩ p isDir = ignores ⟨f, rules⟩ p isDir := by
  rw [Bool.eq_iff_iff, ignores_iff, ignores_iff]
  refine exists_congr fun names => and_congr_right fun hne => and_congr_right fun hp => ?_
  rw [h names hne hp]

namespace Registry

/-- The registry of one file excludes what the rules on its lines ignore, but for the rules on
indented comments. So it excludes nothing that the rules on all lines do not ignore, and it excludes
the same unless there is an indented comment and a name that begins with white space. The lines are
those between line feeds if the text has no other line boundary. -/
theorem excludes_of_lines (hread : v.readText (v.absolute path).text = .ok content)
    (hrules : Rule.ofLines (content.splitOnP Text.isLineBreak) = .ok rules) :
    ((∀ c ∈ content, Text.isLineBreak c = true → c = '\n') →
      content.splitOnP Text.isLineBreak = content.splitOn '\n') ∧
    ∃ registry kept, load v [path] = .ok registry ∧
      Rule.ofLines ((content.splitOnP Text.isLineBreak).filter
        fun line => !isIndentedComment line) = .ok kept ∧
      ∀ p isDir, registry.excludes p isDir = ignores ⟨v.absolute path, kept⟩ p isDir ∧
        (registry.excludes p isDir = true → ignores ⟨v.absolute path, rules⟩ p isDir = true) ∧
        ((∀ line ∈ content.splitOnP Text.isLineBreak, isIndentedComment line = false) ∨
            (∀ names, p = (v.absolute path).parent.descend names →
              ∀ n ∈ names, n.text.beginsBlank = false) →
          registry.excludes p isDir = ignores ⟨v.absolute path, rules⟩ p isDir) := by
  refine ⟨Text.splitOnP_eq_splitOn, ?_⟩
  obtain ⟨kept, hkept, hthinned, hload⟩ := load_of_lines hread hrules
  have hregistry : load v [path] = .ok (empty.add ⟨v.absolute path, kept⟩) := by
    rw [load, List.foldlM_cons, hload]
    rfl
  have hexcludes (p : AbsPath) (isDir : Bool) :
      (empty.add ⟨v.absolute path, kept⟩).excludes p isDir =
        ignores ⟨v.absolute path, kept⟩ p isDir :=
    (excludes_add empty _).trans (Bool.false_or _)
  refine ⟨_, kept, hregistry, hkept, fun p isDir => ⟨hexcludes p isDir, fun h => ?_, ?_⟩⟩
  · rw [hexcludes] at h
    obtain ⟨names, hne, hp, hi⟩ := ignores_iff.1 h
    exact ignores_iff.2 ⟨names, hne, hp, Rule.ignores_of_thinned hthinned (fun _ hr => hr.1) hi⟩
  · rw [hexcludes]
    rintro (hlines | hnames)
    · have hall : (content.splitOnP Text.isLineBreak).filter
          (fun line => !isIndentedComment line) = content.splitOnP Text.isLineBreak :=
        List.filter_eq_self.2 fun line hline => by rw [hlines line hline]; rfl
      rw [hall, hrules] at hkept
      rw [Except.ok.inj hkept]
    · refine ignores_congr fun names hne hp => ?_
      exact Rule.ignores_eq_of_thinned hthinned fun r _ hr => hr.search hne (hnames names hp)

-- A file with an indented comment, and with a line that holds a form feed.
namespace FormFeed

def file : Name := ⟨"ignored".toList, by decide⟩
def comment : Name := ⟨" #a".toList, by decide⟩
def c : Name := ⟨['c'], by decide⟩

def written : Text := " #a\nb\x0cc\n"

def view : View := ⟨⟨[([file], .file " #a\nb\x0cc\n".toUTF8)]⟩, .root⟩

def literal (t : Text) : Rule := ⟨false, false, [.anyDepth, .glob (t.map .literal)]⟩

theorem readText_file : view.readText (view.absolute "/ignored").text = .ok written := by
  have hfile : view.disk.get? [file] = some (.file " #a\nb\x0cc\n".toUTF8) := rfl
  have hpath : view.absolute "/ignored" = ⟨false, [file]⟩ := View.absolute_text view ⟨false, [file]⟩
  rw [hpath, View.readText_direct (v := view) false (by decide) rfl rfl hfile]
  rfl

theorem ofLine_comment : Rule.ofLine " #a" = .ok (some (literal " #a")) :=
  Rule.ofLine_plain (by decide) (by decide) rfl (by decide) rfl

theorem ofLine_b : Rule.ofLine "b" = .ok (some (literal "b")) :=
  Rule.ofLine_plain (by decide) (by decide) rfl (by decide) rfl

theorem ofLine_c : Rule.ofLine "c" = .ok (some (literal "c")) :=
  Rule.ofLine_plain (by decide) (by decide) rfl (by decide) rfl

theorem ofLine_whole : Rule.ofLine "b\x0cc" = .ok (some (literal "b\x0cc")) :=
  Rule.ofLine_plain (by decide) (by decide) rfl (by decide) rfl

theorem ofLines_cut : Rule.ofLines (written.splitOnP Text.isLineBreak) =
    .ok [literal " #a", literal "b", literal "c"] := by
  have hlines : written.splitOnP Text.isLineBreak = [" #a".toList, "b".toList, "c".toList, []] := by
    decide
  rw [hlines, Rule.ofLines]
  simp only [List.mapM_cons, List.mapM_nil, ofLine_comment, ofLine_b, ofLine_c]
  rfl

theorem ofLines_written : Rule.ofLines (written.splitOn '\n') =
    .ok [literal " #a", literal "b\x0cc"] := by
  have hlines : written.splitOn '\n' = [" #a".toList, "b\x0cc".toList, []] := by
    decide
  rw [hlines, Rule.ofLines]
  simp only [List.mapM_cons, List.mapM_nil, ofLine_comment, ofLine_whole]
  rfl

end FormFeed

theorem excluded_beside_indented : ∃ registry, load FormFeed.view ["/ignored"] = .ok registry ∧
    registry.excludes ⟨false, [Retaken.b]⟩ false = true := by
  obtain ⟨-, registry, kept, hload, -, hexcludes⟩ :=
    excludes_of_lines FormFeed.readText_file FormFeed.ofLines_cut
  obtain ⟨-, -, hsame⟩ := hexcludes ⟨false, [Retaken.b]⟩ false
  refine ⟨registry, hload, (hsame (.inr fun names hp => ?_)).trans (by decide)⟩
  obtain rfl : names = [Retaken.b] := (AbsPath.mk.inj hp).2.symm
  decide

/-- The rule behind white space is lost, and the line with the form feed becomes two. -/
theorem indented_rule_lost : ∃ registry, load FormFeed.view ["/ignored"] = .ok registry ∧
    FormFeed.view.readText (FormFeed.view.absolute "/ignored").text = .ok FormFeed.written ∧
    ∃ rules, Rule.ofLines (FormFeed.written.splitOn '\n') = .ok rules ∧
      ignores ⟨FormFeed.view.absolute "/ignored", rules⟩ ⟨false, [FormFeed.comment]⟩ false = true ∧
      registry.excludes ⟨false, [FormFeed.comment]⟩ false = false ∧
      ignores ⟨FormFeed.view.absolute "/ignored", rules⟩ ⟨false, [FormFeed.c]⟩ false = false ∧
      registry.excludes ⟨false, [FormFeed.c]⟩ false = true := by
  have hload : load FormFeed.view ["/ignored"] = .ok (empty.add
      ⟨FormFeed.view.absolute "/ignored", [FormFeed.literal "b", FormFeed.literal "c"]⟩) := by
    have hlines : readLines FormFeed.view (FormFeed.view.absolute "/ignored").text =
        .ok ["b".toList, "c".toList] := by
      rw [readLines, FormFeed.readText_file]
      decide
    have hrules : Rule.ofLines ["b".toList, "c".toList] =
        .ok [FormFeed.literal "b", FormFeed.literal "c"] := by
      rw [Rule.ofLines]
      simp only [List.mapM_cons, List.mapM_nil, FormFeed.ofLine_b, FormFeed.ofLine_c]
      rfl
    rw [load, List.foldlM_cons, load_ok hlines hrules]
    rfl
  refine ⟨_, hload, FormFeed.readText_file, _, FormFeed.ofLines_written, ?_⟩
  decide

end Registry
end IgnoreFile
end PathSelection
