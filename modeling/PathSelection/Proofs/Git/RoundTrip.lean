import PathSelection.Proofs.Git.Listing

namespace PathSelection

namespace Text

def endsBlank (t : Text) : Bool := t.getLast?.any PathSelection.isBlank

theorem stripRight_of_endsBlank {t : Text} (h : t.endsBlank = false) : stripRight t = t := by
  refine stripRight_of_unblank fun c hc => ?_
  rwa [endsBlank, hc, Option.any_some] at h

theorem length_stripRight_lt {t : Text} (h : t.endsBlank = true) :
    (stripRight t).length < t.length := by
  obtain ⟨c, hlast, hc⟩ := (Option.any_eq_true _ _).1 h
  obtain ⟨init, rfl⟩ := List.getLast?_eq_some_iff.1 hlast
  have hinit : stripRight (init ++ [c]) = stripRight init := by
    rw [stripRight, List.reverse_append, List.reverse_singleton, List.singleton_append,
      List.dropWhile_cons_of_pos hc, stripRight]
  have hle := (List.dropWhile_sublist PathSelection.isBlank (l := init.reverse)).length_le
  rw [hinit, stripRight, List.length_reverse, List.length_append, List.length_singleton]
  rw [List.length_reverse] at hle
  omega

theorem exists_leadingSlashes (t : Text) :
    ∃ rest, t = List.replicate t.leadingSlashes '/' ++ rest := by
  unfold leadingSlashes
  split
  · exact ⟨_, rfl⟩
  · exact ⟨_, rfl⟩
  · exact ⟨_, rfl⟩
  · exact ⟨_, rfl⟩

theorem length_below_le (directory : Text) {name : Text} (h : name.isAbsolute = false) :
    (directory.below name).length ≤ directory.length + 1 + name.length := by
  rw [below, if_neg (by simp [h])]
  split
  · rw [List.length_append]
    omega
  · rw [List.length_append, List.length_cons]
    omega

end Text

theorem length_intercalate_le {ps qs : List Text} (h : ps.Sublist qs) :
    (['/'].intercalate ps).length ≤ (['/'].intercalate qs).length := by
  induction h with
  | slnil => exact Nat.le_refl _
  | @cons ps qs q h ih =>
    refine Nat.le_trans ih ?_
    cases qs with
    | nil => exact Nat.zero_le _
    | cons q' qs =>
      rw [List.intercalate_cons_cons, List.length_append, List.length_append]
      omega
  | @cons_cons ps qs p h ih =>
    cases ps with
    | nil =>
      cases qs with
      | nil => exact Nat.le_refl _
      | cons q qs =>
        rw [List.intercalate_singleton, List.intercalate_cons_cons, List.length_append,
          List.length_append]
        omega
    | cons p' ps =>
      obtain ⟨q, qs, rfl⟩ :=
        List.exists_cons_of_ne_nil (List.ne_nil_of_mem (h.subset List.mem_cons_self))
      rw [List.intercalate_cons_cons, List.intercalate_cons_cons]
      simp only [List.length_append]
      omega

namespace WrittenPath

theorem length_text_ofText {t : Text} (h : t ≠ []) : (ofText t).text.length ≤ t.length := by
  obtain ⟨rest, hrest⟩ := t.exists_leadingSlashes
  have hsplit (n : Nat) : (List.replicate n '/' ++ rest).splitOn '/' =
      List.replicate n [] ++ rest.splitOn '/' := by
    induction n with
    | zero => rfl
    | succ n ih =>
      rw [List.replicate_succ, List.replicate_succ, List.cons_append, List.cons_append, ← ih]
      exact List.splitOn_append_cons_self [] _
  have hparts : (ofText t).parts.Sublist (rest.splitOn '/') := by
    have hnone : (List.replicate t.leadingSlashes ([] : Text)).filter
        (fun part => part != [] && part != ['.']) = [] :=
      List.filter_eq_nil_iff.2 fun part hpart => by simp [List.eq_of_mem_replicate hpart]
    have hwhole : t.splitOn '/' = List.replicate t.leadingSlashes [] ++ rest.splitOn '/' := by
      conv_lhs => rw [hrest]
      exact hsplit _
    rw [ofText, hwhole, List.filter_append, hnone, List.nil_append]
    exact List.filter_sublist
  rw [text]
  split
  · exact List.length_pos_iff.2 h
  · have hle := length_intercalate_le hparts
    rw [List.intercalate_splitOn] at hle
    have hlength : t.length = t.leadingSlashes + rest.length := by
      rw [← List.length_replicate (n := t.leadingSlashes) (a := '/'), ← List.length_append, ← hrest]
    rw [List.length_append, List.length_replicate, hlength]
    exact Nat.add_le_add_left hle _

end WrittenPath

namespace Git

variable {σ π : Type} {g : Git σ π} {top : AbsPath} {names : List Text} {w : Workspace σ π}

/-- Wherever git is asked, it tells one top level, on a line, and the same staged names, a null
character after each. -/
structure Tells (g : Git σ π) (top : AbsPath) (names : List Text) : Prop where
  topLevel : ∀ place git d, ∃ errors, (g.run .topLevel place git d).1 =
    .exited 0 (String.ofList (top.text ++ ['\n'])).toUTF8 errors
  staged : ∀ place git d, ∃ errors, (g.run (.changed .headToIndex) place git d).1 =
    .exited 0 (String.ofList (names.flatMap fun n => n ++ ['\x00'])).toUTF8 errors

def understood (top : AbsPath) : WrittenPath := .ofText top.text.stripRight

namespace Tells

theorem topLevel_understood (directory : Text) (h : g.Tells top names)
    (hw : ∀ known, w.memory.top = some known → known = understood top) :
    ∃ w', g.topLevel directory w = .ok (understood top) w' ∧
      w'.memory.top = some (understood top) := by
  cases ht : w.memory.top with
  | some known =>
    obtain rfl := hw known ht
    exact ⟨w, topLevel_of_known ht, ht⟩
  | none =>
    obtain ⟨errors, hr⟩ := h.topLevel directory w.git w.disk
    have ha := ask_of_exited hr (List.mem_singleton_self 0)
    exact ⟨_, topLevel_of_line ht top.isAbsolute_text ha, rfl⟩

theorem stagedFiles_understood (directory : Text) (h : g.Tells top names)
    (hw : ∀ known, w.memory.top = some known → known = understood top)
    (hnames : ∀ n ∈ names, n ≠ [] ∧ '\x00' ∉ n) :
    ∃ w', g.stagedFiles directory w =
      .ok (names.eraseDups.map (understood top).text.below) w' ∧
        w'.memory.top = some (understood top) := by
  obtain ⟨w₁, ht, hw₁⟩ := h.topLevel_understood directory hw
  obtain ⟨errors, hr⟩ := h.staged (understood top).text w₁.git w₁.disk
  have hlisted : splitNames (names.flatMap fun n => n ++ ['\x00']) = names := by
    rw [splitNames_terminated fun n hn => (hnames n hn).2]
    exact List.filter_eq_self.2 fun n hn => by simpa using (hnames n hn).1
  obtain ⟨w₂, ha, hw₂⟩ : ∃ w₂, g.ask (.changed .headToIndex) (understood top).text [0] w₁ =
      .ok (String.ofList (names.flatMap fun n => n ++ ['\x00'])).toUTF8 w₂ ∧
        w₂.memory.top = some (understood top) :=
    ⟨_, ask_of_exited hr (List.mem_singleton_self 0), hw₁⟩
  have hask := askNames_of_told ht ha
  rw [String.toList_ofList, hlisted] at hask
  refine ⟨w₂, ?_, hw₂⟩
  rw [stagedFiles, Run.bind_of_ok hask, located, Run.bind_of_ok (topLevel_of_known hw₂)]
  rfl

end Tells

theorem understood_of_unblank (h : top.text.endsBlank = false) :
    (understood top).text = top.text := by
  rw [understood, Text.stripRight_of_endsBlank h, AbsPath.ofText_text_written,
    AbsPath.text_written]

theorem length_understood_lt (h : top.text.endsBlank = true) :
    (understood top).text.length < top.text.length :=
  Nat.lt_of_le_of_lt
    (WrittenPath.length_text_ofText (Text.stripRight_ne_nil top.isAbsolute_text))
    (Text.length_stripRight_lt h)

theorem names_ne_nil_of_endsBlank (h : top.text.endsBlank = true) : top.names ≠ [] := by
  intro hn
  rw [AbsPath.text, hn] at h
  cases hd : top.doubled <;> rw [hd] at h <;> cases h

/-- Staged names are always told as paths, each once, in the order of their first occurrences. The
paths are those below the top level, unless there are some and the top level ends in white space. -/
theorem stagedFiles_of_tells (directory : Text) (h : g.Tells top names)
    (hw : ∀ known, w.memory.top = some known → known = understood top)
    (hnames : ∀ n ∈ names, n ≠ [] ∧ '\x00' ∉ n ∧ n.isAbsolute = false) :
    ∃ paths w', g.stagedFiles directory w = .ok paths w' ∧
      w'.memory.top = some (understood top) ∧
      paths = names.eraseDups.map (understood top).text.below ∧
      (paths = names.eraseDups.map (fun n =>
          top.text ++ if top.names = [] then n else '/' :: n) ↔
        names = [] ∨ top.text.endsBlank = false) := by
  obtain ⟨w', hfiles, htop⟩ := h.stagedFiles_understood directory hw
    fun n hn => ⟨(hnames n hn).1, (hnames n hn).2.1⟩
  have hrelative : ∀ n ∈ names.eraseDups, n.isAbsolute = false :=
    fun n hn => (hnames n (List.mem_eraseDups.1 hn)).2.2
  refine ⟨_, w', hfiles, htop, rfl, ?_⟩
  constructor
  · intro hpaths
    by_contra hne
    obtain ⟨hne, hblank⟩ := not_or.1 hne
    rw [Bool.not_eq_false] at hblank
    obtain ⟨n, hn⟩ := List.exists_mem_of_ne_nil names hne
    have hn := List.mem_eraseDups.2 hn
    -- What is understood is shorter, and so is every path below it.
    have heq := congrArg List.length (List.map_inj_left.1 hpaths n hn)
    rw [if_neg (names_ne_nil_of_endsBlank hblank), List.length_append, List.length_cons] at heq
    have hle := Text.length_below_le (understood top).text (hrelative n hn)
    have hlt := length_understood_lt hblank
    omega
  · rintro (rfl | hblank)
    · rfl
    · refine List.map_congr_left fun n hn => ?_
      rw [understood_of_unblank hblank, top.below_relative (hrelative n hn)]

-- A git that tells the same each time.

def telling (top : AbsPath) (names : List Text) : Git Unit Unit where
  run command _ _ d :=
    let output : Text := match command with
      | .topLevel => top.text ++ ['\n']
      | .changed .headToIndex => names.flatMap fun n => n ++ ['\x00']
      | _ => []
    (.exited 0 (String.ofList output).toUTF8 [], (), d)
  diff _ _ d := (.exited 0 () [], (), d)
  apply _ _ _ _ d := (.exited 0 () [], (), d)
  isBlank _ := true

theorem tells_telling (top : AbsPath) (names : List Text) : (telling top names).Tells top names :=
  ⟨fun _ _ _ => ⟨[], rfl⟩, fun _ _ _ => ⟨[], rfl⟩⟩

namespace Spaced

def t : Name := ⟨['t'], by decide⟩
def spaced : Name := ⟨['t', ' '], by decide⟩
def fresh : Workspace Unit Unit := .start ⟨⟨[]⟩, .root⟩ () "/tmp"

end Spaced

/-- White space in names, and at the end of a directory above the top level, is kept. -/
theorem names_with_blanks_staged : ∃ w',
    (telling ⟨false, [Spaced.spaced, Spaced.t]⟩ [" f\n", "g", " f\n"]).stagedFiles "/"
      Spaced.fresh = .ok ["/t /t/ f\n", "/t /t/g"] w' := by
  obtain ⟨paths, w', hfiles, -, -, hpaths⟩ :=
    stagedFiles_of_tells "/" (w := Spaced.fresh)
      (tells_telling ⟨false, [Spaced.spaced, Spaced.t]⟩ [" f\n", "g", " f\n"]) nofun (by decide)
  rw [hpaths.2 (.inr rfl)] at hfiles
  exact ⟨w', hfiles⟩

/-- A top level that ends in white space is taken for another directory. -/
theorem spaced_top_level_lost :
    (telling ⟨false, [Spaced.spaced]⟩ ["f"]).Tells ⟨false, [Spaced.spaced]⟩ ["f"] ∧
      (∃ w', (telling ⟨false, [Spaced.spaced]⟩ ["f"]).stagedFiles "/" Spaced.fresh =
        .ok ["/t/f"] w') ∧
      (["f"] : List Text).map (fun n => AbsPath.text ⟨false, [Spaced.spaced]⟩ ++ '/' :: n) =
        ["/t /f"] := by
  have htells := tells_telling ⟨false, [Spaced.spaced]⟩ ["f"]
  obtain ⟨w', hfiles, -⟩ :=
    htells.stagedFiles_understood "/" (w := Spaced.fresh) nofun (by decide)
  exact ⟨htells, ⟨w', hfiles⟩, rfl⟩

end Git
end PathSelection
