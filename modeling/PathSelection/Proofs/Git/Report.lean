import Mathlib.Data.List.Nodup
import Mathlib.Data.List.TakeWhile
import PathSelection.Git.Repository
import PathSelection.Proofs.Disk.Follow
import PathSelection.Proofs.Git.Commands
import PathSelection.Proofs.Path.Written

namespace PathSelection

theorem Text.strip_terminated {t : Text} (hslash : t.isAbsolute = true) :
    strip (t ++ ['\n']) = stripRight t := by
  have hleft : stripLeft (t ++ ['\n']) = t ++ ['\n'] := by
    cases t with
    | nil => cases hslash
    | cons c cs =>
      obtain rfl : c = '/' := by simpa [Text.isAbsolute] using hslash
      exact List.dropWhile_cons_of_neg (by decide)
  rw [strip, hleft, stripRight, List.reverse_append]
  rfl

theorem Text.stripRight_of_unblank {t : Text}
    (hlast : ∀ c, t.getLast? = some c → PathSelection.isBlank c = false) : stripRight t = t := by
  have hright : t.reverse.dropWhile PathSelection.isBlank = t.reverse := by
    cases hr : t.reverse with
    | nil => rfl
    | cons c cs =>
      have hc : t.getLast? = some c := by rw [← List.head?_reverse, hr]; rfl
      exact List.dropWhile_cons_of_neg (by simp [hlast c hc])
  rw [stripRight, hright, List.reverse_reverse]

theorem Text.stripRight_ne_nil {t : Text} (h : t.isAbsolute = true) : stripRight t ≠ [] := by
  intro hnil
  rw [stripRight, List.reverse_eq_nil_iff, List.dropWhile_eq_nil_iff] at hnil
  have hslash := hnil '/' (List.mem_reverse.2 (List.mem_of_head? (beq_iff_eq.1 h)))
  cases hslash

namespace Repository

open Git

variable {r : Repository} {d : Disk} {names : List Name} {ignored : List Name → Bool}

def topPath (r : Repository) : AbsPath := ⟨false, r.top⟩

/-- The path of the top level does not end in white space, so it can be told from a line. -/
def EndsUnblank (r : Repository) : Prop :=
  ∀ c, r.topPath.text.getLast? = some c → PathSelection.isBlank c = false

def path (r : Repository) (names : List Name) : AbsPath := r.topPath.descend names

def IsTracked (r : Repository) (names : List Name) : Prop := r.index.lookup names ≠ none

def older? (r : Repository) (names : List Name) : Comparison → Option Entry
  | .headToFiles | .headToIndex => r.committed? names
  | .indexToFiles => r.index.lookup names

def newer? (r : Repository) (d : Disk) (names : List Name) : Comparison → Option Entry
  | .headToFiles | .indexToFiles => r.file? d names
  | .headToIndex => r.index.lookup names

/-- A tracked file of which two versions differ, unless there is no newer one. -/
structure HasChanged (r : Repository) (d : Disk) (c : Comparison) (names : List Name) : Prop where
  tracked : r.IsTracked names
  differs : r.older? names c ≠ r.newer? d names c
  present : r.newer? d names c ≠ none

/-- A file of the working tree that is neither tracked nor ignored. What git keeps for itself does
not belong to the working tree. -/
structure IsUntracked (r : Repository) (d : Disk) (ignored : List Name → Bool)
    (names : List Name) : Prop where
  present : r.file? d names ≠ none
  untracked : ¬r.IsTracked names
  unignored : ignored names = false
  foreign : ownName ∉ names

/-- A file of the working tree that differs from the last commit, or is untracked. As long as there
is no commit, every tracked file differs from it. -/
def IsModified (r : Repository) (d : Disk) (ignored : List Name → Bool) (names : List Name) :
    Prop :=
  r.HasChanged d .headToFiles names ∨ r.IsUntracked d ignored names

/-- A tracked file that is not in the working tree. -/
structure IsDeleted (r : Repository) (d : Disk) (names : List Name) : Prop where
  tracked : r.IsTracked names
  missing : r.file? d names = none

theorem IsModified.present (h : r.IsModified d ignored names) : r.file? d names ≠ none := by
  cases h with
  | inl h => exact h.present
  | inr h => exact h.present

theorem hasChanged_headToIndex (h : r.head = none) :
    r.HasChanged d .headToIndex names ↔ r.IsTracked names := by
  constructor
  · intro hc
    exact hc.tracked
  · intro ht
    have hnone : r.committed? names = none := by rw [committed?, h]; rfl
    refine ⟨ht, ?_, ht⟩
    rw [older?, hnone]
    exact ht.symm

theorem hasChanged_headToFiles (h : r.head = none) :
    r.HasChanged d .headToFiles names ↔ r.IsTracked names ∧ r.file? d names ≠ none := by
  constructor
  · intro hc
    exact ⟨hc.tracked, hc.present⟩
  · rintro ⟨ht, hp⟩
    have hnone : r.committed? names = none := by rw [committed?, h]; rfl
    refine ⟨ht, ?_, hp⟩
    rw [older?, hnone]
    exact hp.symm

/-- Without a commit, the comparisons with the index add the tracked files that are not in the
working tree to the modified ones. -/
theorem tracked_or_untracked (h : r.head = none) :
    ((r.HasChanged d .headToIndex names ∨ r.HasChanged d .indexToFiles names) ∨
        r.IsUntracked d ignored names) ↔
      r.IsModified d ignored names ∨ r.IsDeleted d names := by
  rw [hasChanged_headToIndex h, IsModified, hasChanged_headToFiles h]
  constructor
  · rintro ((ht | hc) | hu)
    · by_cases hp : r.file? d names = none
      · exact .inr ⟨ht, hp⟩
      · exact .inl (.inl ⟨ht, hp⟩)
    · exact .inl (.inl ⟨hc.tracked, hc.present⟩)
    · exact .inl (.inr hu)
  · rintro ((⟨ht, -⟩ | hu) | hd)
    · exact .inl (.inl ht)
    · exact .inr hu
    · exact .inl (.inl hd.tracked)

end Repository

namespace Git

variable {σ π : Type}

/-- An answer that lists the names with a property. -/
def Lists (reply : Reply ByteArray) (P : List Name → Prop) : Prop :=
  ∃ (s : String) (errors : Text), reply = .exited 0 s.toUTF8 errors ∧
    ∀ t, t ∈ splitNames s.toList ↔ ∃ names, names ≠ [] ∧ P names ∧ Name.join names = t

/-- In some states of its own, git tells of a repository on a disk what it is relied on for. Where
the top level is it is asked in a directory, and the rest at the top level. -/
structure Reports (g : Git σ π) (states : σ → Prop) (d : Disk) (r : Repository)
    (ignored : List Name → Bool) (directory : Text) : Prop where
  question : ∀ command directory git, Command.isQuestion command = true → states git →
    states (g.run command directory git d).2.1 ∧ (g.run command directory git d).2.2 = d
  top : ∀ git, states git → ∃ errors, (g.run .topLevel directory git d).1 =
    .exited 0 (String.ofList (r.topPath.text ++ ['\n'])).toUTF8 errors
  head : ∀ git, states git → ∃ code output errors,
    (g.run .head directory git d).1 = .exited code output errors ∧ code ∈ [(0 : Int), 1] ∧
      (!output.data.all isBlankByte) = r.head.isSome
  changed : ∀ comparison git, states git →
    Lists (g.run (.changed comparison) r.topPath.text git d).1 (r.HasChanged d comparison)
  untracked : ∀ git, states git →
    Lists (g.run .untracked r.topPath.text git d).1 (r.IsUntracked d ignored)

/-- A workspace in which git is in one of its states, and at most the top level is known. -/
structure Ready (states : σ → Prop) (d : Disk) (r : Repository) (w : Workspace σ π) : Prop where
  git : states w.git
  disk : w.disk = d
  top : ∀ known, w.memory.top = some known → known = r.topPath.written

theorem decode_toUTF8 (command : Command) (s : String) (w : Workspace σ π) :
    (decode command s.toUTF8 : Run σ π Text) w = .ok s.toList w := by
  rw [decode, fromUTF8?_toUTF8]
  rfl

variable {g : Git σ π} {directory : Text} {command : Command} {w w₁ w₂ : Workspace σ π}

theorem topLevel_of_line (ht : w.memory.top = none) {t : Text} (hslash : t.isAbsolute = true)
    (ha : g.ask .topLevel directory [0] w = .ok (String.ofList (t ++ ['\n'])).toUTF8 w₁) :
    g.topLevel directory w = .ok (.ofText t.stripRight) (w₁.withTop (.ofText t.stripRight)) := by
  rw [topLevel_of_unknown ht, Run.bind_of_ok ha, Run.bind_of_ok (decode_toUTF8 _ _ _),
    String.toList_ofList, Text.strip_terminated hslash, tellTop,
    if_neg (Text.stripRight_ne_nil hslash)]
  rfl

theorem askNames_of_told {top : WrittenPath} (ht : g.topLevel directory w = .ok top w₁)
    {s : String} (ha : g.ask command top.text [0] w₁ = .ok s.toUTF8 w₂) :
    g.askNames directory command w = .ok (splitNames s.toList) w₂ := by
  have htext : g.askText directory command w = .ok s.toList w₂ := by
    rw [askText, Run.bind_of_ok ht, Run.bind_of_ok ha, decode_toUTF8]
  rw [askNames, Run.bind_of_ok htext]
  rfl

namespace Reports

variable {states : σ → Prop} {d : Disk} {r : Repository} {ignored : List Name → Bool}

theorem ask (h : g.Reports states d r ignored directory) (hw : Ready states d r w)
    (hc : command.isQuestion = true) {place : Text} {code : Int} {codes : List Int}
    {output : ByteArray} {errors : Text}
    (hr : (g.run command place w.git d).1 = .exited code output errors) (hcode : code ∈ codes) :
    ∃ w', g.ask command place codes w = .ok output w' ∧ Ready states d r w' := by
  obtain ⟨hgit, rfl, htop⟩ := hw
  obtain ⟨hstate, hdisk⟩ := h.question command place w.git hc hgit
  exact ⟨_, ask_of_exited hr hcode, hstate, hdisk, htop⟩

theorem topLevel (h : g.Reports states d r ignored directory) (hw : Ready states d r w)
    (hlast : r.EndsUnblank) :
    ∃ w', g.topLevel directory w = .ok r.topPath.written w' ∧ Ready states d r w' := by
  cases ht : w.memory.top with
  | some known =>
    obtain rfl := hw.top known ht
    exact ⟨w, topLevel_of_known ht, hw⟩
  | none =>
    obtain ⟨errors, hr⟩ := h.top w.git hw.git
    obtain ⟨w', ha, hw'⟩ := h.ask hw rfl hr (List.mem_singleton_self 0)
    have htop := topLevel_of_line ht r.topPath.isAbsolute_text ha
    rw [Text.stripRight_of_unblank hlast, AbsPath.ofText_text_written] at htop
    refine ⟨w'.withTop r.topPath.written, htop, hw'.git, hw'.disk, ?_⟩
    intro known hk
    exact (Option.some.inj hk).symm

theorem askNames (h : g.Reports states d r ignored directory) (hw : Ready states d r w)
    (hlast : r.EndsUnblank) (hc : command.isQuestion = true) {P : List Name → Prop}
    (hr : ∀ git, states git → Lists (g.run command r.topPath.text git d).1 P) :
    ∃ names w', g.askNames directory command w = .ok names w' ∧ Ready states d r w' ∧
      ∀ t, t ∈ names ↔ ∃ ns, ns ≠ [] ∧ P ns ∧ Name.join ns = t := by
  obtain ⟨w₁, ht, hw₁⟩ := h.topLevel hw hlast
  obtain ⟨s, errors, hreply, hs⟩ := hr w₁.git hw₁.git
  rw [← AbsPath.text_written] at hreply
  obtain ⟨w₂, ha, hw₂⟩ := h.ask hw₁ hc hreply (List.mem_singleton_self 0)
  exact ⟨splitNames s.toList, w₂, askNames_of_told ht ha, hw₂, hs⟩

theorem hasHead (h : g.Reports states d r ignored directory) (hw : Ready states d r w) :
    ∃ w', g.hasHead directory w = .ok r.head.isSome w' ∧ Ready states d r w' := by
  obtain ⟨code, output, errors, hreply, hcode, hhead⟩ := h.head w.git hw.git
  obtain ⟨w', ha, hw'⟩ := h.ask hw rfl hreply hcode
  refine ⟨w', ?_, hw'⟩
  rw [Git.hasHead, Run.bind_of_ok ha, hhead]
  rfl

theorem located (h : g.Reports states d r ignored directory) (hw : Ready states d r w)
    (hlast : r.EndsUnblank) {names : List Text} {P : List Name → Prop}
    (hn : ∀ t, t ∈ names ↔ ∃ ns, ns ≠ [] ∧ P ns ∧ Name.join ns = t) :
    ∃ paths w', g.located directory names w = .ok paths w' ∧ Ready states d r w' ∧
      paths.Nodup ∧ ∀ t, t ∈ paths ↔ ∃ ns, ns ≠ [] ∧ P ns ∧ (r.path ns).text = t := by
  obtain ⟨w', ht, hw'⟩ := h.topLevel hw hlast
  have hpath : ∀ t ∈ names.eraseDups, ∃ ns, ns ≠ [] ∧ P ns ∧ Name.join ns = t ∧
      r.topPath.text.below t = (r.path ns).text := by
    intro t hmem
    obtain ⟨ns, hne, hP, rfl⟩ := (hn t).1 (List.mem_eraseDups.1 hmem)
    exact ⟨ns, hne, hP, rfl, r.topPath.text_below hne⟩
  refine ⟨names.eraseDups.map r.topPath.text.below, w', ?_, hw', ?_, ?_⟩
  · rw [Git.located, Run.bind_of_ok ht, AbsPath.text_written]
    rfl
  · apply (nodup_eraseDups names).map_on
    intro t hmem u hmem' heq
    obtain ⟨ms, -, -, rfl, hms⟩ := hpath t hmem
    obtain ⟨ns, -, -, rfl, hns⟩ := hpath u hmem'
    rw [hms, hns] at heq
    rw [AbsPath.descend_inj (AbsPath.text_injective heq)]
  · intro t
    constructor
    · intro hmem
      obtain ⟨u, hu, rfl⟩ := List.mem_map.1 hmem
      obtain ⟨ns, hne, hP, -, hns⟩ := hpath u hu
      exact ⟨ns, hne, hP, hns.symm⟩
    · rintro ⟨ns, hne, hP, rfl⟩
      apply List.mem_map.2
      exact ⟨Name.join ns, List.mem_eraseDups.2 ((hn _).2 ⟨ns, hne, hP, rfl⟩),
        r.topPath.text_below hne⟩

/-- The files that git is asked for are the modified ones, each once. As long as there is no
commit, the files that were staged and then deleted are among them. -/
theorem modifiedFiles (h : g.Reports states d r ignored directory) (hw : Ready states d r w)
    (hlast : r.EndsUnblank) : ∃ paths w', g.modifiedFiles directory w = .ok paths w' ∧
      Ready states d r w' ∧ paths.Nodup ∧ ∀ t, t ∈ paths ↔ ∃ ns, ns ≠ [] ∧
        (r.IsModified d ignored ns ∨ r.head = none ∧ r.IsDeleted d ns) ∧
        (r.path ns).text = t := by
  obtain ⟨w₁, hhead, hw₁⟩ := h.hasHead hw
  cases hr : r.head with
  | some tree =>
    rw [hr] at hhead
    obtain ⟨names, w₂, hnames, hw₂, hn⟩ := h.askNames hw₁ hlast rfl (h.changed .headToFiles)
    obtain ⟨untracked, w₃, huntracked, hw₃, hu⟩ := h.askNames hw₂ hlast rfl h.untracked
    have hall : ∀ t, t ∈ names ++ untracked ↔
        ∃ ns, ns ≠ [] ∧ r.IsModified d ignored ns ∧ Name.join ns = t := by
      intro t
      rw [List.mem_append, hn, hu]
      simp only [Repository.IsModified, or_and_right, and_or_left, exists_or]
    obtain ⟨paths, w₄, hpaths, hw₄, hnodup, hp⟩ := h.located hw₃ hlast hall
    refine ⟨paths, w₄, ?_, hw₄, hnodup, ?_⟩
    · rw [Git.modifiedFiles, Run.bind_of_ok hhead]
      exact (Run.bind_of_ok hnames).trans ((Run.bind_of_ok huntracked).trans hpaths)
    · simpa using hp
  | none =>
    rw [hr] at hhead
    obtain ⟨staged, w₂, hstaged, hw₂, hs⟩ := h.askNames hw₁ hlast rfl (h.changed .headToIndex)
    obtain ⟨edited, w₃, hedited, hw₃, he⟩ := h.askNames hw₂ hlast rfl (h.changed .indexToFiles)
    obtain ⟨untracked, w₄, huntracked, hw₄, hu⟩ := h.askNames hw₃ hlast rfl h.untracked
    have hall : ∀ t, t ∈ staged ++ edited ++ untracked ↔ ∃ ns, ns ≠ [] ∧
        (r.IsModified d ignored ns ∨ r.IsDeleted d ns) ∧ Name.join ns = t := by
      intro t
      rw [List.mem_append, List.mem_append, hs, he, hu]
      simp only [← Repository.tracked_or_untracked hr, or_and_right, and_or_left, exists_or]
    obtain ⟨paths, w₅, hpaths, hw₅, hnodup, hp⟩ := h.located hw₄ hlast hall
    refine ⟨paths, w₅, ?_, hw₅, hnodup, ?_⟩
    · rw [Git.modifiedFiles, Run.bind_of_ok hhead]
      exact (Run.bind_of_ok hstaged).trans ((Run.bind_of_ok hedited).trans
        ((Run.bind_of_ok huntracked).trans hpaths))
    · simpa using hp

end Reports
end Git
end PathSelection
