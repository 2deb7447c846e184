import PathSelection.Proofs.Entries
import PathSelection.Proofs.Git.Report

namespace PathSelection

namespace Git

theorem splitOn_terminated {c : Char} {ts : List Text} (h : ∀ t ∈ ts, c ∉ t) :
    (ts.flatMap fun t => t ++ [c]).splitOn c = ts ++ [[]] := by
  induction ts with
  | nil => rfl
  | cons t ts ih =>
    have ih := ih fun u hu => h u (List.mem_cons_of_mem _ hu)
    have ht : t.splitOn c = [t] := by
      rw [← List.splitOn_intercalate c (List.forall_mem_singleton.2 (h t List.mem_cons_self))
        (List.cons_ne_nil t []), List.intercalate_singleton]
    rw [List.flatMap_cons, List.append_assoc, List.singleton_append, List.splitOn_append_cons_self,
      ih, ht]
    rfl

theorem splitNames_terminated {ts : List Text} (h : ∀ t ∈ ts, '\x00' ∉ t) :
    splitNames (ts.flatMap fun t => t ++ ['\x00']) = ts.filter (· ≠ []) := by
  rw [splitNames, splitOn_terminated h, List.filter_append]
  exact List.append_nil _

end Git

namespace Repository

open Git

variable {r : Repository} {d : Disk} {names : List Name} {ignored : List Name → Bool}

/-- The index is a table, and no name on the way to a file holds the character that ends names in
a listing. -/
structure Listable (r : Repository) (d : Disk) : Prop where
  index : (r.index.map Prod.fst).Nodup
  tracked : ∀ names, r.IsTracked names → '\x00' ∉ Name.join names
  files : ∀ names, r.file? d names ≠ none → '\x00' ∉ Name.join names

theorem differs_iff {staged : Entry} {c : Comparison} (h : r.index.lookup names = some staged) :
    r.differs d names staged c = true ↔
      r.older? names c ≠ r.newer? d names c ∧ r.newer? d names c ≠ none := by
  cases c with
  | headToFiles =>
    rw [differs, older?, newer?]
    cases r.file? d names with
    | none => simp only [Bool.false_eq_true, ne_eq, not_true_eq_false, and_false]
    | some e => simp only [bne_iff_ne, ne_eq, reduceCtorEq, not_false_eq_true, and_true]
  | headToIndex =>
    rw [differs, older?, newer?, h]
    simp only [bne_iff_ne, ne_eq, reduceCtorEq, not_false_eq_true, and_true]
  | indexToFiles =>
    rw [differs, older?, newer?, h]
    cases r.file? d names with
    | none => simp only [Bool.false_eq_true, ne_eq, not_true_eq_false, and_false]
    | some e =>
      simp only [bne_iff_ne, ne_eq, Option.some.injEq, reduceCtorEq, not_false_eq_true, and_true,
        eq_comm (a := staged)]

theorem mem_changed (h : (r.index.map Prod.fst).Nodup) {c : Comparison} :
    names ∈ r.changed d c ↔ r.HasChanged d c names := by
  rw [changed, Tree.sorted, (List.mergeSort_perm _ _).mem_iff, List.mem_map]
  constructor
  · rintro ⟨⟨names', e⟩, he, rfl⟩
    obtain ⟨he, hdiffers⟩ := List.mem_filter.1 he
    have hlookup := (Entries.lookup_eq_some h).2 he
    obtain ⟨hne, hpresent⟩ := (differs_iff hlookup).1 hdiffers
    exact ⟨by simp [IsTracked, hlookup], hne, hpresent⟩
  · intro hc
    obtain ⟨e, hlookup⟩ := Option.ne_none_iff_exists'.1 hc.tracked
    obtain ⟨l₁, l₂, he, -⟩ := List.lookup_eq_some_iff.1 hlookup
    have hmem : (names, e) ∈ r.index := by simp [he]
    exact ⟨(names, e), List.mem_filter.2 ⟨hmem, (differs_iff hlookup).2 ⟨hc.differs, hc.present⟩⟩,
      rfl⟩

theorem mem_files : names ∈ r.files d ↔ r.file? d names ≠ none ∧ ownName ∉ names := by
  have hfile (names : List Name) :
      (d.get? (r.top ++ names)).any Entry.isLeaf = true ↔ r.file? d names ≠ none := by
    rw [file?]
    cases d.get? (r.top ++ names) with
    | none => simp
    | some e => cases he : e.isLeaf <;> simp [he]
  rw [files, List.mem_filter]
  simp only [Bool.not_eq_true', List.contains_eq_mem, decide_eq_false_iff_not, and_congr_left_iff]
  intro _
  simp only [List.mem_map, List.mem_eraseDups, List.mem_filter, Bool.and_eq_true,
    List.isPrefixOf_iff_prefix]
  constructor
  · rintro ⟨p, ⟨-, ⟨rest, rfl⟩, hleaf⟩, rfl⟩
    rw [List.drop_left]
    exact (hfile rest).1 hleaf
  · intro h
    have hleaf := (hfile names).2 h
    refine ⟨r.top ++ names, ⟨?_, List.prefix_append _ _, hleaf⟩, List.drop_left⟩
    obtain ⟨e, he, hleaf⟩ := (Option.any_eq_true _ _).1 hleaf
    exact List.mem_map.1 (Disk.mem_keys he (.inr (by simpa [Entry.isLeaf] using hleaf)))

theorem mem_untracked :
    names ∈ r.untracked d ignored ↔ r.IsUntracked d ignored names := by
  rw [untracked, Tree.sorted, (List.mergeSort_perm _ _).mem_iff, List.mem_filter, mem_files]
  simp only [Bool.and_eq_true, Option.isNone_iff_eq_none, Bool.not_eq_true']
  constructor
  · rintro ⟨⟨hp, hf⟩, ht, hi⟩
    exact ⟨hp, fun h => h ht, hi, hf⟩
  · intro h
    exact ⟨⟨h.present, h.foreign⟩, not_not.1 h.untracked, h.unignored⟩

theorem lists_listing {listed : List (List Name)} {P : List Name → Prop}
    (hP : ∀ names, names ∈ listed ↔ P names) (hnull : ∀ names, P names → '\x00' ∉ Name.join names) :
    Lists (.exited 0 (listing listed) []) P := by
  refine ⟨_, [], rfl, fun t => ?_⟩
  have hflat : listed.flatMap (fun n => Name.join n ++ ['\x00']) =
      (listed.map Name.join).flatMap fun t => t ++ ['\x00'] := by
    rw [List.flatMap_map]
  have hnone : ∀ t ∈ listed.map Name.join, '\x00' ∉ t := by
    intro t ht
    obtain ⟨names, hn, rfl⟩ := List.mem_map.1 ht
    exact hnull names ((hP names).1 hn)
  rw [String.toList_ofList, hflat, splitNames_terminated hnone]
  simp only [List.mem_filter, List.mem_map, decide_eq_true_eq, ← hP]
  constructor
  · rintro ⟨⟨names, hn, rfl⟩, hne⟩
    refine ⟨names, ?_, hn, rfl⟩
    rintro rfl
    exact hne rfl
  · rintro ⟨names, hne, hn, rfl⟩
    exact ⟨⟨names, hn, rfl⟩, Name.join_ne_nil hne⟩

/-- A directory belongs to a repository: its top level is the nearest one upwards. -/
structure Holds (rs : List Repository) (d : Disk) (directory : Text) (r : Repository) : Prop where
  isDir : (View.mk d .root).isDir directory = true
  nearest : nearest? rs ((View.mk d .root).resolved directory).names = some r

theorem respond_of_holds {α : Type} {rs : List Repository} {directory : Text}
    (h : Holds rs d directory r) (answer : Repository → Reply α × Disk) (none : α) :
    respond rs d directory answer none = ((answer r).1, rs, (answer r).2) := by
  rw [respond, h.isDir, h.nearest]
  rfl

theorem respond_unchanged {α : Type} (rs : List Repository) (directory : Text)
    {answer : Repository → Reply α × Disk} (h : ∀ r, (answer r).2 = d) (none : α) :
    (respond rs d directory answer none).2 = (rs, d) := by
  unfold respond
  dsimp only
  split
  · rfl
  · split
    · rfl
    · rw [h]

theorem run_question {command : Command} (hc : command.isQuestion = true)
    (ignored : Disk → Repository → List Name → Bool) (r : Repository) :
    (run ignored command d r).2 = d := by
  cases command with
  | head =>
    rw [run]
    cases r.head <;> rfl
  | checkout => cases hc
  | other words => cases hc
  | _ => rfl

theorem reports {rs : List Repository} {directory : Text}
    {ignored : Disk → Repository → List Name → Bool} (hl : r.Listable d)
    (hd : Holds rs d directory r) (ht : Holds rs d r.topPath.text r) :
    (git ignored).Reports (· = rs) d r (ignored d r) directory where
  question command place git hc hg := by
    subst hg
    have hafter : ((Repository.git ignored).run command place git d).2 = (git, d) :=
      respond_unchanged git place (fun r => run_question hc ignored r) ByteArray.empty
    exact ⟨congrArg Prod.fst hafter, congrArg Prod.snd hafter⟩
  top git hg := by
    subst hg
    simp only [Repository.git, respond_of_holds hd]
    exact ⟨[], rfl⟩
  head git hg := by
    subst hg
    simp only [Repository.git, respond_of_holds hd, run]
    cases r.head with
    | some tree =>
      refine ⟨0, _, [], rfl, by simp, ?_⟩
      change (!("commit\n".toUTF8).data.all isBlankByte) = true
      decide +kernel
    | none =>
      refine ⟨1, _, [], rfl, by simp, ?_⟩
      decide +kernel
  changed c git hg := by
    subst hg
    simp only [Repository.git, respond_of_holds ht]
    exact lists_listing (fun _ => mem_changed hl.index) fun names hc => hl.tracked names hc.tracked
  untracked git hg := by
    subst hg
    simp only [Repository.git, respond_of_holds ht]
    exact lists_listing (fun _ => mem_untracked) fun names hu => hl.files names hu.present

end Repository
end PathSelection
