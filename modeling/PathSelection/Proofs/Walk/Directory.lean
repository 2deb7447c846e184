import PathSelection.Proofs.Disk.Alike
import PathSelection.Proofs.Walk.Places

namespace PathSelection

theorem forall_prefix_cons {α : Type} {a : α} {as : List α} {motive : List α → Prop} :
    (∀ bs, bs <+: a :: as → motive bs) ↔ motive [] ∧ ∀ bs, bs <+: as → motive (a :: bs) := by
  constructor
  · intro h
    exact ⟨h [] List.nil_prefix, fun bs hbs => h (a :: bs) (List.cons_prefix_cons.2 ⟨rfl, hbs⟩)⟩
  · rintro ⟨hnil, hcons⟩ bs hbs
    cases bs with
    | nil => exact hnil
    | cons b bs =>
      obtain ⟨rfl, htail⟩ := List.cons_prefix_cons.1 hbs
      exact hcons bs htail

namespace Disk

variable {d : Disk} {p : AbsPath} {real : RealPath} {n : Name}

/-- Where a directory really is, if a path leads to one. -/
def directory? (d : Disk) (p : AbsPath) : Option RealPath :=
  match d.locate p with
  | .ok place => if d.isDirAt place.real then some place.real else none
  | .error _ => none

def entriesAt (d : Disk) (p : AbsPath) (chosen : RealPath → Name → Bool) : List AbsPath :=
  match d.directory? p with
  | some real => ((d.names real).filter (chosen real)).map p.child
  | none => []

def directories (d : Disk) (p : AbsPath) : List AbsPath :=
  d.entriesAt p fun _ n => (d.directory? (p.child n)).isSome

def subdirectories (d : Disk) (p : AbsPath) : List AbsPath :=
  d.entriesAt p fun real n => d.isDirAt (real ++ [n])

/-- The entries that are no directories. Links that lead to none are among them. -/
def leaves (d : Disk) (p : AbsPath) : List AbsPath :=
  d.entriesAt p fun _ n => (d.directory? (p.child n)).isNone

def isListable (d : Disk) (p : AbsPath) : Bool :=
  match (d.directory? p).bind d.get? with
  | some (.dir listable) => listable
  | _ => false

theorem directory?_eq_some {place : Place} (h : d.locate p = .ok place)
    (hd : d.isDirAt place.real = true) : d.directory? p = some place.real := by
  rw [directory?, h]
  exact if_pos hd

theorem directory?_ok (h : d.directory? p = some real) :
    ∃ links, d.locate p = .ok ⟨real, links⟩ ∧ d.isDirAt real = true := by
  unfold directory? at h
  split at h
  · next place hp =>
    obtain ⟨hd, h⟩ := Option.ite_none_right_eq_some.1 h
    cases h
    exact ⟨place.links, hp, hd⟩
  · cases h

theorem directory?_child (h : d.directory? p = some real) (hn : d.isDirAt (real ++ [n]) = true) :
    d.directory? (p.child n) = some (real ++ [n]) := by
  obtain ⟨links, hp, hd⟩ := directory?_ok h
  obtain ⟨e, he, -⟩ := isDirAt_iff.1 hn
  exact directory?_eq_some (locate_entry hp hd he (isLinkAt_of_isDirAt hn)) hn

theorem mem_entriesAt {chosen : RealPath → Name → Bool} {q : AbsPath} :
    q ∈ d.entriesAt p chosen ↔ ∃ real n, d.directory? p = some real ∧ n ∈ d.names real ∧
      chosen real n = true ∧ q = p.child n := by
  unfold entriesAt
  split
  · next real h =>
    simp only [List.mem_map, List.mem_filter, and_assoc, Option.some.injEq, exists_and_left,
      exists_eq_left', h, eq_comm (a := q)]
  · next h => simp [h]

theorem below_child_lt (h : d.isDirAt (real ++ [n]) = true) :
    d.below (real ++ [n]) < d.below real := by
  let s : Site := ⟨.root, ⟨real, 0⟩, false⟩
  have hweight : d.below (real ++ [n]) + 1 ≤
      (d.entries.map Prod.fst).countP (real ++ [n]).isPrefixOf :=
    Site.weight_child?_le (Site.child?_of_dir (s := s) h) rfl
  have hmono : (d.entries.map Prod.fst).countP (real ++ [n]).isPrefixOf ≤ d.below real := by
    apply List.countP_mono_left
    intro q _ hq
    obtain ⟨rest, rfl⟩ := List.isPrefixOf_iff_prefix.1 hq
    simp
  exact Nat.lt_of_lt_of_le hweight hmono

namespace Alike

variable {d' : Disk}

theorem directory? (h : Alike d d') (p : AbsPath) : d'.directory? p = d.directory? p := by
  simp only [Disk.directory?, h.locate, h.isDirAt]

theorem directories (h : Alike d d') (p : AbsPath) : d'.directories p = d.directories p := by
  simp only [Disk.directories, Disk.entriesAt, h.directory?, h.names]

theorem subdirectories (h : Alike d d') (p : AbsPath) :
    d'.subdirectories p = d.subdirectories p := by
  simp only [Disk.subdirectories, Disk.entriesAt, h.directory?, h.names, h.isDirAt]

theorem leaves (h : Alike d d') (p : AbsPath) : d'.leaves p = d.leaves p := by
  simp only [Disk.leaves, Disk.entriesAt, h.directory?, h.names]

end Alike

end Disk

namespace Site

variable {d : Disk} {s c : Site} {n : Name}

/-- The path of a site leads to its place, and the place is a directory. -/
structure Located (d : Disk) (s : Site) : Prop where
  locate : d.locate s.path = .ok s.place
  isDirAt : d.isDirAt s.place.real = true

theorem Located.directory? (h : Located d s) : d.directory? s.path = some s.place.real :=
  Disk.directory?_eq_some h.locate h.isDirAt

theorem Located.isListable (h : Located d s) : s.isListable d = d.isListable s.path := by
  rw [Site.isListable, Disk.isListable, h.directory?]
  rfl

theorem Located.child? (h : Located d s) (hc : s.child? d n = some c) :
    Located d c ∧ c.path = s.path.child n ∧ c.viaLink = !d.isDirAt (s.place.real ++ [n]) := by
  unfold Site.child? at hc
  split at hc
  · cases hc
  · next target he =>
    have hn : d.isDirAt (s.place.real ++ [n]) = false := by
      rw [Disk.isDirAt, he]
      rfl
    split at hc
    · next place hplace =>
      obtain ⟨hd, hc⟩ := Option.ite_none_right_eq_some.1 hc
      cases hc
      exact ⟨⟨(Disk.locate_child h.locate).trans hplace, hd⟩, rfl, by rw [hn]; rfl⟩
    · cases hc
  · next e _ he =>
    obtain ⟨hd, hc⟩ := Option.ite_none_right_eq_some.1 hc
    cases hc
    have hn := Disk.isDirAt_iff.2 ⟨e, he, hd⟩
    have hplace := Disk.locate_entry h.locate h.isDirAt he (Disk.isLinkAt_of_isDirAt hn)
    exact ⟨⟨hplace, hn⟩, rfl, by rw [hn]; rfl⟩

theorem Located.isSome_child? (h : Located d s) :
    (s.child? d n).isSome = (d.directory? (s.path.child n)).isSome := by
  rw [Disk.directory?, Disk.locate_child h.locate]
  cases he : d.get? (s.place.real ++ [n]) with
  | none =>
    obtain ⟨e, hmissing⟩ := Disk.follow_missing he
    rw [hmissing, Site.child?, he]
    rfl
  | some e =>
    cases hlink : d.isLinkAt (s.place.real ++ [n]) with
    | false =>
      rw [Disk.follow_down h.isDirAt he hlink, Disk.follow_nil]
      cases hn : d.isDirAt (s.place.real ++ [n]) with
      | true =>
        rw [Site.child?_of_dir hn]
        simp only [hn, if_true]
        rfl
      | false =>
        rw [Site.child?_of_leaf he hlink ((Disk.isDirAt_eq_false he).1 hn)]
        simp only [hn, Bool.false_eq_true, if_false]
        rfl
    | true =>
      obtain ⟨target, htarget⟩ := Disk.isLinkAt_iff.1 hlink
      rw [Site.child?, htarget]
      cases d.follow s.place.links s.place.real [.down n] with
      | error e => rfl
      | ok place => cases hd : d.isDirAt place.real <;> simp [hd]

theorem Located.entriesAt (h : Located d s) (chosen : RealPath → Name → Bool) :
    d.entriesAt s.path chosen =
      ((d.names s.place.real).filter (chosen s.place.real)).map s.path.child := by
  rw [Disk.entriesAt, h.directory?]

theorem Located.children (h : Located d s) :
    (s.children d).map (·.path) = d.directories s.path ∧
      ((s.children d).filter (!·.viaLink)).map (·.path) = d.subdirectories s.path := by
  rw [Disk.directories, Disk.subdirectories, h.entriesAt, h.entriesAt, Site.children]
  induction d.names s.place.real with
  | nil => exact ⟨rfl, rfl⟩
  | cons n ns ih =>
    obtain ⟨hall, hdirs⟩ := ih
    have hsome := h.isSome_child? (n := n)
    cases hc : s.child? d n with
    | none =>
      have hn : d.isDirAt (s.place.real ++ [n]) = false := by
        cases hn : d.isDirAt (s.place.real ++ [n]) with
        | false => rfl
        | true => cases hc.symm.trans (Site.child?_of_dir hn)
      rw [hc, Option.isSome_none] at hsome
      rw [List.filterMap_cons_none hc, List.filter_cons_of_neg (by simp [← hsome]),
        List.filter_cons_of_neg (by simp [hn])]
      exact ⟨hall, hdirs⟩
    | some c =>
      obtain ⟨-, hpath, hvia⟩ := h.child? hc
      rw [hc, Option.isSome_some] at hsome
      rw [List.filterMap_cons_some hc, List.filter_cons_of_pos (by simp [← hsome]), List.map_cons,
        hall, hpath]
      refine ⟨rfl, ?_⟩
      cases hn : d.isDirAt (s.place.real ++ [n]) with
      | true =>
        rw [List.filter_cons_of_pos (by simp [hvia, hn]), List.filter_cons_of_pos (by simp [hn]),
          List.map_cons, hdirs, hpath]
        rfl
      | false =>
        rw [List.filter_cons_of_neg (by simp [hvia, hn]), List.filter_cons_of_neg (by simp [hn]),
          hdirs]

theorem Located.files (h : Located d s) : s.files d = d.leaves s.path := by
  rw [Disk.leaves, h.entriesAt, Site.files]
  refine congrArg (List.map s.path.child) (List.filter_congr fun n _ => ?_)
  rw [← Option.not_isSome, ← Option.not_isSome, h.isSome_child?]

theorem Located.of_mem_children (h : Located d s) (hc : c ∈ s.children d) : Located d c := by
  obtain ⟨n, -, hn⟩ := List.mem_filterMap.1 hc
  exact (h.child? hn).1

end Site
end PathSelection
