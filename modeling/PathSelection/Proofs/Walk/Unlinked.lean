import PathSelection.Proofs.Walk.Following

namespace PathSelection

/-- No entry of a directory, nor of any directory beneath it, is a link to a directory. -/
def Disk.NothingToFollow (d : Disk) (p : AbsPath) : Prop :=
  ∀ ns n real, d.directory? (p.descend ns) = some real → d.isLinkAt (real ++ [n]) = true →
    d.directory? (p.descend (ns ++ [n])) = none

theorem Disk.NothingToFollow.child {d : Disk} {p : AbsPath} (h : d.NothingToFollow p) (n : Name) :
    d.NothingToFollow (p.child n) := by
  intro ns m real hreal hlink
  rw [AbsPath.child_eq_descend, AbsPath.descend_descend] at hreal ⊢
  exact h ([n] ++ ns) m real hreal hlink

/-- Neither of two places is the other, or lies beneath it. -/
def RealPath.Apart (p q : RealPath) : Prop := ¬p <+: q ∧ ¬q <+: p

namespace RealPath

variable {p q : RealPath} {m n : Name}

theorem prefix_of_concat (h : p ++ [n] <+: q) : p <+: q := (List.prefix_append p [n]).trans h

theorem apart_siblings (h : m ≠ n) : Apart (p ++ [m]) (p ++ [n]) := by
  have hsame {m n : Name} (h : p ++ [m] <+: p ++ [n]) : m = n := by
    have heq := h.eq_of_length (by simp only [List.length_append, List.length_singleton])
    exact List.singleton_inj.1 (List.append_cancel_left heq)
  exact ⟨fun hm => h (hsame hm), fun hn => h (hsame hn).symm⟩

theorem Apart.concat (h : Apart p q) (n : Name) : Apart (p ++ [n]) q := by
  refine ⟨fun hp => h.1 (prefix_of_concat hp), fun hq => ?_⟩
  rcases List.prefix_concat_iff.1 hq with heq | hq
  · exact h.1 (heq ▸ List.prefix_append p [n])
  · exact h.2 hq

end RealPath

theorem Site.isLinkAt_of_child? {d : Disk} {s c : Site} {n : Name} (h : s.child? d n = some c)
    (hd : d.isDirAt (s.place.real ++ [n]) = false) : d.isLinkAt (s.place.real ++ [n]) = true := by
  unfold Site.child? at h
  split at h
  · cases h
  · next target he => exact Disk.isLinkAt_iff.2 ⟨target, he⟩
  · next e _ he =>
    rw [(Disk.isDirAt_eq_false he).1 hd] at h
    cases h

namespace Walk

variable {d : Disk} {f : PathFilter} {s c : Site} {ahead rest : List Site} {visited : List RealPath}

/-- What a walk keeps to where there is nothing to follow: the directories ahead lie apart from one
another, and no directory visited is one of them, or lies beneath one. -/
structure Fresh (d : Disk) (visited : List RealPath) (ahead : List Site) : Prop where
  located : ∀ s ∈ ahead, s.Located d ∧ d.NothingToFollow s.path
  apart : ahead.Pairwise fun s t => RealPath.Apart s.place.real t.place.real
  unvisited : ∀ s ∈ ahead, ∀ real ∈ visited, ¬s.place.real <+: real

theorem direct_of_child? {n : Name} (hs : s.Located d) (hn : d.NothingToFollow s.path)
    (hc : s.child? d n = some c) : c = s.descend [n] := by
  obtain ⟨hlocated, hpath, hvia⟩ := hs.child? hc
  cases hd : d.isDirAt (s.place.real ++ [n]) with
  | true =>
    rw [hd] at hvia
    exact (Site.dir_of_child? hc hvia).2
  | false =>
    have hlink := Site.isLinkAt_of_child? hc hd
    have hnone := hn [] n s.place.real (by rw [AbsPath.descend_nil, hs.directory?]) hlink
    rw [List.nil_append, ← AbsPath.child_eq_descend, ← hpath, hlocated.directory?] at hnone
    cases hnone

theorem direct_of_mem_children (hs : s.Located d) (hn : d.NothingToFollow s.path)
    (hc : c ∈ s.children d) : ∃ n, c = s.descend [n] := by
  obtain ⟨n, -, hchild⟩ := List.mem_filterMap.1 hc
  exact ⟨n, direct_of_child? hs hn hchild⟩

theorem apart_children (hs : s.Located d) (hn : d.NothingToFollow s.path) :
    (s.children d).Pairwise fun a b => RealPath.Apart a.place.real b.place.real := by
  refine List.pairwise_filterMap.2 ((d.nodup_names _).imp fun hne a ha b hb => ?_)
  rw [direct_of_child? hs hn ha, direct_of_child? hs hn hb]
  exact RealPath.apart_siblings hne

theorem entered_eq (hs : s.Located d) (hn : d.NothingToFollow s.path) :
    entered d f true s = entered d f false s := by
  rw [entered, entered, enterable, enterable, if_pos rfl, if_neg Bool.false_ne_true, eq_comm,
    List.filter_eq_self]
  intro c hc
  obtain ⟨n, rfl⟩ := direct_of_mem_children hs hn ((prune_sublist f (s.children d)).subset hc)
  rfl

theorem entered_sublist : (entered d f true s).Sublist (s.children d) := prune_sublist f _

/-- A walk that has taken the entries of the first directory ahead comes to those in it next, which
lie apart from all that was ahead. -/
theorem Fresh.enter (h : Fresh d visited (s :: rest)) :
    Fresh d (s.place.real :: visited) (entered d f true s ++ rest) := by
  obtain ⟨⟨hs, hn⟩, hrest⟩ := List.forall_mem_cons.1 h.located
  obtain ⟨hapart, hpairwise⟩ := List.pairwise_cons.1 h.apart
  obtain ⟨hnew, hnews⟩ := List.forall_mem_cons.1 h.unvisited
  have hentered : ∀ c ∈ entered d f true s, c ∈ s.children d ∧ ∃ n, c = s.descend [n] := by
    intro c hc
    have hc := entered_sublist.subset hc
    exact ⟨hc, direct_of_mem_children hs hn hc⟩
  constructor
  · refine List.forall_mem_append.2 ⟨fun c hc => ?_, hrest⟩
    obtain ⟨hc, n, rfl⟩ := hentered c hc
    exact ⟨hs.of_mem_children hc, hn.child n⟩
  · refine List.pairwise_append.2
      ⟨(apart_children hs hn).sublist entered_sublist, hpairwise, fun c hc t ht => ?_⟩
    obtain ⟨-, n, rfl⟩ := hentered c hc
    exact (hapart t ht).concat n
  · refine List.forall_mem_append.2 ⟨fun c hc => ?_, fun t ht => ?_⟩
    · obtain ⟨-, n, rfl⟩ := hentered c hc
      refine List.forall_mem_cons.2 ⟨fun hp => ?_, fun real hreal hp => ?_⟩
      · exact absurd hp.length_le (by simp [Site.descend])
      · exact hnew real hreal (RealPath.prefix_of_concat hp)
    · exact List.forall_mem_cons.2 ⟨(hapart t ht).2, hnews t ht⟩

/-- Where there is nothing to follow, a walk that follows links never comes to a directory again,
and so goes as one that does not, whatever that one keeps account of. -/
theorem run_fresh (h : Fresh d visited ahead) (others : List RealPath) :
    run d f true visited ahead = run d f false others ahead := by
  induction visited, ahead using Walk.run.induct d f true with
  | case1 visited => rw [run, run]
  | case2 visited s rest hl => rw [run, dif_pos hl, run, dif_pos hl]
  | case3 visited s rest hl hv ih =>
    have hs := h.unvisited s List.mem_cons_self _ (List.contains_iff_mem.1 hv.2)
    exact (hs List.prefix_rfl).elim
  | case4 visited s rest hl hv pruned here e he =>
    have he : (survey d f s).ended = .error e := he
    have hl : s.isListable d = true := by simpa using hl
    rw [run_survey hl hv, run_cons hl, he]
  | case5 visited s rest hl hv pruned here he ih =>
    obtain ⟨hs, hn⟩ := h.located s List.mem_cons_self
    have he : (survey d f s).ended = .ok () := he
    have hl : s.isListable d = true := by simpa using hl
    have ih : run d f true (s.place.real :: visited) (entered d f true s ++ rest) =
        run d f false others (entered d f true s ++ rest) := ih h.enter
    rw [run_survey hl hv, run_cons hl, he, ← entered_eq hs hn, ← ih]
    rfl

theorem below_unlinked {p : AbsPath} {place : Place} (h : d.locate p = .ok place)
    (hd : d.isDirAt place.real = true) (hn : d.NothingToFollow p) :
    below d f true p place = below d f false p place := by
  have hfresh : Fresh d [] [⟨p, place, false⟩] := by
    refine ⟨List.forall_mem_singleton.2 ⟨⟨h, hd⟩, hn⟩, List.pairwise_singleton _ _, ?_⟩
    exact fun _ _ => List.forall_mem_nil _
  rw [below, below, run_fresh hfresh []]

theorem start_unlinked {v : View} {raw : Text} (h : v.disk.NothingToFollow (v.absolute raw)) :
    start v f true raw = start v f false raw := by
  cases hplace : v.disk.locate (v.absolute raw) with
  | error e => rw [start_missing hplace, start_missing hplace]
  | ok place =>
    cases hd : v.disk.isDirAt place.real with
    | false => rw [start_other hplace hd, start_other hplace hd]
    | true =>
      rw [start_directory hplace hd, start_directory hplace hd]
      exact below_unlinked hplace hd h

/-- Where there is nothing to follow, it makes no difference to a walk whether it follows links: it
comes upon the same files in the same order, or ends in the same failure. -/
theorem startAll_unlinked {v : View} {raws : List Text}
    (h : ∀ raw ∈ raws, v.disk.NothingToFollow (v.absolute raw)) :
    startAll v f true raws = startAll v f false raws := by
  induction raws with
  | nil => rfl
  | cons raw raws ih =>
    obtain ⟨hraw, hraws⟩ := List.forall_mem_cons.1 h
    rw [startAll_cons, startAll_cons, start_unlinked hraw, ih hraws]

-- A link to a directory, in which there is nothing but a broken link.
namespace Entrance

def link : Name := ⟨"door".toList, by decide⟩

def directory : Name := ⟨"room".toList, by decide⟩

def broken : Name := ⟨"stray".toList, by decide⟩

def nowhere : Name := ⟨"nowhere".toList, by decide⟩

def disk : Disk :=
  ⟨[([link], .link "room"), ([directory], .dir true), ([directory, broken], .link "nowhere")]⟩

def filter : PathFilter := ⟨[], [], .empty, .root⟩

def path : AbsPath := ⟨false, [link]⟩

theorem locate_path : disk.locate path = .ok ⟨[directory], 39⟩ := by
  have hroot : disk.isDirAt [] = true := rfl
  have hlink : disk.get? ([] ++ [link]) = some (.link "room") := rfl
  change disk.follow (39 + 1) [] [.down link] = _
  rw [Disk.follow_link hroot hlink]
  change disk.follow 39 [] [.down directory] = _
  rw [Disk.follow_down hroot (e := .dir true) rfl rfl, Disk.follow_nil]
  rfl

theorem get?_beneath {n : Name} (hn : n ≠ broken) : disk.get? ([directory] ++ [n]) = none := by
  cases he : disk.get? ([directory] ++ [n]) with
  | none => rfl
  | some e => simpa [disk, hn] using Disk.mem_keys he (.inl (by simp))

theorem follow_beneath (links : Nat) (n : Name) (rest : List Step) :
    ∃ e, disk.follow links [directory] (.down n :: rest) = .error e := by
  have hd : disk.isDirAt [directory] = true := rfl
  by_cases hn : n = broken
  · have hlink : disk.get? ([directory] ++ [broken]) = some (.link "nowhere") := rfl
    rw [hn]
    cases links with
    | zero => exact ⟨_, Disk.follow_too_many hd hlink⟩
    | succ links =>
      obtain ⟨e, he⟩ := Disk.follow_missing (get?_beneath (n := nowhere) (by decide))
      rw [Disk.follow_link hd hlink]
      exact ⟨e, he links rest⟩
  · obtain ⟨e, he⟩ := Disk.follow_missing (get?_beneath hn)
    exact ⟨e, he links rest⟩

theorem directory?_beneath (n : Name) (ns : List Name) :
    disk.directory? (path.descend (n :: ns)) = none := by
  obtain ⟨e, he⟩ := follow_beneath 39 n (ns.map .down)
  rw [Disk.directory?, Disk.locate_descend, locate_path]
  simp only [Except.bind, List.map_cons, he]

theorem nothingToFollow_path : disk.NothingToFollow path := by
  intro ns n real _ _
  cases ns with
  | nil => exact directory?_beneath n []
  | cons m ns => exact directory?_beneath m (ns ++ [n])

theorem start_path (followLinks : Bool) : start ⟨disk, .root⟩ filter followLinks "/door" =
    ⟨[.listed path, .file (path.child broken)], .ok ()⟩ := by
  have hplace : disk.locate ((⟨disk, .root⟩ : View).absolute "/door") = .ok ⟨[directory], 39⟩ :=
    locate_path
  have hnone : Site.child? disk ⟨path, ⟨[directory], 39⟩, false⟩ broken = none := by
    have hlink : disk.get? ([directory] ++ [broken]) = some (.link "nowhere") := rfl
    obtain ⟨e, he⟩ := follow_beneath 39 broken []
    simp only [Site.child?, hlink, he]
  exact start_single hplace rfl (Disk.names_of_single rfl rfl) hnone rfl rfl

end Entrance

theorem entrance_unlinked :
    (∀ raw ∈ (["/door"] : List Text),
      Entrance.disk.NothingToFollow ((⟨Entrance.disk, .root⟩ : View).absolute raw)) ∧
    startAll ⟨Entrance.disk, .root⟩ Entrance.filter true ["/door"] =
      startAll ⟨Entrance.disk, .root⟩ Entrance.filter false ["/door"] ∧
    (startAll ⟨Entrance.disk, .root⟩ Entrance.filter true ["/door"]).files =
      [Entrance.path.child Entrance.broken] := by
  have hnothing : ∀ raw ∈ (["/door"] : List Text),
      Entrance.disk.NothingToFollow ((⟨Entrance.disk, .root⟩ : View).absolute raw) :=
    List.forall_mem_singleton.2 Entrance.nothingToFollow_path
  refine ⟨hnothing, startAll_unlinked hnothing, ?_⟩
  rw [startAll_cons, Entrance.start_path]
  rfl

end Walk
end PathSelection
