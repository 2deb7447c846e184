import Mathlib.Data.List.Perm.Subperm
import PathSelection.Proofs.Walk.Survey

namespace PathSelection

/-- How many of the entries lie in directories other than some. -/
def Disk.beyond (d : Disk) (visited : List RealPath) : Nat :=
  d.entries.countP fun e => !visited.contains e.1.dropLast

namespace Walk

def revisits : List Event → Bool
  | .revisited _ _ :: _ => true
  | _ => false

/-- The directories whose entries a walk takes: those that it lists, revisits aside. -/
def explored : List Event → List AbsPath
  | [] => []
  | .listed p :: rest => if revisits rest then explored rest else p :: explored rest
  | _ :: rest => explored rest

variable {d : Disk} {f : PathFilter} {p : AbsPath} {s : Site} {ahead rest : List Site}
  {visited : List RealPath}

section Events

variable {es : List Event}

theorem explored_within (h : ∀ e ∈ es, e.isWithin = true) (more : List Event) :
    explored (es ++ more) = explored more := by
  induction es with
  | nil => rfl
  | cons e es ih =>
    have ih := ih fun e' he' => h e' (List.mem_cons_of_mem _ he')
    have he := h e List.mem_cons_self
    cases e with
    | pruned p => exact ih
    | file p => exact ih
    | skipped p => cases he
    | listed p => cases he
    | revisited p real => cases he

theorem revisits_within (h : ∀ e ∈ es, e.isWithin = true) {more : List Event}
    (hm : revisits more = false) : revisits (es ++ more) = false := by
  cases es with
  | nil => exact hm
  | cons e es =>
    have he := h e List.mem_cons_self
    cases e with
    | revisited p real => cases he
    | _ => rfl

theorem explored_survey (d : Disk) (f : PathFilter) (s : Site) (hm : revisits es = false) :
    explored ((survey d f s).events ++ es) = s.path :: explored es ∧
      revisits ((survey d f s).events ++ es) = false := by
  obtain ⟨within, hevents, hwithin, -⟩ := survey_events d f s
  rw [hevents, List.cons_append, explored, revisits_within hwithin hm,
    if_neg Bool.false_ne_true, explored_within hwithin]
  exact ⟨rfl, rfl⟩

end Events

theorem beyond_cons {real : RealPath} (h : visited.contains real = false) :
    d.beyond (real :: visited) + (d.names real).length ≤ d.beyond visited := by
  have hnames : (d.names real).length ≤ d.entries.countP fun e => e.1.dropLast == real := by
    have hsubset : d.names real ⊆ (d.entries.map Prod.fst).filterMap (Disk.entryOf? real) :=
      fun n hn => List.mem_filterMap.2 ⟨_, (Disk.mem_names.1 hn).2, by simp [Disk.entryOf?]⟩
    have hdistinct := List.subperm_of_subset (d.nodup_names real) hsubset
    refine Nat.le_trans hdistinct.length_le ?_
    rw [List.filterMap_map, List.length_filterMap_eq_countP]
    refine List.countP_mono_left fun e _ he => ?_
    simp only [Function.comp_apply, Disk.entryOf?] at he
    split at he
    · next hreal => exact beq_iff_eq.2 hreal
    · cases he
  have hsplit := countP_add_countP_le (p := fun e => !(real :: visited).contains e.1.dropLast)
    (q := fun e => e.1.dropLast == real) (r := fun e => !visited.contains e.1.dropLast)
    (by simp_all) (by simp_all) (by simp_all) d.entries
  simp only [Disk.beyond]
  omega

theorem run_revisited (hl : s.isListable d = true) (hv : visited.contains s.place.real = true) :
    run d f true visited (s :: rest) =
      ((run d f true visited rest).after (.revisited s.path s.place.real)).after
        (.listed s.path) := by
  rw [run, dif_neg (by simp [hl]), dif_pos ⟨rfl, hv⟩]

theorem run_anew (hl : s.isListable d = true) (hv : visited.contains s.place.real = false) :
    run d f true visited (s :: rest) =
      match (survey d f s).ended with
      | .error _ => survey d f s
      | .ok () =>
        (survey d f s).andThen
          (run d f true (s.place.real :: visited) (entered d f true s ++ rest)) :=
  run_survey hl fun h => nomatch hv.symm.trans h.2

/-- Names that lead from a path through directories, none of which is excluded. -/
def Through (d : Disk) (f : PathFilter) (p : AbsPath) (ns : List Name) : Prop :=
  ∀ ms, ms <+: ns →
    (d.directory? (p.descend ms)).isSome = true ∧ f.excludes (p.descend ms) true = .ok false

/-- What a walk does with the sites ahead, if some directories were visited before. -/
structure Explores (d : Disk) (f : PathFilter) (visited : List RealPath) (ahead : List Site)
    (w : Walk) : Prop where
  begins : revisits w.events = false
  approached : ∀ p ∈ explored w.events,
    ∃ s ∈ ahead, ∃ ns, p = s.path.descend ns ∧ Through d f s.path ns
  anew : ∀ p ∈ explored w.events, ∀ real, d.directory? p = some real →
    visited.contains real = false
  distinct : (explored w.events).Pairwise fun p q => d.directory? p ≠ d.directory? q
  files : w.files.Sublist
    ((explored w.events).flatMap fun p => (d.leaves p).filter (f.admits · false))
  bounded : w.listed.length ≤ ahead.length + d.beyond visited

theorem Through.cons {n : Name} {ns : List Name}
    (hp : (d.directory? p).isSome = true ∧ f.excludes p true = .ok false)
    (h : Through d f (p.child n) ns) : Through d f p (n :: ns) := by
  refine forall_prefix_cons.2 ⟨?_, fun ms hms => ?_⟩
  · rwa [AbsPath.descend_nil]
  · have hm := h ms hms
    rwa [AbsPath.child_eq_descend, AbsPath.descend_descend] at hm

theorem entered_following (h : (survey d f s).ended = .ok ()) :
    entered d f true s = (s.children d).filter fun c => f.admits c.path true := by
  obtain ⟨hp, -, -⟩ := ended_of_andThen (show ((prune f (s.children d)).1.andThen
    (takeFiles f (s.files d))).ended = .ok () from h)
  exact (prune_ok hp).2.2

theorem explores_nothing (d : Disk) (f : PathFilter) (visited : List RealPath) (ahead : List Site)
    (ended : Except Failure Unit) : Explores d f visited ahead ⟨[], ended⟩ :=
  ⟨rfl, List.forall_mem_nil _, List.forall_mem_nil _, .nil, .slnil, Nat.zero_le _⟩

theorem Explores.survey {w onward : Walk} {inside : List Site} (hs : s.Located d)
    (ha : f.admits s.path true = true) (hv : visited.contains s.place.real = false)
    (hinside : inside.Sublist (s.children d))
    (hw : w.events = (survey d f s).events ++ onward.events)
    (ho : Explores d f (s.place.real :: visited) (inside ++ rest) onward) :
    Explores d f visited (s :: rest) w := by
  obtain ⟨hexplored, hbegins⟩ := explored_survey d f s ho.begins
  obtain ⟨-, -, -, htaken, hlisted⟩ := survey_events d f s
  have hhere : (d.directory? s.path).isSome = true ∧ f.excludes s.path true = .ok false :=
    ⟨by rw [hs.directory?]; rfl, PathFilter.admits_iff.1 ha⟩
  have hanew : ∀ p ∈ explored onward.events, ∀ real, d.directory? p = some real →
      real ≠ s.place.real ∧ visited.contains real = false := by
    intro p hp real hreal
    have hc := ho.anew p hp real hreal
    rw [List.contains_cons, Bool.or_eq_false_iff] at hc
    exact ⟨beq_eq_false_iff_ne.1 hc.1, hc.2⟩
  rw [← hw] at hexplored hbegins
  refine ⟨hbegins, ?_, ?_, ?_, ?_, ?_⟩
  · intro p hp
    rw [hexplored] at hp
    rcases List.mem_cons.1 hp with rfl | hp
    · refine ⟨s, List.mem_cons_self, [], s.path.descend_nil.symm, fun ms hms => ?_⟩
      rwa [List.prefix_nil.1 hms, AbsPath.descend_nil]
    · obtain ⟨c, hc, ns, rfl, hthrough⟩ := ho.approached p hp
      rcases List.mem_append.1 hc with hc | hc
      · obtain ⟨n, -, hn⟩ := List.mem_filterMap.1 (hinside.subset hc)
        have hpath := (hs.child? hn).2.1
        rw [hpath] at hthrough ⊢
        refine ⟨s, List.mem_cons_self, n :: ns, ?_, hthrough.cons hhere⟩
        rw [AbsPath.child_eq_descend, AbsPath.descend_descend]
        rfl
      · exact ⟨c, List.mem_cons_of_mem _ hc, ns, rfl, hthrough⟩
  · intro p hp real hreal
    rw [hexplored] at hp
    rcases List.mem_cons.1 hp with rfl | hp
    · rw [hs.directory?] at hreal
      cases hreal
      exact hv
    · exact (hanew p hp real hreal).2
  · rw [hexplored]
    refine .cons (fun q hq heq => ?_) ho.distinct
    rw [hs.directory?] at heq
    exact (hanew q hq _ heq.symm).1 rfl
  · have hfiles : w.files = (Walk.survey d f s).files ++ onward.files := by
      rw [Walk.files, hw]
      exact List.filterMap_append
    rw [hfiles, hexplored, List.flatMap_cons, ← hs.files]
    exact htaken.sublist.append ho.files
  · have hlist : w.listed = (Walk.survey d f s).listed ++ onward.listed := by
      rw [Walk.listed, hw]
      exact List.filterMap_append
    -- The entries of `s` count no more from here on, and they are as many as it adds directories.
    have hnames : inside.length ≤ (d.names s.place.real).length :=
      Nat.le_trans hinside.length_le (List.length_filterMap_le _ _)
    have hbeyond := beyond_cons (d := d) hv
    have hbounded := ho.bounded
    rw [hlist, hlisted]
    simp only [List.length_append, List.length_cons, List.length_nil] at hbounded ⊢
    omega

theorem run_explores (h : ∀ s ∈ ahead, s.Located d ∧ f.admits s.path true = true) :
    Explores d f visited ahead (run d f true visited ahead) := by
  induction visited, ahead using Walk.run.induct d f true with
  | case1 visited =>
    rw [run]
    exact explores_nothing d f visited [] _
  | case2 visited s rest hl =>
    rw [run, dif_pos hl]
    exact explores_nothing d f visited _ _
  | case3 visited s rest hl hv ih =>
    have ih := ih fun c hc => h c (List.mem_cons_of_mem _ hc)
    rw [run_revisited (by simpa using hl) hv.2]
    refine ⟨rfl, fun p hp => ?_, ih.anew, ih.distinct, ih.files, ?_⟩
    · obtain ⟨c, hc, ns, hpath, hthrough⟩ := ih.approached p hp
      exact ⟨c, List.mem_cons_of_mem _ hc, ns, hpath, hthrough⟩
    · have hbounded := ih.bounded
      rw [listed_after, listed_after]
      simp only [List.length_append, List.length_cons, List.length_nil] at hbounded ⊢
      omega
  | case4 visited s rest hl hv pruned here e he =>
    obtain ⟨hs, ha⟩ := h s List.mem_cons_self
    have hv : visited.contains s.place.real = false := by simpa using hv
    have he : (survey d f s).ended = .error e := he
    rw [run_anew (by simpa using hl) hv, he]
    exact .survey hs ha hv (List.nil_sublist _) (List.append_nil _).symm
      (explores_nothing d f _ rest (.error e))
  | case5 visited s rest hl hv pruned here he ih =>
    obtain ⟨hs, ha⟩ := h s List.mem_cons_self
    have hv : visited.contains s.place.real = false := by simpa using hv
    have he : (survey d f s).ended = .ok () := he
    have hentered := entered_following he
    let onward := run d f true (s.place.real :: visited) (entered d f true s ++ rest)
    have hevents : ((survey d f s).andThen onward).events =
        (survey d f s).events ++ onward.events := by
      rw [andThen, he]
    have ih : Explores d f (s.place.real :: visited) (entered d f true s ++ rest) onward := by
      refine ih fun c hc => ?_
      rcases List.mem_append.1 hc with hc | hc
      · have hc : c ∈ entered d f true s := hc
        rw [hentered] at hc
        obtain ⟨hc, hadmitted⟩ := List.mem_filter.1 hc
        exact ⟨hs.of_mem_children hc, hadmitted⟩
      · exact h c (List.mem_cons_of_mem _ hc)
    rw [run_anew (by simpa using hl) hv, he]
    refine .survey hs ha hv ?_ hevents ih
    rw [hentered]
    exact List.filter_sublist

/-- What the walk from a directory comes upon, if it follows links. -/
structure Followed (d : Disk) (f : PathFilter) (p : AbsPath) (w : Walk) : Prop where
  approached : ∀ q ∈ explored w.events, ∃ ns, q = p.descend ns ∧ Through d f p ns
  distinct : (explored w.events).Pairwise fun q r => d.directory? q ≠ d.directory? r
  apart : w.files.Pairwise fun q r =>
    ¬(d.directory? q.parent = d.directory? r.parent ∧ q.names.getLast? = r.names.getLast?)
  files : ∀ q ∈ w.files, ∃ ns n, q = (p.descend ns).child n ∧ Through d f p ns ∧
    p.descend ns ∈ explored w.events ∧ q ∈ d.leaves (p.descend ns) ∧
    f.excludes q false = .ok false

theorem leaves_apart (d : Disk) (p : AbsPath) :
    (d.leaves p).Pairwise fun q r => q.names.getLast? ≠ r.names.getLast? := by
  rw [Disk.leaves, Disk.entriesAt]
  cases d.directory? p with
  | none => exact .nil
  | some real =>
    refine List.pairwise_map.2 (((d.nodup_names real).filter _).imp fun hne heq => ?_)
    simp only [AbsPath.child, List.getLast?_concat, Option.some.injEq] at heq
    exact hne heq

theorem child_of_mem_leaves {q : AbsPath} (h : q ∈ d.leaves p) :
    q.parent = p ∧ ∃ n, q = p.child n := by
  obtain ⟨real, n, -, -, -, rfl⟩ := Disk.mem_entriesAt.1 h
  refine ⟨?_, n, rfl⟩
  rw [AbsPath.parent, AbsPath.child, List.dropLast_concat]

theorem Explores.followed {w : Walk} (h : Explores d f [] [s] w) : Followed d f s.path w := by
  have happroached : ∀ q ∈ explored w.events,
      ∃ ns, q = s.path.descend ns ∧ Through d f s.path ns := by
    intro q hq
    obtain ⟨c, hc, ns, hpath, hthrough⟩ := h.approached q hq
    cases List.mem_singleton.1 hc
    exact ⟨ns, hpath, hthrough⟩
  refine ⟨happroached, h.distinct, List.Pairwise.sublist h.files ?_, fun q hq => ?_⟩
  · refine List.pairwise_flatMap.2 ⟨fun p _ => ?_, h.distinct.imp fun hpq q hq r hr heq => ?_⟩
    · exact ((leaves_apart d p).filter _).imp fun hne heq => hne heq.2
    · rw [(child_of_mem_leaves (List.mem_filter.1 hq).1).1,
        (child_of_mem_leaves (List.mem_filter.1 hr).1).1] at heq
      exact hpq heq.1
  · obtain ⟨p, hp, hleaf⟩ := List.mem_flatMap.1 (h.files.subset hq)
    obtain ⟨hleaf, hadmitted⟩ := List.mem_filter.1 hleaf
    obtain ⟨ns, rfl, hthrough⟩ := happroached p hp
    obtain ⟨n, hn⟩ := (child_of_mem_leaves hleaf).2
    exact ⟨ns, n, hn, hthrough, hp, hleaf, PathFilter.admits_iff.1 hadmitted⟩

theorem below_explores {place : Place} (h : d.locate p = .ok place)
    (hd : d.isDirAt place.real = true) :
    Explores d f [] [⟨p, place, false⟩] (below d f true p place) := by
  rw [below]
  cases he : f.excludes p true with
  | error e => exact explores_nothing d f [] _ _
  | ok b =>
    cases b with
    | true =>
      exact ⟨rfl, List.forall_mem_nil _, List.forall_mem_nil _, .nil, .slnil, Nat.zero_le _⟩
    | false =>
      exact run_explores (List.forall_mem_singleton.2 ⟨⟨h, hd⟩, PathFilter.admits_iff.2 he⟩)

theorem length_listed_start (v : View) (f : PathFilter) (raw : Text) :
    (start v f true raw).listed.length ≤ v.disk.entries.length + 1 := by
  cases h : v.disk.locate (v.absolute raw) with
  | error e =>
    rw [start_missing h]
    exact Nat.zero_le _
  | ok place =>
    cases hd : v.disk.isDirAt place.real with
    | false =>
      rw [start_other h hd]
      exact Nat.zero_le _
    | true =>
      have hbounded := (below_explores (f := f) h hd).bounded
      have hbeyond : v.disk.beyond [] ≤ v.disk.entries.length := List.countP_le_length
      rw [List.length_singleton] at hbounded
      rw [start_directory h hd]
      omega

theorem length_listed_andThen (first second : Walk) :
    (first.andThen second).listed.length ≤ first.listed.length + second.listed.length := by
  cases he : first.ended with
  | error e =>
    rw [andThen_of_error he]
    exact Nat.le_add_right _ _
  | ok u =>
    have hlisted := congrArg List.length (andThen_of_ok he second).2.1
    exact Nat.le_of_eq (hlisted.trans List.length_append)

theorem length_listed_startAll (v : View) (f : PathFilter) (raws : List Text) :
    (startAll v f true raws).listed.length ≤ raws.length * (v.disk.entries.length + 1) := by
  induction raws with
  | nil => exact Nat.zero_le _
  | cons raw raws ih =>
    have hstart := length_listed_start v f raw
    have hboth := length_listed_andThen (start v f true raw) (startAll v f true raws)
    rw [List.length_cons, Nat.succ_mul]
    exact Nat.le_trans hboth (by omega)

/-- A walk that follows links comes to an end, however they lead: from each start it lists at most
one directory more than the disk has entries. It takes the entries of each directory once at most,
by a path on which no directory is excluded. -/
theorem startAll_follows (v : View) (f : PathFilter) :
    (∀ raws, (startAll v f true raws).listed.length ≤
      raws.length * (v.disk.entries.length + 1)) ∧
    ∀ raw place, v.disk.locate (v.absolute raw) = .ok place →
      v.disk.isDirAt place.real = true →
      Followed v.disk f (v.absolute raw) (start v f true raw) := by
  refine ⟨length_listed_startAll v f, fun raw place h hd => ?_⟩
  rw [start_directory h hd]
  exact (below_explores h hd).followed

namespace Circle

def disk : Disk := ⟨[([⟨"o".toList, by decide⟩], .link "/")]⟩

def filter : PathFilter := ⟨[], [], .empty, .root⟩

end Circle

theorem circle_comes_to_an_end :
    (startAll ⟨Circle.disk, .root⟩ Circle.filter true ["/"]).listed.length ≤ 2 ∧
    Followed Circle.disk Circle.filter .root
      (start ⟨Circle.disk, .root⟩ Circle.filter true "/") := by
  obtain ⟨hbound, hfollowed⟩ := startAll_follows ⟨Circle.disk, .root⟩ Circle.filter
  exact ⟨hbound ["/"], hfollowed "/" ⟨[], Disk.maxLinks⟩ Disk.follow_nil rfl⟩

end Walk
end PathSelection
