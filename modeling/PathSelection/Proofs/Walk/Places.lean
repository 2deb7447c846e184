import PathSelection.Proofs.Disk.Follow
import PathSelection.Proofs.Walk.Reached

namespace PathSelection

namespace Site

variable {d : Disk} {s c : Site} {n : Name} {p : AbsPath}

def descend (s : Site) (ns : List Name) : Site :=
  ⟨s.path.descend ns, ⟨s.place.real ++ ns, s.place.links⟩, false⟩

theorem child?_of_dir (h : d.isDirAt (s.place.real ++ [n]) = true) :
    s.child? d n = some (s.descend [n]) := by
  obtain ⟨e, he, hd⟩ := Disk.isDirAt_iff.1 h
  rw [child?, he]
  cases e with
  | dir _ | sealed => rfl
  | file _ | unreadable | link _ => cases hd

theorem child?_of_leaf {e : Entry} (he : d.get? (s.place.real ++ [n]) = some e)
    (hl : d.isLinkAt (s.place.real ++ [n]) = false) (hd : e.isDir = false) :
    s.child? d n = none := by
  rw [child?, he]
  cases e with
  | link target => exact (Disk.isLinkAt_eq_false.1 hl target he).elim
  | file _ | unreadable => rfl
  | dir _ | sealed => cases hd

theorem dir_of_child? (h : s.child? d n = some c) (hl : c.viaLink = false) :
    d.isDirAt (s.place.real ++ [n]) = true ∧ c = s.descend [n] := by
  unfold child? at h
  split at h
  · cases h
  · split at h
    · split at h
      · cases h
        cases hl
      · cases h
    · cases h
  · next e _ he =>
    split at h
    · next hd =>
      cases h
      exact ⟨Disk.isDirAt_iff.2 ⟨e, he, hd⟩, rfl⟩
    · cases h

theorem mem_children_unlinked :
    c ∈ s.children d ∧ c.viaLink = false ↔
      ∃ n, d.isDirAt (s.place.real ++ [n]) = true ∧ c = s.descend [n] := by
  constructor
  · rintro ⟨hc, hl⟩
    obtain ⟨n, -, hn⟩ := List.mem_filterMap.1 hc
    exact ⟨n, dir_of_child? hn hl⟩
  · rintro ⟨n, hn, rfl⟩
    obtain ⟨e, he, -⟩ := Disk.isDirAt_iff.1 hn
    exact ⟨List.mem_filterMap.2 ⟨n, Disk.mem_names_of_get? he, child?_of_dir hn⟩, rfl⟩

theorem mem_files :
    p ∈ s.files d ↔ ∃ n ∈ d.names s.place.real, s.child? d n = none ∧ p = s.path.descend [n] := by
  simp only [files, List.mem_map, List.mem_filter, Option.isNone_iff_eq_none, and_assoc,
    AbsPath.child_eq_descend, eq_comm (b := p)]

theorem entries_of_single (hn : d.names s.place.real = [n]) (hc : s.child? d n = none) :
    s.children d = [] ∧ s.files d = [s.path.child n] := by
  constructor
  · rw [children, hn, List.filterMap_cons_none hc, List.filterMap_nil]
  · rw [files, hn, List.filter_cons_of_pos (by rw [hc]; rfl), List.filter_nil, List.map_singleton]

theorem child?_of_not_dir {place : Place}
    (h : d.follow s.place.links s.place.real [.down n] = .ok place)
    (hp : d.isDirAt place.real = false) :
    n ∈ d.names s.place.real ∧ s.child? d n = none := by
  obtain ⟨-, ⟨e, he⟩, hon⟩ := Disk.follow_down_ok h
  refine ⟨Disk.mem_names_of_get? he, ?_⟩
  cases hl : d.isLinkAt (s.place.real ++ [n]) with
  | true =>
    obtain ⟨target, htarget⟩ := Disk.isLinkAt_iff.1 hl
    rw [child?, htarget]
    simp only [h, hp]
    rfl
  | false =>
    have hon := hon hl
    rw [Disk.follow_nil] at hon
    cases hon
    exact child?_of_leaf he hl ((Disk.isDirAt_eq_false he).1 hp)

end Site

theorem Disk.follow_dirs {d : Disk} {links : Nat} {here : RealPath} {dirs : List Name} {n : Name}
    {place : Place} (h : d.follow links here ((dirs ++ [n]).map .down) = .ok place)
    (hl : ∀ ms, ms <+: dirs → ms ≠ [] → d.isLinkAt (here ++ ms) = false) :
    (∀ ms, ms <+: dirs → d.isDirAt (here ++ ms) = true) ∧
      d.follow links (here ++ dirs) [.down n] = .ok place := by
  induction dirs generalizing here with
  | nil =>
    refine ⟨fun ms hms => ?_, by rwa [List.append_nil]⟩
    rw [List.prefix_nil.1 hms, List.append_nil]
    exact (follow_down_ok h).1
  | cons m dirs ih =>
    obtain ⟨hd, -, hon⟩ := follow_down_ok h
    have hon := hon (hl [m] ⟨dirs, rfl⟩ (by simp))
    obtain ⟨hdirs, hn⟩ := ih hon fun ms hms hne => by
      rw [List.append_assoc]
      exact hl (m :: ms) (List.cons_prefix_cons.2 ⟨rfl, hms⟩) (by simp)
    refine ⟨fun ms hms => ?_, by rwa [List.append_assoc] at hn⟩
    cases ms with
    | nil => rwa [List.append_nil]
    | cons m' ms =>
      obtain ⟨rfl, htail⟩ := List.cons_prefix_cons.1 hms
      have hdir := hdirs ms htail
      rwa [List.append_assoc] at hdir

namespace Walk

variable {d : Disk} {f : PathFilter} {s t : Site}

theorem Reached.descend (h : Reached d f s t) :
    ∃ ns, t.path = s.path.descend ns ∧ t.place = ⟨s.place.real ++ ns, s.place.links⟩ ∧
      ∀ ms, ms <+: ns → ms ≠ [] → f.admits (s.path.descend ms) true = true := by
  induction h with
  | here s =>
    refine ⟨[], s.path.descend_nil.symm, by rw [List.append_nil], fun ms hms hne => ?_⟩
    exact (hne (List.prefix_nil.1 hms)).elim
  | @into s c t hc hl ha ht ih =>
    obtain ⟨n, -, rfl⟩ := Site.mem_children_unlinked.1 ⟨hc, hl⟩
    obtain ⟨ns, hpath, hplace, hadmits⟩ := ih
    refine ⟨n :: ns, ?_, ?_, fun ms hms hne => ?_⟩
    · rw [hpath, Site.descend, AbsPath.descend_descend]
      rfl
    · rw [hplace, Site.descend, List.append_assoc]
      rfl
    · cases ms with
      | nil => exact (hne rfl).elim
      | cons m ms =>
        obtain ⟨rfl, htail⟩ := List.cons_prefix_cons.1 hms
        by_cases hm : ms = []
        · rw [hm]
          exact ha
        · have hon := hadmits ms htail hm
          rwa [Site.descend, AbsPath.descend_descend] at hon

theorem reached_descend {ns : List Name} (hs : ∀ t, Reached d f s t → Surveyed d f t)
    (hd : ∀ ms, ms <+: ns → ms ≠ [] → d.isDirAt (s.place.real ++ ms) = true)
    (he : ∀ ms, ms <+: ns → ms ≠ [] → f.excludes (s.path.descend ms) true ≠ .ok true) :
    ∃ t, Reached d f s t ∧ t.path = s.path.descend ns ∧
      t.place = ⟨s.place.real ++ ns, s.place.links⟩ := by
  induction ns generalizing s with
  | nil => exact ⟨s, .here s, (s.path.descend_nil).symm, by rw [List.append_nil]⟩
  | cons n ns ih =>
    have hfirst : [n] <+: n :: ns := ⟨ns, rfl⟩
    obtain ⟨hc, hl⟩ := Site.mem_children_unlinked.2 ⟨n, hd [n] hfirst (by simp), rfl⟩
    have ha : f.admits (s.descend [n]).path true = true := by
      obtain ⟨b, hb⟩ := (hs s (.here s)).children _ hc
      cases b with
      | true => exact (he [n] hfirst (by simp) hb).elim
      | false => exact PathFilter.admits_iff.2 hb
    obtain ⟨t, ht, hpath, hplace⟩ := ih (fun t ht => hs t (.into hc hl ha ht))
      (fun ms hms hne => by
        rw [Site.descend, List.append_assoc]
        exact hd (n :: ms) (List.cons_prefix_cons.2 ⟨rfl, hms⟩) (by simp))
      (fun ms hms hne => by
        rw [Site.descend, AbsPath.descend_descend]
        exact he (n :: ms) (List.cons_prefix_cons.2 ⟨rfl, hms⟩) (by simp))
    refine ⟨t, .into hc hl ha ht, ?_, ?_⟩
    · rw [hpath, Site.descend, AbsPath.descend_descend]
      rfl
    · rw [hplace, Site.descend, List.append_assoc]
      rfl

theorem start_single {v : View} {followLinks : Bool} {raw : Text} {place : Place} {n : Name}
    (hplace : v.disk.locate (v.absolute raw) = .ok place)
    (hd : v.disk.get? place.real = some (.dir true)) (hn : v.disk.names place.real = [n])
    (hc : Site.child? v.disk ⟨v.absolute raw, place, false⟩ n = none)
    (ha : f.excludes (v.absolute raw) true = .ok false)
    (hf : f.excludes ((v.absolute raw).child n) false = .ok false) :
    start v f followLinks raw =
      ⟨[.listed (v.absolute raw), .file ((v.absolute raw).child n)], .ok ()⟩ := by
  let s : Site := ⟨v.absolute raw, place, false⟩
  obtain ⟨hchildren, hfiles⟩ := s.entries_of_single hn hc
  have hl : s.isListable v.disk = true := by
    rw [Site.isListable, hd]
  have hentered : entered v.disk f followLinks s = [] := by
    rw [entered, hchildren, prune, enterable]
    cases followLinks <;> rfl
  rw [start_directory hplace (Disk.isDirAt_iff.2 ⟨_, hd, rfl⟩), below, ha]
  change run v.disk f followLinks [] [s] = _
  rw [run_alone hl hentered, survey, hchildren, hfiles, prune, takeFiles, hf]
  rfl

end Walk
end PathSelection
