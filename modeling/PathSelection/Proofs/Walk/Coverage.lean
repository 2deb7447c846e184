import PathSelection.Proofs.Text.Distinct
import PathSelection.Proofs.Walk.Following

namespace PathSelection

namespace Walk

variable {d : Disk} {f : PathFilter} {s t c : Site} {ahead rest : List Site}
  {visited : List RealPath} {es : List Event} {real : RealPath} {p q : AbsPath}

/-- A directory was visited before, or its entries are taken by a walk. -/
def Met (d : Disk) (visited : List RealPath) (es : List Event) (real : RealPath) : Prop :=
  real ∈ visited ∨ ∃ r ∈ explored es, d.directory? r = some real

/-- The filter has decided on every entry of a directory. -/
structure Decided (d : Disk) (f : PathFilter) (p : AbsPath) : Prop where
  directories : ∀ q ∈ d.directories p, ∃ b, f.excludes q true = .ok b
  leaves : ∀ q ∈ d.leaves p, ∃ b, f.excludes q false = .ok b

/-- What a walk leaves out of the sites ahead: nothing but what the filter excludes by the path on
which it was met, and what was visited before. -/
structure Covers (d : Disk) (f : PathFilter) (visited : List RealPath) (ahead : List Site)
    (w : Walk) : Prop where
  ahead : ∀ s ∈ ahead, Met d visited w.events s.place.real
  decided : ∀ r ∈ explored w.events, Decided d f r
  inside : ∀ r ∈ explored w.events, ∀ q ∈ d.directories r, f.admits q true = true →
    ∀ real, d.directory? q = some real → Met d visited w.events real
  files : w.files = (explored w.events).flatMap fun r => (d.leaves r).filter (f.admits · false)

theorem Surveyed.decided (h : Surveyed d f s) (hs : s.Located d) : Decided d f s.path where
  directories q hq := by
    rw [← hs.children.1] at hq
    obtain ⟨c, hc, rfl⟩ := List.mem_map.1 hq
    exact h.children c hc
  leaves q hq := by
    rw [← hs.files] at hq
    exact h.files q hq

theorem Covers.survey {onward : Walk} (hs : s.Located d) (hl : s.isListable d = true)
    (he : (survey d f s).ended = .ok ()) (hb : revisits onward.events = false)
    (ho : Covers d f (s.place.real :: visited) (entered d f true s ++ rest) onward) :
    Covers d f visited (s :: rest) ((Walk.survey d f s).andThen onward) := by
  obtain ⟨hsurveyed, htaken, -⟩ := survey_ok hl he
  obtain ⟨hexplored, -⟩ := explored_survey d f s hb
  have hevents : ((Walk.survey d f s).andThen onward).events =
      (Walk.survey d f s).events ++ onward.events := by
    rw [andThen, he]
  rw [← hevents] at hexplored
  have hmet : ∀ real, Met d (s.place.real :: visited) onward.events real →
      Met d visited ((Walk.survey d f s).andThen onward).events real := by
    intro real hreal
    rw [Met, hexplored]
    rcases hreal with hreal | ⟨r, hr, hreal⟩
    · rcases List.mem_cons.1 hreal with rfl | hreal
      · exact .inr ⟨s.path, List.mem_cons_self, hs.directory?⟩
      · exact .inl hreal
    · exact .inr ⟨r, List.mem_cons_of_mem _ hr, hreal⟩
  constructor
  · intro c hc
    apply hmet
    rcases List.mem_cons.1 hc with rfl | hc
    · exact .inl List.mem_cons_self
    · exact ho.ahead c (List.mem_append_right _ hc)
  · intro r hr
    rw [hexplored] at hr
    rcases List.mem_cons.1 hr with rfl | hr
    · exact hsurveyed.decided hs
    · exact ho.decided r hr
  · intro r hr q hq ha real hreal
    apply hmet
    rw [hexplored] at hr
    rcases List.mem_cons.1 hr with rfl | hr
    · rw [← hs.children.1] at hq
      obtain ⟨c, hc, rfl⟩ := List.mem_map.1 hq
      have hentered : c ∈ entered d f true s := by
        rw [entered_following he]
        exact List.mem_filter.2 ⟨hc, ha⟩
      have hplace := (hs.of_mem_children hc).directory?
      rw [hreal, Option.some.injEq] at hplace
      rw [hplace]
      exact ho.ahead c (List.mem_append_left _ hentered)
    · exact ho.inside r hr q hq ha real hreal
  · rw [(andThen_of_ok he onward).2.2, hexplored, List.flatMap_cons, htaken, hs.files, ho.files]

theorem run_covers (h : ∀ s ∈ ahead, s.Located d ∧ f.admits s.path true = true)
    (hended : (run d f true visited ahead).ended = .ok ()) :
    Covers d f visited ahead (run d f true visited ahead) := by
  induction visited, ahead using Walk.run.induct d f true with
  | case1 visited =>
    rw [run]
    exact ⟨List.forall_mem_nil _, List.forall_mem_nil _, List.forall_mem_nil _, rfl⟩
  | case2 visited s rest hl =>
    rw [run, dif_pos hl] at hended
    cases hended
  | case3 visited s rest hl hv ih =>
    rw [run_revisited (by simpa using hl) hv.2] at hended ⊢
    have ih := ih (fun c hc => h c (List.mem_cons_of_mem _ hc)) hended
    refine ⟨?_, ih.decided, ih.inside, ih.files⟩
    intro c hc
    rcases List.mem_cons.1 hc with rfl | hc
    · exact .inl (by simpa using hv.2)
    · exact ih.ahead c hc
  | case4 visited s rest hl hv pruned here e he =>
    have he : (survey d f s).ended = .error e := he
    rw [run_survey (by simpa using hl) hv, he] at hended
    cases he.symm.trans hended
  | case5 visited s rest hl hv pruned here he ih =>
    obtain ⟨hs, ha⟩ := h s List.mem_cons_self
    have hl : s.isListable d = true := by simpa using hl
    have hv : visited.contains s.place.real = false := by simpa using hv
    have he : (survey d f s).ended = .ok () := he
    have hlocated : ∀ c ∈ entered d f true s ++ rest,
        c.Located d ∧ f.admits c.path true = true := by
      intro c hc
      rcases List.mem_append.1 hc with hc | hc
      · rw [entered_following he] at hc
        obtain ⟨hc, hadmitted⟩ := List.mem_filter.1 hc
        exact ⟨hs.of_mem_children hc, hadmitted⟩
      · exact h c (List.mem_cons_of_mem _ hc)
    rw [run_anew hl hv, he] at hended ⊢
    exact .survey hs hl he (run_explores hlocated).begins
      (ih hlocated ((andThen_of_ok he _).1.symm.trans hended))

/-- On the way from a path to another one beneath it, a walk has entered a directory by some other
path, and excludes under it the next entry on the way. -/
def Severed (d : Disk) (f : PathFilter) (explored : List AbsPath) (p q : AbsPath) : Prop :=
  ∃ ms n rest r, q = p.descend (ms ++ n :: rest) ∧ r ∈ explored ∧ r ≠ p.descend ms ∧
    d.directory? r = d.directory? (p.descend ms) ∧ f.excludes (r.child n) (!rest.isEmpty) = .ok true

theorem Severed.of_child {taken : List AbsPath} {n : Name} (h : Severed d f taken (p.child n) q) :
    Severed d f taken p q := by
  obtain ⟨ms, m, rest, r, hq, hr, hne, hreal, hexcluded⟩ := h
  rw [AbsPath.child_eq_descend, AbsPath.descend_descend] at hq hne hreal
  exact ⟨n :: ms, m, rest, r, hq, hr, hne, hreal, hexcluded⟩

/-- Of the directories that are reached without following links, the entries are taken by some path
if links are followed, unless the way is severed. -/
theorem met_of_reached {w : Walk} (hw : Covers d f [] ahead w) (hs : s.Located d)
    (hm : Met d [] w.events s.place.real) (h : Reached d f s t) :
    Met d [] w.events t.place.real ∨
      ∀ n, Severed d f (explored w.events) s.path (t.path.child n) := by
  induction h with
  | here s => exact .inl hm
  | @into s c t hc hl ha ht ih =>
    obtain ⟨n, hn, rfl⟩ := Site.mem_children_unlinked.1 ⟨hc, hl⟩
    obtain hm | ⟨r, hr, hreal⟩ := hm
    · cases hm
    have hchild : d.directory? (r.child n) = some (s.place.real ++ [n]) :=
      Disk.directory?_child hreal hn
    have hmem : r.child n ∈ d.directories r := by
      apply Disk.mem_entriesAt.2
      obtain ⟨e, he, -⟩ := Disk.isDirAt_iff.1 hn
      exact ⟨_, n, hreal, Disk.mem_names_of_get? he, by rw [hchild]; rfl, rfl⟩
    obtain ⟨b, hb⟩ := (hw.decided r hr).directories _ hmem
    cases b with
    | false =>
      have hinside := hw.inside r hr _ hmem (PathFilter.admits_iff.2 hb) _ hchild
      exact (ih (hs.of_mem_children hc) hinside).imp_right fun hsevered m =>
        (hsevered m).of_child
    | true =>
      refine .inr fun m => ?_
      obtain ⟨ns, hpath, -, -⟩ := ht.descend
      refine ⟨[], n, ns ++ [m], r, ?_, hr, ?_, ?_, ?_⟩
      · rw [hpath, AbsPath.child_eq_descend, AbsPath.descend_descend, Site.descend,
          AbsPath.descend_descend]
        rfl
      · rintro rfl
        rw [AbsPath.descend_nil] at hb
        cases hb.symm.trans (PathFilter.admits_iff.1 ha)
      · rw [AbsPath.descend_nil, hs.directory?, hreal]
      · have hrest : (!(ns ++ [m]).isEmpty) = true := by simp
        rwa [hrest]

theorem Reached.located (h : Reached d f s t) (hs : s.Located d) : t.Located d := by
  induction h with
  | here s => exact hs
  | into hc hl ha ht ih => exact ih (hs.of_mem_children hc)

theorem directory?_of_fewer_links {n : Name} {links fewer : Nat}
    (hp : d.locate p = .ok ⟨real, links⟩) (hq : d.locate q = .ok ⟨real, fewer⟩)
    (hle : fewer ≤ links) (hn : d.directory? (p.child n) = none) :
    d.directory? (q.child n) = none := by
  cases hchild : d.directory? (q.child n) with
  | none => rfl
  | some inner =>
    obtain ⟨left, hlocate, hd⟩ := Disk.directory?_ok hchild
    rw [Disk.locate_child hq] at hlocate
    have hmore := (Disk.follow_more hlocate).2 (links - fewer)
    rw [Nat.add_sub_cancel' hle] at hmore
    have hfound := Disk.directory?_eq_some ((Disk.locate_child hp).trans hmore) hd
    cases hn.symm.trans hfound

/-- A walk comes upon a file of the same name, in a directory that really is the same. -/
def Again (d : Disk) (w : Walk) (p : AbsPath) : Prop :=
  ∃ q ∈ w.files, q.names.getLast? = p.names.getLast? ∧ d.directory? q.parent = d.directory? p.parent

theorem again_of_met {w : Walk} {n : Name} (hw : Covers d f [] [s] w) (hx : Explores d f [] [s] w)
    (hs : s.Located d) (ht : Reached d f s t) (hm : Met d [] w.events t.place.real)
    (hn : n ∈ d.names t.place.real) (hleaf : d.directory? (t.path.child n) = none)
    (ha : f.admits (t.path.child n) false = true) :
    Again d w (t.path.child n) ∨ Severed d f (explored w.events) s.path (t.path.child n) := by
  have htl := ht.located hs
  obtain ⟨ns, hpath, hplace, -⟩ := ht.descend
  obtain hm | ⟨r, hr, hreal⟩ := hm
  · cases hm
  have hleaf' : d.directory? (r.child n) = none := by
    -- The way to `r` begins where the way to `t` does, and only it may lead over links.
    obtain ⟨left, hlocate, -⟩ := Disk.directory?_ok hreal
    obtain ⟨c, hc, ms, hms, -⟩ := hx.approached r hr
    cases List.mem_singleton.1 hc
    have hfollow := hlocate
    rw [hms, Disk.locate_descend, hs.locate] at hfollow
    have hle : left ≤ t.place.links := by
      rw [hplace]
      exact (Disk.follow_more hfollow).1
    exact directory?_of_fewer_links htl.locate hlocate hle hleaf
  have hmem : r.child n ∈ d.leaves r :=
    Disk.mem_entriesAt.2 ⟨_, n, hreal, hn, by rw [hleaf']; rfl, rfl⟩
  obtain ⟨b, hb⟩ := (hw.decided r hr).leaves _ hmem
  cases b with
  | false =>
    refine .inl ⟨r.child n, ?_, ?_, ?_⟩
    · rw [hw.files]
      exact List.mem_flatMap.2 ⟨r, hr, List.mem_filter.2 ⟨hmem, PathFilter.admits_iff.2 hb⟩⟩
    · simp only [AbsPath.child, List.getLast?_concat]
    · simp only [AbsPath.parent, AbsPath.child, List.dropLast_concat]
      exact hreal.trans htl.directory?.symm
  | true =>
    refine .inr ⟨ns, n, [], r, ?_, hr, ?_, ?_, hb⟩
    · rw [hpath, AbsPath.child_eq_descend, AbsPath.descend_descend]
    · rintro rfl
      rw [hpath] at ha
      cases hb.symm.trans (PathFilter.admits_iff.1 ha)
    · rw [← hpath, htl.directory?, hreal]

/-- A file that a walk comes upon without following links, it comes upon by some path if it follows
them, unless the way to the file is severed. -/
theorem again_unless_severed {v : View} {raw : Text}
    (hplain : (start v f false raw).ended = .ok ()) (hlinks : (start v f true raw).ended = .ok ())
    (hp : p ∈ (start v f false raw).files) : Again v.disk (start v f true raw) p ∨
      Severed v.disk f (explored (start v f true raw).events) (v.absolute raw) p := by
  cases hplace : v.disk.locate (v.absolute raw) with
  | error e =>
    rw [start_missing hplace] at hplain
    cases hplain
  | ok place =>
    cases hd : v.disk.isDirAt place.real with
    | false =>
      rw [start_other hplace hd] at hp ⊢
      exact .inl ⟨p, hp, rfl, rfl⟩
    | true =>
      rw [start_directory hplace hd] at hplain hp
      obtain ⟨ha, t, ht, hfile, hadmits⟩ := ((below_ok hplain).2.2 p).1 hp
      let s : Site := ⟨v.absolute raw, place, false⟩
      have hs : s.Located v.disk := ⟨hplace, hd⟩
      have hrun : start v f true raw = run v.disk f true [] [s] := by
        rw [start_directory hplace hd, below, PathFilter.admits_iff.1 ha]
      have hahead : ∀ c ∈ [s], c.Located v.disk ∧ f.admits c.path true = true :=
        List.forall_mem_singleton.2 ⟨hs, ha⟩
      rw [hrun] at hlinks ⊢
      have hw := run_covers hahead hlinks
      obtain ⟨n, hn, hnone, rfl⟩ := Site.mem_files.1 hfile
      rcases met_of_reached hw hs (hw.ahead s List.mem_cons_self) ht with hmet | hsevered
      · have hleaf : v.disk.directory? (t.path.child n) = none := by
          rw [← Option.not_isSome_iff_eq_none, ← (ht.located hs).isSome_child?, hnone]
          decide
        exact again_of_met hw (run_explores hahead) hs ht hmet hn hleaf hadmits
      · exact .inr (hsevered n)

-- A directory with one file, and a link to it. The filter excludes the file under the link, which
-- comes first.
namespace Linked

def link : Name := ⟨"a".toList, by decide⟩

def directory : Name := ⟨"z".toList, by decide⟩

def file : Name := ⟨"y".toList, by decide⟩

def disk : Disk :=
  ⟨[([link], .link "z"), ([directory], .dir true), ([directory, file], .file .empty)]⟩

def filter : PathFilter :=
  ⟨[], [], .add .empty ⟨.root, [⟨false, false, [.glob [.literal 'a'], .glob [.literal 'y']]⟩]⟩,
    .root⟩

def view : View := ⟨disk, .root⟩

def top : Site := ⟨.root, ⟨[], Disk.maxLinks⟩, false⟩

def throughLink : Site := ⟨⟨false, [link]⟩, ⟨[directory], 39⟩, true⟩

def direct : Site := ⟨⟨false, [directory]⟩, ⟨[directory], Disk.maxLinks⟩, false⟩

theorem names_top : disk.names [] = [link, directory] := by
  rw [Disk.names, if_neg (by decide),
    show (disk.entries.map Prod.fst).filterMap (Disk.entryOf? []) = [link, directory] from rfl,
    eraseDups_of_nodup (by decide)]
  exact List.mergeSort_of_pairwise (by simp; decide)

theorem names_directory : disk.names [directory] = [file] :=
  Disk.names_of_single rfl rfl

theorem child?_link : top.child? disk link = some throughLink := by
  have hroot : disk.isDirAt [] = true := rfl
  have hlink : disk.get? ([] ++ [link]) = some (.link "z") := rfl
  have hfollow : disk.follow top.place.links top.place.real [.down link] =
      .ok ⟨[directory], 39⟩ := by
    rw [show top.place.links = 39 + 1 from rfl, show top.place.real = [] from rfl,
      Disk.follow_link hroot hlink]
    change disk.follow 39 [] [.down directory] = _
    rw [Disk.follow_down hroot (e := .dir true) rfl rfl, Disk.follow_nil]
    rfl
  rw [Site.child?, show disk.get? (top.place.real ++ [link]) = some (.link "z") from rfl]
  simp only [hfollow]
  rfl

theorem children_top : top.children disk = [throughLink, direct] := by
  have hdirect : top.child? disk directory = some direct := rfl
  rw [Site.children, show disk.names top.place.real = [link, directory] from names_top,
    List.filterMap_cons_some child?_link, List.filterMap_cons_some hdirect, List.filterMap_nil]

theorem files_top : top.files disk = [] := by
  rw [Site.files, show disk.names top.place.real = [link, directory] from names_top,
    List.filter_cons_of_neg (by rw [child?_link]; decide),
    List.filter_cons_of_neg (by decide)]
  rfl

theorem survey_top : survey disk filter top = ⟨[.listed .root], .ok ()⟩ := by
  rw [survey, children_top, files_top]
  rfl

theorem inside {s : Site} (hs : s.place.real = [directory]) :
    s.children disk = [] ∧ s.files disk = [s.path.child file] := by
  apply Site.entries_of_single
  · rw [hs, names_directory]
  · rw [Site.child?, hs]
    rfl

theorem survey_throughLink : survey disk filter throughLink =
    ⟨[.listed ⟨false, [link]⟩], .ok ()⟩ := by
  obtain ⟨hchildren, hfiles⟩ := inside (s := throughLink) rfl
  rw [survey, hchildren, hfiles]
  rfl

theorem survey_direct : survey disk filter direct =
    ⟨[.listed ⟨false, [directory]⟩, .file ⟨false, [directory, file]⟩], .ok ()⟩ := by
  obtain ⟨hchildren, hfiles⟩ := inside (s := direct) rfl
  rw [survey, hchildren, hfiles]
  rfl

theorem start_top (followLinks : Bool) :
    start view filter followLinks "/" = run disk filter followLinks [] [top] := by
  have hlocate : view.disk.locate (view.absolute "/") = .ok ⟨[], Disk.maxLinks⟩ := Disk.follow_nil
  rw [start_directory hlocate rfl]
  rfl

theorem start_plain : start view filter false "/" = ⟨[.listed .root,
    .listed ⟨false, [directory]⟩, .file ⟨false, [directory, file]⟩], .ok ()⟩ := by
  have htop : entered disk filter false top = [direct] := by
    rw [entered, children_top]
    rfl
  have hdirect : entered disk filter false direct = [] := by
    rw [entered, (inside (s := direct) rfl).1]
    rfl
  rw [start_top, run_cons rfl, survey_top, htop]
  simp only [List.append_nil]
  rw [run_cons rfl, survey_direct, hdirect, List.append_nil, run]
  rfl

theorem start_following : start view filter true "/" = ⟨[.listed .root, .listed ⟨false, [link]⟩,
    .listed ⟨false, [directory]⟩, .revisited ⟨false, [directory]⟩ [directory]], .ok ()⟩ := by
  have htop : entered disk filter true top = [throughLink, direct] := by
    rw [entered, children_top]
    rfl
  have hlink : entered disk filter true throughLink = [] := by
    rw [entered, (inside (s := throughLink) rfl).1]
    rfl
  rw [start_top, run_anew rfl rfl, survey_top, htop]
  simp only [List.append_nil]
  rw [run_anew rfl rfl, survey_throughLink, hlink, List.nil_append, run_revisited rfl rfl, run]
  rfl

end Linked

/-- Without following links the walk comes upon the file, but if it follows them, by no path. -/
theorem file_lost_behind_link :
    (start Linked.view Linked.filter false "/").ended = .ok () ∧
      (start Linked.view Linked.filter true "/").ended = .ok () ∧
      ⟨false, [Linked.directory, Linked.file]⟩ ∈ (start Linked.view Linked.filter false "/").files ∧
      ¬Again Linked.disk (start Linked.view Linked.filter true "/")
        ⟨false, [Linked.directory, Linked.file]⟩ := by
  rw [Linked.start_plain, Linked.start_following]
  refine ⟨rfl, rfl, List.mem_singleton_self _, ?_⟩
  rintro ⟨q, hq, -⟩
  cases hq

/-- The way to that file is severed. -/
theorem severed_behind_link :
    (start Linked.view Linked.filter false "/").ended = .ok () ∧
      (start Linked.view Linked.filter true "/").ended = .ok () ∧
      ⟨false, [Linked.directory, Linked.file]⟩ ∈ (start Linked.view Linked.filter false "/").files ∧
      (Again Linked.disk (start Linked.view Linked.filter true "/")
          ⟨false, [Linked.directory, Linked.file]⟩ ∨
        Severed Linked.disk Linked.filter
          (explored (start Linked.view Linked.filter true "/").events) .root
          ⟨false, [Linked.directory, Linked.file]⟩) := by
  have hplain : (start Linked.view Linked.filter false "/").ended = .ok () := by
    rw [Linked.start_plain]
  have hlinks : (start Linked.view Linked.filter true "/").ended = .ok () := by
    rw [Linked.start_following]
  have hfile : ⟨false, [Linked.directory, Linked.file]⟩ ∈
      (start Linked.view Linked.filter false "/").files := by
    rw [Linked.start_plain]
    exact List.mem_singleton_self _
  exact ⟨hplain, hlinks, hfile, again_unless_severed hplain hlinks hfile⟩

end Walk
end PathSelection
