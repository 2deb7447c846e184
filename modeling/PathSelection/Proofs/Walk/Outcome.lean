import PathSelection.Proofs.Text.Order
import PathSelection.Proofs.Walk.Tour

namespace PathSelection

namespace Walk

variable {d d' : Disk} {f : PathFilter} {p q : AbsPath} {v : View} {raw : Text}

section Attended

theorem attended_prefix (d : Disk) (f : PathFilter) (ps : List AbsPath) :
    attended d f ps <+: ps := by
  induction ps with
  | nil => exact List.prefix_rfl
  | cons p ps ih =>
    rw [attended]
    split
    · refine List.cons_prefix_cons.2 ⟨rfl, ?_⟩
      split
      · exact ih
      · exact List.nil_prefix
    · exact List.nil_prefix

theorem attended_append {before : List AbsPath} (h : ∀ q ∈ before, trouble d f q = none)
    (after : List AbsPath) : attended d f (before ++ after) = before ++ attended d f after := by
  induction before with
  | nil => rfl
  | cons q before ih =>
    have hq := h q List.mem_cons_self
    rw [List.cons_append, attended, if_pos (isListable_of_trouble hq), hq,
      ih fun r hr => h r (List.mem_cons_of_mem _ hr)]
    rfl

theorem findSome?_walk {ps : List AbsPath} {t : Text} {error : DiskError} :
    ps.findSome? (trouble d f) = some (.walk t error) ↔
      error = .permissionDenied ∧ ∃ before q after, ps = before ++ q :: after ∧
        attended d f ps = before ∧ (∀ r ∈ before, trouble d f r = none) ∧
        d.isListable q = false ∧ q.text = t := by
  rw [List.findSome?_eq_some_iff]
  constructor
  · rintro ⟨before, q, after, rfl, hq, hbefore⟩
    obtain ⟨herror, hl, ht⟩ := trouble_eq_walk.1 hq
    refine ⟨herror, before, q, after, rfl, ?_, hbefore, hl, ht⟩
    rw [attended_append hbefore, attended, hl, if_neg Bool.false_ne_true, List.append_nil]
  · rintro ⟨herror, before, q, after, hps, -, hbefore, hl, ht⟩
    exact ⟨before, q, after, hps, trouble_eq_walk.2 ⟨herror, hl, ht⟩, hbefore⟩

end Attended

theorem admitted_of_mem_tour (h : q ∈ tour d f p) :
    ∃ ns, q = p.descend ns ∧ ∀ ms, ms <+: ns → f.excludes (p.descend ms) true = .ok false := by
  induction hn : height d p using Nat.strongRecOn generalizing p with
  | ind n ih =>
    subst hn
    cases ha : f.admits p true with
    | false =>
      rw [tour_of_not_admitted ha] at h
      cases h
    | true =>
      have hhere : f.excludes (p.descend []) true = .ok false := by
        rw [AbsPath.descend_nil]
        exact PathFilter.admits_iff.1 ha
      rw [tour_of_admitted ha] at h
      rcases List.mem_cons.1 h with rfl | h
      · refine ⟨[], q.descend_nil.symm, fun ms hms => ?_⟩
        rwa [List.prefix_nil.1 hms]
      · obtain ⟨c, hc, hq⟩ := List.mem_flatMap.1 h
        obtain ⟨ns, rfl, hns⟩ := ih _ (height_lt hc) hq rfl
        obtain ⟨real, n, -, -, -, rfl⟩ := Disk.mem_entriesAt.1 hc
        refine ⟨n :: ns, ?_, forall_prefix_cons.2 ⟨hhere, fun ms hms => ?_⟩⟩
        · rw [AbsPath.child_eq_descend, AbsPath.descend_descend]
          rfl
        · have hadmitted := hns ms hms
          rwa [AbsPath.child_eq_descend, AbsPath.descend_descend] at hadmitted

section Alike

theorem tour_alike (h : d.Alike d') (p : AbsPath) : tour d' f p = tour d f p := by
  induction hn : height d p using Nat.strongRecOn generalizing p with
  | ind n ih =>
    subst hn
    cases ha : f.admits p true with
    | false => rw [tour_of_not_admitted ha, tour_of_not_admitted ha]
    | true =>
      rw [tour_of_admitted ha, tour_of_admitted ha, h.subdirectories]
      exact congrArg _ (List.flatMap_congr fun q hq => ih _ (height_lt hq) q rfl)

theorem gathered_alike (h : d.Alike d') (p : AbsPath) : gathered d' f p = gathered d f p := by
  simp only [gathered_eq_flatMap, tour_alike h, h.leaves]

theorem findSome?_alike (h : d.Alike d') {ps : List AbsPath}
    (hl : ∀ q ∈ ps, d'.isListable q = d.isListable q) :
    ps.findSome? (trouble d' f) = ps.findSome? (trouble d f) := by
  induction ps with
  | nil => rfl
  | cons q ps ih =>
    rw [List.findSome?_cons, List.findSome?_cons, trouble_alike h (hl q List.mem_cons_self),
      ih fun r hr => hl r (List.mem_cons_of_mem _ hr)]

theorem expected_alike (h : v.disk.Alike d')
    (hl : ∀ q ∈ tour v.disk f (v.absolute raw), d'.isListable q = v.disk.isListable q) :
    expected ⟨d', v.cwd⟩ f raw = expected v f raw := by
  have habsolute : (⟨d', v.cwd⟩ : View).absolute raw = v.absolute raw := rfl
  simp only [expected, habsolute, h.locate, h.isDirAt, tour_alike h, gathered_alike h,
    findSome?_alike h hl]

end Alike

section Outcome

theorem outcome_of_files {w : Walk} {paths : List AbsPath}
    (h : w.ended = .ok () → w.files = paths) : w.outcome = w.ended.map fun _ => paths := by
  rw [outcome]
  cases he : w.ended with
  | error e => rfl
  | ok u => rw [h he]

theorem outcome_andThen (first second : Walk) :
    (first.andThen second).outcome = do return (← first.outcome) ++ (← second.outcome) := by
  cases he : first.ended with
  | error e =>
    rw [andThen_of_error he, outcome, he]
    rfl
  | ok u =>
    obtain ⟨hended, -, hfiles⟩ := andThen_of_ok he second
    rw [outcome, hended, hfiles, outcome, outcome, he]
    cases second.ended <;> rfl

theorem below_tour {place : Place} (h : d.locate p = .ok place)
    (hd : d.isDirAt place.real = true) :
    (below d f false p place).ended = (do
      let _ ← f.excludes p true
      stopped ((tour d f p).findSome? (trouble d f))) ∧
      (below d f false p place).listed = attended d f (tour d f p) ∧
      ((below d f false p place).ended = .ok () →
        (below d f false p place).files = gathered d f p) := by
  rw [below]
  cases he : f.excludes p true with
  | error e =>
    have ha : f.admits p true = false := by rw [PathFilter.admits, he]
    rw [tour_of_not_admitted ha]
    refine ⟨rfl, rfl, fun hok => ?_⟩
    cases hok
  | ok b =>
    have ha := PathFilter.admits_eq_false he
    cases b with
    | true =>
      rw [tour_of_not_admitted ha, gathered_of_not_admitted ha]
      exact ⟨rfl, rfl, fun _ => rfl⟩
    | false =>
      have hstart : Site.Located d ⟨p, place, false⟩ ∧ f.admits p true = true := ⟨⟨h, hd⟩, ha⟩
      have hrun := @run_tour d f [] [⟨p, place, false⟩] (List.forall_mem_singleton.2 hstart)
      simp only [List.map_cons, List.map_nil, List.flatMap_cons, List.flatMap_nil,
        List.append_nil] at hrun
      exact hrun

theorem outcome_start (v : View) (f : PathFilter) (raw : Text) :
    (start v f false raw).outcome = expected v f raw := by
  cases hplace : v.disk.locate (v.absolute raw) with
  | error e =>
    rw [start_missing hplace, expected, hplace]
    rfl
  | ok place =>
    cases hd : v.disk.isDirAt place.real with
    | false =>
      rw [start_other hplace hd]
      simp only [expected, hplace, hd, Bool.false_eq_true, if_false]
      rfl
    | true =>
      obtain ⟨hended, -, hfiles⟩ := below_tour (f := f) hplace hd
      rw [start_directory hplace hd, outcome_of_files hfiles, hended]
      simp only [expected, hplace, hd, if_true]
      cases f.excludes (v.absolute raw) true with
      | error e => rfl
      | ok b => cases (tour v.disk f (v.absolute raw)).findSome? (trouble v.disk f) <;> rfl

theorem files_start (h : (start v f false raw).ended = .ok ()) :
    ∃ place, v.disk.locate (v.absolute raw) = .ok place ∧
      (start v f false raw).files =
        if v.disk.isDirAt place.real then gathered v.disk f (v.absolute raw)
        else [v.absolute raw] := by
  cases hplace : v.disk.locate (v.absolute raw) with
  | error e =>
    rw [start_missing hplace] at h
    cases h
  | ok place =>
    refine ⟨place, rfl, ?_⟩
    cases hd : v.disk.isDirAt place.real with
    | false =>
      rw [start_other hplace hd]
      rfl
    | true =>
      rw [start_directory hplace hd] at h ⊢
      exact (below_tour hplace hd).2.2 h

theorem files_start_subset {g : PathFilter}
    (h : ∀ q isDir, f.admits q isDir = true → g.admits q isDir = true)
    (hf : (start v f false raw).ended = .ok ()) (hg : (start v g false raw).ended = .ok ()) :
    (start v f false raw).files ⊆ (start v g false raw).files := by
  obtain ⟨place, hplace, hfiles⟩ := files_start hf
  obtain ⟨place', hplace', hfiles'⟩ := files_start hg
  cases hplace.symm.trans hplace'
  rw [hfiles, hfiles']
  cases v.disk.isDirAt place.real with
  | true => exact gathered_subset h _
  | false => exact List.Subset.refl _

theorem outcome_startAll (v : View) (f : PathFilter) (raws : List Text) :
    (startAll v f false raws).outcome = (raws.mapM (expected v f)).map List.flatten := by
  induction raws with
  | nil => rfl
  | cons raw raws ih =>
    rw [startAll_cons, outcome_andThen, outcome_start, ih, List.mapM_cons]
    cases expected v f raw with
    | error e => rfl
    | ok files => cases raws.mapM (expected v f) <;> rfl

theorem outcome_alike (h : v.disk.Alike d') {raws : List Text}
    (hl : ∀ raw ∈ raws, ∀ q ∈ tour v.disk f (v.absolute raw),
      d'.isListable q = v.disk.isListable q) :
    (startAll ⟨d', v.cwd⟩ f false raws).outcome = (startAll v f false raws).outcome := by
  have hmap : raws.mapM (expected ⟨d', v.cwd⟩ f) = raws.mapM (expected v f) := by
    induction raws with
    | nil => rfl
    | cons raw raws ih =>
      rw [List.mapM_cons, List.mapM_cons, expected_alike h (hl raw List.mem_cons_self),
        ih fun r hr => hl r (List.mem_cons_of_mem _ hr)]
  rw [outcome_startAll, outcome_startAll, hmap]

end Outcome

/-- What the walk from a directory has to do with the tour of it. -/
structure Toured (d : Disk) (f : PathFilter) (p : AbsPath) (w : Walk) : Prop where
  listed : w.listed = attended d f (tour d f p)
  listed_prefix : w.listed <+: tour d f p
  listed_all : w.ended = .ok () → w.listed = tour d f p
  unlistable : ∀ t error, w.ended = .error (.walk t error) ↔
    error = .permissionDenied ∧ ∃ before q after, tour d f p = before ++ q :: after ∧
      w.listed = before ∧ (∀ r ∈ before, trouble d f r = none) ∧
      d.isListable q = false ∧ q.text = t
  admitted : ∀ q ∈ tour d f p,
    ∃ ns, q = p.descend ns ∧ ∀ ms, ms <+: ns → f.excludes (p.descend ms) true = .ok false

theorem toured {place : Place} (h : d.locate p = .ok place) (hd : d.isDirAt place.real = true) :
    Toured d f p (below d f false p place) := by
  obtain ⟨hended, hlisted, -⟩ := below_tour (f := f) h hd
  have hok : (below d f false p place).ended = .ok () →
      (tour d f p).findSome? (trouble d f) = none := by
    intro hok
    rw [hended] at hok
    cases he : f.excludes p true with
    | error e =>
      rw [he] at hok
      cases hok
    | ok b =>
      rw [he] at hok
      exact stopped_eq_ok hok
  have hwalk (t : Text) (error : DiskError) :
      (below d f false p place).ended = .error (.walk t error) ↔
        (tour d f p).findSome? (trouble d f) = some (.walk t error) := by
    rw [hended]
    cases he : f.excludes p true with
    | error e =>
      have ha : f.admits p true = false := by rw [PathFilter.admits, he]
      obtain ⟨pattern, fault, rfl⟩ := PathFilter.excludes_error he
      rw [tour_of_not_admitted ha]
      constructor
      · intro hpattern
        cases hpattern
      · intro hnone
        cases hnone
    | ok b =>
      constructor
      · exact stopped_eq_error
      · intro hsome
        rw [hsome]
        rfl
  refine ⟨hlisted, ?_, fun hended => ?_, fun t error => ?_, fun q => admitted_of_mem_tour⟩
  · rw [hlisted]
    exact attended_prefix d f _
  · have hfree := List.findSome?_eq_none_iff.1 (hok hended)
    have hall := attended_append hfree []
    rwa [List.append_nil, attended, List.append_nil, ← hlisted] at hall
  · rw [hwalk, findSome?_walk, hlisted]

/-- Without following links a walk gives the files that the tours of its starts gather, and lists
the directories of these tours. Whether any other directory can be listed does not matter. -/
theorem startAll_makes_tours (v : View) (f : PathFilter) :
    (∀ raws, (startAll v f false raws).outcome =
      (raws.mapM (expected v f)).map List.flatten) ∧
    (∀ raw place, v.disk.locate (v.absolute raw) = .ok place →
      v.disk.isDirAt place.real = true →
      Toured v.disk f (v.absolute raw) (start v f false raw)) ∧
    (∀ raws d', v.disk.Alike d' →
      (∀ raw ∈ raws, ∀ q ∈ tour v.disk f (v.absolute raw),
        d'.isListable q = v.disk.isListable q) →
      (startAll ⟨d', v.cwd⟩ f false raws).outcome = (startAll v f false raws).outcome) ∧
    ∀ real, (v.disk.names real).Pairwise fun m n => m.text < n.text := by
  refine ⟨outcome_startAll v f, fun raw place h hd => ?_, fun raws d' h hl => outcome_alike h hl,
    v.disk.pairwise_lt_names⟩
  rw [start_directory h hd]
  exact toured h hd

namespace Locked

def n : Name := ⟨"n".toList, by decide⟩

def disk (listable : Bool) : Disk := ⟨[([n], .dir listable)]⟩

def filter : PathFilter :=
  ⟨[], [], .add .empty ⟨.root, [⟨false, true, [.anyDepth, .glob [.literal 'n'], .anyDepth]⟩]⟩,
    .root⟩

theorem closes_disk (listable : Bool) (real : RealPath) :
    (disk listable).closes real = false := by
  rw [← Bool.not_eq_true, Disk.closes_iff]
  rintro ⟨q, -, hq⟩
  simp only [disk, List.lookup_cons, List.lookup_nil] at hq
  split at hq <;> cases hq

theorem alike : (disk true).Alike (disk false) := by
  refine ⟨rfl, fun real => ?_⟩
  simp only [Disk.get?, closes_disk, Bool.false_eq_true, and_false, if_false]
  simp only [disk, List.lookup_cons, List.lookup_nil]
  cases real == [n] <;> rfl

theorem directory?_root (listable : Bool) : (disk listable).directory? .root = some [] := by
  have hroot : (disk listable).locate .root = .ok ⟨[], Disk.maxLinks⟩ := Disk.follow_nil
  exact Disk.directory?_eq_some hroot rfl

theorem tour_root (listable : Bool) : tour (disk listable) filter .root = [.root] := by
  have hnames : (disk listable).names [] = [n] := Disk.names_of_single (closes_disk listable []) rfl
  have hsub : (disk listable).subdirectories .root = [AbsPath.root.child n] := by
    rw [Disk.subdirectories, Disk.entriesAt, directory?_root]
    simp only [hnames]
    rfl
  have hn : filter.admits (AbsPath.root.child n) true = false := rfl
  rw [tour_of_admitted rfl, hsub, List.flatMap_cons, tour_of_not_admitted hn]
  rfl

end Locked

theorem locked_directory_passed_over :
    (startAll ⟨Locked.disk false, .root⟩ Locked.filter false ["/"]).outcome =
      (startAll ⟨Locked.disk true, .root⟩ Locked.filter false ["/"]).outcome ∧
    Toured (Locked.disk false) Locked.filter .root
      (start ⟨Locked.disk false, .root⟩ Locked.filter false "/") := by
  obtain ⟨-, -, hany, -⟩ := startAll_makes_tours ⟨Locked.disk true, .root⟩ Locked.filter
  obtain ⟨-, htoured, -⟩ := startAll_makes_tours ⟨Locked.disk false, .root⟩ Locked.filter
  refine ⟨hany ["/"] (Locked.disk false) Locked.alike ?_, htoured "/" ⟨[], Disk.maxLinks⟩ ?_ rfl⟩
  · intro raw hraw q hq
    rw [List.mem_singleton.1 hraw] at hq
    have hq : q ∈ tour (Locked.disk true) Locked.filter .root := hq
    rw [Locked.tour_root, List.mem_singleton] at hq
    rw [hq, Disk.isListable, Disk.isListable, Locked.directory?_root, Locked.directory?_root]
    rfl
  · exact Disk.follow_nil

end Walk
end PathSelection
