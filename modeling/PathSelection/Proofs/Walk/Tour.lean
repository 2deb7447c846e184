import Mathlib.Data.List.Basic
import PathSelection.Proofs.Walk.Survey

namespace PathSelection

namespace Walk

variable {d : Disk} {f : PathFilter} {p : AbsPath}

/-- The size of what lies beneath a path, for recursion from directory to directory. -/
def height (d : Disk) (p : AbsPath) : Nat :=
  match d.directory? p with
  | some real => d.below real + 1
  | none => 0

theorem height_lt {q : AbsPath} (h : q ∈ d.subdirectories p) : height d q < height d p := by
  obtain ⟨real, n, hp, -, hn, rfl⟩ := Disk.mem_entriesAt.1 h
  rw [height, height, hp, Disk.directory?_child hp hn]
  exact Nat.succ_lt_succ (Disk.below_child_lt hn)

/-- The directories at and beneath a path that are not excluded, in the order of a walk. -/
def tour (d : Disk) (f : PathFilter) (p : AbsPath) : List AbsPath :=
  if f.admits p true then p :: (d.subdirectories p).attach.flatMap fun q => tour d f q.1 else []
termination_by height d p
decreasing_by exact height_lt q.2

/-- The files at and beneath a path that are not excluded: first those in the directory, and then
those beneath each directory in it. -/
def gathered (d : Disk) (f : PathFilter) (p : AbsPath) : List AbsPath :=
  if f.admits p true then
    (d.leaves p).filter (f.admits · false) ++
      (d.subdirectories p).attach.flatMap fun q => gathered d f q.1
  else []
termination_by height d p
decreasing_by exact height_lt q.2

/-- The directories listed on the way through some: up to the first that gives trouble, and that one
too if it can be listed. -/
def attended (d : Disk) (f : PathFilter) : List AbsPath → List AbsPath
  | [] => []
  | p :: rest =>
    if d.isListable p then p :: (if (trouble d f p).isNone then attended d f rest else []) else []

def outcome (w : Walk) : Except Failure (List AbsPath) := w.ended.map fun _ => w.files

/-- What the walk from a starting path is to give. -/
def expected (v : View) (f : PathFilter) (raw : Text) : Except Failure (List AbsPath) :=
  match v.disk.locate (v.absolute raw) with
  | .error _ => .error (.pathNotFound raw)
  | .ok place =>
    if v.disk.isDirAt place.real then do
      let _ ← f.excludes (v.absolute raw) true
      stopped ((tour v.disk f (v.absolute raw)).findSome? (trouble v.disk f))
      return gathered v.disk f (v.absolute raw)
    else .ok [v.absolute raw]

section Tour

theorem tour_of_admitted (h : f.admits p true = true) :
    tour d f p = p :: (d.subdirectories p).flatMap (tour d f) := by
  rw [tour, if_pos h, List.flatMap_subtype (g := tour d f) fun q _ => rfl, List.unattach_attach]

theorem tour_of_not_admitted (h : f.admits p true = false) : tour d f p = [] := by
  rw [tour, h]
  rfl

theorem gathered_of_admitted (h : f.admits p true = true) :
    gathered d f p = (d.leaves p).filter (f.admits · false) ++
      (d.subdirectories p).flatMap (gathered d f) := by
  rw [gathered, if_pos h, List.flatMap_subtype (g := gathered d f) fun q _ => rfl,
    List.unattach_attach]

theorem gathered_of_not_admitted (h : f.admits p true = false) : gathered d f p = [] := by
  rw [gathered, h]
  rfl

theorem flatMap_filter_admits {g : AbsPath → List AbsPath}
    (hg : ∀ q, f.admits q true = false → g q = []) (ps : List AbsPath) :
    (ps.filter fun q => f.admits q true).flatMap g = ps.flatMap g := by
  induction ps with
  | nil => rfl
  | cons q ps ih =>
    rw [List.flatMap_cons, List.filter_cons]
    cases ha : f.admits q true with
    | true => rw [if_pos rfl, List.flatMap_cons, ih]
    | false => rw [if_neg Bool.false_ne_true, ih, hg q ha, List.nil_append]

theorem gathered_eq_flatMap (d : Disk) (f : PathFilter) (p : AbsPath) :
    gathered d f p =
      (tour d f p).flatMap fun q => (d.leaves q).filter (f.admits · false) := by
  induction hn : height d p using Nat.strongRecOn generalizing p with
  | ind n ih =>
    subst hn
    cases ha : f.admits p true with
    | false => rw [gathered_of_not_admitted ha, tour_of_not_admitted ha, List.flatMap_nil]
    | true =>
      rw [gathered_of_admitted ha, tour_of_admitted ha, List.flatMap_cons, List.flatMap_assoc]
      refine congrArg _ (List.flatMap_congr fun q hq => ?_)
      exact ih _ (height_lt hq) q rfl

theorem tour_subset {g : PathFilter} (h : ∀ q, f.admits q true = true → g.admits q true = true)
    (p : AbsPath) : tour d f p ⊆ tour d g p := by
  induction hn : height d p using Nat.strongRecOn generalizing p with
  | ind n ih =>
    subst hn
    intro q hq
    cases ha : f.admits p true with
    | false =>
      rw [tour_of_not_admitted ha] at hq
      cases hq
    | true =>
      rw [tour_of_admitted ha] at hq
      rw [tour_of_admitted (h p ha)]
      rcases List.mem_cons.1 hq with rfl | hq
      · exact List.mem_cons_self
      · obtain ⟨c, hc, hq⟩ := List.mem_flatMap.1 hq
        apply List.mem_cons_of_mem
        exact List.mem_flatMap.2 ⟨c, hc, ih _ (height_lt hc) c rfl hq⟩

theorem gathered_subset {g : PathFilter}
    (h : ∀ q isDir, f.admits q isDir = true → g.admits q isDir = true) (p : AbsPath) :
    gathered d f p ⊆ gathered d g p := by
  intro q hq
  rw [gathered_eq_flatMap] at hq ⊢
  obtain ⟨c, hc, hq⟩ := List.mem_flatMap.1 hq
  obtain ⟨hleaf, ha⟩ := List.mem_filter.1 hq
  have hc' := tour_subset (fun q => h q true) p hc
  exact List.mem_flatMap.2 ⟨c, hc', List.mem_filter.2 ⟨hleaf, h q false ha⟩⟩

end Tour

section Ended

theorem tour_entered {s : Site} (h : s.Located d) (hl : s.isListable d = true)
    (hs : (survey d f s).ended = .ok ()) (ha : f.admits s.path true = true) :
    (∀ c ∈ entered d f false s, c.Located d ∧ f.admits c.path true = true) ∧
      tour d f s.path = s.path :: ((entered d f false s).map (·.path)).flatMap (tour d f) ∧
      gathered d f s.path =
        (survey d f s).files ++ ((entered d f false s).map (·.path)).flatMap (gathered d f) := by
  obtain ⟨-, hfiles, hentered⟩ := survey_ok hl hs
  have hpaths : (entered d f false s).map (·.path) =
      (d.subdirectories s.path).filter fun q => f.admits q true := by
    rw [hentered, ← h.children.2, List.filter_map]
    simp only [List.filter_filter, Bool.and_comm, Function.comp_def]
  refine ⟨fun c hc => ?_, ?_, ?_⟩
  · rw [hentered] at hc
    have hc := (List.mem_filter.1 (List.mem_filter.1 hc).1)
    exact ⟨h.of_mem_children hc.1, hc.2⟩
  · rw [tour_of_admitted ha, hpaths, flatMap_filter_admits fun q => tour_of_not_admitted]
  · rw [gathered_of_admitted ha, hpaths, flatMap_filter_admits fun q => gathered_of_not_admitted,
      hfiles, h.files]

/-- A walk makes the tours of the directories ahead, until the first that gives trouble. -/
theorem run_tour {visited : List RealPath} {ahead : List Site}
    (h : ∀ s ∈ ahead, s.Located d ∧ f.admits s.path true = true) :
    (run d f false visited ahead).ended =
        stopped (((ahead.map (·.path)).flatMap (tour d f)).findSome? (trouble d f)) ∧
      (run d f false visited ahead).listed =
        attended d f ((ahead.map (·.path)).flatMap (tour d f)) ∧
      ((run d f false visited ahead).ended = .ok () →
        (run d f false visited ahead).files = (ahead.map (·.path)).flatMap (gathered d f)) := by
  induction visited, ahead using Walk.run.induct d f false with
  | case1 visited =>
    rw [run]
    exact ⟨rfl, rfl, fun _ => rfl⟩
  | case2 visited s rest hl =>
    obtain ⟨hs, ha⟩ := h s List.mem_cons_self
    have htrouble : trouble d f s.path = some (.walk s.path.text .permissionDenied) := by
      rw [trouble, ← hs.isListable, hl, if_neg Bool.false_ne_true]
    rw [run, dif_pos hl, List.map_cons, List.flatMap_cons, tour_of_admitted ha, List.cons_append,
      List.findSome?_cons, htrouble, attended, ← hs.isListable, hl]
    refine ⟨rfl, rfl, fun hok => ?_⟩
    cases hok
  | case3 visited s rest hl hv ih => cases hv.1
  | case4 visited s rest hl hv pruned here e he =>
    obtain ⟨hs, ha⟩ := h s List.mem_cons_self
    have hl : s.isListable d = true := by simpa using hl
    obtain ⟨-, -, -, -, hlisted⟩ := survey_events d f s
    have hended := @ended_survey d f s hs hl
    have he : (survey d f s).ended = .error e := he
    have htrouble := stopped_eq_error (hended.symm.trans he)
    rw [run_cons hl, he, List.map_cons, List.flatMap_cons, tour_of_admitted ha, List.cons_append,
      List.findSome?_cons, htrouble, attended, ← hs.isListable, if_pos hl, htrouble]
    refine ⟨he, hlisted, fun hok => ?_⟩
    cases he.symm.trans hok
  | case5 visited s rest hl hv pruned here he ih =>
    obtain ⟨hs, ha⟩ := h s List.mem_cons_self
    have hl : s.isListable d = true := by simpa using hl
    obtain ⟨-, -, -, -, hlisted⟩ := survey_events d f s
    have hended := @ended_survey d f s hs hl
    have he : (survey d f s).ended = .ok () := he
    have htrouble := stopped_eq_ok (hended.symm.trans he)
    obtain ⟨hentered, htour, hgathered⟩ := tour_entered hs hl he ha
    -- What is entered from `s` goes before the rest, as it does on the tour of `s`.
    have hahead : ∀ c ∈ entered d f false s ++ rest, c.Located d ∧ f.admits c.path true = true := by
      intro c hc
      rcases List.mem_append.1 hc with hc | hc
      · exact hentered c hc
      · exact h c (List.mem_cons_of_mem _ hc)
    let onward := run d f false visited (entered d f false s ++ rest)
    have ih : onward.ended = _ ∧ onward.listed = _ ∧ (onward.ended = .ok () → onward.files = _) :=
      ih hahead
    obtain ⟨hon, hlist, hfiles⟩ := andThen_of_ok he onward
    rw [List.map_append, List.flatMap_append, List.flatMap_append] at ih
    rw [run_cons hl, he, List.map_cons, List.flatMap_cons, List.flatMap_cons, htour, hgathered,
      List.cons_append, List.findSome?_cons, htrouble, attended, ← hs.isListable, if_pos hl,
      htrouble]
    refine ⟨hon.trans ih.1, ?_, fun hok => ?_⟩
    · rw [hlist, hlisted, ih.2.1]
      rfl
    · rw [hfiles, ih.2.2 (hon.symm.trans hok), List.append_assoc]
      rfl

end Ended

end Walk
end PathSelection
