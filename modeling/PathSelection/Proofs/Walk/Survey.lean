import PathSelection.Proofs.Walk.Directory

namespace PathSelection

namespace Walk

/-- Whether an event tells of an entry of the directory last listed. -/
def Event.isWithin : Event → Bool
  | .pruned _ | .file _ => true
  | _ => false

/-- The first of some paths that the filter cannot decide on is to blame. -/
def undecided (f : PathFilter) (isDir : Bool) (ps : List AbsPath) : Option Failure :=
  ps.findSome? fun p =>
    match f.excludes p isDir with
    | .error e => some e
    | .ok _ => none

/-- What stops a walk in a directory: it cannot be listed, or the filter cannot decide on one of
its entries, the directories coming first. -/
def trouble (d : Disk) (f : PathFilter) (p : AbsPath) : Option Failure :=
  if d.isListable p then
    (undecided f true (d.directories p)).or (undecided f false (d.leaves p))
  else some (.walk p.text .permissionDenied)

def stopped : Option Failure → Except Failure Unit
  | some e => .error e
  | none => .ok ()

variable {d d' : Disk} {f : PathFilter} {p : AbsPath}

section Events

theorem listed_within {w : Walk} (h : ∀ e ∈ w.events, e.isWithin = true) : w.listed = [] := by
  refine List.filterMap_eq_nil_iff.2 fun e he => ?_
  have hw := h e he
  cases e with
  | listed p => cases hw
  | _ => rfl

theorem within_prune (f : PathFilter) (sites : List Site) :
    (∀ e ∈ (prune f sites).1.events, e.isWithin = true) ∧ (prune f sites).1.files = [] := by
  induction sites with
  | nil => exact ⟨List.forall_mem_nil _, rfl⟩
  | cons s rest ih =>
    obtain ⟨hwithin, hfiles⟩ := ih
    rw [prune]
    cases f.excludes s.path true with
    | error e => exact ⟨List.forall_mem_nil _, rfl⟩
    | ok b =>
      cases b with
      | true => exact ⟨List.forall_mem_cons.2 ⟨rfl, hwithin⟩, (files_after _ _).trans hfiles⟩
      | false => exact ⟨hwithin, hfiles⟩

theorem within_takeFiles (f : PathFilter) (ps : List AbsPath) :
    (∀ e ∈ (takeFiles f ps).events, e.isWithin = true) ∧
      (takeFiles f ps).files <+: ps.filter (f.admits · false) := by
  induction ps with
  | nil => exact ⟨List.forall_mem_nil _, List.prefix_rfl⟩
  | cons p rest ih =>
    obtain ⟨hwithin, hfiles⟩ := ih
    rw [takeFiles]
    cases he : f.excludes p false with
    | error e => exact ⟨List.forall_mem_nil _, List.nil_prefix⟩
    | ok b =>
      have ha := PathFilter.admits_eq_false he
      cases b with
      | true =>
        rw [List.filter_cons, ha]
        exact ⟨hwithin, hfiles⟩
      | false =>
        rw [List.filter_cons, ha]
        refine ⟨List.forall_mem_cons.2 ⟨rfl, hwithin⟩, ?_⟩
        rw [files_after]
        exact List.cons_prefix_cons.2 ⟨rfl, hfiles⟩

theorem survey_events (d : Disk) (f : PathFilter) (s : Site) :
    ∃ es, (survey d f s).events = .listed s.path :: es ∧ (∀ e ∈ es, e.isWithin = true) ∧
      (survey d f s).files <+: (s.files d).filter (f.admits · false) ∧
      (survey d f s).listed = [s.path] := by
  obtain ⟨hprune, hnone⟩ := within_prune f (s.children d)
  obtain ⟨htake, hfiles⟩ := within_takeFiles f (s.files d)
  rw [survey]
  cases he : (prune f (s.children d)).1.ended with
  | error e =>
    rw [andThen_of_error he, files_after, listed_after, hnone, listed_within hprune]
    exact ⟨_, rfl, hprune, List.nil_prefix, rfl⟩
  | ok u =>
    obtain ⟨-, hl, hf⟩ := andThen_of_ok he (takeFiles f (s.files d))
    rw [files_after, listed_after, hf, hl, hnone, listed_within hprune, listed_within htake]
    refine ⟨_, rfl, ?_, hfiles, rfl⟩
    rw [andThen, he]
    exact List.forall_mem_append.2 ⟨hprune, htake⟩

end Events

section Ended

theorem stopped_eq_ok {e : Option Failure} (h : stopped e = .ok ()) : e = none := by
  cases e with
  | none => rfl
  | some e => cases h

theorem stopped_eq_error {e : Option Failure} {failure : Failure} (h : stopped e = .error failure) :
    e = some failure := by
  cases e with
  | none => cases h
  | some e =>
    cases h
    rfl

theorem ended_prune (f : PathFilter) (sites : List Site) :
    (prune f sites).1.ended = stopped (undecided f true (sites.map (·.path))) := by
  induction sites with
  | nil => rfl
  | cons s rest ih =>
    rw [prune, undecided, List.map_cons, List.findSome?_cons]
    cases f.excludes s.path true with
    | error e => rfl
    | ok b => cases b <;> exact ih

theorem ended_takeFiles (f : PathFilter) (ps : List AbsPath) :
    (takeFiles f ps).ended = stopped (undecided f false ps) := by
  induction ps with
  | nil => rfl
  | cons p rest ih =>
    rw [takeFiles, undecided, List.findSome?_cons]
    cases f.excludes p false with
    | error e => rfl
    | ok b => cases b <;> exact ih

theorem ended_survey {s : Site} (h : s.Located d) (hl : s.isListable d = true) :
    (survey d f s).ended = stopped (trouble d f s.path) := by
  have hprune := ended_prune f (s.children d)
  have htake := ended_takeFiles f (s.files d)
  have hsurvey : (survey d f s).ended =
      ((prune f (s.children d)).1.andThen (takeFiles f (s.files d))).ended := rfl
  rw [h.children.1] at hprune
  rw [h.files] at htake
  rw [trouble, ← h.isListable, if_pos hl, hsurvey]
  cases hp : undecided f true (d.directories s.path) with
  | some e =>
    rw [hp] at hprune
    rw [andThen_of_error hprune, hprune]
    rfl
  | none =>
    rw [hp] at hprune
    rw [(andThen_of_ok hprune _).1, h.files, htake]
    rfl

end Ended

section Trouble

theorem isListable_of_trouble (h : trouble d f p = none) : d.isListable p = true := by
  unfold trouble at h
  split at h
  · next hl => exact hl
  · cases h

theorem undecided_error {isDir : Bool} {ps : List AbsPath} {e : Failure}
    (h : undecided f isDir ps = some e) : ∃ pattern fault, e = .pattern pattern fault := by
  obtain ⟨q, -, hq⟩ := List.exists_of_findSome?_eq_some h
  cases he : f.excludes q isDir with
  | ok b =>
    rw [he] at hq
    cases hq
  | error e' =>
    rw [he] at hq
    cases hq
    exact PathFilter.excludes_error he

theorem trouble_eq_walk {t : Text} {error : DiskError} :
    trouble d f p = some (.walk t error) ↔
      error = .permissionDenied ∧ d.isListable p = false ∧ p.text = t := by
  unfold trouble
  cases hl : d.isListable p with
  | false => simp [and_comm, eq_comm]
  | true =>
    refine ⟨fun h => ?_, nofun⟩
    rw [if_pos rfl, Option.or_eq_some_iff] at h
    rcases h with h | ⟨-, h⟩
    all_goals
      obtain ⟨pattern, fault, hp⟩ := undecided_error h
      cases hp

theorem trouble_alike (h : d.Alike d') (hl : d'.isListable p = d.isListable p) :
    trouble d' f p = trouble d f p := by
  rw [trouble, trouble, hl, h.directories, h.leaves]

end Trouble

end Walk
end PathSelection
