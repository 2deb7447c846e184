import PathSelection.Walk.Site
import PathSelection.PathFilter

namespace PathSelection

namespace Walk

inductive Event where
  /-- The directory that the walk was to start in is excluded. -/
  | skipped (directory : AbsPath)
  | listed (directory : AbsPath)
  /-- A directory was read that had been entered by another path. -/
  | revisited (directory : AbsPath) (real : RealPath)
  /-- A directory is excluded, and is left out with all beneath it. -/
  | pruned (directory : AbsPath)
  | file (path : AbsPath)
deriving DecidableEq

end Walk

/-- A walk is told by its events, in order. It ends well, or with the failure that stopped it. -/
structure Walk where
  events : List Walk.Event
  ended : Except Failure Unit

namespace Walk

def files (w : Walk) : List AbsPath :=
  w.events.filterMap fun
    | .file p => some p
    | _ => none

def listed (w : Walk) : List AbsPath :=
  w.events.filterMap fun
    | .listed p => some p
    | _ => none

def done : Walk := ⟨[], .ok ()⟩

def failed (failure : Failure) : Walk := ⟨[], .error failure⟩

def after (event : Event) (w : Walk) : Walk := ⟨event :: w.events, w.ended⟩

/-- One walk and then another, which does not take place if the first fails. -/
def andThen (first : Walk) (second : Walk) : Walk :=
  match first.ended with
  | .ok () => ⟨first.events ++ second.events, second.ended⟩
  | .error _ => first

/-- Looks at the directories in a directory: how that went, and which of them are not excluded. -/
def prune (f : PathFilter) : List Site → Walk × List Site
  | [] => (done, [])
  | s :: rest =>
    match f.excludes s.path true with
    | .error e => (failed e, [])
    | .ok true =>
      let (w, kept) := prune f rest
      (w.after (.pruned s.path), kept)
    | .ok false =>
      let (w, kept) := prune f rest
      (w, s :: kept)

def takeFiles (f : PathFilter) : List AbsPath → Walk
  | [] => done
  | p :: rest =>
    match f.excludes p false with
    | .error e => failed e
    | .ok true => takeFiles f rest
    | .ok false => (takeFiles f rest).after (.file p)

theorem prune_sublist (f : PathFilter) (sites : List Site) :
    (prune f sites).2.Sublist sites := by
  induction sites with
  | nil => exact .slnil
  | cons s rest ih =>
    unfold prune
    split
    · exact List.nil_sublist _
    · exact ih.cons s
    · exact ih.cons_cons s

def unvisited (d : Disk) (visited : List RealPath) : Nat :=
  d.dirs.countP fun p => !visited.contains p

theorem unvisited_cons_lt {d : Disk} {visited : List RealPath} {p : RealPath}
    (hp : d.isDirAt p = true) (hv : visited.contains p = false) :
    unvisited d (p :: visited) < unvisited d visited :=
  RealPath.countP_cons_lt (Disk.mem_dirs hp) hv

def enterable (followLinks : Bool) (sites : List Site) : List Site :=
  if followLinks then sites else sites.filter (!·.viaLink)

/-- What is left of a walk that does not follow links, by the weight of the sites ahead; of one
that does, first by the directories not entered yet. -/
def remaining (d : Disk) (followLinks : Bool) (visited : List RealPath) (ahead : List Site) :
    Nat × Nat :=
  (if followLinks then unvisited d visited else 0, total (Site.weight d) ahead)

theorem isDirAt_of_isListable {d : Disk} {s : Site} (h : s.isListable d = true) :
    d.isDirAt s.place.real = true := by
  unfold Site.isListable at h
  split at h
  · next hd => rw [Disk.isDirAt, hd]; rfl
  · cases h

/-- Walks the sites ahead, the first one and all beneath it before the next. -/
def run (d : Disk) (f : PathFilter) (followLinks : Bool) (visited : List RealPath)
    (ahead : List Site) : Walk :=
  match ahead with
  | [] => done
  | s :: rest =>
    if _ : s.isListable d = false then failed (.walk s.path.text .permissionDenied)
    else if _ : followLinks = true ∧ visited.contains s.place.real = true then
      ((run d f followLinks visited rest).after (.revisited s.path s.place.real)).after
        (.listed s.path)
    else
      let pruned := prune f (s.children d)
      let here := (pruned.1.andThen (takeFiles f (s.files d))).after (.listed s.path)
      match here.ended with
      | .error _ => here
      | .ok () =>
        here.andThen (run d f followLinks (if followLinks then s.place.real :: visited else visited)
          (enterable followLinks pruned.2 ++ rest))
termination_by remaining d followLinks visited ahead
decreasing_by
  · simp only [remaining, total]
    refine Prod.Lex.right _ ?_
    simp only [Site.weight]
    omega
  · rename_i hl hv
    cases followLinks with
    | true =>
      refine Prod.Lex.left _ _ ?_
      simp only [true_and, Bool.not_eq_true] at hv
      exact unvisited_cons_lt (isDirAt_of_isListable (by simpa using hl)) hv
    | false =>
      simp only [remaining, enterable, Bool.false_eq_true, if_false, total_append, total]
      refine Prod.Lex.right _ ?_
      have h₁ := total_le_of_sublist (Site.weight d)
        ((prune_sublist f (s.children d)).filter (!·.viaLink))
      have h₂ := s.total_weight_children_le d
      simp only [Site.weight] at h₁ h₂ ⊢
      omega

def below (d : Disk) (f : PathFilter) (followLinks : Bool) (path : AbsPath) (place : Place) :
    Walk :=
  match f.excludes path true with
  | .error e => failed e
  | .ok true => done.after (.skipped path)
  | .ok false => run d f followLinks [] [⟨path, place, false⟩]

/-- The walk from one starting path. A path that is no directory is taken as it is. -/
def start (v : View) (f : PathFilter) (followLinks : Bool) (raw : Text) : Walk :=
  let path := v.absolute raw
  match v.disk.locate path with
  | .error _ => failed (.pathNotFound raw)
  | .ok place =>
    if v.disk.isDirAt place.real then below v.disk f followLinks path place
    else done.after (.file path)

def startAll (v : View) (f : PathFilter) (followLinks : Bool) (raws : List Text) : Walk :=
  raws.foldr (fun raw w => (start v f followLinks raw).andThen w) done

end Walk
end PathSelection
