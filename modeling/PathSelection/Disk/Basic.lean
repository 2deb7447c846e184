import PathSelection.Path.Absolute
import PathSelection.Text.Order

namespace PathSelection

/-- Where an entry really is: the names from the root, none of them a link. -/
abbrev RealPath := List Name

theorem RealPath.countP_cons_lt {ps seen : List RealPath} {p : RealPath} (hp : p ∈ ps)
    (hseen : seen.contains p = false) :
    ps.countP (fun q => !(p :: seen).contains q) < ps.countP (fun q => !seen.contains q) := by
  have hle (qs : List RealPath) :
      qs.countP (fun q => !(p :: seen).contains q) ≤ qs.countP (fun q => !seen.contains q) := by
    refine List.countP_mono_left fun q _ hq => ?_
    rw [List.contains_cons, Bool.not_or, Bool.and_eq_true] at hq
    exact hq.2
  obtain ⟨before, after, rfl⟩ := List.append_of_mem hp
  have hbefore := hle before
  have hafter := hle after
  have hlast : ([p].countP fun q => !(p :: seen).contains q) <
      [p].countP fun q => !seen.contains q := by
    rw [List.countP_singleton, List.countP_singleton, hseen, List.contains_cons, BEq.rfl,
      Bool.true_or]
    decide
  simp only [List.append_cons before p after, List.countP_append]
  omega

section

-- There is a second instance in the libraries, which would be taken where they are imported.
local instance (priority := high) decidableEqContent : DecidableEq ByteArray :=
  ByteArray.instDecidableEq

inductive Entry where
  | file (content : ByteArray)
  | unreadable
  /-- A directory; one that is not listable hides its names from a listing, not from a path. -/
  | dir (listable : Bool)
  /-- A directory that may not be listed, nor passed on the way to what it holds. -/
  | sealed
  | link (target : Text)
deriving DecidableEq

end

def Entry.isDir : Entry → Bool
  | .dir _ | .sealed => true
  | _ => false

def Entry.isFile : Entry → Bool
  | .file _ | .unreadable => true
  | _ => false

/-- The entries of a disk. Of several entries at one place the first counts. -/
structure Disk where
  entries : List (RealPath × Entry)

inductive DiskError where
  | noSuchFile
  | notADirectory
  | isADirectory
  | permissionDenied
  | nameTooLong
  | tooManyLinks
deriving DecidableEq, Repr

def DiskError.message : DiskError → Text
  | .noSuchFile => "No such file or directory"
  | .notADirectory => "Not a directory"
  | .isADirectory => "Is a directory"
  | .permissionDenied => "Permission denied"
  | .nameTooLong => "File name too long"
  | .tooManyLinks => "Too many levels of symbolic links"

/-- Whether an error says that nothing is there, and does not leave it open. -/
def DiskError.isAbsence : DiskError → Bool
  | .noSuchFile | .notADirectory | .tooManyLinks => true
  | .isADirectory | .permissionDenied | .nameTooLong => false

/-- A place reached, and how many links may still be followed on the way further. -/
structure Place where
  real : RealPath
  links : Nat
deriving DecidableEq

def Text.byteLength (t : Text) : Nat := t.foldl (fun n c => n + c.utf8Size) 0

namespace Disk

def maxLinks : Nat := 40

/-- A name may take 255 bytes; for a longer one that is not there, its length is to blame. -/
def maxNameBytes : Nat := 255

def maxPathBytes : Nat := 4095

/-- Whether a directory, or one above it, is sealed. Of what lies in it nothing is to be seen. -/
def closes (d : Disk) (directory : RealPath) : Bool :=
  (List.range (directory.length + 1)).any fun n =>
    d.entries.lookup (directory.take n) = some .sealed

def get? (d : Disk) (p : RealPath) : Option Entry :=
  if p ≠ [] ∧ d.closes p.dropLast = true then none
  else d.entries.lookup p <|> if p = [] then some (.dir true) else none

/-- Why a step cannot be taken from a place, whatever it leads to. -/
def refusal? (d : Disk) (here : RealPath) (step : Step) : Option DiskError :=
  match d.get? here with
  | none => some .noSuchFile
  | some (.dir _) => none
  | some .sealed => if step = .here then none else some .permissionDenied
  | some _ => some .notADirectory

/-- Resolves the steps of a path from a place, following links. -/
def follow (d : Disk) (links : Nat) (here : RealPath) (steps : List Step) :
    Except DiskError Place :=
  match steps with
  | [] => .ok ⟨here, links⟩
  | step :: rest =>
    match d.refusal? here step with
    | some e => .error e
    | none =>
      match step with
      | .here => d.follow links here rest
      | .up => d.follow links here.dropLast rest
      | .down n =>
        match d.get? (here ++ [n]) with
        | none =>
          .error (if n.text.byteLength > maxNameBytes then .nameTooLong else .noSuchFile)
        | some (.link target) =>
          match links with
          | 0 => .error .tooManyLinks
          | links + 1 =>
            let start := if target.isAbsolute then [] else here
            d.follow links start (Step.ofPath target ++ rest)
        | some _ => d.follow links (here ++ [n]) rest
termination_by (links, steps.length)

def locate (d : Disk) (p : AbsPath) : Except DiskError Place :=
  d.follow maxLinks [] (p.names.map Step.down)

def isDirAt (d : Disk) (p : RealPath) : Bool := (d.get? p).any Entry.isDir

def isLinkAt (d : Disk) (p : RealPath) : Bool :=
  match d.get? p with
  | some (.link _) => true
  | _ => false

def entryOf? (directory : RealPath) (p : RealPath) : Option Name :=
  if p.dropLast = directory then p.getLast? else none

def names (d : Disk) (directory : RealPath) : List Name :=
  if d.closes directory then []
  else ((d.entries.map Prod.fst).filterMap (entryOf? directory)).eraseDups.mergeSort
    fun m n => Text.le m.text n.text

def dirs (d : Disk) : List RealPath := ([] :: d.entries.map Prod.fst).filter d.isDirAt

theorem mem_keys {d : Disk} {p : RealPath} {e : Entry} (h : d.get? p = some e)
    (hp : p ≠ [] ∨ e.isDir = false) : p ∈ d.entries.map Prod.fst := by
  have hl : d.entries.lookup p = some e := by
    unfold get? at h
    split at h
    · cases h
    · cases hl : d.entries.lookup p with
      | some e' =>
        rw [hl] at h
        exact h
      | none =>
        rw [hl] at h
        obtain ⟨hroot, h⟩ := Option.ite_none_right_eq_some.1 h
        cases h
        rcases hp with hp | hp
        · exact (hp hroot).elim
        · cases hp
  obtain ⟨l₁, l₂, he, -⟩ := List.lookup_eq_some_iff.1 hl
  simp [he]

theorem mem_dirs {d : Disk} {p : RealPath} (h : d.isDirAt p = true) : p ∈ d.dirs := by
  refine List.mem_filter.2 ⟨?_, h⟩
  obtain ⟨e, he, -⟩ := (Option.any_eq_true _ _).1 h
  by_cases hp : p = []
  · simp [hp]
  · exact List.mem_cons_of_mem _ (mem_keys he (.inl hp))

/-- How many of the entries are not open. A link is open while it is resolved. -/
def unopened (d : Disk) (opened : List RealPath) : Nat :=
  (d.entries.map Prod.fst).countP fun p => !opened.contains p

theorem unopened_cons_lt {d : Disk} {opened : List RealPath} {p : RealPath} {target : Text}
    (h : d.get? p = some (.link target)) (hp : opened.contains p = false) :
    d.unopened (p :: opened) < d.unopened opened :=
  RealPath.countP_cons_lt (mem_keys h (.inr rfl)) hp

end Disk
end PathSelection
